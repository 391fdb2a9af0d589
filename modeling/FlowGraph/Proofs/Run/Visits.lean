import FlowGraph.Proofs.Run.Simulation
import FlowGraph.Proofs.Run.Written

/-!
The visits of one node come one after the other. A later visit belongs to an iteration that the earlier
ones precede, and a node that is called, or skipped, has not been at work in that iteration before. So
a node and an iteration tell one visit at most.
-/

namespace FlowGraph

open Plan

/-- The visits of a node in an iteration. -/
def visitsAt (journal : List Entry) (nodeId : String) (iteration : List Nat) : List Visit :=
  (visitsIn journal).filter fun v => v.nodeId = nodeId ∧ v.iteration = iteration

namespace RunSettings

variable {s : RunSettings} {c : Snapshot} {rest : List Entry}

/-- A visit comes after the other visits of its node. -/
theorem Reachable.precedes_of_visited (hp : s.plan.Lawful) (hc : s.Reachable c) {u v : Visit}
    (hv : .visited v :: rest <:+ c.run.journal) (hu : .visited u ∈ rest)
    (hid : u.nodeId = v.nodeId) : Precedes u.iteration v.iteration := by
  obtain ⟨c₀, hc₀, hwrites⟩ := hc.written hp hv
  have hstanding := standing_of_reachable hp hc₀
  cases hwrites with
  | skipped =>
      obtain ⟨-, huntouched, -⟩ := hstanding
      have hu := (List.mem_cons.mp hu).resolve_left (by simp)
      exact (huntouched _ List.mem_cons_self).visited hu (Or.inl hid)
  | skippedWith hscope hadded =>
      obtain ⟨-, huntouched, -⟩ := hstanding
      rcases List.mem_append.mp hu with hu | hu
      · exact absurd (by rw [Entry.located?, hid]) (hadded _ hu u.iteration)
      · exact (huntouched _ List.mem_cons_self).visited hu (Or.inr (hid ▸ hscope))
  | skippedFor hscope hadded =>
      cases hstanding with
      | answered _ hbody _ _ =>
          rcases List.mem_append.mp hu with hu | hu
          · exact absurd (by rw [Entry.located?, hid]) (hadded _ hu u.iteration)
          · exact hbody.visited hu (hid ▸ hscope)
  | completed | failed =>
      cases hstanding with
      | settling hvisiting _ =>
          have hu := (List.mem_cons.mp hu).resolve_left (by simp)
          exact hvisiting.unvisited u hu hid

/-- A node that is skipped has not been at work in the iteration. -/
theorem Reachable.precedes_of_skipped (hp : s.plan.Lawful) (hc : s.Reachable c) {v : Visit}
    (hv : .visited v :: rest <:+ c.run.journal) (hskipped : v.status = .skipped) :
    AllPrecede rest (· = v.nodeId) v.iteration := by
  obtain ⟨c₀, hc₀, hwrites⟩ := hc.written hp hv
  have hstanding := standing_of_reachable hp hc₀
  have hsent : ∀ {event id it}, (Entry.sent event).located? ≠ some (id, it) := by
    simp [Entry.located?]
  cases hwrites with
  | skipped =>
      obtain ⟨-, huntouched, -⟩ := hstanding
      show AllPrecede ([_] ++ _) _ _
      refine ((huntouched _ List.mem_cons_self).mono ?_).extend ?_
      · exact fun id hid => Or.inl hid
      · intro e he id it hlocated
        obtain rfl := List.mem_singleton.mp he
        exact absurd hlocated hsent
  | skippedWith hscope hadded =>
      obtain ⟨-, huntouched, -⟩ := hstanding
      refine ((huntouched _ List.mem_cons_self).mono ?_).extend ?_
      · rintro id rfl
        exact Or.inr hscope
      · rintro e he id it hlocated rfl
        exact absurd hlocated (hadded e he it)
  | skippedFor hscope hadded =>
      cases hstanding with
      | answered _ hbody _ _ =>
          refine (hbody.mono ?_).extend ?_
          · rintro id rfl
            exact hscope
          · rintro e he id it hlocated rfl
            exact absurd hlocated (hadded e he it)
  | completed | failed => exact absurd hskipped (by simp)

/-- A node that is called has not been at work in the iteration. -/
theorem Reachable.precedes_of_called (hp : s.plan.Lawful) (hc : s.Reachable c) {id : String}
    {it : List Nat} {inputs : Dict Value} (h : .called id it inputs :: rest <:+ c.run.journal) :
    AllPrecede rest (· = id) it := by
  obtain ⟨c₀, hc₀, hwrites⟩ := hc.written hp h
  cases hwrites with
  | called =>
      obtain ⟨-, huntouched, -⟩ := standing_of_reachable hp hc₀
      show AllPrecede ([_] ++ _) _ _
      refine ((huntouched _ List.mem_cons_self).mono ?_).extend ?_
      · exact fun id hid => Or.inl hid
      · intro e he id it hlocated
        obtain rfl := List.mem_singleton.mp he
        exact absurd hlocated (by simp [Entry.located?])

/-- The visits of one node are in the order of their iterations. -/
theorem Reachable.pairwise_visits (hp : s.plan.Lawful) (hc : s.Reachable c) :
    (visitsIn c.run.journal).Pairwise fun u v =>
      u.nodeId = v.nodeId → Precedes u.iteration v.iteration := by
  have hordered : ∀ v rest, .visited v :: rest <:+ c.run.journal → ∀ u ∈ visitsIn rest,
      u.nodeId = v.nodeId → Precedes u.iteration v.iteration :=
    fun v rest hv u hu => hc.precedes_of_visited hp hv (mem_visitsIn.mp hu)
  generalize c.run.journal = journal at hordered
  induction journal with
  | nil => exact List.Pairwise.nil
  | cons e journal ih =>
      have hrest := ih fun v rest hv => hordered v rest (hv.trans (List.suffix_cons e journal))
      cases e with
      | visited v =>
          have hvisits : visitsIn (.visited v :: journal) = visitsIn journal ++ [v] :=
            visitsIn_append [.visited v] journal
          rw [hvisits, List.pairwise_append]
          refine ⟨hrest, List.pairwise_singleton _ v, fun u hu w hw => ?_⟩
          obtain rfl := List.mem_singleton.mp hw
          exact hordered w journal (List.suffix_refl _) u hu
      | _ => exact hrest

/-- Two visits of a node of which neither iteration comes before the other are the same. -/
theorem Reachable.visit_eq (hp : s.plan.Lawful) (hc : s.Reachable c) {u v : Visit}
    (hu : u ∈ visitsIn c.run.journal) (hv : v ∈ visitsIn c.run.journal) (hid : u.nodeId = v.nodeId)
    (huv : ¬ Precedes u.iteration v.iteration) (hvu : ¬ Precedes v.iteration u.iteration) : u = v := by
  have hpairwise := hc.pairwise_visits hp
  have hcompare := List.Pairwise.forall_of_forall_of_flip
    (R := fun u v : Visit => u.nodeId = v.nodeId →
      u = v ∨ Precedes u.iteration v.iteration ∨ Precedes v.iteration u.iteration)
    (fun u _ _ => Or.inl rfl)
    (hpairwise.imp fun h hid => Or.inr (Or.inl (h hid)))
    (hpairwise.imp fun h hid => Or.inr (Or.inr (h hid.symm)))
  rcases hcompare hu hv hid with heq | h | h
  · exact heq
  · exact absurd h huv
  · exact absurd h hvu

theorem Reachable.visit_eq_of_iteration_eq (hp : s.plan.Lawful) (hc : s.Reachable c) {u v : Visit}
    (hu : u ∈ visitsIn c.run.journal) (hv : v ∈ visitsIn c.run.journal) (hid : u.nodeId = v.nodeId)
    (hit : u.iteration = v.iteration) : u = v := by
  refine hc.visit_eq hp hu hv hid ?_ ?_
  · rw [hit]
    exact Precedes.irrefl _
  · rw [hit]
    exact Precedes.irrefl _

theorem Reachable.nodup_visits (hp : s.plan.Lawful) (hc : s.Reachable c) :
    (visitsIn c.run.journal).Nodup := by
  refine (hc.pairwise_visits hp).imp fun {u v} h heq => ?_
  subst heq
  exact Precedes.irrefl _ (h rfl)

/-- The only visit with some property is the one that a list of visits holds. -/
theorem Reachable.filter_visits_eq (hp : s.plan.Lawful) (hc : s.Reachable c) {f : Visit → Bool}
    {v : Visit} (hv : v ∈ visitsIn c.run.journal) (hf : f v = true)
    (hother : ∀ u ∈ visitsIn c.run.journal, f u = true → u = v) :
    (visitsIn c.run.journal).filter f = [v] := by
  refine List.perm_singleton.mp ((List.perm_ext_iff_of_nodup ((hc.nodup_visits hp).filter f)
    (List.nodup_singleton v)).mpr fun u => ?_)
  rw [List.mem_filter, List.mem_singleton]
  constructor
  · rintro ⟨hu, hfu⟩
    exact hother u hu hfu
  · rintro rfl
    exact ⟨hv, hf⟩

/-- A node is visited at most once in an iteration. -/
theorem Reachable.visitsAt_eq (hp : s.plan.Lawful) (hc : s.Reachable c) {v : Visit}
    (hv : .visited v ∈ c.run.journal) :
    visitsAt c.run.journal v.nodeId v.iteration = [v] := by
  refine hc.filter_visits_eq hp (mem_visitsIn.mpr hv) (by simp) fun u hu huv => ?_
  obtain ⟨hid, hit⟩ := of_decide_eq_true huv
  exact hc.visit_eq_of_iteration_eq hp hu (mem_visitsIn.mpr hv) hid hit

end RunSettings

end FlowGraph
