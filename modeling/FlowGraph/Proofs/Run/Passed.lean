import FlowGraph.Proofs.Run.LoopVisits

/-!
Passes that are over. Once the pass of an iteration has ended, the loop is in a later iteration, or it is
about to complete, or its visit has been recorded, or the run is failing; it stays so, and nothing is
called or visited in that iteration any more.
-/

namespace FlowGraph

open Plan RunSettings

/-- Whether the iteration of a loop at an index is over, in the visit that belongs to an iteration of the
loops around it. -/
inductive Snapshot.Past (id : String) (it : List Nat) (k : Nat) : Snapshot → Prop
  | visited {c : Snapshot} {v : Visit} (hv : .visited v ∈ c.run.journal) (hid : v.nodeId = id)
      (hit : v.iteration = it) : Past id it k c
  | settling {v outcome loops r} (hid : v.node.id = id) (hit : (placeOf loops).iteration = it) :
      Past id it k ⟨.settling v outcome, loops, r⟩
  | later (inner : List OpenLoop) {phase o outer r} (hid : o.node.id = id) (hit : (placeOf outer).iteration = it)
      (hlater : k < o.index) : Past id it k ⟨phase, inner ++ o :: outer, r⟩
  | failing {frame failure loops r} : Past id it k ⟨.leaving frame (.failed failure), loops, r⟩
  | ended {loops r} : Past id it k ⟨.ended, loops, r⟩

namespace RunSettings

variable {s : RunSettings} {c c' : Snapshot} {id : String} {it : List Nat} {k : Nat}

/-- The loops stay as they are, or one is opened at the top, or something happens to the innermost one. -/
theorem Step.past_of_later (hstep : s.Step c c') {inner outer : List OpenLoop} {o : OpenLoop}
    (hloops : c.loops = inner ++ o :: outer) (hid : o.node.id = id) (hit : (placeOf outer).iteration = it)
    (hlater : k < o.index) : c'.Past id it k := by
  cases hstep with
  | finish | skip | call | judge | refuse | settle =>
      obtain rfl := hloops
      exact .later _ hid hit hlater
  | @launch v result loops r handles elements outputs =>
      obtain rfl := hloops
      exact .later (_ :: inner) hid hit hlater
  | @enter o' loops r =>
      rw [show o' :: loops = _ from hloops]
      exact .later _ hid hit hlater
  | @cancel o' loops r | @exhaust o' loops r | @close frame exit o' loops r =>
      rcases List.cons_eq_append_iff.mp hloops with ⟨rfl, heq⟩ | ⟨inner', rfl, rfl⟩
      · obtain ⟨rfl, rfl⟩ := List.cons.inj heq
        exact .settling hid hit
      · exact .later _ hid hit hlater
  | @again frame exit o' loops r =>
      rcases List.cons_eq_append_iff.mp hloops with ⟨rfl, heq⟩ | ⟨inner', rfl, rfl⟩
      · obtain ⟨rfl, rfl⟩ := List.cons.inj heq
        exact .later [] hid hit (Nat.lt_succ_of_lt hlater)
      · exact .later (_ :: inner') hid hit hlater
  | abandon => exact .failing
  | conclude => exact .ended

/-- An iteration that is over stays so. -/
theorem Step.past (hc : s.plan.Standing c) (hstep : s.Step c c') (h : c.Past id it k) :
    c'.Past id it k := by
  cases h with
  | visited hv hid hit => exact .visited ((hstep.journal_suffix hc).subset hv) hid hit
  | @settling v outcome loops r hid hit =>
      cases hstep with
      | settle =>
          cases outcome with
          | error cause =>
              refine .visited (v := ⟨v.node.id, (placeOf loops).iteration, .failed, none,
                r.clock - v.started⟩) ?_ hid hit
              exact (s.journal_fail _ _ _ _ _).symm ▸ List.mem_cons_self
          | ok completion =>
              refine .visited (v := ⟨v.node.id, (placeOf loops).iteration, .completed,
                completion.signal, r.clock - v.started⟩) ?_ hid hit
              exact (s.journal_complete _ _ _ _ _ v.frame _).symm ▸ List.mem_cons_self
  | later inner hid hit hlater => exact hstep.past_of_later rfl hid hit hlater
  | failing =>
      cases hstep with
      | again _ hexit => rcases hexit with h | h <;> exact absurd h (by simp)
      | close _ hexit => rcases hexit with ⟨h, -⟩ | ⟨_, h, -⟩ <;> exact absurd h (by simp)
      | abandon => exact .failing
      | conclude => exact .ended
  | ended => cases hstep

/-- What is written between two snapshots is written by a step on the way. -/
theorem Reachable.written_between (hp : s.plan.Lawful) (hc : s.Reachable c) (hsteps : s.Steps c c')
    {e : Entry} {rest : List Entry} (h : e :: rest <:+ c'.run.journal) :
    e :: rest <:+ c.run.journal ∨ ∃ c₀, s.Reachable c₀ ∧ s.Steps c c₀ ∧ s.Writes c₀ e rest := by
  induction hsteps with
  | refl => exact Or.inl h
  | @tail c₁ c₂ hsteps hstep ih =>
      have hc₁ := hc.steps hsteps
      rcases hstep.written hp (standing_of_reachable hp hc₁) h with h | h
      · exact ih h
      · exact Or.inr ⟨c₁, hc₁, hsteps, h⟩

theorem Reachable.past_of_steps (hp : s.plan.Lawful) (hc : s.Reachable c) (h : c.Past id it k)
    (hsteps : s.Steps c c') : c'.Past id it k := by
  induction hsteps with
  | refl => exact h
  | tail hsteps hstep ih => exact hstep.past (standing_of_reachable hp (hc.steps hsteps)) ih

/-- What is called, answered or visited is the member of a pass whose turn it is, or lies inside of it. -/
theorem Writes.exists_due (hc : s.plan.Standing c) {e : Entry} {rest : List Entry}
    (h : s.Writes c e rest) {id : String} {it : List Nat} (hlocated : e.located? = some (id, it)) :
    ∃ frame n todo, s.plan.Level c.run.journal c.loops frame (n :: todo) ∧
      s.plan.Stacked c.run.journal c.loops ∧ s.plan.Within n.id id ∧ it = (placeOf c.loops).iteration ∧
      (∀ v outcome, c.phase = .settling v outcome → v.node = n) ∧
      (∀ frame exit, c.phase ≠ .leaving frame exit) ∧ c.phase ≠ .ended := by
  cases h with
  | sent | passed => exact absurd hlocated (by simp [Entry.located?])
  | called | answered | skipped =>
      obtain ⟨rfl, rfl⟩ := Prod.mk.inj (Option.some.inj hlocated)
      obtain ⟨hlevel, -, hstacked⟩ := hc
      exact ⟨_, _, _, hlevel, hstacked, Or.inl rfl, rfl, by simp⟩
  | skippedWith hscope =>
      obtain ⟨rfl, rfl⟩ := Prod.mk.inj (Option.some.inj hlocated)
      obtain ⟨hlevel, -, hstacked⟩ := hc
      exact ⟨_, _, _, hlevel, hstacked, Or.inr hscope, rfl, by simp⟩
  | skippedFor hscope =>
      obtain ⟨rfl, rfl⟩ := Prod.mk.inj (Option.some.inj hlocated)
      cases hc with
      | answered hvisiting _ _ hstacked =>
          exact ⟨_, _, _, hvisiting.level, hstacked, Or.inr hscope, rfl, by simp⟩
  | completed | failed =>
      obtain ⟨rfl, rfl⟩ := Prod.mk.inj (Option.some.inj hlocated)
      cases hc with
      | settling hvisiting hstacked =>
          refine ⟨_, _, _, hvisiting.level, hstacked, Or.inl rfl, rfl, fun v outcome hphase => ?_,
            by simp, by simp⟩
          rw [(Phase.settling.inj hphase).1]

/-- Nothing is called, answered or visited in an iteration that is over. -/
theorem Writes.not_past (hp : s.plan.Lawful) (hc : s.plan.Standing c) {e : Entry} {rest : List Entry}
    (h : s.Writes c e rest) {id' : String} {it' : List Nat} (hlocated : e.located? = some (id', it'))
    (hscope : (s.plan.scope id')[it.length]? = some id) (hpast : c.Past id it k) :
    ¬ it ++ [k] <+: it' := by
  rintro ⟨more, rfl⟩
  obtain ⟨frame, n, todo, hlevel, hstacked, hwithin, hit, hsettling, hleaving, hended⟩ :=
    h.exists_due hc hlocated
  have hnode := hlevel.node_mem
  have hids : n.scope = idsOf c.loops :=
    hstacked.scope_eq hp hnode (hlevel.getLast?_scope hp List.mem_cons_self)
  have hnodup : (idsOf c.loops).Nodup := hids ▸ hp.scope_nodup n hnode
  have hprefix : idsOf c.loops <+: s.plan.scope id' :=
    hids ▸ hp.scope_prefix_of_within hnode hwithin
  have hdepth : it.length < (idsOf c.loops).length := by
    rw [length_idsOf, ← length_iteration_placeOf, ← hit]
    simp
  have hplace : (idsOf c.loops)[it.length]? = some id := by
    obtain ⟨inside, hinside⟩ := hprefix
    rwa [← hinside, List.getElem?_append_left hdepth] at hscope
  obtain ⟨outer, o, ho, hid, hopened, -, htake, hindex⟩ := hstacked.exists_opened_at hnodup hplace
  rw [← hit] at htake hindex
  obtain rfl : it = (placeOf outer).iteration := by
    rw [← htake, List.append_assoc, List.take_left]
  obtain rfl : k = o.index := by simpa using hindex
  cases hpast with
  | visited hv hvid hvit => exact (hopened.visiting.unvisited _ hv (hvid.trans hid.symm)).ne hvit
  | @settling v outcome loops r hvid _ =>
      obtain rfl := hsettling v outcome rfl
      have hself : v.node.id ∈ v.node.scope := hids ▸ mem_idsOf.mpr ⟨o, ho, hid.trans hvid.symm⟩
      exact hp.not_mem_scope_self v.node hnode hself
  | @later inner phase o' outer' r hid' _ hlater =>
      have hmap : ((inner ++ o' :: outer').map (·.node.id)).Nodup := List.nodup_reverse.mp hnodup
      obtain rfl := List.inj_on_of_nodup_map hmap ho (by simp) (hid.trans hid'.symm)
      exact Nat.lt_irrefl _ hlater
  | failing => exact hleaving _ _ rfl
  | ended => exact hended rfl

/-- Nothing is called, answered or visited any more in an iteration that is over. -/
theorem Reachable.mem_of_past (hp : s.plan.Lawful) (hc : s.Reachable c) (hpast : c.Past id it k)
    {e : Entry} (he : e ∈ s.execute.2.journal) {id' : String} {it' : List Nat}
    (hlocated : e.located? = some (id', it')) (hscope : (s.plan.scope id')[it.length]? = some id)
    (hinside : it ++ [k] <+: it') : e ∈ c.run.journal := by
  obtain ⟨later, rest, hjournal⟩ := List.append_of_mem he
  rcases hc.written_between hp (hc.steps_execute hp) ⟨later, hjournal.symm⟩ with
    hbefore | ⟨c₀, hc₀, hsteps, hwrites⟩
  · exact hbefore.subset List.mem_cons_self
  · exact absurd hinside (hwrites.not_past hp (standing_of_reachable hp hc₀) hlocated hscope
      (hc.past_of_steps hp hpast hsteps))

end RunSettings

end FlowGraph
