import FlowGraph.Proofs.Run.Activation
import FlowGraph.Standard

/-!
What a run leaves out and what it does not. Every pass goes through its region in order, every member
whose turn comes is either executed or skipped once, by the bindings that are live, and with a loop
that is not gone through nothing inside of it is executed.
-/

namespace FlowGraph

open Plan

namespace Plan

variable (p : Plan)

/-- The members of a region that are visited in an iteration are the first ones in its order, each of
them once, and all of them if the pass is finished. -/
structure PassedInOrder (journal : List Entry) (region : Option String) (iteration : List Nat) :
    Prop where
  nodup : (p.turns journal region iteration).Nodup
  ordered : p.turns journal region iteration <+: p.region region
  complete : .passed region iteration .finished ∈ journal →
    p.turns journal region iteration = p.region region

/-- A member that is visited in an iteration is visited there once, and executed exactly if it is
active. -/
structure VisitedByActivation (journal : List Entry) (n : PlannedNode) (iteration : List Nat) :
    Prop where
  visited : ∀ v ∈ visitsIn journal, v.nodeId = n.id → v.iteration = iteration →
    visitsAt journal n.id iteration = [v] ∧
      (v.status ≠ .skipped ↔ p.ActiveIn (visitsIn journal) n iteration)
  called : ∀ inputs, .called n.id iteration inputs ∈ journal →
    p.ActiveIn (visitsIn journal) n iteration

/-- All that is inside of a loop, at whatever depth, is skipped once in the iteration of the loop, and
not called there or in an iteration within. -/
def BodySkipped (journal : List Entry) (n : PlannedNode) (iteration : List Nat) : Prop :=
  ∀ m ∈ p.nodes, n.id ∈ m.scope →
    (visitsIn journal).filter (fun v => v.nodeId = m.id ∧ iteration <+: v.iteration) =
        [⟨m.id, iteration, .skipped, none, 0⟩] ∧
      ∀ iteration' inputs, .called m.id iteration' inputs ∈ journal → ¬ iteration <+: iteration'

end Plan

namespace RunSettings

variable {s : RunSettings} {c : Snapshot} {n : PlannedNode} {it : List Nat}

theorem Reachable.passedInOrder (hp : s.plan.Lawful) (hc : s.Reachable c) {region : Option String}
    (hit : it.length = s.plan.depth region) : s.plan.PassedInOrder c.run.journal region it := by
  have hordered := hc.turns_ordered hp hit (List.suffix_refl _)
  exact ⟨(hp.region_nodup region).sublist hordered.sublist, hordered,
    fun hpassed => (hc.turns_of_passed hp hpassed).2 rfl⟩

theorem Reachable.visitedByActivation (hp : s.plan.Lawful) (hc : s.Reachable c)
    (hn : n ∈ s.plan.nodes) (hit : it.length = n.scope.length) :
    s.plan.VisitedByActivation c.run.journal n it := by
  refine ⟨fun v hv hid hvit => ?_, fun inputs hcalled => hc.activeIn_of_called hp hn hcalled⟩
  subst hvit
  refine ⟨?_, hc.executed_iff_activeIn hp hn hv hid hit⟩
  rw [← hid]
  exact hc.visitsAt_eq hp (mem_visitsIn.mp hv)

theorem Reachable.bodySkipped (hp : s.plan.Lawful) (hc : s.Reachable c)
    (hskipped : ∀ id, n.id ∈ s.plan.scope id →
      .visited ⟨id, it, .skipped, none, 0⟩ ∈ c.run.journal) :
    s.plan.BodySkipped c.run.journal n it := by
  intro m hm hscope
  rw [← hp.scope_id hm] at hscope
  exact hc.only_skipped hp (hskipped m.id hscope)

end RunSettings

/-- A run of an accepted flow visits the members of every region in order, executes those that are
active and skips the others, and skips all that is inside of a loop if the loop is skipped or has got
an empty collection. -/
theorem Registry.visits_complete_and_active {r : Registry} {flow : Flow} {start : Option String}
    {s : RunSettings} (h : r.resolve flow start = .ok s.plan) :
    (∀ region it, it.length = s.plan.depth region →
      s.plan.PassedInOrder s.execute.2.journal region it) ∧
    (∀ n ∈ s.plan.nodes, ∀ it, it.length = n.scope.length →
      s.plan.VisitedByActivation s.execute.2.journal n it) ∧
    ∀ n ∈ s.plan.nodes, ∀ handles, n.kind.loopHandles? = some handles → ∀ it,
      (∃ v ∈ visitsIn s.execute.2.journal, v.nodeId = n.id ∧ v.iteration = it ∧ v.status = .skipped) ∨
        (∃ values, .answered n.id it (.ok (.outputs values)) ∈ s.execute.2.journal ∧
          Dict.get? values handles.body = some (.array [])) →
      s.plan.BodySkipped s.execute.2.journal n it := by
  have hp := r.lawful_of_resolve_eq_ok h
  have hc := RunSettings.reachable_execute hp
  refine ⟨fun region it hit => hc.passedInOrder hp hit,
    fun n hn it hit => hc.visitedByActivation hp hn hit, fun n hn handles hkind it hcase => ?_⟩
  refine hc.bodySkipped hp fun id hid => ?_
  rcases hcase with ⟨v, hv, hvid, rfl, hskipped⟩ | ⟨values, hanswered, hempty⟩
  · exact hc.skipped_inside hp (mem_visitsIn.mp hv) hskipped (hvid ▸ hid)
  · -- The answer has been dealt with, because the run is over.
    rcases hc.skipped_for hp hn hkind hanswered hempty with hall | ⟨v, hphase, -, -⟩
    · exact hall id hid
    · exact absurd hphase (by simp)

namespace Registry

/-- Of two loops only one is chosen, and the collection of the loop inside of that one is empty. -/
def chosenLoop : Flow where
  nodes := [⟨"s", "start", .null⟩, ⟨"list", "json", .object [("value", .array [.array []])]⟩,
    ⟨"check", "if", .object [("condition", .string "false")]⟩,
    ⟨"left", "forEach", .null⟩, ⟨"a", "log", .null⟩,
    ⟨"right", "forEach", .null⟩, ⟨"inner", "forEach", .null⟩, ⟨"b", "log", .null⟩]
  edges := [⟨"e1", "s", none, "list", none⟩, ⟨"e2", "list", none, "check", none⟩,
    ⟨"e3", "check", some "true", "left", some "items"⟩, ⟨"e4", "left", some "item", "a", none⟩,
    ⟨"e5", "check", some "false", "right", some "items"⟩,
    ⟨"e6", "right", some "item", "inner", some "items"⟩, ⟨"e7", "inner", some "item", "b", none⟩]

/-- The pass, if the entry tells that one is finished: the region and the iteration. -/
def finished? : Entry → Option (Option String × List Nat)
  | .passed region it .finished => some (region, it)
  | _ => none

/-- The loop, if the entry tells that one has got an empty collection, and the iteration. -/
def emptied? : Entry → Option (String × List Nat)
  | .answered id it (.ok (.outputs values)) =>
    if Dict.get? values Standard.forEachHandles.body = some (.array []) then some (id, it) else none
  | _ => none

theorem passed_mem_of_finished? {journal : List Entry} {region : Option String} {it : List Nat}
    (h : (region, it) ∈ journal.filterMap finished?) : .passed region it .finished ∈ journal := by
  obtain ⟨e, he, heq⟩ := List.mem_filterMap.mp h
  unfold finished? at heq
  split at heq
  · obtain ⟨rfl, rfl⟩ := Prod.mk.inj (Option.some.inj heq)
    exact he
  · exact absurd heq (by simp)

theorem answered_mem_of_emptied? {journal : List Entry} {id : String} {it : List Nat}
    (h : (id, it) ∈ journal.filterMap emptied?) :
    ∃ values, .answered id it (.ok (.outputs values)) ∈ journal ∧
      Dict.get? values Standard.forEachHandles.body = some (.array []) := by
  obtain ⟨e, he, heq⟩ := List.mem_filterMap.mp h
  unfold emptied? at heq
  split at heq
  · rename_i values
    split at heq
    next hempty =>
      obtain ⟨rfl, rfl⟩ := Prod.mk.inj (Option.some.inj heq)
      exact ⟨values, he, hempty⟩
    · exact absurd heq (by simp)
  · exact absurd heq (by simp)

/-- The nodes of the loop that is not chosen are skipped with it, and those of the empty loop in its
iteration; the passes that are made are complete. -/
theorem visits_of_chosenLoop :
    ∃ p, Standard.registry.resolve chosenLoop none = .ok p ∧
      let journal := (RunSettings.execute { plan := p }).2.journal
      p.turns journal none [] = p.region none ∧
        p.turns journal (some "right") [0] = p.region (some "right") ∧
        (∃ n ∈ p.nodes, n.id = "check" ∧ p.ActiveIn (visitsIn journal) n []) ∧
        (∃ n ∈ p.nodes, n.id = "left" ∧ p.BodySkipped journal n []) ∧
        ∃ n ∈ p.nodes, n.id = "inner" ∧ p.BodySkipped journal n [0] := by
  have hrun : ((Standard.registry.resolve chosenLoop none).toOption.map fun p => decide
      (let journal := (RunSettings.execute { plan := p }).2.journal
      ((none, []) ∈ journal.filterMap finished? ∧ p.depth none = 0) ∧
        ((some "right", [0]) ∈ journal.filterMap finished? ∧ p.depth (some "right") = 1) ∧
        (∃ n ∈ p.nodes, n.id = "check" ∧ n.scope = [] ∧
          ∃ v ∈ visitsIn journal, v.nodeId = n.id ∧ v.iteration = [] ∧ v.status ≠ .skipped) ∧
        (∃ n ∈ p.nodes, n.id = "left" ∧ n.kind.loopHandles? = some Standard.forEachHandles ∧
          ∃ v ∈ visitsIn journal, v.nodeId = n.id ∧ v.iteration = [] ∧ v.status = .skipped) ∧
        ∃ n ∈ p.nodes, n.id = "inner" ∧ n.kind.loopHandles? = some Standard.forEachHandles ∧
          (n.id, [0]) ∈ journal.filterMap emptied?)) = some true := by
    decide +kernel
  obtain ⟨p, hp, hrun⟩ := Option.map_eq_some_iff.mp hrun
  have hok := eq_ok_of_toOption_eq_some hp
  obtain ⟨hordered, hvisited, hskipped⟩ := visits_complete_and_active (s := { plan := p }) hok
  obtain ⟨⟨htop, hdepth⟩, ⟨hinside, hdepth'⟩, ⟨n, hn, hid, hscope, v, hv, hvid, hvit, hstatus⟩,
    ⟨l, hl, hlid, hlkind, hleft⟩, m, hm, hmid, hmkind, hinner⟩ := of_decide_eq_true hrun
  refine ⟨p, hok, ?_, ?_, ⟨n, hn, hid, ?_⟩, ⟨l, hl, hlid, ?_⟩, m, hm, hmid, ?_⟩
  · exact (hordered none [] hdepth.symm).complete (passed_mem_of_finished? htop)
  · exact (hordered (some "right") [0] hdepth'.symm).complete (passed_mem_of_finished? hinside)
  · exact (((hvisited n hn [] (hscope ▸ rfl)).visited v hv hvid hvit).2).mp hstatus
  · exact hskipped l hl _ hlkind [] (Or.inl hleft)
  · exact hskipped m hm _ hmkind [0] (Or.inr (answered_mem_of_emptied? hinner))

end Registry

end FlowGraph
