import FlowGraph.Proofs.Run.Determined
import FlowGraph.Proofs.Run.Results
import FlowGraph.Standard

/-!
A node that ends the run. Its exit passes through the pass it belongs to and through every open loop around
it, the innermost one first: each loop closes its iteration, completes with what it has collected, and
passes the exit on. Nothing else happens on the way, so what is neither the node nor a loop around it
stays as it was; and a run is ended in no other way.
-/

namespace FlowGraph

open Plan RunSettings

/-- Whether an entry tells neither of a call nor of a skip nor of an iteration. -/
def Entry.isQuiet : Entry → Bool
  | called _ _ _ | answered _ _ _ => false
  | sent (.nodeStarted _ _) | sent (.nodeEvent _ _) | sent (.nodeSkipped _) |
    sent (.loopIteration _ _ _) => false
  | visited v => v.status ≠ .skipped
  | sent _ | passed _ _ _ => true

/-- Whether an event tells that a node has completed. -/
def Event.Completes (id : String) (e : Event) : Prop :=
  ∃ outputs duration, e = .nodeCompleted id outputs duration

/-- What is written when open loops are closed by a node that ends the run, the latest entry first. -/
inductive Unwinds (nodeId : String) : List OpenLoop → List Entry → Prop
  | nil : Unwinds nodeId [] []
  | cons {o : OpenLoop} {loops : List OpenLoop} {added : List Entry} (outputs : Outputs)
      (duration : Nat) (h : Unwinds nodeId loops added) :
      Unwinds nodeId (o :: loops) (added ++
        [.visited ⟨o.node.id, (placeOf loops).iteration, .completed, none, duration⟩,
          .sent (.nodeCompleted o.node.id outputs duration),
          .passed (some o.node.id) (placeOf (o :: loops)).iteration (.ended nodeId)])

namespace Unwinds

variable {nodeId : String} {loops : List OpenLoop} {added : List Entry}

theorem isQuiet_of_mem (h : Unwinds nodeId loops added) : ∀ entry ∈ added, entry.isQuiet = true := by
  induction h with
  | nil => exact fun _ hentry => absurd hentry List.not_mem_nil
  | cons _ _ _ ih =>
      intro entry hentry
      rcases List.mem_append.mp hentry with hentry | hentry
      · exact ih entry hentry
      · simp only [List.mem_cons, List.not_mem_nil, or_false] at hentry
        rcases hentry with rfl | rfl | rfl <;> rfl

/-- The loops complete one after the other, and nothing else is told. -/
theorem forall₂_completes (h : Unwinds nodeId loops added) :
    List.Forall₂ Event.Completes (loops.map (·.node.id)) (added.filterMap Entry.event?).reverse := by
  induction h with
  | nil => exact .nil
  | @cons o loops added outputs duration _ ih =>
      rw [List.filterMap_append, List.reverse_append]
      exact .cons ⟨outputs, duration, rfl⟩ ih

end Unwinds

/-- The exit with which a pass is about to end, or a visit that belongs to it. -/
def Phase.exit? : Phase → Option Exit
  | .leaving _ exit => some exit
  | .settling _ (.ok completion) => some completion.exit
  | _ => none

theorem Phase.exit?_next {exit : Exit} {frame : Frame} {todo : List PlannedNode} {nodeId : String}
    (h : (next exit frame todo).exit? = some (.ended nodeId)) : exit = .ended nodeId := by
  cases exit <;> simp_all [next, exit?]

namespace RunSettings

variable {s : RunSettings}

/-- Whether two states of a run know the same of a node. -/
def SameNode (r r' : RunState) (id : String) : Prop :=
  Dict.get? r'.statuses id = Dict.get? r.statuses id ∧ Dict.get? r'.outputs id = Dict.get? r.outputs id

theorem SameNode.trans {r r' r'' : RunState} {id : String} (h : SameNode r r' id)
    (h' : SameNode r' r'' id) : SameNode r r'' id :=
  ⟨h'.1.trans h.1, h'.2.trans h.2⟩

theorem sameNode_complete (place : Place) (n : PlannedNode) (outputs : Outputs)
    (signal : Option Signal) (started : Nat) (frame : Frame) (r : RunState) {id : String}
    (hid : id ≠ n.id) : SameNode r (s.complete place n outputs signal started frame r).2 id := by
  constructor
  · show Dict.get? (Dict.insert (s.send _ r).statuses n.id .completed) id = _
    rw [Dict.get?_insert_of_ne _ _ hid, statuses_send]
  · show Dict.get? (Dict.insert (s.send _ r).outputs n.id outputs) id = _
    rw [Dict.get?_insert_of_ne _ _ hid, outputs_send]

/-- The innermost loop completes, and passes on the exit of a node that ends the run. -/
theorem Reachable.close_ended (hp : s.plan.Lawful) {nodeId : String} {frame : Frame} {o : OpenLoop}
    {loops : List OpenLoop} {r : RunState}
    (h : s.Reachable ⟨.leaving frame (.ended nodeId), o :: loops, r⟩) :
    ∃ frame' r' outputs duration, s.Reachable ⟨.leaving frame' (.ended nodeId), loops, r'⟩ ∧
      r'.journal = .visited ⟨o.node.id, (placeOf loops).iteration, .completed, none, duration⟩ ::
        .sent (.nodeCompleted o.node.id outputs duration) ::
        .passed (some o.node.id) (placeOf (o :: loops)).iteration (.ended nodeId) :: r.journal ∧
      ∀ id ≠ o.node.id, SameNode r r' id := by
  obtain - | - | - | ⟨-, -, hstacked⟩ := standing_of_reachable hp h
  have hclosed := h.step (.close hstacked.2.1 (Or.inr ⟨nodeId, rfl, rfl⟩))
  exact ⟨_, _, _, _, hclosed.step .settle, s.journal_complete _ _ _ _ _ o.frame _,
    fun id hid => sameNode_complete _ _ _ _ _ o.frame _ hid⟩

/-- The exit of a node that ends the run passes through all open loops. -/
theorem Reachable.unwinds (hp : s.plan.Lawful) {nodeId : String} {frame : Frame}
    {loops : List OpenLoop} {r : RunState} (h : s.Reachable ⟨.leaving frame (.ended nodeId), loops, r⟩) :
    ∃ frame' r' added, s.Reachable ⟨.leaving frame' (.ended nodeId), [], r'⟩ ∧
      Unwinds nodeId loops added ∧ r'.journal = added ++ r.journal ∧
      ∀ id ∉ idsOf loops, SameNode r r' id := by
  induction loops generalizing frame r with
  | nil => exact ⟨frame, r, [], h, .nil, rfl, fun _ _ => ⟨rfl, rfl⟩⟩
  | cons o loops ih =>
      obtain ⟨frame₁, r₁, outputs, duration, hclosed, hjournal₁, hsame₁⟩ := h.close_ended hp
      obtain ⟨frame', r', added, hleft, hunwinds, hjournal, hsame⟩ := ih hclosed
      refine ⟨frame', r', _, hleft, .cons outputs duration hunwinds, ?_, fun id hid => ?_⟩
      · rw [hjournal, hjournal₁, List.append_assoc]
        rfl
      · rw [idsOf_cons, List.mem_append, not_or, List.mem_singleton] at hid
        exact (hsame₁ id hid.2).trans (hsame id hid.1)

/-- Once the exit is on its way, the run closes its open loops and is over. -/
theorem Reachable.runs_out (hp : s.plan.Lawful) {nodeId : String} {frame : Frame}
    {loops : List OpenLoop} {r : RunState} (h : s.Reachable ⟨.leaving frame (.ended nodeId), loops, r⟩) :
    s.execute.1 = .ok (.ended nodeId) ∧ ∃ added, Unwinds nodeId loops added ∧
      s.execute.2.journal = .sent (.runEnded nodeId s.execute.2.clock) ::
        .passed none [] (.ended nodeId) :: added ++ r.journal ∧
      ∀ id ∉ idsOf loops, SameNode r s.execute.2 id := by
  obtain ⟨frame', r', added, hlast, hunwinds, hjournal, hsame⟩ := h.unwinds hp
  have hexecute := hlast.execute_eq hp
  have hfinal : s.execute.2 = s.send (.runEnded nodeId r'.clock)
      (r'.log (.passed none [] (.ended nodeId))) := by
    rw [hexecute]
    rfl
  have hclock : s.execute.2.clock = r'.clock := by
    rw [hfinal, clock_send]
    rfl
  refine ⟨hexecute ▸ rfl, added, hunwinds, ?_, fun id hid => (hsame id hid).trans ?_⟩
  · rw [hclock, hfinal, journal_send, RunState.log, hjournal]
    rfl
  · rw [hfinal]
    exact ⟨congrArg (Dict.get? · id) (statuses_send _ _ _),
      congrArg (Dict.get? · id) (outputs_send _ _ _)⟩

/-- How a run ends that a visit puts an end to; `c` is what it has come to right before the node
completes. -/
structure StoppedBy (s : RunSettings) (v : Visit) (c : Snapshot) : Prop where
  reachable : s.Reachable c
  /-- The node has answered that the run is to end. -/
  answered : .answered v.nodeId v.iteration (.ok .flowEnd) ∈ c.run.journal
  outcome_eq : s.execute.1 = .ok (.ended v.nodeId)
  /-- The node completes, then the loops around it, the innermost one first, and the run is over. -/
  events_eq : ∃ completions, List.Forall₂ Event.Completes (s.plan.scope v.nodeId).reverse completions ∧
    s.execute.2.events = c.run.events ++ .nodeCompleted v.nodeId [] v.duration :: completions ++
      [.runEnded v.nodeId s.execute.2.clock]
  /-- Nothing is called, nothing is skipped, and no iteration begins. -/
  quiet : ∃ after, s.execute.2.journal = after ++ .visited v ::
      .sent (.nodeCompleted v.nodeId [] v.duration) :: c.run.journal ∧
    ∀ entry ∈ after, entry.isQuiet = true
  same_node : ∀ id, id ≠ v.nodeId → id ∉ s.plan.scope v.nodeId → SameNode c.run s.execute.2 id

theorem StoppedBy.mem_visits {v : Visit} {c : Snapshot} (h : s.StoppedBy v c) :
    v ∈ s.execute.2.visits := by
  obtain ⟨after, hjournal, -⟩ := h.quiet
  exact mem_visitsIn.mpr (hjournal ▸ List.mem_append_right _ List.mem_cons_self)

theorem StoppedBy.answered_mem {v : Visit} {c : Snapshot} (h : s.StoppedBy v c) :
    .answered v.nodeId v.iteration (.ok .flowEnd) ∈ s.execute.2.journal := by
  obtain ⟨after, hjournal, -⟩ := h.quiet
  rw [hjournal]
  exact List.mem_append_right _ (List.mem_cons_of_mem _ (List.mem_cons_of_mem _ h.answered))

theorem Reachable.stoppedBy (hp : s.plan.Lawful) {w : OpenVisit} {loops : List OpenLoop} {r : RunState}
    (h : s.Reachable ⟨.answered w (.ok .flowEnd), loops, r⟩)
    (hkind : w.node.kind.loopHandles? = none) :
    s.StoppedBy ⟨w.node.id, (placeOf loops).iteration, .completed, some .flowEnd, r.clock - w.started⟩
      ⟨.answered w (.ok .flowEnd), loops, r⟩ := by
  obtain - | ⟨hvisiting, -, hanswer, hstacked⟩ := standing_of_reachable hp h
  have hscope : s.plan.scope w.node.id = idsOf loops := by
    rw [hp.scope_id hvisiting.node_mem]
    exact hstacked.scope_eq hp hvisiting.node_mem
      (hvisiting.level.getLast?_scope hp List.mem_cons_self)
  have hleft : s.Reachable ⟨.leaving _ (.ended w.node.id), loops,
      (s.complete (placeOf loops) w.node [] (some .flowEnd) w.started w.frame r).2⟩ :=
    (h.step (.judge hkind)).step .settle
  obtain ⟨houtcome, added, hunwinds, hjournal, hsame⟩ := hleft.runs_out hp
  rw [journal_complete] at hjournal
  refine ⟨h, (hanswer _ rfl _).mpr rfl, houtcome, ⟨(added.filterMap Entry.event?).reverse, ?_, ?_⟩,
    ⟨_ :: _ :: added, hjournal, fun entry hentry => ?_⟩, fun id hid hnot => ?_⟩
  · rw [hscope, idsOf, List.reverse_reverse]
    exact hunwinds.forall₂_completes
  · rw [RunState.events, RunState.newestEvents, hjournal]
    simp [RunState.events, RunState.newestEvents, Entry.event?, List.filterMap_cons]
  · rcases List.mem_cons.mp hentry with rfl | hentry
    · rfl
    · rcases List.mem_cons.mp hentry with rfl | hentry
      · rfl
      · exact hunwinds.isQuiet_of_mem entry hentry
  · rw [hscope] at hnot
    exact (sameNode_complete _ _ _ _ _ w.frame _ hid).trans (hsame id hnot)

theorem Reachable.exists_answered_flowEnd (hp : s.plan.Lawful) {c : Snapshot} (h : s.Reachable c)
    {nodeId : String} (hexit : c.phase.exit? = some (.ended nodeId)) :
    ∃ w loops r, s.Reachable ⟨.answered w (.ok .flowEnd), loops, r⟩ ∧
      w.node.kind.loopHandles? = none ∧ w.node.id = nodeId := by
  induction h with
  | begin => exact absurd hexit (by simp [RunSettings.begin, Phase.exit?])
  | @step c c' h hstep ih =>
      have hstanding := standing_of_reachable hp h
      cases hstep with
      | @judge w result loops r hkind =>
          cases hchecked : result.bind (checkResult (placeOf loops) w.node) with
          | error cause => exact absurd (hchecked ▸ hexit) (by simp [Except.map, Phase.exit?])
          | ok value =>
              rw [hchecked] at hexit
              have hresult : value = .flowEnd ∧ w.node.id = nodeId := by
                cases value <;> simp_all [Except.map, Phase.exit?, completion]
              obtain ⟨rfl, hid⟩ := hresult
              cases result with
              | error cause => exact absurd hchecked (by simp [Except.bind])
              | ok value =>
                  obtain rfl := eq_of_checkResult_eq_ok hchecked
                  exact ⟨w, loops, r, h, hkind, hid⟩
      | exhaust => exact absurd hexit (by simp [Phase.exit?, OpenLoop.completion])
      | close _ hgoes =>
          rcases hgoes with ⟨rfl, rfl⟩ | ⟨id, rfl, rfl⟩
          · exact absurd hexit (by simp [Phase.exit?, OpenLoop.completion])
          · exact ih hexit
      | finish | abandon => exact absurd hexit (by simp [Phase.exit?])
      | @settle v outcome loops r =>
          have hended := Phase.exit?_next hexit
          cases outcome with
          | error cause => exact absurd hended (by simp [settle])
          | ok completion => exact ih (congrArg some hended)
      | _ => exact absurd hexit (by simp [Phase.exit?])

theorem exists_stoppedBy (hp : s.plan.Lawful) {nodeId : String}
    (h : s.execute.1 = .ok (.ended nodeId)) : ∃ v c, s.StoppedBy v c ∧ v.nodeId = nodeId ∧
      v.signal = some .flowEnd := by
  obtain ⟨frame, exit, r, hleft, hexecute⟩ := exists_leaving_of_execute hp
  have hexit : exit = .ended nodeId := by
    rw [hexecute] at h
    cases exit <;> simp_all [finish]
  subst hexit
  obtain ⟨w, loops, r, hanswered, hkind, rfl⟩ := hleft.exists_answered_flowEnd hp rfl
  exact ⟨_, _, hanswered.stoppedBy hp hkind, rfl, rfl⟩

/-- A visit that completes with the signal to end the run belongs to a node that has answered so. -/
theorem exists_stoppedBy_of_visited (hp : s.plan.Lawful) {v : Visit} (hv : v ∈ s.execute.2.visits)
    (hsignal : v.signal = some .flowEnd) : ∃ c, s.StoppedBy v c := by
  obtain ⟨later, rest, c, -, hc, hwrites⟩ :=
    (reachable_execute hp).written_of_mem hp (mem_visitsIn.mp hv)
  cases hwrites with
  | @completed w completion loops r =>
      rcases hc.exists_of_settling_ok hp with ⟨hkind, value, hanswered, rfl⟩ | ⟨_, _, _, _, -, rfl⟩
      · have hvalue : value = .flowEnd := by
          cases value <;> simp_all [RunSettings.completion]
        subst hvalue
        exact ⟨_, hanswered.stoppedBy hp hkind⟩
      · exact absurd hsignal (by simp)
  | _ => exact absurd hsignal (by simp)

theorem exists_stoppedBy_of_answered (hp : s.plan.Lawful) {n : PlannedNode} (hn : n ∈ s.plan.nodes)
    (hkind : n.kind.loopHandles? = none) {it : List Nat}
    (h : .answered n.id it (.ok .flowEnd) ∈ s.execute.2.journal) :
    ∃ v c, s.StoppedBy v c ∧ v.nodeId = n.id ∧ v.iteration = it ∧ v.signal = some .flowEnd := by
  obtain ⟨w, loops, r, hanswered, hid, rfl⟩ := (reachable_execute hp).exists_answered hp h
  obtain - | ⟨hvisiting, -, -, -⟩ := standing_of_reachable hp hanswered
  obtain rfl := hp.eq_of_id_eq hvisiting.node_mem hn hid
  exact ⟨_, _, hanswered.stoppedBy hp hkind, rfl, rfl, rfl⟩

end RunSettings

namespace Registry

/-- A node that ends the run ends it at once, from any depth. If a visit completes with the signal to end
the run, then the run ends there: after the node only the loops around it complete, the innermost one
first; nothing else is called, skipped or entered, and all other nodes keep their statuses and outputs.
The visits with this signal are those in which a node that is no loop answers so, and a run ends early in
no other way. -/
theorem flowEnd_stops_run {r : Registry} {flow : Flow} {start : Option String} {s : RunSettings}
    (h : r.resolve flow start = .ok s.plan) :
    (∀ v ∈ s.execute.2.visits, v.signal = some .flowEnd → ∃ c, s.StoppedBy v c) ∧
    (∀ n ∈ s.plan.nodes, n.kind.loopHandles? = none → ∀ it,
      .answered n.id it (.ok .flowEnd) ∈ s.execute.2.journal →
      ∃ v ∈ s.execute.2.visits, v.nodeId = n.id ∧ v.iteration = it ∧ v.signal = some .flowEnd) ∧
    ∀ id, s.execute.1 = .ok (.ended id) → ∃ v ∈ s.execute.2.visits, v.nodeId = id ∧
      v.signal = some .flowEnd ∧ .answered id v.iteration (.ok .flowEnd) ∈ s.execute.2.journal := by
  have hp := r.lawful_of_resolve_eq_ok h
  refine ⟨fun v hv => RunSettings.exists_stoppedBy_of_visited hp hv, fun n hn hkind it hanswered => ?_,
    fun id hended => ?_⟩
  · obtain ⟨v, c, hstopped, hvisit⟩ := RunSettings.exists_stoppedBy_of_answered hp hn hkind hanswered
    exact ⟨v, hstopped.mem_visits, hvisit⟩
  · obtain ⟨v, c, hstopped, rfl, hsignal⟩ := RunSettings.exists_stoppedBy hp hended
    exact ⟨v, hstopped.mem_visits, rfl, hsignal, hstopped.answered_mem⟩

/-- A node that ends the run inside of two loops, which both have more to go through. -/
def stoppedInside : Flow where
  nodes := [⟨"s", "start", .null⟩,
    ⟨"rows", "json", .object [("value", .array [.array [.bool true, .bool false], .array [.bool true]])]⟩,
    ⟨"outer", "forEach", .null⟩, ⟨"inner", "forEach", .null⟩, ⟨"stop", "end", .null⟩,
    ⟨"after", "log", .null⟩]
  edges := [⟨"e1", "s", none, "rows", none⟩, ⟨"e2", "rows", none, "outer", some "items"⟩,
    ⟨"e3", "outer", some "item", "inner", some "items"⟩, ⟨"e4", "inner", some "item", "stop", none⟩,
    ⟨"e5", "outer", some "done", "after", none⟩]

theorem stoppedBy_of_stoppedInside : ∃ p v c, Standard.registry.resolve stoppedInside none = .ok p ∧
    RunSettings.StoppedBy { plan := p } v c ∧ v.nodeId = "stop" ∧ v.iteration = [0, 0] ∧
      p.scope "stop" = ["outer", "inner"] := by
  have hrun : ((Standard.registry.resolve stoppedInside none).toOption.map fun p =>
      (p.scope "stop", (RunSettings.execute { plan := p }).2.visits.map fun v =>
        (v.nodeId, v.iteration, v.signal))) =
      some (["outer", "inner"], [("s", [], none), ("rows", [], none),
        ("stop", [0, 0], some .flowEnd), ("inner", [0], none), ("outer", [], none)]) := by
    decide +kernel
  obtain ⟨p, hp, heq⟩ := Option.map_eq_some_iff.mp hrun
  obtain ⟨hscope, hvisits⟩ := Prod.mk.inj heq
  have hok := eq_ok_of_toOption_eq_some hp
  have hmem : ("stop", [0, 0], some Signal.flowEnd) ∈
      (RunSettings.execute { plan := p }).2.visits.map fun v => (v.nodeId, v.iteration, v.signal) := by
    rw [hvisits]
    simp
  obtain ⟨v, hv, heq⟩ := List.mem_map.mp hmem
  obtain ⟨hid, hvisit⟩ := Prod.mk.inj heq
  obtain ⟨hit, hsignal⟩ := Prod.mk.inj hvisit
  obtain ⟨c, hstopped⟩ := (flowEnd_stops_run (s := { plan := p }) hok).1 v hv hsignal
  exact ⟨p, v, c, hok, hstopped, hid, hit, hscope⟩

end Registry

end FlowGraph
