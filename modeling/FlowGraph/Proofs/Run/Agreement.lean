import FlowGraph.Proofs.Run.Ledger
import FlowGraph.Proofs.Run.Simulation
import FlowGraph.Standard

/-!
What a run says of itself in its result, its events and its trace is one and the same. Between two
steps the nodes at work are the open loops and the node that is being visited; a failure leaves the
loops around the failed node open, so these are still shown at work when the run is over.
-/

namespace FlowGraph

open Plan RunSettings

/-- The records of a run agree with each other and with what is being done. -/
inductive Snapshot.Recorded (p : Plan) : Snapshot → Prop
  | passing {frame todo loops r} (h : p.Agrees (idsOf loops) none r) :
      Recorded p ⟨.passing frame todo, loops, r⟩
  | answered {v result loops r} (h : p.Agrees (v.node.id :: idsOf loops) none r) :
      Recorded p ⟨.answered v result, loops, r⟩
  | settling {v outcome loops r} (h : p.Agrees (v.node.id :: idsOf loops) none r)
      (hexit : ∀ completion failure, outcome = .ok completion → completion.exit ≠ .failed failure) :
      Recorded p ⟨.settling v outcome, loops, r⟩
  | leaving {frame exit loops r} (h : p.Agrees (idsOf loops) none r)
      (hexit : ∀ failure, exit ≠ .failed failure) : Recorded p ⟨.leaving frame exit, loops, r⟩
  /-- The loops around a failed node stay open. -/
  | failed {frame failure loops r} (h : p.Agrees (p.scope failure.nodeId) (some failure) r) :
      Recorded p ⟨.leaving frame (.failed failure), loops, r⟩
  | looping {loops r} (h : p.Agrees (idsOf loops) none r) : Recorded p ⟨.looping, loops, r⟩
  | ended {loops r} : Recorded p ⟨.ended, loops, r⟩

namespace Plan

theorem Lawful.contains_id {p : Plan} (hp : p.Lawful) {n : PlannedNode} (hn : n ∈ p.nodes) :
    p.contains n.id = true := by
  rw [contains, hp.find?_eq_some hn]
  rfl

theorem contains_iff {p : Plan} {id : String} : p.contains id = true ↔ id ∈ p.nodes.map (·.id) := by
  simp [contains, find?, List.find?_isSome]

/-- What a pass visits is none of the loops around it, nor is what lies inside. -/
theorem Stacked.not_mem_idsOf {p : Plan} {journal : List Entry} {loops : List OpenLoop}
    {frame : Frame} {n : PlannedNode} {due : List PlannedNode} (h : p.Stacked journal loops)
    (hp : p.Lawful) (hlevel : p.Level journal loops frame due) (hn : n ∈ due) {id : String}
    (hid : p.Within n.id id) : id ∉ idsOf loops := by
  have hnode := hlevel.planned n hn
  rw [← h.scope_eq hp hnode (hlevel.getLast?_scope hp hn)]
  rcases hid with rfl | hid
  · exact hp.not_mem_scope_self n hnode
  · obtain ⟨k, hk, rfl, hnk⟩ := hp.exists_of_mem_scope hid
    intro hmem
    exact hp.not_mem_scope_self n hnode ((hp.mem_scope_trans hk hnode hmem).subset hnk)

theorem mem_idsOf_cons {o : OpenLoop} {loops : List OpenLoop} (id : String) :
    id ∈ idsOf (o :: loops) ↔ id ∈ o.node.id :: idsOf loops := by
  rw [idsOf_cons, List.mem_append, List.mem_singleton, List.mem_cons, or_comm]

end Plan

namespace RunSettings

variable {s : RunSettings}

theorem get?_statuses_initial (nodes : List PlannedNode) (statuses : Dict Status) (id : String) :
    Dict.get? (nodes.foldl (fun d n => Dict.insert d n.id .pending) statuses) id =
      if (nodes.find? (·.id = id)).isSome then some .pending else Dict.get? statuses id := by
  induction nodes generalizing statuses with
  | nil => rfl
  | cons n nodes ih =>
      rw [List.foldl_cons, ih, List.find?_cons]
      by_cases hid : n.id = id
      · subst hid
        simp
      · rw [Dict.get?_insert_of_ne _ _ (Ne.symm hid)]
        simp [hid]

theorem sorted_statuses_initial (nodes : List PlannedNode) {statuses : Dict Status}
    (h : Dict.Sorted statuses) :
    Dict.Sorted (nodes.foldl (fun d n => Dict.insert d n.id .pending) statuses) := by
  induction nodes generalizing statuses with
  | nil => exact h
  | cons n nodes ih => exact ih (h.insert .pending)

theorem recorded_begin : s.begin.Recorded s.plan := by
  refine .passing ⟨⟨[], ?_, by simp⟩, ?_, fun id => ?_, ?_, fun id => ?_⟩
  · rw [events_send]
    rfl
  · rw [events_send, visits_send]
    rfl
  · rw [events_send, outputs_send]
    rfl
  · rw [statuses_send]
    exact sorted_statuses_initial _ List.Pairwise.nil
  · rw [statuses_send, visits_send]
    exact get?_statuses_initial _ _ _

end RunSettings

namespace Snapshot.Recorded

variable {s : RunSettings}

theorem settle (hp : s.plan.Lawful) {v : OpenVisit} {outcome : Except NodeError Completion}
    {loops : List OpenLoop} {r : RunState} (hvisiting : s.plan.Visiting r.journal loops v)
    (hstacked : s.plan.Stacked r.journal loops)
    (h : s.plan.Agrees (v.node.id :: idsOf loops) none r)
    (hexit : ∀ completion failure, outcome = .ok completion → completion.exit ≠ .failed failure) :
    Snapshot.Recorded s.plan
      ⟨.next (s.settle (placeOf loops) v.node v.started v.frame outcome r).exit
        (s.settle (placeOf loops) v.node v.started v.frame outcome r).frame v.todo, loops,
        (s.settle (placeOf loops) v.node v.started v.frame outcome r).run⟩ := by
  have hlevel := hvisiting.level
  have hnode := hlevel.node_mem
  have hnot := hstacked.not_mem_idsOf hp hlevel List.mem_cons_self (Or.inl rfl)
  cases outcome with
  | error cause =>
      have hfailed := h.fail (hp.contains_id hnode) hnot (placeOf loops) cause v.started
      rw [← hstacked.scope_eq hp hnode (hlevel.getLast?_scope hp List.mem_cons_self),
        ← hp.scope_id hnode] at hfailed
      exact .failed hfailed
  | ok completion =>
      have hcompleted := h.complete (hp.contains_id hnode) hnot (placeOf loops) completion.outputs
        completion.signal v.started v.frame
      have hnever := fun failure => hexit completion failure rfl
      obtain ⟨outputs, signal, exit⟩ := completion
      cases exit with
      | finished => exact .passing hcompleted
      | failed failure => exact absurd rfl (hnever failure)
      | _ => exact .leaving hcompleted hnever

/-- A node that is skipped is at work nowhere, nor is what is skipped with it. -/
theorem agrees_skip (hp : s.plan.Lawful) {loops : List OpenLoop} {frame : Frame} {n : PlannedNode}
    {todo : List PlannedNode} {r : RunState} (hlevel : s.plan.Level r.journal loops frame (n :: todo))
    (hstacked : s.plan.Stacked r.journal loops) (h : s.plan.Agrees (idsOf loops) none r) :
    s.plan.Agrees (idsOf loops) none (s.skip (placeOf loops) n r) := by
  refine h.skip (placeOf loops) fun id hid => ?_
  have hwithin : s.plan.Within n.id id := by
    rcases List.mem_cons.mp hid with rfl | hid
    · exact Or.inl rfl
    · exact Or.inr (hp.mem_skippedWith hid)
  refine ⟨?_, hstacked.not_mem_idsOf hp hlevel List.mem_cons_self hwithin⟩
  rcases hwithin with rfl | hinside
  · exact hp.contains_id hlevel.node_mem
  · obtain ⟨k, hk, rfl, -⟩ := hp.exists_of_mem_scope hinside
    exact hp.contains_id hk

/-- What a loop without elements skips lies inside of it, and is none of the nodes at work. -/
theorem agrees_skipAll_body (hp : s.plan.Lawful) {v : OpenVisit} {loops : List OpenLoop}
    {r : RunState} (hvisiting : s.plan.Visiting r.journal loops v)
    (hstacked : s.plan.Stacked r.journal loops)
    (h : s.plan.Agrees (v.node.id :: idsOf loops) none r) :
    s.plan.Agrees (v.node.id :: idsOf loops) none
      (s.skipAll (placeOf loops) (s.bodyNodes v.node.id) r) := by
  refine h.skipAll (placeOf loops) fun id hid => ?_
  have hinside := hp.mem_bodyNodes.mp hid
  obtain ⟨k, hk, rfl, hvk⟩ := hp.exists_of_mem_scope hinside
  refine ⟨hp.contains_id hk, fun hmem => ?_⟩
  rcases List.mem_cons.mp hmem with heq | hmem
  · rw [heq] at hinside
    exact hp.not_mem_scope v.node.id hinside
  · exact hstacked.not_mem_idsOf hp hvisiting.level List.mem_cons_self (Or.inr hinside) hmem

/-- Every step of a run keeps its records in agreement. -/
theorem step (hp : s.plan.Lawful) {c c' : Snapshot} (hstep : s.Step c c')
    (hstanding : s.plan.Standing c) (h : c.Recorded s.plan) : c'.Recorded s.plan := by
  cases hstep with
  | finish =>
      obtain ⟨h⟩ := h
      exact .leaving h (by simp)
  | skip =>
      obtain ⟨h⟩ := h
      obtain ⟨hlevel, -, hstacked⟩ := hstanding
      exact .passing (agrees_skip hp hlevel hstacked h)
  | call hactive =>
      obtain ⟨h⟩ := h
      obtain ⟨hlevel, -, -⟩ := hstanding
      exact .answered ((h.start (hp.contains_id hlevel.node_mem)).invoke _ _ _)
  | @judge v result loops r hkind =>
      obtain - | ⟨h⟩ := h
      refine .settling h fun completion failure hok => ?_
      cases hchecked : result.bind (checkResult (placeOf loops) v.node) with
      | error cause => exact absurd (hchecked ▸ hok) (by simp [Except.map])
      | ok value =>
          rw [hchecked] at hok
          obtain rfl : RunSettings.completion v.node value = completion := Except.ok.inj hok
          cases value <;> simp [RunSettings.completion]
  | refuse hkind hsplit =>
      cases h with
      | answered h => exact .settling h (by simp)
  | launch =>
      obtain - | ⟨h⟩ := h
      obtain - | ⟨hvisiting, -, -, hstacked⟩ := hstanding
      refine .looping (.congr ?_ fun id => (mem_idsOf_cons id).symm)
      split_ifs
      · exact agrees_skipAll_body hp hvisiting hstacked h
      · exact h
  | cancel =>
      cases h with
      | looping h => exact .settling (h.congr mem_idsOf_cons) (by simp)
  | enter =>
      cases h with
      | looping h => exact .passing (h.send rfl)
  | exhaust =>
      cases h with
      | looping h =>
        refine .settling (h.congr mem_idsOf_cons) fun completion failure hok => ?_
        obtain rfl := Except.ok.inj hok
        simp [OpenLoop.completion]
  | again hmore hexit =>
      cases h with
      | leaving h => exact .looping (h.log _ rfl rfl)
      | failed => exact absurd hexit (by simp)
  | @close frame exit o loops r hmore goesOn hexit =>
      have hgoesOn : ∀ failure, goesOn ≠ .failed failure := by
        rcases hexit with ⟨-, rfl⟩ | ⟨id, rfl, rfl⟩ <;> simp
      cases h with
      | failed => exact absurd hexit (by simp)
      | leaving h =>
        refine .settling ((h.log _ rfl rfl).congr mem_idsOf_cons) fun completion failure hok => ?_
        obtain rfl := Except.ok.inj hok
        exact hgoesOn failure
  | abandon =>
      cases h with
      | leaving h hexit => exact absurd rfl (hexit _)
      | failed h => exact .failed (h.log _ rfl rfl)
  | settle =>
      cases h with
      | settling h hexit =>
        cases hstanding with
        | settling hvisiting hstacked => exact settle hp hvisiting hstacked h hexit
  | conclude => exact .ended

end Snapshot.Recorded

theorem RunSettings.Reachable.recorded {s : RunSettings} (hp : s.plan.Lawful) {c : Snapshot}
    (hc : s.Reachable c) : c.Recorded s.plan := by
  induction hc with
  | begin => exact recorded_begin
  | step hc hstep ih => exact ih.step hp hstep (standing_of_reachable hp hc)

def failureOf : Except Failure Outcome → Option Failure
  | .ok _ => none
  | .error failure => some failure

theorem eq_error_of_failureOf {outcome : Except Failure Outcome} {failure : Failure}
    (h : failureOf outcome = some failure) : outcome = .error failure := by
  cases outcome with
  | ok value => exact absurd h (by simp [failureOf])
  | error f => exact congrArg Except.error (Option.some.inj h)

/-- The event that a run ends with, at a time. -/
def closingEvent (outcome : Except Failure Outcome) (time : Nat) : Event :=
  match outcome with
  | .ok .completed => .runCompleted time
  | .ok (.ended id) => .runEnded id time
  | .error failure => .runFailed failure.nodeId failure.cause.message time

/-- The nodes that a run leaves open: the loops around the node that failed. -/
def Plan.leftOpen (p : Plan) : Except Failure Outcome → List String
  | .ok _ => []
  | .error failure => p.scope failure.nodeId

/-- The result of a run, its events and its trace say the same. -/
structure Plan.Accounted (p : Plan) (outcome : Except Failure Outcome) (r : RunState) : Prop where
  /-- The run is told to begin and to end, as it did, and nothing else is told of it; a node is told to
  fail exactly if the run fails, and this just before the end. -/
  exists_events : ∃ middle,
    r.events = .runStarted p.start :: (middle ++ ((failureOf outcome).map Failure.event).toList ++
      [closingEvent outcome r.clock]) ∧ ∀ e ∈ middle, e.ofRun = false ∧ e.failed? = none
  /-- The visits are those that the events tell of. -/
  visits_eq : r.trace.visits.map Visit.settled = r.events.filterMap Event.settled?
  outputs_eq : ∀ id, Dict.get? r.trace.outputs id =
    lastUnder (r.events.filterMap Event.completed?) id
  nodup_statuses : (Dict.keys r.trace.statuses).Nodup
  mem_statuses_iff : ∀ id, id ∈ Dict.keys r.trace.statuses ↔ id ∈ p.nodes.map (·.id)
  /-- A node that was left open is shown at work, and every other one as its last visit ended. -/
  statuses_eq : ∀ id ∈ p.nodes.map (·.id), Dict.get? r.trace.statuses id =
    some (if id ∈ p.leftOpen outcome then .running
      else (lastUnder (r.trace.visits.map Visit.settled) id).getD .pending)
  running_iff : ∀ id, Dict.get? r.trace.statuses id = some .running ↔ id ∈ p.leftOpen outcome

theorem mem_of_lastUnder_eq_some {α : Type} {entries : List (String × α)} {key : String} {value : α}
    (h : lastUnder entries key = some value) : (key, value) ∈ entries :=
  List.mem_reverse.mp (Dict.mem_of_get?_eq_some h)

theorem Event.ne_running_of_settled? {e : Event} {id : String} {status : Status}
    (h : e.settled? = some (id, status)) : status ≠ .running := by
  cases e <;> simp [Event.settled?] at h <;> simp [← h.2]

namespace Plan

theorem Lawful.mem_of_mem_scope {p : Plan} (hp : p.Lawful) {id loopId : String}
    (h : loopId ∈ p.scope id) : loopId ∈ p.nodes.map (·.id) := by
  obtain ⟨n, hn, -, hmem⟩ := hp.exists_of_mem_scope h
  obtain ⟨k, hk, rfl⟩ := List.mem_iff_getElem.mp hmem
  obtain ⟨m, hm, hid, -⟩ := hp.scope_getElem n hn k hk
  exact hid ▸ List.mem_map_of_mem hm

theorem Agrees.running_iff {p : Plan} {busy : List String} {failure : Option Failure}
    {r : RunState} (h : p.Agrees busy failure r) {id : String}
    (hplanned : id ∈ busy → id ∈ p.nodes.map (·.id)) :
    Dict.get? r.statuses id = some .running ↔ id ∈ busy := by
  rw [h.statuses_eq, statusOf]
  constructor
  · intro hrunning
    split_ifs at hrunning with hcontains hbusy
    · exact hbusy
    · -- No visit ends in the status of a node at work.
      cases hlast : lastUnder (r.visits.map Visit.settled) id with
      | none => simp [hlast] at hrunning
      | some status =>
          have hmem := mem_of_lastUnder_eq_some hlast
          rw [← h.settled_eq] at hmem
          obtain ⟨e, -, he⟩ := List.mem_filterMap.mp hmem
          simp [hlast, Event.ne_running_of_settled? he] at hrunning
  · intro hbusy
    rw [if_pos (contains_iff.mpr (hplanned hbusy)), if_pos hbusy]

/-- Records that agree when a run ends are those of its result. -/
theorem Agrees.accounted {s : RunSettings} (hp : s.plan.Lawful) {outcome : Except Failure Outcome}
    {r : RunState} (h : s.plan.Agrees (s.plan.leftOpen outcome) (failureOf outcome) r) :
    s.plan.Accounted outcome (s.send (closingEvent outcome r.clock) r) := by
  have hclosing : (closingEvent outcome r.clock).settled? = none ∧
      (closingEvent outcome r.clock).completed? = none := by
    rcases outcome with failure | ⟨_ | id⟩ <;> exact ⟨rfl, rfl⟩
  have hopen : ∀ id ∈ s.plan.leftOpen outcome, id ∈ s.plan.nodes.map (·.id) := by
    intro id hid
    cases outcome with
    | ok _ => exact absurd hid List.not_mem_nil
    | error failure => exact hp.mem_of_mem_scope hid
  have hstatus : ∀ id ∈ s.plan.nodes.map (·.id), Dict.get? r.statuses id =
      some (if id ∈ s.plan.leftOpen outcome then .running
        else (lastUnder (r.visits.map Visit.settled) id).getD .pending) := by
    intro id hid
    rw [h.statuses_eq, statusOf, if_pos (contains_iff.mpr hid)]
  refine ⟨?_, ?_, fun id => ?_, ?_, fun id => ?_, fun id hid => ?_, fun id => ?_⟩ <;>
    simp only [RunState.trace, events_send, visits_send, statuses_send, outputs_send, clock_send]
  · obtain ⟨middle, hevents, hmiddle⟩ := h.begun
    exact ⟨middle, by rw [hevents]; rfl, hmiddle⟩
  · rw [List.filterMap_append, h.settled_eq]
    simp [hclosing.1]
  · rw [List.filterMap_append, h.outputs_eq]
    simp [hclosing.2]
  · exact h.sorted.nodup_keys
  · rw [Dict.mem_keys_iff, h.statuses_eq, statusOf, ← contains_iff]
    split_ifs with hcontains <;> simp [hcontains]
  · exact hstatus id hid
  · exact h.running_iff (hopen id)

end Plan

theorem RunSettings.finish_eq (s : RunSettings) (exit : Exit) (r : RunState) :
    s.finish exit r =
      ((s.finish exit r).1, s.send (closingEvent (s.finish exit r).1 r.clock) r) := by
  cases exit <;> rfl

theorem RunSettings.accounted_execute {s : RunSettings} (hp : s.plan.Lawful) :
    s.plan.Accounted s.execute.1 s.execute.2 := by
  obtain ⟨frame, exit, run, hleft, hexecute⟩ := exists_leaving_of_execute hp
  rw [hexecute, finish_eq]
  refine Agrees.accounted hp ?_
  cases hleft.recorded hp with
  | leaving h hexit =>
      have hlogged := h.log (.passed none [] exit) rfl rfl
      cases exit with
      | failed failure => exact absurd rfl (hexit failure)
      | _ => exact hlogged
  | failed h => exact h.log _ rfl rfl

/-- A visit that has failed is the one that the run fails for. -/
theorem Plan.Accounted.exists_failure {p : Plan} {outcome : Except Failure Outcome} {r : RunState}
    (h : p.Accounted outcome r) {v : Visit} (hv : v ∈ r.trace.visits) (hfailed : v.status = .failed) :
    ∃ failure, outcome = .error failure ∧ failure.nodeId = v.nodeId := by
  have hsettled : v.settled ∈ r.events.filterMap Event.settled? :=
    h.visits_eq ▸ List.mem_map_of_mem hv
  obtain ⟨e, he, heq⟩ := List.mem_filterMap.mp hsettled
  obtain ⟨text, rfl⟩ : ∃ text, e = .nodeFailed v.nodeId text := by
    rw [Visit.settled, hfailed] at heq
    cases e <;> simp_all [Event.settled?]
  obtain ⟨middle, hevents, hmiddle⟩ := h.exists_events
  rw [hevents] at he
  cases outcome with
  | ok value =>
      have hmem : Event.nodeFailed v.nodeId text ∈ middle := by
        cases value <;> simpa [failureOf, closingEvent] using he
      exact absurd (hmiddle _ hmem).2 (by simp [Event.failed?])
  | error failure =>
      refine ⟨failure, rfl, ?_⟩
      have hmem : Event.nodeFailed v.nodeId text ∈ middle ∨
          Event.nodeFailed v.nodeId text = failure.event := by
        simpa [failureOf, closingEvent] using he
      rcases hmem with hmem | heq
      · exact absurd (hmiddle _ hmem).2 (by simp [Event.failed?])
      · exact (Event.nodeFailed.inj heq).1.symm

namespace Registry

/-- The result of every run of an accepted flow, its events and its trace agree. -/
theorem result_events_trace_agree {r : Registry} {flow : Flow} {start : Option String} {s : RunSettings}
    (h : r.resolve flow start = .ok s.plan) : s.plan.Accounted s.execute.1 s.execute.2 :=
  RunSettings.accounted_execute (r.lawful_of_resolve_eq_ok h)

/-- A node inside of a loop is given what is no text. -/
def failingBody : Flow where
  nodes := [⟨"s", "start", .null⟩, ⟨"list", "json", .object [("value", .array [.bool true])]⟩,
    ⟨"loop", "forEach", .null⟩, ⟨"parse", "jsonParse", .null⟩, ⟨"end", "log", .null⟩]
  edges := [⟨"e1", "s", none, "list", none⟩, ⟨"e2", "list", none, "loop", some "items"⟩,
    ⟨"e3", "loop", some "item", "parse", none⟩, ⟨"e4", "loop", some "done", "end", none⟩]

/-- The loop around the node that fails is left open, and what would come after it is not visited. -/
theorem records_of_failingBody : ∃ p, Standard.registry.resolve failingBody none = .ok p ∧
    let run := RunSettings.execute { plan := p }
    p.Accounted run.1 run.2 ∧ p.leftOpen run.1 = ["loop"] ∧
      ["list", "loop", "parse", "end"].map (Dict.get? run.2.trace.statuses) =
        [some .completed, some .running, some .failed, some .pending] := by
  have hrun : ((Standard.registry.resolve failingBody none).toOption.map fun p =>
      (p.leftOpen (RunSettings.execute { plan := p }).1, ["list", "loop", "parse", "end"].map
        (Dict.get? (RunSettings.execute { plan := p }).2.trace.statuses))) =
      some (["loop"], [some .completed, some .running, some .failed, some .pending]) := by
    decide +kernel
  obtain ⟨p, hp, heq⟩ := Option.map_eq_some_iff.mp hrun
  obtain ⟨hopen, hstatuses⟩ := Prod.mk.inj heq
  have hok := eq_ok_of_toOption_eq_some hp
  exact ⟨p, hok, result_events_trace_agree (s := { plan := p }) hok, hopen, hstatuses⟩

end Registry

end FlowGraph
