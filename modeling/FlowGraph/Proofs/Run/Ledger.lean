import FlowGraph.Proofs.Dict
import FlowGraph.Proofs.Run.Kept

/-!
The four records of a run: its events, its visits, the statuses and the outputs of its nodes. Six parts
of the engine write them, each of them more than one; the ledger says how the records agree between
any two writes, given the nodes that are at work.
-/

namespace FlowGraph

open Plan RunSettings

namespace Event

/-- Whether an event is about the run as a whole. -/
def ofRun : Event → Bool
  | runStarted _ | runCompleted _ | runEnded _ _ | runFailed _ _ _ => true
  | _ => false

/-- Whether an event tells of work under way at a node. -/
def ofWork : Event → Bool
  | nodeStarted _ _ | loopIteration _ _ _ | nodeEvent _ _ => true
  | _ => false

/-- The node whose visit ends with an event, and the status in which it ends. -/
def settled? : Event → Option (String × Status)
  | nodeCompleted id _ _ => some (id, .completed)
  | nodeFailed id _ => some (id, .failed)
  | nodeSkipped id => some (id, .skipped)
  | _ => none

/-- The node that completes, and its outputs. -/
def completed? : Event → Option (String × Outputs)
  | nodeCompleted id outputs _ => some (id, outputs)
  | _ => none

/-- The node that fails, and the text of its error. -/
def failed? : Event → Option (String × String)
  | nodeFailed id error => some (id, error)
  | _ => none

theorem eq_none_of_ofWork {e : Event} (h : e.ofWork = true) :
    e.ofRun = false ∧ e.settled? = none ∧ e.completed? = none ∧ e.failed? = none := by
  cases e with
  | nodeStarted | loopIteration | nodeEvent => exact ⟨rfl, rfl, rfl, rfl⟩
  | _ => exact absurd h (by simp [ofWork])

end Event

/-- The node of a visit, and the status in which it ended. -/
def Visit.settled (v : Visit) : String × Status := (v.nodeId, v.status)

/-- The value of the last entry with a key. -/
def lastUnder {α : Type} (entries : List (String × α)) (key : String) : Option α :=
  Dict.get? entries.reverse key

theorem lastUnder_concat {α : Type} (entries : List (String × α)) (entry : String × α) (key : String) :
    lastUnder (entries ++ [entry]) key =
      if entry.1 = key then some entry.2 else lastUnder entries key := by
  rw [lastUnder, List.reverse_append]
  exact Dict.get?_cons entry.1 entry.2 entries.reverse key

def Failure.event (f : Failure) : Event := .nodeFailed f.nodeId f.cause.message

/-- The events of a run that has begun and not ended: no other one is about the run, and none is about
a failure but that of the last node, if it has failed. -/
def Plan.Begun (p : Plan) (failure : Option Failure) (events : List Event) : Prop :=
  ∃ middle, events = .runStarted p.start :: (middle ++ (failure.map Failure.event).toList) ∧
    ∀ e ∈ middle, e.ofRun = false ∧ e.failed? = none

theorem Plan.Begun.concat {p : Plan} {events : List Event} (h : p.Begun none events) {e : Event}
    (hrun : e.ofRun = false) (hfailed : e.failed? = none) : p.Begun none (events ++ [e]) := by
  obtain ⟨middle, rfl, hmiddle⟩ := h
  refine ⟨middle ++ [e], by simp, fun e' he' => ?_⟩
  rcases List.mem_append.mp he' with he' | he'
  · exact hmiddle e' he'
  · rw [List.mem_singleton.mp he']
    exact ⟨hrun, hfailed⟩

theorem Plan.Begun.fail {p : Plan} {events : List Event} (h : p.Begun none events) (f : Failure) :
    p.Begun (some f) (events ++ [f.event]) := by
  obtain ⟨middle, rfl, hmiddle⟩ := h
  exact ⟨middle, by simp, hmiddle⟩

/-- The status of a node: `running` if it is at work, or else that of its last visit. -/
def Plan.statusOf (p : Plan) (busy : List String) (visits : List Visit) (id : String) :
    Option Status :=
  if p.contains id then
    some (if id ∈ busy then .running
      else (lastUnder (visits.map Visit.settled) id).getD .pending)
  else none

/-- The records of a run agree, the nodes in `busy` being at work. -/
structure Plan.Agrees (p : Plan) (busy : List String) (failure : Option Failure) (r : RunState) :
    Prop where
  begun : p.Begun failure r.events
  settled_eq : r.events.filterMap Event.settled? = r.visits.map Visit.settled
  outputs_eq : ∀ id, Dict.get? r.outputs id = lastUnder (r.events.filterMap Event.completed?) id
  sorted : Dict.Sorted r.statuses
  statuses_eq : ∀ id, Dict.get? r.statuses id = p.statusOf busy r.visits id

namespace RunState

variable (r : RunState)

theorem events_log_sent (e : Event) : (r.log (.sent e)).events = r.events ++ [e] := by
  simp [events, newestEvents, log, Entry.event?]

theorem visits_log_visited (v : Visit) : (r.log (.visited v)).visits = r.visits ++ [v] := by
  simp [visits, log, Entry.visit?]

end RunState

namespace RunSettings

variable (s : RunSettings) (e : Event) (r : RunState)

@[simp] theorem events_send : (s.send e r).events = r.events ++ [e] := by
  rw [← r.events_log_sent e, RunState.events, RunState.newestEvents, journal_send]
  rfl

@[simp] theorem visits_send : (s.send e r).visits = r.visits := by
  rw [RunState.visits, journal_send]
  rfl

@[simp] theorem statuses_send : (s.send e r).statuses = r.statuses := by
  unfold send RunState.send
  cases s.cancellation.upon <;> rfl

@[simp] theorem outputs_send : (s.send e r).outputs = r.outputs := by
  unfold send RunState.send
  cases s.cancellation.upon <;> rfl

end RunSettings

namespace Plan.Agrees

variable {s : RunSettings} {busy busy' : List String} {failure : Option Failure} {r r' : RunState}

theorem of_eq {p : Plan} (h : p.Agrees busy failure r) (hevents : r'.events = r.events)
    (hvisits : r'.visits = r.visits) (hstatuses : r'.statuses = r.statuses)
    (houtputs : r'.outputs = r.outputs) : p.Agrees busy failure r' := by
  refine ⟨hevents ▸ h.begun, ?_, fun id => ?_, hstatuses ▸ h.sorted, fun id => ?_⟩
  · rw [hevents, hvisits, h.settled_eq]
  · rw [hevents, houtputs, h.outputs_eq]
  · rw [hvisits, hstatuses, h.statuses_eq]

theorem congr {p : Plan} (h : p.Agrees busy failure r) (hbusy : ∀ id, id ∈ busy ↔ id ∈ busy') :
    p.Agrees busy' failure r := by
  refine ⟨h.begun, h.settled_eq, h.outputs_eq, h.sorted, fun id => ?_⟩
  rw [h.statuses_eq, statusOf, statusOf]
  simp only [hbusy]

theorem log {p : Plan} (h : p.Agrees busy failure r) (entry : Entry) (hevent : entry.event? = none)
    (hvisit : entry.visit? = none) : p.Agrees busy failure (r.log entry) := by
  refine h.of_eq ?_ ?_ rfl rfl
  · simp [RunState.events, RunState.newestEvents, RunState.log, hevent]
  · simp [RunState.visits, RunState.log, hvisit]

theorem send (h : s.plan.Agrees busy none r) {e : Event} (he : e.ofWork = true) :
    s.plan.Agrees busy none (s.send e r) := by
  obtain ⟨hrun, hsettled, hcompleted, hfailed⟩ := Event.eq_none_of_ofWork he
  refine ⟨?_, ?_, fun id => ?_, ?_, fun id => ?_⟩
  · rw [events_send]
    exact h.begun.concat hrun hfailed
  · simp [hsettled, h.settled_eq]
  · simp [hcompleted, h.outputs_eq]
  · rw [statuses_send]
    exact h.sorted
  · rw [statuses_send, visits_send, h.statuses_eq]

theorem start (h : s.plan.Agrees busy none r) {n : PlannedNode} (hn : s.plan.contains n.id = true) :
    s.plan.Agrees (n.id :: busy) none (s.start n r) := by
  have hsent := h.send (s := s) (e := .nodeStarted n.id n.typeName) rfl
  refine ⟨hsent.begun, hsent.settled_eq, hsent.outputs_eq, hsent.sorted.insert _, fun id => ?_⟩
  show Dict.get? (Dict.insert _ n.id .running) id = s.plan.statusOf _ (s.send _ r).visits id
  by_cases hid : id = n.id
  · subst hid
    rw [Dict.get?_insert_self, statusOf, if_pos hn, if_pos List.mem_cons_self]
  · rw [Dict.get?_insert_of_ne _ _ hid, hsent.statuses_eq, statusOf, statusOf]
    simp only [List.mem_cons, hid, false_or]

/-- A visit ends: the event tells of it, and the status of its node is set. -/
theorem settled (h : s.plan.Agrees busy none r) {e : Event} {v : Visit}
    (hbegun : s.plan.Begun failure (r.events ++ [e])) (he : e.settled? = some v.settled)
    (hplanned : s.plan.contains v.nodeId = true)
    (hbusy : ∀ id, id ≠ v.nodeId → (id ∈ busy ↔ id ∈ busy')) (hnot : v.nodeId ∉ busy')
    (hevents : r'.events = r.events ++ [e]) (hvisits : r'.visits = r.visits ++ [v])
    (hstatuses : r'.statuses = Dict.insert r.statuses v.nodeId v.status)
    (houtputs : ∀ id, Dict.get? r'.outputs id =
      lastUnder (r.events.filterMap Event.completed? ++ e.completed?.toList) id) :
    s.plan.Agrees busy' failure r' := by
  refine ⟨hevents ▸ hbegun, ?_, fun id => ?_, ?_, fun id => ?_⟩
  · rw [hevents, hvisits, List.filterMap_append, List.map_append, h.settled_eq]
    simp [he]
  · rw [houtputs, hevents, List.filterMap_append]
    cases hcompleted : e.completed? <;> simp [hcompleted]
  · rw [hstatuses]
    exact h.sorted.insert _
  · rw [hstatuses, hvisits, statusOf, List.map_append, List.map_singleton, lastUnder_concat]
    by_cases hid : id = v.nodeId
    · subst hid
      rw [Dict.get?_insert_self, if_pos hplanned, if_neg hnot, Visit.settled, if_pos rfl]
      rfl
    · rw [Dict.get?_insert_of_ne _ _ hid, h.statuses_eq, statusOf, Visit.settled,
        if_neg (Ne.symm hid)]
      simp only [hbusy id hid]

theorem sleepUntil (h : s.plan.Agrees busy failure r) (wake : Nat) (deadline : Option Nat) :
    s.plan.Agrees busy failure (s.sleepUntil wake deadline r).2 := by
  simp only [RunSettings.sleepUntil]
  split_ifs <;> exact h.of_eq rfl rfl rfl rfl

theorem carryOut (h : s.plan.Agrees busy none r) (nodeId : String) (deadline : Option Nat)
    (steps : List ActivityStep) :
    s.plan.Agrees busy none (s.carryOut nodeId deadline steps r).2 := by
  induction steps generalizing r with
  | nil => exact h
  | cons step steps ih =>
      cases step with
      | emit event => exact ih (h.send rfl)
      | sleep millis =>
          have hslept := h.sleepUntil (r.clock + millis) deadline
          rw [RunSettings.carryOut]
          split
          next heq =>
            rw [heq] at hslept
            exact hslept
          next heq =>
            rw [heq] at hslept
            exact ih hslept

theorem invoke (h : s.plan.Agrees busy none r) (place : Place) (frame : Frame) (n : PlannedNode) :
    s.plan.Agrees busy none (s.invoke place frame n r).2 := by
  rw [RunSettings.invoke]
  split_ifs with hcancelled
  · exact h
  split
  · exact h
  next inputs hinputs =>
    have hcalled := h.log (.called n.id place.iteration inputs) rfl rfl
    have hcarried := hcalled.carryOut n.id
      (s.nodeTimeout.map ((r.log (.called n.id place.iteration inputs)).clock + ·))
      (n.executor.run (s.contextOf place n inputs r.store)).steps
    dsimp only
    split
    next heq =>
      rw [heq] at hcarried
      exact hcarried
    next heq =>
      rw [heq] at hcarried
      exact (hcarried.log (.answered n.id place.iteration _) rfl rfl).of_eq rfl rfl rfl rfl

theorem skipAll (h : s.plan.Agrees busy none r) (place : Place) {ids : List String}
    (hids : ∀ id ∈ ids, s.plan.contains id = true ∧ id ∉ busy) :
    s.plan.Agrees busy none (s.skipAll place ids r) := by
  induction ids generalizing r with
  | nil => exact h
  | cons id ids ih =>
      obtain ⟨⟨hplanned, hnot⟩, hids⟩ := List.forall_mem_cons.mp hids
      refine ih ?_ hids
      refine h.settled (e := .nodeSkipped id) (v := ⟨id, place.iteration, .skipped, none, 0⟩)
        (h.begun.concat rfl rfl) rfl hplanned (fun _ _ => Iff.rfl) hnot (s.events_send _ r) ?_ ?_ ?_
      · exact (RunState.visits_log_visited _ _).trans (by rw [visits_send])
      · exact congrArg (Dict.insert · id .skipped) (s.statuses_send _ r)
      · intro id'
        show Dict.get? (s.send _ r).outputs id' = _
        rw [outputs_send, h.outputs_eq]
        simp [Event.completed?]

theorem skip (h : s.plan.Agrees busy none r) (place : Place) {n : PlannedNode}
    (hids : ∀ id ∈ n.id :: s.skippedWith n, s.plan.contains id = true ∧ id ∉ busy) :
    s.plan.Agrees busy none (s.skip place n r) := by
  unfold RunSettings.skip
  unfold skippedWith at hids
  cases hkind : n.kind.loopHandles? with
  | none => exact h.skipAll place (by simpa only [hkind] using hids)
  | some handles => exact h.skipAll place (by simpa only [hkind] using hids)

theorem complete {n : PlannedNode} (h : s.plan.Agrees (n.id :: busy) none r)
    (hn : s.plan.contains n.id = true) (hnot : n.id ∉ busy) (place : Place) (outputs : Outputs)
    (signal : Option Signal) (started : Nat) (frame : Frame) :
    s.plan.Agrees busy none (s.complete place n outputs signal started frame r).2 := by
  refine h.settled (e := .nodeCompleted n.id outputs (r.clock - started))
    (v := ⟨n.id, place.iteration, .completed, signal, r.clock - started⟩) (h.begun.concat rfl rfl) rfl hn
    (fun id hid => by simp [hid]) hnot (s.events_send _ r) ?_ ?_ ?_
  · exact (RunState.visits_log_visited _ _).trans (by rw [visits_send])
  · exact congrArg (Dict.insert · n.id .completed) (s.statuses_send _ r)
  · intro id
    show Dict.get? (Dict.insert (s.send _ r).outputs n.id outputs) id = _
    rw [outputs_send]
    show _ = lastUnder (_ ++ [(n.id, outputs)]) id
    rw [lastUnder_concat]
    by_cases hid : n.id = id
    · subst hid
      rw [Dict.get?_insert_self, if_pos rfl]
    · rw [Dict.get?_insert_of_ne _ _ (Ne.symm hid), if_neg hid, h.outputs_eq]

theorem fail {n : PlannedNode} (h : s.plan.Agrees (n.id :: busy) none r)
    (hn : s.plan.contains n.id = true) (hnot : n.id ∉ busy) (place : Place) (cause : NodeError)
    (started : Nat) :
    s.plan.Agrees busy (some ⟨n.id, cause⟩) (s.fail place n cause started r) := by
  refine h.settled (e := .nodeFailed n.id cause.message)
    (v := ⟨n.id, place.iteration, .failed, none, r.clock - started⟩) (h.begun.fail ⟨n.id, cause⟩) rfl hn
    (fun id hid => by simp [hid]) hnot (s.events_send _ r) ?_ ?_ ?_
  · exact (RunState.visits_log_visited _ _).trans (by rw [visits_send])
  · exact congrArg (Dict.insert · n.id .failed) (s.statuses_send _ r)
  · intro id
    show Dict.get? (s.send _ r).outputs id = _
    rw [outputs_send, h.outputs_eq]
    simp [Event.completed?]

end Plan.Agrees

end FlowGraph
