import FlowGraph.Proofs.Run.Agreement
import FlowGraph.Proofs.Run.Firing
import FlowGraph.Proofs.Run.Termination

/-!
How often executors were called, and what the trace of a run counts as executions. Between two steps the
two numbers differ by the visits under way, which have been called and are not over; a visit that ends
without its executor having been called is counted nonetheless, and it is the last one of its run. The loops
around a failed node were called but leave no visit.
-/

namespace FlowGraph

open Plan RunSettings

/-- Whether an entry tells that a visit of the node has ended, and was not skipped. -/
def Entry.executed (id : String) : Entry → Bool
  | visited v => v.nodeId = id && (v.status = .completed || v.status = .failed)
  | _ => false

/-- How many visits of a node a trace with this journal counts as executions. -/
def executions (journal : List Entry) (id : String) : Nat :=
  journal.countP (Entry.executed id)

theorem executionsOf_trace (r : RunState) (id : String) :
    r.trace.executionsOf id = executions r.journal id := by
  rw [Trace.executionsOf, Trace.visitsOf, List.filter_filter, ← List.countP_eq_length_filter]
  show List.countP _ (List.filterMap Entry.visit? r.journal).reverse = _
  rw [List.countP_reverse, List.countP_filterMap]
  refine List.countP_congr fun e _ => ?_
  cases e with
  | visited v => simp [Entry.visit?, Entry.executed, and_comm]
  | _ => simp [Entry.visit?, Entry.executed]

/-- Whether an entry tells of no call, no answer and no visit but a skipped one. -/
def Entry.Idle : Entry → Prop
  | sent _ | passed _ _ _ => True
  | visited v => v.status = .skipped
  | _ => False

section

variable {e : Entry} {added journal : List Entry} {id : String} {it : List Nat}

theorem Entry.Idle.executed (h : e.Idle) (id : String) : e.executed id = false := by
  cases e with
  | visited v => simp [Entry.executed, show v.status = .skipped from h]
  | _ => rfl

theorem Entry.Idle.calledAt? (h : e.Idle) (id : String) : e.calledAt? id = none := by
  cases e with
  | called => exact h.elim
  | _ => rfl

theorem executions_append (added journal : List Entry) (id : String) :
    executions (added ++ journal) id = executions added id + executions journal id :=
  List.countP_append

theorem callsOf_append (added journal : List Entry) (id : String) :
    callsOf (added ++ journal) id = callsOf added id ++ callsOf journal id :=
  List.filterMap_append

theorem executions_idle (h : ∀ e ∈ added, e.Idle) : executions added id = 0 := by
  rw [executions, List.countP_eq_zero]
  intro e he
  simp [(h e he).executed id]

theorem callsOf_idle (h : ∀ e ∈ added, e.Idle) : callsOf added id = [] :=
  List.filterMap_eq_nil_iff.mpr fun e he => (h e he).calledAt? id

end

/-! ### The balance -/

/-- The node, if a visit of it in the iteration has to do without a call. -/
def uncalled (journal : List Entry) (id : String) (it : List Nat) : List String :=
  if it ∈ callsOf journal id then [] else [id]

/-- What a journal tells of visits that ended is what it tells of calls, but for the visits of the nodes in
`busy`, which are not over, and those of the nodes in `refused`, which went without a call. A visit has
failed where `failed` says so. -/
structure Balanced (journal : List Entry) (busy refused : List String)
    (failed : Option (String × List Nat)) : Prop where
  balanced : ∀ id, executions journal id + busy.count id =
    (callsOf journal id).length + refused.count id
  /-- Only what was called answers. -/
  called : ∀ id it result, .answered id it result ∈ journal → it ∈ callsOf journal id
  failed_iff : ∀ id it, failed = some (id, it) ↔
    ∃ v, .visited v ∈ journal ∧ v.nodeId = id ∧ v.iteration = it ∧ v.status = .failed

namespace Balanced

variable {added journal : List Entry} {busy busy' refused : List String}
  {failed : Option (String × List Nat)} {id : String} {it : List Nat}

theorem nil : Balanced [] [] [] none :=
  ⟨fun _ => rfl, by simp, by simp⟩

theorem perm (h : Balanced journal busy refused failed) (hperm : busy.Perm busy') :
    Balanced journal busy' refused failed := by
  refine ⟨fun id => ?_, h.called, h.failed_iff⟩
  rw [← hperm.count_eq id]
  exact h.balanced id

/-- Idle entries change nothing. -/
theorem append (h : Balanced journal busy refused failed) (hadded : ∀ e ∈ added, e.Idle) :
    Balanced (added ++ journal) busy refused failed := by
  refine ⟨fun id => ?_, fun id it result hmem => ?_, fun id it => ?_⟩
  · rw [executions_append, callsOf_append, executions_idle hadded, callsOf_idle hadded, Nat.zero_add]
    exact h.balanced id
  · rw [callsOf_append, callsOf_idle hadded]
    rcases List.mem_append.mp hmem with hmem | hmem
    · exact (hadded _ hmem).elim
    · exact h.called id it result hmem
  · rw [h.failed_iff]
    refine exists_congr fun v => and_congr_left fun ⟨_, _, hfailed⟩ => ?_
    refine ⟨List.mem_append_right added, fun hmem => (List.mem_append.mp hmem).resolve_left fun hv => ?_⟩
    have hskipped : v.status = .skipped := hadded _ hv
    rw [hfailed] at hskipped
    exact absurd hskipped (by simp)

theorem cons (h : Balanced journal busy refused failed) {e : Entry} (he : e.Idle) :
    Balanced (e :: journal) busy refused failed := by
  have hadded : ∀ e' ∈ [e], e'.Idle := List.forall_mem_singleton.mpr he
  exact h.append hadded

/-- A visit that ends is counted, and no longer under way. -/
theorem visited {v : Visit} (h : Balanced journal (v.nodeId :: busy) refused none)
    (hstatus : v.status = .completed ∨ v.status = .failed) :
    Balanced (.visited v :: journal) busy refused
      (if v.status = .failed then some (v.nodeId, v.iteration) else none) := by
  have hnone : ∀ w, .visited w ∈ journal → w.status ≠ .failed := fun w hw hfailed =>
    absurd ((h.failed_iff w.nodeId w.iteration).mpr ⟨w, hw, rfl, rfl, hfailed⟩) (by simp)
  refine ⟨fun id => ?_, fun id it result hmem => ?_, fun id it => ?_⟩
  · have hbefore := h.balanced id
    have hcalls : callsOf (.visited v :: journal) id = callsOf journal id := rfl
    rw [hcalls, ← hbefore, executions, executions, List.countP_cons, List.count_cons]
    by_cases hid : v.nodeId = id
    · simp [Entry.executed, hid, hstatus]
      omega
    · simp [Entry.executed, hid]
  · exact h.called id it result ((List.mem_cons.mp hmem).resolve_left (by simp))
  · constructor
    · intro hfailed
      split_ifs at hfailed with hv
      obtain ⟨rfl, rfl⟩ := Prod.mk.inj (Option.some.inj hfailed)
      exact ⟨v, List.mem_cons_self, rfl, rfl, hv⟩
    · rintro ⟨w, hw, rfl, rfl, hfailed⟩
      rcases List.mem_cons.mp hw with heq | hw
      · obtain rfl := Entry.visited.inj heq
        rw [if_pos hfailed]
      · exact absurd hfailed (hnone w hw)

/-- A visit that begins with a call is under way. -/
theorem call (h : Balanced journal busy [] none) (id : String) (it : List Nat) (inputs : Dict Value) :
    Balanced (.called id it inputs :: journal) (id :: busy) [] none := by
  refine ⟨fun id' => ?_, fun id' it' result hmem => ?_, fun id' it' => ?_⟩
  · have hbefore := h.balanced id'
    have hsame : executions (.called id it inputs :: journal) id' = executions journal id' := rfl
    rw [hsame, List.count_cons]
    by_cases hid : id = id'
    · simp [callsOf, Entry.calledAt?, hid] at hbefore ⊢
      omega
    · simp [callsOf, Entry.calledAt?, hid] at hbefore ⊢
      exact hbefore
  · have hold := h.called id' it' result ((List.mem_cons.mp hmem).resolve_left (by simp))
    rw [mem_callsOf] at hold ⊢
    obtain ⟨inputs', hcalled⟩ := hold
    exact ⟨inputs', List.mem_cons_of_mem _ hcalled⟩
  · rw [h.failed_iff]
    simp

/-- A visit that begins without a call goes without one. -/
theorem refuse (h : Balanced journal busy [] none) (id : String) :
    Balanced journal (id :: busy) [id] none := by
  refine ⟨fun id' => ?_, h.called, h.failed_iff⟩
  have hbefore := h.balanced id'
  rw [List.count_nil] at hbefore
  rw [List.count_cons, List.count_cons, List.count_nil]
  omega

theorem answer (h : Balanced journal busy refused none) (hcalled : it ∈ callsOf journal id)
    (result : Except NodeError NodeResult) :
    Balanced (.answered id it result :: journal) busy refused none := by
  refine ⟨h.balanced, fun id' it' result' hmem => ?_, fun id' it' => ?_⟩
  · rcases List.mem_cons.mp hmem with heq | hmem
    · obtain ⟨rfl, rfl, -⟩ := Entry.answered.inj heq
      exact hcalled
    · exact h.called id' it' result' hmem
  · rw [h.failed_iff]
    simp

theorem idle_messages (id : String) (events : List NodeEvent) : ∀ e ∈ messages id events, e.Idle := by
  intro e he
  obtain ⟨event, -, rfl⟩ := List.mem_map.mp he
  trivial

theorem calls {place : Place} {frame : Frame} {n : PlannedNode} {result : Except NodeError NodeResult}
    {after : List Entry} (h : Balanced journal busy [] none)
    (hcalls : Calls place frame n journal result after) (hnew : place.iteration ∉ callsOf journal n.id) :
    Balanced after (n.id :: busy) (uncalled after n.id place.iteration) none := by
  have hcall : ∀ events inputs, Balanced (messages n.id events ++
      .called n.id place.iteration inputs :: journal) (n.id :: busy) [] none ∧
      place.iteration ∈ callsOf (messages n.id events ++
        .called n.id place.iteration inputs :: journal) n.id := fun events inputs =>
    ⟨(h.call n.id place.iteration inputs).append (idle_messages n.id events),
      mem_callsOf.mpr ⟨inputs, List.mem_append_right _ List.mem_cons_self⟩⟩
  cases hcalls with
  | refused =>
      rw [uncalled, if_neg hnew]
      exact h.refuse n.id
  | @cut inputs events =>
      obtain ⟨hbalanced, hcalled⟩ := hcall events inputs
      rw [uncalled, if_pos hcalled]
      exact hbalanced
  | @answered inputs events =>
      obtain ⟨hbalanced, hcalled⟩ := hcall events inputs
      have hafter : ∀ e : Except NodeError NodeResult, place.iteration ∈ callsOf
          (.answered n.id place.iteration e :: (messages n.id events ++
            .called n.id place.iteration inputs :: journal)) n.id := fun _ => hcalled
      rw [uncalled, if_pos (hafter result)]
      exact hbalanced.answer hcalled result

end Balanced

/-! ### Every step keeps the balance -/

/-- Between two steps the visits under way are those of the open loops and of the node that is being visited;
a failure leaves the loops around the failed node open. -/
inductive Snapshot.Tallied (p : Plan) : Snapshot → Prop
  | passing {frame todo loops r} (h : Balanced r.journal (idsOf loops) [] none) :
      Tallied p ⟨.passing frame todo, loops, r⟩
  | answered {v result loops r} (h : Balanced r.journal (v.node.id :: idsOf loops)
        (uncalled r.journal v.node.id (placeOf loops).iteration) none)
      (hcalled : ∀ value, result = .ok value →
        (placeOf loops).iteration ∈ callsOf r.journal v.node.id) :
      Tallied p ⟨.answered v result, loops, r⟩
  | settling {v outcome loops r} (h : Balanced r.journal (v.node.id :: idsOf loops)
        (uncalled r.journal v.node.id (placeOf loops).iteration) none)
      (hcalled : ∀ completion, outcome = .ok completion →
        (placeOf loops).iteration ∈ callsOf r.journal v.node.id) :
      Tallied p ⟨.settling v outcome, loops, r⟩
  | leaving {frame exit loops r} (h : Balanced r.journal (idsOf loops) [] none)
      (hexit : ∀ failure, exit ≠ .failed failure) : Tallied p ⟨.leaving frame exit, loops, r⟩
  | failed {frame failure loops r it} (h : Balanced r.journal (p.scope failure.nodeId)
        (uncalled r.journal failure.nodeId it) (some (failure.nodeId, it))) :
      Tallied p ⟨.leaving frame (.failed failure), loops, r⟩
  | looping {loops r} (h : Balanced r.journal (idsOf loops) [] none) :
      Tallied p ⟨.looping, loops, r⟩
  | ended {loops r} : Tallied p ⟨.ended, loops, r⟩

namespace Snapshot.Tallied

variable {s : RunSettings} {loops : List OpenLoop} {r : RunState}

theorem idle_skips (it : List Nat) (ids : List String) : ∀ e ∈ skips it ids, e.Idle := by
  intro e he
  obtain ⟨id, -, rfl | rfl⟩ := mem_skips he
  · rfl
  · trivial

theorem idsOf_perm (o : OpenLoop) (loops : List OpenLoop) :
    (idsOf (o :: loops)).Perm (o.node.id :: idsOf loops) := by
  rw [idsOf_cons]
  exact List.perm_append_singleton _ _

/-- A loop that goes through its elements has been called. -/
theorem called_of_opened {o : OpenLoop} {busy refused : List String}
    {failed : Option (String × List Nat)} (h : Balanced r.journal busy refused failed)
    (hopened : s.plan.Opened r.journal loops o) :
    (placeOf loops).iteration ∈ callsOf r.journal o.node.id := by
  obtain ⟨values, -, hanswer⟩ := hopened.exists_answer
  exact h.called _ _ _ ((hanswer _).mpr rfl)

/-- A loop that has been called is about to end its visit. -/
theorem settling_of_called {o : OpenLoop} {outcome : Except NodeError Completion}
    (h : Balanced r.journal (idsOf (o :: loops)) [] none)
    (hcalled : (placeOf loops).iteration ∈ callsOf r.journal o.node.id) :
    Snapshot.Tallied s.plan ⟨.settling o.toOpenVisit outcome, loops, r⟩ := by
  refine .settling ?_ fun _ _ => hcalled
  rw [uncalled, if_pos hcalled]
  exact h.perm (idsOf_perm o loops)

/-- The loops around a node that fails are left open. -/
theorem fail (hp : s.plan.Lawful) {v : OpenVisit} (hvisiting : s.plan.Visiting r.journal loops v)
    (hstacked : s.plan.Stacked r.journal loops)
    (h : Balanced r.journal (v.node.id :: idsOf loops)
      (uncalled r.journal v.node.id (placeOf loops).iteration) none) (cause : NodeError) :
    Snapshot.Tallied s.plan ⟨.leaving v.frame (.failed ⟨v.node.id, cause⟩), loops,
      s.fail (placeOf loops) v.node cause v.started r⟩ := by
  have hnode := hvisiting.node_mem
  have hscope : idsOf loops = s.plan.scope v.node.id := by
    rw [hp.scope_id hnode]
    exact (hstacked.scope_eq hp hnode (hvisiting.level.getLast?_scope hp List.mem_cons_self)).symm
  have hsent := h.cons (e := .sent (.nodeFailed v.node.id cause.message)) trivial
  have hvisited := hsent.visited (v := ⟨v.node.id, (placeOf loops).iteration, .failed, none,
    r.clock - v.started⟩) (Or.inr rfl)
  rw [if_pos rfl, hscope] at hvisited
  have hjournal := s.journal_fail (placeOf loops) v.node cause v.started r
  have hfailed : Balanced (s.fail (placeOf loops) v.node cause v.started r).journal
      (s.plan.scope v.node.id)
      (uncalled (s.fail (placeOf loops) v.node cause v.started r).journal v.node.id
        (placeOf loops).iteration) (some (v.node.id, (placeOf loops).iteration)) := by
    rw [hjournal]
    exact hvisited
  exact .failed hfailed

/-- A visit that completes is over, and was called. -/
theorem balanced_complete {v : OpenVisit}
    (h : Balanced r.journal (v.node.id :: idsOf loops)
      (uncalled r.journal v.node.id (placeOf loops).iteration) none)
    (hcalled : (placeOf loops).iteration ∈ callsOf r.journal v.node.id) (outputs : Outputs)
    (signal : Option Signal) :
    Balanced (s.complete (placeOf loops) v.node outputs signal v.started v.frame r).2.journal
      (idsOf loops) [] none := by
  rw [uncalled, if_pos hcalled] at h
  have hsent := h.cons (e := .sent (.nodeCompleted v.node.id outputs (r.clock - v.started))) trivial
  have hvisited := hsent.visited (v := ⟨v.node.id, (placeOf loops).iteration, .completed, signal,
    r.clock - v.started⟩) (Or.inl rfl)
  rw [if_neg (by simp)] at hvisited
  rwa [journal_complete]

theorem settle (hp : s.plan.Lawful) {v : OpenVisit} {outcome : Except NodeError Completion}
    (hvisiting : s.plan.Visiting r.journal loops v) (hstacked : s.plan.Stacked r.journal loops)
    (h : Balanced r.journal (v.node.id :: idsOf loops)
      (uncalled r.journal v.node.id (placeOf loops).iteration) none)
    (hcalled : ∀ completion, outcome = .ok completion →
      (placeOf loops).iteration ∈ callsOf r.journal v.node.id)
    (hexit : ∀ completion failure, outcome = .ok completion → completion.exit ≠ .failed failure) :
    Snapshot.Tallied s.plan
      ⟨.next (s.settle (placeOf loops) v.node v.started v.frame outcome r).exit
        (s.settle (placeOf loops) v.node v.started v.frame outcome r).frame v.todo, loops,
        (s.settle (placeOf loops) v.node v.started v.frame outcome r).run⟩ := by
  cases outcome with
  | error cause => exact fail hp hvisiting hstacked h cause
  | ok completion =>
      have hbalanced := balanced_complete (s := s) h (hcalled completion rfl) completion.outputs
        completion.signal
      have hnever := fun failure => hexit completion failure rfl
      obtain ⟨outputs, signal, exit⟩ := completion
      cases exit with
      | finished => exact .passing hbalanced
      | failed failure => exact absurd rfl (hnever failure)
      | _ => exact .leaving hbalanced hnever

theorem call {frame : Frame} {n : PlannedNode} {todo : List PlannedNode}
    (huntouched : s.plan.Untouched r.journal loops (n :: todo))
    (h : Balanced r.journal (idsOf loops) [] none) :
    Snapshot.Tallied s.plan ⟨.answered ⟨n, r.clock, frame, todo⟩
      (s.invoke (placeOf loops) frame n (s.start n r)).1, loops,
        (s.invoke (placeOf loops) frame n (s.start n r)).2⟩ := by
  have hcalls := s.calls_invoke (placeOf loops) frame n (s.start n r)
  rw [journal_start] at hcalls
  have hstarted := h.cons (e := .sent (.nodeStarted n.id n.typeName)) trivial
  have hnew : (placeOf loops).iteration ∉
      callsOf (.sent (.nodeStarted n.id n.typeName) :: r.journal) n.id := by
    intro hmem
    obtain ⟨inputs, hcalled⟩ := mem_callsOf.mp hmem
    have hold := (List.mem_cons.mp hcalled).resolve_left (by simp)
    exact Precedes.irrefl _ (huntouched n List.mem_cons_self _ hold n.id _ rfl (Or.inl rfl))
  have hbalanced := hstarted.calls hcalls hnew
  refine .answered hbalanced fun value hvalue => ?_
  rw [hvalue] at hcalls
  exact hbalanced.called _ _ _ hcalls.answered_mem

/-- Every step of a run keeps the balance. -/
theorem step (hp : s.plan.Lawful) {c c' : Snapshot} (hstep : s.Step c c')
    (hstanding : s.plan.Standing c) (hrecorded : c.Recorded s.plan) (h : c.Tallied s.plan) :
    c'.Tallied s.plan := by
  cases hstep with
  | finish =>
      obtain ⟨h⟩ := h
      exact .leaving h (by simp)
  | @skip frame n todo loops r =>
      obtain ⟨h⟩ := h
      refine .passing ?_
      rw [journal_skip]
      exact h.append (idle_skips _ _)
  | call =>
      obtain ⟨h⟩ := h
      obtain ⟨-, huntouched, -⟩ := hstanding
      exact call huntouched h
  | @judge v result loops r =>
      cases h with
      | answered h hcalled =>
        refine .settling h fun completion hok => ?_
        cases result with
        | error cause => exact absurd hok (by simp [Except.bind, Except.map])
        | ok value => exact hcalled value rfl
  | refuse =>
      cases h with
      | answered h => exact .settling h (by simp)
  | @launch v result loops r handles elements outputs hkind hsplit =>
      cases h with
      | answered h hcalled =>
        obtain ⟨value, rfl, -⟩ := bind_eq_ok hsplit
        rw [uncalled, if_pos (hcalled value rfl)] at h
        refine .looping ?_
        have hopen := h.perm (idsOf_perm { v with handles, elements, outputs } loops).symm
        split_ifs
        · rw [journal_skipAll]
          exact hopen.append (idle_skips _ _)
        · exact hopen
  | cancel | exhaust =>
      cases h with
      | looping h =>
        cases hstanding with
        | looping hopened => exact settling_of_called h (called_of_opened h hopened)
  | enter =>
      cases h with
      | looping h =>
        refine .passing ?_
        rw [journal_send]
        exact h.cons trivial
  | again hmore hexit =>
      cases h with
      | leaving h => exact .looping (h.cons trivial)
      | failed => exact absurd hexit (by simp)
  | close hmore hexit =>
      cases h with
      | failed => exact absurd hexit (by simp)
      | leaving h =>
        cases hstanding with
        | leaving _ _ hstacked =>
          have hcalled := called_of_opened h hstacked.1
          exact settling_of_called (h.cons trivial) hcalled
  | abandon =>
      cases h with
      | leaving h hexit => exact absurd rfl (hexit _)
      | failed h => exact .failed (h.cons trivial)
  | settle =>
      cases h with
      | settling h hcalled =>
        cases hstanding with
        | settling hvisiting hstacked =>
          cases hrecorded with
          | settling _ hexit => exact settle hp hvisiting hstacked h hcalled hexit
  | conclude => exact .ended

end Snapshot.Tallied

theorem RunSettings.Reachable.tallied {s : RunSettings} (hp : s.plan.Lawful) {c : Snapshot}
    (hc : s.Reachable c) : c.Tallied s.plan := by
  induction hc with
  | begin =>
      refine .passing ?_
      show Balanced s.begin.run.journal [] [] none
      rw [journal_begin]
      exact Balanced.nil.cons trivial
  | step hc hstep ih => exact ih.step hp hstep (standing_of_reachable hp hc) (hc.recorded hp)

/-! ### The whole run -/

/-- Whether a visit of a node has failed without its executor having been called. -/
def Refused (journal : List Entry) (id : String) : Prop :=
  ∃ v, .visited v ∈ journal ∧ v.nodeId = id ∧ v.status = .failed ∧ v.iteration ∉ callsOf journal id

/-- How many executions of a node the trace counts, compared with the calls of its executor. -/
structure RunSettings.Counts (s : RunSettings) (id : String) : Prop where
  /-- A loop around the node that failed was called once more than is counted, -/
  left_open : id ∈ s.plan.leftOpen s.execute.1 →
    s.execute.2.trace.executionsOf id + 1 = (callsOf s.execute.2.journal id).length
  /-- and a node that was refused is counted once more than it was called. -/
  refused : Refused s.execute.2.journal id →
    s.execute.2.trace.executionsOf id = (callsOf s.execute.2.journal id).length + 1
  /-- The numbers agree for all other nodes, and for these only. -/
  eq_iff : s.execute.2.trace.executionsOf id = (callsOf s.execute.2.journal id).length ↔
    id ∉ s.plan.leftOpen s.execute.1 ∧ ¬ Refused s.execute.2.journal id
  /-- A run that does not fail leaves nothing open and refuses nothing. -/
  eq_of_ok : ∀ outcome, s.execute.1 = .ok outcome →
    s.execute.2.trace.executionsOf id = (callsOf s.execute.2.journal id).length

/-- The only visit that has failed is the one that was refused, if one was. -/
theorem Balanced.refused_iff {journal : List Entry} {busy refused : List String} {id id' : String}
    {it : List Nat} (h : Balanced journal busy refused (some (id, it))) :
    Refused journal id' ↔ id' = id ∧ it ∉ callsOf journal id := by
  constructor
  · rintro ⟨v, hv, rfl, hfailed, hcalls⟩
    have hsame := (h.failed_iff v.nodeId v.iteration).mpr ⟨v, hv, rfl, rfl, hfailed⟩
    obtain ⟨rfl, rfl⟩ := Prod.mk.inj (Option.some.inj hsame)
    exact ⟨rfl, hcalls⟩
  · rintro ⟨rfl, hcalls⟩
    obtain ⟨v, hv, hid, rfl, hfailed⟩ := (h.failed_iff id' it).mp rfl
    exact ⟨v, hv, hid, hfailed, hcalls⟩

theorem mem_uncalled {journal : List Entry} {id id' : String} {it : List Nat} :
    id' ∈ uncalled journal id it ↔ id' = id ∧ it ∉ callsOf journal id := by
  rw [uncalled]
  split_ifs with hcalled <;> simp [hcalled]

theorem nodup_uncalled (journal : List Entry) (id : String) (it : List Nat) :
    (uncalled journal id it).Nodup := by
  rw [uncalled]
  split_ifs
  · exact List.nodup_nil
  · exact List.nodup_singleton id

theorem Plan.Lawful.nodup_leftOpen {p : Plan} (hp : p.Lawful) (outcome : Except Failure Outcome) :
    (p.leftOpen outcome).Nodup := by
  cases outcome with
  | ok _ => exact List.nodup_nil
  | error failure => exact hp.nodup_scope failure.nodeId

namespace RunSettings

variable {s : RunSettings}

/-- The end of a run writes nothing that counts. -/
theorem journal_execute (hp : s.plan.Lawful) : ∃ frame exit r,
    s.Reachable ⟨.leaving frame exit, [], r⟩ ∧ s.execute.1 = (s.finish exit r).1 ∧
      ∃ added, s.execute.2.journal = added ++ r.journal ∧ ∀ e ∈ added, e.Idle := by
  obtain ⟨frame, exit, r, hleft, hexecute⟩ := exists_leaving_of_execute hp
  refine ⟨frame, exit, r, hleft, ?_, [.sent (closingEvent s.execute.1 r.clock), .passed none [] exit],
    ?_, by simp [Entry.Idle]⟩
  · rw [hexecute]
    cases exit <;> rfl
  · rw [hexecute, finish_eq, journal_send]
    rfl

/-- At the end of a run the loops around the node that failed are still under way, and the node itself may
have gone without a call. -/
theorem exists_balanced (hp : s.plan.Lawful) : ∃ refused failed,
    Balanced s.execute.2.journal (s.plan.leftOpen s.execute.1) refused failed ∧ refused.Nodup ∧
      (∀ id, id ∈ refused ↔ Refused s.execute.2.journal id) ∧
      (∀ id ∈ refused, id ∉ s.plan.leftOpen s.execute.1) ∧
      ∀ outcome, s.execute.1 = .ok outcome → refused = [] := by
  obtain ⟨frame, exit, r, hleft, hresult, added, hjournal, hidle⟩ := journal_execute hp
  rw [hjournal, hresult]
  cases hleft.tallied hp with
  | leaving h hexit =>
      have hbalanced := h.append hidle
      have hopen : s.plan.leftOpen (s.finish exit r).1 = [] := by
        cases exit with
        | failed failure => exact absurd rfl (hexit failure)
        | _ => rfl
      rw [hopen]
      refine ⟨[], none, hbalanced, List.nodup_nil, fun id => ?_, by simp, fun _ _ => rfl⟩
      refine ⟨fun hmem => absurd hmem List.not_mem_nil, ?_⟩
      rintro ⟨v, hv, -, hfailed, -⟩
      exact absurd ((hbalanced.failed_iff v.nodeId v.iteration).mpr ⟨v, hv, rfl, rfl, hfailed⟩) (by simp)
  | @failed _ failure _ _ it h =>
      have hbalanced := h.append hidle
      have hcalls : callsOf (added ++ r.journal) failure.nodeId = callsOf r.journal failure.nodeId := by
        rw [callsOf_append, callsOf_idle hidle, List.nil_append]
      refine ⟨uncalled r.journal failure.nodeId it, _, hbalanced, nodup_uncalled _ _ _, fun id => ?_,
        fun id hmem => ?_, fun outcome hok => absurd hok (by simp [finish])⟩
      · rw [mem_uncalled, hbalanced.refused_iff, hcalls]
      · rw [(mem_uncalled.mp hmem).1]
        exact hp.not_mem_scope failure.nodeId

theorem counts (hp : s.plan.Lawful) (id : String) : s.Counts id := by
  obtain ⟨refused, failed, hbalanced, hnodup, hrefused, hdisjoint, hok⟩ := exists_balanced hp
  have hnumbers := hbalanced.balanced id
  rw [← executionsOf_trace, (hp.nodup_leftOpen _).count, hnodup.count] at hnumbers
  have hequal : id ∉ s.plan.leftOpen s.execute.1 → id ∉ refused →
      s.execute.2.trace.executionsOf id = (callsOf s.execute.2.journal id).length := by
    intro hopen hnot
    simpa only [if_neg hopen, if_neg hnot, Nat.add_zero] using hnumbers
  have hleft : id ∈ s.plan.leftOpen s.execute.1 →
      s.execute.2.trace.executionsOf id + 1 = (callsOf s.execute.2.journal id).length := by
    intro hopen
    have hnot : id ∉ refused := fun hmem => hdisjoint id hmem hopen
    simpa only [if_pos hopen, if_neg hnot, Nat.add_zero] using hnumbers
  have hmore : Refused s.execute.2.journal id →
      s.execute.2.trace.executionsOf id = (callsOf s.execute.2.journal id).length + 1 := by
    intro h
    have hmem := (hrefused id).mpr h
    simpa only [if_pos hmem, if_neg (hdisjoint id hmem), Nat.add_zero] using hnumbers
  refine ⟨hleft, hmore, ⟨fun heq => ⟨fun hopen => ?_, fun h => ?_⟩, fun ⟨hopen, hnot⟩ => ?_⟩,
    fun outcome houtcome => ?_⟩
  · have := hleft hopen
    omega
  · have := hmore h
    omega
  · exact hequal hopen (mt (hrefused id).mp hnot)
  · refine hequal ?_ ?_
    · rw [houtcome]
      exact List.not_mem_nil
    · rw [hok outcome houtcome]
      exact List.not_mem_nil

end RunSettings

namespace Registry

/-- The trace of every run of an accepted flow counts an execution for every call of an executor, but for
two kinds of nodes: the loops around the node that failed were called and are not counted, and a node that
failed before its executor could be called is counted nonetheless. -/
theorem executions_count_calls {r : Registry} {flow : Flow} {start : Option String} {s : RunSettings}
    (h : r.resolve flow start = .ok s.plan) (id : String) : s.Counts id :=
  RunSettings.counts (r.lawful_of_resolve_eq_ok h) id

/-- Two messages, one after the other. -/
def twoMessages : Flow where
  nodes := [⟨"s", "start", .null⟩, ⟨"first", "log", .null⟩, ⟨"last", "log", .null⟩]
  edges := [⟨"e1", "s", none, "first", none⟩, ⟨"e2", "first", none, "last", none⟩]

/-- Whether the newest event is a message of the node `first`. -/
def firstSpeaks : List Event → Bool
  | .nodeEvent "first" _ :: _ => true
  | _ => false

/-- Cancelled upon the first of two messages, a run calls the first node and refuses the second one. -/
theorem counts_of_cancelled_twoMessages : ∃ p, Standard.registry.resolve twoMessages none = .ok p ∧
    let s : RunSettings := { plan := p, cancellation := { upon := some firstSpeaks } }
    s.Counts "first" ∧ s.Counts "last" ∧ Refused s.execute.2.journal "last" ∧
      ["s", "first", "last"].map s.execute.2.trace.executionsOf = [1, 1, 1] ∧
      ["s", "first", "last"].map (callsOf s.execute.2.journal) = [[[]], [[]], []] := by
  have hrun : ((Standard.registry.resolve twoMessages none).toOption.map fun p => decide
      (let s : RunSettings := { plan := p, cancellation := { upon := some firstSpeaks } }
      (["s", "first", "last"].map s.execute.2.trace.executionsOf = [1, 1, 1] ∧
        ["s", "first", "last"].map (callsOf s.execute.2.journal) = [[[]], [[]], []]) ∧
        ∃ v ∈ s.execute.2.trace.visits, v.nodeId = "last" ∧ v.status = .failed)) = some true := by
    decide +kernel
  obtain ⟨p, hp, hrun⟩ := Option.map_eq_some_iff.mp hrun
  have hok := eq_ok_of_toOption_eq_some hp
  obtain ⟨⟨hexecutions, hcalls⟩, v, hv, hid, hfailed⟩ := of_decide_eq_true hrun
  have hcounts := executions_count_calls
    (s := { plan := p, cancellation := { upon := some firstSpeaks } }) hok
  refine ⟨p, hok, hcounts "first", hcounts "last", ⟨v, mem_visitsIn.mp hv, hid, hfailed, ?_⟩, hexecutions,
    hcalls⟩
  simp only [List.map_cons, List.cons.injEq] at hcalls
  rw [hcalls.2.2.1]
  exact List.not_mem_nil

/-- The loop that the failure of a node leaves open has been called, which the trace does not count; and the
node, whose input was refused, has not been called, and is counted. -/
theorem failingBody_miscounted : ∃ p, Standard.registry.resolve failingBody none = .ok p ∧
    let run := RunSettings.execute { plan := p }
    (run.2.trace.executionsOf "loop" = 0 ∧ callsOf run.2.journal "loop" = [[]]) ∧
      run.2.trace.executionsOf "parse" = 1 ∧ callsOf run.2.journal "parse" = [] := by
  have hrun : ((Standard.registry.resolve failingBody none).toOption.map fun p => decide
      (let run := RunSettings.execute { plan := p }
      (run.2.trace.executionsOf "loop" = 0 ∧ callsOf run.2.journal "loop" = [[]]) ∧
        run.2.trace.executionsOf "parse" = 1 ∧ callsOf run.2.journal "parse" = [])) = some true := by
    decide +kernel
  obtain ⟨p, hp, hrun⟩ := Option.map_eq_some_iff.mp hrun
  exact ⟨p, eq_ok_of_toOption_eq_some hp, of_decide_eq_true hrun⟩

end Registry

end FlowGraph
