import FlowGraph.Proofs.Run.Firing
import FlowGraph.Proofs.Run.Store
import FlowGraph.Proofs.Standard.Reordering

/-!
The variables of a run follow its record. They belong to the run and not to a pass, so what a `setVariable`
node has written outlives the iteration that it was written in, until another such node writes it. At any
time the variables are what the completed visits of these nodes have written, one after the other; what
`getVariable` gives is the value written last; and a visit that was skipped or has failed, for whatever
reason, has written nothing.
-/

namespace FlowGraph

open Plan Standard

/-- The variable that a node sets, if it is there for that. -/
def PlannedNode.sets? (n : PlannedNode) : Option String :=
  if n.typeName = setVariable.name then (textField n.data "name").toOption else none

/-- What a node gives for a variable that has not been set. -/
def PlannedNode.fallback (n : PlannedNode) : Value :=
  ((n.data.field? "default").map Value.ofJson).getD .null

/-- The inputs, if an entry tells of a call of the node in the iteration. -/
def Entry.calledWith? (id : String) (iteration : List Nat) : Entry → Option (Dict Value)
  | called id' iteration' inputs => if id' = id ∧ iteration' = iteration then some inputs else none
  | _ => none

/-- The value at the input without an id with which a node was called in an iteration. -/
def inputAt (journal : List Entry) (id : String) (iteration : List Nat) : Option Value :=
  (journal.findSome? (Entry.calledWith? id iteration)).bind (Dict.get? · unnamedKey)

theorem inputAt_append {added journal : List Entry} {id : String} {it : List Nat}
    (h : ∀ e ∈ added, e.calledWith? id it = none) :
    inputAt (added ++ journal) id it = inputAt journal id it := by
  rw [inputAt, List.findSome?_append, List.findSome?_eq_none_iff.mpr h]
  rfl

theorem inputAt_called (journal : List Entry) (id : String) (it : List Nat) (inputs : Dict Value) :
    inputAt (.called id it inputs :: journal) id it = Dict.get? inputs unnamedKey := by
  rw [inputAt, List.findSome?_cons, Entry.calledWith?, if_pos ⟨rfl, rfl⟩]
  rfl

/-- The variables once one of them has been given a value, if one is. -/
def withWrite (store : Dict Value) : Option (String × Value) → Dict Value
  | some (name, value) => Dict.insert store name value
  | none => store

theorem get?_withWrite_of_ne {store : Dict Value} {write : Option (String × Value)} {name : String}
    (h : ∀ value, write ≠ some (name, value)) :
    Dict.get? (withWrite store write) name = Dict.get? store name := by
  cases write with
  | none => rfl
  | some write =>
      obtain ⟨other, value⟩ := write
      apply Dict.get?_insert_of_ne
      rintro rfl
      exact h value rfl

namespace Plan

variable (p : Plan)

/-- What a node writes by completing in an iteration: its input, into the variable that it sets. -/
def writeAt (journal : List Entry) (id : String) (iteration : List Nat) : Option (String × Value) := do
  let n ← p.find? id
  let name ← n.sets?
  let value ← inputAt journal id iteration
  return (name, value)

/-- What a visit has written, the journal being what was told before it. -/
def writeOf (journal : List Entry) (v : Visit) : Option (String × Value) :=
  if v.status = .completed then p.writeAt journal v.nodeId v.iteration else none

/-- The variables after all visits in a journal have written what they have written, one after the
other. -/
def written : List Entry → Dict Value
  | [] => []
  | .visited v :: journal => withWrite (written journal) (p.writeOf journal v)
  | _ :: journal => written journal

/-- Whether the latest visit that has written a variable has written this value. -/
inductive LatestWrite (name : String) (value : Value) : List Entry → Prop
  | here {v journal} (h : p.writeOf journal v = some (name, value)) :
      LatestWrite name value (.visited v :: journal)
  | before {e journal} (h : LatestWrite name value journal)
      (hother : ∀ v, e = .visited v → ∀ value', p.writeOf journal v ≠ some (name, value')) :
      LatestWrite name value (e :: journal)

variable {p}

theorem writeOf_eq_none {journal : List Entry} {v : Visit} (h : v.status ≠ .completed) :
    p.writeOf journal v = none :=
  if_neg h

theorem writeAt_eq_none {journal : List Entry} {n : PlannedNode} (hp : p.Lawful) (hn : n ∈ p.nodes)
    (h : n.sets? = none) (it : List Nat) : p.writeAt journal n.id it = none := by
  rw [writeAt, hp.find?_eq_some hn]
  show n.sets?.bind _ = none
  rw [h]
  rfl

theorem writeAt_eq_some {journal : List Entry} {n : PlannedNode} {name : String} {value : Value}
    {it : List Nat} (hp : p.Lawful) (hn : n ∈ p.nodes) (hname : n.sets? = some name)
    (hvalue : inputAt journal n.id it = some value) : p.writeAt journal n.id it = some (name, value) := by
  rw [writeAt, hp.find?_eq_some hn]
  show n.sets?.bind _ = _
  rw [hname, hvalue]
  rfl

theorem written_append {added journal : List Entry}
    (h : ∀ e ∈ added, ∀ v, e.visit? = some v → v.status ≠ .completed) :
    p.written (added ++ journal) = p.written journal := by
  induction added with
  | nil => rfl
  | cons e added ih =>
      have hrest := ih fun e' he' => h e' (List.mem_cons_of_mem _ he')
      cases e with
      | visited v =>
          rw [List.cons_append, written, writeOf_eq_none (h _ List.mem_cons_self v rfl)]
          exact hrest
      | _ => exact hrest

/-- The value of a variable is the one written last. -/
theorem get?_written_eq_some_iff {journal : List Entry} {name : String} {value : Value} :
    Dict.get? (p.written journal) name = some value ↔ p.LatestWrite name value journal := by
  induction journal with
  | nil =>
      refine ⟨fun h => absurd h (by simp [written]), fun h => ?_⟩
      cases h
  | cons e journal ih =>
      by_cases hwrites : ∃ v value', e = .visited v ∧ p.writeOf journal v = some (name, value')
      · obtain ⟨v, value', rfl, hwrite⟩ := hwrites
        rw [written, hwrite, withWrite, Dict.get?_insert_self, Option.some_inj]
        constructor
        · rintro rfl
          exact .here hwrite
        · intro h
          cases h with
          | here h => exact (Prod.mk.inj (Option.some.inj (hwrite.symm.trans h))).2
          | before _ hother => exact absurd hwrite (hother v rfl value')
      · have hother : ∀ v, e = .visited v → ∀ value', p.writeOf journal v ≠ some (name, value') :=
          fun v hv value' hwrite => hwrites ⟨v, value', hv, hwrite⟩
        have hget : Dict.get? (p.written (e :: journal)) name = Dict.get? (p.written journal) name := by
          cases e with
          | visited v => exact get?_withWrite_of_ne (hother v rfl)
          | _ => rfl
        rw [hget, ih]
        refine ⟨fun h => .before h hother, fun h => ?_⟩
        cases h with
        | here h => exact absurd h (hother _ rfl value)
        | before h _ => exact h

end Plan

/-- The node and the iteration of the visit whose executor has given a result, as long as the end of the
visit has not been recorded. -/
def Snapshot.answering? (c : Snapshot) : Option (String × List Nat) :=
  match c.phase with
  | .answered v (.ok _) | .settling v (.ok _) => some (v.node.id, (placeOf c.loops).iteration)
  | _ => none

/-- What the variables should be: what has been written by the visits that are recorded, and by the one
that is about to be recorded as completed. -/
def Plan.stored (p : Plan) (c : Snapshot) : Dict Value :=
  match c.answering? with
  | some (id, it) => withWrite (p.written c.run.journal) (p.writeAt c.run.journal id it)
  | none => p.written c.run.journal

/-- Whether the nodes of a plan treat variables as the standard nodes do. -/
structure Plan.Storing (p : Plan) : Prop where
  keeps : ∀ n ∈ p.nodes, n.sets? = none → ∀ ctx, (n.executor.run ctx).store = ctx.store
  not_loop : ∀ n ∈ p.nodes, ∀ name, n.sets? = some name → n.kind.loopHandles? = none
  writes : ∀ n ∈ p.nodes, ∀ name, n.sets? = some name → ∀ ctx,
    (∃ value, Dict.get? ctx.inputs unnamedKey = some value ∧
      (n.executor.run ctx).result = .ok (.outputs [(unnamedKey, value)]) ∧
      (n.executor.run ctx).store = Dict.insert ctx.store name value) ∨
    (∃ e, (n.executor.run ctx).result = .error e) ∧ (n.executor.run ctx).store = ctx.store

/-- What a node has written that sets a variable and has not failed. -/
theorem Plan.Storing.writes_of_result_eq_ok {p : Plan} (h : p.Storing) {n : PlannedNode}
    (hn : n ∈ p.nodes) {name : String} (hname : n.sets? = some name) {ctx : Context} {result : NodeResult}
    (hresult : (n.executor.run ctx).result = .ok result) :
    ∃ value, Dict.get? ctx.inputs unnamedKey = some value ∧ result = .outputs [(unnamedKey, value)] ∧
      (n.executor.run ctx).store = Dict.insert ctx.store name value := by
  rcases h.writes n hn name hname ctx with ⟨value, hvalue, houtputs, hstore⟩ | ⟨⟨e, herror⟩, -⟩
  · exact ⟨value, hvalue, Except.ok.inj (hresult.symm.trans houtputs), hstore⟩
  · exact absurd (hresult.symm.trans herror) (by simp)

namespace RunSettings

variable {s : RunSettings} {c c' : Snapshot}

/-- A node that sets no variable has nothing to write. -/
theorem stored_answered {p : Plan} (hp : p.Lawful) {v : OpenVisit} (hn : v.node ∈ p.nodes)
    (hsets : v.node.sets? = none) (result : Except NodeError NodeResult) (loops : List OpenLoop)
    (r : RunState) : p.stored ⟨.answered v result, loops, r⟩ = p.written r.journal := by
  cases result with
  | error e => rfl
  | ok value =>
      show withWrite _ (p.writeAt r.journal v.node.id _) = _
      rw [writeAt_eq_none hp hn hsets]
      rfl

theorem stored_settling {p : Plan} (hp : p.Lawful) {v : OpenVisit} (hn : v.node ∈ p.nodes)
    (hsets : v.node.sets? = none) (outcome : Except NodeError Completion) (loops : List OpenLoop)
    (r : RunState) : p.stored ⟨.settling v outcome, loops, r⟩ = p.written r.journal := by
  cases outcome with
  | error e => rfl
  | ok completion =>
      show withWrite _ (p.writeAt r.journal v.node.id _) = _
      rw [writeAt_eq_none hp hn hsets]
      rfl

theorem sets?_of_loop {p : Plan} (hstoring : p.Storing) {n : PlannedNode} (hn : n ∈ p.nodes)
    {handles : LoopHandles} (hkind : n.kind.loopHandles? = some handles) : n.sets? = none := by
  cases hsets : n.sets? with
  | none => rfl
  | some name => exact absurd (hkind.symm.trans (hstoring.not_loop n hn name hsets)) (by simp)

theorem stored_next {p : Plan} (exit : Exit) (frame : Frame) (todo : List PlannedNode)
    (loops : List OpenLoop) (r : RunState) :
    p.stored ⟨.next exit frame todo, loops, r⟩ = p.written r.journal := by
  cases exit <;> rfl

/-- A step by which no visit completes and no executor is called. -/
theorem stored_of_quiet {p : Plan} (h : c.run.store = p.stored c)
    (hbefore : p.stored c = p.written c.run.journal) (hafter : p.stored c' = p.written c'.run.journal)
    (hstore : c'.run.store = c.run.store)
    (hwritten : p.written c'.run.journal = p.written c.run.journal) : c'.run.store = p.stored c' := by
  rw [hafter, hwritten, ← hbefore, ← h, hstore]

theorem written_skips {p : Plan} (it : List Nat) (ids : List String) (journal : List Entry) :
    p.written (skips it ids ++ journal) = p.written journal := by
  apply written_append
  intro e he v hv
  obtain ⟨id, -, rfl | rfl⟩ := mem_skips he
  · obtain rfl := Option.some.inj hv
    simp
  · exact absurd hv (by simp [Entry.visit?])

/-- Once a node has been called that sets a variable, it is about to write its input. -/
theorem writeAt_called {p : Plan} (hp : p.Lawful) {n : PlannedNode} (hn : n ∈ p.nodes) {name : String}
    (hname : n.sets? = some name) {it : List Nat} {events : List NodeEvent} {inputs : Dict Value}
    {journal : List Entry} {value : Value} (hvalue : Dict.get? inputs unnamedKey = some value) :
    p.writeAt (messages n.id events ++ .called n.id it inputs :: journal) n.id it =
      some (name, value) := by
  apply writeAt_eq_some hp hn hname
  rw [inputAt_append, inputAt_called, hvalue]
  intro e he
  obtain ⟨event, -, rfl⟩ := List.mem_map.mp he
  rfl

theorem written_called {p : Plan} (id : String) (it : List Nat) (events : List NodeEvent)
    (inputs : Dict Value) (journal : List Entry) :
    p.written (messages id events ++ .called id it inputs :: journal) = p.written journal := by
  rw [written_append]
  · rfl
  · intro e he v hv
    obtain ⟨event, -, rfl⟩ := List.mem_map.mp he
    exact absurd hv (by simp [Entry.visit?])

/-- The call of an executor: what it has written is what its visit is about to have written. -/
theorem stored_of_call (hp : s.plan.Lawful) (hstoring : s.plan.Storing) {v : OpenVisit}
    (hn : v.node ∈ s.plan.nodes) {loops : List OpenLoop} {r r' : RunState}
    {result : Except NodeError NodeResult} (hstore : r.store = s.plan.written r.journal)
    (h : s.Hands (placeOf loops) v.frame v.node (s.start v.node r) result r')
    (hwritten : s.plan.written r'.journal = s.plan.written r.journal) :
    r'.store = s.plan.stored ⟨.answered v result, loops, r'⟩ := by
  cases h with
  | nothing hnothing =>
      rw [hnothing, store_start, hstore]
      exact hwritten.symm
  | @returned inputs events _ hinputs hreturned hjournal =>
      rw [store_start] at hreturned hjournal ⊢
      rw [hreturned]
      cases hsets : v.node.sets? with
      | none => rw [stored_answered hp hn hsets, hwritten, hstoring.keeps v.node hn hsets, ← hstore]; rfl
      | some name =>
          rcases hstoring.writes v.node hn name hsets (s.contextOf (placeOf loops) v.node inputs r.store) with
            ⟨value, hvalue, hresult, hwrites⟩ | ⟨⟨e, herror⟩, hkept⟩
          · have hwrite : s.plan.writeAt r'.journal v.node.id (placeOf loops).iteration =
                some (name, value) := by
              rw [hjournal]
              exact writeAt_called hp hn hsets hvalue
            rw [hwrites, hresult]
            show _ = withWrite (s.plan.written r'.journal) (s.plan.writeAt r'.journal v.node.id _)
            rw [hwritten, hwrite, ← hstore]
            rfl
          · rw [hkept, herror]
            exact hstore.trans hwritten.symm

/-- What a node has answered that sets a variable is not refused. -/
theorem checkResult_of_sets (hstoring : s.plan.Storing) {v : OpenVisit} (hn : v.node ∈ s.plan.nodes)
    {name : String} (hsets : v.node.sets? = some name) {loops : List OpenLoop} {r : RunState}
    {value : NodeResult} (h : s.Reachable ⟨.answered v (.ok value), loops, r⟩) (place : Place) :
    checkResult place v.node value = .ok value := by
  obtain ⟨r₀, -, hands⟩ := h.exists_call
  obtain ⟨inputs, events, -, hresult, -, -⟩ := hands.exists_inputs
  obtain ⟨written, -, rfl, -⟩ := hstoring.writes_of_result_eq_ok hn hsets hresult
  rfl

theorem Step.stored (hp : s.plan.Lawful) (hstoring : s.plan.Storing) (hc : s.Reachable c)
    (hstep : s.Step c c') (h : c.run.store = s.plan.stored c) : c'.run.store = s.plan.stored c' := by
  have hstanding := standing_of_reachable hp hc
  cases hstep with
  | finish | cancel => exact h
  | skip =>
      refine stored_of_quiet h rfl rfl (s.store_skip _ _ _) ?_
      rw [journal_skip]
      exact written_skips _ _ _
  | @call frame n todo loops r =>
      obtain ⟨hlevel, -, -⟩ := hstanding
      refine stored_of_call (v := ⟨n, r.clock, frame, todo⟩) hp hstoring hlevel.node_mem h
        (s.hands_invoke _ _ _ _) ?_
      have hcalls := s.calls_invoke (placeOf loops) frame n (s.start n r)
      rw [journal_start] at hcalls
      obtain ⟨added, hafter, hadded⟩ := hcalls.exists_added
      rw [hafter, written_append]
      · rfl
      · intro e he v hv
        exact absurd ((hadded e he).1.symm.trans hv) (by simp)
  | @judge v result loops r =>
      cases hstanding with
      | answered hvisiting =>
          have hn := hvisiting.node_mem
          cases hsets : v.node.sets? with
          | none =>
              exact stored_of_quiet h (stored_answered hp hn hsets _ _ _)
                (stored_settling hp hn hsets _ _ _) rfl rfl
          | some name =>
              cases result with
              | error e => exact h
              | ok value =>
                  rw [Except.bind, checkResult_of_sets hstoring hn hsets hc]
                  exact h
  | refuse hkind =>
      cases hstanding with
      | answered hvisiting =>
          have hn := hvisiting.node_mem
          have hsets := sets?_of_loop hstoring hn hkind
          exact stored_of_quiet h (stored_answered hp hn hsets _ _ _) rfl rfl rfl
  | @launch v result loops r handles elements outputs hkind =>
      cases hstanding with
      | answered hvisiting =>
          have hn := hvisiting.node_mem
          have hsets := sets?_of_loop hstoring hn hkind
          refine stored_of_quiet h (stored_answered hp hn hsets _ _ _) rfl ?_ ?_
          · dsimp only
            split_ifs
            · exact s.store_skipAll _ _ _
            · rfl
          · dsimp only
            split_ifs
            · rw [journal_skipAll]
              exact written_skips _ _ _
            · rfl
  | @enter o loops r =>
      refine stored_of_quiet h rfl rfl (s.store_send _ _) ?_
      dsimp only
      rw [journal_send]
      rfl
  | exhaust =>
      cases hstanding with
      | looping hopened =>
          have hn := hopened.visiting.node_mem
          have hsets := sets?_of_loop hstoring hn hopened.kind_eq
          exact stored_of_quiet h rfl (stored_settling hp hn hsets _ _ _) rfl rfl
  | again | abandon => exact stored_of_quiet h rfl rfl rfl rfl
  | close =>
      cases hstanding with
      | leaving _ _ hstacked =>
          have hn := hstacked.1.visiting.node_mem
          have hsets := sets?_of_loop hstoring hn hstacked.1.kind_eq
          exact stored_of_quiet h rfl (stored_settling hp hn hsets _ _ _) rfl rfl
  | @settle v outcome loops r =>
      cases hstanding with
      | settling hvisiting =>
          cases outcome with
          | error cause =>
              refine stored_of_quiet h rfl rfl (s.store_settle _ _ _ _ _ _) ?_
              show s.plan.written (s.fail _ _ _ _ _).journal = _
              rw [journal_fail]
              exact (congrArg _ (writeOf_eq_none (by simp))).trans rfl
          | ok completion =>
              have hrecorded := s.journal_complete (placeOf loops) v.node completion.outputs
                completion.signal v.started v.frame r
              rw [stored_next, store_settle]
              exact h.trans (congrArg s.plan.written hrecorded).symm
  | @conclude frame exit r =>
      refine stored_of_quiet h rfl rfl (s.store_finish _ _) ?_
      cases exit <;> exact (congrArg s.plan.written (s.journal_send _ _)).trans rfl

/-- The variables are at all times what they should be. -/
theorem Reachable.stored (hp : s.plan.Lawful) (hstoring : s.plan.Storing) (h : s.Reachable c) :
    c.run.store = s.plan.stored c := by
  induction h with
  | begin =>
      show (s.send _ s.initial).store = s.plan.written (s.send _ s.initial).journal
      rw [store_send, journal_send]
      rfl
  | step h hstep ih => exact hstep.stored hp hstoring h ih

end RunSettings

end FlowGraph
