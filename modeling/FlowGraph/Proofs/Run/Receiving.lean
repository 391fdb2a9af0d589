import FlowGraph.Proofs.Plan.Bindings
import FlowGraph.Proofs.Run.Delivery
import FlowGraph.Proofs.Run.Origins

/-!
What an executor receives. A visit begins with a look at the inputs of its node, in the order in which they
are declared; the first one that is refused fails the visit, and with it the run, before the executor is
called. If the run has been cancelled by then, not even this look is taken. Otherwise the executor is called
with what the edges into the node carry.
-/

namespace FlowGraph

open Plan

/-- The edges over which values come to an input of a node, in the order of the flow. An edge that closes
the body of a loop brings none. -/
def PlannedNode.edgesInto (n : PlannedNode) (flow : Flow) (input : Handle) : List FlowEdge :=
  ((flow.incoming n.id).filter (·.targetHandle = input.id)).filter fun e =>
    n.kind.loopHandles?.all fun handles => e.targetHandle ≠ some handles.next

namespace TypedFlow

variable {f : TypedFlow} {start : String} {loops : List LoopBody} {p : Plan}

/-- Among the edges that enter the inputs of a node, input by input, are those into one of them. -/
theorem filter_enteringAll {nodeId : String} {inputs : List Handle}
    (hids : (inputs.map (·.id)).Nodup) {input : Handle} (hinput : input ∈ inputs) :
    (f.enteringAll nodeId inputs).filter (·.targetHandle = input.id) = f.entering nodeId input := by
  have hself : (f.entering nodeId input).filter (·.targetHandle = input.id) = f.entering nodeId input :=
    List.filter_eq_self.mpr fun e he => decide_eq_true (mem_entering.mp he).2
  have hother : ∀ other, other.id ≠ input.id →
      (f.entering nodeId other).filter (·.targetHandle = input.id) = [] := by
    intro other hne
    refine List.filter_eq_nil_iff.mpr fun e he => ?_
    rw [(mem_entering.mp he).2]
    simpa using hne
  induction inputs with
  | nil => exact absurd hinput List.not_mem_nil
  | cons first inputs ih =>
      rw [List.map_cons, List.nodup_cons] at hids
      rw [enteringAll, List.flatMap_cons, List.filter_append]
      rcases List.mem_cons.mp hinput with rfl | hinput
      · have hrest : (f.enteringAll nodeId inputs).filter (·.targetHandle = input.id) = [] := by
          rw [enteringAll, List.filter_flatMap, List.flatMap_eq_nil_iff]
          intro other hmem
          refine hother other fun heq => hids.1 (heq ▸ List.mem_map_of_mem hmem)
        rw [hself, ← enteringAll, hrest, List.append_nil]
      · have hne : first.id ≠ input.id := fun heq => hids.1 (heq ▸ List.mem_map_of_mem hinput)
        rw [hother first hne, List.nil_append, ← enteringAll, ih hids.2 hinput]

/-- The forward bindings of an input stand for the edges over which values come to it, in their order. -/
theorem Planned.binds_edgesInto (h : f.Planned start loops p) (hf : f.WellFormed) {flow : Flow}
    (hedges : f.edges = flow.edges) {n : PlannedNode} (hn : n ∈ p.nodes)
    (hkeys : (n.handles.inputs.map Handle.key).Nodup) {input : Handle}
    (hinput : input ∈ n.handles.inputs) :
    List.Forall₂ n.Binds (n.edgesInto flow input) (n.bindingsOf input) := by
  have hids : (n.handles.inputs.map (·.id)).Nodup :=
    List.Nodup.of_map handleKey (by rw [List.map_map]; exact hkeys)
  have hincoming : f.incoming n.id = flow.incoming n.id := by rw [incoming, hedges, Flow.incoming]
  have hsame : n.edgesInto flow input = (f.enteringAll n.id n.handles.inputs).filter fun e =>
      (n.kind.loopHandles?.all fun handles => e.targetHandle ≠ some handles.next) &&
        e.targetHandle = input.id := by
    rw [← List.filter_filter, filter_enteringAll hids hinput, entering, hincoming]
    rfl
  have hbindings : n.bindingsOf input = n.bindings.filter fun b => b.input = input.key && !b.backEdge := by
    rw [PlannedNode.bindingsOf, PlannedNode.forwardBindings, List.filter_filter]
  rw [hsame, hbindings]
  refine List.rel_filter ?_ (h.binds_enteringAll hf hn)
  intro e b hbinds
  obtain ⟨other, hother, hid, hkey⟩ := hbinds.exists_input
  have hinto : e.targetHandle = input.id ↔ b.input = input.key := by
    rw [← hid, hkey]
    constructor
    · intro heq
      rw [Handle.key, heq, Handle.key]
    · intro heq
      rw [List.inj_on_of_nodup_map hkeys hother hinput heq]
  have hforward : (n.kind.loopHandles?.all fun handles => e.targetHandle ≠ some handles.next) = true ↔
      b.backEdge = false := by
    rw [Bool.eq_false_iff, ne_eq, hbinds.backEdge_iff]
    cases n.kind <;> simp [NodeKind.loopHandles?]
  simp only [Bool.and_eq_true, decide_eq_true_eq, Bool.not_eq_true', hinto]
  rw [and_comm, hforward]

theorem Planned.length_bindingsOf_le (h : f.Planned start loops p) (hf : f.WellFormed) {flow : Flow}
    (hedges : f.edges = flow.edges) {n : PlannedNode} (hn : n ∈ p.nodes)
    (hkeys : (n.handles.inputs.map Handle.key).Nodup) {input : Handle}
    (hinput : input ∈ n.handles.inputs) (hone : input.cardinality ≠ .many) :
    (n.bindingsOf input).length ≤ 1 := by
  obtain ⟨t, -, hmade⟩ := h.exists_madeFrom hn
  have hcount : (f.entering n.id input).length ≤ 1 := by
    have hbound := (bindInputs_eq_ok_iff.mp hmade.bound).1 input (hmade.handles_eq ▸ hinput)
    obtain ⟨hrequired, hoptional⟩ := checkCount_eq_ok_iff.mp (hmade.id_eq ▸ hbound)
    cases hcard : input.cardinality with
    | required => exact (hrequired hcard).le
    | optional => exact hoptional hcard
    | many => exact absurd hcard hone
  calc (n.bindingsOf input).length
      = (n.edgesInto flow input).length := (h.binds_edgesInto hf hedges hn hkeys hinput).length_eq.symm
    _ ≤ ((flow.incoming n.id).filter (·.targetHandle = input.id)).length := List.length_filter_le _ _
    _ = (f.entering n.id input).length := by rw [entering, incoming, hedges, Flow.incoming]
    _ ≤ 1 := hcount

end TypedFlow

namespace RunSettings

/-- What becomes of a visit of a node that was begun upon a journal. -/
inductive Opens (s : RunSettings) (n : PlannedNode) (it : List Nat) (before : List Entry) : Prop
  /-- No input is refused, and the executor is called. -/
  | called {inputs} (hlive : ¬ s.FiredBy (.sent (.nodeStarted n.id n.typeName) :: before))
      (htaken : ∀ input ∈ n.handles.inputs, ∀ cause, ¬ s.plan.Refuses before n it input cause)
      (hcalled : .called n.id it inputs :: .sent (.nodeStarted n.id n.typeName) :: before <:+
        s.execute.2.journal)
  /-- The visit fails for the first input that is refused. -/
  | refused {earlier input later cause}
      (hlive : ¬ s.FiredBy (.sent (.nodeStarted n.id n.typeName) :: before))
      (hinputs : n.handles.inputs = earlier ++ input :: later)
      (htaken : ∀ other ∈ earlier, ∀ cause', ¬ s.plan.Refuses before n it other cause')
      (hrefuses : s.plan.Refuses before n it input cause) (hfails : s.FailsAtOnce n it before cause)
  /-- The run has been cancelled before, or as the visit began. -/
  | cancelled (hfired : s.FiredBy (.sent (.nodeStarted n.id n.typeName) :: before))
      (hfails : s.FailsAtOnce n it before .cancelled)

/-- What the executor of a node receives in a run. -/
structure Receives (s : RunSettings) (flow : Flow) (n : PlannedNode) : Prop where
  /-- The bindings of an input are the edges over which values come to it, in the order of the flow. -/
  bound : ∀ input ∈ n.handles.inputs,
    List.Forall₂ n.Binds (n.edgesInto flow input) (n.bindingsOf input) ∧
      (input.cardinality ≠ .many → (n.bindingsOf input).length ≤ 1)
  /-- The executor is called with what its inputs hold, and they take all of it. -/
  delivered : ∀ it inputs earlier, .called n.id it inputs :: earlier <:+ s.execute.2.journal →
    (∀ input ∈ n.handles.inputs, s.plan.Holds earlier n it input (Dict.get? inputs input.key) ∧
      ∀ found, Dict.get? inputs input.key = some found → ∀ v ∈ input.arriving found, input.Takes v) ∧
    ∀ key, key ∉ n.handles.inputs.map Handle.key → Dict.get? inputs key = none
  /-- Every visit that is not skipped was begun, and calls the executor unless an input is refused. -/
  opened : ∀ v, .visited v ∈ s.execute.2.journal → v.nodeId = n.id → v.status ≠ .skipped →
    ∃ before, .sent (.nodeStarted n.id n.typeName) :: before <:+ s.execute.2.journal ∧
      s.Opens n v.iteration before

variable {s : RunSettings} {frame : Frame} {n : PlannedNode} {todo : List PlannedNode}
  {loops : List OpenLoop} {r : RunState}

theorem called_invoke {place : Place} (hlive : r.cancelled = false) {inputs : Dict Value}
    (hinputs : n.resolveInputs (frame :: place.enclosing) = .ok inputs) :
    .called n.id place.iteration inputs :: r.journal <:+ (s.invoke place frame n r).2.journal := by
  let activity := n.executor.run (s.contextOf place n inputs r.store)
  let called := r.log (.called n.id place.iteration inputs)
  let carried := (s.carryOut n.id (s.nodeTimeout.map (r.clock + ·)) activity.steps called).2
  have hcarried : called.journal <:+ carried.journal := (s.moves_carryOut n.id _ activity.steps called).suffix
  unfold invoke
  rw [if_neg (by simp [hlive]), hinputs]
  dsimp only
  split
  next cause run heq =>
    have hrun : carried.journal = run.journal := congrArg (·.2.journal) heq
    exact hrun ▸ hcarried
  next run heq =>
    have hrun : carried.journal = run.journal := congrArg (·.2.journal) heq
    exact (hrun ▸ hcarried).trans (List.suffix_cons _ _)

/-- What becomes of a visit is told by the record as it is when the visit begins. -/
theorem Reachable.opens (hp : s.plan.Lawful)
    (hc : s.Reachable ⟨.passing frame (n :: todo), loops, r⟩)
    (hactive : n.isActive (frame :: (placeOf loops).enclosing) = true)
    (hkeys : (n.handles.inputs.map Handle.key).Nodup)
    (hone : ∀ input ∈ n.handles.inputs, input.cardinality ≠ .many → (n.bindingsOf input).length ≤ 1) :
    .sent (.nodeStarted n.id n.typeName) :: r.journal <:+ s.execute.2.journal ∧
      s.Opens n (placeOf loops).iteration r.journal := by
  have hcalled := hc.step (.call hactive)
  obtain ⟨hlevel, -, hstacked⟩ := standing_of_reachable hp hc
  have htells := hc.tells hp hlevel hstacked List.mem_cons_self
  have hjournal := s.journal_start n r
  have hbegun : .sent (.nodeStarted n.id n.typeName) :: r.journal <:+ s.execute.2.journal := by
    rw [← hjournal]
    exact (s.moves_invoke (placeOf loops) frame n (s.start n r)).suffix.trans (hcalled.suffix_execute hp)
  refine ⟨hbegun, ?_⟩
  cases hcancelled : (s.start n r).cancelled with
  | true =>
      have hinvoke : s.invoke (placeOf loops) frame n (s.start n r) = (.error .cancelled, s.start n r) := by
        rw [invoke, if_pos hcancelled]
      rw [hinvoke] at hcalled
      exact .cancelled (hjournal ▸ hcalled.firedBy_iff.mpr hcancelled) (hc.failsAtOnce hp hcalled)
  | false =>
      cases hinputs : n.resolveInputs (frame :: (placeOf loops).enclosing) with
      | error cause =>
          have hinvoke : s.invoke (placeOf loops) frame n (s.start n r) = (.error cause, s.start n r) := by
            rw [invoke, if_neg (by simp [hcancelled]), hinputs]
          rw [hinvoke] at hcalled
          obtain ⟨earlier, input, later, hdeclared, hearlier, herror⟩ :=
            PlannedNode.exists_of_resolveInputs_eq_error hinputs
          refine .refused (fun hfired => ?_) hdeclared (fun other hother cause' hrefuses => ?_)
            ((htells.refuses_iff (hone input (by simp [hdeclared]))).mpr herror) (hc.failsAtOnce hp hcalled)
          · rw [← hjournal] at hfired
            exact absurd (hcancelled.symm.trans (hcalled.firedBy_iff.mp hfired)) (by simp)
          · obtain ⟨v, hv⟩ := hearlier other hother
            have herror' := (htells.refuses_iff (hone other (by simp [hdeclared, hother]))).mp hrefuses
            exact absurd (hv.symm.trans herror') (by simp)
      | ok inputs =>
          have hsuffix := (called_invoke (s := s) hcancelled hinputs).trans (hcalled.suffix_execute hp)
          rw [hjournal] at hsuffix
          have hbegins : (Entry.called n.id (placeOf loops).iteration inputs).Begins := trivial
          refine .called ((reachable_execute hp).not_firedBy hbegins hsuffix)
            (fun input hinput cause hrefuses => ?_) hsuffix
          have hok := PlannedNode.get?_of_resolveInputs hinputs hkeys hinput
          have herror := (htells.refuses_iff (hone input hinput)).mp hrefuses
          exact absurd (hok.symm.trans herror) (by simp)

end RunSettings

/-- What the executors of accepted flows receive, and what becomes of the visits for which they receive
nothing. -/
theorem Registry.node_receives_what_edges_carry {r : Registry} {flow : Flow} {start : Option String}
    {s : RunSettings} (h : r.resolve flow start = .ok s.plan) {n : PlannedNode} (hn : n ∈ s.plan.nodes)
    (hkeys : (n.handles.inputs.map Handle.key).Nodup) : s.Receives flow n := by
  have hp := r.lawful_of_resolve_eq_ok h
  have hexecute := RunSettings.reachable_execute hp
  obtain ⟨f, loops, htyped, -, hplanned⟩ := exists_typed_of_resolve_eq_ok h
  obtain ⟨hedges, -, -, hf⟩ := wellFormed_of_typeFlow_eq_ok htyped
  have hone : ∀ input ∈ n.handles.inputs, input.cardinality ≠ .many →
      (n.bindingsOf input).length ≤ 1 :=
    fun input hinput hmany => hplanned.length_bindingsOf_le hf hedges hn hkeys hinput hmany
  refine
    { bound := fun input hinput => ⟨hplanned.binds_edgesInto hf hedges hn hkeys hinput, hone input hinput⟩
      delivered := fun it inputs earlier hcalled => ?_
      opened := fun v hv hid hstatus => ?_ }
  · obtain ⟨c, hc, hwrites⟩ := hexecute.written hp hcalled
    generalize hnid : n.id = id at hwrites
    cases hwrites with
    | @called frame m todo loops r _ hactive hinputs =>
        obtain ⟨hlevel, -, hstacked⟩ := standing_of_reachable hp hc
        obtain rfl := hp.eq_of_id_eq hn hlevel.node_mem hnid
        have htells := (hc.tells hp hlevel hstacked List.mem_cons_self).cons_sent
          (.nodeStarted n.id n.typeName)
        refine ⟨fun input hinput => ?_, fun key hkey => PlannedNode.get?_of_not_mem hinputs hkey⟩
        exact htells.holds_of_inputValue_eq_ok (hone input hinput)
          (PlannedNode.get?_of_resolveInputs hinputs hkeys hinput)
  · obtain ⟨later, rest, c, hjournal, hc, hwrites⟩ := hexecute.written_of_mem hp hv
    cases hwrites with
    | skipped | skippedWith | skippedFor => exact absurd rfl hstatus
    | completed | failed =>
        obtain - | - | ⟨hvisiting, -⟩ := standing_of_reachable hp hc
        obtain rfl := hp.eq_of_id_eq hvisiting.node_mem hn hid
        obtain - | - | ⟨⟨hactive, r₀, hbegun⟩, -⟩ := hc.originating
        exact ⟨r₀.journal, hbegun.opens hp hactive hkeys hone⟩

/-- One of two branches, and the inputs of the run, come together. -/
def halfMerged : Flow where
  nodes := [⟨"s", "start", .null⟩, ⟨"check", "if", .object [("condition", .string "false")]⟩,
    ⟨"a", "json", .object [("value", .object [("a", .bool true)])]⟩,
    ⟨"b", "json", .object [("value", .object [("b", .bool true)])]⟩, ⟨"n", "merge", .null⟩]
  edges := [⟨"e1", "s", none, "check", none⟩, ⟨"e2", "check", some "true", "a", none⟩,
    ⟨"e3", "check", some "false", "b", none⟩, ⟨"e4", "b", none, "n", none⟩,
    ⟨"e5", "a", none, "n", none⟩, ⟨"e6", "s", none, "n", none⟩]

/-- What the branch that was taken brings comes first, as its edge does, and the other one brings nothing. -/
theorem halfMerged_receives : ∃ p, Standard.registry.resolve halfMerged none = .ok p ∧
    let s : RunSettings := { plan := p }
    ∃ n ∈ p.nodes, n.id = "n" ∧ (n.handles.inputs.map Handle.key).Nodup ∧ s.Receives halfMerged n ∧
      ∃ earlier, .called "n" [] [("", .array [.object [("b", .bool true)], .object []])] :: earlier <:+
          s.execute.2.journal ∧
        ∃ input ∈ n.handles.inputs, (n.edgesInto halfMerged input).map (·.id) = ["e4", "e5", "e6"] ∧
          p.Holds earlier n [] input (some (.array [.object [("b", .bool true)], .object []])) := by
  let call : Entry := .called "n" [] [("", .array [.object [("b", .bool true)], .object []])]
  have hrun : ((Standard.registry.resolve halfMerged none).toOption.map fun p => decide
      (call ∈ (RunSettings.execute { plan := p }).2.journal ∧
        ∃ n ∈ p.nodes, n.id = "n" ∧ (n.handles.inputs.map Handle.key).Nodup ∧
          ∃ input ∈ n.handles.inputs, input.key = "" ∧
            (n.edgesInto halfMerged input).map (·.id) = ["e4", "e5", "e6"])) = some true := by
    decide +kernel
  obtain ⟨p, hp, hrun⟩ := Option.map_eq_some_iff.mp hrun
  have hok := eq_ok_of_toOption_eq_some hp
  obtain ⟨hcall, n, hn, hid, hkeys, input, hinput, hkey, hedges⟩ := of_decide_eq_true hrun
  obtain ⟨later, earlier, hjournal⟩ := List.append_of_mem hcall
  have hsuffix : call :: earlier <:+ (RunSettings.execute { plan := p }).2.journal := ⟨later, hjournal.symm⟩
  have hreceives := Registry.node_receives_what_edges_carry (s := { plan := p }) hok hn hkeys
  refine ⟨p, hok, n, hn, hid, hkeys, hreceives, earlier, hsuffix, input, hinput, hedges, ?_⟩
  have hown : .called n.id [] [("", .array [.object [("b", .bool true)], .object []])] :: earlier <:+
      (RunSettings.execute { plan := p }).2.journal := by
    rw [hid]
    exact hsuffix
  have hholds := ((hreceives.delivered [] _ earlier hown).1 input hinput).1
  rw [hkey] at hholds
  exact hholds

/-- What is no text is to be read as JSON. -/
def mistyped : Flow where
  nodes := [⟨"s", "start", .null⟩, ⟨"flag", "json", .object [("value", .bool true)]⟩,
    ⟨"parse", "jsonParse", .null⟩]
  edges := [⟨"e1", "s", none, "flag", none⟩, ⟨"e2", "flag", none, "parse", none⟩]

/-- Whether the newest event is that the node `flag` has completed. -/
def flagCompletes : List Event → Bool
  | .nodeCompleted "flag" _ _ :: _ => true
  | _ => false

/-- Cancelled before it, the visit does not fail for its input, though the input is refused. -/
theorem mistyped_fails_as_cancelled : ∃ p, Standard.registry.resolve mistyped none = .ok p ∧
    let s : RunSettings := { plan := p, cancellation := { upon := some flagCompletes } }
    ∃ n ∈ p.nodes, n.id = "parse" ∧ (n.handles.inputs.map Handle.key).Nodup ∧
      ∃ before, .visited ⟨"parse", [], .failed, none, 0⟩ ::
          .sent (.nodeFailed "parse" NodeError.cancelled.message) ::
          .sent (.nodeStarted "parse" "jsonParse") :: before <:+ s.execute.2.journal ∧
        (∃ input ∈ n.handles.inputs,
          p.Refuses before n [] input (.invalidInputType "" "text" "boolean")) ∧
        s.execute.1 = .error ⟨"parse", .cancelled⟩ := by
  let input := Handle.unnamed .text .required
  let b : Binding := ⟨"", "flag", "", "e2", false⟩
  have hrun : ((Standard.registry.resolve mistyped none).toOption.map fun p => decide
      (let s : RunSettings := { plan := p, cancellation := { upon := some flagCompletes } }
      let before := s.execute.2.journal.drop 5
      (.visited ⟨"parse", [], .failed, none, 0⟩ ::
        .sent (.nodeFailed "parse" NodeError.cancelled.message) ::
        .sent (.nodeStarted "parse" "jsonParse") :: before <:+ s.execute.2.journal) ∧
      (∃ n ∈ p.nodes, n.id = "parse" ∧ n.scope = [] ∧ n.handles.inputs = [input] ∧
        n.bindingsOf input = [b]) ∧
      (∃ m ∈ p.nodes, m.id = "flag" ∧ m.scope = []) ∧
      visitsAt before "flag" [] = [⟨"flag", [], .completed, none, 0⟩] ∧
      [.visited ⟨"flag", [], .completed, none, 0⟩,
        .sent (.nodeCompleted "flag" [("", .bool true)] 0)] <:+: before ∧
      s.execute.1 = .error ⟨"parse", .cancelled⟩)) = some true := by
    decide +kernel
  obtain ⟨p, hp, hrun⟩ := Option.map_eq_some_iff.mp hrun
  obtain ⟨htold, ⟨n, hn, hid, hscope, hinputs, hbinding⟩, ⟨m, hm, hmid, hmscope⟩, hvisit, houtputs, hfails⟩ :=
    of_decide_eq_true hrun
  refine ⟨p, eq_ok_of_toOption_eq_some hp, n, hn, hid, ?_, _, htold, ⟨input, ?_, ?_⟩, hfails⟩
  · simp [hinputs]
  · simp [hinputs]
  have hit : ([] : List Nat) = ([] : List Nat).take m.scope.length := by simp
  rw [← hmid, hit] at hvisit houtputs
  have hcarries := Carries.completed (p := p) (n := n) (b := b) hm hmid (by simp [hscope]) hvisit houtputs
    (fun handle hhandle => absurd hhandle (by simp)) (Dict.get?_cons _ _ _ _)
  have hholds := Holds.carried (p := p) (n := n) (by decide : input.cardinality ≠ .many) hbinding hcarries
  exact .category (v := .bool true) hholds rfl (fun u hu => absurd hu List.not_mem_nil) (by
    simp [Handle.Takes, input, Handle.unnamed, Value.category])

end FlowGraph
