import FlowGraph.Proofs.Run.Faults
import FlowGraph.Proofs.Standard.Conformity

/-!
Flows of standard nodes never fail for a reason of the engine's own. What the checks of a flow settle and
what the executors of the standard types do go together: a required input is bound to a source that fills
its output, a branch leads to the output of a condition, what ends a loop stands inside of one, and
`forEach` hands over an array.
-/

namespace FlowGraph

open Plan

/-- The failures by which the engine itself ends a run: an input is missing, or it refuses what the
executor of a node has come to. -/
inductive Plan.Internal (p : Plan) : Failure → Prop
  | missingInput (id name : String) : Internal p ⟨id, .missingInput name⟩
  | refused (id : String) {reason : String} (hreason : EngineReason reason) :
      Internal p ⟨id, .executionFailed reason⟩
  | noArray {n : PlannedNode} {loop : LoopHandles} (hn : n ∈ p.nodes)
      (hkind : n.kind.loopHandles? = some loop) (expected actual : String) :
      Internal p ⟨n.id, .invalidInputType loop.body expected actual⟩

/-- What a run gives to a node, and what it gets from it. -/
structure PlannedNode.Served (n : PlannedNode) (journal : List Entry) : Prop where
  required_filled : ∀ it inputs, .called n.id it inputs ∈ journal →
    ∀ input ∈ n.handles.inputs, input.cardinality = .required →
      ∃ v, Dict.get? inputs input.key = some v
  branch_declared : ∀ it handle values, .answered n.id it (.ok (.branch handle values)) ∈ journal →
    ∃ output ∈ n.handles.outputs, output.key = handle
  /-- What ends a loop or an iteration does so inside of a loop. -/
  control_inside : ∀ it, .answered n.id it (.ok .loopBreak) ∈ journal ∨
    .answered n.id it (.ok .loopContinue) ∈ journal → n.scope ≠ [] ∧ it.length = n.scope.length
  collection_array : ∀ loop, n.kind.loopHandles? = some loop → ∀ it result,
    .answered n.id it (.ok result) ∈ journal →
      ∃ values elements, result = .outputs values ∧
        Dict.get? values loop.body = some (.array elements)

namespace RunSettings

variable {s : RunSettings} {registry : Registry} {flow : Flow}

theorem not_internal_of_admits (hp : s.plan.Lawful) (hconforms : s.plan.Conforming)
    {failure : Failure} {n : PlannedNode} (hn : n ∈ s.plan.nodes) (hid : n.id = failure.nodeId)
    (hadmits : s.plan.Admits flow.edges n failure.cause) : ¬ s.plan.Internal failure := by
  intro hinternal
  cases hinternal with
  | missingInput => exact hadmits
  | refused _ hreason => exact hadmits hreason
  | @noArray m loop hm hkind =>
      obtain rfl := hp.eq_of_id_eq hn hm hid
      obtain ⟨⟨input, hinput, hkey⟩, -⟩ := hadmits
      exact ((hconforms n hn).among loop hkind).input_ne_body input hinput hkey

theorem served (hp : s.plan.Lawful) (hwired : s.plan.Wired registry flow)
    (hconforms : s.plan.Conforming) {n : PlannedNode} (hn : n ∈ s.plan.nodes) :
    n.Served s.execute.2.journal := by
  have hc := reachable_execute hp
  refine ⟨fun it inputs hcalled input hinput hrequired => ?_, fun it handle values hmem => ?_,
    fun it hmem => ?_, fun loop hkind it result hmem => ?_⟩
  · obtain ⟨_, _, c₀, -, hc₀, hwrites⟩ := hc.written_of_mem hp hcalled
    generalize hid : n.id = id at hwrites
    cases hwrites with
    | called hactive hinputs =>
        obtain ⟨hlevel, -, hstacked⟩ := standing_of_reachable hp hc₀
        obtain rfl := hp.eq_of_id_eq hn hlevel.node_mem hid
        have hsupplies := hc₀.supplies hp hwired hconforms hlevel hstacked List.mem_cons_self
        exact hsupplies.exists_of_assured hwired hn (hconforms n hn) hactive hinputs hinput
          (Or.inl hrequired)
  · obtain ⟨hyields, -⟩ := hc.yields_of_mem hp hconforms hn hmem
    cases hyields with
    | branch _ hdeclared => exact ⟨_, hdeclared, rfl⟩
  · have hcontrol : n.kind = .loopControl ∧ it.length = n.scope.length := by
      rcases hmem with hmem | hmem
      · obtain ⟨hyields, hlength⟩ := hc.yields_of_mem hp hconforms hn hmem
        cases hyields with
        | loopBreak hkind => exact ⟨hkind, hlength⟩
      · obtain ⟨hyields, hlength⟩ := hc.yields_of_mem hp hconforms hn hmem
        cases hyields with
        | loopContinue hkind => exact ⟨hkind, hlength⟩
    exact ⟨hwired.control_inside n hn hcontrol.1, hcontrol.2⟩
  · exact (hc.yields_of_mem hp hconforms hn hmem).1.exists_array hkind

end RunSettings

/-- The nodes of a flow of standard types conform, if none of them sends requests. -/
theorem Plan.Wired.conforming {lib : Standard.Libraries} {p : Plan} {flow : Flow}
    (hwired : p.Wired (Standard.registryWith lib) flow)
    (hrequests : ∀ node ∈ flow.nodes, node.typeName ≠ Standard.requestType) : p.Conforming := by
  intro n hn
  obtain ⟨node, hnode, t, ht, hmakes⟩ := hwired.made n hn
  obtain ⟨hmem, hname⟩ := Standard.mem_of_get? ht
  have hconforming := Standard.conforming_of_mem hmem (hname ▸ hrequests node hnode)
  rw [hmakes.kind_eq]
  exact hconforming node.id node.data ⟨n.data, n.handles⟩ n.executor hmakes.described hmakes.created

namespace Registry

/-- A run of a flow of standard nodes never fails for a reason of the engine's own, and no visit in it
does: every required input has a value when its node is called, every branch leads to an output of the
node, what ends a loop or an iteration stands inside of a loop, and every loop hands over an array. -/
theorem standard_run_never_internal {lib : Standard.Libraries} {flow : Flow} {start : Option String}
    {s : RunSettings} (h : (Standard.registryWith lib).resolve flow start = .ok s.plan)
    (hrequests : ∀ node ∈ flow.nodes, node.typeName ≠ Standard.requestType) :
    (∀ failure, s.execute.1 = .error failure → ¬ s.plan.Internal failure) ∧
      (∀ visit ∈ s.execute.2.trace.visits, visit.status = .failed →
        ∃ failure, s.execute.1 = .error failure ∧ failure.nodeId = visit.nodeId) ∧
      ∀ n ∈ s.plan.nodes, n.Served s.execute.2.journal := by
  have hp := lawful_of_resolve_eq_ok h
  have hwired := wired_of_resolve_eq_ok h
  have hconforms := hwired.conforming hrequests
  refine ⟨fun failure hfailure => ?_, fun visit hvisit hfailed => ?_, fun n hn => ?_⟩
  · obtain ⟨n, hn, hid, hadmits⟩ := RunSettings.admits_of_execute_eq_error hp hwired hconforms hfailure
    exact RunSettings.not_internal_of_admits hp hconforms hn hid hadmits
  · exact (RunSettings.accounted_execute hp).exists_failure hvisit hfailed
  · exact RunSettings.served hp hwired hconforms hn

/-- A loop is left at its first element, and a text that is no JSON fails a node in the next loop. -/
def stoppedThenFailed : Flow where
  nodes := [⟨"s", "start", .null⟩, ⟨"list", "json", .object [("value", .array [.string "["])]⟩,
    ⟨"first", "forEach", .null⟩, ⟨"stop", "break", .null⟩, ⟨"second", "forEach", .null⟩,
    ⟨"check", "if", .object [("condition", .string "true")]⟩, ⟨"parse", "jsonParse", .null⟩]
  edges := [⟨"e1", "s", none, "list", none⟩, ⟨"e2", "list", none, "first", some "items"⟩,
    ⟨"e3", "first", some "item", "stop", none⟩, ⟨"e4", "first", some "done", "second", some "items"⟩,
    ⟨"e5", "second", some "item", "check", none⟩, ⟨"e6", "check", some "true", "parse", none⟩]

/-- The result, if the entry is an answer that is no error: the node, the iteration and the result. -/
def answer? : Entry → Option (String × List Nat × NodeResult)
  | .answered id it (.ok result) => some (id, it, result)
  | _ => none

theorem answered_mem_of_answer? {journal : List Entry} {id : String} {it : List Nat}
    {result : NodeResult} (h : (id, it, result) ∈ journal.filterMap answer?) :
    .answered id it (.ok result) ∈ journal := by
  obtain ⟨e, he, heq⟩ := List.mem_filterMap.mp h
  unfold answer? at heq
  split at heq
  · obtain ⟨rfl, hrest⟩ := Prod.mk.inj (Option.some.inj heq)
    obtain ⟨rfl, rfl⟩ := Prod.mk.inj hrest
    exact he
  · exact absurd heq (by simp)

/-- The run fails for what the text is; the `break` stands in its loop, the branch leads to the output of
its condition, and the second loop has got what the first one collected. -/
theorem safety_of_stoppedThenFailed :
    ∃ p, Standard.registry.resolve stoppedThenFailed none = .ok p ∧
      let run := RunSettings.execute { plan := p }
      (∃ failure, run.1 = .error failure ∧ failure.nodeId = "parse" ∧ ¬ p.Internal failure) ∧
        (∃ n ∈ p.nodes, n.id = "stop" ∧ n.scope ≠ [] ∧ n.scope.length = 1) ∧
        (∃ n ∈ p.nodes, n.id = "check" ∧ ∃ output ∈ n.handles.outputs, output.key = "true") ∧
        ∃ n ∈ p.nodes, n.id = "second" ∧ ∃ it result, .answered n.id it (.ok result) ∈ run.2.journal ∧
          ∃ values elements, result = .outputs values ∧
            Dict.get? values Standard.forEachHandles.body = some (.array elements) := by
  have hrun : ((Standard.registry.resolve stoppedThenFailed none).toOption.map fun p => decide
      (let run := RunSettings.execute { plan := p }
      (failureOf run.1).map (·.nodeId) = some "parse" ∧
        (∃ n ∈ p.nodes, n.id = "stop" ∧
          (n.id, [0], .loopBreak) ∈ run.2.journal.filterMap answer?) ∧
        (∃ n ∈ p.nodes, n.id = "check" ∧ (n.id, [0], .branch "true" [("true", .text "[")]) ∈
          run.2.journal.filterMap answer?) ∧
        ∃ n ∈ p.nodes, n.id = "second" ∧ n.kind.loopHandles? = some Standard.forEachHandles ∧
          (n.id, [], .outputs [("item", .array [.text "["])]) ∈
            run.2.journal.filterMap answer?)) = some true := by
    decide +kernel
  obtain ⟨p, hp, hrun⟩ := Option.map_eq_some_iff.mp hrun
  have hok := eq_ok_of_toOption_eq_some hp
  obtain ⟨hnever, -, hserved⟩ := standard_run_never_internal (s := { plan := p }) hok (by decide)
  obtain ⟨hparse, ⟨n, hn, hid, hstop⟩, ⟨m, hm, hmid, hcheck⟩, l, hl, hlid, hkind, hsecond⟩ :=
    of_decide_eq_true hrun
  refine ⟨p, hok, ?_, ⟨n, hn, hid, ?_⟩, ⟨m, hm, hmid, ?_⟩, l, hl, hlid, [], _,
    answered_mem_of_answer? hsecond, ?_⟩
  · obtain ⟨failure, hfailure, hparse⟩ := Option.map_eq_some_iff.mp hparse
    have herror := eq_error_of_failureOf hfailure
    exact ⟨failure, herror, hparse, hnever failure herror⟩
  · obtain ⟨hscope, hlength⟩ :=
      (hserved n hn).control_inside [0] (Or.inl (answered_mem_of_answer? hstop))
    exact ⟨hscope, hlength.symm⟩
  · exact (hserved m hm).branch_declared [0] "true" _ (answered_mem_of_answer? hcheck)
  · exact (hserved l hl).collection_array _ hkind [] _ (answered_mem_of_answer? hsecond)

end Registry

end FlowGraph
