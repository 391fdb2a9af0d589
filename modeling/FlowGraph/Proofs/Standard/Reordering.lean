import FlowGraph.Proofs.Plan.Reordering
import FlowGraph.Proofs.Run.Retelling
import FlowGraph.Proofs.Standard.Safety

/-!
Runs of standard nodes do not depend on the order in which a flow lists its nodes and edges, as long as
no node ends a loop or the run, sets a variable, or sends a request. All other standard nodes are plain;
the plans of two such flows have the same nodes, and so their runs come to the same.
-/

namespace FlowGraph

def NodeType.Plain (t : NodeType) : Prop :=
  ∀ data executor, t.create data = .ok executor → executor.Plain

namespace Standard

/-- The types of the standard nodes that do more than to put values on their outputs. -/
def withEffects : List String :=
  [breakLoop.name, continueLoop.name, finish.name, setVariable.name, requestType]

theorem start_plain : start.Plain := by
  intro data executor hcreate
  obtain rfl := Except.ok.inj hcreate
  exact fun _ => .of_outputs

theorem ifElse_plain (language : Condition.Language) : (ifElse language).Plain := by
  intro data executor hcreate
  obtain ⟨conditions, -, hcreate⟩ := bind_eq_ok hcreate
  obtain rfl := Except.ok.inj hcreate
  intro ctx
  show (branchOn conditions ctx).Plain ctx
  rcases branchOn_cases conditions ctx with ⟨reason, heq⟩ | ⟨scope, chosen, -, heq⟩
  · rw [heq]
    exact .of_error ctx _
  · rw [heq]
    exact ⟨rfl, fun result hresult => Or.inr ⟨_, _, (Except.ok.inj hresult).symm⟩⟩

theorem forEach_plain : forEach.Plain := by
  intro data executor hcreate
  obtain rfl := Except.ok.inj hcreate
  intro ctx
  dsimp only
  split
  · exact .of_error ctx _
  · exact .of_outputs

theorem decoration_plain (name : String) (metadata : Metadata) (schema : Schema) :
    (decoration name metadata schema).Plain := by
  intro data executor hcreate
  obtain rfl := Except.ok.inj hcreate
  exact fun _ => .of_outputs

theorem constant_plain (name label : String) (category : Category) (kind : FieldKind) (default : Json) :
    (constant name label category kind default).Plain := by
  intro data executor hcreate
  simp only [constant] at hcreate
  split at hcreate
  · obtain rfl := Except.ok.inj hcreate
    exact fun _ => .of_outputs
  · exact absurd hcreate (by simp)

theorem jsonParse_plain : jsonParse.Plain := by
  intro data executor hcreate
  obtain rfl := Except.ok.inj hcreate
  exact fun ctx => .of_value ctx _

theorem jsonStringify_plain : jsonStringify.Plain := by
  intro data executor hcreate
  obtain ⟨pretty, -, hcreate⟩ := bind_eq_ok hcreate
  obtain rfl := Except.ok.inj hcreate
  exact fun ctx => .of_value ctx _

theorem math_plain : math.Plain := by
  intro data executor hcreate
  obtain ⟨name, -, hcreate⟩ := bind_eq_ok hcreate
  split at hcreate
  · exact absurd hcreate (by simp)
  · obtain rfl := Except.ok.inj hcreate
    exact fun ctx => .of_value ctx _

theorem merge_plain : merge.Plain := by
  intro data executor hcreate
  obtain rfl := Except.ok.inj hcreate
  exact fun _ => .of_outputs

theorem getVariable_plain : getVariable.Plain := by
  intro data executor hcreate
  obtain ⟨name, -, hcreate⟩ := bind_eq_ok hcreate
  obtain rfl := Except.ok.inj hcreate
  exact fun _ => .of_outputs

theorem log_plain : log.Plain := by
  intro data executor hcreate
  obtain ⟨message, -, hcreate⟩ := bind_eq_ok hcreate
  obtain ⟨level, -, hcreate⟩ := bind_eq_ok hcreate
  obtain rfl := Except.ok.inj hcreate
  exact fun _ => .of_outputs

theorem delay_plain : delay.Plain := by
  intro data executor hcreate
  obtain ⟨millis, -, hcreate⟩ := bind_eq_ok hcreate
  obtain rfl := Except.ok.inj hcreate
  exact fun _ => .of_outputs

/-- All other standard nodes are plain. -/
theorem plain_of_mem {lib : Libraries} {t : NodeType} (ht : t ∈ typesWith lib)
    (hname : t.name ∉ withEffects) : t.Plain := by
  simp only [typesWith, List.mem_cons, List.not_mem_nil, or_false] at ht
  rcases ht with rfl | rfl | rfl | rfl | rfl | rfl | rfl | rfl | rfl | rfl | rfl | rfl | rfl | rfl |
    rfl | rfl | rfl | rfl | rfl | rfl | rfl
  · exact start_plain
  · exact ifElse_plain _
  · exact forEach_plain
  · exact absurd (by simp [withEffects]) hname
  · exact absurd (by simp [withEffects]) hname
  · exact absurd (by simp [withEffects]) hname
  · exact decoration_plain _ _ _
  · exact decoration_plain _ _ _
  · exact constant_plain _ _ _ _ _
  · exact constant_plain _ _ _ _ _
  · exact constant_plain _ _ _ _ _
  · exact constant_plain _ _ _ _ _
  · exact jsonParse_plain
  · exact jsonStringify_plain
  · exact math_plain
  · exact merge_plain
  · exact getVariable_plain
  · exact absurd (by simp [withEffects]) hname
  · exact log_plain
  · exact delay_plain
  · exact absurd (by simp [withEffects, httpRequest]) hname

end Standard

theorem Plan.Wired.plain {lib : Standard.Libraries} {p : Plan} {flow : Flow}
    (hwired : p.Wired (Standard.registryWith lib) flow)
    (hplain : ∀ node ∈ flow.nodes, node.typeName ∉ Standard.withEffects) :
    ∀ n ∈ p.nodes, n.executor.Plain := by
  intro n hn
  obtain ⟨node, hnode, t, ht, hmakes⟩ := hwired.made n hn
  obtain ⟨hmem, hname⟩ := Standard.mem_of_get? ht
  exact Standard.plain_of_mem hmem (hname ▸ hplain node hnode) n.data n.executor hmakes.created

namespace Registry

variable {lib : Standard.Libraries} {flow flow' : Flow} {start : Option String} {s : RunSettings}

theorem orderly_of_resolve_eq_ok (h : (Standard.registryWith lib).resolve flow start = .ok s.plan)
    (hplain : ∀ node ∈ flow.nodes, node.typeName ∉ Standard.withEffects)
    (hfree : s.cancellation = {}) : s.Orderly := by
  obtain ⟨f, id, loops, -, hwell, hplanned⟩ := exists_planned_of_resolve_eq_ok h
  refine ⟨lawful_of_resolve_eq_ok h, fun n hn b hb hback m hm hid => ?_,
    (wired_of_resolve_eq_ok h).plain hplain, hfree⟩
  exact hplanned.getLast?_scope_of_backEdge hwell hm hn hb hback hid

/-- A run that ends well comes to the same if the nodes and edges of its flow are listed in another
order. -/
theorem execution_independent_of_listing (h : (Standard.registryWith lib).resolve flow start = .ok s.plan)
    (hplain : ∀ node ∈ flow.nodes, node.typeName ∉ Standard.withEffects)
    (hreordered : flow.Reordered flow') (hfree : s.cancellation = {}) {outcome : Outcome}
    (hok : s.execute.1 = .ok outcome) :
    ∃ p', (Standard.registryWith lib).resolve flow' start = .ok p' ∧
      let run' := RunSettings.execute { s with plan := p' }
      run'.1 = .ok outcome ∧ s.execute.2.trace.Alike run'.2.trace := by
  obtain ⟨p', hp', hperm⟩ := exists_resolve_eq_ok hreordered h
  have hplain' : ∀ node ∈ flow'.nodes, node.typeName ∉ Standard.withEffects :=
    fun node hnode => hplain node (hreordered.nodes_perm.mem_iff.mpr hnode)
  have htwin : s.Twin { s with plan := p' } :=
    { left := orderly_of_resolve_eq_ok h hplain hfree
      right := orderly_of_resolve_eq_ok hp' hplain' hfree
      nodes_perm := hperm
      inputs_eq := rfl
      nodeTimeout_eq := rfl }
  exact ⟨p', hp', htwin.execute_same hok⟩

/-- A loop that collects what is merged in its body, and a branch next to it. -/
def mergedRows : Flow where
  nodes := [⟨"s", "start", .null⟩,
    ⟨"list", "json", .object [("value", .array [.object [("a", .bool true)], .object []])]⟩,
    ⟨"check", "if", .object [("condition", .string "false")]⟩, ⟨"never", "log", .null⟩,
    ⟨"loop", "forEach", .null⟩, ⟨"row", "merge", .null⟩, ⟨"after", "log", .null⟩]
  edges := [⟨"e1", "s", none, "list", none⟩, ⟨"e2", "s", none, "check", none⟩,
    ⟨"e3", "list", none, "loop", some "items"⟩, ⟨"e4", "loop", some "item", "row", none⟩,
    ⟨"e5", "s", none, "row", none⟩, ⟨"e6", "row", none, "loop", some "next"⟩,
    ⟨"e7", "check", some "true", "never", none⟩, ⟨"e8", "loop", some "done", "after", none⟩]

/-- The same nodes and edges, the other way round but for the edges into `row` and `loop`. -/
def mergedRowsBackwards : Flow where
  nodes := mergedRows.nodes.reverse
  edges := [⟨"e8", "loop", some "done", "after", none⟩, ⟨"e7", "check", some "true", "never", none⟩,
    ⟨"e4", "loop", some "item", "row", none⟩, ⟨"e5", "s", none, "row", none⟩,
    ⟨"e3", "list", none, "loop", some "items"⟩, ⟨"e6", "row", none, "loop", some "next"⟩,
    ⟨"e2", "s", none, "check", none⟩, ⟨"e1", "s", none, "list", none⟩]

/-- The nodes are visited in different orders, but the runs come to the same. -/
theorem runs_of_mergedRows : mergedRows.Reordered mergedRowsBackwards ∧
    ∃ p p', Standard.registry.resolve mergedRows none = .ok p ∧
      Standard.registry.resolve mergedRowsBackwards none = .ok p' ∧
      let run := RunSettings.execute { plan := p, inputs := [("b", .bool false)] }
      let run' := RunSettings.execute { plan := p', inputs := [("b", .bool false)] }
      run.1 = .ok .completed ∧ run'.1 = .ok .completed ∧ run.2.trace.Alike run'.2.trace ∧
        run.2.visits.map (·.nodeId) = ["s", "list", "check", "never", "row", "row", "loop", "after"] ∧
        run'.2.visits.map (·.nodeId) = ["s", "check", "never", "list", "row", "row", "loop", "after"] := by
  have hreordered : mergedRows.Reordered mergedRowsBackwards := by decide +kernel
  have hplain : ∀ node ∈ mergedRows.nodes, node.typeName ∉ Standard.withEffects := by
    decide +kernel
  have hrun : ((Standard.registry.resolve mergedRows none).toOption.map fun p =>
      let run := RunSettings.execute { plan := p, inputs := [("b", .bool false)] }
      (run.1.toOption, run.2.visits.map (·.nodeId))) =
      some (some .completed, ["s", "list", "check", "never", "row", "row", "loop", "after"]) := by
    decide +kernel
  have hrun' : ((Standard.registry.resolve mergedRowsBackwards none).toOption.map fun p =>
      (RunSettings.execute { plan := p, inputs := [("b", .bool false)] }).2.visits.map (·.nodeId)) =
      some ["s", "check", "never", "list", "row", "row", "loop", "after"] := by
    decide +kernel
  obtain ⟨p, hp, heq⟩ := Option.map_eq_some_iff.mp hrun
  obtain ⟨hended, hvisits⟩ := Prod.mk.inj heq
  have hok := eq_ok_of_toOption_eq_some hp
  obtain ⟨p', hok', hended', halike⟩ := execution_independent_of_listing
    (s := { plan := p, inputs := [("b", .bool false)] }) hok hplain hreordered rfl
    (eq_ok_of_toOption_eq_some hended)
  have hok' : Standard.registry.resolve mergedRowsBackwards none = .ok p' := hok'
  rw [hok'] at hrun'
  exact ⟨hreordered, p, p', hok, hok', eq_ok_of_toOption_eq_some hended, hended', halike, hvisits, Option.some.inj hrun'⟩

end Registry

end FlowGraph
