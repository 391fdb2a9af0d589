import FlowGraph.Proofs.Plan.Membership
import FlowGraph.Proofs.Plan.RegionOrder

/-!
How the nodes of a plan are wired. Every node was made by a registered type from data that its schema
has normalised; every binding leads from a declared output to a declared input of a compatible category
and stands for an edge of the flow; a required input has a binding; what the `body` output of a loop is
bound to lies inside of the loop; and what ends a loop or an iteration lies inside of one.
-/

namespace FlowGraph

structure NodeType.Makes (t : NodeType) (id : String) (data : Json) (n : PlannedNode) : Prop where
  kind_eq : n.kind = t.kind
  described : t.describe id data = .ok ⟨n.data, n.handles⟩
  created : t.create n.data = .ok n.executor

/-- A binding of a node joins an output to an input, as an edge of the flow does. -/
structure Plan.Joins (p : Plan) (edges : List FlowEdge) (n : PlannedNode) (b : Binding)
    (m : PlannedNode) (output input : Handle) : Prop where
  source_mem : m ∈ p.nodes
  source_eq : m.id = b.source
  output_mem : output ∈ m.handles.outputs
  output_key : output.key = b.sourceHandle
  input_mem : input ∈ n.handles.inputs
  input_key : input.key = b.input
  compatible : output.category.isCompatible input.category = true
  exists_edge : ∃ e ∈ edges, e.source = m.id ∧ e.target = n.id ∧ output.id = e.sourceHandle ∧
    m.handles.findOutput e.sourceHandle = some output ∧ input.id = e.targetHandle

/-- How the nodes of the plan of a flow are made and joined. -/
structure Plan.Wired (p : Plan) (registry : Registry) (flow : Flow) : Prop where
  made : ∀ n ∈ p.nodes, ∃ node ∈ flow.nodes, ∃ t, registry.get? node.typeName = some t ∧
    t.Makes node.id node.data n
  joined : ∀ n ∈ p.nodes, ∀ b ∈ n.bindings, ∃ m output input,
    p.Joins flow.edges n b m output input
  /-- A required input is bound, unless it is the one that closes the body of the loop. -/
  required_bound : ∀ n ∈ p.nodes, ∀ input ∈ n.handles.inputs, input.cardinality = .required →
    (∀ handles, n.kind = .loop handles → input.id ≠ some handles.next) →
    ∃ b ∈ n.forwardBindings, b.input = input.key
  body_inside : ∀ n ∈ p.nodes, ∀ b ∈ n.forwardBindings, ∀ m output input,
    p.Joins flow.edges n b m output input → ∀ handles, m.kind = .loop handles →
    output.id = some handles.body → m.id ∈ n.scope
  control_inside : ∀ n ∈ p.nodes, n.kind = .loopControl → n.scope ≠ []

namespace TypedFlow

variable {f : TypedFlow}

theorem find?_of_endpoint_eq_ok {edgeId id : String} {n : TypedNode}
    (h : f.endpoint edgeId id = .ok n) : f.find? id = some n := by
  rw [endpoint] at h
  split at h
  · exact absurd h (by simp)
  next m hm =>
    split_ifs at h
    obtain rfl := Except.ok.inj h
    exact hm

/-- The handles that an edge joins, once it has been checked. -/
theorem exists_handles_of_checkEdge_eq_ok {e : FlowEdge} (h : f.checkEdge e = .ok ()) :
    ∃ source target output input, f.find? e.source = some source ∧ f.find? e.target = some target ∧
      source.handles.findOutput e.sourceHandle = some output ∧
      target.handles.findInput e.targetHandle = some input ∧
      output.category.isCompatible input.category = true := by
  rw [checkEdge] at h
  obtain ⟨source, hsource, h⟩ := bind_eq_ok h
  obtain ⟨target, htarget, h⟩ := bind_eq_ok h
  split at h
  · exact absurd h (by simp)
  next output houtput =>
    split at h
    · exact absurd h (by simp)
    next input hinput =>
      split_ifs at h with hcompatible
      exact ⟨source, target, output, input, find?_of_endpoint_eq_ok hsource,
        find?_of_endpoint_eq_ok htarget, houtput, hinput, hcompatible⟩

namespace Planned

variable {start : String} {loops : List LoopBody} {p : Plan}

theorem find?_of_id_eq (hf : f.WellFormed) {m : TypedNode} (hm : m ∈ f.members start) :
    f.find? m.id = some m :=
  find?_id_eq_some hf.nodup (List.mem_of_mem_filter hm)

theorem eq_of_find? (hf : f.WellFormed) {m m' : TypedNode} (hm : m ∈ f.members start) {id : String}
    (hid : id = m.id) (hfind : f.find? id = some m') : m' = m := by
  rw [hid, find?_of_id_eq hf hm] at hfind
  exact (Option.some.inj hfind).symm

theorem exists_joins (h : f.Planned start loops p) (hf : f.WellFormed)
    (hchecked : f.checkEdges [] f.edges = .ok ())
    (hstable : f.Stable ((f.members start).map (·.id))) {n : PlannedNode} (hn : n ∈ p.nodes)
    {b : Binding} (hb : b ∈ n.bindings) :
    ∃ m output input, p.Joins f.edges n b m output input := by
  obtain ⟨t, ht, hmade⟩ := h.exists_madeFrom hn
  obtain ⟨input, hinput, e, he, htarget, hhandle, rfl⟩ := (bindInputs_spec hmade.bound).1 b hb
  obtain ⟨source, target, output, input', hsource, htarget', houtput, hinput', hcompatible⟩ :=
    exists_handles_of_checkEdge_eq_ok ((checkEdges_eq_ok_iff.mp hchecked).1 e he)
  obtain rfl := eq_of_find? hf ht htarget htarget'
  have hmember : e.source ∈ (f.members start).map (·.id) := by
    refine hstable.source_mem e he ?_
    rw [htarget]
    exact List.mem_map_of_mem ht
  obtain ⟨m, hm, hmid⟩ := h.exists_node hmember
  obtain ⟨t', ht', hmade'⟩ := h.exists_madeFrom hm
  obtain rfl := eq_of_find? hf ht' (hmid.symm.trans hmade'.id_eq) hsource
  rw [← hmade'.handles_eq] at houtput
  have houtputId : output.id = e.sourceHandle := by simpa using List.find?_some houtput
  have hinputId : input'.id = e.targetHandle := by simpa using List.find?_some hinput'
  refine ⟨m, output, input', hm, hmid, List.mem_of_find?_eq_some houtput, ?_, ?_, ?_, hcompatible,
    e, he, hmid.symm, htarget.trans hmade.id_eq.symm, houtputId, houtput, hinputId⟩
  · rw [Handle.key, houtputId]
    rfl
  · rw [hmade.handles_eq]
    exact List.mem_of_find?_eq_some hinput'
  · rw [Handle.key, hinputId, hhandle]
    rfl

theorem required_bound (h : f.Planned start loops p) (hf : f.WellFormed) {n : PlannedNode}
    (hn : n ∈ p.nodes) {input : Handle} (hinput : input ∈ n.handles.inputs)
    (hrequired : input.cardinality = .required)
    (hnext : ∀ handles, n.kind = .loop handles → input.id ≠ some handles.next) :
    ∃ b ∈ n.forwardBindings, b.input = input.key := by
  obtain ⟨t, ht, hmade⟩ := h.exists_madeFrom hn
  obtain ⟨e, he, htarget, hhandle, hb⟩ :=
    (bindInputs_spec hmade.bound).2 input (hmade.handles_eq ▸ hinput) hrequired
  refine ⟨_, List.mem_filter.mpr ⟨hb, ?_⟩, rfl⟩
  have hid : n.id = e.target := hmade.id_eq.trans htarget.symm
  have hforward : ¬ f.isBackEdge e = true := by
    rw [h.isBackEdge_eq_true_iff hf hn hid]
    rintro ⟨n', hn', hid', handles, hkind, hclosing⟩
    obtain rfl := (h.lawful hf).eq_of_id_eq hn hn' (hid.trans hid'.symm)
    exact hnext handles hkind (hhandle ▸ hclosing)
  simpa [bind] using hforward

theorem mem_scope_of_body (h : f.Planned start loops p) (hf : f.WellFormed) {n m : PlannedNode}
    (hn : n ∈ p.nodes) (hm : m ∈ p.nodes) {handles : LoopHandles} (hkind : m.kind = .loop handles)
    {e : FlowEdge} (he : e ∈ f.edges) (hsource : e.source = m.id) (htarget : e.target = n.id)
    (hbody : e.sourceHandle = some handles.body) : m.id ∈ n.scope := by
  obtain ⟨t, ht, hmade⟩ := h.exists_madeFrom hm
  have hloop : f.loopHandles? m.id = some handles := by
    rw [loopHandles?, hmade.id_eq, find?_of_id_eq hf ht]
    show t.kind.loopHandles? = some handles
    rw [← hmade.kind_eq, hkind]
    rfl
  have hentry : n.id ∈ f.bodyEntries m.id :=
    mem_bodyEntries.mpr ⟨handles, hloop, e, he, hsource, hbody, htarget⟩
  obtain ⟨l, hl, hlid⟩ := h.exists_body_of_mem hf (h.id_mem_members hm) hloop
  rw [h.scope_eq hn, mem_scopeOf]
  refine ⟨l, hl, hlid, (h.mem_body hl).mpr ⟨htarget ▸ hf.target_mem e he, ?_⟩⟩
  rw [hlid]
  exact (Graph.reach_closed _ _ _).1 _ hentry

theorem control_inside (h : f.Planned start loops p) {n : PlannedNode} (hn : n ∈ p.nodes)
    (hkind : n.kind = .loopControl) : n.scope ≠ [] := by
  obtain ⟨t, ht, hmade⟩ := h.exists_madeFrom hn
  rw [hmade.scope_eq]
  exact checkLoopControls_eq_ok_iff.mp h.controls t ht (hmade.kind_eq ▸ hkind)

end Planned

end TypedFlow

/-- The nodes of the plan of an accepted flow are wired. -/
theorem Registry.wired_of_resolve_eq_ok {r : Registry} {flow : Flow} {start : Option String} {p : Plan}
    (h : r.resolve flow start = .ok p) : p.Wired r flow := by
  obtain ⟨f, loops, htyped, hfind, hplanned⟩ := exists_typed_of_resolve_eq_ok h
  obtain ⟨hedges, hnodes, hchecked, hf⟩ := wellFormed_of_typeFlow_eq_ok htyped
  have hstable := TypedFlow.stable_members hf (TypedFlow.mem_of_findStart_eq_ok hfind)
  refine
    { made := fun n hn => ?_
      joined := fun n hn b hb => hedges ▸ hplanned.exists_joins hf hchecked hstable hn hb
      required_bound := fun n hn input hinput hrequired hnext =>
        hplanned.required_bound hf hn hinput hrequired hnext
      body_inside := fun n hn b hb m output input hjoins handles hkind hid => ?_
      control_inside := fun n hn hkind => hplanned.control_inside hn hkind }
  · obtain ⟨t, ht, hmade⟩ := hplanned.exists_madeFrom hn
    obtain ⟨node, hnode, htypes⟩ :=
      exists_of_mem_forall₂ (TypedFlow.typeNodes_eq_ok_iff.mp hnodes).1 (List.mem_of_mem_filter ht)
    refine ⟨node, hnode, t.type, htypes.type_eq, hmade.kind_eq, ?_, ?_⟩
    · rw [hmade.data_eq, hmade.handles_eq]
      exact htypes.described
    · rw [hmade.data_eq]
      exact hmade.created
  · obtain ⟨e, he, hsource, htarget, houtput, -⟩ := hjoins.exists_edge
    exact hplanned.mem_scope_of_body hf hn hjoins.source_mem hkind (hedges ▸ he) hsource htarget
      (houtput ▸ hid)

/-- Every node of a plan was made by the type that the flow names for it. -/
theorem Registry.exists_type_of_mem {r : Registry} {flow : Flow} {start : Option String} {p : Plan}
    (h : r.resolve flow start = .ok p) {n : PlannedNode} (hn : n ∈ p.nodes) :
    ∃ node ∈ flow.nodes, node.id = n.id ∧ ∃ t, r.get? node.typeName = some t ∧ n.typeName = t.name ∧
      t.Makes n.id node.data n := by
  obtain ⟨f, loops, htyped, -, hplanned⟩ := exists_typed_of_resolve_eq_ok h
  obtain ⟨-, hnodes, -, -⟩ := wellFormed_of_typeFlow_eq_ok htyped
  obtain ⟨t, ht, hmade⟩ := hplanned.exists_madeFrom hn
  obtain ⟨node, hnode, htypes⟩ :=
    exists_of_mem_forall₂ (TypedFlow.typeNodes_eq_ok_iff.mp hnodes).1 (List.mem_of_mem_filter ht)
  have hid : node.id = n.id := htypes.id_eq.symm.trans hmade.id_eq.symm
  refine ⟨node, hnode, hid, t.type, htypes.type_eq, hmade.typeName_eq, hmade.kind_eq, ?_, ?_⟩
  · rw [← hid, hmade.data_eq, hmade.handles_eq]
    exact htypes.described
  · rw [hmade.data_eq]
    exact hmade.created

end FlowGraph
