import FlowGraph.Migrate
import FlowGraph.Proofs.Plan.Lawful
import FlowGraph.Proofs.Schema

/-!
What a flow means is not changed by bringing its data to the current versions. Describing a node whose
data has been normalised gives the same data and handles again, and the checks of a flow look at nothing
else of the data, so the migrated flow is accepted or refused as the flow is, with the same plan or for
the same reason; and the data in the plan is that of the migrated flow.
-/

namespace FlowGraph

theorem NodeType.describe_describe {t : NodeType} (hs : t.schema.Steady) {id : String} {data : Json}
    {view : NodeView} (h : t.describe id data = .ok view) : t.describe id view.data = .ok view := by
  obtain ⟨fields, hfields, h⟩ := bind_eq_ok h
  obtain rfl := Except.ok.inj h
  rw [describe, hs.normalize_normalize hfields]
  rfl

namespace Registry

/-- Whether every type of the registry leaves normalised data as it is. -/
def Steady (r : Registry) : Prop :=
  ∀ name t, r.get? name = some t → t.schema.Steady

variable {r : Registry} {n m : FlowNode} {f g : Flow}

theorem migrateNode_eq_ok_iff : r.migrateNode n = .ok m ↔ ∃ t view, r.get? n.typeName = some t ∧
    t.describe n.id n.data = .ok view ∧ m = { n with data := view.data } := by
  rw [migrateNode, describeNode, describe]
  cases htype : r.get? n.typeName with
  | none => simp [Except.map]
  | some t =>
      cases hview : t.describe n.id n.data with
      | error e => simp [Except.map, hview]
      | ok view => simp [Except.map, hview, eq_comm]

theorem Steady.migrateNode_migrateNode (hr : r.Steady) (h : r.migrateNode n = .ok m) :
    r.migrateNode m = .ok m := by
  obtain ⟨t, view, htype, hview, rfl⟩ := migrateNode_eq_ok_iff.mp h
  exact migrateNode_eq_ok_iff.mpr
    ⟨t, view, htype, NodeType.describe_describe (hr _ t htype) hview, rfl⟩

theorem migrateFlow_eq_ok_iff : r.migrateFlow f = .ok g ↔
    List.Forall₂ (fun n m => r.migrateNode n = .ok m) f.nodes g.nodes ∧ g.edges = f.edges := by
  rw [migrateFlow, ← mapM_eq_ok_iff]
  cases f.nodes.mapM r.migrateNode with
  | error e => simp [Except.map]
  | ok nodes =>
      obtain ⟨nodes', edges'⟩ := g
      simp [Except.map, eq_comm]

/-- Migrating keeps the ids and the types of the nodes, and their order. -/
theorem names_eq_of_migrateFlow (h : r.migrateFlow f = .ok g) :
    g.nodes.map (fun n => (n.id, n.typeName)) = f.nodes.map fun n => (n.id, n.typeName) := by
  obtain ⟨hnodes, -⟩ := migrateFlow_eq_ok_iff.mp h
  generalize f.nodes = nodes, g.nodes = nodes' at hnodes ⊢
  induction hnodes with
  | nil => rfl
  | cons hnode _ ih =>
      obtain ⟨t, view, -, -, rfl⟩ := migrateNode_eq_ok_iff.mp hnode
      rw [List.map_cons, List.map_cons, ih]

theorem Steady.migrateFlow_migrateFlow (hr : r.Steady) (h : r.migrateFlow f = .ok g) :
    r.migrateFlow g = .ok g := by
  obtain ⟨hnodes, -⟩ := migrateFlow_eq_ok_iff.mp h
  refine migrateFlow_eq_ok_iff.mpr ⟨List.forall₂_same.mpr fun m hm => ?_, rfl⟩
  obtain ⟨n, -, hnode⟩ := exists_of_mem_forall₂ hnodes hm
  exact hr.migrateNode_migrateNode hnode

/-- Typing the migrated nodes comes to the same, error or not. -/
theorem Steady.typeNodes_eq (hr : r.Steady) {nodes nodes' : List FlowNode}
    (h : List.Forall₂ (fun n m => r.migrateNode n = .ok m) nodes nodes') (seen : List String) :
    TypedFlow.typeNodes r seen nodes' = TypedFlow.typeNodes r seen nodes := by
  induction h generalizing seen with
  | nil => rfl
  | @cons n m nodes nodes' hnode _ ih =>
      obtain ⟨t, view, htype, hview, rfl⟩ := migrateNode_eq_ok_iff.mp hnode
      have hagain := NodeType.describe_describe (hr _ t htype) hview
      simp only [TypedFlow.typeNodes, htype, hview, hagain, ih]

/-- Whether a flow may be resolved to a result: it is in one order of its sets, at least. -/
def MayResolveTo (r : Registry) (f : Flow) (start : Option String) (result : Except ResolveError Plan) :
    Prop :=
  ∃ order, r.resolveIn order f start = result

/-- A flow that may be accepted with a plan comes to nothing else. -/
theorem MayResolveTo.eq_ok {start : Option String} {p : Plan} {result : Except ResolveError Plan}
    (hresult : r.MayResolveTo f start result) (h : r.MayResolveTo f start (.ok p)) : result = .ok p := by
  obtain ⟨order, rfl⟩ := hresult
  obtain ⟨order', h⟩ := h
  exact (resolveIn_eq_ok_iff order).mpr ((resolveIn_eq_ok_iff order').mp h)

/-- In every order the migrated flow has the plan of the flow, or is refused for the same reason. -/
theorem Steady.resolveIn_eq (hr : r.Steady) (h : r.migrateFlow f = .ok g) (order : TypedFlow.SetOrder)
    (start : Option String) : r.resolveIn order g start = r.resolveIn order f start := by
  obtain ⟨hnodes, hedges⟩ := migrateFlow_eq_ok_iff.mp h
  rw [resolveIn, resolveIn, typeFlow, typeFlow, hr.typeNodes_eq hnodes, hedges]

/-- Typing a node and migrating it come to the same data. -/
theorem migrateNode_of_types {typed : TypedNode} (h : TypedFlow.Types r n typed) :
    r.migrateNode n = .ok { n with data := typed.data } :=
  migrateNode_eq_ok_iff.mpr ⟨typed.type, _, h.type_eq, h.described, rfl⟩

/-- A flow that is accepted can be migrated. -/
theorem exists_migrateFlow_eq_ok {order : TypedFlow.SetOrder} {start : Option String} {p : Plan}
    (h : r.resolveIn order f start = .ok p) : ∃ g, r.migrateFlow f = .ok g := by
  obtain ⟨typed, loops, htyped, -⟩ := exists_typed_of_resolveIn_eq_ok h
  obtain ⟨-, hnodes, -⟩ := wellFormed_of_typeFlow_eq_ok htyped
  obtain ⟨htypes, -⟩ := TypedFlow.typeNodes_eq_ok_iff.mp hnodes
  have hall : ∀ n ∈ f.nodes, ∃ m, r.migrateNode n = .ok m := by
    intro n hn
    obtain ⟨typed, -, htyped⟩ := exists_of_mem_forall₂ htypes.flip hn
    exact ⟨_, migrateNode_of_types htyped⟩
  obtain ⟨migrated, hmigrated⟩ := exists_forall₂ hall
  exact ⟨⟨migrated, f.edges⟩, migrateFlow_eq_ok_iff.mpr ⟨hmigrated, rfl⟩⟩

/-- A planned node has the data of the migrated node. -/
theorem exists_data_eq (h : r.migrateFlow f = .ok g) {order : TypedFlow.SetOrder}
    {start : Option String} {p : Plan} (hp : r.resolveIn order f start = .ok p) {planned : PlannedNode} (hplanned : planned ∈ p.nodes) :
    ∃ m ∈ g.nodes, planned.id = m.id ∧ planned.data = m.data := by
  obtain ⟨typedFlow, loops, htyped, -, hplan⟩ := exists_typed_of_resolveIn_eq_ok hp
  obtain ⟨-, hnodes, -⟩ := wellFormed_of_typeFlow_eq_ok htyped
  obtain ⟨htypes, -⟩ := TypedFlow.typeNodes_eq_ok_iff.mp hnodes
  obtain ⟨typed, hmember, hmade⟩ := hplan.exists_madeFrom hplanned
  obtain ⟨n, hn, hnode⟩ := exists_of_mem_forall₂ htypes (List.mem_of_mem_filter hmember)
  obtain ⟨m, hm, hmigrated⟩ := exists_of_mem_forall₂ (migrateFlow_eq_ok_iff.mp h).1.flip hn
  obtain rfl := Except.ok.inj ((migrateNode_of_types hnode).symm.trans hmigrated)
  exact ⟨_, hm, hmade.id_eq.trans hnode.id_eq, hmade.data_eq⟩

end Registry

end FlowGraph
