import FlowGraph.Proofs.Plan.Replanning

/-!
Flows that list the same nodes and the same edges in different orders. Each is an excerpt of the other
one with all of its nodes, so both are accepted or both are not; and their plans differ only in what
follows the order of the flow: how nodes, loops and bodies are listed, how a region is ordered where its
graph leaves that open, and how the edges into one input of a node are. If the edges that enter a node
keep their order, the planned nodes are the very same.
-/

namespace FlowGraph

/-- Whether two flows list the same nodes and edges, those that enter a node in the same order. -/
structure Flow.Reordered (flow flow' : Flow) : Prop where
  nodes_perm : flow.nodes.Perm flow'.nodes
  edges_perm : flow.edges.Perm flow'.edges
  incoming_eq : ∀ id, flow.incoming id = flow'.incoming id

namespace Flow

variable {flow flow' : Flow}

/-- It is enough to look at the nodes that edges enter. -/
theorem reordered_iff : flow.Reordered flow' ↔ flow.nodes.Perm flow'.nodes ∧
    flow.edges.Perm flow'.edges ∧ ∀ e ∈ flow.edges, flow.incoming e.target = flow'.incoming e.target := by
  constructor
  · rintro ⟨hnodes, hedges, hincoming⟩
    exact ⟨hnodes, hedges, fun e _ => hincoming e.target⟩
  · rintro ⟨hnodes, hedges, hincoming⟩
    refine ⟨hnodes, hedges, fun id => ?_⟩
    have hperm : (flow.incoming id).Perm (flow'.incoming id) := hedges.filter _
    cases hentering : flow.incoming id with
    | nil => exact (List.nil_perm.mp (hentering ▸ hperm)).symm
    | cons e es =>
        obtain ⟨he, htarget⟩ := List.mem_filter.mp (hentering ▸ List.mem_cons_self : e ∈ flow.incoming id)
        obtain rfl := of_decide_eq_true htarget
        rw [← hentering, hincoming e he]

instance : Decidable (flow.Reordered flow') :=
  decidable_of_iff' _ reordered_iff

end Flow

namespace Plan

/-- Whether two plans differ in nothing but the order in which nodes, the bindings of a node, loops, the
nodes in a body and the direct members of a region are listed. -/
structure Alike (p p' : Plan) : Prop where
  start_eq : p.start = p'.start
  ids_perm : (p.nodes.map (·.id)).Perm (p'.nodes.map (·.id))
  node_alike : ∀ id, Option.Rel PlannedNode.Alike (p.find? id) (p'.find? id)
  scope_eq : ∀ id, p.scope id = p'.scope id
  loops_perm : (p.loops.map (·.id)).Perm (p'.loops.map (·.id))
  body_perm : ∀ loopId, (p.body loopId).Perm (p'.body loopId)
  region_perm : ∀ region, (p.region region).Perm (p'.region region)
  closesLoop_iff : ∀ e, p.ClosesLoop e ↔ p'.ClosesLoop e

section

variable {p p' : Plan} (h' : p'.Lawful) (hids : (p.nodes.map (·.id)).Perm (p'.nodes.map (·.id)))
  (hforth : ∀ n ∈ p.nodes, ∃ n' ∈ p'.nodes, n.Alike n')

include h' hids hforth

theorem Lawful.exists_alike_of_mem {n' : PlannedNode} (hn' : n' ∈ p'.nodes) :
    ∃ n ∈ p.nodes, n.Alike n' := by
  obtain ⟨n, hn, hid⟩ := List.mem_map.mp (hids.mem_iff.mpr (List.mem_map_of_mem hn'))
  obtain ⟨k, hk, halike⟩ := hforth n hn
  obtain rfl := h'.eq_of_id_eq hk hn' (halike.id_eq.trans hid)
  exact ⟨n, hn, halike⟩

theorem Lawful.find?_alike (id : String) : Option.Rel PlannedNode.Alike (p.find? id) (p'.find? id) := by
  cases hfind : p.find? id with
  | some n =>
      obtain rfl : n.id = id := by simpa using List.find?_some hfind
      obtain ⟨n', hn', halike⟩ := hforth n (List.mem_of_find?_eq_some hfind)
      rw [← halike.id_eq, h'.find?_eq_some hn']
      exact .some halike
  | none =>
      have hnone : p'.find? id = none := by
        refine List.find?_eq_none.mpr fun n' hn' heq => ?_
        obtain ⟨n, hn, halike⟩ := h'.exists_alike_of_mem hids hforth hn'
        exact List.find?_eq_none.mp hfind n hn (halike.id_eq ▸ heq)
      rw [hnone]
      exact .none

end

/-- All but the bodies can be read off the nodes. -/
theorem Lawful.alike {p p' : Plan} (h : p.Lawful) (h' : p'.Lawful) (hstart : p.start = p'.start)
    (hids : (p.nodes.map (·.id)).Perm (p'.nodes.map (·.id)))
    (hforth : ∀ n ∈ p.nodes, ∃ n' ∈ p'.nodes, n.Alike n')
    (hloops : (p.loops.map (·.id)).Perm (p'.loops.map (·.id)))
    (hbody : ∀ loopId, (p.body loopId).Perm (p'.body loopId)) : p.Alike p' := by
  have hback : ∀ n' ∈ p'.nodes, ∃ n ∈ p.nodes, n.Alike n' :=
    fun n' hn' => h'.exists_alike_of_mem hids hforth hn'
  have hnode := h'.find?_alike hids hforth
  refine ⟨hstart, hids, hnode, fun id => ?_, hloops, hbody, fun region => ?_, fun e => ?_⟩
  · have hrel := hnode id
    rw [Plan.scope, Plan.scope]
    generalize p.find? id = found at hrel ⊢
    generalize p'.find? id = found' at hrel ⊢
    cases hrel with
    | some halike =>
        obtain ⟨bindings, -, rfl⟩ := halike
        rfl
    | none => rfl
  · refine (List.perm_ext_iff_of_nodup (h.region_nodup region) (h'.region_nodup region)).mpr fun id => ?_
    rw [h.mem_region, h'.mem_region]
    constructor
    · rintro ⟨n, hn, rfl, hlast⟩
      obtain ⟨n', hn', bindings, -, rfl⟩ := hforth n hn
      exact ⟨_, hn', rfl, hlast⟩
    · rintro ⟨n', hn', rfl, hlast⟩
      obtain ⟨n, hn, bindings, -, rfl⟩ := hback n' hn'
      exact ⟨n, hn, rfl, hlast⟩
  · constructor
    · rintro ⟨n, hn, hid, hkind⟩
      obtain ⟨n', hn', bindings, -, rfl⟩ := hforth n hn
      exact ⟨_, hn', hid, hkind⟩
    · rintro ⟨n', hn', hid, hkind⟩
      obtain ⟨n, hn, bindings, -, rfl⟩ := hback n' hn'
      exact ⟨n, hn, hid, hkind⟩

end Plan

namespace Registry

variable {r : Registry} {flow flow' : Flow}

/-- The types and the edges of a flow in another order pass the checks as well. -/
theorem exists_typeFlow_eq_ok (hnodes : flow.nodes.Perm flow'.nodes)
    (hedges : flow.edges.Perm flow'.edges) {f : TypedFlow} (hf : r.typeFlow flow = .ok f) :
    ∃ f', r.typeFlow flow' = .ok f' ∧ f.nodes.Perm f'.nodes ∧ f'.edges = flow'.edges := by
  obtain ⟨heq, htypes, hchecked, hwell⟩ := wellFormed_of_typeFlow_eq_ok hf
  obtain ⟨htyped, hnodup, -⟩ := TypedFlow.typeNodes_eq_ok_iff.mp htypes
  obtain ⟨typed, htyped', hperm⟩ := List.perm_comp_forall₂ hnodes.symm htyped
  have htypes' : TypedFlow.typeNodes r [] flow'.nodes = .ok typed :=
    TypedFlow.typeNodes_eq_ok_iff.mpr
      ⟨htyped', (hnodes.map _).nodup_iff.mp hnodup, fun _ _ => List.not_mem_nil⟩
  have hexcerpt : f.Excerpt (f.nodes.map (·.id)) ⟨typed, flow'.edges⟩ :=
    TypedFlow.excerpt_of_perm hwell hperm.symm (heq ▸ hedges)
  exact ⟨_, typeFlow_eq_ok rfl htypes' (hexcerpt.checkEdges_eq_ok hchecked), hperm.symm, rfl⟩

/-- A flow in another order is accepted as well: both flows with typed nodes, and how their plans were
made. -/
theorem exists_planned_of_perm (hnodes : flow.nodes.Perm flow'.nodes)
    (hedges : flow.edges.Perm flow'.edges) {start : Option String} {p : Plan}
    (hok : r.resolve flow start = .ok p) :
    ∃ (f f' : TypedFlow) (loops loops' : List TypedFlow.LoopBody) (p' : Plan),
      f.edges = flow.edges ∧ f'.edges = flow'.edges ∧ f.ExcerptFor p.start (f.nodes.map (·.id)) f' ∧
      f.Planned p.start loops p ∧ f'.Planned p.start loops' p' ∧ p'.start = p.start ∧
      r.resolve flow' start = .ok p' := by
  obtain ⟨f, loops, hf, hstart, hplanned⟩ := exists_typed_of_resolve_eq_ok hok
  obtain ⟨heq, -, -, hwell⟩ := wellFormed_of_typeFlow_eq_ok hf
  obtain ⟨f', hf', hperm, heq'⟩ := exists_typeFlow_eq_ok hnodes hedges hf
  have hexcerpt := TypedFlow.excerptFor_of_perm hwell (TypedFlow.mem_of_findStart_eq_ok hstart) hperm
    (heq ▸ heq' ▸ hedges)
  obtain ⟨loops', p', hplanned', hstart'⟩ := hexcerpt.exists_planned hplanned
  exact ⟨f, f', loops, loops', p', heq, heq', hexcerpt, hplanned, hplanned', hstart',
    resolve_eq_ok hf' (hexcerpt.findStart_eq_ok hstart hexcerpt.start_mem_ids) hplanned' hstart'⟩

/-- A flow in another order is accepted as well, and if edges enter the nodes in the same order, its plan
has the same nodes. -/
theorem exists_resolve_eq_ok (h : flow.Reordered flow') {start : Option String} {p : Plan}
    (hok : r.resolve flow start = .ok p) :
    ∃ p', r.resolve flow' start = .ok p' ∧ p.nodes.Perm p'.nodes := by
  obtain ⟨f, f', loops, loops', p', heq, heq', hexcerpt, hplanned, hplanned', -, hok'⟩ :=
    exists_planned_of_perm h.nodes_perm h.edges_perm hok
  refine ⟨p', hok', ?_⟩
  have hsame : ∀ m ∈ f'.members p.start, f'.planNode loops' m = f.planNode loops m := by
    intro m hm
    have hid := hexcerpt.mem_ids (hexcerpt.members_perm.mem_iff.mpr hm)
    refine hexcerpt.planNode_eq hid (hexcerpt.scopeOf_eq hplanned hplanned'.bodies hid) ?_
    rw [TypedFlow.incoming, TypedFlow.incoming, heq, heq']
    exact (h.incoming_eq m.id).symm
  obtain ⟨nodes, hnodes, hperm⟩ := List.perm_comp_forall₂ hexcerpt.members_perm.symm hplanned.nodes
  have hnodes' := ((List.forall₂_and_left _ _).mpr ⟨hsame, hplanned'.nodes⟩).imp
    fun _ _ hn => hn.1.symm.trans hn.2
  obtain rfl := Except.ok.inj ((mapM_eq_ok_iff.mpr hnodes).symm.trans (mapM_eq_ok_iff.mpr hnodes'))
  exact hperm.symm

theorem alike_of_perm (hnodes : flow.nodes.Perm flow'.nodes) (hedges : flow.edges.Perm flow'.edges)
    {start : Option String} {p : Plan} (hok : r.resolve flow start = .ok p) :
    ∃ p', r.resolve flow' start = .ok p' ∧ p.Alike p' := by
  obtain ⟨f, f', loops, loops', p', -, -, hexcerpt, hplanned, hplanned', hstart, hok'⟩ :=
    exists_planned_of_perm hnodes hedges hok
  refine ⟨p', hok', (lawful_of_resolve_eq_ok hok).alike (lawful_of_resolve_eq_ok hok') hstart.symm ?_
    (fun n hn => hexcerpt.exists_alike hplanned hplanned' hn) ?_ fun loopId => ?_⟩
  · rw [hplanned.map_id_nodes, hplanned'.map_id_nodes]
    exact hexcerpt.members_perm.map _
  · rw [hplanned.map_id_loops, hplanned'.map_id_loops]
    exact hexcerpt.map_id_perm hplanned.bodies hplanned'.bodies
  · have hall : (p.body loopId).filter (· ∈ f.nodes.map (·.id)) = p.body loopId := by
      refine List.filter_eq_self.mpr fun id hid => decide_eq_true ?_
      rw [hplanned.mem_body_iff hexcerpt.whole, TypedFlow.mem_scopeOf] at hid
      obtain ⟨l, hl, -, hmem⟩ := hid
      exact ((hplanned.mem_body hl).mp hmem).1
    exact hall ▸ hexcerpt.planBody_perm hplanned hplanned' loopId

/-- Whether a flow is accepted does not depend on the order in which its nodes and its edges are listed,
nor does its plan, but for the order in which it lists them itself: two flows with the same nodes and
the same edges are both accepted or both not, and if they are, their plans have the same start, the same
nodes with the same bindings and scopes, the same loops with the same bodies, the same regions, and the
same edges close their loops. -/
theorem acceptance_independent_of_listing (r : Registry) {flow flow' : Flow}
    (hnodes : flow.nodes.Perm flow'.nodes) (hedges : flow.edges.Perm flow'.edges)
    (start : Option String) :
    ((∃ p, r.resolve flow start = .ok p) ↔ ∃ p', r.resolve flow' start = .ok p') ∧
      ∀ p p', r.resolve flow start = .ok p → r.resolve flow' start = .ok p' → p.Alike p' := by
  refine ⟨⟨?_, ?_⟩, fun p p' hok hok' => ?_⟩
  · rintro ⟨p, hok⟩
    obtain ⟨p', hok', -⟩ := alike_of_perm hnodes hedges hok
    exact ⟨p', hok'⟩
  · rintro ⟨p', hok'⟩
    obtain ⟨p, hok, -⟩ := alike_of_perm hnodes.symm hedges.symm hok'
    exact ⟨p, hok⟩
  · obtain ⟨p'', hok'', halike⟩ := alike_of_perm hnodes hedges hok
    obtain rfl := Except.ok.inj (hok'.symm.trans hok'')
    exact halike

/-- The nodes and edges of `crossingLevels` from the last to the first. -/
def crossingLevelsBackwards : Flow where
  nodes := crossingLevels.nodes.reverse
  edges := crossingLevels.edges.reverse

/-- The plans list their nodes the other way round, and the two edges into `sum` as well. -/
theorem alike_of_crossingLevels :
    ∃ p p', Standard.registry.resolve crossingLevels none = .ok p ∧
      Standard.registry.resolve crossingLevelsBackwards none = .ok p' ∧ p.Alike p' ∧
      p'.nodes.map (·.id) = (p.nodes.map (·.id)).reverse ∧
      (p.find? "sum").map (·.bindings.map (·.edgeId)) = some ["e5", "e6"] ∧
      (p'.find? "sum").map (·.bindings.map (·.edgeId)) = some ["e6", "e5"] := by
  have hplans : ((Standard.registry.resolve crossingLevels none).toOption.map fun p =>
      (p.nodes.map (·.id), (p.find? "sum").map (·.bindings.map (·.edgeId)))) =
        some (["s", "list", "outer", "inner", "show", "sum"], some ["e5", "e6"]) ∧
      ((Standard.registry.resolve crossingLevelsBackwards none).toOption.map fun p =>
      (p.nodes.map (·.id), (p.find? "sum").map (·.bindings.map (·.edgeId)))) =
        some (["sum", "show", "inner", "outer", "list", "s"], some ["e6", "e5"]) := by decide +kernel
  obtain ⟨hplan, hplan'⟩ := hplans
  obtain ⟨p, hp, heq⟩ := Option.map_eq_some_iff.mp hplan
  obtain ⟨p', hp', heq'⟩ := Option.map_eq_some_iff.mp hplan'
  obtain ⟨hids, hsum⟩ := Prod.mk.inj heq
  obtain ⟨hids', hsum'⟩ := Prod.mk.inj heq'
  have hok := eq_ok_of_toOption_eq_some hp
  have hok' := eq_ok_of_toOption_eq_some hp'
  have halike := (acceptance_independent_of_listing Standard.registry
    (List.reverse_perm crossingLevels.nodes).symm (List.reverse_perm crossingLevels.edges).symm none).2
      p p' hok hok'
  refine ⟨p, p', hok, hok', halike, ?_, hsum, hsum'⟩
  rw [hids, hids']
  rfl

end Registry

end FlowGraph
