import FlowGraph.Proofs.Plan.Replanning

/-!
A flow without the nodes that its plan leaves out. What is left is an excerpt with all that takes part,
and in the order of the flow; so its plan is the same, node by node, binding by binding and region by
region. Only the bodies of its loops lose the nodes that are no longer there.
-/

namespace FlowGraph

/-- The nodes of a flow that have one of the ids, and the edges between them. -/
def Flow.keep (flow : Flow) (ids : List String) : Flow where
  nodes := flow.nodes.filter (·.id ∈ ids)
  edges := flow.edges.filter fun e => e.source ∈ ids ∧ e.target ∈ ids

/-- A plan whose bodies have lost the nodes that are not planned. -/
def Plan.trim (p : Plan) : Plan :=
  { p with loops := p.loops.map fun l => { l with body := l.body.filter (· ∈ p.nodes.map (·.id)) } }

namespace Plan

variable (p : Plan)

theorem loop?_trim (loopId : String) :
    p.trim.loop? loopId = (p.loop? loopId).map fun l =>
      { l with body := l.body.filter (· ∈ p.nodes.map (·.id)) } := by
  simp only [loop?, trim, List.find?_map]
  rfl

theorem body_trim (loopId : String) :
    p.trim.body loopId = (p.body loopId).filter (· ∈ p.nodes.map (·.id)) := by
  rw [body, body, loop?_trim]
  cases p.loop? loopId <;> rfl

theorem region_trim (region : Option String) : p.trim.region region = p.region region := by
  cases region with
  | none => rfl
  | some loopId =>
      rw [Plan.region, Plan.region, loop?_trim]
      cases p.loop? loopId <;> rfl

end Plan

namespace TypedFlow

/-- The nodes of a flow that have one of the ids, and the edges between them. -/
def keep (f : TypedFlow) (ids : List String) : TypedFlow where
  nodes := f.nodes.filter (·.id ∈ ids)
  edges := f.edges.filter fun e => e.source ∈ ids ∧ e.target ∈ ids

variable {f : TypedFlow} {ids : List String}

theorem edges_keep (hstable : f.Stable ids) :
    (f.keep ids).edges = f.edges.filter (·.target ∈ ids) := by
  refine List.filter_congr fun e he => ?_
  by_cases htarget : e.target ∈ ids
  · simp [htarget, hstable.source_mem e he htarget]
  · simp [htarget]

theorem excerpt_keep (hf : f.WellFormed) (hstable : f.Stable ids) : f.Excerpt ids (f.keep ids) :=
  ⟨hf, hstable, .refl _, .of_eq (edges_keep hstable).symm⟩

theorem filter_outgoing_keep (h : f.Excerpt ids (f.keep ids)) {id : String} (hid : id ∈ ids) :
    (((f.keep ids).outgoing id).filter fun e => !(f.keep ids).isBackEdge e).filter (·.target ∈ ids) =
      ((f.outgoing id).filter fun e => !f.isBackEdge e).filter (·.target ∈ ids) := by
  have hedges : (f.keep ids).edges = f.edges.filter fun e => e.source ∈ ids ∧ e.target ∈ ids := rfl
  simp only [outgoing, hedges, List.filter_filter]
  refine List.filter_congr fun e _ => ?_
  by_cases htarget : e.target ∈ ids
  · by_cases hsource : e.source = id
    · simp [htarget, hsource, hid, h.isBackEdge_eq htarget]
    · simp [hsource]
  · simp [htarget]

/-- An edge between nodes that are kept is an arc of the same regions. -/
theorem regionGraph_keep (h : f.Excerpt ids (f.keep ids)) {loops loops' : List LoopBody}
    (hscope : ∀ id ∈ ids, scopeOf loops' id = scopeOf loops id) (region : Option String) :
    (f.keep ids).regionGraph ids loops' region = f.regionGraph ids loops region := by
  have hmembers : regionMembers ids loops' region = regionMembers ids loops region :=
    List.filter_congr fun id hid => by rw [hscope id hid]
  have hedges : ∀ edges : List FlowEdge, (∀ e ∈ edges, e.source ∈ ids ∧ e.target ∈ ids) →
      edges.filterMap (regionArc (regionMembers ids loops region) loops' region) =
        edges.filterMap (regionArc (regionMembers ids loops region) loops region) := by
    intro edges hedges
    refine List.filterMap_congr fun e he => ?_
    obtain ⟨hsource, htarget⟩ := hedges e he
    rw [regionArc, regionArc, hscope _ hsource, hscope _ htarget]
  simp only [regionGraph, hmembers, List.filter_flatMap]
  rw [List.flatMap_congr fun id hid => filter_outgoing_keep h hid, hedges]
  intro e he
  obtain ⟨id, hid, he⟩ := List.mem_flatMap.mp he
  simp only [outgoing, List.mem_filter, decide_eq_true_eq] at he
  exact ⟨he.1.1.2 ▸ hid, he.2⟩

/-- The nodes of a flow that take part in a run from a start, and the edges between them. -/
def prune (f : TypedFlow) (start : String) : TypedFlow :=
  f.keep ((f.members start).map (·.id))

section Prune

variable {start : String} (hf : f.WellFormed) (hstart : start ∈ f.nodes.map (·.id))

include hf hstart

theorem excerptFor_prune :
    f.ExcerptFor start ((f.members start).map (·.id)) (f.prune start) :=
  { excerpt_keep hf (stable_members hf hstart) with
    start_mem := hstart
    found_subset := fun _ hid => (mem_members_iff hf hstart).mpr hid }

theorem members_prune : (f.prune start).members start = f.members start :=
  (excerptFor_prune hf hstart).filter_members

theorem incoming_prune {id : String} (hid : id ∈ (f.members start).map (·.id)) :
    (f.prune start).incoming id = f.incoming id := by
  rw [incoming, prune, edges_keep (stable_members hf hstart), filter_incoming hid]

theorem bodyOf_prune {loopId : String} (hloop : loopId ∈ (f.members start).map (·.id)) :
    (f.prune start).bodyOf loopId =
      (f.bodyOf loopId).filter (· ∈ (f.members start).map (·.id)) :=
  ((excerptFor_prune hf hstart).filter_bodyOf hloop).symm

end Prune

namespace Planned

variable {start : String} {loops : List LoopBody} {p : Plan} (h : f.Planned start loops p)
  (hf : f.WellFormed) (hstart : start ∈ f.nodes.map (·.id))

include h hf hstart

theorem loopBodies_prune : (f.prune start).loopBodies ((f.prune start).members start) =
    .ok (loops.map (·.keep ((f.members start).map (·.id)))) := by
  obtain ⟨loops', hloops'⟩ := (excerptFor_prune hf hstart).exists_loopBodies_eq_ok h.bodies
  rw [hloops', loops_eq_map h.bodies, loops_eq_map hloops', members_prune hf hstart]
  simp only [List.map_map]
  refine congrArg Except.ok (List.map_congr_left fun n hn => ?_)
  have hmem := List.mem_map_of_mem (f := TypedNode.id) (List.mem_of_mem_filter hn)
  exact congrArg (LoopBody.mk n.id) (bodyOf_prune hf hstart hmem)

theorem scopeOf_prune {id : String} (hid : id ∈ (f.members start).map (·.id)) :
    scopeOf (loops.map (·.keep ((f.members start).map (·.id)))) id = scopeOf loops id :=
  ((excerptFor_prune hf hstart).scopeOf_eq h (h.loopBodies_prune hf hstart) hid).symm

theorem regionOrder_prune (region : Option String) :
    (f.prune start).regionOrder ((f.members start).map (·.id))
      (loops.map (·.keep ((f.members start).map (·.id)))) region =
        f.regionOrder ((f.members start).map (·.id)) loops region := by
  have hgraph := regionGraph_keep (excerptFor_prune hf hstart).toExcerpt
    (fun id hid => h.scopeOf_prune hf hstart hid) region
  rw [regionOrder, regionOrder, prune, hgraph]

theorem planLoops_prune {ls : List LoopBody} {pls : List PlannedLoop}
    (hpls : f.planLoops ((f.members start).map (·.id)) loops ls = .ok pls) :
    (f.prune start).planLoops ((f.members start).map (·.id))
      (loops.map (·.keep ((f.members start).map (·.id))))
      (ls.map (·.keep ((f.members start).map (·.id)))) =
        .ok (pls.map fun l => { l with body := l.body.filter (· ∈ (f.members start).map (·.id)) }) := by
  induction ls generalizing pls with
  | nil =>
      obtain rfl := Except.ok.inj hpls
      rfl
  | cons l ls ih =>
      rw [planLoops] at hpls
      obtain ⟨order, horder, hpls⟩ := bind_eq_ok hpls
      obtain ⟨rest, hrest, hpls⟩ := bind_eq_ok hpls
      obtain rfl := Except.ok.inj hpls
      rw [List.map_cons, planLoops, LoopBody.keep, h.regionOrder_prune hf hstart, horder, ok_bind,
        ih hrest]
      rfl

/-- What is left of the flow is planned in the same way. -/
theorem prune :
    (f.prune start).Planned start (loops.map (·.keep ((f.members start).map (·.id)))) p.trim := by
  have hexcerpt := excerptFor_prune hf hstart
  have hbodies := h.loopBodies_prune hf hstart
  have hback := hexcerpt.checkBackEdges_eq_ok h hbodies
  have hcontrols := hexcerpt.checkLoopControls_eq_ok h hbodies
  have hnodes : List.Forall₂ (fun m n => (f.prune start).planNode
      (loops.map (·.keep ((f.members start).map (·.id)))) m = .ok n) (f.members start) p.nodes := by
    refine ((List.forall₂_and_left _ _).mpr ⟨fun m hm => ?_, h.nodes⟩).imp
      fun _ _ hn => (show _ = _ from hn.1).trans hn.2
    have hid : m.id ∈ (f.members start).map (·.id) := List.mem_map_of_mem hm
    exact hexcerpt.planNode_eq hid (h.scopeOf_prune hf hstart hid).symm (incoming_prune hf hstart hid)
  have htrim : p.trim.loops =
      p.loops.map fun l => { l with body := l.body.filter (· ∈ (f.members start).map (·.id)) } := by
    rw [Plan.trim, h.map_id_nodes]
  refine
    { bodies := hbodies
      nesting := checkNesting_eq_ok_iff.mpr (hexcerpt.nested h hbodies).proper
      backEdges := hback
      controls := hcontrols
      order := ?_
      loopOrders := ?_
      nodes := ?_ }
  · rw [members_prune hf hstart, h.regionOrder_prune hf hstart]
    exact h.order
  · rw [members_prune hf hstart, htrim]
    exact h.planLoops_prune hf hstart h.loopOrders
  · rw [members_prune hf hstart]
    exact hnodes

end Planned

end TypedFlow

namespace Registry

variable {r : Registry} {flow : Flow}

/-- The nodes and edges that are kept pass the checks. -/
theorem typeFlow_keep {f : TypedFlow} (hf : r.typeFlow flow = .ok f) {ids : List String}
    (hstable : f.Stable ids) : r.typeFlow (flow.keep ids) = .ok (f.keep ids) := by
  obtain ⟨hedges, hnodes, hchecked, hwell⟩ := wellFormed_of_typeFlow_eq_ok hf
  obtain ⟨htyped, hnodup, -⟩ := TypedFlow.typeNodes_eq_ok_iff.mp hnodes
  have hkept : List.Forall₂ (TypedFlow.Types r) (flow.keep ids).nodes (f.keep ids).nodes := by
    refine List.rel_filter (fun n m hnode => ?_) htyped
    simp only [hnode.id_eq]
  refine typeFlow_eq_ok ?_ (TypedFlow.typeNodes_eq_ok_iff.mpr ⟨hkept, ?_, fun _ _ => List.not_mem_nil⟩)
    ((TypedFlow.excerpt_keep hwell hstable).checkEdges_eq_ok hchecked)
  · rw [TypedFlow.keep, Flow.keep, hedges]
  · exact hnodup.sublist (List.filter_sublist.map _)

/-- Without the nodes that are left out of its plan a flow has the same plan, its bodies trimmed. -/
theorem resolve_keep {start : Option String} {p : Plan} (h : r.resolve flow start = .ok p) :
    r.resolve (flow.keep (p.nodes.map (·.id))) start = .ok p.trim := by
  obtain ⟨f, loops, hf, hfind, hplanned⟩ := exists_typed_of_resolve_eq_ok h
  obtain ⟨-, -, -, hwell⟩ := wellFormed_of_typeFlow_eq_ok hf
  have hstart := TypedFlow.mem_of_findStart_eq_ok hfind
  have hexcerpt := TypedFlow.excerptFor_prune hwell hstart
  rw [hplanned.map_id_nodes]
  exact resolve_eq_ok (typeFlow_keep hf hexcerpt.stable)
    (hexcerpt.findStart_eq_ok hfind hexcerpt.start_mem_ids) (hplanned.prune hwell hstart) rfl

end Registry

end FlowGraph
