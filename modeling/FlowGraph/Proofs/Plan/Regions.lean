import FlowGraph.Proofs.Graph.DepthFirst
import FlowGraph.Proofs.Plan.Orders

/-!
The regions of an accepted flow. A region around a node is the top level or one of the loops around it;
it has a level, the number of loops down to it, and at that level something stands for the node: the
next loop around it, or the node itself. What stands for a node is a direct member of the region, so
no edge between nodes inside gets lost when it becomes an arc of the region's graph, and the order of
the region respects it.
-/

namespace FlowGraph

/-- Whether a region lies around the nodes with a scope: the top level does, and so do the loops in
the scope. -/
def LiesAround (region : Option String) (scope : List String) : Prop :=
  ∀ loopId, region = some loopId → loopId ∈ scope

theorem exists_level {region : Option String} {scope : List String} (h : LiesAround region scope) :
    ∃ k ≤ scope.length, region = (scope.take k).getLast? := by
  cases region with
  | none => exact ⟨0, Nat.zero_le _, rfl⟩
  | some loopId =>
      obtain ⟨i, hi, rfl⟩ := List.mem_iff_getElem.mp (h loopId rfl)
      refine ⟨i + 1, hi, ?_⟩
      rw [List.getLast?_take]
      simp [hi]

namespace TypedFlow

/-- What stands for a node in the region at a level of its scope. -/
theorem representative_eq {scope : List String} (hnodup : scope.Nodup) {k : Nat}
    (hk : k ≤ scope.length) (id : String) :
    representative (scope.take k).getLast? scope id = some (scope[k]?.getD id) := by
  cases k with
  | zero => simp [representative, List.headD_eq_head?_getD, List.head?_eq_getElem?]
  | succ i =>
      have hi : i < scope.length := hk
      have hlast : (scope.take (i + 1)).getLast? = some scope[i] := by
        rw [List.getLast?_take]
        simp [hi]
      have hfind : scope.findIdx? (· = scope[i]) = some i := by
        rw [List.findIdx?_eq_some_iff_getElem]
        refine ⟨hi, by simp, fun j hj => ?_⟩
        simpa using fun heq => Nat.ne_of_lt hj (hnodup.getElem_inj_iff.mp heq)
      rw [hlast, representative]
      simp only [hfind]

variable {f : TypedFlow}

theorem mem_regionMembers {planned : List String} {loops : List LoopBody} {region : Option String}
    {id : String} :
    id ∈ regionMembers planned loops region ↔
      id ∈ planned ∧ (scopeOf loops id).getLast? = region := by
  rw [regionMembers, List.mem_filter, decide_eq_true_eq]

/-- What stands for a node in a region around it is a direct member of the region. -/
theorem Nested.getD_mem_regionMembers {planned : List String} {loops : List LoopBody}
    (h : Nested loops) (hloops : ∀ l ∈ loops, l.id ∈ planned) {id : String} (hid : id ∈ planned)
    (k : Nat) : (scopeOf loops id)[k]?.getD id ∈ regionMembers planned loops
      ((scopeOf loops id).take k).getLast? := by
  refine mem_regionMembers.mpr ⟨?_, by rw [h.scopeOf_getD]⟩
  rcases Nat.lt_or_ge k (scopeOf loops id).length with hlt | hge
  · rw [List.getElem?_eq_getElem hlt, Option.getD_some]
    obtain ⟨l, hl, heq, -⟩ := mem_scopeOf.mp (List.getElem_mem hlt)
    exact heq ▸ hloops l hl
  · rw [List.getElem?_eq_none hge, Option.getD_none]
    exact hid

theorem regionArc_eq_some_iff {members : List String} {loops : List LoopBody} {region : Option String}
    {e : FlowEdge} {a b : String} :
    regionArc members loops region e = some (a, b) ↔
      representative region (scopeOf loops e.source) e.source = some a ∧
      representative region (scopeOf loops e.target) e.target = some b ∧
      a ≠ b ∧ a ∈ members ∧ b ∈ members := by
  simp only [regionArc, Option.bind_eq_bind, Option.bind_eq_some_iff]
  constructor
  · rintro ⟨source, hsource, target, htarget, h⟩
    split_ifs at h with hcond
    obtain ⟨rfl, rfl⟩ := Prod.mk.inj (Option.some.inj h)
    exact ⟨hsource, htarget, hcond⟩
  · rintro ⟨hsource, htarget, hcond⟩
    exact ⟨a, hsource, b, htarget, if_pos hcond⟩

theorem mem_arcs_regionGraph {planned : List String} {loops : List LoopBody} {region : Option String}
    {arc : String × String} :
    arc ∈ (f.regionGraph planned loops region).arcs ↔ ∃ e ∈ f.edges, e.source ∈ planned ∧
      f.isBackEdge e = false ∧ e.target ∈ planned ∧
      regionArc (regionMembers planned loops region) loops region e = some arc := by
  simp only [regionGraph, outgoing, List.mem_filterMap, List.mem_filter, List.mem_flatMap,
    decide_eq_true_eq, Bool.not_eq_true']
  constructor
  · rintro ⟨e, ⟨⟨id, hid, ⟨he, rfl⟩, hforward⟩, htarget⟩, harc⟩
    exact ⟨e, he, hid, hforward, htarget, harc⟩
  · rintro ⟨e, he, hid, hforward, htarget, harc⟩
    exact ⟨e, ⟨⟨e.source, hid, ⟨he, rfl⟩, hforward⟩, htarget⟩, harc⟩

theorem proper_regionGraph (f : TypedFlow) (planned : List String) (loops : List LoopBody)
    (region : Option String) : (f.regionGraph planned loops region).Proper := by
  have harc : ∀ v w, (v, w) ∈ (f.regionGraph planned loops region).arcs →
      v ≠ w ∧ v ∈ regionMembers planned loops region ∧ w ∈ regionMembers planned loops region := by
    intro v w hvw
    obtain ⟨e, -, he⟩ := List.mem_filterMap.mp hvw
    exact (regionArc_eq_some_iff.mp he).2.2
  exact ⟨fun v w h => (harc v w h).2.1, fun v w h => (harc v w h).2.2, fun v w h => (harc v w h).1⟩

/-- The order of a region lists its direct members, each once, and follows the arcs of its graph. -/
theorem regionOrder_spec {planned : List String} {loops : List LoopBody} {region : Option String}
    {order : List String} (hnodup : planned.Nodup)
    (h : f.regionOrder planned loops region = .ok order) :
    order.Perm (regionMembers planned loops region) ∧
      ∀ v w, (v, w) ∈ (f.regionGraph planned loops region).arcs → [v, w].Sublist order := by
  simp only [regionOrder] at h
  split at h
  · exact absurd h (by simp)
  next hnone =>
    obtain rfl := Except.ok.inj h
    have hproper := proper_regionGraph f planned loops region
    have hvertices : (f.regionGraph planned loops region).vertices.Nodup := hnodup.filter _
    exact ⟨Graph.Digraph.depthFirstOrder_perm hproper hvertices,
      fun v w hvw => Graph.Digraph.depthFirstOrder_sublist hproper hvertices hnone hvw⟩

theorem planLoops_spec {planned : List String} {all ls : List LoopBody} {pls : List PlannedLoop}
    (h : f.planLoops planned all ls = .ok pls) :
    List.Forall₂ (fun l pl => pl.id = l.id ∧ pl.body = l.body ∧
      f.regionOrder planned all (some l.id) = .ok pl.order) ls pls := by
  induction ls generalizing pls with
  | nil =>
      obtain rfl : [] = pls := by simpa [planLoops] using h
      exact .nil
  | cons l ls ih =>
      rw [planLoops] at h
      obtain ⟨order, horder, h⟩ := bind_eq_ok h
      obtain ⟨rest, hrest, h⟩ := bind_eq_ok h
      obtain rfl := Except.ok.inj h
      exact .cons ⟨rfl, rfl, horder⟩ (ih hrest)

namespace Planned

variable {start : String} {loops : List LoopBody} {p : Plan}

theorem map_id_loops (h : f.Planned start loops p) : p.loops.map (·.id) = loops.map (·.id) := by
  have hids : List.Forall₂ (· = ·) (p.loops.map (·.id)) (loops.map (·.id)) := by
    rw [List.forall₂_map_left_iff, List.forall₂_map_right_iff]
    exact (planLoops_spec h.loopOrders).flip.imp fun _ _ hl => hl.1
  rwa [List.forall₂_eq_eq_eq] at hids

/-- The plan knows every loop by its id. -/
theorem exists_loop?_eq_some (h : f.Planned start loops p) (hf : f.WellFormed) {l : LoopBody}
    (hl : l ∈ loops) : ∃ pl, p.loop? l.id = some pl ∧ pl.body = l.body ∧
      f.regionOrder ((f.members start).map (·.id)) loops (some l.id) = .ok pl.order := by
  have hloops := planLoops_spec h.loopOrders
  obtain ⟨i, hi, rfl⟩ := List.mem_iff_getElem.mp hl
  have hi' : i < p.loops.length := hloops.length_eq ▸ hi
  obtain ⟨hid, hbody, horder⟩ := (List.forall₂_iff_get.mp hloops).2 i hi hi'
  have hnodup : (p.loops.map (·.id)).Nodup := h.map_id_loops ▸ (h.nested hf).nodup
  refine ⟨p.loops[i], ?_, hbody, horder⟩
  have hfind := find?_id_eq_some hnodup (List.getElem_mem hi')
  exact (congrArg p.loop? hid).symm.trans hfind

theorem loop?_eq_none (h : f.Planned start loops p) {loopId : String}
    (hnot : loopId ∉ loops.map (·.id)) : p.loop? loopId = none := by
  rw [Plan.loop?, List.find?_eq_none]
  intro pl hpl
  have hmem : pl.id ∈ loops.map (·.id) := h.map_id_loops ▸ List.mem_map_of_mem hpl
  simpa using fun heq : pl.id = loopId => hnot (heq ▸ hmem)

end Planned

end TypedFlow

end FlowGraph
