import FlowGraph.Proofs.Plan.Lawful
import FlowGraph.Standard

/-!
The regions of a plan divide its nodes among them, and their orders are topological. An edge may join
nodes at different levels; in every region around both of its ends it orders what stands for them
there. Only an edge inside a single member says nothing about the region.
-/

namespace FlowGraph

/-- Whether an edge enters the `next` handle of a loop of the plan. -/
def Plan.ClosesLoop (p : Plan) (e : FlowEdge) : Prop :=
  ∃ n ∈ p.nodes, n.id = e.target ∧
    ∃ handles, n.kind = .loop handles ∧ e.targetHandle = some handles.next

namespace Plan.Lawful

variable {p : Plan}

/-- The regions divide the nodes of the plan among them. -/
theorem perm_regions (h : p.Lawful) :
    (p.region none ++ p.loops.flatMap fun l => p.region (some l.id)).Perm (p.nodes.map (·.id)) := by
  have hloops : (p.loops.flatMap fun l => p.region (some l.id)).Nodup := by
    refine List.nodup_flatMap.mpr ⟨fun l _ => h.region_nodup (some l.id), ?_⟩
    refine h.nodup_loops.of_map.imp_of_mem ?_
    intro l l' hl hl' hne id hid hid'
    have hregion := h.region_eq_of_mem hid hid'
    exact hne (List.inj_on_of_nodup_map h.nodup_loops hl hl' (Option.some.inj hregion))
  have hnodup : (p.region none ++ p.loops.flatMap fun l => p.region (some l.id)).Nodup := by
    refine List.nodup_append'.mpr ⟨h.region_nodup none, hloops, fun id hid hid' => ?_⟩
    obtain ⟨l, -, hmem⟩ := List.mem_flatMap.mp hid'
    exact absurd (h.region_eq_of_mem hid hmem) (by simp)
  refine (List.perm_ext_iff_of_nodup hnodup h.nodup).mpr fun id => ⟨fun hid => ?_, fun hid => ?_⟩
  · have hregion : ∃ region, id ∈ p.region region := by
      rcases List.mem_append.mp hid with hid | hid
      · exact ⟨none, hid⟩
      · obtain ⟨l, -, hmem⟩ := List.mem_flatMap.mp hid
        exact ⟨some l.id, hmem⟩
    obtain ⟨region, hmem⟩ := hregion
    obtain ⟨n, hn, rfl, -⟩ := (h.mem_region region id).mp hmem
    exact List.mem_map_of_mem hn
  · obtain ⟨n, hn, rfl⟩ := List.mem_map.mp hid
    have hmem := (h.mem_region n.scope.getLast? n.id).mpr ⟨n, hn, rfl, rfl⟩
    cases hlast : n.scope.getLast? with
    | none => exact List.mem_append_left _ (hlast ▸ hmem)
    | some loopId =>
        obtain ⟨l, hl, rfl⟩ := h.mem_loops_of_mem_scope hn (List.mem_of_getLast? hlast)
        exact List.mem_append_right _ (List.mem_flatMap.mpr ⟨l, hl, hlast ▸ hmem⟩)

end Plan.Lawful

namespace TypedFlow.Planned

variable {f : TypedFlow} {start : String} {loops : List LoopBody} {p : Plan}

theorem isBackEdge_eq_true_iff (h : f.Planned start loops p) (hf : f.WellFormed) {n : PlannedNode}
    (hn : n ∈ p.nodes) {e : FlowEdge} (hid : n.id = e.target) :
    f.isBackEdge e = true ↔ p.ClosesLoop e := by
  obtain ⟨m, hm, hmade⟩ := h.exists_madeFrom hn
  have hfind : f.find? e.target = some m := by
    rw [← hid, hmade.id_eq]
    exact find?_id_eq_some hf.nodup (List.mem_of_mem_filter hm)
  have hhandles : f.loopHandles? e.target = n.kind.loopHandles? := by
    rw [loopHandles?, hfind, hmade.kind_eq]
    rfl
  rw [isBackEdge, hhandles]
  constructor
  · intro hback
    split at hback
    next handles hkind =>
      exact ⟨n, hn, hid, handles, NodeKind.loopHandles?_eq_some.mp hkind, by simpa using hback⟩
    · exact absurd hback (by simp)
  · rintro ⟨n', hn', hid', handles, hkind, htarget⟩
    obtain rfl := (h.lawful hf).eq_of_id_eq hn hn' (hid.trans hid'.symm)
    rw [NodeKind.loopHandles?_eq_some.mpr hkind]
    simpa using htarget

theorem isBackEdge_eq_false (h : f.Planned start loops p) (hf : f.WellFormed) {e : FlowEdge}
    (hforward : ¬ p.ClosesLoop e) {n : PlannedNode} (hn : n ∈ p.nodes) (hid : n.id = e.target) :
    f.isBackEdge e = false := by
  rw [← Bool.not_eq_true, h.isBackEdge_eq_true_iff hf hn hid]
  exact hforward

/-- Along an edge between planned nodes that closes no loop the scope of its source begins that of its
target. -/
theorem scope_prefix_of_edge (h : f.Planned start loops p) (hf : f.WellFormed) {e : FlowEdge}
    (he : e ∈ f.edges) (hforward : ¬ p.ClosesLoop e) {u v : PlannedNode} (hu : u ∈ p.nodes)
    (hv : v ∈ p.nodes) (hsource : u.id = e.source) (htarget : v.id = e.target) :
    u.scope <+: v.scope := by
  have hback := h.isBackEdge_eq_false hf hforward hv htarget
  rw [h.scope_eq hu, h.scope_eq hv, hsource, htarget]
  exact (h.prefix_around_of_edge hf he hback).map LoopBody.id

/-- In every region around both ends of a forward edge, what stands for its source comes before what
stands for its target, unless it is the same. -/
theorem representatives_of_edge (h : f.Planned start loops p) (hf : f.WellFormed) {e : FlowEdge}
    (he : e ∈ f.edges) (hforward : ¬ p.ClosesLoop e) {u v : PlannedNode} (hu : u ∈ p.nodes)
    (hv : v ∈ p.nodes) (hsource : u.id = e.source) (htarget : v.id = e.target)
    {region : Option String} (hregion : LiesAround region u.scope) :
    ∃ a ∈ p.region region, ∃ b ∈ p.region region,
      representative region u.scope u.id = some a ∧ representative region v.scope v.id = some b ∧
      (a ≠ b → [a, b].Sublist (p.region region)) := by
  have hback := h.isBackEdge_eq_false hf hforward hv htarget
  have hprefix := h.scope_prefix_of_edge hf he hforward hu hv hsource htarget
  obtain ⟨k, hk, rfl⟩ := exists_level hregion
  have htake : v.scope.take k = u.scope.take k := by
    obtain ⟨rest, hrest⟩ := hprefix
    rw [← hrest, List.take_append_of_le_length hk]
  have hmember : ∀ n ∈ p.nodes, n.scope[k]?.getD n.id ∈ p.region (n.scope.take k).getLast? := by
    intro n hn
    rw [(h.region_spec hf _).1.mem_iff, h.scope_eq hn]
    exact h.getD_mem_regionMembers hf (h.id_mem_members hn) k
  refine ⟨u.scope[k]?.getD u.id, hmember u hu, v.scope[k]?.getD v.id, htake ▸ hmember v hv,
    representative_eq ((h.lawful hf).scope_nodup u hu) hk u.id, ?_, fun hne => ?_⟩
  · rw [← htake]
    exact representative_eq ((h.lawful hf).scope_nodup v hv) (hk.trans hprefix.length_le) v.id
  · have hsublist := h.sublist_region_of_edge hf he hback (hsource ▸ h.id_mem_members hu)
      (htarget ▸ h.id_mem_members hv) (k := k) (by rw [← hsource, ← h.scope_eq hu]; exact hk)
    simp only [← hsource, ← htarget, ← h.scope_eq hu, ← h.scope_eq hv] at hsublist
    exact hsublist hne

end TypedFlow.Planned

namespace Registry

/-- The regions of an accepted flow list every node of the plan exactly once, in the region of the last
loop of its scope; and in every region around both ends of an edge that closes no loop, what stands
for the source comes before what stands for the target, unless it is the same. -/
theorem regions_complete_and_topological {r : Registry} {flow : Flow} {start : Option String}
    {p : Plan} (h : r.resolve flow start = .ok p) :
    (p.nodes.map (·.id)).Nodup ∧
    p.loops.map (·.id) = (p.nodes.filter (·.kind.loopHandles?.isSome)).map (·.id) ∧
    (p.region none ++ p.loops.flatMap fun l => p.region (some l.id)).Perm (p.nodes.map (·.id)) ∧
    (∀ region id, id ∈ p.region region ↔ ∃ n ∈ p.nodes, n.id = id ∧ n.scope.getLast? = region) ∧
    ∀ e ∈ flow.edges, ¬ p.ClosesLoop e → ∀ u ∈ p.nodes, ∀ v ∈ p.nodes,
      u.id = e.source → v.id = e.target → u ≠ v →
      ∀ region, LiesAround region u.scope → LiesAround region v.scope →
        ∃ a ∈ p.region region, ∃ b ∈ p.region region,
          TypedFlow.representative region u.scope u.id = some a ∧
          TypedFlow.representative region v.scope v.id = some b ∧
          (a ≠ b → [a, b].Sublist (p.region region)) := by
  obtain ⟨f, id, loops, hedges, hf, hplanned⟩ := r.exists_planned_of_resolve_eq_ok h
  have hlawful := hplanned.lawful hf
  refine ⟨hlawful.nodup, hlawful.loops_eq, hlawful.perm_regions, hlawful.mem_region, ?_⟩
  intro e he hforward u hu v hv hsource htarget _ region hregion _
  exact hplanned.representatives_of_edge hf (hedges ▸ he) hforward hu hv hsource htarget hregion

/-- A loop inside another one, and an edge from the top level right into the inner body. -/
def crossingLevels : Flow where
  nodes := [⟨"s", "start", .null⟩, ⟨"list", "json", .object [("value", .array [.array [.bool true]])]⟩,
    ⟨"outer", "forEach", .null⟩, ⟨"inner", "forEach", .null⟩, ⟨"show", "log", .null⟩,
    ⟨"sum", "merge", .null⟩]
  edges := [⟨"e1", "s", none, "list", none⟩, ⟨"e2", "list", none, "outer", some "items"⟩,
    ⟨"e3", "outer", some "item", "inner", some "items"⟩, ⟨"e4", "inner", some "item", "show", none⟩,
    ⟨"e5", "show", none, "sum", none⟩, ⟨"e6", "s", none, "sum", none⟩]

theorem regions_of_crossingLevels :
    ∃ p, Standard.registry.resolve crossingLevels none = .ok p ∧
      p.region none = ["s", "list", "outer"] ∧ p.region (some "outer") = ["inner"] ∧
      p.region (some "inner") = ["show", "sum"] ∧
      (p.region none ++ p.loops.flatMap fun l => p.region (some l.id)).Perm
        (p.nodes.map (·.id)) := by
  have hregions : ((Standard.registry.resolve crossingLevels none).toOption.map fun p =>
      (p.region none, p.region (some "outer"), p.region (some "inner"))) =
        some (["s", "list", "outer"], ["inner"], ["show", "sum"]) := by decide +kernel
  obtain ⟨p, hp, heq⟩ := Option.map_eq_some_iff.mp hregions
  have hok : Standard.registry.resolve crossingLevels none = .ok p := eq_ok_of_toOption_eq_some hp
  simp only [Prod.mk.injEq] at heq
  exact ⟨p, hok, heq.1, heq.2.1, heq.2.2, (regions_complete_and_topological hok).2.2.1⟩

end Registry

end FlowGraph
