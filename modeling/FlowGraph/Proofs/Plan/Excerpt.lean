import FlowGraph.Proofs.Plan.Membership
import Mathlib.Data.List.Perm.Basic

/-!
Excerpts of a flow: the nodes with some ids and the edges into them, in any order. The ids are closed
under the sources of edges and under the first nodes of the bodies of loops, so what is left out is only
ever led to. A node of the excerpt is therefore what it was: it is found by its id, its edges enter and
leave it, and the checks of its edges have the same outcome. The walks along the edges find the same, as
far as it is in the excerpt; and if all that takes part in a run of the flow is there, the same nodes
take part in a run of the excerpt.
-/

namespace FlowGraph.TypedFlow

/-- Whether a flow lists, in any order, the nodes of another one with some ids and the edges into
them, where nothing leads from the other nodes to these. -/
structure Excerpt (f : TypedFlow) (ids : List String) (f' : TypedFlow) : Prop where
  whole : f.WellFormed
  stable : f.Stable ids
  nodes_perm : (f.nodes.filter (·.id ∈ ids)).Perm f'.nodes
  edges_perm : (f.edges.filter (·.target ∈ ids)).Perm f'.edges

/-- The edges into a node are among those into the nodes with some ids, if its id is one of these. -/
theorem filter_incoming {f : TypedFlow} {ids : List String} {id : String} (hid : id ∈ ids) :
    (f.edges.filter (·.target ∈ ids)).filter (·.target = id) = f.incoming id := by
  rw [List.filter_filter]
  refine List.filter_congr fun e _ => ?_
  by_cases heq : e.target = id
  · simp [heq, hid]
  · simp [heq]

namespace Excerpt

variable {f f' : TypedFlow} {ids : List String} (h : f.Excerpt ids f')

include h

theorem mem_nodes {n : TypedNode} : n ∈ f'.nodes ↔ n ∈ f.nodes ∧ n.id ∈ ids := by
  rw [← h.nodes_perm.mem_iff, List.mem_filter, decide_eq_true_eq]

theorem mem_edges {e : FlowEdge} : e ∈ f'.edges ↔ e ∈ f.edges ∧ e.target ∈ ids := by
  rw [← h.edges_perm.mem_iff, List.mem_filter, decide_eq_true_eq]

theorem source_mem {e : FlowEdge} (he : e ∈ f'.edges) : e.source ∈ ids := by
  obtain ⟨he, htarget⟩ := h.mem_edges.mp he
  exact h.stable.source_mem e he htarget

theorem nodup_filter : ((f.nodes.filter (·.id ∈ ids)).map (·.id)).Nodup :=
  h.whole.nodup.sublist (List.filter_sublist.map _)

theorem wellFormed : f'.WellFormed := by
  have hmem : ∀ id ∈ f.nodes.map (·.id), id ∈ ids → id ∈ f'.nodes.map (·.id) := by
    intro id hid hmem
    obtain ⟨n, hn, rfl⟩ := List.mem_map.mp hid
    exact List.mem_map_of_mem (h.mem_nodes.mpr ⟨hn, hmem⟩)
  refine ⟨(h.nodes_perm.map _).nodup_iff.mp h.nodup_filter, fun e he => ?_, fun e he => ?_⟩
  · exact hmem _ (h.whole.source_mem e (h.mem_edges.mp he).1) (h.source_mem he)
  · exact hmem _ (h.whole.target_mem e (h.mem_edges.mp he).1) (h.mem_edges.mp he).2

theorem find?_eq {id : String} (hid : id ∈ ids) : f'.find? id = f.find? id := by
  rw [find?, ← find?_id_eq_of_perm h.nodes_perm h.nodup_filter, List.find?_filter, find?]
  congr 1
  funext n
  by_cases heq : n.id = id
  · simp [heq, hid]
  · simp [heq]

theorem loopHandles?_eq {id : String} (hid : id ∈ ids) : f'.loopHandles? id = f.loopHandles? id := by
  rw [loopHandles?, loopHandles?, h.find?_eq hid]

theorem isBackEdge_eq {e : FlowEdge} (htarget : e.target ∈ ids) :
    f'.isBackEdge e = f.isBackEdge e := by
  rw [isBackEdge, isBackEdge, h.loopHandles?_eq htarget]

theorem checkEdges_eq_ok (hchecked : f.checkEdges [] f.edges = .ok ()) :
    f'.checkEdges [] f'.edges = .ok () := by
  obtain ⟨hedge, hnodup, -⟩ := checkEdges_eq_ok_iff.mp hchecked
  refine checkEdges_eq_ok_iff.mpr ⟨fun e he => ?_, ?_, fun _ _ => List.not_mem_nil⟩
  · obtain ⟨hmem, htarget⟩ := h.mem_edges.mp he
    have hcheck := hedge e hmem
    simp only [checkEdge, endpoint] at hcheck ⊢
    rwa [h.find?_eq (h.source_mem he), h.find?_eq htarget]
  · exact (h.edges_perm.map _).nodup_iff.mp (hnodup.sublist (List.filter_sublist.map _))

/-- No edge into a node of the excerpt is left out. -/
theorem incoming_perm {id : String} (hid : id ∈ ids) : (f.incoming id).Perm (f'.incoming id) :=
  filter_incoming hid ▸ h.edges_perm.filter _

theorem mem_outgoing {id : String} {e : FlowEdge} :
    e ∈ f'.outgoing id ↔ e ∈ f.outgoing id ∧ e.target ∈ ids := by
  simp only [outgoing, List.mem_filter, h.mem_edges]
  tauto

theorem mem_bodyEntries_iff {loopId id : String} (hloop : loopId ∈ ids) :
    id ∈ f'.bodyEntries loopId ↔ id ∈ f.bodyEntries loopId := by
  constructor
  · intro hid
    obtain ⟨handles, hhandles, e, he, hentry⟩ := mem_bodyEntries.mp hid
    rw [h.loopHandles?_eq hloop] at hhandles
    exact mem_bodyEntries.mpr ⟨handles, hhandles, e, (h.mem_edges.mp he).1, hentry⟩
  · intro hid
    have hmem := h.stable.entry_mem loopId hloop id hid
    obtain ⟨handles, hhandles, e, he, hsource, hhandle, rfl⟩ := mem_bodyEntries.mp hid
    rw [← h.loopHandles?_eq hloop] at hhandles
    exact mem_bodyEntries.mpr
      ⟨handles, hhandles, e, h.mem_edges.mpr ⟨he, hmem⟩, hsource, hhandle, rfl⟩

/-- The start is found as before, if it is there. -/
theorem findStart_eq_ok {chosen : Option String} {start : String}
    (hstart : f.findStart chosen = .ok start) (hmem : start ∈ ids) :
    f'.findStart chosen = .ok start := by
  cases chosen with
  | some chosen =>
      simp only [findStart] at hstart ⊢
      split at hstart
      next n hn =>
        obtain rfl := Except.ok.inj hstart
        have hchosen : n.id = chosen ∧ n.kind ≠ .visual := by simpa using List.find?_some hn
        have hn' := h.mem_nodes.mpr ⟨List.mem_of_find?_eq_some hn, hmem⟩
        cases hfind : f'.nodes.find? fun n => n.id = chosen ∧ n.kind ≠ .visual with
        | none => exact absurd (by simpa using hchosen) (List.find?_eq_none.mp hfind n hn')
        | some n' =>
            have hchosen' : n'.id = chosen ∧ n'.kind ≠ .visual := by simpa using List.find?_some hfind
            exact congrArg Except.ok (hchosen'.1.trans hchosen.1.symm)
      · exact absurd hstart (by simp)
  | none =>
      have hentries : (f.entries.filter (· ∈ ids)).Perm f'.entries := by
        have hfilter : f.entries.filter (· ∈ ids) =
            ((f.nodes.filter (·.id ∈ ids)).filter (·.kind = .entry)).map (·.id) := by
          rw [entries, List.filter_map, List.filter_filter, List.filter_filter]
          simp only [Function.comp_def, Bool.and_comm]
        rw [hfilter]
        exact (h.nodes_perm.filter _).map _
      simp only [findStart] at hstart ⊢
      split at hstart
      · exact absurd hstart (by simp)
      next hentry =>
        obtain rfl := Except.ok.inj hstart
        rw [hentry, List.filter_cons_of_pos (by simpa using hmem), List.filter_nil] at hentries
        rw [← List.singleton_perm.mp hentries]
      · exact absurd hstart (by simp)

/-! ### Which nodes take part -/

theorem mem_arcs_iff {u v : String} : (u, v) ∈ f'.arcs ↔ (u, v) ∈ f.arcs ∧ v ∈ ids := by
  rw [mem_arcs, mem_arcs]
  constructor
  · rintro ⟨e, he, rfl, rfl⟩
    obtain ⟨he, htarget⟩ := h.mem_edges.mp he
    exact ⟨⟨e, he, rfl, rfl⟩, htarget⟩
  · rintro ⟨⟨e, he, rfl, rfl⟩, htarget⟩
    exact ⟨e, h.mem_edges.mpr ⟨he, htarget⟩, rfl, rfl⟩

theorem sourcesInto_subset_ids {members : List String} (hmembers : members ⊆ ids) :
    f.sourcesInto members ⊆ ids := by
  refine Graph.walk_induction hmembers (by simp) fun v _ _ hv w hw => ?_
  obtain ⟨e, he, rfl, rfl⟩ := mem_arcs.mp (Graph.mem_reversed.mp hw)
  exact h.stable.source_mem e he hv

theorem mem_sourcesInto_iff {members members' : List String} (hmembers : members.Perm members')
    (hsub : members ⊆ ids) {id : String} :
    id ∈ f.sourcesInto members ↔ id ∈ f'.sourcesInto members' := by
  constructor
  · refine fun hid => Graph.reach_subset_of_arcs (fun v hv _ w hw => ?_) hmembers.subset
      (fun _ => Iff.rfl) hid
    rw [Graph.mem_reversed] at hw ⊢
    exact h.mem_arcs_iff.mpr ⟨hw, h.sourcesInto_subset_ids hsub hv⟩
  · refine fun hid => Graph.reach_subset ?_ hmembers.symm.subset (fun _ => Iff.rfl) hid
    rintro ⟨v, w⟩ hw
    rw [Graph.mem_reversed] at hw ⊢
    exact (h.mem_arcs_iff.mp hw).1

theorem mem_newEntries_iff {members members' : List String}
    (hmembers : ∀ id, id ∈ members ↔ id ∈ members') (hsub : members ⊆ ids) {id : String} :
    id ∈ f.newEntries members ↔ id ∈ f'.newEntries members' := by
  rw [mem_newEntries, mem_newEntries, hmembers id]
  refine and_congr_left fun _ => exists_congr fun loopId => ?_
  rw [← hmembers loopId]
  exact and_congr_right fun hloop => (h.mem_bodyEntries_iff (hsub hloop)).symm

/-- A round finds the same nodes, if all that it finds is there. -/
theorem grow_perm {members members' : List String} (hmembers : members.Perm members')
    (hgrow : f.grow members ⊆ ids) : (f.grow members).Perm (f'.grow members') := by
  have hsub : members ⊆ ids := List.Subset.trans (f.subset_grow members) hgrow
  have hsources : ∀ id, id ∈ f.sourcesInto members ↔ id ∈ f'.sourcesInto members' := fun _ =>
    h.mem_sourcesInto_iff hmembers hsub
  have hentries : ∀ id, id ∈ f.newEntries (f.sourcesInto members) ↔
      id ∈ f'.newEntries (f'.sourcesInto members') := fun _ =>
    h.mem_newEntries_iff hsources (h.sourcesInto_subset_ids hsub)
  refine (List.perm_ext_iff_of_nodup (f.nodup_grow members) (f'.nodup_grow members')).mpr fun id => ?_
  constructor
  · refine fun hid => Graph.reach_subset_of_arcs (fun v hv hnot w hw => ?_)
      (fun v hv => (hentries v).mp hv) hsources hid
    exact h.mem_arcs_iff.mpr ⟨hw, hgrow ((Graph.reach_closed f.arcs _ _).2.2 v hv hnot w hw)⟩
  · refine fun hid => Graph.reach_subset ?_ (fun v hv => (hentries v).mpr hv)
      (fun v => (hsources v).symm) hid
    exact fun _ hw => (h.mem_arcs_iff.mp hw).1

theorem growAll_perm {rounds : Nat} {members members' : List String} (hmembers : members.Perm members')
    (hgrow : f.growAll rounds members ⊆ ids) :
    (f.growAll rounds members).Perm (f'.growAll rounds members') := by
  induction rounds generalizing members members' with
  | zero => exact hmembers
  | succ rounds ih =>
      have hgrown := h.grow_perm hmembers (List.Subset.trans (f.grow_subset_growAll rounds members) hgrow)
      simp only [growAll, hgrown.length_eq, hmembers.length_eq] at hgrow ⊢
      split_ifs at hgrow ⊢
      · exact hgrown
      · exact ih hgrown hgrow

/-! ### Bodies -/

theorem mem_forwardArcs_iff {u v : String} :
    (u, v) ∈ f'.forwardArcs ↔ (u, v) ∈ f.forwardArcs ∧ v ∈ ids := by
  simp only [forwardArcs, forwardEdges, List.mem_map, List.mem_filter, Prod.mk.injEq, h.mem_edges]
  constructor
  · rintro ⟨e, ⟨⟨he, htarget⟩, hforward⟩, rfl, rfl⟩
    exact ⟨⟨e, ⟨he, h.isBackEdge_eq htarget ▸ hforward⟩, rfl, rfl⟩, htarget⟩
  · rintro ⟨⟨e, ⟨he, hforward⟩, rfl, rfl⟩, htarget⟩
    exact ⟨e, ⟨⟨he, htarget⟩, (h.isBackEdge_eq htarget).symm ▸ hforward⟩, rfl, rfl⟩

/-- The walk into a body finds what it found before, as far as that is there: it never comes back from
a node that is left out. -/
theorem mem_reachBody_iff {loopId : String} (hloop : loopId ∈ ids) {id : String} :
    id ∈ f'.reachBody loopId ↔ id ∈ f.reachBody loopId ∧ id ∈ ids := by
  constructor
  · refine fun hid => ⟨Graph.reach_subset (fun _ hw => (h.mem_forwardArcs_iff.mp hw).1)
      (fun _ hv => (h.mem_bodyEntries_iff hloop).mp hv) (fun _ => Iff.rfl) hid, ?_⟩
    refine Graph.walk_induction (fun v hv => ?_) (by simp) (fun v _ _ _ w hw => ?_) id hid
    · exact h.stable.entry_mem loopId hloop v ((h.mem_bodyEntries_iff hloop).mp hv)
    · exact (h.mem_forwardArcs_iff.mp hw).2
  · rintro ⟨hid, hmem⟩
    refine Graph.walk_induction (P := fun v => v ∈ ids → v ∈ f'.reachBody loopId)
      (fun v hv _ => ?_) (by simp) (fun v _ _ hv w hw hmem => ?_) id hid hmem
    · exact (Graph.reach_closed _ _ _).1 v ((h.mem_bodyEntries_iff hloop).mpr hv)
    · obtain ⟨e, he, heq⟩ := List.mem_map.mp hw
      obtain ⟨rfl, rfl⟩ := Prod.mk.inj heq
      have hsource := h.stable.source_mem e (List.mem_of_mem_filter he) hmem
      exact Graph.mem_reach_of_arc (hv hsource) (h.mem_forwardArcs_iff.mpr ⟨hw, hmem⟩)

theorem filter_bodyOf {loopId : String} (hloop : loopId ∈ ids) :
    (f.bodyOf loopId).filter (· ∈ ids) =
      ((f.nodes.filter (·.id ∈ ids)).filter (·.id ∈ f'.reachBody loopId)).map (·.id) := by
  rw [bodyOf, List.filter_map, List.filter_filter, List.filter_filter]
  refine congrArg _ (List.filter_congr fun n _ => ?_)
  by_cases hmem : n.id ∈ ids <;> simp [hmem, h.mem_reachBody_iff hloop]

theorem bodyOf_perm {loopId : String} (hloop : loopId ∈ ids) :
    ((f.bodyOf loopId).filter (· ∈ ids)).Perm (f'.bodyOf loopId) := by
  rw [h.filter_bodyOf hloop]
  exact (h.nodes_perm.filter _).map _

end Excerpt

/-- Whether an excerpt has all nodes that take part in a run from a start. -/
structure ExcerptFor (f : TypedFlow) (start : String) (ids : List String) (f' : TypedFlow) : Prop
    extends f.Excerpt ids f' where
  start_mem : start ∈ f.nodes.map (·.id)
  found_subset : f.found start ⊆ ids

namespace ExcerptFor

variable {f f' : TypedFlow} {start : String} {ids : List String} (h : f.ExcerptFor start ids f')

include h

theorem start_mem_ids : start ∈ ids :=
  h.found_subset (mem_found_of_leadsTo .refl)

theorem mem_ids {n : TypedNode} (hn : n ∈ f.members start) : n.id ∈ ids :=
  h.found_subset (of_decide_eq_true (List.mem_filter.mp hn).2)

/-- The same nodes are found, if all of them are there. -/
theorem found_perm : (f.found start).Perm (f'.found start) := by
  have hwalk : Graph.reach f.arcs [start] [] ⊆ ids :=
    List.Subset.trans (f.subset_growAll _ _) h.found_subset
  have hreach : (Graph.reach f.arcs [start] []).Perm (Graph.reach f'.arcs [start] []) := by
    refine (List.perm_ext_iff_of_nodup (Graph.nodup_walk _ _ _ List.nodup_nil)
      (Graph.nodup_walk _ _ _ List.nodup_nil)).mpr fun id => ⟨fun hid => ?_, fun hid => ?_⟩
    · refine Graph.reach_subset_of_arcs (fun v hv _ w hw => ?_) (List.Subset.refl _)
        (fun _ => Iff.rfl) hid
      exact h.mem_arcs_iff.mpr ⟨hw, hwalk (Graph.mem_reach_of_arc hv hw)⟩
    · exact Graph.reach_subset (fun _ hw => (h.mem_arcs_iff.mp hw).1) (List.Subset.refl _)
        (fun _ => Iff.rfl) hid
  have hstart : start ∈ f'.nodes.map (·.id) := by
    have hmem : start ∈ ids := h.start_mem_ids
    obtain ⟨n, hn, rfl⟩ := List.mem_map.mp h.start_mem
    exact List.mem_map_of_mem (h.mem_nodes.mpr ⟨hn, hmem⟩)
  -- The excerpt has fewer nodes, so the rounds for the whole flow are enough for it as well.
  have hlength : f'.nodes.length ≤ f.nodes.length :=
    h.nodes_perm.length_eq ▸ List.length_filter_le _ _
  have hrounds : f'.found start =
      f'.growAll (f.nodes.length + 1) (Graph.reach f'.arcs [start] []) :=
    growAll_eq_growAll h.wellFormed (Graph.nodup_walk _ _ _ List.nodup_nil)
      (reach_subset_ids h.wellFormed hstart) (by omega) (by omega)
  rw [hrounds]
  exact h.growAll_perm hreach h.found_subset

theorem filter_members :
    (f.nodes.filter (·.id ∈ ids)).filter (·.id ∈ f'.found start) = f.members start := by
  rw [List.filter_filter]
  refine List.filter_congr fun n _ => ?_
  by_cases hmem : n.id ∈ f.found start
  · simp [hmem, h.found_subset hmem, ← h.found_perm.mem_iff]
  · simp [hmem, ← h.found_perm.mem_iff]

theorem members_perm : (f.members start).Perm (f'.members start) :=
  h.filter_members ▸ h.nodes_perm.filter _

theorem mem_members_iff {id : String} :
    id ∈ (f.members start).map (·.id) ↔ id ∈ (f'.members start).map (·.id) :=
  (h.members_perm.map _).mem_iff

end ExcerptFor

/-- A flow with the same nodes and edges in another order is an excerpt with all nodes. -/
theorem excerpt_of_perm {f f' : TypedFlow} (hf : f.WellFormed) (hnodes : f.nodes.Perm f'.nodes)
    (hedges : f.edges.Perm f'.edges) : f.Excerpt (f.nodes.map (·.id)) f' := by
  have hallNodes : f.nodes.filter (·.id ∈ f.nodes.map (·.id)) = f.nodes :=
    List.filter_eq_self.mpr fun n hn => decide_eq_true (List.mem_map_of_mem hn)
  have hallEdges : f.edges.filter (·.target ∈ f.nodes.map (·.id)) = f.edges :=
    List.filter_eq_self.mpr fun e he => decide_eq_true (hf.target_mem e he)
  have hentry : ∀ loopId ∈ f.nodes.map (·.id), ∀ id ∈ f.bodyEntries loopId, id ∈ f.nodes.map (·.id) := by
    intro loopId _ id hid
    obtain ⟨handles, -, e, he, -, -, rfl⟩ := mem_bodyEntries.mp hid
    exact hf.target_mem e he
  exact ⟨hf, ⟨fun e he _ => hf.source_mem e he, hentry⟩, hallNodes.symm ▸ hnodes, hallEdges.symm ▸ hedges⟩

theorem excerptFor_of_perm {f f' : TypedFlow} {start : String} (hf : f.WellFormed)
    (hstart : start ∈ f.nodes.map (·.id)) (hnodes : f.nodes.Perm f'.nodes)
    (hedges : f.edges.Perm f'.edges) : f.ExcerptFor start (f.nodes.map (·.id)) f' :=
  ⟨excerpt_of_perm hf hnodes hedges, hstart, found_subset_ids hf hstart⟩

end FlowGraph.TypedFlow
