import FlowGraph.Proofs.Plan.RegionOrder
import Mathlib.Logic.Relation

/-!
Cycles of forward edges in a plan. An edge either leads deeper into loops or, within one region, onward
in its order; so a path that comes back to where it began has never left that node. A cycle of more
than one node is refused, therefore, but an edge from a node to itself is not: it joins no two members
of any region. The only forward cycles in a plan are such edges.
-/

namespace FlowGraph

namespace Plan

/-- Whether an edge that closes no loop leads from one node of the plan to another. -/
def Feeds (p : Plan) (edges : List FlowEdge) (u v : PlannedNode) : Prop :=
  u ∈ p.nodes ∧ v ∈ p.nodes ∧ ∃ e ∈ edges, e.source = u.id ∧ e.target = v.id ∧ ¬ p.ClosesLoop e

/-- Whether a node lies less deep than another one, or comes before it in one region. -/
def Before (p : Plan) (u v : PlannedNode) : Prop :=
  u.scope.length < v.scope.length ∨
    u.scope = v.scope ∧
      (p.region u.scope.getLast?).idxOf u.id < (p.region u.scope.getLast?).idxOf v.id

theorem Before.trans {p : Plan} {u v w : PlannedNode} (huv : p.Before u v) (hvw : p.Before v w) :
    p.Before u w := by
  rcases huv with huv | ⟨hscope, huv⟩ <;> rcases hvw with hvw | ⟨hscope', hvw⟩
  · exact Or.inl (by omega)
  · exact Or.inl (hscope' ▸ huv)
  · exact Or.inl (hscope ▸ hvw)
  · rw [← hscope] at hvw
    exact Or.inr ⟨hscope.trans hscope', huv.trans hvw⟩

theorem Before.irrefl {p : Plan} (u : PlannedNode) : ¬ p.Before u u := by
  rintro (h | ⟨-, h⟩)
  · exact Nat.lt_irrefl _ h
  · exact Nat.lt_irrefl _ h

end Plan

theorem idxOf_lt_idxOf_of_sublist {α : Type} [DecidableEq α] {xs : List α} (hnodup : xs.Nodup)
    {a b : α} (h : [a, b].Sublist xs) : xs.idxOf a < xs.idxOf b := by
  induction xs with
  | nil => exact absurd (List.sublist_nil.mp h) (by simp)
  | cons x xs ih =>
      obtain ⟨hx, hnodup⟩ := List.nodup_cons.mp hnodup
      rcases List.sublist_cons_iff.mp h with h | ⟨rest, heq, h⟩
      · have hmem : ∀ y ∈ [a, b], y ≠ x := fun y hy heq => hx (heq ▸ h.subset hy)
        rw [List.idxOf_cons_ne _ (hmem a (by simp)).symm, List.idxOf_cons_ne _ (hmem b (by simp)).symm]
        exact Nat.succ_lt_succ (ih hnodup h)
      · obtain ⟨rfl, rfl⟩ := List.cons.inj heq
        have hb : b ≠ a := fun heq => hx (heq ▸ h.subset List.mem_cons_self)
        rw [List.idxOf_cons_self, List.idxOf_cons_ne _ hb.symm]
        exact Nat.succ_pos _

namespace TypedFlow.Planned

variable {f : TypedFlow} {start : String} {loops : List LoopBody} {p : Plan}

theorem before_of_feeds (h : f.Planned start loops p) (hf : f.WellFormed) {u v : PlannedNode}
    (hfeeds : p.Feeds f.edges u v) (hne : u ≠ v) : p.Before u v := by
  obtain ⟨hu, hv, e, he, hsource, htarget, hforward⟩ := hfeeds
  have hlawful := h.lawful hf
  have hback := h.isBackEdge_eq_false hf hforward hv htarget.symm
  have hprefix := h.scope_prefix_of_edge hf he hforward hu hv hsource.symm htarget.symm
  by_cases hlength : u.scope.length < v.scope.length
  · exact Or.inl hlength
  have hscope : u.scope = v.scope := hprefix.eq_of_length_le (by omega)
  refine Or.inr ⟨hscope, idxOf_lt_idxOf_of_sublist (hlawful.region_nodup _) ?_⟩
  have hsublist := h.sublist_region_of_edge hf he hback (hsource ▸ h.id_mem_members hu)
    (htarget ▸ h.id_mem_members hv) (k := (scopeOf loops e.source).length) (Nat.le_refl _)
  simp only [hsource, htarget, ← h.scope_eq hu, ← h.scope_eq hv, ← hscope, List.getElem?_length,
    Option.getD_none, List.take_length] at hsublist
  exact hsublist fun hid => hne (hlawful.eq_of_id_eq hu hv hid)

theorem before_or_eq_of_path (h : f.Planned start loops p) (hf : f.WellFormed) {u v : PlannedNode}
    (hpath : Relation.TransGen (p.Feeds f.edges) u v) :
    p.Before u v ∨ u = v ∧ p.Feeds f.edges u u := by
  induction hpath with
  | @single v hfeeds =>
      by_cases hne : u = v
      · subst hne
        exact Or.inr ⟨rfl, hfeeds⟩
      · exact Or.inl (h.before_of_feeds hf hfeeds hne)
  | @tail v w _ hfeeds ih =>
      by_cases hne : v = w
      · subst hne
        exact ih
      · have hbefore := h.before_of_feeds hf hfeeds hne
        rcases ih with ih | ⟨rfl, -⟩
        · exact Or.inl (ih.trans hbefore)
        · exact Or.inl hbefore

end TypedFlow.Planned

namespace Registry

/-- A node of an accepted flow lies on a cycle of edges that close no loop exactly if one of these
edges leads from the node to itself. -/
theorem feeds_cycle_iff_self_edge {r : Registry} {flow : Flow} {start : Option String} {p : Plan}
    (h : r.resolve flow start = .ok p) (u : PlannedNode) :
    Relation.TransGen (p.Feeds flow.edges) u u ↔ p.Feeds flow.edges u u := by
  obtain ⟨f, id, loops, hedges, hf, hplanned⟩ := r.exists_planned_of_resolve_eq_ok h
  constructor
  · intro hcycle
    rw [← hedges] at hcycle ⊢
    exact ((hplanned.before_or_eq_of_path hf hcycle).resolve_left (Plan.Before.irrefl u)).2
  · exact .single

theorem no_cycle_in_crossingLevels :
    ∃ p, Standard.registry.resolve crossingLevels none = .ok p ∧
      ∀ u, ¬ Relation.TransGen (p.Feeds crossingLevels.edges) u u := by
  have hresolved : (Standard.registry.resolve crossingLevels none).toOption.isSome = true := by
    decide +kernel
  obtain ⟨p, hp⟩ := Option.isSome_iff_exists.mp hresolved
  have hok := eq_ok_of_toOption_eq_some hp
  refine ⟨p, hok, fun u hcycle => ?_⟩
  obtain ⟨-, -, e, he, hsource, htarget, -⟩ := (feeds_cycle_iff_self_edge hok u).mp hcycle
  have hne : ∀ e ∈ crossingLevels.edges, e.source ≠ e.target := by decide
  exact hne e he (hsource.trans htarget.symm)

def selfFed : Flow where
  nodes := [⟨"s", "start", .null⟩, ⟨"m", "merge", .null⟩]
  edges := [⟨"e1", "s", none, "m", none⟩, ⟨"e2", "m", none, "m", none⟩]

theorem selfFed_accepted :
    ∃ p, Standard.registry.resolve selfFed none = .ok p ∧
      ∃ u, Relation.TransGen (p.Feeds selfFed.edges) u u := by
  have hnodes : ((Standard.registry.resolve selfFed none).toOption.map fun p =>
      p.nodes.map fun n => (n.id, n.kind)) = some [("s", .entry), ("m", .regular)] := by
    decide +kernel
  obtain ⟨p, hp, heq⟩ := Option.map_eq_some_iff.mp hnodes
  obtain ⟨m, hm, hid⟩ : ∃ m ∈ p.nodes, (m.id, m.kind) = ("m", .regular) :=
    List.mem_map.mp (heq ▸ by simp)
  refine ⟨p, eq_ok_of_toOption_eq_some hp, m, .single ⟨hm, hm, ⟨"e2", "m", none, "m", none⟩, ?_⟩⟩
  obtain ⟨hid, -⟩ := Prod.mk.inj hid
  refine ⟨by simp [selfFed], hid.symm, hid.symm, ?_⟩
  rintro ⟨n, hn, hnid, handles, hkind, -⟩
  have hmem : (n.id, n.kind) ∈ [("s", NodeKind.entry), ("m", NodeKind.regular)] :=
    heq ▸ List.mem_map_of_mem hn
  rw [hkind] at hmem
  simp at hmem

end Registry

end FlowGraph
