import FlowGraph.Graph.Order
import Mathlib.Data.List.Nodup
import Mathlib.Data.List.Perm.Subperm
import Mathlib.Logic.Relation
import Mathlib.Tactic.Common

/-!
Depth-first traversal on any graph, then on graphs without cycles. A vertex is open while it has been
entered and is not finished. Exploring a vertex leaves the same vertices open as before, so what it
enters it also finishes, and an order lists every vertex once, from whatever roots. Every open vertex leads
to the one that is being explored. So when a vertex is finished, those of its successors that are not are on
a cycle with it.

Hence what `Digraph.culprit?` finds is on a cycle. Where it finds nothing, every vertex comes after its
predecessors in the order that it looks along; there is no cycle then, and `Digraph.depthFirstOrder`
lists every vertex once and before its successors.
-/

namespace FlowGraph.Graph

variable {α : Type} [DecidableEq α]

namespace Traversal

/-- Entered and not yet finished. -/
def Open (t : Traversal α) (v : α) : Prop := v ∈ t.seen ∧ v ∉ t.finished

/-- A traversal of the given vertices: nothing is entered or finished twice, and what is finished was
entered. -/
structure Sound (vertices : List α) (t : Traversal α) : Prop where
  seen_nodup : t.seen.Nodup
  seen_subset : t.seen ⊆ vertices
  finished_nodup : t.finished.Nodup
  finished_subset : t.finished ⊆ t.seen

/-- What exploring does to a traversal: it loses nothing and leaves the same vertices open. -/
structure Extends (before after : Traversal α) : Prop where
  seen : before.seen ⊆ after.seen
  finished : before.finished ⊆ after.finished
  opened : ∀ v, after.Open v ↔ before.Open v

omit [DecidableEq α] in
theorem Extends.refl (t : Traversal α) : Extends t t :=
  ⟨fun _ h => h, fun _ h => h, fun _ => Iff.rfl⟩

omit [DecidableEq α] in
theorem Extends.trans {a b c : Traversal α} (hab : Extends a b) (hbc : Extends b c) : Extends a c :=
  ⟨fun _ h => hbc.seen (hab.seen h), fun _ h => hbc.finished (hab.finished h),
    fun v => (hbc.opened v).trans (hab.opened v)⟩

omit [DecidableEq α] in
theorem sound_empty (vertices : List α) : Sound vertices {} :=
  ⟨List.nodup_nil, List.nil_subset _, List.nodup_nil, List.nil_subset _⟩

omit [DecidableEq α] in
/-- The traversal after a vertex was entered. -/
theorem Sound.enter {vertices : List α} {t : Traversal α} (ht : Sound vertices t) {v : α}
    (hmem : v ∈ vertices) (hv : v ∉ t.seen) : Sound vertices { t with seen := v :: t.seen } :=
  ⟨List.nodup_cons.mpr ⟨hv, ht.seen_nodup⟩, List.cons_subset.mpr ⟨hmem, ht.seen_subset⟩,
    ht.finished_nodup, fun _ h => List.mem_cons_of_mem _ (ht.finished_subset h)⟩

omit [DecidableEq α] in
theorem Sound.open_enter {vertices : List α} {t : Traversal α} (ht : Sound vertices t) {v : α}
    (hv : v ∉ t.seen) : Open { t with seen := v :: t.seen } v :=
  ⟨List.mem_cons_self, fun h => hv (ht.finished_subset h)⟩

omit [DecidableEq α] in
theorem Extends.length_le {vertices : List α} {before after : Traversal α} (h : Extends before after)
    (hbefore : Sound vertices before) : before.seen.length ≤ after.seen.length :=
  (List.subperm_of_subset hbefore.seen_nodup h.seen).length_le

omit [DecidableEq α] in
/-- Finishing the vertex that was entered brings back the open vertices from before. -/
theorem Extends.finish {t inner : Traversal α} {v : α} (hv : v ∉ t.seen)
    (h : Extends { t with seen := v :: t.seen } inner) :
    Extends t { inner with finished := v :: inner.finished } := by
  refine ⟨fun _ hw => h.seen (List.mem_cons_of_mem _ hw),
    fun _ hw => List.mem_cons_of_mem _ (h.finished hw), fun w => ?_⟩
  have hinner := h.opened w
  simp only [Open, List.mem_cons, not_or] at hinner ⊢
  by_cases hwv : w = v
  · subst hwv
    exact ⟨fun hw => absurd rfl hw.2.1, fun hw => absurd hw.1 hv⟩
  · simp only [hwv, false_or, not_false_eq_true, true_and] at hinner ⊢
    exact hinner

end Traversal

open Traversal

variable {next : α → List α} {vertices : List α}

omit [DecidableEq α] in
theorem mem_of_full {seen : List α} (hnodup : seen.Nodup) (hsub : seen ⊆ vertices)
    (hfull : vertices.length ≤ seen.length) {v : α} (hv : v ∈ vertices) : v ∈ seen :=
  ((List.subperm_of_subset hnodup hsub).perm_of_length_le hfull).mem_iff.mpr hv

omit [DecidableEq α] in
theorem reverse_subset (hnext : ∀ v ∈ vertices, next v ⊆ vertices) :
    ∀ v ∈ vertices, (next v).reverse ⊆ vertices :=
  fun v hv _ hw => hnext v hv (List.mem_reverse.mp hw)

/-- With this depth, exploring a vertex enters it and extends the traversal. -/
def Explores (next : α → List α) (vertices : List α) (depth : Nat) : Prop :=
  ∀ (t : Traversal α) (v : α), v ∈ vertices → Sound vertices t →
    vertices.length ≤ depth + t.seen.length →
    Sound vertices (explore next depth t v) ∧ Extends t (explore next depth t v) ∧
      v ∈ (explore next depth t v).seen

theorem Explores.foldl {depth : Nat} (h : Explores next vertices depth) (vs : List α)
    (t : Traversal α) (hvs : vs ⊆ vertices) (ht : Sound vertices t)
    (hdepth : vertices.length ≤ depth + t.seen.length) :
    Sound vertices (vs.foldl (explore next depth) t) ∧ Extends t (vs.foldl (explore next depth) t) ∧
      vs ⊆ (vs.foldl (explore next depth) t).seen := by
  induction vs generalizing t with
  | nil => exact ⟨ht, .refl t, List.nil_subset _⟩
  | cons v vs ih =>
      obtain ⟨hv, hvs⟩ := List.cons_subset.mp hvs
      obtain ⟨hsound, hext, hmem⟩ := h t v hv ht hdepth
      have hgrown := hext.length_le ht
      obtain ⟨hsound', hext', hmem'⟩ := ih _ hvs hsound (by omega)
      exact ⟨hsound', hext.trans hext', List.cons_subset.mpr ⟨hext'.seen hmem, hmem'⟩⟩

/-- Every level of depth takes a vertex off those that are not entered yet. -/
theorem explores (hnext : ∀ v ∈ vertices, next v ⊆ vertices) (depth : Nat) :
    Explores next vertices depth := by
  induction depth with
  | zero =>
      intro t v hv ht hdepth
      exact ⟨ht, .refl t, mem_of_full ht.seen_nodup ht.seen_subset (by omega) hv⟩
  | succ depth ih =>
      intro t v hv ht hdepth
      rw [explore]
      split_ifs with hseen
      · exact ⟨ht, .refl t, hseen⟩
      · obtain ⟨hsound, hext, -⟩ := ih.foldl (next v) { t with seen := v :: t.seen } (hnext v hv)
          (ht.enter hv hseen) (by simp only [List.length_cons]; omega)
        have hopen := (hext.opened v).mpr (ht.open_enter hseen)
        refine ⟨⟨hsound.seen_nodup, hsound.seen_subset,
          List.nodup_cons.mpr ⟨hopen.2, hsound.finished_nodup⟩,
          List.cons_subset.mpr ⟨hopen.1, hsound.finished_subset⟩⟩, hext.finish hseen, hopen.1⟩

/-- Vertices that are entered one after the other are all finished in the end, each once. -/
theorem finishOrder_spec (hnext : ∀ v ∈ vertices, next v ⊆ vertices) {starts : List α}
    (hstarts : starts ⊆ vertices) :
    (finishOrder next vertices.length starts).Nodup ∧
      finishOrder next vertices.length starts ⊆ vertices ∧
      starts ⊆ finishOrder next vertices.length starts := by
  obtain ⟨hsound, hext, hmem⟩ := (explores hnext vertices.length).foldl starts {} hstarts
    (sound_empty vertices) (by simp)
  refine ⟨hsound.finished_nodup, fun v hv => hsound.seen_subset (hsound.finished_subset hv), ?_⟩
  intro v hv
  by_contra hnot
  have hopen := (hext.opened v).mp ⟨hmem hv, hnot⟩
  exact List.not_mem_nil hopen.1

/-! ### Ways back -/

/-- Whether arcs lead from a vertex to another one, or the two are the same. -/
def Leads (next : α → List α) : α → α → Prop :=
  Relation.ReflTransGen fun v w => w ∈ next v

/-- All that follows a vertex comes later in the list, or leads back to the vertex. -/
def Returning (next : α → List α) : List α → Prop
  | [] => True
  | v :: vs => (∀ w ∈ next v, w ∈ vs ∨ Leads next w v) ∧ Returning next vs

omit [DecidableEq α] in
theorem Returning.append {us vs : List α} (h : Returning next (us ++ vs)) : Returning next vs := by
  induction us with
  | nil => exact h
  | cons u us ih => exact ih h.2

omit [DecidableEq α] in
theorem Returning.mem_or_leads {vs : List α} (h : Returning next vs) {v w : α} (hv : v ∈ vs)
    (hw : w ∈ next v) : w ∈ vs ∨ Leads next w v := by
  induction vs with
  | nil => exact absurd hv List.not_mem_nil
  | cons u vs ih =>
      rcases List.mem_cons.mp hv with rfl | hv
      · exact (h.1 w hw).imp_left fun hw => List.mem_cons_of_mem _ hw
      · exact (ih h.2 hv).imp_left fun hw => List.mem_cons_of_mem _ hw

/-- With this depth, exploring keeps the finished vertices returning, provided that every open vertex
leads to the explored one. -/
def ExploresReturning (next : α → List α) (vertices : List α) (depth : Nat) : Prop :=
  ∀ (t : Traversal α) (v : α), v ∈ vertices → Sound vertices t →
    vertices.length ≤ depth + t.seen.length → (∀ u, t.Open u → Leads next u v) →
    Returning next t.finished → Returning next (explore next depth t v).finished

theorem ExploresReturning.foldl {depth : Nat}
    (hnext : ∀ v ∈ vertices, next v ⊆ vertices) (h : ExploresReturning next vertices depth)
    (vs : List α) (t : Traversal α) (hvs : vs ⊆ vertices) (ht : Sound vertices t)
    (hdepth : vertices.length ≤ depth + t.seen.length)
    (hopen : ∀ v ∈ vs, ∀ u, t.Open u → Leads next u v) (hreturning : Returning next t.finished) :
    Returning next (vs.foldl (explore next depth) t).finished := by
  induction vs generalizing t with
  | nil => exact hreturning
  | cons v vs ih =>
      obtain ⟨hv, hvs⟩ := List.cons_subset.mp hvs
      obtain ⟨hsound, hext, -⟩ := explores hnext depth t v hv ht hdepth
      have hgrown := hext.length_le ht
      refine ih _ hvs hsound (by omega) (fun w hw u hu => ?_)
        (h t v hv ht hdepth (hopen v List.mem_cons_self) hreturning)
      exact hopen w (List.mem_cons_of_mem _ hw) u ((hext.opened u).mp hu)

theorem exploresReturning (hnext : ∀ v ∈ vertices, next v ⊆ vertices) (depth : Nat) :
    ExploresReturning next vertices depth := by
  induction depth with
  | zero => exact fun t _ _ _ _ _ hreturning => hreturning
  | succ depth ih =>
      intro t v hv ht hdepth hopen hreturning
      rw [explore]
      split_ifs with hseen
      · exact hreturning
      have hdepth' : vertices.length ≤ depth + (v :: t.seen).length := by
        simp only [List.length_cons]
        omega
      -- Open inside are the vertices that were open before, and the entered one.
      have hinside : ∀ u, Open { t with seen := v :: t.seen } u → Leads next u v := by
        rintro u ⟨humem, hufin⟩
        rcases List.mem_cons.mp humem with rfl | humem
        · exact .refl
        · exact hopen u ⟨humem, hufin⟩
      obtain ⟨-, hext, hmem⟩ := (explores hnext depth).foldl (next v) { t with seen := v :: t.seen }
        (hnext v hv) (ht.enter hv hseen) hdepth'
      refine ⟨fun w hw => ?_, ih.foldl hnext (next v) _ (hnext v hv) (ht.enter hv hseen) hdepth'
        (fun w hw u hu => (hinside u hu).tail hw) hreturning⟩
      by_cases hfinished : w ∈ ((next v).foldl (explore next depth) { t with seen := v :: t.seen }).finished
      · exact Or.inl hfinished
      · exact Or.inr (hinside w ((hext.opened w).mp ⟨hmem hw, hfinished⟩))

/-- An arc to a vertex that is finished later lies on a cycle. -/
theorem finishOrder_returning (hnext : ∀ v ∈ vertices, next v ⊆ vertices) {starts : List α}
    (hstarts : starts ⊆ vertices) : Returning next (finishOrder next vertices.length starts) :=
  (exploresReturning hnext vertices.length).foldl hnext starts {} hstarts (sound_empty vertices)
    (by simp) (fun _ _ _ hu => absurd hu.1 List.not_mem_nil) trivial

/-- All that follows a vertex comes later in the list. -/
def Ordered (next : α → List α) : List α → Prop
  | [] => True
  | v :: vs => next v ⊆ vs ∧ Ordered next vs

omit [DecidableEq α] in
theorem Ordered.sublist {vs : List α} (h : Ordered next vs) {v w : α} (hv : v ∈ vs)
    (hw : w ∈ next v) : [v, w].Sublist vs := by
  induction vs with
  | nil => exact absurd hv List.not_mem_nil
  | cons x vs ih =>
      rcases List.mem_cons.mp hv with rfl | hv
      · exact (List.singleton_sublist.mpr (h.1 hw)).cons_cons _
      · exact (ih h.2 hv).cons _

omit [DecidableEq α] in
/-- Where a rank rises along the arcs, nothing leads back. -/
theorem Leads.rank_le {rank : α → Nat} (hrank : ∀ v w, w ∈ next v → rank v < rank w) {v w : α}
    (h : Leads next v w) : rank v ≤ rank w := by
  induction h with
  | refl => exact Nat.le_refl _
  | tail _ hw ih => exact Nat.le_trans ih (Nat.le_of_lt (hrank _ _ hw))

omit [DecidableEq α] in
theorem Returning.ordered {rank : α → Nat} (hrank : ∀ v w, w ∈ next v → rank v < rank w)
    {vs : List α} (h : Returning next vs) : Ordered next vs := by
  induction vs with
  | nil => trivial
  | cons v vs ih =>
      refine ⟨fun w hw => (h.1 w hw).resolve_right fun hback => ?_, ih h.2⟩
      exact absurd (hback.rank_le hrank) (Nat.not_le.mpr (hrank v w hw))

/-! ### Digraphs -/

namespace Digraph

/-- Every vertex is listed once, and the arcs join vertices of the graph: what the arcs from the vertices
lead to is a table with one row for each vertex and no entry out of range. -/
structure WellFormed (g : Digraph α) : Prop where
  nodup : g.vertices.Nodup
  tail_mem : ∀ v w, (v, w) ∈ g.arcs → v ∈ g.vertices
  head_mem : ∀ v w, (v, w) ∈ g.arcs → w ∈ g.vertices

/-- The arcs join vertices of the graph, and no arc ends where it begins. -/
structure Proper (g : Digraph α) : Prop where
  tail_mem : ∀ v w, (v, w) ∈ g.arcs → v ∈ g.vertices
  head_mem : ∀ v w, (v, w) ∈ g.arcs → w ∈ g.vertices
  ne : ∀ v w, (v, w) ∈ g.arcs → v ≠ w

omit [DecidableEq α] in
theorem Proper.wellFormed {g : Digraph α} (hg : g.Proper) (hnodup : g.vertices.Nodup) : g.WellFormed :=
  ⟨hnodup, hg.tail_mem, hg.head_mem⟩


/-- If no vertex is late in an order, then every vertex of it comes after its predecessors. -/
theorem idxOf_lt_of_lateIn_eq_none (g : Digraph α) (before order : List α)
    (hnone : g.lateIn before order = none) {v w : α} (harc : (v, w) ∈ g.arcs) (hne : v ≠ w)
    (hv : v ∉ before) (hw : w ∈ order) : order.idxOf v < order.idxOf w := by
  induction order generalizing before with
  | nil => exact absurd hw List.not_mem_nil
  | cons x order ih =>
      rw [lateIn] at hnone
      split at hnone
      · exact absurd hnone (by simp)
      rename_i hlate
      have hx : w ≠ x := by
        rintro rfl
        have hpred := List.find?_eq_none.mp hlate v (mem_predecessors.mpr harc)
        simp [hne, hv] at hpred
      have hworder : w ∈ order := (List.mem_cons.mp hw).resolve_left hx
      by_cases hvx : v = x
      · subst hvx
        rw [List.idxOf_cons_self, List.idxOf_cons_ne _ hne]
        omega
      · rw [List.idxOf_cons_ne _ (Ne.symm hvx), List.idxOf_cons_ne _ (Ne.symm hx)]
        have := ih (x :: before) hnone (by simp [hvx, hv]) hworder
        omega

theorem successors_subset {g : Digraph α} (hg : ∀ v w, (v, w) ∈ g.arcs → w ∈ g.vertices) (v : α) :
    successors g.arcs v ⊆ g.vertices :=
  fun _ hw => hg _ _ (mem_successors.mp hw)

theorem exists_rank {g : Digraph α} (hg : g.Proper) (hnone : g.culprit? = none) :
    ∃ rank : α → Nat, ∀ v w, (v, w) ∈ g.arcs → rank v < rank w := by
  obtain ⟨-, -, hall⟩ := finishOrder_spec (fun v _ => successors_subset hg.head_mem v)
    (List.Subset.refl g.vertices)
  exact ⟨g.traversalOrder.idxOf, fun v w harc => g.idxOf_lt_of_lateIn_eq_none [] g.traversalOrder
    hnone harc (hg.ne v w harc) List.not_mem_nil (hall (hg.head_mem v w harc))⟩

/-- A predecessor that comes too late comes behind its successor in the order. -/
theorem exists_of_lateIn_eq_some {g : Digraph α} {before order : List α} {u : α}
    (h : g.lateIn before order = some u) : ∃ passed v rest, order = passed ++ v :: rest ∧
      (u, v) ∈ g.arcs ∧ u ≠ v ∧ u ∉ before ∧ u ∉ passed := by
  induction order generalizing before with
  | nil => exact absurd h (by simp [lateIn])
  | cons v order ih =>
      rw [lateIn] at h
      split at h
      next late hlate =>
        obtain rfl := Option.some.inj h
        have hnot : late ∉ v :: before := by simpa using List.find?_some hlate
        obtain ⟨hne, hbefore⟩ := List.ne_and_not_mem_of_not_mem_cons hnot
        exact ⟨[], v, order, rfl, mem_predecessors.mp (List.mem_of_find?_eq_some hlate), hne, hbefore,
          List.not_mem_nil⟩
      next hnone =>
        obtain ⟨passed, w, rest, rfl, harc, hne, hbefore, hpassed⟩ := ih h
        obtain ⟨huv, hbefore⟩ := List.ne_and_not_mem_of_not_mem_cons hbefore
        exact ⟨v :: passed, w, rest, rfl, harc, hne, hbefore, by simp [huv, hpassed]⟩

/-- Whether arcs lead from a vertex back to it. -/
def OnCycle (g : Digraph α) (v : α) : Prop :=
  Relation.TransGen (fun v w => (v, w) ∈ g.arcs) v v

omit [DecidableEq α] in
theorem rank_lt_of_transGen {g : Digraph α} {rank : α → Nat}
    (hrank : ∀ v w, (v, w) ∈ g.arcs → rank v < rank w) {v w : α}
    (h : Relation.TransGen (fun v w => (v, w) ∈ g.arcs) v w) : rank v < rank w := by
  induction h with
  | single harc => exact hrank _ _ harc
  | tail _ harc ih => exact Nat.lt_trans ih (hrank _ _ harc)

theorem leads_successors {g : Digraph α} {v w : α} (h : Leads (successors g.arcs) v w) :
    Relation.ReflTransGen (fun v w => (v, w) ∈ g.arcs) v w :=
  Relation.ReflTransGen.mono (fun _ _ hw => mem_successors.mp hw) _ _ h

/-- What comes too late is on a cycle: it was finished before its successor, so it was entered after it,
and arcs lead from the successor to it. -/
theorem onCycle_of_culprit? {g : Digraph α} (hg : g.Proper) {u : α} (h : g.culprit? = some u) :
    g.OnCycle u := by
  have hnext : ∀ v ∈ g.vertices, successors g.arcs v ⊆ g.vertices :=
    fun v _ => successors_subset hg.head_mem v
  obtain ⟨hnodup, -, hall⟩ := finishOrder_spec hnext (List.Subset.refl g.vertices)
  have hreturning := finishOrder_returning hnext (List.Subset.refl g.vertices)
  obtain ⟨passed, v, rest, hsplit, harc, hne, -, hpassed⟩ := exists_of_lateIn_eq_some h
  have hu := hall (hg.tail_mem u v harc)
  rw [traversalOrder] at hsplit
  rw [hsplit] at hu hnodup hreturning
  obtain ⟨hv, -⟩ := List.nodup_cons.mp (List.nodup_append.mp hnodup).2.1
  have hrest : u ∈ rest :=
    (List.mem_cons.mp ((List.mem_append.mp hu).resolve_left hpassed)).resolve_left hne
  have hback := (hreturning.append.2.mem_or_leads hrest (mem_successors.mpr harc)).resolve_left hv
  exact Relation.TransGen.head' harc (leads_successors hback)

/-- A vertex comes too late exactly if there is a cycle. -/
theorem culprit?_eq_none_iff {g : Digraph α} (hg : g.Proper) :
    g.culprit? = none ↔ ∀ v, ¬ g.OnCycle v := by
  constructor
  · intro hnone v hcycle
    obtain ⟨rank, hrank⟩ := exists_rank hg hnone
    exact absurd (rank_lt_of_transGen hrank hcycle) (Nat.lt_irrefl _)
  · intro hacyclic
    cases hculprit : g.culprit? with
    | none => rfl
    | some u => exact absurd (onCycle_of_culprit? hg hculprit) (hacyclic u)

/-- Where a rank rises along the arcs there is no cycle. -/
theorem culprit?_eq_none {g : Digraph α} (hg : g.Proper) {rank : α → Nat}
    (hrank : ∀ v w, (v, w) ∈ g.arcs → rank v < rank w) : g.culprit? = none :=
  (culprit?_eq_none_iff hg).mpr fun _ hcycle => Nat.lt_irrefl _ (rank_lt_of_transGen hrank hcycle)

theorem roots_subset (g : Digraph α) : g.roots ⊆ g.vertices :=
  fun _ hv => List.mem_of_mem_filter hv

omit [DecidableEq α] in
theorem starts_subset {g : Digraph α} {roots : List α} (hroots : roots ⊆ g.vertices) :
    roots.reverse ++ g.vertices.reverse ⊆ g.vertices :=
  List.append_subset.mpr
    ⟨fun _ hv => hroots (List.mem_reverse.mp hv), fun _ hv => List.mem_reverse.mp hv⟩

/-- From whatever roots, the depth-first order lists all vertices, each of them once. -/
theorem depthFirstFrom_perm {g : Digraph α} (hg : g.WellFormed) {roots : List α}
    (hroots : roots ⊆ g.vertices) : (g.depthFirstFrom roots).Perm g.vertices := by
  obtain ⟨hnodup, hsub, hall⟩ := finishOrder_spec
    (reverse_subset fun v _ => successors_subset hg.head_mem v) (starts_subset hroots)
  refine (List.perm_ext_iff_of_nodup hnodup hg.nodup).mpr fun v => ⟨fun hv => hsub hv, fun hv => ?_⟩
  exact hall (List.mem_append_right _ (List.mem_reverse.mpr hv))

theorem depthFirstOrder_perm {g : Digraph α} (hg : g.Proper) (hnodup : g.vertices.Nodup) :
    g.depthFirstOrder.Perm g.vertices :=
  depthFirstFrom_perm (hg.wellFormed hnodup) g.roots_subset

/-- Where no vertex comes too late, the depth-first order puts every vertex before its successors. -/
theorem depthFirstOrder_sublist {g : Digraph α} (hg : g.Proper) (hnodup : g.vertices.Nodup)
    (hnone : g.culprit? = none) {v w : α} (harc : (v, w) ∈ g.arcs) :
    [v, w].Sublist g.depthFirstOrder := by
  obtain ⟨rank, hrank⟩ := exists_rank hg hnone
  have hreturning : Returning (fun v => (successors g.arcs v).reverse) g.depthFirstOrder :=
    finishOrder_returning (reverse_subset fun v _ => successors_subset hg.head_mem v)
      (starts_subset g.roots_subset)
  have hordered := hreturning.ordered fun v w hw =>
    hrank v w (mem_successors.mp (List.mem_reverse.mp hw))
  refine hordered.sublist ?_ (List.mem_reverse.mpr (mem_successors.mpr harc))
  exact (depthFirstOrder_perm hg hnodup).mem_iff.mpr (hg.tail_mem v w harc)

end Digraph

end FlowGraph.Graph
