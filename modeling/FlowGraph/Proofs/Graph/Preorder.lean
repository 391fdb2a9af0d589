import FlowGraph.Proofs.Graph.StackWalk

/-!
The depth-first order of a forest. Where every vertex has at most one predecessor and there is no cycle, of
two vertices above a third one the one lies above the other; so the trees below different roots, and below
different successors of one vertex, have nothing in common. Exploring a tree then meets nothing that was
entered before, and puts its vertices in preorder before what was finished up to then. Since roots and
successors are explored from the last to the first, the trees stand in the order in which they are listed,
and the whole order is that of the recursive traversal.
-/

namespace FlowGraph.Graph

variable {α : Type} [DecidableEq α] {next : α → List α}

/-- Whether a list is what the recursive preorder traversal makes of some vertices: it visits them in order,
each of them followed by the traversal of those next to it. A traversal that does not end makes no list. -/
inductive InPreorder (next : α → List α) : List α → List α → Prop
  | nil : InPreorder next [] []
  | cons {v : α} {vs inner rest : List α} (hinner : InPreorder next (next v) inner)
      (hrest : InPreorder next vs rest) : InPreorder next (v :: vs) (v :: (inner ++ rest))

namespace InPreorder

variable {vs order : List α}

omit [DecidableEq α] in
/-- There is one preorder. -/
theorem unique {order' : List α} (h : InPreorder next vs order) (h' : InPreorder next vs order') :
    order = order' := by
  induction h generalizing order' with
  | nil =>
      cases h'
      rfl
  | cons _ _ ihinner ihrest =>
      cases h' with
      | cons hinner hrest => rw [ihinner hinner, ihrest hrest]

omit [DecidableEq α] in
/-- The traversal visits what the vertices lead to. -/
theorem mem_iff (h : InPreorder next vs order) {w : α} : w ∈ order ↔ ∃ v ∈ vs, Leads next v w := by
  induction h with
  | nil => simp
  | @cons v vs inner rest _ _ ihinner ihrest =>
      have hhead : Leads next v w ↔ w = v ∨ ∃ u ∈ next v, Leads next u w := by
        rw [Leads, Relation.ReflTransGen.cases_head_iff]
        exact or_congr_left eq_comm
      rw [List.mem_cons, List.mem_append, ihinner, ihrest, List.exists_mem_cons_iff, hhead, or_assoc]

omit [DecidableEq α] in
/-- The traversal of one vertex after the other. -/
theorem exists_of_forall (h : ∀ v ∈ vs, ∃ order, InPreorder next [v] order) :
    ∃ order, InPreorder next vs order := by
  induction vs with
  | nil => exact ⟨[], .nil⟩
  | cons v vs ih =>
      obtain ⟨⟨_, hv⟩, hvs⟩ := List.forall_mem_cons.mp h
      obtain ⟨rest, hrest⟩ := ih hvs
      cases hv with
      | cons hinner _ => exact ⟨_, .cons hinner hrest⟩

end InPreorder

/-! ### Exploring in preorder -/

namespace Traversal

/-- What is added to a traversal: the vertices of a list are entered, and put before what is finished. -/
structure Adds (before : Traversal α) (order : List α) (after : Traversal α) : Prop where
  finished : after.finished = order ++ before.finished
  seen : ∀ v, v ∈ after.seen ↔ v ∈ order ∨ v ∈ before.seen

variable {t t' t'' : Traversal α} {order : List α}

omit [DecidableEq α] in
theorem Adds.refl (t : Traversal α) : Adds t [] t :=
  ⟨rfl, fun v => by simp⟩

omit [DecidableEq α] in
/-- What is added later comes first. -/
theorem Adds.trans {order' : List α} (h : Adds t order t') (h' : Adds t' order' t'') :
    Adds t (order' ++ order) t'' :=
  ⟨by rw [h'.finished, h.finished, List.append_assoc],
    fun v => by rw [h'.seen, h.seen, List.mem_append, or_assoc]⟩

/-- A vertex that was not entered before is put before all that is added by exploring what follows it. -/
theorem Adds.enter {depth : Nat} {v : α} (hv : v ∉ t.seen)
    (h : Adds { t with seen := v :: t.seen } order
      ((next v).foldl (explore next depth) { t with seen := v :: t.seen })) :
    Adds t (v :: order) (explore next (depth + 1) t v) := by
  rw [explore, if_neg hv]
  refine ⟨congrArg (v :: ·) h.finished, fun w => ?_⟩
  rw [h.seen, List.mem_cons, List.mem_cons, or_left_comm, or_assoc]

end Traversal

/-- Exploring vertices from the last to the first adds their preorder, provided that no vertex stands in it
twice and none was entered before. -/
theorem InPreorder.adds {vs order : List α} (h : InPreorder next vs order) (hnodup : order.Nodup)
    {depth : Nat} (hdepth : order.length ≤ depth) (t : Traversal α) (hnew : ∀ v ∈ order, v ∉ t.seen) :
    t.Adds order (vs.reverse.foldl (explore (fun v => (next v).reverse) depth) t) := by
  induction h generalizing depth t with
  | nil => exact .refl t
  | @cons v vs inner rest _ _ ihinner ihrest =>
      obtain ⟨hv, hparts⟩ := List.nodup_cons.mp hnodup
      obtain ⟨hinner, hrest, hapart⟩ := List.nodup_append'.mp hparts
      obtain ⟨hvinner, hvrest⟩ := not_or.mp (mt List.mem_append.mpr hv)
      obtain ⟨hvnew, hnew⟩ := List.forall_mem_cons.mp hnew
      simp only [List.length_cons, List.length_append] at hdepth
      obtain ⟨depth, rfl⟩ : ∃ d, depth = d + 1 := ⟨depth - 1, by omega⟩
      rw [List.reverse_cons, List.foldl_concat]
      -- The later vertices come first; they leave this one and those below it alone.
      have hlater := ihrest hrest (show rest.length ≤ depth + 1 by omega) t
        fun w hw => hnew w (List.mem_append_right _ hw)
      generalize vs.reverse.foldl (explore (fun v => (next v).reverse) (depth + 1)) t = mid
        at hlater ⊢
      have hvmid : v ∉ mid.seen := fun hmem => ((hlater.seen v).mp hmem).elim hvrest hvnew
      have hbelow := ihinner hinner (show inner.length ≤ depth by omega) { mid with seen := v :: mid.seen }
        fun w hw hmem => by
          rcases List.mem_cons.mp hmem with rfl | hmem
          · exact hvinner hw
          · exact ((hlater.seen w).mp hmem).elim (hapart hw) (hnew w (List.mem_append_left _ hw))
      exact hlater.trans (hbelow.enter hvmid)

omit [DecidableEq α] in
/-- Where what follows every vertex comes later in a list, the traversal of its vertices ends. -/
theorem Ordered.exists_inPreorder {vs : List α} (h : Ordered next vs) {us : List α} (hus : us ⊆ vs) :
    ∃ order, InPreorder next us order := by
  induction vs generalizing us with
  | nil =>
      obtain rfl := List.subset_nil.mp hus
      exact ⟨[], .nil⟩
  | cons v vs ih =>
      refine InPreorder.exists_of_forall fun u hu => ?_
      rcases List.mem_cons.mp (hus hu) with rfl | hu
      · obtain ⟨inner, hinner⟩ := ih h.2 h.1
        exact ⟨_, .cons hinner .nil⟩
      · exact ih h.2 (List.cons_subset.mpr ⟨hu, List.nil_subset _⟩)

/-- What was entered before is passed over. -/
theorem foldl_explore_of_subset {depth : Nat} {t : Traversal α} {vs : List α} (hvs : vs ⊆ t.seen) :
    vs.foldl (explore next depth) t = t := by
  induction vs with
  | nil => rfl
  | cons v vs ih =>
      obtain ⟨hv, hvs⟩ := List.cons_subset.mp hvs
      rw [List.foldl_cons, explore_of_mem hv]
      exact ih hvs

theorem successors_append (arcs arcs' : List (α × α)) (v : α) :
    successors (arcs ++ arcs') v = successors arcs v ++ successors arcs' v := by
  simp only [successors, List.filter_append, List.map_append]

namespace Digraph

/-- The graph of a table, which lists for every vertex what follows it. -/
def ofTable (vertices : List α) (row : α → List α) : Digraph α :=
  ⟨vertices, vertices.flatMap fun v => (row v).map (v, ·)⟩

omit [DecidableEq α] in
theorem mem_arcs_ofTable {vertices : List α} {row : α → List α} {v w : α} :
    (v, w) ∈ (ofTable vertices row).arcs ↔ v ∈ vertices ∧ w ∈ row v := by
  simp [ofTable, and_left_comm]

/-- The rows of the table are what the arcs of its graph lead to, in the same order. -/
theorem successors_ofTable {vertices : List α} (hnodup : vertices.Nodup) (row : α → List α) {v : α}
    (hv : v ∈ vertices) : successors (ofTable vertices row).arcs v = row v := by
  obtain ⟨us, ws, rfl⟩ := List.append_of_mem hv
  obtain ⟨hnot, -⟩ := List.nodup_cons.mp (List.nodup_middle.mp hnodup)
  obtain ⟨hus, hws⟩ := not_or.mp (mt List.mem_append.mpr hnot)
  have hothers : ∀ vs : List α, v ∉ vs →
      successors (vs.flatMap fun u => (row u).map (u, ·)) v = [] := fun vs hvs =>
    List.eq_nil_iff_forall_not_mem.mpr fun w hw => hvs (mem_arcs_ofTable.mp (mem_successors.mp hw)).1
  have hrow : successors ((row v).map (v, ·)) v = row v := by
    simp [successors, List.filter_map, Function.comp_def]
  simp only [ofTable, List.flatMap_append, List.flatMap_cons, successors_append, hothers us hus,
    hothers ws hws, hrow, List.nil_append, List.append_nil]

omit [DecidableEq α] in
theorem wellFormed_ofTable {vertices : List α} (hnodup : vertices.Nodup) {row : α → List α}
    (hrow : ∀ v ∈ vertices, row v ⊆ vertices) : (ofTable vertices row).WellFormed :=
  ⟨hnodup, fun _ _ harc => (mem_arcs_ofTable.mp harc).1, fun v _ harc =>
    hrow v (mem_arcs_ofTable.mp harc).1 (mem_arcs_ofTable.mp harc).2⟩

end Digraph

/-! ### Forests -/

/-- Whether neither of two vertices leads to the other one. -/
def Apart (next : α → List α) (u v : α) : Prop := ¬ Leads next u v ∧ ¬ Leads next v u

namespace Digraph

variable {g : Digraph α}

theorem mem_roots {v : α} : v ∈ g.roots ↔ v ∈ g.vertices ∧ ∀ u, (u, v) ∉ g.arcs := by
  simp only [roots, List.mem_filter, List.isEmpty_iff, List.eq_nil_iff_forall_not_mem,
    mem_predecessors]

theorem WellFormed.mem_of_leads (hg : g.WellFormed) {v w : α} (hv : v ∈ g.vertices)
    (h : Leads (successors g.arcs) v w) : w ∈ g.vertices := by
  induction h with
  | refl => exact hv
  | tail _ hw _ => exact hg.head_mem _ _ (mem_successors.mp hw)

omit [DecidableEq α] in
/-- An arc from a vertex to itself is a cycle. -/
theorem WellFormed.proper (hg : g.WellFormed) (hacyclic : ∀ v, ¬ g.OnCycle v) : g.Proper :=
  ⟨hg.tail_mem, hg.head_mem, fun v _ harc heq => hacyclic v (.single (heq ▸ harc))⟩

/-- Trees side by side: no arc stands twice, no two arcs enter the same vertex, and there is no cycle. -/
structure IsForest (g : Digraph α) : Prop where
  nodup : ∀ v, (successors g.arcs v).Nodup
  tail_unique : ∀ u v w, (u, w) ∈ g.arcs → (v, w) ∈ g.arcs → u = v
  acyclic : ∀ v, ¬ g.OnCycle v

namespace IsForest

/-- Of two vertices above a third one, the one lies above the other. -/
theorem leads_or_leads (hg : g.IsForest) {u v w : α} (hu : Leads (successors g.arcs) u w)
    (hv : Leads (successors g.arcs) v w) :
    Leads (successors g.arcs) u v ∨ Leads (successors g.arcs) v u := by
  have hunique : Relator.RightUnique (Function.swap fun v w => w ∈ successors g.arcs v) :=
    fun _ _ _ hu hv => hg.tail_unique _ _ _ (mem_successors.mp hu) (mem_successors.mp hv)
  rcases Relation.ReflTransGen.total_of_right_unique hunique (Relation.reflTransGen_swap.mpr hu)
    (Relation.reflTransGen_swap.mpr hv) with h | h
  · exact Or.inr (Relation.reflTransGen_swap.mp h)
  · exact Or.inl (Relation.reflTransGen_swap.mp h)

/-- Nothing leads back along an arc. -/
theorem not_leads_back (hg : g.IsForest) {v w : α} (harc : (v, w) ∈ g.arcs) :
    ¬ Leads (successors g.arcs) w v :=
  fun hback => hg.acyclic v (Relation.TransGen.head' harc (leads_successors hback))

/-- Nothing leads from one successor of a vertex to another one: it would have to come by way of the
vertex. -/
theorem not_leads_across (hg : g.IsForest) {u v w : α} (hv : (u, v) ∈ g.arcs) (hw : (u, w) ∈ g.arcs)
    (hne : v ≠ w) : ¬ Leads (successors g.arcs) v w := by
  intro h
  rcases h.cases_tail with heq | ⟨x, hx, hxw⟩
  · exact hne heq.symm
  · obtain rfl := hg.tail_unique _ _ _ (mem_successors.mp hxw) hw
    exact hg.not_leads_back hv hx

theorem pairwise_successors (hg : g.IsForest) (v : α) :
    (successors g.arcs v).Pairwise (Apart (successors g.arcs)) := by
  refine (hg.nodup v).imp_of_mem fun hu hw hne => ?_
  have hu := mem_successors.mp hu
  have hw := mem_successors.mp hw
  exact ⟨hg.not_leads_across hu hw hne, hg.not_leads_across hw hu hne.symm⟩

end IsForest

theorem pairwise_roots (hnodup : g.vertices.Nodup) :
    g.roots.Pairwise (Apart (successors g.arcs)) := by
  have hnot : ∀ {u v : α}, v ∈ g.roots → u ≠ v → ¬ Leads (successors g.arcs) u v := by
    intro u v hv hne h
    rcases h.cases_tail with heq | ⟨x, -, hx⟩
    · exact hne heq.symm
    · exact (mem_roots.mp hv).2 x (mem_successors.mp hx)
  refine (hnodup.filter _).imp_of_mem fun hu hv hne => ?_
  exact ⟨hnot hv hne, hnot hu hne.symm⟩

/-- Below vertices that are apart no vertex stands twice. -/
theorem IsForest.nodup_inPreorder (hg : g.IsForest) {vs order : List α}
    (h : InPreorder (successors g.arcs) vs order) (hvs : vs.Pairwise (Apart (successors g.arcs))) :
    order.Nodup := by
  induction h with
  | nil => exact List.nodup_nil
  | @cons v vs inner rest hinner hrest ihinner ihrest =>
      obtain ⟨hv, hvs⟩ := List.pairwise_cons.mp hvs
      refine List.nodup_cons.mpr ⟨fun hmem => ?_, List.nodup_append'.mpr
        ⟨ihinner (hg.pairwise_successors v), ihrest hvs, fun w hw hw' => ?_⟩⟩
      · rcases List.mem_append.mp hmem with hmem | hmem
        · obtain ⟨u, hu, hback⟩ := hinner.mem_iff.mp hmem
          exact hg.not_leads_back (mem_successors.mp hu) hback
        · obtain ⟨u, hu, hleads⟩ := hrest.mem_iff.mp hmem
          exact (hv u hu).2 hleads
      · obtain ⟨u, hu, hleads⟩ := hinner.mem_iff.mp hw
        obtain ⟨u', hu', hleads'⟩ := hrest.mem_iff.mp hw'
        rcases hg.leads_or_leads (hleads.head hu) hleads' with h | h
        · exact (hv u' hu').1 h
        · exact (hv u' hu').2 h

/-- Without a cycle, every vertex lies below a root. -/
theorem exists_root (hg : g.WellFormed) {rank : α → Nat}
    (hrank : ∀ v w, (v, w) ∈ g.arcs → rank v < rank w) {v : α} (hv : v ∈ g.vertices) :
    ∃ u ∈ g.roots, Leads (successors g.arcs) u v := by
  induction hn : rank v using Nat.strongRecOn generalizing v with
  | _ n ih =>
      by_cases hroot : v ∈ g.roots
      · exact ⟨v, hroot, .refl⟩
      · obtain ⟨u, harc⟩ : ∃ u, (u, v) ∈ g.arcs := by
          by_contra hnone
          exact hroot (mem_roots.mpr ⟨hv, fun u harc => hnone ⟨u, harc⟩⟩)
        obtain ⟨root, hroot, hleads⟩ := ih (rank u) (hn ▸ hrank u v harc) (hg.tail_mem u v harc) rfl
        exact ⟨root, hroot, hleads.tail (mem_successors.mpr harc)⟩

/-- The traversal from the roots ends, and lists every vertex of the forest, each of them once. -/
theorem IsForest.exists_inPreorder (hg : g.WellFormed) (hforest : g.IsForest) :
    ∃ order, InPreorder (successors g.arcs) g.roots order ∧ order.Perm g.vertices := by
  have hproper := hg.proper hforest.acyclic
  obtain ⟨rank, hrank⟩ := exists_rank hproper ((culprit?_eq_none_iff hproper).mpr hforest.acyclic)
  have hnext : ∀ v ∈ g.vertices, successors g.arcs v ⊆ g.vertices :=
    fun v _ => successors_subset hg.head_mem v
  have hordered := (finishOrder_returning hnext (List.Subset.refl g.vertices)).ordered
    fun v w hw => hrank v w (mem_successors.mp hw)
  obtain ⟨-, -, hall⟩ := finishOrder_spec hnext (List.Subset.refl g.vertices)
  obtain ⟨order, horder⟩ := hordered.exists_inPreorder (List.Subset.trans g.roots_subset hall)
  have hnodup := hforest.nodup_inPreorder horder (pairwise_roots hg.nodup)
  refine ⟨order, horder, (List.perm_ext_iff_of_nodup hnodup hg.nodup).mpr fun v => ⟨fun hv => ?_,
    fun hv => horder.mem_iff.mpr (exists_root hg hrank hv)⟩⟩
  obtain ⟨u, hu, hleads⟩ := horder.mem_iff.mp hv
  exact hg.mem_of_leads (g.roots_subset hu) hleads

/-- The depth-first order of a forest is its preorder. -/
theorem IsForest.inPreorder_iff (hg : g.WellFormed) (hforest : g.IsForest) {order : List α} :
    InPreorder (successors g.arcs) g.roots order ↔ order = g.depthFirstOrder := by
  obtain ⟨found, hfound, hperm⟩ := hforest.exists_inPreorder hg
  have hadds := hfound.adds (hperm.nodup_iff.mpr hg.nodup) (Nat.le_of_eq hperm.length_eq) {} (by simp)
  have hrest : g.vertices.reverse ⊆
      (g.roots.reverse.foldl (explore (fun v => (successors g.arcs v).reverse) g.vertices.length)
        {}).seen :=
    fun v hv => (hadds.seen v).mpr (Or.inl (hperm.mem_iff.mpr (List.mem_reverse.mp hv)))
  have heq : g.depthFirstOrder = found := by
    rw [depthFirstOrder, depthFirstFrom, finishOrder, List.foldl_append,
      foldl_explore_of_subset hrest, hadds.finished, List.append_nil]
  rw [heq]
  exact ⟨fun h => h.unique hfound, fun h => h ▸ hfound⟩

/-- The depth-first order from given roots is what the walk over the graph lists, and holds every vertex
exactly once, whatever cycles there are and however often a root is given. In a forest, the order from the
vertices that no arc enters is the one in which the recursive traversal visits them, each of them followed
by what lies below its successors, as these are listed. -/
theorem depthFirst_complete_and_in_preorder (hg : g.WellFormed) :
    (∀ roots, roots ⊆ g.vertices →
      (∀ order, g.Walks roots order ↔ order = g.depthFirstFrom roots) ∧
        (g.depthFirstFrom roots).Perm g.vertices) ∧
    (g.IsForest → ∀ order,
      InPreorder (successors g.arcs) g.roots order ↔ order = g.depthFirstFrom g.roots) :=
  ⟨fun _ hroots => ⟨fun _ => walks_iff hg hroots, depthFirstFrom_perm hg hroots⟩,
    fun hforest _ => hforest.inPreorder_iff hg⟩

/-- Two trees, one of them with a branching. -/
def twoTrees : Digraph Nat :=
  ofTable (List.range 6) ([[1, 2], [3], [], [], [5], []].getD · [])

/-- A cycle with a shortcut, an arc that stands twice, and one from a vertex to itself. -/
def roundabout : Digraph Nat :=
  ofTable (List.range 3) ([[1, 1], [2, 0], [0, 2]].getD · [])

theorem isForest_twoTrees : twoTrees.IsForest where
  nodup v := by
    by_cases hv : v ∈ List.range 6
    · rw [twoTrees, successors_ofTable List.nodup_range _ hv]
      revert v
      decide
    · have hnone : successors twoTrees.arcs v = [] := List.eq_nil_iff_forall_not_mem.mpr fun w hw =>
        hv (mem_arcs_ofTable.mp (mem_successors.mp hw)).1
      rw [hnone]
      exact List.nodup_nil
  tail_unique u v w hu hv := by
    have hunique : ∀ a ∈ twoTrees.arcs, ∀ b ∈ twoTrees.arcs, a.2 = b.2 → a.1 = b.1 := by decide
    exact hunique _ hu _ hv rfl
  acyclic v hcycle := by
    have hrank : ∀ a ∈ twoTrees.arcs, a.1 < a.2 := by decide
    exact Nat.lt_irrefl v (rank_lt_of_transGen (fun v w harc => hrank (v, w) harc) hcycle)

/-- The trees are listed one after the other and branch by branch; the walk over the graph with cycles ends
as well, and lists every vertex once although a root is given twice. -/
theorem twoTrees_in_preorder :
    InPreorder (successors twoTrees.arcs) [0, 4] [0, 1, 3, 2, 4, 5] ∧
      roundabout.Walks [1, 1] [1, 2, 0] ∧ (roundabout.depthFirstFrom [1, 1]).Perm [0, 1, 2] := by
  have htrees : twoTrees.WellFormed := wellFormed_ofTable List.nodup_range (by decide)
  have hround : roundabout.WellFormed := wellFormed_ofTable List.nodup_range (by decide)
  obtain ⟨-, hpreorder⟩ := depthFirst_complete_and_in_preorder htrees
  obtain ⟨hwalks, hperm⟩ := (depthFirst_complete_and_in_preorder hround).1 [1, 1] (by decide)
  exact ⟨(hpreorder isForest_twoTrees _).mpr (by decide), (hwalks _).mpr (by decide), hperm⟩

end Digraph

end FlowGraph.Graph
