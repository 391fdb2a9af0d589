import FlowGraph.Proofs.Plan.Accepted
import Mathlib.Data.List.Perm.Subperm
import Mathlib.Data.List.Sort
import Mathlib.Data.String.Basic

/-!
The loops around a node form a chain. Where bodies nest properly and no loop lies in its own body, of
two loops around one node the one encloses the other, and then its body is the larger one. So the order
by size is the order of nesting, and a scope is a prefix of another one as soon as it has no gaps in it:
the scope of a loop is what stands before it in the scopes of the nodes inside, and what a forward edge
leads to lies in all the loops around its source, these being the outermost ones there.
-/

namespace FlowGraph.TypedFlow

/-- Whether a loop lies inside another one. -/
def LoopBody.Encloses (outer inner : LoopBody) : Prop := inner.id ∈ outer.body

/-- Loops that nest properly, none of them in its own body. -/
structure Nested (loops : List LoopBody) : Prop where
  nodup : (loops.map (·.id)).Nodup
  not_mem_self : ∀ l ∈ loops, l.id ∉ l.body
  body_nodup : ∀ l ∈ loops, l.body.Nodup
  proper : ∀ a ∈ loops, ∀ b ∈ loops, b.id ≠ a.id → improper a b = false

variable {loops : List LoopBody}

theorem Nested.eq_of_id_eq (h : Nested loops) {a b : LoopBody} (ha : a ∈ loops) (hb : b ∈ loops)
    (hid : a.id = b.id) : a = b :=
  List.inj_on_of_nodup_map h.nodup ha hb hid

theorem Nested.body_subset (h : Nested loops) {a b : LoopBody} (ha : a ∈ loops) (hb : b ∈ loops)
    (hab : a.Encloses b) : b.body ⊆ a.body ∧ ¬ b.Encloses a := by
  have hne : b.id ≠ a.id := fun hid => h.not_mem_self a ha (hid ▸ hab)
  have hproper := h.proper a ha b hb hne
  simp only [improper, if_pos (show b.id ∈ a.body from hab), Bool.or_eq_false_iff,
    decide_eq_false_iff_not, List.any_eq_false] at hproper
  exact ⟨fun x hx => by simpa using hproper.2 x hx, hproper.1⟩

theorem Nested.length_body_lt (h : Nested loops) {a b : LoopBody} (ha : a ∈ loops) (hb : b ∈ loops)
    (hab : a.Encloses b) : b.body.length < a.body.length := by
  have hnodup : (b.id :: b.body).Nodup :=
    List.nodup_cons.mpr ⟨h.not_mem_self b hb, h.body_nodup b hb⟩
  have hsub : b.id :: b.body ⊆ a.body := List.cons_subset.mpr ⟨hab, (h.body_subset ha hb hab).1⟩
  exact (List.subperm_of_subset hnodup hsub).length_le

/-- Of two loops around one node the one lies inside the other. -/
theorem Nested.encloses_or (h : Nested loops) {a b : LoopBody} (ha : a ∈ loops) (hb : b ∈ loops)
    (hne : a ≠ b) {id : String} (hida : id ∈ a.body) (hidb : id ∈ b.body) :
    a.Encloses b ∨ b.Encloses a := by
  by_cases hab : a.Encloses b
  · exact Or.inl hab
  · have hid : b.id ≠ a.id := fun hid => hne (h.eq_of_id_eq ha hb hid.symm)
    have hproper := h.proper a ha b hb hid
    simp only [improper, if_neg (show b.id ∉ a.body from hab), Bool.and_eq_false_iff,
      List.any_eq_false, Bool.not_eq_false', decide_eq_true_eq] at hproper
    exact Or.inr (hproper.resolve_left fun hany => hany id hida hidb)

theorem outerFirst_iff {a b : LoopBody} :
    outerFirst a b = true ↔
      b.body.length < a.body.length ∨ a.body.length = b.body.length ∧ a.id ≤ b.id := by
  simp [outerFirst]

theorem insertLoop_eq (l : LoopBody) (ms : List LoopBody) :
    insertLoop l ms = ms.orderedInsert (outerFirst · · = true) l := by
  induction ms with
  | nil => rfl
  | cons m ms ih =>
      rw [insertLoop, List.orderedInsert_cons, ih]

theorem sortLoops_eq (ls : List LoopBody) :
    sortLoops ls = ls.insertionSort (outerFirst · · = true) := by
  induction ls with
  | nil => rfl
  | cons l ls ih =>
      rw [List.insertionSort_cons, ← ih, ← insertLoop_eq]
      rfl

theorem pairwise_sortLoops (ls : List LoopBody) :
    (sortLoops ls).Pairwise (outerFirst · · = true) := by
  have : Std.Total (fun a b : LoopBody => outerFirst a b = true) := ⟨fun a b => by
    rcases lt_trichotomy a.body.length b.body.length with h | h | h
    · exact Or.inr (outerFirst_iff.mpr (Or.inl h))
    · rcases le_total a.id b.id with hid | hid
      · exact Or.inl (outerFirst_iff.mpr (Or.inr ⟨h, hid⟩))
      · exact Or.inr (outerFirst_iff.mpr (Or.inr ⟨h.symm, hid⟩))
    · exact Or.inl (outerFirst_iff.mpr (Or.inl h))⟩
  have : IsTrans LoopBody (outerFirst · · = true) := ⟨fun a b c hab hbc => by
    rw [outerFirst_iff] at hab hbc ⊢
    rcases hab with hab | ⟨hab, hid⟩ <;> rcases hbc with hbc | ⟨hbc, hid'⟩
    · exact Or.inl (by omega)
    · exact Or.inl (by omega)
    · exact Or.inl (by omega)
    · exact Or.inr ⟨by omega, hid.trans hid'⟩⟩
  rw [sortLoops_eq]
  exact List.pairwise_insertionSort _ _

theorem perm_sortLoops (ls : List LoopBody) : (sortLoops ls).Perm ls := by
  rw [sortLoops_eq]
  exact List.perm_insertionSort _ _

/-- The loops around a node with their bodies, the outermost one first. -/
def around (loops : List LoopBody) (id : String) : List LoopBody :=
  sortLoops (loops.filter (id ∈ ·.body))

theorem scopeOf_eq (loops : List LoopBody) (id : String) :
    scopeOf loops id = (around loops id).map (·.id) := rfl

@[simp] theorem mem_around {l : LoopBody} {id : String} :
    l ∈ around loops id ↔ l ∈ loops ∧ id ∈ l.body := by
  rw [around, (perm_sortLoops _).mem_iff, List.mem_filter, decide_eq_true_eq]

theorem mem_scopeOf {loopId id : String} :
    loopId ∈ scopeOf loops id ↔ ∃ l ∈ loops, l.id = loopId ∧ id ∈ l.body := by
  simp only [scopeOf_eq, List.mem_map, mem_around]
  exact ⟨fun ⟨l, ⟨hl, hid⟩, heq⟩ => ⟨l, hl, heq, hid⟩, fun ⟨l, hl, heq, hid⟩ => ⟨l, ⟨hl, hid⟩, heq⟩⟩

theorem Nested.nodup_around (h : Nested loops) (id : String) :
    ((around loops id).map (·.id)).Nodup := by
  have hfilter : ((loops.filter (id ∈ ·.body)).map (·.id)).Nodup :=
    h.nodup.sublist (List.filter_sublist.map _)
  exact (((perm_sortLoops _).map _).nodup_iff).mpr hfilter

/-- In a scope every loop encloses the ones after it. -/
theorem Nested.pairwise_around (h : Nested loops) (id : String) :
    (around loops id).Pairwise LoopBody.Encloses := by
  have hne : (around loops id).Pairwise (· ≠ ·) := (h.nodup_around id).of_map
  refine ((pairwise_sortLoops (loops.filter (id ∈ ·.body))).and hne).imp_of_mem ?_
  rintro a b ha hb ⟨hab, hne⟩
  obtain ⟨ha, hida⟩ := mem_around.mp ha
  obtain ⟨hb, hidb⟩ := mem_around.mp hb
  refine (h.encloses_or ha hb hne hida hidb).resolve_right fun hba => ?_
  have hlt := h.length_body_lt hb ha hba
  rw [outerFirst_iff] at hab
  omega

/-- A chain that leaves no gaps in another one is a prefix of it. -/
theorem prefix_of_pairwise {β : Type} {R : β → β → Prop} {xs ys : List β}
    (hasymm : ∀ a ∈ ys, ∀ b ∈ ys, R a b → ¬ R b a) (hxs : xs.Pairwise R) (hys : ys.Pairwise R)
    (hsub : xs ⊆ ys) (hdown : ∀ a ∈ ys, ∀ b ∈ xs, R a b → a ∈ xs) : xs <+: ys := by
  induction ys generalizing xs with
  | nil =>
      obtain rfl := List.subset_nil.mp hsub
      exact List.prefix_refl _
  | cons y ys ih =>
      cases xs with
      | nil => exact List.nil_prefix
      | cons x xs =>
          obtain ⟨hy, htail⟩ := List.pairwise_cons.mp hys
          obtain ⟨hx, hxs⟩ := List.pairwise_cons.mp hxs
          obtain ⟨hxmem, hsub⟩ := List.cons_subset.mp hsub
          have hirrefl : ∀ a ∈ ys, R y a → a ≠ y := by
            rintro a ha hya rfl
            exact hasymm a List.mem_cons_self a List.mem_cons_self hya hya
          -- The first of `ys` stands before everything in `xs`, so it is in `xs`, and first there.
          obtain rfl : x = y := by
            rcases List.mem_cons.mp hxmem with hxy | hxmem
            · exact hxy
            · have hyx := hy x hxmem
              rcases List.mem_cons.mp (hdown y List.mem_cons_self x List.mem_cons_self hyx) with
                hyx' | hyxs
              · exact hyx'.symm
              · exact absurd (hx y hyxs)
                  (hasymm y List.mem_cons_self x (List.mem_cons_of_mem _ hxmem) hyx)
          have hnot : ∀ a ∈ x :: ys, (∀ b, b ∈ xs → R x b) → a ∈ xs → a ∈ ys := by
            intro a ha hall hax
            rcases List.mem_cons.mp ha with rfl | ha
            · exact absurd (hall a hax)
                (hasymm a List.mem_cons_self a List.mem_cons_self (hall a hax))
            · exact ha
          refine (List.prefix_cons_inj x).mpr (ih ?_ hxs htail ?_ ?_)
          · exact fun a ha b hb => hasymm a (List.mem_cons_of_mem _ ha) b (List.mem_cons_of_mem _ hb)
          · exact fun a ha => hnot a (hsub ha) hx ha
          · intro a ha b hb hab
            have hmem := hdown a (List.mem_cons_of_mem _ ha) b (List.mem_cons_of_mem _ hb) hab
            exact (List.mem_cons.mp hmem).resolve_left (hirrefl a ha (hy a ha))

theorem Nested.asymm (h : Nested loops) (id : String) :
    ∀ a ∈ around loops id, ∀ b ∈ around loops id, a.Encloses b → ¬ b.Encloses a :=
  fun _ ha _ hb hab => (h.body_subset (mem_around.mp ha).1 (mem_around.mp hb).1 hab).2

/-- The scope of a loop, and then the loop, begin the scope of every node inside. -/
theorem Nested.concat_prefix_around (h : Nested loops) {l : LoopBody} (hl : l ∈ loops) {id : String}
    (hid : id ∈ l.body) : around loops l.id ++ [l] <+: around loops id := by
  refine prefix_of_pairwise (h.asymm id) ?_ (h.pairwise_around id) ?_ ?_
  · refine List.pairwise_append.mpr ⟨h.pairwise_around l.id, List.pairwise_singleton _ _, ?_⟩
    intro a ha b hb
    obtain rfl := List.mem_singleton.mp hb
    exact (mem_around.mp ha).2
  · intro a ha
    rcases List.mem_append.mp ha with ha | ha
    · obtain ⟨ha, hla⟩ := mem_around.mp ha
      exact mem_around.mpr ⟨ha, (h.body_subset ha hl hla).1 hid⟩
    · obtain rfl := List.mem_singleton.mp ha
      exact mem_around.mpr ⟨hl, hid⟩
  · intro a ha b hb hab
    have ha := (mem_around.mp ha).1
    refine List.mem_append_left _ (mem_around.mpr ⟨ha, ?_⟩)
    rcases List.mem_append.mp hb with hb | hb
    · obtain ⟨hb, hlb⟩ := mem_around.mp hb
      exact (h.body_subset ha hb hab).1 hlb
    · obtain rfl := List.mem_singleton.mp hb
      exact hab

/-- The scope of a node begins the scope of every node that lies in all the loops around it. -/
theorem Nested.prefix_around (h : Nested loops) {u v : String}
    (hmem : ∀ l ∈ loops, u ∈ l.body → v ∈ l.body) : around loops u <+: around loops v := by
  refine prefix_of_pairwise (h.asymm v) (h.pairwise_around u) (h.pairwise_around v) ?_ ?_
  · intro l hl
    obtain ⟨hl, hu⟩ := mem_around.mp hl
    exact mem_around.mpr ⟨hl, hmem l hl hu⟩
  · intro a ha b hb hab
    have ha := (mem_around.mp ha).1
    obtain ⟨hb, hu⟩ := mem_around.mp hb
    exact mem_around.mpr ⟨ha, (h.body_subset ha hb hab).1 hu⟩

theorem Nested.nodup_scopeOf (h : Nested loops) (id : String) : (scopeOf loops id).Nodup :=
  h.nodup_around id

/-- The scope of a loop is what stands before it in the scope of a node inside. -/
theorem Nested.scopeOf_getElem (h : Nested loops) (id : String) {k : Nat}
    (hk : k < (scopeOf loops id).length) :
    scopeOf loops (scopeOf loops id)[k] = (scopeOf loops id).take k := by
  obtain ⟨l, hl, hlk, hid⟩ := mem_scopeOf.mp (List.getElem_mem hk)
  have hprefix : scopeOf loops l.id ++ [l.id] <+: scopeOf loops id := by
    simpa only [scopeOf_eq, List.map_append, List.map_singleton] using
      (h.concat_prefix_around hl hid).map (·.id)
  obtain ⟨rest, hrest⟩ := hprefix
  have hlength : (scopeOf loops l.id).length < (scopeOf loops id).length := by
    rw [← hrest]
    simp only [List.length_append, List.length_singleton]
    omega
  have hat : (scopeOf loops id)[(scopeOf loops l.id).length] = l.id := by
    simp only [← hrest, List.append_assoc, List.getElem_append_right (Nat.le_refl _)]
    simp
  obtain rfl : (scopeOf loops l.id).length = k :=
    (h.nodup_scopeOf id).getElem_inj_iff.mp (hat.trans hlk)
  rw [← hlk]
  conv_rhs => rw [← hrest, List.append_assoc]
  exact (List.take_left).symm

/-- What stands for a node among the direct members of a region around it: at level `k`, the node's
`k`-th loop, or the node itself. -/
theorem Nested.scopeOf_getD (h : Nested loops) (id : String) (k : Nat) :
    scopeOf loops ((scopeOf loops id)[k]?.getD id) = (scopeOf loops id).take k := by
  rcases Nat.lt_or_ge k (scopeOf loops id).length with hlt | hge
  · rw [List.getElem?_eq_getElem hlt, Option.getD_some]
    exact h.scopeOf_getElem id hlt
  · rw [List.getElem?_eq_none hge, Option.getD_none, List.take_of_length_le hge]

theorem Nested.not_mem_scopeOf_self (h : Nested loops) (id : String) : id ∉ scopeOf loops id := by
  intro hmem
  obtain ⟨l, hl, rfl, hid⟩ := mem_scopeOf.mp hmem
  exact h.not_mem_self l hl hid

/-- What stands before something in a scope is the id of a loop in whose body it lies. -/
theorem Nested.pairwise_scopeOf (h : Nested loops) (id : String) :
    (scopeOf loops id).Pairwise fun a b => ∃ l ∈ loops, l.id = a ∧ b ∈ l.body := by
  rw [scopeOf_eq, List.pairwise_map]
  refine (h.pairwise_around id).imp_of_mem ?_
  intro a b ha _ hab
  exact ⟨a, (mem_around.mp ha).1, rfl, hab⟩

/-- The same loops lie around something in the same order, if they lie around it at all and their bodies
have got no larger. -/
theorem Nested.scopeOf_eq_of_mem_iff {loops' : List LoopBody} (h : Nested loops) (h' : Nested loops') {id : String}
    (hmem : ∀ loopId, loopId ∈ scopeOf loops id ↔ loopId ∈ scopeOf loops' id)
    (hbody : ∀ l' ∈ loops', ∃ l ∈ loops, l'.id = l.id ∧ l'.body ⊆ l.body) :
    scopeOf loops id = scopeOf loops' id := by
  have hpairwise : (scopeOf loops' id).Pairwise fun a b => ∃ l ∈ loops, l.id = a ∧ b ∈ l.body := by
    refine (h'.pairwise_scopeOf id).imp ?_
    rintro _ b ⟨l', hl', rfl, hb⟩
    obtain ⟨l, hl, heq, hsub⟩ := hbody l' hl'
    exact ⟨l, hl, heq.symm, hsub hb⟩
  have hperm : (scopeOf loops id).Perm (scopeOf loops' id) :=
    (List.perm_ext_iff_of_nodup (h.nodup_scopeOf id) (h'.nodup_scopeOf id)).mpr hmem
  refine List.Perm.eq_of_pairwise ?_ (h.pairwise_scopeOf id) hpairwise hperm
  rintro _ _ - - ⟨a, ha, rfl, hab⟩ ⟨b, hb, rfl, hba⟩
  exact absurd hba (h.body_subset ha hb hab).2

end FlowGraph.TypedFlow
