import FlowGraph.Proofs.Graph.TwoPasses

/-!
The depth-first order by a walk with a stack. The walk keeps, for every vertex on the way down from the
root, how many of its successors it has still to look at, and takes them from the last to the first. A
vertex is marked when it is pushed, so that it is never on the stack twice, and it is finished when none of
its successors is left. The roots are taken from the last to the first as well, and then the vertices of the
graph, for those that no root leads to.

The walk ends with any graph and any roots, cycles and repeated roots included, and the vertices in the
reverse order of finishing are those that `Digraph.depthFirstFrom` lists.
-/

namespace FlowGraph.Graph

variable {α : Type} [DecidableEq α]

/-- A walk on its way: the vertices where it has still to begin, the stack with its top first, and how far
the traversal has come. On the stack stands with every vertex the number of its successors that are left. -/
structure StackWalk (α : Type) where
  starts : List α
  stack : List (α × Nat)
  progress : Traversal α

namespace StackWalk

/-- Pushes a vertex with all of its successors left, and marks it. -/
def push (next : α → List α) (w : StackWalk α) (v : α) : StackWalk α :=
  { w with
    stack := (v, (next v).length) :: w.stack
    progress := { w.progress with seen := v :: w.progress.seen } }

/-- Looks at the top of the stack, or at the next start when the stack is empty. What is marked is passed
over. -/
def step (next : α → List α) : StackWalk α → Option (StackWalk α)
  | ⟨[], [], _⟩ => none
  | ⟨v :: starts, [], t⟩ =>
    if v ∈ t.seen then some ⟨starts, [], t⟩ else some (push next ⟨starts, [], t⟩ v)
  | ⟨starts, (v, 0) :: stack, t⟩ => some ⟨starts, stack, { t with finished := v :: t.finished }⟩
  | ⟨starts, (v, left + 1) :: stack, t⟩ =>
    (next v)[left]?.map fun w =>
      if w ∈ t.seen then ⟨starts, (v, left) :: stack, t⟩
      else push next ⟨starts, (v, left) :: stack, t⟩ w

/-- Whether one state of the walk leads to another one. -/
def Runs (next : α → List α) : StackWalk α → StackWalk α → Prop :=
  Relation.ReflTransGen fun p q => p.step next = some q

/-- A walk has one end. -/
theorem Runs.unique {next : α → List α} {w : StackWalk α} {t t' : Traversal α}
    (h : Runs next w ⟨[], [], t⟩) (h' : Runs next w ⟨[], [], t'⟩) : t = t' :=
  congrArg StackWalk.progress (halted_unique h h' rfl rfl)

end StackWalk

open Traversal StackWalk

section Exploring

variable {next : α → List α} {vertices : List α}

/-- With this depth, the walk takes a vertex that it has just pushed off the stack when it has explored it,
successors from the last to the first. -/
def WalkExplores (next : α → List α) (vertices : List α) (depth : Nat) : Prop :=
  ∀ (t : Traversal α) (v : α) (starts : List α) (stack : List (α × Nat)), v ∈ vertices →
    Sound vertices t → vertices.length ≤ depth + t.seen.length → v ∉ t.seen →
    Runs next (push next ⟨starts, stack, t⟩ v)
      ⟨starts, stack, explore (fun v => (next v).reverse) depth t v⟩

/-- The successors that are left are explored one after the other. -/
theorem WalkExplores.take {depth : Nat} (hnext : ∀ v ∈ vertices, next v ⊆ vertices)
    (h : WalkExplores next vertices depth) {v : α} (hv : v ∈ vertices) (starts : List α)
    (stack : List (α × Nat)) (left : Nat) (hleft : left ≤ (next v).length) (t : Traversal α)
    (ht : Sound vertices t) (hdepth : vertices.length ≤ depth + t.seen.length) :
    Runs next ⟨starts, (v, left) :: stack, t⟩ ⟨starts, (v, 0) :: stack,
      ((next v).take left).reverse.foldl (explore (fun v => (next v).reverse) depth) t⟩ := by
  induction left generalizing t with
  | zero => exact .refl
  | succ left ih =>
      have hget : (next v)[left]? = some (next v)[left] := List.getElem?_eq_getElem hleft
      have hw : (next v)[left] ∈ vertices := hnext v hv (List.getElem_mem hleft)
      rw [List.take_succ_eq_append_getElem hleft, List.reverse_concat, List.foldl_cons]
      by_cases hseen : (next v)[left] ∈ t.seen
      · rw [explore_of_mem hseen]
        refine Relation.ReflTransGen.head ?_ (ih (Nat.le_of_succ_le hleft) t ht hdepth)
        simp only [step, hget, Option.map_some, if_pos hseen]
      · obtain ⟨hsound, hext, -⟩ := explores (reverse_subset hnext) depth t (next v)[left] hw ht hdepth
        have hgrown := hext.length_le ht
        have hpush : step next ⟨starts, (v, left + 1) :: stack, t⟩ =
            some (push next ⟨starts, (v, left) :: stack, t⟩ (next v)[left]) := by
          simp only [step, hget, Option.map_some, if_neg hseen]
        have hrun := h t (next v)[left] starts ((v, left) :: stack) hw ht hdepth hseen
        exact Relation.ReflTransGen.head hpush
          (hrun.trans (ih (Nat.le_of_succ_le hleft) _ hsound (by omega)))

/-- The walk explores in the order of the recursive traversal. -/
theorem walkExplores (hnext : ∀ v ∈ vertices, next v ⊆ vertices) (depth : Nat) :
    WalkExplores next vertices depth := by
  induction depth with
  | zero =>
      intro t v starts stack hv ht hdepth hseen
      exact absurd (mem_of_full ht.seen_nodup ht.seen_subset (by omega) hv) hseen
  | succ depth ih =>
      intro t v starts stack hv ht hdepth hseen
      have hdepth' : vertices.length ≤ depth + (v :: t.seen).length := by
        simp only [List.length_cons]
        omega
      have hinner := ih.take hnext hv starts stack (next v).length (Nat.le_refl _)
        { t with seen := v :: t.seen } (ht.enter hv hseen) hdepth'
      rw [List.take_length] at hinner
      rw [explore, if_neg hseen]
      exact hinner.tail (by simp only [step])

/-- From all starts one after the other. -/
theorem runs_starts (hnext : ∀ v ∈ vertices, next v ⊆ vertices) (depth : Nat) (starts : List α)
    (t : Traversal α) (hstarts : starts ⊆ vertices) (ht : Sound vertices t)
    (hdepth : vertices.length ≤ depth + t.seen.length) :
    Runs next ⟨starts, [], t⟩
      ⟨[], [], starts.foldl (explore (fun v => (next v).reverse) depth) t⟩ := by
  induction starts generalizing t with
  | nil => exact .refl
  | cons v starts ih =>
      obtain ⟨hv, hstarts⟩ := List.cons_subset.mp hstarts
      rw [List.foldl_cons]
      by_cases hseen : v ∈ t.seen
      · rw [explore_of_mem hseen]
        exact Relation.ReflTransGen.head (by simp only [step, if_pos hseen]) (ih t hstarts ht hdepth)
      · obtain ⟨hsound, hext, -⟩ := explores (reverse_subset hnext) depth t v hv ht hdepth
        have hgrown := hext.length_le ht
        have hrun := walkExplores hnext depth t v starts [] hv ht hdepth hseen
        exact Relation.ReflTransGen.head (by simp only [step, if_neg hseen])
          (hrun.trans (ih _ hstarts hsound (by omega)))

end Exploring

namespace Digraph

/-- What the walk over a graph from the given roots lists: the vertices in the reverse order of
finishing. -/
def Walks (g : Digraph α) (roots order : List α) : Prop :=
  ∃ t, Runs (successors g.arcs) ⟨roots.reverse ++ g.vertices.reverse, [], {}⟩ ⟨[], [], t⟩ ∧
    t.finished = order

/-- The walk comes to an end, and lists the vertices in the depth-first order. -/
theorem walks_iff {g : Digraph α} (hg : g.WellFormed) {roots order : List α}
    (hroots : roots ⊆ g.vertices) : g.Walks roots order ↔ order = g.depthFirstFrom roots := by
  have hrun := runs_starts (fun v _ => successors_subset hg.head_mem v) g.vertices.length
    (roots.reverse ++ g.vertices.reverse) {} (starts_subset hroots) (sound_empty g.vertices) (by simp)
  constructor
  · rintro ⟨t, ht, rfl⟩
    obtain rfl := ht.unique hrun
    rfl
  · rintro rfl
    exact ⟨_, hrun, rfl⟩

end Digraph

end FlowGraph.Graph
