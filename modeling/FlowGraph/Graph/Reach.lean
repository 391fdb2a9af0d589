/-!
What can be reached along the arcs of a directed graph, given as a list of pairs.

The walk keeps a list of pending vertices and a list of the vertices that it has seen. It expands
every vertex once, so an arc puts at most one vertex into the pending list, and the length of that
list plus the number of arcs bounds the number of steps.
-/

namespace FlowGraph.Graph

variable {α : Type} [DecidableEq α]

/-- The heads of the arcs that leave a vertex, in the order of the arcs. -/
def successors (arcs : List (α × α)) (v : α) : List α :=
  (arcs.filter (·.1 = v)).map (·.2)

/-- The tails of the arcs that enter a vertex, in the order of the arcs. -/
def predecessors (arcs : List (α × α)) (v : α) : List α :=
  (arcs.filter (·.2 = v)).map (·.1)

def reversed (arcs : List (α × α)) : List (α × α) :=
  arcs.map fun a => (a.2, a.1)

/-- Walks on from the pending vertices, for at most so many steps. -/
def walk (arcs : List (α × α)) : (steps : Nat) → (pending seen : List α) → List α
  | 0, _, seen => seen
  | _ + 1, [], seen => seen
  | steps + 1, v :: pending, seen =>
    if v ∈ seen then walk arcs steps pending seen
    else walk arcs steps (successors arcs v ++ pending) (v :: seen)

/-- The vertices in `seen`, and those to which arcs lead from `pending` without entering `seen`. -/
def reach (arcs : List (α × α)) (pending seen : List α) : List α :=
  walk arcs (pending.length + arcs.length) pending seen

@[simp] theorem mem_successors {arcs : List (α × α)} {v w : α} :
    w ∈ successors arcs v ↔ (v, w) ∈ arcs := by
  constructor
  · intro h
    obtain ⟨⟨a, b⟩, hab, rfl⟩ := List.mem_map.1 h
    obtain ⟨hmem, e⟩ := List.mem_filter.1 hab
    have e : a = v := by simpa using e
    exact e ▸ hmem
  · intro h
    exact List.mem_map.2 ⟨(v, w), List.mem_filter.2 ⟨h, by simp⟩, rfl⟩

@[simp] theorem mem_predecessors {arcs : List (α × α)} {v w : α} :
    w ∈ predecessors arcs v ↔ (w, v) ∈ arcs := by
  constructor
  · intro h
    obtain ⟨⟨a, b⟩, hab, rfl⟩ := List.mem_map.1 h
    obtain ⟨hmem, e⟩ := List.mem_filter.1 hab
    have e : b = v := by simpa using e
    exact e ▸ hmem
  · intro h
    exact List.mem_map.2 ⟨(w, v), List.mem_filter.2 ⟨h, by simp⟩, rfl⟩

omit [DecidableEq α] in
@[simp] theorem mem_reversed {arcs : List (α × α)} {v w : α} :
    (v, w) ∈ reversed arcs ↔ (w, v) ∈ arcs := by
  constructor
  · intro h
    obtain ⟨⟨a, b⟩, hab, e⟩ := List.mem_map.1 h
    obtain ⟨rfl, rfl⟩ := Prod.mk.inj e
    exact hab
  · intro h
    exact List.mem_map.2 ⟨(w, v), h, rfl⟩

end FlowGraph.Graph
