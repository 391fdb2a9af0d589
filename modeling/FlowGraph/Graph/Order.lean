import FlowGraph.Graph.Reach

/-!
Orders of the vertices of a directed graph by depth-first traversal. A vertex is finished when all
that can be reached from it has been; the vertices in the reverse order of finishing come before
their successors, provided that there is no cycle.

`Digraph.culprit?` looks along such an order for a vertex with a predecessor that has not come yet.
`Digraph.depthFirstOrder` explores roots and successors from the last to the first, so that in the
reverse order of finishing they follow each other as they are listed.
-/

namespace FlowGraph.Graph

variable {α : Type} [DecidableEq α]

/-- How far a traversal has come: the vertices that were entered, and those that are finished, the
latest one first. -/
structure Traversal (α : Type) where
  seen : List α := []
  finished : List α := []

/-- Enters a vertex that was not entered before, explores what follows it, and finishes it. No path
of new vertices is longer than their number, so `depth` need not exceed it. -/
def explore (next : α → List α) : (depth : Nat) → Traversal α → α → Traversal α
  | 0, t, _ => t
  | depth + 1, t, v =>
    if v ∈ t.seen then t
    else
      let inner := (next v).foldl (explore next depth) { t with seen := v :: t.seen }
      { inner with finished := v :: inner.finished }

/-- The vertices in the reverse order of finishing, when `starts` are entered one after the other. -/
def finishOrder (next : α → List α) (depth : Nat) (starts : List α) : List α :=
  (starts.foldl (explore next depth) {}).finished

/-- A directed graph. Its arcs join its vertices; two arcs may join the same ones. -/
structure Digraph (α : Type) where
  vertices : List α
  arcs : List (α × α)

namespace Digraph

/-- The vertices in the reverse order of finishing, entered as they are listed. -/
def traversalOrder (g : Digraph α) : List α :=
  finishOrder (successors g.arcs) g.vertices.length g.vertices

/-- The first predecessor that comes too late in an order: neither before its successor, nor as its
successor itself. -/
def lateIn (g : Digraph α) : (before order : List α) → Option α
  | _, [] => none
  | before, v :: order =>
    match (predecessors g.arcs v).find? fun u => u ∉ v :: before with
    | some u => some u
    | none => lateIn g (v :: before) order

/-- A vertex on a cycle, if there is a cycle of more than one vertex. -/
def culprit? (g : Digraph α) : Option α :=
  g.lateIn [] g.traversalOrder

/-- The vertices that no arc enters. -/
def roots (g : Digraph α) : List α :=
  g.vertices.filter fun v => (predecessors g.arcs v).isEmpty

/-- The vertices depth-first from the given roots, then the rest. -/
def depthFirstFrom (g : Digraph α) (roots : List α) : List α :=
  finishOrder (fun v => (successors g.arcs v).reverse) g.vertices.length
    (roots.reverse ++ g.vertices.reverse)

/-- The vertices depth-first from those that no arc enters. -/
def depthFirstOrder (g : Digraph α) : List α :=
  g.depthFirstFrom g.roots

end Digraph

end FlowGraph.Graph
