import FlowGraph.Graph.Reach
import FlowGraph.Plan.Typed

/-!
Which nodes take part in a run, and which nodes make up the body of a loop.

A back edge enters the `next` handle of a loop. The body of a loop is what its `body` output leads to
along edges that are not back edges. The nodes that take part are found in rounds: everything that
edges lead to from the start; then, until nothing is added, the sources of edges into the nodes found
so far and the bodies of the loops among them.
-/

namespace FlowGraph.TypedFlow

/-- Whether an edge closes the body of a loop. -/
def isBackEdge (f : TypedFlow) (e : FlowEdge) : Bool :=
  match f.loopHandles? e.target with
  | some loop => e.targetHandle == some loop.next
  | none => false

/-- Source and target of every edge. -/
def arcs (f : TypedFlow) : List (String × String) :=
  f.edges.map fun e => (e.source, e.target)

/-- The edges that close no loop. -/
def forwardEdges (f : TypedFlow) : List FlowEdge :=
  f.edges.filter fun e => !f.isBackEdge e

/-- Source and target of every edge that closes no loop. -/
def forwardArcs (f : TypedFlow) : List (String × String) :=
  f.forwardEdges.map fun e => (e.source, e.target)

/-- The nodes to which the `body` output of a loop leads directly; none if the node is no loop. -/
def bodyEntries (f : TypedFlow) (loopId : String) : List String :=
  match f.loopHandles? loopId with
  | some loop =>
    ((f.outgoing loopId).filter (·.sourceHandle = some loop.body)).map (·.target)
  | none => []

/-- The nodes from which edges lead into `members`, these included. -/
def sourcesInto (f : TypedFlow) (members : List String) : List String :=
  Graph.reach (Graph.reversed f.arcs) members []

/-- The first nodes of the bodies of the loops in `members` that are not in it yet. -/
def newEntries (f : TypedFlow) (members : List String) : List String :=
  (members.flatMap f.bodyEntries).filter (· ∉ members)

/-- One round: what leads into `members`, then what newly found bodies lead to. -/
def grow (f : TypedFlow) (members : List String) : List String :=
  let closed := f.sourcesInto members
  Graph.reach f.arcs (f.newEntries closed) closed

/-- Rounds until nothing is added, but at most so many. -/
def growAll (f : TypedFlow) : (rounds : Nat) → List String → List String
  | 0, members => members
  | rounds + 1, members =>
    let next := f.grow members
    if next.length = members.length then next else growAll f rounds next

/-- The ids of the nodes that take part in a run, as they were found. Every round but the last one
adds a node. -/
def found (f : TypedFlow) (start : String) : List String :=
  f.growAll (f.nodes.length + 1) (Graph.reach f.arcs [start] [])

/-- The nodes that take part in a run, in the order of the flow. -/
def members (f : TypedFlow) (start : String) : List TypedNode :=
  f.nodes.filter (·.id ∈ f.found start)

/-- A loop with its body, in the order of the flow. -/
structure LoopBody where
  id : String
  body : List String
deriving DecidableEq, Repr

/-- The nodes in the body of a loop, as they are found. -/
def reachBody (f : TypedFlow) (loopId : String) : List String :=
  Graph.reach f.forwardArcs (f.bodyEntries loopId) []

/-- The nodes in the body of a loop, in the order of the flow. -/
def bodyOf (f : TypedFlow) (loopId : String) : List String :=
  let inside := f.reachBody loopId
  (f.nodes.filter (·.id ∈ inside)).map (·.id)

/-- The body of a loop, which may contain neither the loop nor the target of an edge from another of
its outputs. -/
def loopBody (f : TypedFlow) (loopId : String) (loop : LoopHandles) : Except GraphError LoopBody :=
  let body := f.bodyOf loopId
  if loopId ∈ body then .error (.cycle loopId)
  else
    let stray := (f.outgoing loopId).find? fun e =>
      e.sourceHandle ≠ some loop.body ∧ e.target ∈ body
    match stray with
    | some e =>
      .error (.invalidLoopEdge e.id
        s!"output {Text.quoteOption e.sourceHandle} of loop '{loopId}' feeds the loop's own body")
    | none => .ok ⟨loopId, body⟩

/-- The bodies of the loops among the nodes. -/
def loopBodies (f : TypedFlow) : List TypedNode → Except GraphError (List LoopBody)
  | [] => .ok []
  | n :: ns =>
    match n.kind.loopHandles? with
    | none => f.loopBodies ns
    | some loop => do
      let body ← f.loopBody n.id loop
      let rest ← f.loopBodies ns
      return body :: rest

end FlowGraph.TypedFlow
