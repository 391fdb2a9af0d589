import FlowGraph.Node.Basic

/-!
Plans, flows made ready to be run. A plan holds the nodes that take part in a run, in the order of the
flow, each with the edges bound to its inputs and the loops around it; and for the top level and for
every loop the order in which its direct members run.
-/

namespace FlowGraph

/-- An edge bound to an input of a node. -/
structure Binding where
  /-- The key of the input. -/
  input : String
  source : String
  /-- The key of the output of the source. -/
  sourceHandle : String
  edgeId : String
  /-- Whether the edge closes the body of a loop. -/
  backEdge : Bool
deriving DecidableEq, Repr

/-- A node that takes part in a run. -/
structure PlannedNode where
  id : String
  typeName : String
  kind : NodeKind
  data : Json
  handles : Handles
  /-- In the order of the inputs, and for each of them in the order of the edges. -/
  bindings : List Binding
  /-- The loops around the node, the outermost one first. -/
  scope : List String
  executor : Executor

namespace PlannedNode

/-- The bindings whose values the node is given. -/
def forwardBindings (n : PlannedNode) : List Binding :=
  n.bindings.filter (!·.backEdge)

/-- The edge that closes the body of a loop, if there is one. -/
def backBinding (n : PlannedNode) : Option Binding :=
  n.bindings.find? (·.backEdge)

end PlannedNode

structure PlannedLoop where
  id : String
  /-- All nodes inside the loop, those inside nested loops included. -/
  body : List String
  /-- The nodes for which the loop is the nearest one around them, in the order in which they run. -/
  order : List String
deriving DecidableEq, Repr

/-- A flow made ready to be run. -/
structure Plan where
  start : String
  nodes : List PlannedNode
  /-- The nodes outside all loops, in the order in which they run. -/
  order : List String
  loops : List PlannedLoop

namespace Plan

def find? (p : Plan) (id : String) : Option PlannedNode :=
  p.nodes.find? (·.id = id)

/-- Whether a node takes part in the run. -/
def contains (p : Plan) (id : String) : Bool :=
  (p.find? id).isSome

/-- The loops around a node, the outermost one first. -/
def scope (p : Plan) (id : String) : List String :=
  match p.find? id with
  | some n => n.scope
  | none => []

def loop? (p : Plan) (id : String) : Option PlannedLoop :=
  p.loops.find? (·.id = id)

def body (p : Plan) (loopId : String) : List String :=
  match p.loop? loopId with
  | some l => l.body
  | none => []

/-- The direct members of the top level, or of a loop, in the order in which they run. -/
def region (p : Plan) : Option String → List String
  | none => p.order
  | some loopId =>
    match p.loop? loopId with
    | some l => l.order
    | none => []

/-- The nodes of a region, in the order in which they run. -/
def regionNodes (p : Plan) (region : Option String) : List PlannedNode :=
  (p.region region).filterMap p.find?

end Plan

end FlowGraph
