import FlowGraph.Plan.Error
import FlowGraph.Registry

/-!
Flows whose nodes have been looked up in a registry: every node has a known type, data at the current
version, and handles. On them edges are checked and the start of a run is found.
-/

namespace FlowGraph

/-- A node with its type, its data at the current version and its handles. -/
structure TypedNode where
  id : String
  type : NodeType
  data : Json
  handles : Handles

def TypedNode.kind (n : TypedNode) : NodeKind := n.type.kind

/-- A flow with typed nodes. -/
structure TypedFlow where
  nodes : List TypedNode
  edges : List FlowEdge

namespace TypedFlow

def find? (f : TypedFlow) (id : String) : Option TypedNode :=
  f.nodes.find? (·.id = id)

/-- The handles of a loop, if the node with the id is one. -/
def loopHandles? (f : TypedFlow) (id : String) : Option LoopHandles :=
  (f.find? id).bind (·.kind.loopHandles?)

/-- The edges that enter a node, in the order of the flow. -/
def incoming (f : TypedFlow) (id : String) : List FlowEdge :=
  f.edges.filter (·.target = id)

/-- The edges that leave a node, in the order of the flow. -/
def outgoing (f : TypedFlow) (id : String) : List FlowEdge :=
  f.edges.filter (·.source = id)

/-- Types the nodes one after the other; `seen` are the ids of those before. -/
def typeNodes (registry : Registry) (seen : List String) :
    List FlowNode → Except ResolveError (List TypedNode)
  | [] => .ok []
  | n :: ns =>
    if n.id ∈ seen then .error (.graph (.duplicateNodeId n.id))
    else
      match registry.get? n.typeName with
      | none => .error (.graph (.unknownNodeType n.id n.typeName))
      | some type =>
        match type.describe n.id n.data with
        | .error e => .error (.schema e)
        | .ok view => do
          let rest ← typeNodes registry (n.id :: seen) ns
          return ⟨n.id, type, view.data, view.handles⟩ :: rest

/-- The node at an end of an edge, which may not be an annotation. -/
def endpoint (f : TypedFlow) (edgeId nodeId : String) : Except GraphError TypedNode :=
  match f.find? nodeId with
  | none => .error (.danglingEdge edgeId nodeId)
  | some n =>
    if n.kind = .visual then .error (.visualNodeConnected edgeId nodeId) else .ok n

/-- Checks that an edge joins two declared handles of compatible categories. -/
def checkEdge (f : TypedFlow) (e : FlowEdge) : Except GraphError Unit := do
  let source ← f.endpoint e.id e.source
  let target ← f.endpoint e.id e.target
  match source.handles.findOutput e.sourceHandle with
  | none => .error (.unknownHandle e.id e.source e.sourceHandle .output)
  | some output =>
    match target.handles.findInput e.targetHandle with
    | none => .error (.unknownHandle e.id e.target e.targetHandle .input)
    | some input =>
      if output.category.isCompatible input.category then .ok ()
      else .error (.incompatibleHandles e.id output.category input.category)

/-- Checks edges one after the other; `seen` are the ids of those before. -/
def checkEdges (f : TypedFlow) (seen : List String) : List FlowEdge → Except GraphError Unit
  | [] => .ok ()
  | e :: es => do
    if e.id ∈ seen then .error (.duplicateEdgeId e.id)
    else
      f.checkEdge e
      f.checkEdges (e.id :: seen) es

/-- The nodes where a run starts unless told otherwise. -/
def entries (f : TypedFlow) : List String :=
  (f.nodes.filter (·.kind = .entry)).map (·.id)

/-- The node where the run starts: the chosen one, or else the only entry. -/
def findStart (f : TypedFlow) : Option String → Except GraphError String
  | some id =>
    match f.nodes.find? fun n => n.id = id ∧ n.kind ≠ .visual with
    | some n => .ok n.id
    | none => .error (.startNotFound id)
  | none =>
    match f.entries with
    | [] => .error .missingStart
    | [id] => .ok id
    | ids => .error (.ambiguousStart ids)

end TypedFlow

end FlowGraph
