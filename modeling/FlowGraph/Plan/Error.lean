import FlowGraph.Category
import FlowGraph.Schema
import FlowGraph.Text.Quoted

/-!
Why a flow cannot be planned: the data of a node is refused, or the graph of the nodes and edges is
not one that can be run.
-/

namespace FlowGraph

inductive Side where
  | input
  | output
deriving DecidableEq, Repr

def Side.name : Side → String
  | input => "input"
  | output => "output"

/-- What is wrong with the graph of a flow. -/
inductive GraphError where
  | duplicateNodeId (nodeId : String)
  | duplicateEdgeId (edgeId : String)
  | unknownNodeType (nodeId typeName : String)
  /-- An edge names a node that is not there. -/
  | danglingEdge (edgeId nodeId : String)
  /-- An edge begins or ends at an annotation. -/
  | visualNodeConnected (edgeId nodeId : String)
  | unknownHandle (edgeId nodeId : String) (handle : Option String) (side : Side)
  | incompatibleHandles (edgeId : String) (source target : Category)
  | missingInput (nodeId : String) (handle : Option String)
  | tooManyInputs (nodeId : String) (handle : Option String) (count : Nat)
  | cycle (nodeId : String)
  | loopControlOutsideLoop (nodeId : String)
  | invalidLoopEdge (edgeId reason : String)
  | improperLoopNesting (outer inner : String)
  | missingStart
  | ambiguousStart (nodeIds : List String)
  | startNotFound (nodeId : String)
deriving DecidableEq, Repr

def GraphError.message : GraphError → String
  | duplicateNodeId id => s!"Duplicate node id: {id}"
  | duplicateEdgeId id => s!"Duplicate edge id: {id}"
  | unknownNodeType id typeName => s!"Node '{id}' has unknown node type '{typeName}'"
  | danglingEdge edge id => s!"Edge '{edge}' references missing node '{id}'"
  | visualNodeConnected edge id => s!"Edge '{edge}' connects visual node '{id}'"
  | unknownHandle edge id handle side =>
    s!"Edge '{edge}' uses undeclared {side.name} handle {Text.quoteOption handle} on node '{id}'"
  | incompatibleHandles edge source target =>
    s!"Edge '{edge}' connects incompatible handles: {source.name} -> {target.name}"
  | missingInput id handle =>
    s!"Node '{id}' is missing required input {Text.quoteOption handle}"
  | tooManyInputs id handle count =>
    s!"Node '{id}' input {Text.quoteOption handle} takes at most one edge, found {count}"
  | cycle id => s!"Cycle outside of a loop body involving node '{id}'"
  | loopControlOutsideLoop id => s!"Node '{id}' signals loop control outside of any loop"
  | invalidLoopEdge edge reason => s!"Invalid loop edge '{edge}': {reason}"
  | improperLoopNesting outer inner =>
    s!"Loop '{inner}' is not properly nested inside loop '{outer}'"
  | missingStart => "Flow has no start node"
  | ambiguousStart ids => s!"Flow has several start nodes: {Text.quoteList ids}"
  | startNotFound id => s!"Start node not found: {id}"

inductive ResolveError where
  | schema (error : SchemaError)
  | graph (error : GraphError)
deriving DecidableEq, Repr

end FlowGraph
