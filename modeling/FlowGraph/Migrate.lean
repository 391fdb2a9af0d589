import FlowGraph.Plan.Error
import FlowGraph.Registry

/-!
Bringing the data of nodes and flows to the current versions of their types.
-/

namespace FlowGraph.Registry

/-- The data of a node at the current version, and its handles. -/
def describeNode (r : Registry) (nodeId typeName : String) (data : Json) :
    Except ResolveError NodeView :=
  match r.describe nodeId typeName data with
  | none => .error (.graph (.unknownNodeType nodeId typeName))
  | some (.error e) => .error (.schema e)
  | some (.ok view) => .ok view

def handlesFor (r : Registry) (typeName : String) (data : Json) : Except ResolveError Handles :=
  (r.describeNode typeName typeName data).map (·.handles)

/-- A node with its data at the current version. -/
def migrateNode (r : Registry) (n : FlowNode) : Except ResolveError FlowNode :=
  (r.describeNode n.id n.typeName n.data).map fun view => { n with data := view.data }

/-- A flow with the data of all nodes at the current versions. -/
def migrateFlow (r : Registry) (f : Flow) : Except ResolveError Flow :=
  (f.nodes.mapM r.migrateNode).map fun nodes => { f with nodes }

end FlowGraph.Registry
