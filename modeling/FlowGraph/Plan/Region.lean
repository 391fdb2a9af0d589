import FlowGraph.Graph.Order
import FlowGraph.Plan.Scope

/-!
Regions, the parts of a flow that run as one pass: the top level, and the body of every loop. The
direct members of a region are the nodes for which its loop is the nearest one around them. In the
graph of a region a nested loop stands for all that lies in its body, and nodes outside the region
do not appear, because they are settled before the region runs.
-/

namespace FlowGraph.TypedFlow

/-- The direct member of a region that stands for a node with the given loops around it: the node
itself or the nested loop around it; none if the node lies outside the region. -/
def representative (region : Option String) (scope : List String) (id : String) : Option String :=
  match region with
  | none => some (scope.headD id)
  | some loopId =>
    match scope.findIdx? (· = loopId) with
    | some i => some (scope[i + 1]?.getD id)
    | none => none

def regionMembers (planned : List String) (loops : List LoopBody) (region : Option String) :
    List String :=
  planned.filter fun id => (scopeOf loops id).getLast? = region

/-- The arc that an edge is in the graph of a region, if it joins two different members. -/
def regionArc (members : List String) (loops : List LoopBody) (region : Option String)
    (e : FlowEdge) : Option (String × String) := do
  let source ← representative region (scopeOf loops e.source) e.source
  let target ← representative region (scopeOf loops e.target) e.target
  if source ≠ target ∧ source ∈ members ∧ target ∈ members then some (source, target) else none

/-- The graph of a region; its arcs follow the planned nodes that they come from, and then the order
of the flow. -/
def regionGraph (f : TypedFlow) (planned : List String) (loops : List LoopBody)
    (region : Option String) : Graph.Digraph String :=
  let members := regionMembers planned loops region
  let edges := planned.flatMap fun id => (f.outgoing id).filter fun e => !f.isBackEdge e
  let inPlan := edges.filter (·.target ∈ planned)
  ⟨members, inPlan.filterMap (regionArc members loops region)⟩

/-- The direct members of a region in the order in which they run. -/
def regionOrder (f : TypedFlow) (planned : List String) (loops : List LoopBody)
    (region : Option String) : Except GraphError (List String) :=
  let graph := f.regionGraph planned loops region
  match graph.culprit? with
  | some id => .error (.cycle id)
  | none => .ok graph.depthFirstOrder

end FlowGraph.TypedFlow
