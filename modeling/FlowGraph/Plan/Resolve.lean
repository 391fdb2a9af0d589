import FlowGraph.Plan.Basic
import FlowGraph.Plan.Region

/-!
From a flow to its plan, or to the first reason why there is none.
-/

namespace FlowGraph

namespace TypedFlow

/-- The binding of an edge to an input. -/
def bind (f : TypedFlow) (input : Handle) (e : FlowEdge) : Binding :=
  ⟨input.key, e.source, handleKey e.sourceHandle, e.id, f.isBackEdge e⟩

/-- Whether an input may take so many edges. -/
def checkCount (nodeId : String) (input : Handle) (count : Nat) : Except GraphError Unit :=
  if input.cardinality = .required ∧ count = 0 then .error (.missingInput nodeId input.id)
  else if input.cardinality ≠ .many ∧ 1 < count then
    .error (.tooManyInputs nodeId input.id count)
  else .ok ()

/-- The edges bound to the inputs of a node. -/
def bindInputs (f : TypedFlow) (nodeId : String) : List Handle → Except GraphError (List Binding)
  | [] => .ok []
  | input :: inputs => do
    let edges := (f.incoming nodeId).filter (·.targetHandle = input.id)
    checkCount nodeId input edges.length
    let rest ← f.bindInputs nodeId inputs
    return edges.map (f.bind input) ++ rest

/-- Data from which no executor can be made. -/
def creationError (nodeId : String) : NodeError → SchemaError
  | .invalidData field reason => .invalidField nodeId field reason
  | e => .invalidField nodeId "data" e.message

/-- Binds the inputs of a node and makes its executor. -/
def planNode (f : TypedFlow) (loops : List LoopBody) (n : TypedNode) :
    Except ResolveError PlannedNode :=
  match f.bindInputs n.id n.handles.inputs with
  | .error e => .error (.graph e)
  | .ok bindings =>
    match n.type.create n.data with
    | .error e => .error (.schema (creationError n.id e))
    | .ok executor =>
      .ok {
        id := n.id, typeName := n.type.name, kind := n.kind, data := n.data, handles := n.handles
        bindings, scope := scopeOf loops n.id, executor }

/-- The order of the body of every loop. -/
def planLoops (f : TypedFlow) (planned : List String) (all : List LoopBody) :
    List LoopBody → Except GraphError (List PlannedLoop)
  | [] => .ok []
  | l :: ls => do
    let order ← f.regionOrder planned all (some l.id)
    let rest ← f.planLoops planned all ls
    return ⟨l.id, l.body, order⟩ :: rest

/-- The order in which a flow is checked where it is held in sets: the set of the members, and that of the
loops among them. Sets have no order of their own, so of several errors any one may be found first. -/
structure SetOrder where
  members : List TypedNode → List TypedNode
  members_perm : ∀ nodes, (members nodes).Perm nodes
  loops : List LoopBody → List LoopBody
  loops_perm : ∀ ls, (loops ls).Perm ls

def SetOrder.listed : SetOrder := ⟨id, .refl, id, .refl⟩

/-- The loops of a flow that nest properly, with their bodies, in the order of the flow. -/
def nestedLoops (f : TypedFlow) (order : SetOrder) (members : List TypedNode) :
    Except GraphError (List LoopBody) := do
  let ordered := order.members members
  let loops := order.loops (← f.loopBodies ordered)
  checkNesting loops
  f.checkBackEdges (ordered.map (·.id)) loops
  checkLoopControls ordered loops
  return members.filterMap fun n => loops.find? (·.id = n.id)

/-- The plan of a flow whose edges have been checked. -/
def plan (f : TypedFlow) (order : SetOrder) (start : String) : Except ResolveError Plan := do
  let members := f.members start
  let planned := members.map (·.id)
  let loops ← (f.nestedLoops order members).mapError .graph
  let region ← (f.regionOrder planned loops none).mapError .graph
  let plannedLoops ← (f.planLoops planned loops loops).mapError .graph
  let nodes ← members.mapM (f.planNode loops)
  return ⟨start, nodes, region, plannedLoops⟩

end TypedFlow

namespace Registry

/-- The flow with typed nodes and checked edges. -/
def typeFlow (r : Registry) (flow : Flow) : Except ResolveError TypedFlow := do
  let nodes ← TypedFlow.typeNodes r [] flow.nodes
  let typed : TypedFlow := ⟨nodes, flow.edges⟩
  (typed.checkEdges [] flow.edges).mapError .graph
  return typed

/-- The plan of a flow; `start` is the node where its runs start, unless its only entry is meant. -/
def resolveIn (r : Registry) (order : TypedFlow.SetOrder) (flow : Flow) (start : Option String) :
    Except ResolveError Plan := do
  let typed ← r.typeFlow flow
  let start ← (typed.findStart start).mapError .graph
  typed.plan order start

/-- The plan of a flow that is checked in its own order. -/
def resolve (r : Registry) (flow : Flow) (start : Option String) : Except ResolveError Plan :=
  r.resolveIn .listed flow start

end Registry

end FlowGraph
