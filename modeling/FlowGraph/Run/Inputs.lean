import FlowGraph.Run.State

/-!
What a node finds at its inputs. A binding is live if its source has completed, in this pass or in one
around it, without choosing another of its outputs. A node is active if it has no bindings, or if some
binding is live and every required input has a live binding.
-/

namespace FlowGraph

/-- The completion of a node in the first of the frames that has one. -/
def lookup (frames : List Frame) (nodeId : String) : Option Completed :=
  frames.findSome? (Dict.get? · nodeId)

def isLive (frames : List Frame) (b : Binding) : Bool :=
  match lookup frames b.source with
  | none => false
  | some c =>
    match c.branch with
    | none => true
    | some handle => handle == b.sourceHandle

/-- The value that a live binding carries, if it carries one. -/
def liveValue (frames : List Frame) (b : Binding) : Option Value :=
  if isLive frames b then
    (lookup frames b.source).bind fun c => Dict.get? c.outputs b.sourceHandle
  else none

namespace PlannedNode

/-- The bindings of an input whose values the node is given. -/
def bindingsOf (n : PlannedNode) (input : Handle) : List Binding :=
  n.forwardBindings.filter (·.input = input.key)

/-- Whether a node is to be run. -/
def isActive (n : PlannedNode) (frames : List Frame) : Bool :=
  n.forwardBindings.isEmpty ||
    (n.forwardBindings.any (isLive frames) &&
      (n.handles.inputs.filter (·.cardinality = .required)).all fun input =>
        (n.bindingsOf input).any (isLive frames))

/-- Whether a value may arrive at an input. -/
def checkValue (input : Handle) (v : Value) : Except NodeError Unit :=
  if input.category.accepts v then .ok ()
  else .error (.invalidInputType input.key input.category.name v.typeName)

/-- What arrives at an input: all values in an array if it takes any number of edges, else the first
value or the default. -/
def inputValue (n : PlannedNode) (frames : List Frame) (input : Handle) :
    Except NodeError (Option Value) := do
  let bindings := n.bindingsOf input
  let values := bindings.filterMap (liveValue frames)
  if input.cardinality = .many then
    values.forM (checkValue input)
    return some (.array values)
  else
    match values.head? <|> input.default with
    | some v =>
      checkValue input v
      return some v
    | none =>
      if input.cardinality = .required ∧ bindings.any (isLive frames) then
        .error (.missingInput input.key)
      else return none

/-- The values at the inputs, added to those that were found before. -/
def inputValues (n : PlannedNode) (frames : List Frame) (sofar : Dict Value) :
    List Handle → Except NodeError (Dict Value)
  | [] => .ok sofar
  | input :: inputs => do
    match ← n.inputValue frames input with
    | some v => n.inputValues frames (Dict.insert sofar input.key v) inputs
    | none => n.inputValues frames sofar inputs

/-- The input values of a node by the keys of its inputs. -/
def resolveInputs (n : PlannedNode) (frames : List Frame) : Except NodeError (Dict Value) :=
  n.inputValues frames [] n.handles.inputs

end PlannedNode

end FlowGraph
