import FlowGraph.Handle
import FlowGraph.Node.Error
import FlowGraph.Schema

/-!
Node types, and what their nodes do when a run visits them.

What an executor does is a value: the messages it sends and the pauses it makes, in order, then its
result and the variables of the run after it. It follows from the context of the visit alone, so a
run can carry it out under a clock of its own, cut it short, or leave it out.
-/

namespace FlowGraph

/-- A message of a node while it works. -/
inductive NodeEvent where
  | info (message : String)
  | warning (message : String)
deriving DecidableEq, Repr

/-- Values by the keys of output handles. -/
abbrev Outputs := Dict Value

/-- What a visit ends in, unless it fails. -/
inductive NodeResult where
  /-- Values on the outputs. -/
  | outputs (values : Outputs)
  /-- Values on the outputs, of which only the edges that leave one handle are followed. -/
  | branch (handle : String) (values : Outputs)
  /-- The nearest enclosing loop ends. -/
  | loopBreak
  /-- The current iteration of the nearest enclosing loop ends. -/
  | loopContinue
  /-- The whole run ends, successfully. -/
  | flowEnd
deriving DecidableEq

/-- Which call of an executor it is. A run calls a node at most once in an iteration of the loops around
it, so no two calls of one run are the same. -/
structure Call where
  nodeId : String
  iteration : List Nat := []
deriving DecidableEq, Repr

instance : Coe String Call := ⟨(⟨·, []⟩)⟩

/-- What an executor is given. -/
structure Context where
  call : Call
  /-- The input values by the keys of input handles. -/
  inputs : Dict Value
  /-- The data of the node, at the current version. -/
  data : Json
  /-- The values that the run was started with. -/
  runInputs : Dict Value
  /-- The variables that all nodes of the run share. -/
  store : Dict Value

namespace Context

def requireInput (ctx : Context) (name : String) : Except NodeError Value :=
  match Dict.get? ctx.inputs name with
  | some v => .ok v
  | none => .error (.missingInput name)

/-- The value at the handle without an id, if there is one. -/
def mainInput (ctx : Context) : Option Value :=
  Dict.get? ctx.inputs unnamedKey

/-- The value at the handle without an id, or null. -/
def mainOrNull (ctx : Context) : Value :=
  ctx.mainInput.getD .null

def requireText (ctx : Context) (name : String) : Except NodeError String := do
  let value ← ctx.requireInput name
  match value.text? with
  | some s => return s
  | none => .error (.invalidInputType name "text" value.typeName)

/-- A number input that must be there. -/
def requireNumber (ctx : Context) (name : String) : Except NodeError Float := do
  let value ← ctx.requireInput name
  match value.number? with
  | some x => return x
  | none => .error (.invalidInputType name "number" value.typeName)

end Context

/-- Something that an executor does before its result is there. -/
inductive ActivityStep where
  | emit (event : NodeEvent)
  /-- A pause of so many milliseconds, which ends early when the run is cancelled. -/
  | sleep (millis : Nat)
deriving DecidableEq, Repr

/-- All that an executor does in one visit. -/
structure Activity where
  steps : List ActivityStep := []
  result : Except NodeError NodeResult
  /-- The variables of the run when the result is there. -/
  store : Dict Value

namespace Activity

/-- Ends at once, with the variables unchanged. -/
def ofResult (ctx : Context) (result : Except NodeError NodeResult) : Activity :=
  ⟨[], result, ctx.store⟩

/-- Ends at once with a value at the output without an id. -/
def main (ctx : Context) (value : Value) : Activity :=
  ofResult ctx (.ok (.outputs [(unnamedKey, value)]))

/-- Ends at once with a value at the output without an id, or an error. -/
def ofValue (ctx : Context) (value : Except NodeError Value) : Activity :=
  match value with
  | .ok v => main ctx v
  | .error e => ofResult ctx (.error e)

end Activity

/-- A node ready to be visited. -/
structure Executor where
  /-- The name by which the executor goes. -/
  typeName : String
  run : Context → Activity

/-- The handles of a loop. Its executor puts the whole collection on `body`, where the body of the
loop finds one element per iteration. Edges into `next` close the body; their values are collected
into `done`. -/
structure LoopHandles where
  collection : String
  body : String
  done : String
  next : String
deriving DecidableEq, Repr, Inhabited

/-- How flows treat the nodes of a type. -/
inductive NodeKind where
  | regular
  /-- Where a run starts. -/
  | entry
  /-- An annotation, which is neither run nor connected. -/
  | visual
  /-- Runs its body once per element of a collection. -/
  | loop (handles : LoopHandles)
  /-- Ends a loop or an iteration, so it must lie in the body of a loop. -/
  | loopControl
deriving DecidableEq, Repr, Inhabited

namespace NodeKind

/-- The handles of a loop, if the kind is one. -/
def loopHandles? : NodeKind → Option LoopHandles
  | loop handles => some handles
  | _ => none

def toJson : NodeKind → Json
  | regular => .object [("kind", .string "regular")]
  | entry => .object [("kind", .string "entry")]
  | visual => .object [("kind", .string "visual")]
  | loop handles =>
    .object [("kind", .string "loop"), ("collection", .string handles.collection),
      ("body", .string handles.body), ("done", .string handles.done), ("next", .string handles.next)]
  | loopControl => .object [("kind", .string "loopControl")]

end NodeKind

/-- How an editor presents a node type. -/
structure Metadata where
  label : String
  category : String
  description : String
deriving DecidableEq, Repr

/-- A node type. The handles of a node follow from its data, and so does its executor. -/
structure NodeType where
  name : String
  metadata : Metadata
  kind : NodeKind := .regular
  schema : Schema := .plain
  handles : Json → Handles
  create : Json → Except NodeError Executor

def textField (data : Json) (field : String) : Except NodeError String :=
  match (data.field? field).bind Json.string? with
  | some s => .ok s
  | none => .error (.invalidData field "expected a string")

def numberField (data : Json) (field : String) : Except NodeError Float :=
  match (data.field? field).bind Json.float? with
  | some x => .ok x
  | none => .error (.invalidData field "expected a number")

/-- A field that must hold a truth value. -/
def boolField (data : Json) (field : String) : Except NodeError Bool :=
  match (data.field? field).bind Json.bool? with
  | some b => .ok b
  | none => .error (.invalidData field "expected a boolean")

end FlowGraph
