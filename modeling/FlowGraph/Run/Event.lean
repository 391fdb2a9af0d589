import FlowGraph.Node.Basic
import FlowGraph.Run.Notice

/-!
Events, which tell step by step what happens in a run. Some of them give rise to a notice.
-/

namespace FlowGraph

/-- Something that happens in a run. Durations count milliseconds. -/
inductive Event where
  | runStarted (startNode : String)
  | runCompleted (duration : Nat)
  /-- A node ended the run early. -/
  | runEnded (nodeId : String) (duration : Nat)
  | runFailed (nodeId error : String) (duration : Nat)
  | nodeStarted (nodeId typeName : String)
  | nodeCompleted (nodeId : String) (outputs : Outputs) (duration : Nat)
  | nodeSkipped (nodeId : String)
  | nodeFailed (nodeId error : String)
  /-- A loop enters one of its iterations. -/
  | loopIteration (nodeId : String) (index total : Nat)
  /-- A message of a node at work. -/
  | nodeEvent (nodeId : String) (event : NodeEvent)
deriving DecidableEq, Inhabited

namespace NodeEvent

def toJson : NodeEvent → Json
  | info message => .object [("event_type", .string "Info"), ("message", .string message)]
  | warning message => .object [("event_type", .string "Warning"), ("message", .string message)]

/-- The notice of a message of a node. -/
def notice (nodeId : String) : NodeEvent → Notice
  | info message => ⟨.info, "log", s!"[{nodeId}] {message}"⟩
  | warning message => ⟨.warning, "log", s!"[{nodeId}] {message}"⟩

end NodeEvent

namespace Event

/-- A number of milliseconds, in JSON. -/
def count (n : Nat) : Json :=
  match Number.ofInt? n with
  | some n => .number n
  | none => .null

def toJson : Event → Json
  | runStarted start => .object [("type", .string "RunStarted"), ("start_node", .string start)]
  | runCompleted duration =>
    .object [("type", .string "RunCompleted"), ("duration_ms", count duration)]
  | runEnded id duration =>
    .object [("type", .string "RunEnded"), ("node_id", .string id), ("duration_ms", count duration)]
  | runFailed id error duration =>
    .object [("type", .string "RunFailed"), ("node_id", .string id), ("error", .string error),
      ("duration_ms", count duration)]
  | nodeStarted id typeName =>
    .object [("type", .string "NodeStarted"), ("node_id", .string id),
      ("node_type", .string typeName)]
  | nodeCompleted id outputs duration =>
    .object [("type", .string "NodeCompleted"), ("node_id", .string id),
      ("outputs", .object (Value.toJsonFields outputs)), ("duration_ms", count duration)]
  | nodeSkipped id => .object [("type", .string "NodeSkipped"), ("node_id", .string id)]
  | nodeFailed id error =>
    .object [("type", .string "NodeFailed"), ("node_id", .string id), ("error", .string error)]
  | loopIteration id index total =>
    .object [("type", .string "LoopIteration"), ("node_id", .string id), ("index", count index),
      ("total", count total)]
  | nodeEvent id event =>
    .object [("type", .string "NodeEvent"), ("node_id", .string id), ("event", event.toJson)]

/-- The notice of an event, if its user is to hear of it. -/
def notice : Event → Option Notice
  | runStarted start => some ⟨.info, "run", s!"Flow started at node {start}"⟩
  | runCompleted duration => some ⟨.success, "run", s!"Flow completed in {duration}ms"⟩
  | runEnded id _ => some ⟨.success, "run", s!"Flow ended early at node {id}"⟩
  | runFailed id error _ => some ⟨.error, "run", s!"Flow failed at node {id}: {error}"⟩
  | nodeCompleted id _ duration => some ⟨.info, "node", s!"Node {id} completed in {duration}ms"⟩
  | nodeFailed id error => some ⟨.error, "node", s!"Node {id} failed: {error}"⟩
  | nodeEvent id event => some (event.notice id)
  | nodeStarted _ _ | nodeSkipped _ | loopIteration _ _ _ => none

/-- The variants of a message of a node, each as a message without a text. -/
def nodeEventVariants : List (String × (String → NodeEvent)) :=
  [("Info", .info), ("Warning", .warning)]

/-- The variant that a tag stands for, with its name; a number stands for the place of the variant. -/
def nodeEventVariant : Json → Except ReadError (String × (String → NodeEvent))
  | .string name => Reader.lookup (nodeEventVariants.map fun v => (v.1, v)) name
  | .number (.int n _) =>
    if n < 0 then .error .invalidType
    else
      match nodeEventVariants[n.toNat]? with
      | some v => .ok v
      | none => .error .invalidValue
  | _ => .error .invalidType

def messageRecord : Record String where
  name := "NodeEvent"
  fields := [.needed "message" .string fun message _ => message]
  initial := ""

/-- The message of a node that a JSON value holds: an object, or an array of the tag and the text. -/
def nodeEventOfJson (j : Json) : Except ReadError NodeEvent :=
  match j with
  | .object fields =>
    match Dict.get? fields "event_type" with
    | none => .error (.missingField "event_type")
    | some tag => do
      let (_, make) ← nodeEventVariant tag
      let message ← Reader.ofJson messageRecord.read j
      return make message
  | .array [] => .error (.missingField "event_type")
  | .array (tag :: parts) => do
    let (name, make) ← nodeEventVariant tag
    match parts with
    | [] => .error (.invalidLength 0 s!"struct variant NodeEvent::{name} with 1 element")
    | text :: more =>
      let message ← Reader.ofJson .string text
      if more.isEmpty then return make message
      else .error (.invalidLength parts.length "1 element in sequence")
  | _ => .error .invalidType

/-- All that an event may carry beside its tag. -/
structure Content where
  startNode : String := ""
  nodeId : String := ""
  typeName : String := ""
  error : String := ""
  outputs : Outputs := []
  event : NodeEvent := .info ""
  index : Nat := 0
  total : Nat := 0
  duration : Nat := 0

namespace Content

def startNodeField : RecordField Content :=
  .needed "start_node" .string fun startNode c => { c with startNode }

def nodeIdField : RecordField Content :=
  .needed "node_id" .string fun nodeId c => { c with nodeId }

def typeNameField : RecordField Content :=
  .needed "node_type" .string fun typeName c => { c with typeName }

def errorField : RecordField Content :=
  .needed "error" .string fun error c => { c with error }

def outputsField : RecordField Content :=
  .needed "outputs" (.dict .json) fun outputs c => { c with outputs := Value.ofJsonFields outputs }

/-- The field with the message of a node. -/
def eventField : RecordField Content :=
  .needed "event" (fun reading raw => do nodeEventOfJson (← Reader.json reading raw))
    fun event c => { c with event }

def indexField : RecordField Content :=
  .needed "index" .word fun index c => { c with index }

/-- The field with the number of iterations. -/
def totalField : RecordField Content :=
  .needed "total" .word fun total c => { c with total }

/-- The field with a number of milliseconds. -/
def durationField : RecordField Content :=
  .needed "duration_ms" .word fun duration c => { c with duration }

end Content

open Content in
/-- For every tag the fields of the event, and the event made of them. -/
def variants : List (String × List (RecordField Content) × (Content → Event)) :=
  [("RunStarted", [startNodeField], fun c => .runStarted c.startNode),
    ("RunCompleted", [durationField], fun c => .runCompleted c.duration),
    ("RunEnded", [nodeIdField, durationField], fun c => .runEnded c.nodeId c.duration),
    ("RunFailed", [nodeIdField, errorField, durationField],
      fun c => .runFailed c.nodeId c.error c.duration),
    ("NodeStarted", [nodeIdField, typeNameField], fun c => .nodeStarted c.nodeId c.typeName),
    ("NodeCompleted", [nodeIdField, outputsField, durationField],
      fun c => .nodeCompleted c.nodeId c.outputs c.duration),
    ("NodeSkipped", [nodeIdField], fun c => .nodeSkipped c.nodeId),
    ("NodeFailed", [nodeIdField, errorField], fun c => .nodeFailed c.nodeId c.error),
    ("LoopIteration", [nodeIdField, indexField, totalField],
      fun c => .loopIteration c.nodeId c.index c.total),
    ("NodeEvent", [nodeIdField, eventField], fun c => .nodeEvent c.nodeId c.event)]

def ofJson (j : Json) : Except ReadError Event :=
  match j with
  | .object fields =>
    match Dict.get? fields "type" with
    | none => .error (.missingField "type")
    | some (.string tag) => do
      let (fields, make) ← Reader.lookup variants tag
      let record : Record Content := ⟨tag, fields, {}⟩
      let content ← Reader.ofJson record.read j
      return make content
    | some _ => .error .invalidType
  | .array [] => .error (.missingField "type")
  | .array (.string tag :: _) => do
    let _ ← Reader.lookup variants tag
    .error .invalidType
  | _ => .error .invalidType

end Event

end FlowGraph
