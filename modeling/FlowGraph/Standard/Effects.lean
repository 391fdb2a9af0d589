import FlowGraph.Http.Client
import FlowGraph.Json.Decode
import FlowGraph.Text.Quoted
import FlowGraph.Text.Upper

/-!
The node types with an effect outside the flow: `log`, `delay` and `httpRequest`.
-/

namespace FlowGraph.Standard

open Http

def validateLevel (payload : Dict Json) : Except FieldIssue Unit :=
  let level := (Dict.get? payload "level").bind Json.string?
  if level = some "info" ∨ level = some "warning" then .ok ()
  else .error ⟨"level", s!"expected info or warning, got {Text.quoteOption level}"⟩

def logText (message : String) (value : Value) : String :=
  if message.isEmpty then value.display
  else if value.isNull then message
  else s!"{message}: {value.display}"

/-- Reports its input and passes it on. -/
def log : NodeType where
  name := "log"
  metadata := ⟨"Log", "debug", "Report a value while the flow runs"⟩
  schema :=
    ((Schema.plain.field "message" .string (.string "")).field "level" .string
      (.string "info")).checkedBy validateLevel
  handles := fun _ =>
    { inputs := [.unnamed .any .optional], outputs := [.unnamedOutput .any] }
  create := fun data => do
    let message ← textField data "message"
    let level ← textField data "level"
    return ⟨"log", fun ctx =>
      let value := ctx.mainOrNull
      let text := logText message value
      { Activity.main ctx value with
        steps := [.emit (if level = "warning" then .warning text else .info text)] }⟩

def validateMillis (payload : Dict Json) : Except FieldIssue Unit :=
  match (Dict.get? payload "ms").bind Json.float? with
  | some ms =>
    if 0.0 ≤ ms && ms.isFinite then .ok ()
    else .error ⟨"ms", "delay must be a non-negative number"⟩
  | none => .error ⟨"ms", "delay must be a non-negative number"⟩

def delay : NodeType where
  name := "delay"
  metadata := ⟨"Delay", "time", "Delay execution for specified milliseconds"⟩
  schema :=
    (Schema.plain.field "ms" .number (.ofUInt32 1000)).checkedBy validateMillis
  handles := fun _ =>
    { inputs := [.unnamed .any .optional], outputs := [.unnamedOutput .any] }
  create := fun data => do
    let ms ← numberField data "ms"
    let millis := ms.toUInt64.toNat
    return ⟨"delay", fun ctx =>
      { Activity.main ctx ctx.mainOrNull with
        steps := [.emit (.info s!"Delaying for {millis}ms"), .sleep millis] }⟩

/-- Version 1 took the method in any case. -/
def migrateMethodCase (payload : Dict Json) : Except String (Dict Json) :=
  match Dict.get? payload "method" with
  | some (.string method) =>
    .ok (Dict.insert payload "method" (.string (Text.upper (Text.trim method))))
  | _ => .ok payload

/-- Checks the method and the headers of a request. -/
def validateRequest (payload : Dict Json) : Except FieldIssue Unit :=
  let method := ((Dict.get? payload "method").bind Json.string?).getD ""
  if method ∉ methods then .error ⟨"method", s!"unsupported method '{method}'"⟩
  else
    match Dict.get? payload "headers" with
    | some (.object headers) =>
      match headers.find? fun h => h.2.string?.isNone with
      | some h => .error ⟨"headers", s!"header '{h.1}' must be a string"⟩
      | none => .ok ()
    | _ => .ok ()

/-- What a request carries: the text at the input `body`, or the value there as JSON. -/
def requestBody (ctx : Context) : Body :=
  match Dict.get? ctx.inputs "body" with
  | some (.text s) => .text s
  | none | some .null => .empty
  | some v => .json v

/-- The value of the text of an answer. -/
def bodyValue (text : String) : Value :=
  match Json.parse text with
  | .ok j => .ofJson j
  | .error _ => .text text

def responseOutputs (response : Response) : Outputs :=
  [("body", bodyValue response.body),
    ("headers", .object (Dict.ofList (response.headers.map fun h => (h.1, .text (h.2.getD ""))))),
    ("status", .number response.status.toFloat)]

/-- What a request does; an address at the input goes before that of the data. -/
def sendRequest (client : Client) (method url : String) (headers : List (String × String))
    (ctx : Context) : Activity :=
  let url := ((Dict.get? ctx.inputs "url").bind Value.text?).getD url
  if url.isEmpty then .ofResult ctx (.error (.configuration "no URL configured"))
  else
    let (pauses, reply) := client.send ctx.call ⟨method, url, headers, requestBody ctx⟩
    let steps := .emit (.info s!"{method} {url}") :: pauses.map .sleep
    match reply with
    | .failed reason =>
      ⟨steps, .error (.executionFailed s!"HTTP request failed: {reason}"), ctx.store⟩
    | .unreadable reason =>
      ⟨steps, .error (.executionFailed s!"Failed to read response: {reason}"), ctx.store⟩
    | .answered response =>
      ⟨steps ++ [.emit (.info s!"Response status: {response.status}")],
        .ok (.outputs (responseOutputs response)), ctx.store⟩

/-- The headers of the data that are texts. -/
def headersOf (data : Json) : List (String × String) :=
  match data.field? "headers" with
  | some (.object headers) => headers.filterMap fun h => h.2.string?.map fun v => (h.1, v)
  | _ => []

/-- The name of the type that sends requests. -/
def requestType : String := "httpRequest"

def httpRequest (client : Client) : NodeType where
  name := requestType
  metadata := ⟨"HTTP Request", "http", "Make HTTP requests"⟩
  schema :=
    (((((Schema.ofVersion 2).field "method" .string (.string "GET")).field "url" .string
      (.string "")).field "headers" .object (.object [])).migration 1 migrateMethodCase).checkedBy
        validateRequest
  handles := fun _ =>
    { inputs := [.optional "url" .text, .optional "body" .any]
      outputs := [.output "status" .number, .output "body" .any, .output "headers" .object] }
  create := fun data => do
    let method ← textField data "method"
    match client.method method with
    | .error e => .error (.invalidData "method" e)
    | .ok () =>
      let url ← textField data "url"
      return ⟨requestType, sendRequest client method url (headersOf data)⟩

end FlowGraph.Standard
