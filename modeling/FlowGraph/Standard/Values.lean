import FlowGraph.Json.Decode
import FlowGraph.Node.Basic

/-!
The node types that make and change values: the constants `string`, `number`, `boolean` and `json`,
the conversions `jsonParse` and `jsonStringify`, `merge`, and the run variables `getVariable` and
`setVariable`.
-/

namespace FlowGraph.Standard

/-- An input that only puts a node after another one. -/
def triggerInput : Handle :=
  { Handle.unnamed .any .optional with label := some "trigger" }

/-- The type of a constant: its value is in the data. -/
def constant (name label : String) (category : Category) (kind : FieldKind) (default : Json) :
    NodeType where
  name := name
  metadata := ⟨label, "value", s!"Constant {name} value"⟩
  schema := Schema.plain.field "value" kind default
  handles := fun _ => { inputs := [triggerInput], outputs := [.unnamedOutput category] }
  create := fun data =>
    match data.field? "value" with
    | some j => .ok ⟨name, fun ctx => .main ctx (.ofJson j)⟩
    | none => .error (.invalidData "value" "missing")

def constantString : NodeType := constant "string" "Text" .text .string (.string "")

def constantNumber : NodeType := constant "number" "Number" .number .number (.ofUInt32 0)

def constantBoolean : NodeType := constant "boolean" "Boolean" .boolean .boolean (.bool false)

def constantJson : NodeType := constant "json" "JSON" .any .any (.object [])

/-- The value that a text input holds as JSON. -/
def parseInput (ctx : Context) : Except NodeError Value := do
  let text ← ctx.requireText unnamedKey
  match Json.parse text with
  | .ok j => return .ofJson j
  | .error e => .error (.executionFailed s!"JSON parse error: {e.message}")

def jsonParse : NodeType where
  name := "jsonParse"
  metadata := ⟨"Parse JSON", "transform", "Parse JSON text"⟩
  handles := fun _ =>
    { inputs := [.unnamed .text .required], outputs := [.unnamedOutput .any] }
  create := fun _ => .ok ⟨"jsonParse", fun ctx => .ofValue ctx (parseInput ctx)⟩

/-- The JSON text of an input. -/
def stringifyInput (pretty : Bool) (ctx : Context) : Except NodeError Value := do
  let value ← ctx.requireInput unnamedKey
  return .text (if pretty then value.toJson.pretty else value.toJson.compact)

def jsonStringify : NodeType where
  name := "jsonStringify"
  metadata := ⟨"Stringify JSON", "transform", "Convert a value to JSON text"⟩
  schema := Schema.plain.field "pretty" .boolean (.bool false)
  handles := fun _ =>
    { inputs := [.unnamed .any .required], outputs := [.unnamedOutput .text] }
  create := fun data => do
    let pretty ← boolField data "pretty"
    return ⟨"jsonStringify", fun ctx => .ofValue ctx (stringifyInput pretty ctx)⟩

/-- The fields of all objects among the values; of two fields with one key the later one counts. -/
def mergeFields (values : List Value) : Dict Value :=
  values.foldl (fun acc v => Dict.union acc (v.fields?.getD [])) []

def merge : NodeType where
  name := "merge"
  metadata := ⟨"Merge", "transform", "Merge objects into one"⟩
  handles := fun _ =>
    { inputs := [.unnamed .object .many], outputs := [.unnamedOutput .object] }
  create := fun _ => .ok ⟨"merge", fun ctx =>
    .main ctx (.object (mergeFields ((ctx.mainInput.bind Value.items?).getD [])))⟩

/-- Checks that a variable has a name with something in it. -/
def validateVariableName (payload : Dict Json) : Except FieldIssue Unit :=
  match (Dict.get? payload "name").bind Json.string? with
  | some name =>
    if (Text.trim name).isEmpty then .error ⟨"name", "variable name must not be empty"⟩ else .ok ()
  | none => .error ⟨"name", "variable name must not be empty"⟩

/-- Reads a variable of the run, or gives the default of the data when it has no value. -/
def getVariable : NodeType where
  name := "getVariable"
  metadata := ⟨"Get Variable", "variables", "Read a run variable"⟩
  schema :=
    ((Schema.plain.required "name" .string).field "default" .any .null).checkedBy
      validateVariableName
  handles := fun _ => { inputs := [triggerInput], outputs := [.unnamedOutput .any] }
  create := fun data => do
    let name ← textField data "name"
    let fallback := ((data.field? "default").map Value.ofJson).getD .null
    return ⟨"getVariable", fun ctx => .main ctx ((Dict.get? ctx.store name).getD fallback)⟩

/-- Writes its input into a variable of the run and passes it on. -/
def setVariable : NodeType where
  name := "setVariable"
  metadata := ⟨"Set Variable", "variables", "Write a run variable"⟩
  schema :=
    (Schema.plain.required "name" .string).checkedBy validateVariableName
  handles := fun _ =>
    { inputs := [.unnamed .any .required], outputs := [.unnamedOutput .any] }
  create := fun data => do
    let name ← textField data "name"
    return ⟨"setVariable", fun ctx =>
      match ctx.requireInput unnamedKey with
      | .error e => .ofResult ctx (.error e)
      | .ok value =>
        { Activity.main ctx value with store := Dict.insert ctx.store name value }⟩

end FlowGraph.Standard
