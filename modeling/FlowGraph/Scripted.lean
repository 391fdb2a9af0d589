import FlowGraph.Error

/-!
Node types that are described by data, for trying flows out on nodes with any handles and behaviour. They
belong to no registry unless they are added to one, and no statement is about them. A description names the
type, its kind, its handles, its schema and one of a fixed set of behaviours. Parts that are absent from a
description are empty.
-/

namespace FlowGraph.Scripted

def textAt (j : Json) (key : String) : String :=
  ((j.field? key).bind Json.string?).getD ""

/-- A natural number in a description. -/
def natAt (j : Json) (key : String) : Nat :=
  ((j.field? key).bind Json.nat?).getD 0

def itemsAt (j : Json) (key : String) : List Json :=
  ((j.field? key).bind Json.items?).getD []

/-- A value in the data of a node, or null. -/
def valueAt (data : Json) (key : String) : Value :=
  ((data.field? key).map Value.ofJson).getD .null

/-- An error as a description gives it. -/
def errorOf (j : Json) : NodeError :=
  let message := textAt j "message"
  match textAt j "kind" with
  | "MissingInput" => .missingInput message
  | "InvalidInputType" => .invalidInputType message (textAt j "expected") (textAt j "actual")
  | "InvalidData" => .invalidData (textAt j "field") message
  | "Configuration" => .configuration message
  | "Evaluation" => .evaluation message
  | "Timeout" => .timeout (natAt j "millis")
  | "Cancelled" => .cancelled
  | _ => .executionFailed message

def passOn (ctx : Context) : Activity :=
  .main ctx ctx.mainOrNull

/-- Ends with a result if the input and the field `equals` of the data are the same number, or both no
numbers, and passes the input on otherwise. -/
def whenEqual (result : Except NodeError NodeResult) (ctx : Context) : Activity :=
  let same := match ctx.mainOrNull.number?, (ctx.data.field? "equals").bind Json.float? with
    | some x, some y => x == y
    | none, none => true
    | _, _ => false
  if same then .ofResult ctx result else passOn ctx

/-- Branches on a handle, which carries the input. -/
def branchTo (handle : String) (ctx : Context) : Activity :=
  .ofResult ctx (.ok (.branch handle [(handle, ctx.mainOrNull)]))

def contextValue (ctx : Context) : Value :=
  .object [("data", .ofJson ctx.data), ("nodeId", .text ctx.call.nodeId),
    ("runInputs", .object ctx.runInputs), ("variables", .object ctx.store)]

def countVisit (ctx : Context) : Activity :=
  let before := ((Dict.get? ctx.store "count").bind Value.number?).getD 0.0
  let count := Value.number (before + 1.0)
  { Activity.main ctx count with store := Dict.insert ctx.store "count" count }

/-- What a behaviour does, by its name. -/
def behave (name : String) (ctx : Context) : Activity :=
  let data := ctx.data
  match name with
  | "emit" => .main ctx (valueAt data "value")
  | "inputs" => .main ctx (.object ctx.inputs)
  | "context" => .main ctx (contextValue ctx)
  | "text" => .ofValue ctx ((ctx.requireText unnamedKey).map fun s => .text (s ++ "!"))
  | "require" => .ofValue ctx (ctx.requireInput (textAt data "name"))
  | "outputs" => .ofResult ctx (.ok (.outputs ((valueAt data "outputs").fields?.getD [])))
  | "branch" => branchTo (textAt data "handle") ctx
  | "branchEmpty" => .ofResult ctx (.ok (.branch (textAt data "handle") []))
  | "gate" => branchTo (if ctx.mainOrNull = .bool true then "yes" else "no") ctx
  | "break" => .ofResult ctx (.ok .loopBreak)
  | "continue" => .ofResult ctx (.ok .loopContinue)
  | "end" => .ofResult ctx (.ok .flowEnd)
  | "breakOn" => whenEqual (.ok .loopBreak) ctx
  | "continueOn" => whenEqual (.ok .loopContinue) ctx
  | "endOn" => whenEqual (.ok .flowEnd) ctx
  | "failOn" => whenEqual (.error (.executionFailed "boom")) ctx
  | "fail" => .ofResult ctx (.error (errorOf data))
  | "sleep" => { passOn ctx with steps := [.sleep (natAt data "ms")] }
  | "warn" => { passOn ctx with steps := [.emit (.warning ctx.mainOrNull.display)] }
  | "count" => countVisit ctx
  | _ => passOn ctx

def fieldKind : String → FieldKind
  | "string" => .string
  | "number" => .number
  | "boolean" => .boolean
  | "array" => .array
  | "object" => .object
  | _ => .any

/-- What a migration does, by its name. -/
def migrationStep (name : String) (payload : Dict Json) : Except String (Dict Json) :=
  match name with
  | "rename_x_to_y" =>
    match Dict.get? payload "x" with
    | some x => .ok (Dict.insert (Dict.erase payload "x") "y" x)
    | none => .ok payload
  | "add_z" =>
    if Dict.contains payload "z" then .ok payload
    else .ok (Dict.insert payload "z" (.string "added"))
  | "clear" => .ok []
  | "set_version_99" => .ok (Dict.insert payload versionField (.ofUInt32 99))
  | _ => .error s!"refused {payload.length} fields"

/-- What a validator checks, by its name. -/
def validatorOf (name : String) (payload : Dict Json) : Except FieldIssue Unit :=
  match name with
  | "positive_n" =>
    match (Dict.get? payload "n").bind Json.float? with
    | some x => if 0.0 < x then .ok () else .error ⟨"n", "must be positive"⟩
    | none => .error ⟨"n", "must be positive"⟩
  | _ => .error ⟨"*", s!"rejected {payload.length} fields"⟩

def schemaOf (j : Json) : Schema :=
  { Schema.ofVersion (((j.field? "version").bind Json.nat?).getD 1) with
    fields := (itemsAt j "fields").map fun f =>
      ⟨textAt f "name", fieldKind (textAt f "kind"), f.field? "default"⟩
    migrations := (itemsAt j "migrations").map fun m =>
      ⟨natAt m "from", migrationStep (textAt m "fn")⟩
    validator := ((j.field? "validator").bind Json.string?).map validatorOf }

def loopHandlesOf (j : Json) : LoopHandles :=
  match j.field? "ports" with
  | some (.array names) =>
    let name (i : Nat) := ((names[i]?).bind Json.string?).getD ""
    ⟨name 0, name 1, name 2, name 3⟩
  | _ => ⟨"items", "item", "done", "next"⟩

def kindOf (j : Json) : NodeKind :=
  match textAt j "kind" with
  | "entry" => .entry
  | "visual" => .visual
  | "loop" => .loop (loopHandlesOf j)
  | "loopControl" => .loopControl
  | _ => .regular

/-- The handles at one side of a description. -/
def handlesAt (j : Json) (key : String) : Except ReadError (List Handle) :=
  match j.field? key with
  | some value => Reader.ofJson (Reader.list Handle.record.read) value
  | none => .ok []

/-- The error of a description for which no executor can be made. -/
def createErrorOf (j : Json) : Option NodeError :=
  match j.field? "createError" with
  | none | some .null => none
  | some error => some (errorOf error)

def typeOf (j : Json) : Except ReadError NodeType := do
  let inputs ← handlesAt j "inputs"
  let outputs ← handlesAt j "outputs"
  let name := textAt j "type"
  let behavior := textAt j "behavior"
  return {
    name
    metadata := ⟨name, "custom", ""⟩
    kind := kindOf j
    schema := schemaOf ((j.field? "schema").getD .null)
    handles := fun _ => ⟨inputs, outputs⟩
    create := fun _ =>
      match createErrorOf j with
      | some e => .error e
      | none => .ok ⟨behavior, behave behavior⟩ }

/-- The registry with the types of descriptions, registered one after the other. -/
def register (r : Registry) : List Json → Except FlowError Registry
  | [] => .ok r
  | j :: js => do
    let type ← (typeOf j).mapError .serialization
    let r ← (r.register type).mapError .registry
    register r js

end FlowGraph.Scripted
