import FlowGraph.Decimal.Reading
import FlowGraph.Json.Printer
import FlowGraph.Text.Blank

/-!
Versioned schemas of node data. A payload says its version in the field `_version`; without that
field its version is 1. Migrating a payload applies, for every version below the current one, the
first registered step that starts from it. Normalising a payload migrates it, checks every declared
field, fills the fields that are absent or null with their defaults, and leaves all other fields as
they are.
-/

namespace FlowGraph

/-- The field that holds the version of a payload. -/
def versionField : String := "_version"

structure FieldIssue where
  field : String
  message : String
deriving DecidableEq, Repr

/-- Why the data of a node is refused. -/
inductive SchemaError where
  | notAnObject (nodeId : String)
  | unsupportedVersion (nodeId : String) (found current : Nat)
  | migration (nodeId : String) (fromVersion : Nat) (reason : String)
  | missingField (nodeId : String) (field : String)
  | invalidField (nodeId : String) (field : String) (reason : String)
deriving DecidableEq, Repr

namespace SchemaError

def nodeId : SchemaError → String
  | notAnObject id | unsupportedVersion id _ _ | migration id _ _ | missingField id _
  | invalidField id _ _ => id

def message : SchemaError → String
  | notAnObject id => s!"node '{id}': data must be a JSON object"
  | unsupportedVersion id found current =>
    s!"node '{id}': data version {found} is newer than supported version {current}"
  | migration id version reason =>
    s!"node '{id}': migration from version {version} failed: {reason}"
  | missingField id field => s!"node '{id}': missing required field '{field}'"
  | invalidField id field reason => s!"node '{id}': invalid field '{field}': {reason}"

end SchemaError

inductive FieldKind where
  | any
  | string
  | number
  | boolean
  | array
  | object
deriving DecidableEq, Repr

namespace FieldKind

def name : FieldKind → String
  | any => "any"
  | string => "string"
  | number => "number"
  | boolean => "boolean"
  | array => "array"
  | object => "object"

/-- The value as the field holds it: itself if it is of the kind, and the number that a text writes
where a number is asked for. -/
def coerce : FieldKind → Json → Option Json
  | any, j => some j
  | string, .string s => some (.string s)
  | number, .number n => some (.number n)
  | number, .string s => do
    let x ← Decimal.readDecimal (Text.trimBlank s.toList)
    let n ← Number.ofFloat? x
    return .number n
  | boolean, .bool b => some (.bool b)
  | array, .array items => some (.array items)
  | object, .object fields => some (.object fields)
  | _, _ => none

end FieldKind

/-- A declared field. Without a default the field is required. -/
structure FieldSpec where
  name : String
  kind : FieldKind
  default : Option Json

/-- A step from one version of a payload to the next. -/
structure Migration where
  fromVersion : Nat
  apply : Dict Json → Except String (Dict Json)

/-- The shape of the data of a node type at its current version. -/
structure Schema where
  version : Nat
  fields : List FieldSpec := []
  migrations : List Migration := []
  validator : Option (Dict Json → Except FieldIssue Unit) := none
  version_bounds : 1 ≤ version ∧ version < 0x100000000

namespace Schema

/-- The schema without fields at a version. Version 0 counts as 1, and of a greater number the 32
lowest bits count. -/
def ofVersion (version : Nat) : Schema where
  version := max 1 (version % 0x100000000)
  version_bounds := by omega

/-- The schema without fields at version 1. -/
def plain : Schema := ofVersion 1

/-- The fields of the schema, one more of them: it must be there after migration. -/
def required (s : Schema) (name : String) (kind : FieldKind) : Schema :=
  { s with fields := s.fields ++ [⟨name, kind, none⟩] }

/-- The fields of the schema, one more of them: it has a default. -/
def field (s : Schema) (name : String) (kind : FieldKind) (default : Json) : Schema :=
  { s with fields := s.fields ++ [⟨name, kind, some default⟩] }

def migration (s : Schema) (fromVersion : Nat)
    (apply : Dict Json → Except String (Dict Json)) : Schema :=
  { s with migrations := s.migrations ++ [⟨fromVersion, apply⟩] }

/-- The schema with a validator, which sees the payload with all fields filled. -/
def checkedBy (s : Schema) (check : Dict Json → Except FieldIssue Unit) : Schema :=
  { s with validator := some check }

/-- A version number as it stands in a payload. -/
def versionJson (version : Nat) : Json :=
  .ofUInt32 (UInt32.ofNat version)

def defaults (s : Schema) : Dict Json :=
  let fields := s.fields.foldl (fun d f =>
    match f.default with
    | some value => Dict.insert d f.name value
    | none => d) ([] : Dict Json)
  Dict.insert fields versionField (versionJson s.version)

/-- The version of a payload. -/
def payloadVersion (nodeId : String) (payload : Dict Json) : Except SchemaError Nat :=
  match Dict.get? payload versionField with
  | none | some .null => .ok 1
  | some j =>
    match j.nat? with
    | some n =>
      if 1 ≤ n ∧ n < 0x100000000 then .ok n
      else .error (.invalidField nodeId versionField s!"expected a positive integer, got {j.compact}")
    | none =>
      .error (.invalidField nodeId versionField s!"expected a positive integer, got {j.compact}")

/-- Applies the step that starts from `version` and marks the payload with the next version. -/
def migrateOnce (s : Schema) (nodeId : String) (version : Nat) (payload : Dict Json) :
    Except SchemaError (Dict Json) :=
  match s.migrations.find? (·.fromVersion = version) with
  | none => .error (.migration nodeId version "no migration registered")
  | some step =>
    match step.apply payload with
    | .error reason => .error (.migration nodeId version reason)
    | .ok next => .ok (Dict.insert next versionField (versionJson (version + 1)))

/-- Applies `count` steps, the first one from `version`. -/
def migrateSteps (s : Schema) (nodeId : String) :
    (count version : Nat) → Dict Json → Except SchemaError (Dict Json)
  | 0, _, payload => .ok payload
  | count + 1, version, payload => do
    let next ← s.migrateOnce nodeId version payload
    s.migrateSteps nodeId count (version + 1) next

/-- The fields of a payload; null stands for a payload without any. -/
def payloadFields (nodeId : String) : Json → Except SchemaError (Dict Json)
  | .null => .ok []
  | .object fields => .ok fields
  | _ => .error (.notAnObject nodeId)

/-- The payload at the current version. -/
def migrate (s : Schema) (nodeId : String) (raw : Json) : Except SchemaError (Dict Json) := do
  let payload ← payloadFields nodeId raw
  let version ← payloadVersion nodeId payload
  if s.version < version then .error (.unsupportedVersion nodeId version s.version)
  else s.migrateSteps nodeId (s.version - version) version payload

/-- The value of a declared field, given the value in the payload if there is one. -/
def fieldValue (nodeId : String) (f : FieldSpec) (found : Option Json) : Except SchemaError Json :=
  match found.filter (!·.isNull), f.default with
  | some value, _ =>
    match f.kind.coerce value with
    | some coerced => .ok coerced
    | none =>
      .error (.invalidField nodeId f.name s!"expected {f.kind.name}, got {value.compact}")
  | none, some default => .ok default
  | none, none => .error (.missingField nodeId f.name)

def fillFields (nodeId : String) : List FieldSpec → Dict Json → Except SchemaError (Dict Json)
  | [], payload => .ok payload
  | f :: fs, payload => do
    let value ← fieldValue nodeId f (Dict.get? payload f.name)
    fillFields nodeId fs (Dict.insert payload f.name value)

/-- Runs the validator, if there is one. -/
def validate (s : Schema) (nodeId : String) (payload : Dict Json) : Except SchemaError Unit :=
  match s.validator with
  | none => .ok ()
  | some check =>
    match check payload with
    | .ok () => .ok ()
    | .error issue => .error (.invalidField nodeId issue.field issue.message)

/-- The payload at the current version, with every declared field checked and filled. -/
def normalize (s : Schema) (nodeId : String) (raw : Json) : Except SchemaError (Dict Json) := do
  let payload ← s.migrate nodeId raw
  let filled ← fillFields nodeId s.fields payload
  s.validate nodeId filled
  return Dict.insert filled versionField (versionJson s.version)

end Schema

end FlowGraph
