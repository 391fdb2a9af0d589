import FlowGraph.Json.Decode
import FlowGraph.Value

/-!
Handles, the places of a node where edges begin and end.

A node may have one handle without an id at each side. In maps from handles to values it goes by the
empty key, so it shares its key with a handle whose id is the empty text, though an edge tells the
two apart.
-/

namespace FlowGraph

/-- How many edges an input handle takes. -/
inductive Cardinality where
  /-- Exactly one edge. -/
  | required
  /-- At most one edge. -/
  | optional
  /-- Any number of edges, whose values arrive as an array in the order of the edges. -/
  | many
deriving DecidableEq, Repr, Inhabited

def Cardinality.name : Cardinality → String
  | required => "required"
  | optional => "optional"
  | many => "many"

/-- The key of the handle without an id. -/
def unnamedKey : String := ""

/-- The key of a handle in maps from handles to values. -/
def handleKey (id : Option String) : String :=
  id.getD unnamedKey

/-- A declared handle. The cardinality of an output says nothing. -/
structure Handle where
  id : Option String
  category : Category
  cardinality : Cardinality
  label : Option String := none
  default : Option Value := none
deriving DecidableEq, Inhabited

namespace Handle

/-- An input that takes exactly one edge. -/
def required (id : String) (category : Category) : Handle := ⟨some id, category, .required, none, none⟩

/-- An input that may stay without an edge. -/
def optional (id : String) (category : Category) : Handle := ⟨some id, category, .optional, none, none⟩

def output (id : String) (category : Category) : Handle := ⟨some id, category, .many, none, none⟩

def unnamed (category : Category) (cardinality : Cardinality) : Handle :=
  ⟨none, category, cardinality, none, none⟩

def unnamedOutput (category : Category) : Handle := unnamed category .many

def key (h : Handle) : String := handleKey h.id

/-- The JSON form of a handle; it leaves out an absent label or default. -/
def toJson (h : Handle) : Json :=
  .object <|
    [("id", match h.id with | some id => .string id | none => .null),
      ("category", .string h.category.name), ("cardinality", .string h.cardinality.name)] ++
    (match h.label with | some label => [("label", .string label)] | none => []) ++
    (match h.default with | some value => [("default", value.toJson)] | none => [])

def record : Record Handle where
  name := "HandleSpec"
  fields := [
    .nullable "id" .string fun id h => { h with id },
    .needed "category" (.variant (Category.all.map fun c => (c.name, c))) fun category h =>
      { h with category },
    .needed "cardinality"
      (.variant ([Cardinality.required, .optional, .many].map fun c => (c.name, c)))
      fun cardinality h => { h with cardinality },
    .nullable "label" .string fun label h => { h with label },
    .nullable "default" .json fun default h => { h with default := default.map Value.ofJson }]
  initial := ⟨none, .any, .many, none, none⟩

end Handle

structure Handles where
  inputs : List Handle := []
  outputs : List Handle := []
deriving DecidableEq, Inhabited

namespace Handles

def findInput (h : Handles) (id : Option String) : Option Handle :=
  h.inputs.find? (·.id = id)

def findOutput (h : Handles) (id : Option String) : Option Handle :=
  h.outputs.find? (·.id = id)

def toJson (h : Handles) : Json :=
  .object [("inputs", .array (h.inputs.map Handle.toJson)),
    ("outputs", .array (h.outputs.map Handle.toJson))]

def record : Record Handles where
  name := "Handles"
  fields := [
    .needed "inputs" (.list Handle.record.read) fun inputs h => { h with inputs },
    .needed "outputs" (.list Handle.record.read) fun outputs h => { h with outputs }]
  initial := {}

end Handles

end FlowGraph
