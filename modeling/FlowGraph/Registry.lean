import FlowGraph.Flow
import FlowGraph.Node.Basic

/-!
Registries of node types. Every type is registered once. A registry describes nodes: their data at
the current version, and the handles that follow from it.
-/

namespace FlowGraph

/-- Why a node type cannot be registered. -/
inductive RegistryError where
  | duplicateNodeType (name : String)
deriving DecidableEq, Repr

def RegistryError.message : RegistryError → String
  | duplicateNodeType name => s!"Node type already registered: {name}"

/-- The node types that are known, by name. -/
structure Registry where
  types : Dict NodeType := []

/-- The data of a node at the current version, and its handles. -/
structure NodeView where
  data : Json
  handles : Handles
deriving DecidableEq

/-- What an editor lists about a node type: the data and handles are those of a new node. -/
structure TypeInfo where
  name : String
  metadata : Metadata
  kind : NodeKind
  version : Nat
  defaultData : Json
  handles : Handles

def TypeInfo.toJson (info : TypeInfo) : Json :=
  .object [("type", .string info.name), ("label", .string info.metadata.label),
    ("category", .string info.metadata.category),
    ("description", .string info.metadata.description), ("kind", info.kind.toJson),
    ("version", Schema.versionJson info.version), ("defaultData", info.defaultData),
    ("handles", info.handles.toJson)]

namespace NodeType

/-- The node's data at the current version, and its handles. -/
def describe (t : NodeType) (nodeId : String) (data : Json) : Except SchemaError NodeView := do
  let fields ← t.schema.normalize nodeId data
  return ⟨.object fields, t.handles (.object fields)⟩

def info (t : NodeType) : TypeInfo :=
  let data := Json.object t.schema.defaults
  ⟨t.name, t.metadata, t.kind, t.schema.version, data, t.handles data⟩

end NodeType

namespace Registry

def get? (r : Registry) (name : String) : Option NodeType :=
  Dict.get? r.types name

/-- Adds a type, unless one with its name is there. -/
def register (r : Registry) (t : NodeType) : Except RegistryError Registry :=
  if Dict.contains r.types t.name then .error (.duplicateNodeType t.name)
  else .ok ⟨Dict.insert r.types t.name t⟩

/-- Adds types up to the first one that cannot be added. -/
def registerAll (r : Registry) : List NodeType → Registry × Option RegistryError
  | [] => (r, none)
  | t :: ts =>
    match r.register t with
    | .ok r => r.registerAll ts
    | .error e => (r, some e)

def names (r : Registry) : List String :=
  Dict.keys r.types

/-- Every type with the data and handles of a new node, in the order of the names. -/
def catalog (r : Registry) : List TypeInfo :=
  r.types.map fun e => e.2.info

/-- The node's data at the current version and its handles; nothing if its type is unknown. -/
def describe (r : Registry) (nodeId typeName : String) (data : Json) :
    Option (Except SchemaError NodeView) :=
  (r.get? typeName).map fun t => t.describe nodeId data

end Registry

end FlowGraph
