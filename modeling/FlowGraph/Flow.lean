import FlowGraph.Json.Decode
import FlowGraph.Json.Printer

/-!
Flows as they are stored: nodes, and the edges between their handles. The text form of a flow names
every field; reading it accepts what `Record.read` accepts and takes an absent handle for none and
absent data for null.
-/

namespace FlowGraph

structure FlowNode where
  id : String
  typeName : String
  data : Json := .null
deriving DecidableEq, Inhabited

/-- An edge from an output handle to an input handle; no id stands for the handle without an id. -/
structure FlowEdge where
  id : String
  source : String
  sourceHandle : Option String := none
  target : String
  targetHandle : Option String := none
deriving DecidableEq, Inhabited, Repr

structure Flow where
  nodes : List FlowNode := []
  edges : List FlowEdge := []
deriving DecidableEq, Inhabited

/-- A text that may be absent, in JSON. -/
def Json.ofOption : Option String → Json
  | some s => .string s
  | none => .null

namespace FlowNode

def toJson (n : FlowNode) : Json :=
  .object [("id", .string n.id), ("type", .string n.typeName), ("data", n.data)]

def record : Record FlowNode where
  name := "SpecNode"
  fields := [
    .needed "id" .string fun id n => { n with id },
    .needed "type" .string fun typeName n => { n with typeName },
    .withDefault "data" .json fun data n => { n with data }]
  initial := ⟨"", "", .null⟩

end FlowNode

namespace FlowEdge

def toJson (e : FlowEdge) : Json :=
  .object [("id", .string e.id), ("source", .string e.source),
    ("sourceHandle", .ofOption e.sourceHandle), ("target", .string e.target),
    ("targetHandle", .ofOption e.targetHandle)]

def record : Record FlowEdge where
  name := "SpecEdge"
  fields := [
    .needed "id" .string fun id e => { e with id },
    .needed "source" .string fun source e => { e with source },
    .withDefault "sourceHandle" (.optional .string) fun sourceHandle e => { e with sourceHandle },
    .needed "target" .string fun target e => { e with target },
    .withDefault "targetHandle" (.optional .string) fun targetHandle e => { e with targetHandle }]
  initial := ⟨"", "", none, "", none⟩

end FlowEdge

namespace Flow

def toJson (f : Flow) : Json :=
  .object [("nodes", .array (f.nodes.map FlowNode.toJson)),
    ("edges", .array (f.edges.map FlowEdge.toJson))]

def record : Record Flow where
  name := "SpecFlow"
  fields := [
    .withDefault "nodes" (.list FlowNode.record.read) fun nodes f => { f with nodes },
    .withDefault "edges" (.list FlowEdge.record.read) fun edges f => { f with edges }]
  initial := {}

def parse (text : String) : Except ReadError Flow :=
  Reader.ofText record.read text

def ofJson (j : Json) : Except ReadError Flow :=
  Reader.ofJson record.read j

def pretty (f : Flow) : String :=
  f.toJson.pretty

def findNode (f : Flow) (id : String) : Option FlowNode :=
  f.nodes.find? (·.id = id)

/-- The nodes with the data of the first one that has the id replaced. -/
def replaceData (id : String) (data : Json) : List FlowNode → List FlowNode
  | [] => []
  | n :: ns => if n.id = id then { n with data } :: ns else n :: replaceData id data ns

/-- The flow with the data of a node replaced. -/
def setData (f : Flow) (id : String) (data : Json) : Flow :=
  { f with nodes := replaceData id data f.nodes }

/-- The edges that enter a node, in the order of the flow. -/
def incoming (f : Flow) (id : String) : List FlowEdge :=
  f.edges.filter (·.target = id)

/-- The edges that leave a node, in the order of the flow. -/
def outgoing (f : Flow) (id : String) : List FlowEdge :=
  f.edges.filter (·.source = id)

end Flow

/-- A source of fresh ids: the stem, a hyphen and the number of ids that were taken, this one
included. -/
structure IdSequence where
  stem : String
  /-- Less than `2 ^ 64`, where a counter of 64 bits would begin anew. -/
  taken : Nat := 0
deriving DecidableEq, Repr

/-- The next id, and the source after it. -/
def IdSequence.next (ids : IdSequence) : String × IdSequence :=
  (s!"{ids.stem}-{ids.taken + 1}", { ids with taken := ids.taken + 1 })

/-- A flow in the making, with the source of its ids. -/
structure FlowBuilder where
  ids : IdSequence
  flow : Flow := {}

namespace FlowBuilder

/-- Takes an id for some other use. -/
def takeId (b : FlowBuilder) : String × FlowBuilder :=
  let (id, ids) := b.ids.next
  (id, { b with ids })

def addNode (b : FlowBuilder) (typeName : String) (data : Json) : String × FlowBuilder :=
  let (id, ids) := b.ids.next
  (id, { ids, flow := { b.flow with nodes := b.flow.nodes ++ [⟨id, typeName, data⟩] } })

def connect (b : FlowBuilder) (source : String) (sourceHandle : Option String) (target : String)
    (targetHandle : Option String) : String × FlowBuilder :=
  let (id, ids) := b.ids.next
  let edge : FlowEdge := ⟨id, source, sourceHandle, target, targetHandle⟩
  (id, { ids, flow := { b.flow with edges := b.flow.edges ++ [edge] } })

end FlowBuilder

end FlowGraph
