import FlowGraph.Node.Basic

/-!
The node types that begin, end and steer a run: `start`, `end`, `break`, `continue`, and the loop
`forEach`; and the annotations `group` and `note`, which a run leaves alone.
-/

namespace FlowGraph.Standard

/-- Where a run starts: its inputs as one object. -/
def start : NodeType where
  name := "start"
  metadata := ⟨"Start", "control", "Where the flow begins"⟩
  kind := .entry
  handles := fun _ => { outputs := [.unnamedOutput .object] }
  create := fun _ => .ok ⟨"start", fun ctx => .main ctx (.object ctx.runInputs)⟩

def finish : NodeType where
  name := "end"
  metadata := ⟨"End", "control", "Stop the flow"⟩
  handles := fun _ => { inputs := [.unnamed .any .optional] }
  create := fun _ =>
    .ok ⟨"end", fun ctx => ⟨[.emit (.info "Flow end reached")], .ok .flowEnd, ctx.store⟩⟩

def breakLoop : NodeType where
  name := "break"
  metadata := ⟨"Break", "control", "Leave the enclosing loop"⟩
  kind := .loopControl
  handles := fun _ => { inputs := [.unnamed .any .optional] }
  create := fun _ => .ok ⟨"break", fun ctx => .ofResult ctx (.ok .loopBreak)⟩

/-- Ends the current iteration of the nearest loop around it. -/
def continueLoop : NodeType where
  name := "continue"
  metadata := ⟨"Continue", "control", "Skip to the next element of the enclosing loop"⟩
  kind := .loopControl
  handles := fun _ => { inputs := [.unnamed .any .optional] }
  create := fun _ => .ok ⟨"continue", fun ctx => .ofResult ctx (.ok .loopContinue)⟩

def forEachHandles : LoopHandles := ⟨"items", "item", "done", "next"⟩

/-- The collection of a `forEach` node; nothing and null stand for the empty one. -/
def collectionOf (ctx : Context) : Except NodeError (List Value) :=
  match Dict.get? ctx.inputs forEachHandles.collection with
  | some (.array items) => .ok items
  | none | some .null => .ok []
  | some v => .error (.invalidInputType forEachHandles.collection "array" v.typeName)

/-- Hands its collection over, to be run through element by element. -/
def forEach : NodeType where
  name := "forEach"
  metadata := ⟨"For Each", "control", "Run the connected body once per element of a list"⟩
  kind := .loop forEachHandles
  handles := fun _ =>
    { inputs := [.required forEachHandles.collection .array,
        { Handle.optional forEachHandles.next .any with label := some "collect" }]
      outputs := [.output forEachHandles.body .any, .output forEachHandles.done .array] }
  create := fun _ => .ok ⟨"forEach", fun ctx =>
    match collectionOf ctx with
    | .error e => .ofResult ctx (.error e)
    | .ok items =>
      ⟨[.emit (.info s!"Iterating over {items.length} items")],
        .ok (.outputs [(forEachHandles.body, .array items)]), ctx.store⟩⟩

/-- The type of an annotation: it has data for an editor and nothing else. -/
def decoration (name : String) (metadata : Metadata) (schema : Schema) : NodeType where
  name := name
  metadata := metadata
  kind := .visual
  schema := schema
  handles := fun _ => {}
  create := fun _ => .ok ⟨name, fun ctx => .ofResult ctx (.ok (.outputs []))⟩

def group : NodeType :=
  decoration "group" ⟨"Group", "annotation", "Frame related nodes"⟩
    (((Schema.plain.field "label" .string (.string "Group")).field "width" .number
      (.ofUInt32 320)).field "height" .number (.ofUInt32 240))

def note : NodeType :=
  decoration "note" ⟨"Note", "annotation", "Free text note"⟩
    (Schema.plain.field "text" .string (.string ""))

end FlowGraph.Standard
