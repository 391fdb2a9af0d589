import FlowGraph.CommandLine.Command
import FlowGraph.CommandLine.Report
import FlowGraph.Files
import FlowGraph.Migrate
import FlowGraph.Plan.Resolve
import FlowGraph.Standard

/-!
Carrying out commands, over any access to files. A command answers with the lines that it prints,
also when it fails half-way.
-/

namespace FlowGraph.CommandLine

/-- What a command line answers: the exit code, and the lines for the output and the error output. -/
structure Response where
  code : Nat := 0
  output : List String := []
  errors : List String := []
deriving DecidableEq, Repr

/-- What a command answers: the lines that it prints, and what went wrong, if anything did. -/
structure Answer where
  output : List String := []
  trouble : Option Trouble := none

/-- The response to a command line whose command was carried out. -/
def Answer.response (a : Answer) : Response :=
  match a.trouble with
  | none => { output := a.output }
  | some t => { code := 1, output := a.output, errors := t.report }

/-- An answer with lines printed before it. -/
def Answer.after (lines : List String) (a : Answer) : Answer :=
  { a with output := lines ++ a.output }

/-- Goes on with a result, or answers with the error. -/
def orFail {α : Type} (context : Option String) (result : Except FlowError α)
    (next : α → Answer) : Answer :=
  match result with
  | .ok a => next a
  | .error e =>
    let trouble := Trouble.ofError e
    { trouble := some (match context with | some c => trouble.within c | none => trouble) }

/-- The inputs of a run, given as the text of a JSON object. -/
def readInputs : Option String → Except Trouble (Dict Value)
  | none => .ok []
  | some text =>
    match Json.parse text with
    | .error e => .error ⟨"input is not JSON", [e.message]⟩
    | .ok (.object fields) => .ok (Value.ofJsonFields fields)
    | .ok _ => .error ⟨"Input must be a JSON object", []⟩

def runPlan (config : Config) (executionId : String) (inputs : Dict Value) (plan : Plan) : Answer :=
  let settings : RunSettings := { plan, inputs, nodeTimeout := config.nodeTimeout }
  let (result, last) := settings.execute
  let events := last.events.map eventLine
  match result with
  | .ok outcome => { output := events ++ summary executionId outcome last.trace }
  | .error f =>
    { output := events ++ ["", s!"💥 Flow failed at node {f.nodeId}: {f.cause.message}"]
      trouble := some (.ofError (.execution f)) }

def runFlow (registry : Registry) (config : Config) (executionId : String) (input : Option String)
    (flow : Flow) : Answer :=
  .after [s!"   Nodes: {flow.nodes.length}", s!"   Edges: {flow.edges.length}", ""] <|
    match readInputs input with
    | .error trouble => { trouble := some trouble }
    | .ok inputs =>
      orFail none ((registry.resolve flow config.startNode).mapError .ofResolve)
        (runPlan config executionId inputs)

/-- Checks a flow: whether it is valid, and the lines about it. -/
def validateFlow (registry : Registry) (config : Config) (path : String) (flow : Flow) :
    Bool × List String :=
  let heading := s!"🔍 Validating flow: {path}"
  match registry.resolve flow config.startNode with
  | .ok plan =>
    (true, [heading, "✅ Flow is valid:", s!"   Start: {plan.start}",
      s!"   Planned nodes: {plan.nodes.length}/{flow.nodes.length}",
      s!"   Loops: {plan.loops.length}"])
  | .error e => (false, [heading, s!"❌ {(FlowError.ofResolve e).message}"])

/-- Checks flows that have been loaded. -/
def validateFlows (registry : Registry) (config : Config) (flows : List (String × Flow)) : Answer :=
  let results := flows.map fun f => validateFlow registry config f.1 f.2
  let failures := (results.filter (!·.1)).length
  { output := results.flatMap (·.2)
    trouble :=
      if failures = 0 then none
      else some ⟨s!"{failures} of {flows.length} flows are invalid", []⟩ }

def listTypes (registry : Registry) : List String :=
  ["📦 Available Node Types:", ""] ++ registry.catalog.flatMap fun info =>
    [s!"  • {info.name} ({info.metadata.category}, v{info.version})",
      s!"    {info.metadata.description}"]

/-- A flow that multiplies the items of a list by two, up to the first one that is four. -/
def exampleFlow : Flow :=
  let (stop, conditions) := Standard.ConditionList.add ⟨⟨"cond", 0⟩, []⟩ "value == 4.0"
  let numbers := [1, 2, 3, 4, 5].map Json.ofUInt32
  let (start, b) := FlowBuilder.addNode { ids := ⟨"n", 0⟩ } "start" (.object [])
  let (items, b) := b.addNode "json" (.object [("value", .array numbers)])
  let (each, b) := b.addNode "forEach" (.object [])
  let (check, b) := b.addNode "if" conditions.toData
  let (stopLoop, b) := b.addNode "break" (.object [])
  let (double, b) :=
    b.addNode "math" (.object [("b", .ofUInt32 2), ("operation", .string "multiply")])
  let (logItem, b) := b.addNode "log" (.object [("message", .string "Doubled")])
  let (logDone, b) := b.addNode "log" (.object [("message", .string "Collected")])
  let (_, b) := b.connect start none items none
  let (_, b) := b.connect items none each (some "items")
  let (_, b) := b.connect each (some "item") check none
  let (_, b) := b.connect check (some stop) stopLoop none
  let (_, b) := b.connect check (some Standard.falseHandle) double (some "a")
  let (_, b) := b.connect double none logItem none
  let (_, b) := b.connect logItem none each (some "next")
  let (_, b) := b.connect each (some "done") logDone none
  b.flow

section Access

variable {m : Type → Type} [Monad m] (files : FileAccess m)

/-- Loads the flows at a path: one flow, or those in a directory. -/
def loadPath (path : String) : m (Except Trouble (List (String × Flow))) := do
  if ← files.isDirectory path then
    return (← files.loadDirectory path).mapError fun e =>
      (Trouble.ofError e).within s!"failed to read {path}"
  else
    return match ← files.loadFlow path with
      | .ok flow => .ok [(path, flow)]
      | .error e => .error ((Trouble.ofError e).within s!"failed to load {path}")

/-- Loads the flows at paths, up to the first one that cannot be loaded. -/
def loadPaths : List String → m (Except Trouble (List (String × Flow)))
  | [] => return .ok []
  | path :: paths => do
    match ← loadPath files path with
    | .error t => return .error t
    | .ok flows =>
      match ← loadPaths paths with
      | .error t => return .error t
      | .ok rest => return .ok (flows ++ rest)

def saveThen (path : String) (flow : Flow) (lines : List String) : m Answer := do
  return orFail (some s!"failed to write {path}") (← files.saveFlow path flow)
    fun _ => { output := lines }

def migrateLoaded (registry : Registry) (output : Option String) (flow : Flow) : m Answer := do
  match registry.migrateFlow flow with
  | .error e => return { trouble := some (.ofError (.ofResolve e)) }
  | .ok migrated =>
    match output with
    | none => return { output := [migrated.pretty] }
    | some path => saveThen files path migrated [s!"✨ Migrated flow written to: {path}"]

def perform (executionId : String) (registry : Registry) (config : Config) : Command → m Answer
  | .run file input start => do
    let config := { config with startNode := start <|> config.startNode }
    let loaded ← files.loadFlow file
    return .after [s!"🚀 Loading flow from: {file}"] <|
      orFail (some s!"failed to load {file}") loaded (runFlow registry config executionId input)
  | .validate paths => do
    match ← loadPaths files paths with
    | .error trouble => return { trouble := some trouble }
    | .ok flows => return validateFlows registry config flows
  | .migrate file output => do
    match ← files.loadFlow file with
    | .error e => return { trouble := some ((Trouble.ofError e).within s!"failed to load {file}") }
    | .ok flow => migrateLoaded files registry output flow
  | .nodes true => return { output := [(Json.array (registry.catalog.map (·.toJson))).pretty] }
  | .nodes false => return { output := listTypes registry }
  | .init output =>
    saveThen files output exampleFlow
      [s!"✨ Created example flow: {output}", "", "Run it with:",
        s!"  flowchart run --file {output}"]

def respond (executionId : String) (arguments : List String) : m Response := do
  match readCommand arguments with
  | .help lines => return { output := lines }
  | .refused e => return { code := 2, errors := [s!"error: {e.message}"] }
  | .invocation invocation =>
    let config ← match invocation.config with
      | none => pure (Except.ok {})
      | some path =>
        pure ((← files.loadConfig path).mapError fun e =>
          (Trouble.ofError e).within s!"failed to load config {path}")
    match config with
    | .error trouble => return Answer.response { trouble := some trouble }
    | .ok config =>
      return (← perform files executionId Standard.registry config invocation.command).response

end Access

end FlowGraph.CommandLine
