import FlowGraph.Error
import FlowGraph.Run.Engine

/-!
What the program prints about runs and errors.
-/

namespace FlowGraph.CommandLine

/-- What goes wrong in a command: a text, and the texts of what lies behind it. -/
structure Trouble where
  text : String
  causes : List String := []
deriving DecidableEq, Repr

namespace Trouble

def ofError (e : FlowError) : Trouble :=
  ⟨e.message, [e.cause]⟩

/-- The trouble in the light of what was tried. -/
def within (context : String) (t : Trouble) : Trouble :=
  ⟨context, t.text :: t.causes⟩

/-- The lines of a cause: the first one after `head`, the others indented as far. -/
def causeLines (head indent cause : String) : List String :=
  match cause.splitOn "\n" with
  | [] => [head]
  | first :: rest => (head ++ first) :: rest.map (indent ++ ·)

/-- A number in five columns. -/
def numbered (n : Nat) : String :=
  let digits := toString n
  String.ofList (List.replicate (5 - digits.length) ' ') ++ digits ++ ": "

/-- The lines that report the trouble. Several causes are numbered. -/
def report (t : Trouble) : List String :=
  let causes := match t.causes with
    | [] => []
    | [cause] => ["", "Caused by:"] ++ causeLines "    " "    " cause
    | causes =>
      ["", "Caused by:"] ++
        (causes.zipIdx.map fun c => causeLines (numbered c.2) "       " c.1).flatten
  s!"Error: {t.text}" :: causes

end Trouble

def eventLine : Event → String
  | .runStarted start => s!"▶️  Flow started at {start}"
  | .nodeStarted id typeName => s!"  ⚡ Starting node: {id} ({typeName})"
  | .nodeCompleted id _ duration => s!"  ✅ Node {id} completed in {duration}ms"
  | .nodeSkipped id => s!"  ⏭️  Node {id} skipped"
  | .nodeFailed id error => s!"  ❌ Node {id} failed: {error}"
  | .loopIteration id index total => s!"  🔁 Loop {id} iteration {index + 1}/{total}"
  | .nodeEvent id (.info message) => s!"     ℹ️  [{id}] {message}"
  | .nodeEvent id (.warning message) => s!"     ⚠️  [{id}] {message}"
  | .runCompleted duration => s!"✨ Flow completed successfully in {duration}ms"
  | .runEnded id duration => s!"🏁 Flow ended at {id} after {duration}ms"
  | .runFailed _ _ duration => s!"💥 Flow failed after {duration}ms"

/-- The lines about the outputs of a node. -/
def outputLines (nodeId : String) (outputs : Outputs) : List String :=
  if outputs.isEmpty then []
  else
    s!"   Node {nodeId}:" :: outputs.map fun o =>
      let handle := if o.1 = unnamedKey then "(out)" else o.1
      s!"     {handle}: {o.2.display}"

/-- The lines about a run that did not fail. -/
def summary (executionId : String) (outcome : Outcome) (trace : Trace) : List String :=
  let outcomeText := match outcome with
    | .completed => "completed"
    | .ended id => s!"ended early at {id}"
  let outputs := if trace.outputs.isEmpty then []
    else ["", "📤 Outputs:"] ++ trace.outputs.flatMap fun o => outputLines o.1 o.2
  ["", "📊 Execution Summary:", s!"   Execution ID: {executionId}", s!"   Outcome: {outcomeText}",
    s!"   Visits: {trace.visits.length}"] ++ outputs

end FlowGraph.CommandLine
