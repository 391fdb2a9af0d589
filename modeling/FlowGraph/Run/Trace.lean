import FlowGraph.Run.Event

/-!
Traces, the record that a run leaves: every visit of a node in the order in which the visits ended,
the last status of every node, and the last outputs of every node that completed.
-/

namespace FlowGraph

/-- Where a node stands. -/
inductive Status where
  | pending
  | running
  | completed
  | skipped
  | failed
deriving DecidableEq, Repr, Inhabited

def Status.name : Status → String
  | pending => "pending"
  | running => "running"
  | completed => "completed"
  | skipped => "skipped"
  | failed => "failed"

/-- What a completed visit asked for beyond its outputs. -/
inductive Signal where
  | branch (handle : String)
  | loopBreak
  | loopContinue
  | flowEnd
deriving DecidableEq, Repr

/-- The output that a signal selects, if it selects one. -/
def Signal.branch? : Signal → Option String
  | branch handle => some handle
  | _ => none

def Signal.toJson : Signal → Json
  | branch handle => .object [("signal", .string "branch"), ("handle", .string handle)]
  | loopBreak => .object [("signal", .string "loopBreak")]
  | loopContinue => .object [("signal", .string "loopContinue")]
  | flowEnd => .object [("signal", .string "flowEnd")]

/-- A visit of a node. Inside loops a node is visited once per iteration; `iteration` holds the index
of the element for every loop around it, the outermost one first. -/
structure Visit where
  nodeId : String
  iteration : List Nat
  status : Status
  signal : Option Signal := none
  duration : Nat := 0
deriving DecidableEq, Repr

/-- The JSON form of a visit; it leaves out an absent signal. -/
def Visit.toJson (v : Visit) : Json :=
  .object <|
    [("node_id", .string v.nodeId), ("iteration", .array (v.iteration.map Event.count)),
      ("status", .string v.status.name)] ++
    (match v.signal with | some s => [("signal", s.toJson)] | none => []) ++
    [("duration_ms", Event.count v.duration)]

/-- The record of a run. -/
structure Trace where
  visits : List Visit
  /-- The last status of every node of the plan. -/
  statuses : Dict Status
  /-- The last outputs of every node that completed. -/
  outputs : Dict Outputs

namespace Trace

def visitsOf (t : Trace) (nodeId : String) : List Visit :=
  t.visits.filter (·.nodeId = nodeId)

/-- How many visits of a node were neither skipped nor left open. -/
def executionsOf (t : Trace) (nodeId : String) : Nat :=
  ((t.visitsOf nodeId).filter fun v => v.status = .completed ∨ v.status = .failed).length

end Trace

/-- How a run ends, unless it fails. -/
inductive Outcome where
  | completed
  /-- A node ended the run early, which is a success too. -/
  | ended (nodeId : String)
deriving DecidableEq, Repr

def Outcome.toJson : Outcome → Json
  | completed => .object [("status", .string "completed")]
  | ended id => .object [("status", .string "ended"), ("nodeId", .string id)]

/-- A failed visit, which ends its run. -/
structure Failure where
  nodeId : String
  cause : NodeError
deriving DecidableEq, Repr

def Failure.message (f : Failure) : String :=
  s!"Node '{f.nodeId}' failed: {f.cause.message}"

end FlowGraph
