import FlowGraph.Plan.Basic
import FlowGraph.Run.Trace

/-!
What a run is given, and how far it has come.

A run keeps a journal of all that happens, the newest entry first: the events that are sent, the
executors that are called and what they answer, and the visits and passes that end. Time is counted in
milliseconds and passes only while a node sleeps. Once a run has been cancelled it stays so.
-/

namespace FlowGraph

/-- When a run is cancelled. -/
structure Cancellation where
  /-- Before it begins. -/
  atStart : Bool := false
  /-- At this time. -/
  atTime : Option Nat := none
  /-- Whether it comes before all else that is due at `atTime`. If not, a node that wakes at that very time
  goes on, and the cancellation finds the run as soon as it sleeps again. -/
  ahead : Bool := false
  /-- Upon an event that makes the list of all events so far, the newest one first, satisfy this. -/
  upon : Option (List Event → Bool) := none

/-- Whether the time of the cancellation has come, and it is its turn. -/
def Cancellation.hasStruck (c : Cancellation) (now : Nat) : Bool :=
  match c.atTime with
  | some t => decide (t < now) || (c.ahead && decide (t = now))
  | none => false

/-- What a run is given. -/
structure RunSettings where
  plan : Plan
  /-- The values that the run is started with. -/
  inputs : Dict Value := []
  /-- The time that one call of an executor may take. -/
  nodeTimeout : Option Nat := none
  cancellation : Cancellation := {}

/-- How a pass, or the part of it that has been gone through, ends. -/
inductive Exit where
  | finished
  | loopBreak
  | loopContinue
  /-- The run ends early at a node. -/
  | ended (nodeId : String)
  | failed (failure : Failure)
deriving DecidableEq

/-- An entry in the journal of a run. -/
inductive Entry where
  | sent (event : Event)
  /-- The executor of a node was called with input values. -/
  | called (nodeId : String) (iteration : List Nat) (inputs : Dict Value)
  /-- The executor of a node has come to its result. -/
  | answered (nodeId : String) (iteration : List Nat) (result : Except NodeError NodeResult)
  | visited (visit : Visit)
  /-- A pass through a region is over. -/
  | passed (region : Option String) (iteration : List Nat) (exit : Exit)

namespace Entry

def event? : Entry → Option Event
  | sent e => some e
  | _ => none

def visit? : Entry → Option Visit
  | visited v => some v
  | _ => none

end Entry

/-- How far a run has come. -/
structure RunState where
  clock : Nat := 0
  cancelled : Bool := false
  /-- The variables that all nodes share. -/
  store : Dict Value := []
  journal : List Entry := []
  statuses : Dict Status := []
  outputs : Dict Outputs := []

namespace RunState

/-- The events so far, the newest one first. -/
def newestEvents (r : RunState) : List Event :=
  r.journal.filterMap Entry.event?

/-- The events so far, in their order. -/
def events (r : RunState) : List Event :=
  r.newestEvents.reverse

/-- The visits that have ended, in their order. -/
def visits (r : RunState) : List Visit :=
  (r.journal.filterMap Entry.visit?).reverse

def trace (r : RunState) : Trace :=
  ⟨r.visits, r.statuses, r.outputs⟩

def log (r : RunState) (entry : Entry) : RunState :=
  { r with journal := entry :: r.journal }

/-- Sends an event, upon which the run may be cancelled. -/
def send (c : Cancellation) (e : Event) (r : RunState) : RunState :=
  let r := r.log (.sent e)
  match c.upon with
  | none => r
  | some fires => { r with cancelled := r.cancelled || fires r.newestEvents }

def setStatus (r : RunState) (nodeId : String) (status : Status) : RunState :=
  { r with statuses := Dict.insert r.statuses nodeId status }

def recordVisit (r : RunState) (v : Visit) : RunState :=
  (r.log (.visited v)).setStatus v.nodeId v.status

end RunState

/-- What the nodes after a completed node find of it. -/
structure Completed where
  outputs : Outputs
  /-- The only output that is followed, if the node chose one. -/
  branch : Option String := none

/-- The nodes that completed in one pass through a region. -/
abbrev Frame := Dict Completed

/-- Where a pass takes place: the region, the index of the element for every loop around it, the
outermost one first, and the frames of the passes around it, the innermost one first. -/
structure Place where
  region : Option String := none
  iteration : List Nat := []
  enclosing : List Frame := []

end FlowGraph
