import FlowGraph.Run.Inputs

/-!
Running a plan. A pass goes through the direct members of a region in their order; a loop makes one
pass through its body per element of its collection. Members that are not active are skipped, a loop
together with its body. A failed visit ends the run.

The depth of nested passes is bounded by the number of loops, because a loop inside the body of
another one has a smaller body.
-/

namespace FlowGraph

/-- A pass when it ends: how it ends, what completed in it, and the run. -/
structure Passed where
  exit : Exit
  frame : Frame
  run : RunState

/-- Notes in the journal that a pass is over. -/
def Passed.note (place : Place) (passed : Passed) : Passed :=
  { passed with run := passed.run.log (.passed place.region place.iteration passed.exit) }

namespace RunSettings

variable (s : RunSettings)

def send (e : Event) (r : RunState) : RunState :=
  r.send s.cancellation e

/-! ### Calling executors -/

/-- Lets a node sleep until `wake`. The earlier of its deadline and a cancellation cuts it short; at
one and the same time waking comes before the deadline, and `Cancellation.ahead` says whether the
cancellation comes before both. -/
def sleepUntil (wake : Nat) (deadline : Option Nat) (r : RunState) : Option NodeError × RunState :=
  let due := deadline.elim wake (min wake)
  if r.cancelled then (some .cancelled, r)
  else if s.cancellation.hasStruck due = true ∧ r.clock < due then
    let time := max r.clock (s.cancellation.atTime.getD 0)
    (some .cancelled, { r with clock := time, cancelled := true })
  else if due < wake then
    (some (.timeout (s.nodeTimeout.getD 0)), { r with clock := due })
  else (none, { r with clock := wake })

/-- Carries out what an executor does before its result is there; an error if it is cut short. -/
def carryOut (nodeId : String) (deadline : Option Nat) :
    List ActivityStep → RunState → Option NodeError × RunState
  | [], r => (none, r)
  | .emit e :: steps, r => carryOut nodeId deadline steps (s.send (.nodeEvent nodeId e) r)
  | .sleep millis :: steps, r =>
    match s.sleepUntil (r.clock + millis) deadline r with
    | (some e, r) => (some e, r)
    | (none, r) => carryOut nodeId deadline steps r

/-- What the executor of a node is given. -/
def contextOf (place : Place) (n : PlannedNode) (inputs : Dict Value) (store : Dict Value) : Context :=
  ⟨⟨n.id, place.iteration⟩, inputs, n.data, s.inputs, store⟩

/-- Calls the executor of a node, unless the run is cancelled or an input is not as it should be. -/
def invoke (place : Place) (frame : Frame) (n : PlannedNode) (r : RunState) :
    Except NodeError NodeResult × RunState :=
  if r.cancelled then (.error .cancelled, r)
  else
    match n.resolveInputs (frame :: place.enclosing) with
    | .error e => (.error e, r)
    | .ok inputs =>
      let activity := n.executor.run (s.contextOf place n inputs r.store)
      let r := r.log (.called n.id place.iteration inputs)
      match s.carryOut n.id (s.nodeTimeout.map (r.clock + ·)) activity.steps r with
      | (some e, r) => (.error e, r)
      | (none, r) =>
        let r := r.log (.answered n.id place.iteration activity.result)
        (activity.result, { r with store := activity.store })

def start (n : PlannedNode) (r : RunState) : RunState :=
  (s.send (.nodeStarted n.id n.typeName) r).setStatus n.id .running

/-- Ends a visit that was begun at `started` as completed. -/
def complete (place : Place) (n : PlannedNode) (outputs : Outputs) (signal : Option Signal)
    (started : Nat) (frame : Frame) (r : RunState) : Frame × RunState :=
  let duration := r.clock - started
  let r := s.send (.nodeCompleted n.id outputs duration) r
  let r := r.recordVisit ⟨n.id, place.iteration, .completed, signal, duration⟩
  (Dict.insert frame n.id ⟨outputs, signal.bind Signal.branch?⟩,
    { r with outputs := Dict.insert r.outputs n.id outputs })

/-- Ends a visit that was begun at `started` as failed. -/
def fail (place : Place) (n : PlannedNode) (cause : NodeError) (started : Nat) (r : RunState) :
    RunState :=
  (s.send (.nodeFailed n.id cause.message) r).recordVisit
    ⟨n.id, place.iteration, .failed, none, r.clock - started⟩

def skipAll (place : Place) (nodeIds : List String) (r : RunState) : RunState :=
  nodeIds.foldl (fun r id =>
    (s.send (.nodeSkipped id) r).recordVisit ⟨id, place.iteration, .skipped, none, 0⟩) r

/-- The nodes of the plan inside a loop, in the order of the plan. -/
def bodyNodes (loopId : String) : List String :=
  (s.plan.nodes.filter (·.id ∈ s.plan.body loopId)).map (·.id)

/-- Skips a node, and the body of the loop if it is one. -/
def skip (place : Place) (n : PlannedNode) (r : RunState) : RunState :=
  match n.kind.loopHandles? with
  | none => s.skipAll place [n.id] r
  | some _ => s.skipAll place (n.id :: s.bodyNodes n.id) r

/-- Whether a result can be followed from where the node stands. -/
def checkResult (place : Place) (n : PlannedNode) (result : NodeResult) :
    Except NodeError NodeResult :=
  match result with
  | .loopBreak | .loopContinue =>
    if place.region = none then
      .error (.executionFailed "loop control signal outside of any loop")
    else .ok result
  | .branch handle _ =>
    if n.handles.outputs.any (·.key = handle) then .ok result
    else .error (.executionFailed s!"branch to undeclared output '{handle}'")
  | _ => .ok result

/-- What a visit leaves behind when it completes: the outputs, the signal, and how the pass that it
belongs to goes on. -/
structure Completion where
  outputs : Outputs
  signal : Option Signal := none
  exit : Exit := .finished

/-- How a visit completes with a result. -/
def completion (n : PlannedNode) : NodeResult → Completion
  | .outputs values => { outputs := values }
  | .branch handle values => { outputs := values, signal := some (.branch handle) }
  | .loopBreak => ⟨[], some .loopBreak, .loopBreak⟩
  | .loopContinue => ⟨[], some .loopContinue, .loopContinue⟩
  | .flowEnd => ⟨[], some .flowEnd, .ended n.id⟩

/-- Ends a visit that was begun at `started`, as completed or as failed. -/
def settle (place : Place) (n : PlannedNode) (started : Nat) (frame : Frame)
    (outcome : Except NodeError Completion) (r : RunState) : Passed :=
  match outcome with
  | .error cause => ⟨.failed ⟨n.id, cause⟩, frame, s.fail place n cause started r⟩
  | .ok c =>
    let (frame, r) := s.complete place n c.outputs c.signal started frame r
    ⟨c.exit, frame, r⟩

def visit (place : Place) (n : PlannedNode) (frame : Frame) (r : RunState) : Passed :=
  let (result, run) := s.invoke place frame n (s.start n r)
  s.settle place n r.clock frame ((result.bind (checkResult place n)).map (completion n)) run

/-! ### Loops -/

/-- What an iteration adds to the collected values: the value of the edge that closes the body if the
pass was finished, or the element itself if no edge does. -/
def collect (back : Option Binding) (element : Value) (frames : List Frame) (exit : Exit) :
    List Value :=
  match back, exit with
  | some b, .finished => (liveValue frames b).toList
  | none, .finished | none, .loopContinue | none, .loopBreak => [element]
  | _, _ => []

/-- What a loop collects before an iteration ends it, how it ends, and the run. -/
structure Looped where
  exit : Exit
  collected : List Value
  run : RunState

/-- The place of an iteration of a loop. -/
def inside (place : Place) (loopId : String) (index : Nat) (frame : Frame) : Place :=
  ⟨some loopId, place.iteration ++ [index], frame :: place.enclosing⟩

/-- Makes the passes of a loop for its elements from `index` on. A loop that was cancelled fails as a
whole; a failure inside the body leaves the loop open. -/
def iterate (pass : Place → Frame → RunState → Passed) (place : Place) (n : PlannedNode)
    (loop : LoopHandles) (started total : Nat) (frame : Frame) :
    (index : Nat) → List Value → RunState → Looped
  | _, [], r => ⟨.finished, [], r⟩
  | index, element :: elements, r =>
    if r.cancelled then
      ⟨.failed ⟨n.id, .cancelled⟩, [], s.fail place n .cancelled started r⟩
    else
      let r := s.send (.loopIteration n.id index total) r
      let here := inside place n.id index frame
      let passed := pass here [(n.id, ⟨[(loop.body, element)], none⟩)] r
      let values := collect n.backBinding element (passed.frame :: here.enclosing) passed.exit
      match passed.exit with
      | .finished | .loopContinue =>
        let rest := iterate pass place n loop started total frame (index + 1) elements passed.run
        { rest with collected := values ++ rest.collected }
      | .loopBreak => ⟨.finished, values, passed.run⟩
      | exit => ⟨exit, values, passed.run⟩

/-- The collection that a loop runs through, and its other outputs. -/
def splitCollection (loop : LoopHandles) (result : NodeResult) :
    Except NodeError (List Value × Outputs) :=
  match result with
  | .outputs values =>
    match Dict.get? values loop.body with
    | some (.array elements) => .ok (elements, Dict.erase values loop.body)
    | other =>
      let actual := match other with
        | some v => v.typeName
        | none => "nothing"
      .error (.invalidInputType loop.body "array" actual)
  | _ => .error (.executionFailed "loop executors must produce outputs")

def visitLoop (pass : Place → Frame → RunState → Passed) (place : Place) (n : PlannedNode)
    (loop : LoopHandles) (frame : Frame) (r : RunState) : Passed :=
  let started := r.clock
  let (result, r) := s.invoke place frame n (s.start n r)
  match result.bind (splitCollection loop) with
  | .error cause => s.settle place n started frame (.error cause) r
  | .ok (elements, outputs) =>
    let r := if elements.isEmpty then s.skipAll place (s.bodyNodes n.id) r else r
    let looped := s.iterate pass place n loop started elements.length frame 0 elements r
    match looped.exit with
    | .failed failure => ⟨.failed failure, frame, looped.run⟩
    | exit =>
      let outputs := Dict.insert outputs loop.done (.array looped.collected)
      s.settle place n started frame (.ok { outputs, exit }) looped.run

/-- Visits a member of a region, or skips it. -/
def visitMember (pass : Place → Frame → RunState → Passed) (place : Place) (n : PlannedNode)
    (frame : Frame) (r : RunState) : Passed :=
  if n.isActive (frame :: place.enclosing) then
    match n.kind.loopHandles? with
    | some loop => s.visitLoop pass place n loop frame r
    | none => s.visit place n frame r
  else ⟨.finished, frame, s.skip place n r⟩

/-- Visits members of a region one after the other, until one of them ends the pass. -/
def visitAll (pass : Place → Frame → RunState → Passed) (place : Place) :
    List PlannedNode → Frame → RunState → Passed
  | [], frame, r => ⟨.finished, frame, r⟩
  | n :: ns, frame, r =>
    let passed := s.visitMember pass place n frame r
    match passed.exit with
    | .finished => visitAll pass place ns passed.frame passed.run
    | _ => passed

/-- Goes through a region once; loops may be nested so deep in it. -/
def pass : (depth : Nat) → Place → Frame → RunState → Passed
  | 0, _, frame, r => ⟨.finished, frame, r⟩
  | depth + 1, place, frame, r =>
    (s.visitAll (pass depth) place (s.plan.regionNodes place.region) frame r).note place

/-! ### The whole run -/

/-- The state before anything happens. -/
def initial : RunState :=
  { cancelled := s.cancellation.atStart || s.cancellation.hasStruck 0
    statuses := s.plan.nodes.foldl (fun d n => Dict.insert d n.id .pending) [] }

/-- Ends the run after its pass through the top level: how the run ends, and its last state. -/
def finish (exit : Exit) (r : RunState) : Except Failure Outcome × RunState :=
  match exit with
  | .ended id => (.ok (.ended id), s.send (.runEnded id r.clock) r)
  | .failed f => (.error f, s.send (.runFailed f.nodeId f.cause.message r.clock) r)
  | _ => (.ok .completed, s.send (.runCompleted r.clock) r)

/-- Runs the plan: how the run ends, and its last state. -/
def execute : Except Failure Outcome × RunState :=
  let passed := s.pass (s.plan.loops.length + 1) {} [] (s.send (.runStarted s.plan.start) s.initial)
  s.finish passed.exit passed.run

end RunSettings

end FlowGraph
