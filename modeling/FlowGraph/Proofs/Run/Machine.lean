import FlowGraph.Run.Engine

/-!
Runs as sequences of small steps. A snapshot says what is being done, which loops are in the midst
of an iteration, and how far the run has come; a step does one thing: it calls an executor, ends a
visit, skips a member, enters an iteration, or ends a pass. What holds of a run is proved by showing
that every step keeps it.
-/

namespace FlowGraph

/-- A visit under way, with the frame of the pass it belongs to and the members that come after it. -/
structure OpenVisit where
  node : PlannedNode
  started : Nat
  frame : Frame
  todo : List PlannedNode

/-- A loop whose elements are being gone through. -/
structure OpenLoop extends OpenVisit where
  handles : LoopHandles
  elements : List Value
  /-- Its outputs besides the elements. -/
  outputs : Outputs
  /-- The iteration that is under way, or the one that comes next. -/
  index : Nat := 0
  collected : List Value := []

/-- What is being done. -/
inductive Phase where
  /-- A pass goes on to the first of these members. -/
  | passing (frame : Frame) (todo : List PlannedNode)
  /-- The executor of a node has been called. -/
  | answered (visit : OpenVisit) (result : Except NodeError NodeResult)
  /-- A visit is about to end. -/
  | settling (visit : OpenVisit) (outcome : Except NodeError RunSettings.Completion)
  /-- A pass is about to end. -/
  | leaving (frame : Frame) (exit : Exit)
  /-- The innermost open loop is about to make its next iteration. -/
  | looping
  | ended

/-- How a pass goes on after a member has been visited. -/
def Phase.next (exit : Exit) (frame : Frame) (todo : List PlannedNode) : Phase :=
  match exit with
  | .finished => .passing frame todo
  | exit => .leaving frame exit

/-- A run between two steps. -/
structure Snapshot where
  phase : Phase
  /-- The loops in whose bodies something is being done, the innermost one first. -/
  loops : List OpenLoop
  run : RunState

/-- The place of a pass inside of open loops. -/
def placeOf (loops : List OpenLoop) : Place :=
  ⟨loops.head?.map (·.node.id), (loops.map (·.index)).reverse, loops.map (·.frame)⟩

theorem placeOf_cons (o : OpenLoop) (loops : List OpenLoop) :
    placeOf (o :: loops) = RunSettings.inside (placeOf loops) o.node.id o.index o.frame := by
  simp [placeOf, RunSettings.inside]

theorem length_iteration_placeOf (loops : List OpenLoop) :
    (placeOf loops).iteration.length = loops.length := by
  simp [placeOf]

/-- The ids of open loops, the outermost one first. -/
def idsOf (loops : List OpenLoop) : List String :=
  (loops.map (·.node.id)).reverse

theorem idsOf_cons (o : OpenLoop) (loops : List OpenLoop) :
    idsOf (o :: loops) = idsOf loops ++ [o.node.id] := by
  simp [idsOf]

theorem mem_idsOf {loops : List OpenLoop} {id : String} :
    id ∈ idsOf loops ↔ ∃ o ∈ loops, o.node.id = id := by
  rw [idsOf, List.mem_reverse, List.mem_map]

theorem length_idsOf (loops : List OpenLoop) : (idsOf loops).length = loops.length := by
  simp [idsOf]

theorem getLast?_idsOf (loops : List OpenLoop) : (idsOf loops).getLast? = (placeOf loops).region := by
  rw [idsOf, List.getLast?_reverse, List.head?_map]
  rfl

/-- A loop that stands around a place is told by its depth: its id in the scope, the iteration that it
is visited in, and the index of its element. -/
theorem getElem?_of_prefix {loops outer : List OpenLoop} {o : OpenLoop}
    (hit : (placeOf outer).iteration ++ [o.index] <+: (placeOf loops).iteration)
    (hids : idsOf outer ++ [o.node.id] <+: idsOf loops) :
    (idsOf loops)[outer.length]? = some o.node.id ∧
      (placeOf loops).iteration.take outer.length = (placeOf outer).iteration ∧
      (placeOf loops).iteration[outer.length]? = some o.index := by
  obtain ⟨ids, hids⟩ := hids
  obtain ⟨it, hit⟩ := hit
  have hlength := length_idsOf outer
  have hlength' := length_iteration_placeOf outer
  rw [← hids, ← hit, ← hlength]
  refine ⟨by simp, ?_, ?_⟩
  · rw [hlength, ← hlength', List.append_assoc, List.take_left]
  · rw [hlength, ← hlength']
    simp

namespace OpenLoop

/-- What the members of the body find of the loop. -/
def entry (o : OpenLoop) (element : Value) : Completed :=
  ⟨[(o.handles.body, element)], none⟩

/-- The loop after an iteration that gave these values. -/
def collect (o : OpenLoop) (values : List Value) : OpenLoop :=
  { o with collected := o.collected ++ values }

/-- The loop before the iteration that comes after one that gave these values. -/
def advance (o : OpenLoop) (values : List Value) : OpenLoop :=
  { o with index := o.index + 1, collected := o.collected ++ values }

/-- What the loop has collected in the iteration that is under way once the pass ends. -/
def gathered (o : OpenLoop) (loops : List OpenLoop) (element : Value) (frame : Frame) (exit : Exit) :
    List Value :=
  RunSettings.collect o.node.backBinding element (frame :: (placeOf (o :: loops)).enclosing) exit

/-- How the visit of the loop completes. -/
def completion (o : OpenLoop) (exit : Exit) : RunSettings.Completion :=
  { outputs := Dict.insert o.outputs o.handles.done (.array o.collected), exit }

end OpenLoop

namespace RunSettings

variable (s : RunSettings)

/-- The snapshot in which a run begins. -/
def begin : Snapshot :=
  ⟨.passing [] (s.plan.regionNodes none), [], s.send (.runStarted s.plan.start) s.initial⟩

inductive Step : Snapshot → Snapshot → Prop
  /-- All members have been visited or skipped. -/
  | finish {frame loops r} :
      Step ⟨.passing frame [], loops, r⟩ ⟨.leaving frame .finished, loops, r⟩
  | skip {frame n todo loops r} (hinactive : n.isActive (frame :: (placeOf loops).enclosing) = false) :
      Step ⟨.passing frame (n :: todo), loops, r⟩
        ⟨.passing frame todo, loops, s.skip (placeOf loops) n r⟩
  | call {frame n todo loops r} (hactive : n.isActive (frame :: (placeOf loops).enclosing) = true) :
      Step ⟨.passing frame (n :: todo), loops, r⟩
        ⟨.answered ⟨n, r.clock, frame, todo⟩ (s.invoke (placeOf loops) frame n (s.start n r)).1, loops,
          (s.invoke (placeOf loops) frame n (s.start n r)).2⟩
  /-- A node that is no loop follows its result. -/
  | judge {v result loops r} (hkind : v.node.kind.loopHandles? = none) :
      Step ⟨.answered v result, loops, r⟩
        ⟨.settling v ((result.bind (checkResult (placeOf loops) v.node)).map (completion v.node)),
          loops, r⟩
  /-- A loop has got no collection. -/
  | refuse {v result loops r handles cause} (hkind : v.node.kind.loopHandles? = some handles)
      (hsplit : result.bind (splitCollection handles) = .error cause) :
      Step ⟨.answered v result, loops, r⟩ ⟨.settling v (.error cause), loops, r⟩
  | launch {v result loops r handles elements outputs}
      (hkind : v.node.kind.loopHandles? = some handles)
      (hsplit : result.bind (splitCollection handles) = .ok (elements, outputs)) :
      Step ⟨.answered v result, loops, r⟩
        ⟨.looping, { v with handles, elements, outputs } :: loops,
          if elements.isEmpty then s.skipAll (placeOf loops) (s.bodyNodes v.node.id) r else r⟩
  | cancel {o loops r} (hmore : o.index < o.elements.length) (hcancelled : r.cancelled = true) :
      Step ⟨.looping, o :: loops, r⟩ ⟨.settling o.toOpenVisit (.error .cancelled), loops, r⟩
  | enter {o loops r} (hmore : o.index < o.elements.length) (hlive : r.cancelled = false) :
      Step ⟨.looping, o :: loops, r⟩
        ⟨.passing [(o.node.id, o.entry o.elements[o.index])] (s.plan.regionNodes (some o.node.id)),
          o :: loops, s.send (.loopIteration o.node.id o.index o.elements.length) r⟩
  | exhaust {o loops r} (hdone : o.elements.length ≤ o.index) :
      Step ⟨.looping, o :: loops, r⟩ ⟨.settling o.toOpenVisit (.ok (o.completion .finished)), loops, r⟩
  /-- An iteration is over, and the loop goes on. -/
  | again {frame exit o loops r} (hmore : o.index < o.elements.length)
      (hexit : exit = .finished ∨ exit = .loopContinue) :
      Step ⟨.leaving frame exit, o :: loops, r⟩
        ⟨.looping, o.advance (o.gathered loops o.elements[o.index] frame exit) :: loops,
          r.log (.passed (some o.node.id) (placeOf (o :: loops)).iteration exit)⟩
  /-- The loop ends with an iteration, and with the whole run if that ends. -/
  | close {frame exit o loops r} (hmore : o.index < o.elements.length) {goesOn}
      (hexit : exit = .loopBreak ∧ goesOn = .finished ∨ ∃ id, exit = .ended id ∧ goesOn = exit) :
      Step ⟨.leaving frame exit, o :: loops, r⟩
        ⟨.settling o.toOpenVisit
            (.ok ((o.collect (o.gathered loops o.elements[o.index] frame exit)).completion goesOn)),
          loops, r.log (.passed (some o.node.id) (placeOf (o :: loops)).iteration exit)⟩
  /-- A failure inside the body leaves the loop open. -/
  | abandon {frame failure o loops r} :
      Step ⟨.leaving frame (.failed failure), o :: loops, r⟩
        ⟨.leaving o.frame (.failed failure), loops,
          r.log (.passed (some o.node.id) (placeOf (o :: loops)).iteration (.failed failure))⟩
  | settle {v outcome loops r} :
      Step ⟨.settling v outcome, loops, r⟩
        ⟨.next (s.settle (placeOf loops) v.node v.started v.frame outcome r).exit
            (s.settle (placeOf loops) v.node v.started v.frame outcome r).frame v.todo, loops,
          (s.settle (placeOf loops) v.node v.started v.frame outcome r).run⟩
  | conclude {frame exit r} :
      Step ⟨.leaving frame exit, [], r⟩
        ⟨.ended, [], (s.finish exit (r.log (.passed none [] exit))).2⟩

/-- The snapshots that a run can come to. -/
inductive Reachable : Snapshot → Prop
  | begin : Reachable s.begin
  | step {c c' : Snapshot} (h : Reachable c) (hstep : s.Step c c') : Reachable c'

end RunSettings

end FlowGraph
