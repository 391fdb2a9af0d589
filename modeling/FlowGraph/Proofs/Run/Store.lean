import FlowGraph.Proofs.Run.Determined
import FlowGraph.Proofs.Run.Results

/-!
What becomes of the variables of a run. Only an executor that has come to its result hands over
variables; whatever else the engine does, and a call that is refused or cut short, leaves them as they
were. So behind every answer there is the call that gave it, with the variables before and after.
-/

namespace FlowGraph

open Plan

namespace RunSettings

variable (s : RunSettings)

@[simp] theorem store_send (e : Event) (r : RunState) : (s.send e r).store = r.store := by
  unfold send RunState.send
  cases s.cancellation.upon <;> rfl

@[simp] theorem store_start (n : PlannedNode) (r : RunState) : (s.start n r).store = r.store :=
  s.store_send _ r

@[simp] theorem store_fail (place : Place) (n : PlannedNode) (cause : NodeError) (started : Nat)
    (r : RunState) : (s.fail place n cause started r).store = r.store :=
  s.store_send _ r

@[simp] theorem store_complete (place : Place) (n : PlannedNode) (outputs : Outputs)
    (signal : Option Signal) (started : Nat) (frame : Frame) (r : RunState) :
    (s.complete place n outputs signal started frame r).2.store = r.store :=
  s.store_send _ r

@[simp] theorem store_skipAll (place : Place) (ids : List String) (r : RunState) :
    (s.skipAll place ids r).store = r.store := by
  induction ids generalizing r with
  | nil => rfl
  | cons id ids ih =>
      show (s.skipAll place ids _).store = r.store
      rw [ih]
      exact s.store_send _ r

@[simp] theorem store_skip (place : Place) (n : PlannedNode) (r : RunState) :
    (s.skip place n r).store = r.store := by
  unfold skip
  cases n.kind.loopHandles? <;> exact s.store_skipAll place _ r

@[simp] theorem store_settle (place : Place) (n : PlannedNode) (started : Nat) (frame : Frame)
    (outcome : Except NodeError Completion) (r : RunState) :
    (s.settle place n started frame outcome r).run.store = r.store := by
  cases outcome with
  | error cause => exact s.store_fail place n cause started r
  | ok c => exact s.store_complete place n c.outputs c.signal started frame r

@[simp] theorem store_finish (exit : Exit) (r : RunState) : (s.finish exit r).2.store = r.store := by
  cases exit <;> exact s.store_send _ r

theorem store_sleepUntil (wake : Nat) (deadline : Option Nat) (r : RunState) :
    (s.sleepUntil wake deadline r).2.store = r.store := by
  unfold sleepUntil
  dsimp only
  split_ifs <;> rfl

theorem store_carryOut (id : String) (deadline : Option Nat) (steps : List ActivityStep) (r : RunState) :
    (s.carryOut id deadline steps r).2.store = r.store := by
  induction steps generalizing r with
  | nil => rfl
  | cons step steps ih =>
      cases step with
      | emit e =>
          rw [carryOut, ih]
          exact s.store_send _ r
      | sleep millis =>
          have hslept := s.store_sleepUntil (r.clock + millis) deadline r
          rw [carryOut]
          split
          next heq =>
            rw [heq] at hslept
            exact hslept
          next heq =>
            rw [heq] at hslept
            rw [ih]
            exact hslept

/-- What comes of a call, and what becomes of the variables. -/
inductive Hands (place : Place) (frame : Frame) (n : PlannedNode) (r : RunState) :
    Except NodeError NodeResult → RunState → Prop
  /-- The call is refused or cut short. -/
  | nothing {cause r'} (hstore : r'.store = r.store) : Hands place frame n r (.error cause) r'
  | returned {inputs events r'} (hinputs : n.resolveInputs (frame :: place.enclosing) = .ok inputs)
      (hstore : r'.store = (n.executor.run (s.contextOf place n inputs r.store)).store)
      (hjournal : r'.journal = .answered n.id place.iteration
        (n.executor.run (s.contextOf place n inputs r.store)).result ::
          (messages n.id events ++ .called n.id place.iteration inputs :: r.journal)) :
      Hands place frame n r (n.executor.run (s.contextOf place n inputs r.store)).result r'

theorem hands_invoke (place : Place) (frame : Frame) (n : PlannedNode) (r : RunState) :
    s.Hands place frame n r (s.invoke place frame n r).1 (s.invoke place frame n r).2 := by
  unfold invoke
  split_ifs with hcancelled
  · exact .nothing rfl
  · cases hinputs : n.resolveInputs (frame :: place.enclosing) with
    | error cause => exact .nothing rfl
    | ok inputs =>
        dsimp only
        let steps := (n.executor.run (s.contextOf place n inputs r.store)).steps
        let called := r.log (.called n.id place.iteration inputs)
        obtain ⟨events, hevents⟩ :=
          s.journal_carryOut n.id (s.nodeTimeout.map (r.clock + ·)) steps called
        have hstore := s.store_carryOut n.id (s.nodeTimeout.map (r.clock + ·)) steps called
        split
        next cause run heq => exact .nothing ((congrArg (·.2.store) heq).symm.trans hstore)
        next run heq =>
          have hrun : run.journal = messages n.id events ++ called.journal :=
            (congrArg (·.2.journal) heq).symm.trans hevents
          exact .returned hinputs rfl (congrArg (Entry.answered n.id place.iteration _ :: ·) hrun)

variable {s} {c c' : Snapshot}

theorem Hands.exists_inputs {place : Place} {frame : Frame} {n : PlannedNode} {r r' : RunState}
    {value : NodeResult} (h : s.Hands place frame n r (.ok value) r') : ∃ inputs events,
      n.resolveInputs (frame :: place.enclosing) = .ok inputs ∧
      (n.executor.run (s.contextOf place n inputs r.store)).result = .ok value ∧
      r'.store = (n.executor.run (s.contextOf place n inputs r.store)).store ∧
      r'.journal = .answered n.id place.iteration (.ok value) ::
        (messages n.id events ++ .called n.id place.iteration inputs :: r.journal) := by
  generalize hresult : Except.ok value = result at h ⊢
  cases h with
  | nothing => exact absurd hresult (by simp)
  | returned hinputs hstore hjournal => exact ⟨_, _, hinputs, rfl, hstore, hjournal⟩

/-- A step that is no call leaves the variables as they were. -/
theorem Step.store_eq (hstep : s.Step c c')
    (hcall : ∀ v result, c'.phase = .answered v result → False) : c'.run.store = c.run.store := by
  cases hstep with
  | skip => exact s.store_skip _ _ _
  | call => exact (hcall _ _ rfl).elim
  | @launch v result loops r handles elements outputs =>
      dsimp only
      split_ifs
      · exact s.store_skipAll _ _ _
      · rfl
  | enter => exact s.store_send _ _
  | settle => exact s.store_settle _ _ _ _ _ _
  | conclude => exact s.store_finish _ _
  | _ => rfl

/-- Behind every answer there is the call that gave it. -/
theorem Reachable.exists_call {v : OpenVisit} {result : Except NodeError NodeResult}
    {loops : List OpenLoop} {r : RunState} (h : s.Reachable ⟨.answered v result, loops, r⟩) :
    ∃ r₀, s.Reachable ⟨.passing v.frame (v.node :: v.todo), loops, r₀⟩ ∧
      s.Hands (placeOf loops) v.frame v.node (s.start v.node r₀) result r := by
  generalize hc : Snapshot.mk (.answered v result) loops r = c at h
  cases h with
  | begin => exact absurd (congrArg Snapshot.phase hc) (by simp [RunSettings.begin])
  | step h hstep =>
      cases hstep with
      | call =>
          cases hc
          exact ⟨_, h, s.hands_invoke _ _ _ _⟩
      | settle => exact absurd (congrArg Snapshot.phase hc).symm (Phase.next_ne_answered _ _ _ _ _)
      | _ => exact absurd (congrArg Snapshot.phase hc) (by simp)

end RunSettings

end FlowGraph
