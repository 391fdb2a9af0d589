import FlowGraph.Proofs.Run.Determined
import FlowGraph.Proofs.Run.Results
import FlowGraph.Proofs.Run.Skips

/-!
Runs with and without limits. A run that may be cancelled, or whose calls may take too long, goes step by
step as the one without limits does, but for the note that it has been cancelled; until a call is cut short
or a loop is not entered again. From there on it only fails: it records one failed visit, and then nothing,
while the run without limits would still record the visit that was cut, and what comes after it.
-/

namespace FlowGraph

open Plan

namespace RunSettings

/-- The same run without limits. -/
def unlimited (s : RunSettings) : RunSettings :=
  { s with nodeTimeout := none, cancellation := {} }

end RunSettings

/-- The same state of a run that has not been cancelled. -/
def RunState.free (r : RunState) : RunState :=
  { r with cancelled := false }

namespace RunState

variable (r : RunState)

@[simp] theorem free_clock : r.free.clock = r.clock := rfl

@[simp] theorem free_store : r.free.store = r.store := rfl

@[simp] theorem free_cancelled : r.free.cancelled = false := rfl

theorem free_log (e : Entry) : r.free.log e = (r.log e).free := rfl

end RunState

/-- The same snapshot of a run that has not been cancelled. -/
def Snapshot.free (c : Snapshot) : Snapshot :=
  { c with run := c.run.free }

/-- Whether a visit is under way, which is still to be recorded. -/
def Snapshot.Owes (c : Snapshot) : Prop :=
  match c.phase with
  | .answered _ _ | .settling _ _ | .looping => True
  | .passing _ _ => c.loops ≠ []
  | .leaving _ exit => c.loops ≠ [] ∧ ∀ f, exit ≠ .failed f
  | .ended => False

namespace RunSettings

variable (s : RunSettings)

@[simp] theorem unlimited_inputs : s.unlimited.inputs = s.inputs := rfl

@[simp] theorem unlimited_nodeTimeout : s.unlimited.nodeTimeout = none := rfl

/-! ### What the engine does without limits -/

theorem unlimited_send (e : Event) (r : RunState) : s.unlimited.send e r.free = (s.send e r).free := by
  unfold send RunState.send
  cases s.cancellation.upon <;> rfl

theorem unlimited_start (n : PlannedNode) (r : RunState) :
    s.unlimited.start n r.free = (s.start n r).free :=
  congrArg (RunState.setStatus · n.id .running) (s.unlimited_send _ r)

theorem unlimited_skipAll (place : Place) (ids : List String) (r : RunState) :
    s.unlimited.skipAll place ids r.free = (s.skipAll place ids r).free := by
  induction ids generalizing r with
  | nil => rfl
  | cons id ids ih =>
      have hsent := s.unlimited_send (.nodeSkipped id) r
      show s.unlimited.skipAll place ids (RunState.recordVisit (s.unlimited.send _ r.free) _) = _
      rw [hsent]
      exact ih ((s.send (.nodeSkipped id) r).recordVisit ⟨id, place.iteration, .skipped, none, 0⟩)

theorem unlimited_skip (place : Place) (n : PlannedNode) (r : RunState) :
    s.unlimited.skip place n r.free = (s.skip place n r).free := by
  unfold skip
  cases n.kind.loopHandles? <;> exact s.unlimited_skipAll place _ r

theorem unlimited_fail (place : Place) (n : PlannedNode) (cause : NodeError) (started : Nat)
    (r : RunState) :
    s.unlimited.fail place n cause started r.free = (s.fail place n cause started r).free :=
  congrArg (RunState.recordVisit · _) (s.unlimited_send _ r)

theorem unlimited_complete (place : Place) (n : PlannedNode) (outputs : Outputs)
    (signal : Option Signal) (started : Nat) (frame : Frame) (r : RunState) :
    s.unlimited.complete place n outputs signal started frame r.free =
      ((s.complete place n outputs signal started frame r).1,
        (s.complete place n outputs signal started frame r).2.free) := by
  have hsent := s.unlimited_send (.nodeCompleted n.id outputs (r.clock - started)) r
  simp only [complete, RunState.free_clock, hsent]
  rfl

theorem unlimited_settle (place : Place) (n : PlannedNode) (started : Nat) (frame : Frame)
    (outcome : Except NodeError Completion) (r : RunState) :
    s.unlimited.settle place n started frame outcome r.free =
      { s.settle place n started frame outcome r with
        run := (s.settle place n started frame outcome r).run.free } := by
  cases outcome with
  | error cause => simp only [settle, unlimited_fail]
  | ok completion => simp only [settle, unlimited_complete]

theorem unlimited_finish (exit : Exit) (r : RunState) :
    s.unlimited.finish exit r.free = ((s.finish exit r).1, (s.finish exit r).2.free) := by
  cases exit <;> exact congrArg (Prod.mk _) (s.unlimited_send _ r)

theorem unlimited_carryOut {id : String} {deadline : Option Nat} {steps : List ActivityStep}
    {r : RunState} (h : (s.carryOut id deadline steps r).1 = none) :
    s.unlimited.carryOut id none steps r.free = (none, (s.carryOut id deadline steps r).2.free) := by
  induction steps generalizing r with
  | nil => rfl
  | cons step steps ih =>
      cases step with
      | emit event =>
          rw [carryOut, unlimited_send]
          exact ih h
      | sleep millis =>
          have hfree : s.unlimited.sleepUntil (r.clock + millis) none r.free =
              (none, { r.free with clock := r.clock + millis }) := by
            simp [sleepUntil, Cancellation.hasStruck, unlimited, RunState.free]
          have hslept : (s.sleepUntil (r.clock + millis) deadline r).1 = none →
              (s.sleepUntil (r.clock + millis) deadline r).2 =
                { r with clock := r.clock + millis } := by
            intro hnone
            unfold sleepUntil at hnone ⊢
            dsimp only at hnone ⊢
            split_ifs at hnone ⊢
            rfl
          rw [carryOut] at h
          rw [carryOut, carryOut]
          split at h
          · exact absurd h (by simp)
          next run heq =>
            rw [heq] at hslept
            obtain rfl := hslept rfl
            rw [RunState.free_clock, hfree]
            exact ih h

/-- A call goes as it does without limits, or else it is cut short. -/
theorem unlimited_invoke (place : Place) (frame : Frame) (n : PlannedNode) (r : RunState) :
    (∃ cause, s.IsLimit cause ∧ (s.invoke place frame n r).1 = .error cause) ∨
      s.unlimited.invoke place frame n r.free =
        ((s.invoke place frame n r).1, (s.invoke place frame n r).2.free) := by
  cases hcancelled : r.cancelled with
  | true => exact Or.inl ⟨.cancelled, Or.inl rfl, by rw [invoke, if_pos hcancelled]⟩
  | false =>
  simp only [invoke, contextOf, hcancelled, RunState.free_cancelled, Bool.false_eq_true, if_false]
  cases hinputs : n.resolveInputs (frame :: place.enclosing) with
  | error cause => exact Or.inr rfl
  | ok inputs =>
      dsimp only
      generalize hcarried : s.carryOut n.id _ _ (r.log (.called n.id place.iteration inputs)) = carried
      obtain ⟨_ | cause, run⟩ := carried
      · have hfree := s.unlimited_carryOut (congrArg Prod.fst hcarried)
        rw [hcarried] at hfree
        refine Or.inr ?_
        simp only [unlimited_inputs, RunState.free_store, unlimited_nodeTimeout, Option.map_none,
          RunState.free_log, hfree]
        rfl
      · refine Or.inl ⟨cause, ?_, rfl⟩
        exact s.carryOut_eq_some (fun h => by rw [h]; rfl) (congrArg Prod.fst hcarried)

variable {s} {c c' : Snapshot}

/-- A step that a run makes because of its limits. -/
inductive Cut (s : RunSettings) : Snapshot → Snapshot → Prop
  | call {frame n todo loops r cause r'}
      (hactive : n.isActive (frame :: (placeOf loops).enclosing) = true) (hlimit : s.IsLimit cause)
      (hvisits : r'.visits = r.visits) :
      Cut s ⟨.passing frame (n :: todo), loops, r⟩
        ⟨.answered ⟨n, r.clock, frame, todo⟩ (.error cause), loops, r'⟩
  | loop {o loops r} :
      Cut s ⟨.looping, o :: loops, r⟩ ⟨.settling o.toOpenVisit (.error .cancelled), loops, r⟩

theorem visits_call (s : RunSettings) (place : Place) (frame : Frame) (n : PlannedNode) (r : RunState) :
    (s.invoke place frame n (s.start n r)).2.visits = r.visits := by
  have hcalls := s.calls_invoke place frame n (s.start n r)
  rw [journal_start] at hcalls
  obtain ⟨added, hafter, hadded⟩ := hcalls.exists_added
  have hnone : added.filterMap Entry.visit? = [] :=
    List.filterMap_eq_nil_iff.mpr fun e he => (hadded e he).1
  rw [RunState.visits, hafter, List.filterMap_append, hnone]
  rfl

/-- A step goes as it does without limits, unless it is made because of them. -/
theorem Step.unlimited (hstep : s.Step c c') : s.unlimited.Step c.free c'.free ∨ s.Cut c c' := by
  cases hstep with
  | finish => exact Or.inl .finish
  | @skip frame n todo loops r hinactive =>
      have h : s.unlimited.Step ⟨.passing frame (n :: todo), loops, r.free⟩ _ := .skip hinactive
      rw [unlimited_skip] at h
      exact Or.inl h
  | @call frame n todo loops r hactive =>
      rcases s.unlimited_invoke (placeOf loops) frame n (s.start n r) with ⟨cause, hlimit, heq⟩ | heq
      · rw [heq]
        exact Or.inr (.call hactive hlimit (s.visits_call _ _ _ _))
      · have h : s.unlimited.Step ⟨.passing frame (n :: todo), loops, r.free⟩ _ := .call hactive
        rw [unlimited_start, heq] at h
        exact Or.inl h
  | judge hkind => exact Or.inl (.judge hkind)
  | refuse hkind hsplit => exact Or.inl (.refuse hkind hsplit)
  | @launch v result loops r handles elements outputs hkind hsplit =>
      have h : s.unlimited.Step ⟨.answered v result, loops, r.free⟩ _ := .launch hkind hsplit
      rw [unlimited_skipAll, ← apply_ite RunState.free] at h
      exact Or.inl h
  | cancel => exact Or.inr .loop
  | @enter o loops r hmore hlive =>
      have h : s.unlimited.Step ⟨.looping, o :: loops, r.free⟩ _ := .enter hmore rfl
      rw [unlimited_send] at h
      exact Or.inl h
  | exhaust hdone => exact Or.inl (.exhaust hdone)
  | again hmore hexit => exact Or.inl (.again hmore hexit)
  | close hmore hexit => exact Or.inl (.close hmore hexit)
  | abandon => exact Or.inl .abandon
  | @settle v outcome loops r =>
      have h : s.unlimited.Step ⟨.settling v outcome, loops, r.free⟩ _ := .settle
      rw [unlimited_settle] at h
      exact Or.inl h
  | @conclude frame exit r =>
      have h : s.unlimited.Step ⟨.leaving frame exit, [], r.free⟩ _ := .conclude
      rw [RunState.free_log, unlimited_finish] at h
      exact Or.inl h

/-- Whether the run without limits comes to these visits while another one is under way. -/
def Kept (s : RunSettings) (visits : List Visit) : Prop :=
  ∃ c, s.unlimited.Reachable c ∧ c.Owes ∧ c.run.visits = visits

/-- What a run comes to once it has been cut short: it fails, and records this with one visit. -/
inductive Truncated (s : RunSettings) : Snapshot → Prop
  | answered {v cause loops r} (hlimit : s.IsLimit cause) (hkept : s.Kept r.visits) :
      Truncated s ⟨.answered v (.error cause), loops, r⟩
  | settling {v cause loops r} (hlimit : s.IsLimit cause) (hkept : s.Kept r.visits) :
      Truncated s ⟨.settling v (.error cause), loops, r⟩
  | leaving {frame visit cause loops r visits} (hlimit : s.IsLimit cause) (hkept : s.Kept visits)
      (hfailed : visit.status = .failed) (hvisits : r.visits = visits ++ [visit]) :
      Truncated s ⟨.leaving frame (.failed ⟨visit.nodeId, cause⟩), loops, r⟩
  | ended {loops r} : Truncated s ⟨.ended, loops, r⟩

theorem Truncated.step (h : s.Truncated c) (hstep : s.Step c c') : s.Truncated c' := by
  cases h with
  | answered hlimit hkept =>
      cases hstep with
      | judge => exact .settling hlimit hkept
      | refuse _ hsplit =>
          obtain rfl := Except.error.inj hsplit
          exact .settling hlimit hkept
      | launch _ hsplit => exact absurd hsplit (by simp [Except.bind])
  | @settling v cause loops r hlimit hkept =>
      cases hstep with
      | settle =>
          have hvisits : (s.fail (placeOf loops) v.node cause v.started r).visits = r.visits ++
              [⟨v.node.id, (placeOf loops).iteration, .failed, none, r.clock - v.started⟩] := by
            show ((s.send _ r).log _).visits = _
            rw [RunState.visits_log_visited, visits_send]
          exact .leaving hlimit hkept rfl hvisits
  | leaving hlimit hkept hfailed hvisits =>
      cases hstep with
      | again _ hexit => rcases hexit with h | h <;> exact absurd h (by simp)
      | close _ hexit => rcases hexit with ⟨h, -⟩ | ⟨_, h, -⟩ <;> exact absurd h (by simp)
      | abandon => exact .leaving hlimit hkept hfailed hvisits
      | conclude => exact .ended
  | ended => cases hstep

end RunSettings

end FlowGraph
