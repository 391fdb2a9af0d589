import FlowGraph.Proofs.Run.Agreement
import FlowGraph.Proofs.Run.Visits

/-!
Where results and failures come from. What is answered by a node is the result of its executor on the
inputs that were found for it, unless the call was refused or cut short; every answer in the journal was
given in this way; and a run that fails has failed at a node whose visit was about to end so.
-/

namespace FlowGraph

open Plan

inductive CallResult (place : Place) (frame : Frame) (n : PlannedNode) :
    Except NodeError NodeResult → Prop
  | cancelled : CallResult place frame n (.error .cancelled)
  | timeout {millis} : CallResult place frame n (.error (.timeout millis))
  | unresolved {cause} (hinputs : n.resolveInputs (frame :: place.enclosing) = .error cause) :
      CallResult place frame n (.error cause)
  | returned {ctx : Context} (hinputs : n.resolveInputs (frame :: place.enclosing) = .ok ctx.inputs) :
      CallResult place frame n (n.executor.run ctx).result

namespace Phase

variable (exit : Exit) (frame : Frame) (todo : List PlannedNode)

theorem next_ne_answered (v : OpenVisit) (result : Except NodeError NodeResult) :
    next exit frame todo ≠ .answered v result := by
  cases exit <;> simp [next]

theorem next_ne_settling (v : OpenVisit) (outcome : Except NodeError RunSettings.Completion) :
    next exit frame todo ≠ .settling v outcome := by
  cases exit <;> simp [next]

theorem eq_of_next_eq_leaving {exit exit' : Exit} {frame frame' : Frame} {todo : List PlannedNode}
    (h : next exit frame todo = .leaving frame' exit') : exit = exit' := by
  cases exit <;> simp_all [next]

end Phase

namespace RunSettings

variable (s : RunSettings)

/-- Whether an error says that the run was cancelled, or that a call took longer than it may. -/
def IsLimit (e : NodeError) : Prop :=
  e = .cancelled ∨ ∃ millis, s.nodeTimeout = some millis ∧ e = .timeout millis

theorem sleepUntil_eq_some {wake : Nat} {deadline : Option Nat} {r : RunState} {e : NodeError}
    (hdeadline : s.nodeTimeout = none → deadline = none)
    (h : (s.sleepUntil wake deadline r).1 = some e) : s.IsLimit e := by
  unfold sleepUntil at h
  dsimp only at h
  split_ifs at h with _ _ hdue
  · exact Or.inl (Option.some.inj h).symm
  · exact Or.inl (Option.some.inj h).symm
  · cases htimeout : s.nodeTimeout with
    | none =>
        rw [hdeadline htimeout] at hdue
        exact absurd hdue (Nat.lt_irrefl wake)
    | some millis =>
        rw [htimeout] at h
        exact Or.inr ⟨millis, htimeout, (Option.some.inj h).symm⟩

theorem carryOut_eq_some {id : String} {deadline : Option Nat} {steps : List ActivityStep} {r : RunState}
    {e : NodeError} (hdeadline : s.nodeTimeout = none → deadline = none)
    (h : (s.carryOut id deadline steps r).1 = some e) : s.IsLimit e := by
  induction steps generalizing r with
  | nil => exact absurd h (by simp [carryOut])
  | cons step steps ih =>
      cases step with
      | emit event => exact ih h
      | sleep millis =>
          rw [carryOut] at h
          split at h
          next e' r' heq =>
            have hslept := s.sleepUntil_eq_some hdeadline (congrArg Prod.fst heq)
            obtain rfl := Option.some.inj h
            exact hslept
          · exact ih h

theorem callResult_invoke (place : Place) (frame : Frame) (n : PlannedNode) (r : RunState) :
    CallResult place frame n (s.invoke place frame n r).1 := by
  unfold invoke
  split_ifs
  · exact .cancelled
  · split
    next cause hinputs => exact .unresolved hinputs
    next inputs hinputs =>
      dsimp only
      split
      next e r' heq =>
        rcases s.carryOut_eq_some (by simp +contextual) (congrArg Prod.fst heq) with
          rfl | ⟨millis, -, rfl⟩
        · exact .cancelled
        · exact .timeout
      · exact .returned hinputs

theorem eq_of_checkResult_eq_ok {place : Place} {n : PlannedNode} {value value' : NodeResult}
    (h : checkResult place n value = .ok value') : value = value' := by
  unfold checkResult at h
  split at h
  · split_ifs at h
    exact Except.ok.inj h
  · split_ifs at h
    exact Except.ok.inj h
  · split_ifs at h
    exact Except.ok.inj h
  · exact Except.ok.inj h

variable {s} {c : Snapshot} {v : OpenVisit} {loops : List OpenLoop} {r : RunState}

theorem Reachable.callResult {result : Except NodeError NodeResult}
    (h : s.Reachable ⟨.answered v result, loops, r⟩) :
    CallResult (placeOf loops) v.frame v.node result := by
  generalize hc : Snapshot.mk (.answered v result) loops r = c at h
  cases h with
  | begin => exact absurd (congrArg Snapshot.phase hc) (by simp [RunSettings.begin])
  | step _ hstep =>
      cases hstep with
      | call =>
          cases hc
          exact s.callResult_invoke _ _ _ _
      | settle => exact absurd (congrArg Snapshot.phase hc).symm (Phase.next_ne_answered _ _ _ _ _)
      | _ => exact absurd (congrArg Snapshot.phase hc) (by simp)

/-- How a visit comes to fail: its node has failed or its result is not as it should be, or the loop that
it is about is cancelled. -/
theorem Reachable.exists_of_settling_error {cause : NodeError}
    (h : s.Reachable ⟨.settling v (.error cause), loops, r⟩) :
    cause = .cancelled ∨ ∃ result, s.Reachable ⟨.answered v result, loops, r⟩ ∧
      (v.node.kind.loopHandles? = none ∧ result.bind (checkResult (placeOf loops) v.node) = .error cause ∨
        ∃ handles, v.node.kind.loopHandles? = some handles ∧
          result.bind (splitCollection handles) = .error cause) := by
  generalize hc : Snapshot.mk (.settling v (.error cause)) loops r = c at h
  cases h with
  | begin => exact absurd (congrArg Snapshot.phase hc) (by simp [RunSettings.begin])
  | step h hstep =>
      cases hstep with
      | @judge _ result _ _ hkind =>
          obtain ⟨hphase, rfl, rfl⟩ := Snapshot.mk.inj hc
          obtain ⟨rfl, houtcome⟩ := Phase.settling.inj hphase
          refine Or.inr ⟨result, h, Or.inl ⟨hkind, ?_⟩⟩
          cases hchecked : result.bind (checkResult (placeOf loops) v.node) with
          | error e =>
              rw [hchecked] at houtcome
              obtain rfl : cause = e := Except.error.inj houtcome
              rfl
          | ok value => exact absurd (hchecked ▸ houtcome) (by simp [Except.map])
      | @refuse _ result _ _ handles _ hkind hsplit =>
          cases hc
          exact Or.inr ⟨result, h, Or.inr ⟨handles, hkind, hsplit⟩⟩
      | cancel =>
          cases hc
          exact Or.inl rfl
      | settle => exact absurd (congrArg Snapshot.phase hc).symm (Phase.next_ne_settling _ _ _ _ _)
      | _ => exact absurd (congrArg Snapshot.phase hc) (by simp)

/-- How a visit comes to complete: with the result of its node, or as a loop that has been gone
through. -/
theorem Reachable.exists_of_settling_ok (hp : s.plan.Lawful) {completion : Completion}
    (h : s.Reachable ⟨.settling v (.ok completion), loops, r⟩) :
    (v.node.kind.loopHandles? = none ∧ ∃ value, s.Reachable ⟨.answered v (.ok value), loops, r⟩ ∧
      completion = RunSettings.completion v.node value) ∨
    ∃ handles outputs collected exit, v.node.kind.loopHandles? = some handles ∧
      completion = { outputs := Dict.insert outputs handles.done (.array collected), exit } := by
  generalize hc : Snapshot.mk (.settling v (.ok completion)) loops r = c at h
  cases h with
  | begin => exact absurd (congrArg Snapshot.phase hc) (by simp [RunSettings.begin])
  | step h hstep =>
      have hstanding := standing_of_reachable hp h
      cases hstep with
      | @judge _ result _ _ hkind =>
          obtain ⟨hphase, rfl, rfl⟩ := Snapshot.mk.inj hc
          obtain ⟨rfl, houtcome⟩ := Phase.settling.inj hphase
          cases result with
          | error e => exact absurd houtcome (by simp [Except.bind, Except.map])
          | ok value =>
              refine Or.inl ⟨hkind, value, h, ?_⟩
              cases hchecked : (Except.ok value).bind (checkResult (placeOf loops) v.node) with
              | error e => exact absurd (hchecked ▸ houtcome) (by simp [Except.map])
              | ok value' =>
                  rw [hchecked] at houtcome
                  rw [eq_of_checkResult_eq_ok hchecked]
                  exact Except.ok.inj houtcome
      | exhaust =>
          cases hc
          obtain - | - | - | - | ⟨hopened, -, -⟩ := hstanding
          exact Or.inr ⟨_, _, _, _, hopened.kind_eq, rfl⟩
      | close =>
          cases hc
          obtain - | - | - | ⟨-, -, hstacked⟩ := hstanding
          exact Or.inr ⟨_, _, _, _, hstacked.1.kind_eq, rfl⟩
      | settle => exact absurd (congrArg Snapshot.phase hc).symm (Phase.next_ne_settling _ _ _ _ _)
      | _ => exact absurd (congrArg Snapshot.phase hc) (by simp)

/-- A pass that fails does so for a visit that was about to fail. -/
theorem Reachable.exists_settling_of_failed (hp : s.plan.Lawful) (h : s.Reachable c) {frame : Frame}
    {failure : Failure} (hphase : c.phase = .leaving frame (.failed failure)) :
    ∃ v loops r, s.Reachable ⟨.settling v (.error failure.cause), loops, r⟩ ∧
      v.node.id = failure.nodeId := by
  induction h generalizing frame with
  | begin => exact absurd hphase (by simp [RunSettings.begin])
  | step h hstep ih =>
      have hrecorded := h.recorded hp
      cases hstep with
      | abandon =>
          obtain ⟨-, hexit⟩ := Phase.leaving.inj hphase
          obtain rfl := Exit.failed.inj hexit
          exact ih rfl
      | @settle v outcome loops r =>
          have hexit := Phase.eq_of_next_eq_leaving hphase
          cases outcome with
          | error cause =>
              obtain rfl := Exit.failed.inj hexit
              exact ⟨v, loops, r, h, rfl⟩
          | ok completion =>
              cases hrecorded with
              | settling _ hnever => exact absurd hexit (hnever completion failure rfl)
      | _ => exact absurd hphase (by simp)

/-- Every answer was given when the executor of its node was called. -/
theorem Reachable.exists_answered (hp : s.plan.Lawful) (h : s.Reachable c) {id : String} {it : List Nat}
    {result : Except NodeError NodeResult} (hanswered : .answered id it result ∈ c.run.journal) :
    ∃ v loops r, s.Reachable ⟨.answered v result, loops, r⟩ ∧ v.node.id = id ∧
      (placeOf loops).iteration = it := by
  induction h with
  | begin =>
      rw [journal_begin] at hanswered
      exact absurd hanswered (by simp)
  | step h hstep ih =>
      obtain ⟨later, earlier, hjournal⟩ := List.append_of_mem hanswered
      rcases hstep.written hp (standing_of_reachable hp h) ⟨later, hjournal.symm⟩ with hold | hwrites
      · exact ih (hold.subset List.mem_cons_self)
      cases hwrites with
      | @answered frame n todo loops r _ _ hactive =>
          cases hstep with
          | skip hinactive => exact absurd (hactive.symm.trans hinactive) (by simp)
          | call _ =>
              have hcalls := s.calls_invoke (placeOf loops) frame n (s.start n r)
              rcases hcalls.eq_of_answered_mem hanswered with hmem | ⟨-, -, rfl⟩
              · rw [journal_start] at hmem
                exact ih ((List.mem_cons.mp hmem).resolve_left (by simp))
              · exact ⟨_, _, _, h.step (.call hactive), rfl, rfl⟩

end RunSettings

end FlowGraph
