import FlowGraph.Proofs.Run.Simulation
import Mathlib.Logic.Relation

/-!
A run goes one way only. From a snapshot there is at most one step, so of two snapshots that a run comes
to the one leads to the other, and the one in which the pass through the top level is about to end is the
one that the result of the run is taken from.
-/

namespace FlowGraph

open Plan

namespace RunSettings

variable {s : RunSettings} {c c₁ c₂ : Snapshot}

theorem Step.deterministic (h₁ : s.Step c c₁) (h₂ : s.Step c c₂) : c₁ = c₂ := by
  cases h₁ with
  | finish => cases h₂; rfl
  | skip hinactive =>
      cases h₂ with
      | skip => rfl
      | call hactive => exact absurd (hinactive.symm.trans hactive) (by simp)
  | call hactive =>
      cases h₂ with
      | skip hinactive => exact absurd (hinactive.symm.trans hactive) (by simp)
      | call => rfl
  | judge hkind =>
      cases h₂ with
      | judge => rfl
      | refuse hkind' => exact absurd (hkind.symm.trans hkind') (by simp)
      | launch hkind' => exact absurd (hkind.symm.trans hkind') (by simp)
  | refuse hkind hsplit =>
      cases h₂ with
      | judge hkind' => exact absurd (hkind.symm.trans hkind') (by simp)
      | refuse hkind' hsplit' =>
          obtain rfl := Option.some.inj (hkind.symm.trans hkind')
          rw [Except.error.inj (hsplit.symm.trans hsplit')]
      | launch hkind' hsplit' =>
          obtain rfl := Option.some.inj (hkind.symm.trans hkind')
          exact absurd (hsplit.symm.trans hsplit') (by simp)
  | launch hkind hsplit =>
      cases h₂ with
      | judge hkind' => exact absurd (hkind.symm.trans hkind') (by simp)
      | refuse hkind' hsplit' =>
          obtain rfl := Option.some.inj (hkind.symm.trans hkind')
          exact absurd (hsplit.symm.trans hsplit') (by simp)
      | launch hkind' hsplit' =>
          obtain rfl := Option.some.inj (hkind.symm.trans hkind')
          obtain ⟨rfl, rfl⟩ := Prod.mk.inj (Except.ok.inj (hsplit.symm.trans hsplit'))
          rfl
  | cancel hmore hcancelled =>
      cases h₂ with
      | cancel => rfl
      | enter _ hlive => exact absurd (hlive.symm.trans hcancelled) (by simp)
      | exhaust hdone => exact absurd hmore (by omega)
  | enter hmore hlive =>
      cases h₂ with
      | cancel _ hcancelled => exact absurd (hlive.symm.trans hcancelled) (by simp)
      | enter => rfl
      | exhaust hdone => exact absurd hmore (by omega)
  | exhaust hdone =>
      cases h₂ with
      | cancel hmore => exact absurd hmore (by omega)
      | enter hmore => exact absurd hmore (by omega)
      | exhaust => rfl
  | again _ hexit =>
      cases h₂ with
      | again => rfl
      | close _ hexit' =>
          rcases hexit with rfl | rfl <;> rcases hexit' with ⟨h, -⟩ | ⟨_, h, -⟩ <;>
            exact absurd h (by simp)
      | abandon => rcases hexit with h | h <;> exact absurd h (by simp)
  | close _ hexit =>
      cases h₂ with
      | again _ hexit' =>
          rcases hexit' with rfl | rfl <;> rcases hexit with ⟨h, -⟩ | ⟨_, h, -⟩ <;>
            exact absurd h (by simp)
      | close _ hexit' =>
          rcases hexit with ⟨rfl, rfl⟩ | ⟨_, rfl, rfl⟩ <;>
            rcases hexit' with ⟨h, rfl⟩ | ⟨_, h, rfl⟩ <;> first | rfl | exact absurd h (by simp)
      | abandon => rcases hexit with ⟨h, -⟩ | ⟨_, h, -⟩ <;> exact absurd h (by simp)
  | abandon =>
      cases h₂ with
      | again _ hexit => rcases hexit with h | h <;> exact absurd h (by simp)
      | close _ hexit => rcases hexit with ⟨h, -⟩ | ⟨_, h, -⟩ <;> exact absurd h (by simp)
      | abandon => rfl
  | settle => cases h₂; rfl
  | conclude => cases h₂; rfl

/-- Whether a snapshot leads to another one. -/
abbrev Steps (s : RunSettings) : Snapshot → Snapshot → Prop :=
  Relation.ReflTransGen s.Step

theorem Reachable.steps (h : s.Reachable c) (hsteps : s.Steps c c₁) : s.Reachable c₁ := by
  induction hsteps with
  | refl => exact h
  | tail _ hstep ih => exact ih.step hstep

theorem steps_of_reachable (h : s.Reachable c) : s.Steps s.begin c := by
  induction h with
  | begin => exact .refl
  | step _ hstep ih => exact ih.tail hstep

/-- Of two snapshots that a run comes to the one leads to the other. -/
theorem Reachable.total (h₁ : s.Reachable c₁) (h₂ : s.Reachable c₂) :
    s.Steps c₁ c₂ ∨ s.Steps c₂ c₁ :=
  Relation.ReflTransGen.total_of_right_unique (fun _ _ _ => Step.deterministic)
    (steps_of_reachable h₁) (steps_of_reachable h₂)

theorem eq_of_steps_ended {loops : List OpenLoop} {r : RunState}
    (h : s.Steps ⟨.ended, loops, r⟩ c) : c = ⟨.ended, loops, r⟩ := by
  rcases Relation.ReflTransGen.cases_head h with heq | ⟨c', hstep, -⟩
  · exact heq.symm
  · cases hstep

/-- Everything that a run comes to leads to its end. -/
theorem Reachable.steps_execute (hp : s.plan.Lawful) (h : s.Reachable c) :
    s.Steps c ⟨.ended, [], s.execute.2⟩ := by
  rcases h.total (reachable_execute hp) with hsteps | hsteps
  · exact hsteps
  · rw [eq_of_steps_ended hsteps]

/-- The result of a run is taken from any snapshot in which the top level is about to be left. -/
theorem Reachable.execute_eq (hp : s.plan.Lawful) {frame : Frame} {exit : Exit} {r : RunState}
    (h : s.Reachable ⟨.leaving frame exit, [], r⟩) :
    s.execute = s.finish exit (r.log (.passed none [] exit)) := by
  obtain ⟨frame', exit', r', h', hexecute⟩ := exists_leaving_of_execute hp
  have hlast : ∀ {frame exit r frame' exit' r'},
      s.Steps ⟨.leaving frame exit, [], r⟩ ⟨.leaving frame' exit', [], r'⟩ →
      exit = exit' ∧ r = r' := by
    intro frame exit r frame' exit' r' hsteps
    rcases Relation.ReflTransGen.cases_head hsteps with heq | ⟨c, hstep, hrest⟩
    · cases heq
      exact ⟨rfl, rfl⟩
    · cases hstep
      exact absurd (congrArg Snapshot.phase (eq_of_steps_ended hrest)) (by simp)
  rcases h.total h' with hsteps | hsteps
  · obtain ⟨rfl, rfl⟩ := hlast hsteps
    exact hexecute
  · obtain ⟨rfl, rfl⟩ := hlast hsteps
    exact hexecute

end RunSettings

end FlowGraph
