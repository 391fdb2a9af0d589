import FlowGraph.Proofs.Run.LoopVisits

/-!
How visits begin. Every visit under way goes back to a pass whose turn had come to its node, and which the
run had come to. A visit that is refused before the executor of its node is called ends the run there and
then.
-/

namespace FlowGraph

open Plan

namespace RunSettings

variable (s : RunSettings)

/-- Whether a visit was begun from a pass that the run had come to. -/
def Begun (v : OpenVisit) (loops : List OpenLoop) : Prop :=
  v.node.isActive (v.frame :: (placeOf loops).enclosing) = true ∧
    ∃ r, s.Reachable ⟨.passing v.frame (v.node :: v.todo), loops, r⟩

/-- Whether all open loops were begun so. -/
def AllBegun : List OpenLoop → Prop
  | [] => True
  | o :: loops => s.Begun o.toOpenVisit loops ∧ AllBegun loops

/-- The snapshots in which all that is under way was begun so. -/
inductive Originating : Snapshot → Prop
  | passing {frame todo loops r} (hloops : s.AllBegun loops) : Originating ⟨.passing frame todo, loops, r⟩
  | answered {v result loops r} (hv : s.Begun v loops) (hloops : s.AllBegun loops) :
      Originating ⟨.answered v result, loops, r⟩
  | settling {v outcome loops r} (hv : s.Begun v loops) (hloops : s.AllBegun loops) :
      Originating ⟨.settling v outcome, loops, r⟩
  | leaving {frame exit loops r} (hloops : s.AllBegun loops) : Originating ⟨.leaving frame exit, loops, r⟩
  | looping {loops r} (hloops : s.AllBegun loops) : Originating ⟨.looping, loops, r⟩
  | ended {loops r} : Originating ⟨.ended, loops, r⟩

variable {s} {c c' : Snapshot} {frame : Frame} {n : PlannedNode} {todo : List PlannedNode}
  {loops : List OpenLoop} {r : RunState}

theorem Step.originating (hc : s.Reachable c) (hstep : s.Step c c') (h : s.Originating c) :
    s.Originating c' := by
  cases hstep with
  | finish =>
      cases h with
      | passing hloops => exact .leaving hloops
  | skip =>
      cases h with
      | passing hloops => exact .passing hloops
  | call hactive =>
      cases h with
      | passing hloops => exact .answered ⟨hactive, _, hc⟩ hloops
  | judge | refuse =>
      cases h with
      | answered hv hloops => exact .settling hv hloops
  | launch =>
      cases h with
      | answered hv hloops => exact .looping ⟨hv, hloops⟩
  | cancel | exhaust =>
      cases h with
      | looping hloops => exact .settling hloops.1 hloops.2
  | enter =>
      cases h with
      | looping hloops => exact .passing hloops
  | again =>
      cases h with
      | leaving hloops => exact .looping hloops
  | close =>
      cases h with
      | leaving hloops => exact .settling hloops.1 hloops.2
  | abandon =>
      cases h with
      | leaving hloops => exact .leaving hloops.2
  | @settle v outcome loops r =>
      cases h with
      | settling _ hloops =>
          generalize (s.settle (placeOf loops) v.node v.started v.frame outcome r).exit = exit
          cases exit with
          | finished => exact .passing hloops
          | _ => exact .leaving hloops
  | conclude => exact .ended

theorem Reachable.originating (hc : s.Reachable c) : s.Originating c := by
  induction hc with
  | begin => exact .passing trivial
  | step hc hstep ih => exact hstep.originating hc ih

/-- A step that tells nothing leaves the run as it was. -/
theorem Step.run_eq_or_length_lt (hstep : s.Step c c') :
    c'.run = c.run ∨ c.run.journal.length < c'.run.journal.length := by
  cases hstep with
  | finish | judge | refuse | cancel | exhaust => exact Or.inl rfl
  | skip =>
      right
      dsimp only
      rw [journal_skip, List.length_append]
      simp [skips]
  | @call frame n todo loops r =>
      right
      have hinvoked := (s.moves_invoke (placeOf loops) frame n (s.start n r)).suffix.length_le
      rw [journal_start, List.length_cons] at hinvoked
      exact hinvoked
  | @launch v result loops r handles elements outputs =>
      dsimp only
      split_ifs
      · cases hbody : s.bodyNodes v.node.id with
        | nil => exact Or.inl rfl
        | cons id ids =>
            right
            rw [journal_skipAll, List.length_append]
            simp [skips]
      · exact Or.inl rfl
  | enter =>
      right
      dsimp only
      rw [journal_send]
      exact Nat.lt_succ_self _
  | again | close | abandon => exact Or.inr (Nat.lt_succ_self _)
  | @settle v outcome loops r =>
      right
      cases outcome with
      | error cause =>
          show _ < (s.fail _ _ _ _ _).journal.length
          rw [journal_fail]
          exact Nat.lt_succ_of_lt (Nat.lt_succ_self _)
      | ok done =>
          have hrecorded := congrArg List.length
            (s.journal_complete (placeOf loops) v.node done.outputs done.signal v.started v.frame r)
          exact hrecorded ▸ Nat.lt_succ_of_lt (Nat.lt_succ_self _)
  | @conclude frame exit r =>
      exact Or.inr (s.moves_finish exit (r.log (.passed none [] exit))).suffix.length_le

/-- The journal tells whether the run has been cancelled by then. -/
theorem Reachable.firedBy_iff (hc : s.Reachable c) : s.FiredBy c.run.journal ↔ c.run.cancelled = true := by
  refine ⟨?_, fun hcancelled => .state hc hcancelled List.suffix_rfl⟩
  intro hfired
  rcases hfired.journal_or_state with hfired | ⟨c₁, hc₁, hcancelled, hsuffix⟩
  · exact Moves.heeds hc.moves heeds_initial (Or.inl hfired)
  -- What comes later has the same journal only as long as nothing has changed.
  have hlater : s.Steps c c₁ → c₁.run = c.run := by
    intro hsteps
    induction hsteps with
    | refl => rfl
    | @tail c₂ c₁ hsteps hstep ih =>
        have hlength := hsuffix.length_le
        have hsame : c₁.run = c₂.run := by
          refine hstep.run_eq_or_length_lt.resolve_right fun hlt => ?_
          have hgrown := (moves_of_steps hsteps).suffix.length_le
          omega
        rw [hsame] at hsuffix hcancelled ⊢
        exact ih (hc.steps hsteps) hcancelled hsuffix
  rcases hc₁.total hc with hsteps | hsteps
  · exact Moves.cancelled (moves_of_steps hsteps) hcancelled
  · rw [← hlater hsteps]
    exact hcancelled

theorem Reachable.execute_failed (hp : s.plan.Lawful) {failure : Failure}
    (h : s.Reachable ⟨.leaving frame (.failed failure), loops, r⟩) : s.execute.1 = .error failure := by
  induction loops generalizing frame r with
  | nil => rw [h.execute_eq hp]; rfl
  | cons o loops ih => exact ih (h.step .abandon)

/-- Whether a visit of a node that was begun upon a journal has failed, and with it the run, without the
executor having been called. -/
structure FailsAtOnce (s : RunSettings) (n : PlannedNode) (it : List Nat) (before : List Entry)
    (cause : NodeError) : Prop where
  told : .visited ⟨n.id, it, .failed, none, 0⟩ :: .sent (.nodeFailed n.id cause.message) ::
    .sent (.nodeStarted n.id n.typeName) :: before <:+ s.execute.2.journal
  uncalled : ∀ inputs, .called n.id it inputs ∉ s.execute.2.journal
  ends : s.execute.1 = .error ⟨n.id, cause⟩

theorem Reachable.failsAtOnce (hp : s.plan.Lawful) {cause : NodeError}
    (hc : s.Reachable ⟨.passing frame (n :: todo), loops, r⟩)
    (h : s.Reachable ⟨.answered ⟨n, r.clock, frame, todo⟩ (.error cause), loops, s.start n r⟩) :
    s.FailsAtOnce n (placeOf loops).iteration r.journal cause := by
  have hsettling : s.Reachable ⟨.settling ⟨n, r.clock, frame, todo⟩ (.error cause), loops, s.start n r⟩ := by
    cases hkind : n.kind.loopHandles? with
    | none => exact h.step (.judge hkind)
    | some handles => exact h.step (.refuse hkind rfl)
  have hleft := hsettling.step .settle
  have hjournal := s.journal_fail (placeOf loops) n cause r.clock (s.start n r)
  have hclock : (s.start n r).clock = r.clock := s.clock_send _ r
  rw [journal_start, hclock, Nat.sub_self] at hjournal
  refine ⟨hjournal ▸ hleft.suffix_execute hp, fun inputs hcalled => ?_, hleft.execute_failed hp⟩
  obtain ⟨added, hexecute, hadded⟩ := hleft.fails_out hp
  have hall : (s.settle (placeOf loops) n r.clock frame (.error cause) (s.start n r)).run.journal = _ :=
    hjournal
  rw [hexecute, hall] at hcalled
  rcases List.mem_append.mp hcalled with hcalled | hcalled
  · exact absurd (hadded _ hcalled).1 (by simp [Entry.located?])
  · obtain ⟨-, huntouched, -⟩ := standing_of_reachable hp hc
    have hold : .called n.id (placeOf loops).iteration inputs ∈ r.journal := by simpa using hcalled
    exact Precedes.irrefl _ (huntouched n List.mem_cons_self _ hold n.id _ rfl (Or.inl rfl))

end RunSettings

end FlowGraph
