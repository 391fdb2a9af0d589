import FlowGraph.Proofs.Run.Limits

/-!
What a run still does after it has been cancelled. Executors are called and iterations entered only while
the run is not cancelled, and it stays cancelled; so from then on nothing new begins, and of the nodes that
are no loops only the one called last can still complete. With this the run without limits is compared with
a run that is cut short.
-/

namespace FlowGraph

open Plan

/-- Whether an entry tells that an executor is called or that a loop enters an iteration. -/
def Entry.Begins : Entry → Prop
  | called _ _ _ | sent (.loopIteration _ _ _) => True
  | _ => False

/-- Whether a run has been cancelled before it began, or upon an event in its journal. -/
def Cancellation.FiredIn (c : Cancellation) (journal : List Entry) : Prop :=
  c.atStart = true ∨ ∃ fires, c.upon = some fires ∧ ∃ e rest, .sent e :: rest <:+ journal ∧
    fires ((Entry.sent e :: rest).filterMap Entry.event?) = true

/-- Whether a run has been cancelled as its journal and its clock tell. -/
def Cancellation.FiredAt (c : Cancellation) (r : RunState) : Prop :=
  c.FiredIn r.journal ∨ c.hasStruck r.clock = true

theorem Cancellation.hasStruck_iff {c : Cancellation} {now : Nat} : c.hasStruck now = true ↔
    ∃ t, c.atTime = some t ∧ (t < now ∨ c.ahead = true ∧ t = now) := by
  unfold hasStruck
  cases c.atTime <;> simp

theorem Cancellation.hasStruck_mono {c : Cancellation} {now later : Nat} (hle : now ≤ later)
    (h : c.hasStruck now = true) : c.hasStruck later = true := by
  obtain ⟨t, ht, hlt | ⟨hahead, rfl⟩⟩ := hasStruck_iff.mp h
  · exact hasStruck_iff.mpr ⟨t, ht, Or.inl (Nat.lt_of_lt_of_le hlt hle)⟩
  · exact hasStruck_iff.mpr ⟨t, ht, (Nat.eq_or_lt_of_le hle).symm.imp_right fun heq => ⟨hahead, heq⟩⟩

namespace RunSettings

variable (s : RunSettings)

/-- Whether a run has been cancelled by the time that its journal is this one: before it began or upon an
event, as the journal tells; or because its time had come, as the clock tells; or while a node slept, as
the state of the run tells. -/
inductive FiredBy (journal : List Entry) : Prop
  | journal (h : s.cancellation.FiredIn journal)
  | time {c : Snapshot} (hc : s.Reachable c) (hstruck : s.cancellation.hasStruck c.run.clock = true)
      (hsuffix : c.run.journal <:+ journal)
  | state {c : Snapshot} (hc : s.Reachable c) (hcancelled : c.run.cancelled = true)
      (hsuffix : c.run.journal <:+ journal)

theorem FiredBy.mono {s : RunSettings} {earlier journal : List Entry} (h : s.FiredBy earlier)
    (hsuffix : earlier <:+ journal) : s.FiredBy journal := by
  cases h with
  | journal h =>
      refine .journal (h.imp_right ?_)
      rintro ⟨fires, hupon, e, rest, hrest, hfires⟩
      exact ⟨fires, hupon, e, rest, hrest.trans hsuffix, hfires⟩
  | time hc hstruck hbefore => exact .time hc hstruck (hbefore.trans hsuffix)
  | state hc hcancelled hbefore => exact .state hc hcancelled (hbefore.trans hsuffix)

/-- The least things that the engine does to the state of a run. -/
inductive Move (r : RunState) : RunState → Prop
  | send (e : Event) (hbegins : (Entry.sent e).Begins → r.cancelled = false) : Move r (s.send e r)
  | log (entry : Entry) (hevent : entry.event? = none) (hbegins : entry.Begins → r.cancelled = false) :
      Move r (r.log entry)
  /-- What is not told in the journal. The time of the cancellation does not pass unnoticed. -/
  | turn {r'} (hjournal : r'.journal = r.journal) (hcancelled : r.cancelled = true → r'.cancelled = true)
      (hstruck : s.cancellation.hasStruck r'.clock = true →
        s.cancellation.hasStruck r.clock = true ∨ r'.cancelled = true) : Move r r'

/-- Such things one after the other. -/
abbrev Moves : RunState → RunState → Prop :=
  Relation.ReflTransGen s.Move

variable {s} {r r' : RunState}

theorem Move.moves (h : s.Move r r') : s.Moves r r' := .single h

theorem Move.cancelled (h : s.Move r r') (hcancelled : r.cancelled = true) : r'.cancelled = true := by
  cases h with
  | send e =>
      unfold RunSettings.send RunState.send
      cases s.cancellation.upon with
      | none => exact hcancelled
      | some fires => exact Bool.or_eq_true_iff.mpr (Or.inl hcancelled)
  | log => exact hcancelled
  | turn _ h => exact h hcancelled

/-- Once an event has cancelled the run, or the time for it has come, its state says so. -/
theorem Move.heeds (h : s.Move r r') (hr : s.cancellation.FiredAt r → r.cancelled = true)
    (hfired : s.cancellation.FiredAt r') : r'.cancelled = true := by
  cases h with
  | send e hbegins =>
      have hkept : r.cancelled = true → (s.send e r).cancelled = true := (Move.send e hbegins).cancelled
      rcases hfired with (hstart | ⟨fires, hupon, e', rest, hsuffix, hfires⟩) | hstruck
      · exact hkept (hr (Or.inl (Or.inl hstart)))
      · rw [journal_send] at hsuffix
        rcases List.suffix_cons_iff.mp hsuffix with heq | hsuffix
        · rw [heq] at hfires
          unfold RunSettings.send RunState.send
          rw [hupon]
          exact Bool.or_eq_true_iff.mpr (Or.inr hfires)
        · exact hkept (hr (Or.inl (Or.inr ⟨fires, hupon, e', rest, hsuffix, hfires⟩)))
      · rw [clock_send] at hstruck
        exact hkept (hr (Or.inr hstruck))
  | log entry hevent =>
      refine hr (hfired.imp_left (Or.imp_right ?_))
      rintro ⟨fires, hupon, e', rest, hsuffix, hfires⟩
      rcases List.suffix_cons_iff.mp hsuffix with heq | hsuffix
      · obtain ⟨rfl, -⟩ := List.cons.inj heq
        exact absurd hevent (by simp [Entry.event?])
      · exact ⟨fires, hupon, e', rest, hsuffix, hfires⟩
  | turn hjournal hcancelled hstruck =>
      rcases hfired with hfired | hfired
      · exact hcancelled (hr (Or.inl (hjournal ▸ hfired)))
      · exact (hstruck hfired).elim (fun h => hcancelled (hr (Or.inr h))) id

theorem Move.suffix (h : s.Move r r') : r.journal <:+ r'.journal := by
  cases h with
  | send e => exact s.journal_send e r ▸ List.suffix_cons _ _
  | log => exact List.suffix_cons _ _
  | turn hjournal => exact hjournal ▸ List.suffix_rfl

namespace Moves

theorem cancelled (h : s.Moves r r') (hcancelled : r.cancelled = true) : r'.cancelled = true := by
  induction h with
  | refl => exact hcancelled
  | tail _ hmove ih => exact hmove.cancelled ih

theorem heeds (h : s.Moves r r') (hr : s.cancellation.FiredAt r → r.cancelled = true) :
    s.cancellation.FiredAt r' → r'.cancelled = true := by
  induction h with
  | refl => exact hr
  | tail _ hmove ih => exact hmove.heeds ih

theorem suffix (h : s.Moves r r') : r.journal <:+ r'.journal := by
  induction h with
  | refl => exact List.suffix_rfl
  | tail _ hmove ih => exact ih.trans hmove.suffix

/-- What begins does so while the run is not cancelled. -/
theorem exists_live (h : s.Moves r r') {e : Entry} {rest : List Entry} (hbegins : e.Begins)
    (hsuffix : e :: rest <:+ r'.journal) :
    e :: rest <:+ r.journal ∨ ∃ r₁, s.Moves r r₁ ∧ r₁.journal = rest ∧ r₁.cancelled = false := by
  induction h with
  | refl => exact Or.inl hsuffix
  | @tail r₁ r₂ hmoves hmove ih =>
      have hnew : ∀ entry, (entry.Begins → r₁.cancelled = false) → r₂.journal = entry :: r₁.journal →
          e :: rest <:+ r.journal ∨ ∃ r₁, s.Moves r r₁ ∧ r₁.journal = rest ∧ r₁.cancelled = false := by
        intro entry hlive hjournal
        rw [hjournal] at hsuffix
        rcases List.suffix_cons_iff.mp hsuffix with heq | hsuffix
        · obtain ⟨rfl, rfl⟩ := List.cons.inj heq
          exact Or.inr ⟨r₁, hmoves, rfl, hlive hbegins⟩
        · exact ih hsuffix
      cases hmove with
      | send event hlive => exact hnew _ hlive (s.journal_send event r₁)
      | log entry _ hlive => exact hnew entry hlive rfl
      | turn hjournal => exact ih (hjournal ▸ hsuffix)

end Moves

/-! ### What the engine does, move by move -/

variable (s)

theorem moves_start (n : PlannedNode) (r : RunState) : s.Moves r (s.start n r) :=
  (Move.send (.nodeStarted n.id n.typeName) False.elim).moves.tail (.turn rfl id Or.inl)

theorem moves_sleepUntil (wake : Nat) (deadline : Option Nat) (r : RunState) :
    s.Moves r (s.sleepUntil wake deadline r).2 := by
  unfold sleepUntil
  dsimp only
  generalize hdue : deadline.elim wake (min wake) = due
  have hwake : due ≤ wake := by
    subst hdue
    cases deadline with
    | some d => exact Nat.min_le_left wake d
    | none => exact Nat.le_refl wake
  split_ifs with hcancelled hstrikes htimeout
  · exact .refl
  · exact .single (.turn rfl (fun _ => rfl) fun _ => Or.inr rfl)
  -- Whoever sleeps on until this time has come to it before.
  · refine .single (.turn rfl id fun hstruck => Or.inl (Cancellation.hasStruck_mono ?_ hstruck))
    exact Nat.le_of_not_lt fun hlt => hstrikes ⟨hstruck, hlt⟩
  · obtain rfl : due = wake := Nat.le_antisymm hwake (Nat.le_of_not_lt htimeout)
    refine .single (.turn rfl id fun hstruck => Or.inl (Cancellation.hasStruck_mono ?_ hstruck))
    exact Nat.le_of_not_lt fun hlt => hstrikes ⟨hstruck, hlt⟩

theorem moves_carryOut (id : String) (deadline : Option Nat) (steps : List ActivityStep)
    (r : RunState) : s.Moves r (s.carryOut id deadline steps r).2 := by
  induction steps generalizing r with
  | nil => exact .refl
  | cons step steps ih =>
      cases step with
      | emit e => exact (Move.send (.nodeEvent id e) False.elim).moves.trans (ih _)
      | sleep millis =>
          have hslept := s.moves_sleepUntil (r.clock + millis) deadline r
          rw [carryOut]
          split
          next heq =>
            rw [heq] at hslept
            exact hslept
          next heq =>
            rw [heq] at hslept
            exact hslept.trans (ih _)

theorem moves_invoke (place : Place) (frame : Frame) (n : PlannedNode) (r : RunState) :
    s.Moves r (s.invoke place frame n r).2 := by
  unfold invoke
  split_ifs with hcancelled
  · exact .refl
  split
  · exact .refl
  next inputs hinputs =>
    have hcalled := (Move.log (s := s) (r := r) (.called n.id place.iteration inputs) rfl
      fun _ => Bool.not_eq_true _ ▸ hcancelled).moves
    have hcarried := hcalled.trans (s.moves_carryOut n.id
      (s.nodeTimeout.map ((r.log (.called n.id place.iteration inputs)).clock + ·))
      (n.executor.run (s.contextOf place n inputs r.store)).steps _)
    dsimp only
    split
    next heq =>
      rw [heq] at hcarried
      exact hcarried
    next heq =>
      rw [heq] at hcarried
      exact (hcarried.tail (.log (.answered n.id place.iteration _) rfl False.elim)).tail (.turn rfl id Or.inl)

theorem moves_record (e : Event) (hbegins : ¬ (Entry.sent e).Begins) (v : Visit) (r : RunState) :
    s.Moves r ((s.send e r).recordVisit v) :=
  ((Move.send e fun h => absurd h hbegins).moves.tail (.log (.visited v) rfl False.elim)).tail
    (.turn rfl id Or.inl)

theorem moves_skipAll (place : Place) (ids : List String) (r : RunState) :
    s.Moves r (s.skipAll place ids r) := by
  induction ids generalizing r with
  | nil => exact .refl
  | cons id ids ih => exact (s.moves_record (.nodeSkipped id) not_false _ r).trans (ih _)

theorem moves_skip (place : Place) (n : PlannedNode) (r : RunState) : s.Moves r (s.skip place n r) := by
  unfold skip
  cases n.kind.loopHandles? <;> exact s.moves_skipAll place _ r

theorem moves_settle (place : Place) (n : PlannedNode) (started : Nat) (frame : Frame)
    (outcome : Except NodeError Completion) (r : RunState) :
    s.Moves r (s.settle place n started frame outcome r).run := by
  cases outcome with
  | error cause => exact s.moves_record (.nodeFailed n.id cause.message) not_false _ r
  | ok completion =>
      exact (s.moves_record (.nodeCompleted n.id completion.outputs _) not_false _ r).tail (.turn rfl id Or.inl)

theorem moves_finish (exit : Exit) (r : RunState) : s.Moves r (s.finish exit r).2 := by
  cases exit <;> exact (Move.send _ False.elim).moves

variable {s} {c c' : Snapshot}

theorem Step.moves (hstep : s.Step c c') : s.Moves c.run c'.run := by
  cases hstep with
  | finish | judge | refuse | cancel | exhaust => exact .refl
  | skip => exact s.moves_skip _ _ _
  | call => exact (s.moves_start _ _).trans (s.moves_invoke _ _ _ _)
  | launch =>
      dsimp only
      split_ifs
      · exact s.moves_skipAll _ _ _
      · exact .refl
  | enter _ hlive => exact (Move.send _ fun _ => hlive).moves
  | again | close | abandon => exact (Move.log _ rfl False.elim).moves
  | settle => exact s.moves_settle _ _ _ _ _ _
  | conclude => exact (Move.log _ rfl False.elim).moves.trans (s.moves_finish _ _)

theorem moves_of_steps (hsteps : s.Steps c c') : s.Moves c.run c'.run := by
  induction hsteps with
  | refl => exact .refl
  | tail _ hstep ih => exact ih.trans hstep.moves

/-- The last state of a run comes upon all that was written before. -/
theorem Reachable.suffix_execute (hp : s.plan.Lawful) (h : s.Reachable c) :
    c.run.journal <:+ s.execute.2.journal :=
  (moves_of_steps (h.steps_execute hp)).suffix

theorem Reachable.moves (hc : s.Reachable c) : s.Moves s.initial c.run :=
  (Move.send (.runStarted s.plan.start) False.elim).moves.trans (moves_of_steps (steps_of_reachable hc))

theorem heeds_initial (h : s.cancellation.FiredAt s.initial) : s.initial.cancelled = true := by
  rcases h with (hstart | ⟨_, _, _, _, hsuffix, _⟩) | hstruck
  · exact Bool.or_eq_true_iff.mpr (Or.inl hstart)
  · exact absurd (hsuffix.subset List.mem_cons_self) List.not_mem_nil
  · exact Bool.or_eq_true_iff.mpr (Or.inr hstruck)

/-- A run that has come to the time of its cancellation has been cancelled. -/
theorem Reachable.cancelled_of_hasStruck (hc : s.Reachable c)
    (h : s.cancellation.hasStruck c.run.clock = true) : c.run.cancelled = true :=
  Moves.heeds hc.moves heeds_initial (Or.inr h)

theorem FiredBy.journal_or_state {journal : List Entry} (h : s.FiredBy journal) :
    s.cancellation.FiredIn journal ∨
      ∃ c, s.Reachable c ∧ c.run.cancelled = true ∧ c.run.journal <:+ journal := by
  cases h with
  | journal h => exact Or.inl h
  | time hc hstruck hsuffix => exact Or.inr ⟨_, hc, hc.cancelled_of_hasStruck hstruck, hsuffix⟩
  | state hc hcancelled hsuffix => exact Or.inr ⟨_, hc, hcancelled, hsuffix⟩

/-- Nothing begins once the run has been cancelled. -/
theorem Reachable.not_firedBy (hc : s.Reachable c) {e : Entry} {rest : List Entry}
    (hbegins : e.Begins) (hsuffix : e :: rest <:+ c.run.journal) : ¬ s.FiredBy rest := by
  induction hc with
  | begin =>
      rw [journal_begin] at hsuffix
      rcases List.suffix_cons_iff.mp hsuffix with heq | hsuffix
      · obtain ⟨rfl, -⟩ := List.cons.inj heq
        exact hbegins.elim
      · exact absurd (List.suffix_nil.mp hsuffix) (by simp)
  | @step c c' hc hstep ih =>
      rcases hstep.moves.exists_live hbegins hsuffix with hold | ⟨r, hmoves, rfl, hlive⟩
      · exact ih hold
      intro hfired
      rcases hfired.journal_or_state with hfired | ⟨c₁, hc₁, hcancelled, hbefore⟩
      · have hcancelled := Moves.heeds (hc.moves.trans hmoves) heeds_initial (Or.inl hfired)
        exact absurd (hlive.symm.trans hcancelled) (by simp)
      have hnot : ¬ s.Steps c₁ c := fun hsteps => by
        have hcancelled := Moves.cancelled ((moves_of_steps hsteps).trans hmoves) hcancelled
        exact absurd (hlive.symm.trans hcancelled) (by simp)
      -- The run was cancelled only after this step, when the entry had been written.
      rcases Relation.ReflTransGen.cases_head ((hc.total hc₁).resolve_right hnot) with rfl | ⟨c₂, h₂, hsteps⟩
      · exact hnot .refl
      · obtain rfl := hstep.deterministic h₂
        have hlength := (hsuffix.trans ((moves_of_steps hsteps).suffix.trans hbefore)).length_le
        rw [List.length_cons] at hlength
        omega

/-! ### Calls in flight -/

end RunSettings

namespace Registry

end Registry

end FlowGraph
