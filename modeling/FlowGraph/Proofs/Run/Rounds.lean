import FlowGraph.Proofs.Run.Firing
import FlowGraph.Proofs.Run.Indices

/-!
Loops, iteration by iteration. A pass that is under way comes to an end, whatever is done inside of it,
and until then nothing is told of the loops around it. So a loop goes through its elements in rounds: an
iteration is announced, its pass ends, and the exit of the pass says whether there is a next one.
-/

namespace FlowGraph

open Plan RunSettings

deriving instance DecidableEq for Entry

/-- The loop that an entry tells of: an iteration of it begins, or a pass through its body is over. -/
def Entry.loop? : Entry → Option String
  | sent (.loopIteration id _ _) => some id
  | passed region _ _ => region
  | _ => none

/-- Whether entries tell of none of these loops. -/
def Spares (loops : List OpenLoop) (added : List Entry) : Prop :=
  ∀ e ∈ added, ∀ id, e.loop? = some id → id ∉ idsOf loops

namespace Spares

variable {loops : List OpenLoop} {added : List Entry}

theorem nil (loops : List OpenLoop) : Spares loops [] :=
  fun _ he => absurd he List.not_mem_nil

theorem of_loop?_eq_none (h : ∀ e ∈ added, e.loop? = none) : Spares loops added :=
  fun e he _ hid => absurd ((h e he).symm.trans hid) (by simp)

theorem append {added' : List Entry} (h : Spares loops added) (h' : Spares loops added') :
    Spares loops (added ++ added') :=
  fun e he => (List.mem_append.mp he).elim (h e) (h' e)

theorem of_loop?_eq_some {id : String} (h : ∀ e ∈ added, e.loop? = some id) (hid : id ∉ idsOf loops) :
    Spares loops added := by
  intro e he id' hid'
  obtain rfl := Option.some.inj ((h e he).symm.trans hid')
  exact hid

theorem filter_eq_nil {o : OpenLoop} (h : Spares (o :: loops) added) :
    added.filter (fun e => e.loop? = some o.node.id) = [] := by
  refine List.filter_eq_nil_iff.mpr fun e he heq => ?_
  exact h e he _ (of_decide_eq_true heq) (mem_idsOf.mpr ⟨o, List.mem_cons_self, rfl⟩)

end Spares

theorem mem_idsOf_append {inner loops : List OpenLoop} {id : String} (h : id ∈ idsOf loops) :
    id ∈ idsOf (inner ++ loops) := by
  obtain ⟨o, ho, rfl⟩ := mem_idsOf.mp h
  exact mem_idsOf.mpr ⟨o, List.mem_append_right _ ho, rfl⟩

theorem loop?_of_mem_skips {it : List Nat} {ids : List String} {e : Entry} (h : e ∈ skips it ids) :
    e.loop? = none := by
  obtain ⟨id, -, rfl | rfl⟩ := mem_skips h <;> rfl

/-- Whether a snapshot is in the midst of a pass that takes place inside of these loops. -/
structure Snapshot.InPass (loops : List OpenLoop) (c : Snapshot) : Prop where
  running : c.phase ≠ .ended
  /-- A loop is between two passes only if it was opened in this one. -/
  exists_inner : ∃ inner, c.loops = inner ++ loops ∧ (inner = [] → c.phase ≠ .looping)

namespace Phase

variable (exit : Exit) (frame : Frame) (todo : List PlannedNode)

theorem next_ne_looping : next exit frame todo ≠ .looping := by
  cases exit <;> simp [next]

theorem next_ne_ended : next exit frame todo ≠ .ended := by
  cases exit <;> simp [next]

end Phase

namespace Plan

variable {p : Plan} {journal : List Entry} {loops : List OpenLoop} {o : OpenLoop}

/-- A loop is not opened inside of itself. -/
theorem Opened.not_mem_idsOf (h : p.Opened journal loops o) (hp : p.Lawful)
    (hstacked : p.Stacked journal loops) : o.node.id ∉ idsOf loops :=
  hstacked.not_mem_idsOf hp h.visiting.level List.mem_cons_self (Or.inl rfl)

theorem Stacked.head_not_mem_idsOf (h : p.Stacked journal (o :: loops)) (hp : p.Lawful) :
    o.node.id ∉ idsOf loops :=
  h.1.not_mem_idsOf hp h.2.2.2

end Plan

namespace RunSettings

variable {s : RunSettings} {c c' : Snapshot} {loops : List OpenLoop} {o : OpenLoop}

theorem spares_call {place : Place} {frame : Frame} {n : PlannedNode} {r : RunState} :
    ∃ added, (s.invoke place frame n (s.start n r)).2.journal = added ++ r.journal ∧
      Spares loops added := by
  have hcalls := s.calls_invoke place frame n (s.start n r)
  obtain ⟨added, hafter, -⟩ := hcalls.exists_added
  rw [hafter] at hcalls
  refine ⟨added ++ [.sent (.nodeStarted n.id n.typeName)], by rw [hafter, journal_start]; simp,
    .of_loop?_eq_none fun e he => ?_⟩
  rcases List.mem_append.mp he with he | he
  · rcases hcalls.eq_of_mem he with ⟨event, rfl⟩ | ⟨inputs, rfl⟩ | rfl <;> rfl
  · obtain rfl := List.mem_singleton.mp he
    rfl

/-- A step in the midst of a pass leads to its end, or it stays in its midst and tells of none of the
loops around it. -/
theorem Step.inPass (hp : s.plan.Lawful) (hc : s.plan.Standing c) (hin : c.InPass loops)
    (hstep : s.Step c c') : (∃ frame exit, c = ⟨.leaving frame exit, loops, c.run⟩) ∨
      c'.InPass loops ∧ ∃ added, c'.run.journal = added ++ c.run.journal ∧ Spares loops added := by
  obtain ⟨hrunning, inner, hloops, hinner⟩ := hin
  have hown : ∀ {o : OpenLoop} {inner' : List OpenLoop} {e : Entry},
      o.node.id ∉ idsOf (inner' ++ loops) → e.loop? = some o.node.id → Spares loops [e] :=
    fun hnot he => .of_loop?_eq_some (List.forall_mem_singleton.mpr he)
      fun hmem => hnot (mem_idsOf_append hmem)
  cases hstep with
  | finish | judge | refuse =>
      exact Or.inr ⟨⟨by simp, inner, hloops, by simp⟩, [], rfl, .nil loops⟩
  | skip =>
      exact Or.inr ⟨⟨by simp, inner, hloops, by simp⟩, _, s.journal_skip _ _ _,
        .of_loop?_eq_none fun e he => loop?_of_mem_skips he⟩
  | call => exact Or.inr ⟨⟨by simp, inner, hloops, by simp⟩, spares_call⟩
  | @launch v result loops' r handles elements outputs =>
      obtain rfl : loops' = inner ++ loops := hloops
      refine Or.inr ⟨⟨by simp, _ :: inner, rfl, by simp⟩, ?_⟩
      cases elements with
      | nil => exact ⟨_, s.journal_skipAll _ _ r, .of_loop?_eq_none fun e he => loop?_of_mem_skips he⟩
      | cons element elements => exact ⟨[], rfl, .nil loops⟩
  | @cancel o loops' r | @exhaust o loops' r =>
      rcases List.cons_eq_append_iff.mp hloops with ⟨rfl, -⟩ | ⟨inner', rfl, rfl⟩
      · exact absurd rfl (hinner rfl)
      · exact Or.inr ⟨⟨by simp, inner', rfl, by simp⟩, [], rfl, .nil loops⟩
  | @enter o loops' r =>
      rcases List.cons_eq_append_iff.mp hloops with ⟨rfl, -⟩ | ⟨inner', rfl, rfl⟩
      · exact absurd rfl (hinner rfl)
      · cases hc with
        | looping hopened _ hstacked =>
            exact Or.inr ⟨⟨by simp, o :: inner', rfl, by simp⟩, [_], s.journal_send _ r,
              hown (hopened.not_mem_idsOf hp hstacked) rfl⟩
  | @again frame exit o loops' r | @close frame exit o loops' r | @abandon frame failure o loops' r =>
      rcases List.cons_eq_append_iff.mp hloops with ⟨rfl, rfl⟩ | ⟨inner', rfl, rfl⟩
      · exact Or.inl ⟨_, _, rfl⟩
      · cases hc with
        | leaving _ _ hstacked =>
            refine Or.inr ⟨⟨by simp, ?_⟩, [_], rfl, hown (hstacked.head_not_mem_idsOf hp) rfl⟩
            first
              | exact ⟨_ :: inner', rfl, by simp⟩
              | exact ⟨inner', rfl, by simp⟩
  | @settle v outcome loops' r =>
      refine Or.inr ⟨⟨Phase.next_ne_ended _ _ _, inner, hloops,
        fun _ => Phase.next_ne_looping _ _ _⟩, ?_⟩
      cases outcome with
      | error cause =>
          exact ⟨[_, _], s.journal_fail _ _ _ _ _, .of_loop?_eq_none (by simp [Entry.loop?])⟩
      | ok completion =>
          exact ⟨[_, _], s.journal_complete _ _ _ _ _ v.frame _,
            .of_loop?_eq_none (by simp [Entry.loop?])⟩
  | @conclude frame exit r =>
      obtain ⟨-, rfl⟩ := List.append_eq_nil_iff.mp hloops.symm
      exact Or.inl ⟨frame, exit, rfl⟩

/-- A pass that is under way comes to its end, and until then nothing is told of the loops around it. -/
theorem Reachable.pass_ends (hp : s.plan.Lawful) (hc : s.Reachable c) (hin : c.InPass loops) :
    ∃ frame exit r added, s.Reachable ⟨.leaving frame exit, loops, r⟩ ∧
      r.journal = added ++ c.run.journal ∧ Spares loops added := by
  have hsteps := hc.steps_execute hp
  induction hsteps using Relation.ReflTransGen.head_induction_on with
  | refl => exact absurd rfl hin.running
  | @head c c' hstep _ ih =>
      rcases hstep.inPass hp (standing_of_reachable hp hc) hin with ⟨frame, exit, heq⟩ | ⟨hin', hadded⟩
      · exact ⟨frame, exit, c.run, [], heq ▸ hc, rfl, .nil loops⟩
      · obtain ⟨added, hjournal, hspares⟩ := hadded
        obtain ⟨frame, exit, r, added', hleft, hjournal', hspares'⟩ := ih (hc.step hstep) hin'
        refine ⟨frame, exit, r, added' ++ added, hleft, ?_, hspares'.append hspares⟩
        rw [hjournal', hjournal, List.append_assoc]

end RunSettings

/-- Whether a loop goes on after an iteration with such an exit, if it has more elements. -/
def Exit.GoesOn (exit : Exit) : Prop :=
  exit = .finished ∨ exit = .loopContinue

/-- An iteration that is over: how its pass ended, and what the loop has collected from it. -/
structure Round where
  exit : Exit
  values : List Value

namespace RunSettings

variable (s : RunSettings) (loops : List OpenLoop)

/-- An iteration of a loop, from its beginning to the end of its pass. -/
structure Iteration (o : OpenLoop) (r : RunState) (frame : Frame) (exit : Exit) (r' : RunState) :
    Prop where
  live : r.cancelled = false
  left : s.Reachable ⟨.leaving frame exit, o :: loops, r'⟩
  journal_eq : ∃ added, r'.journal =
    added ++ .sent (.loopIteration o.node.id o.index o.elements.length) :: r.journal ∧
      Spares (o :: loops) added

/-- How a loop goes through the elements that are left, and what it comes to. -/
inductive GoesThrough : OpenLoop → RunState → List Round → Snapshot → Prop
  | exhausted {o r} (hdone : o.elements.length ≤ o.index) :
      GoesThrough o r [] ⟨.settling o.toOpenVisit (.ok (o.completion .finished)), loops, r⟩
  | cancelled {o r} (hmore : o.index < o.elements.length) (hcancelled : r.cancelled = true) :
      GoesThrough o r [] ⟨.settling o.toOpenVisit (.error .cancelled), loops, r⟩
  | again {o r frame exit r' rounds c} (hmore : o.index < o.elements.length)
      (hiteration : s.Iteration loops o r frame exit r') (hexit : exit.GoesOn)
      (hrest : GoesThrough (o.advance (o.gathered loops o.elements[o.index] frame exit))
        (r'.log (.passed (some o.node.id) (placeOf (o :: loops)).iteration exit)) rounds c) :
      GoesThrough o r (⟨exit, o.gathered loops o.elements[o.index] frame exit⟩ :: rounds) c
  | closed {o r frame exit r'} (hmore : o.index < o.elements.length)
      (hiteration : s.Iteration loops o r frame exit r') {goesOn}
      (hexit : exit = .loopBreak ∧ goesOn = .finished ∨ ∃ id, exit = .ended id ∧ goesOn = exit) :
      GoesThrough o r [⟨exit, o.gathered loops o.elements[o.index] frame exit⟩]
        ⟨.settling o.toOpenVisit
          (.ok ((o.collect (o.gathered loops o.elements[o.index] frame exit)).completion goesOn)), loops,
          r'.log (.passed (some o.node.id) (placeOf (o :: loops)).iteration exit)⟩
  | abandoned {o r frame failure r'} (hmore : o.index < o.elements.length)
      (hiteration : s.Iteration loops o r frame (.failed failure) r') :
      GoesThrough o r [⟨.failed failure, o.gathered loops o.elements[o.index] frame (.failed failure)⟩]
        ⟨.leaving o.frame (.failed failure), loops,
          r'.log (.passed (some o.node.id) (placeOf (o :: loops)).iteration (.failed failure))⟩

variable {s loops} {o : OpenLoop} {r : RunState} {c : Snapshot}

theorem Reachable.exists_iteration (hp : s.plan.Lawful) (h : s.Reachable ⟨.looping, o :: loops, r⟩)
    (hmore : o.index < o.elements.length) (hlive : r.cancelled = false) :
    ∃ frame exit r', s.Iteration loops o r frame exit r' := by
  obtain ⟨frame, exit, r', added, hleft, hjournal, hspares⟩ : ∃ frame exit r' added,
      s.Reachable ⟨.leaving frame exit, o :: loops, r'⟩ ∧ r'.journal = added ++ _ ∧
        Spares (o :: loops) added :=
    (h.step (.enter hmore hlive)).pass_ends hp ⟨by simp, [], rfl, by simp⟩
  rw [journal_send] at hjournal
  exact ⟨frame, exit, r', hlive, hleft, added, hjournal, hspares⟩

/-- A loop goes through its elements. -/
theorem Reachable.goesThrough (hp : s.plan.Lawful) (h : s.Reachable ⟨.looping, o :: loops, r⟩) :
    ∃ rounds c, s.GoesThrough loops o r rounds c ∧ s.Reachable c := by
  induction hleft : o.elements.length - o.index generalizing o r with
  | zero =>
      have hdone : o.elements.length ≤ o.index := by omega
      exact ⟨_, _, .exhausted hdone, h.step (.exhaust hdone)⟩
  | succ left ih =>
      have hmore : o.index < o.elements.length := by omega
      cases hcancelled : r.cancelled with
      | true => exact ⟨_, _, .cancelled hmore hcancelled, h.step (.cancel hmore hcancelled)⟩
      | false =>
          obtain ⟨frame, exit, r', hiteration⟩ := h.exists_iteration hp hmore hcancelled
          have hgoesOn : exit.GoesOn → ∃ rounds c, s.GoesThrough loops o r rounds c ∧
              s.Reachable c := by
            intro hexit
            have hleft' : (o.advance (o.gathered loops o.elements[o.index] frame exit)).elements.length -
                (o.advance (o.gathered loops o.elements[o.index] frame exit)).index = left := by
              simp only [OpenLoop.advance]
              omega
            obtain ⟨rounds, c, hrest, hc⟩ := ih (hiteration.left.step (.again hmore hexit)) hleft'
            exact ⟨_, c, .again hmore hiteration hexit hrest, hc⟩
          have hclosed : ∀ goesOn, (exit = .loopBreak ∧ goesOn = .finished ∨
              ∃ id, exit = .ended id ∧ goesOn = exit) → ∃ rounds c,
                s.GoesThrough loops o r rounds c ∧ s.Reachable c :=
            fun goesOn hexit => ⟨_, _, .closed hmore hiteration hexit,
              hiteration.left.step (.close hmore hexit)⟩
          cases exit with
          | finished => exact hgoesOn (Or.inl rfl)
          | loopContinue => exact hgoesOn (Or.inr rfl)
          | loopBreak => exact hclosed .finished (Or.inl ⟨rfl, rfl⟩)
          | ended id => exact hclosed (.ended id) (Or.inr ⟨id, rfl, rfl⟩)
          | failed failure =>
              exact ⟨_, _, .abandoned hmore hiteration, hiteration.left.step .abandon⟩

end RunSettings

/-- What is told of the iterations of a loop from an index on, in its order: each is announced, and then
its pass is over. -/
def roundsFrom (loopId : String) (iteration : List Nat) (total : Nat) : Nat → List Exit → List Entry
  | _, [] => []
  | index, exit :: exits =>
    .sent (.loopIteration loopId index total) :: .passed (some loopId) (iteration ++ [index]) exit ::
      roundsFrom loopId iteration total (index + 1) exits

theorem passed_mem_roundsFrom {loopId : String} {it : List Nat} {total k index : Nat} {exits : List Exit}
    {exit : Exit} : .passed (some loopId) (it ++ [k]) exit ∈ roundsFrom loopId it total index exits ↔
      index ≤ k ∧ exits[k - index]? = some exit := by
  induction exits generalizing index with
  | nil => simp [roundsFrom]
  | cons exit' exits ih =>
      rw [roundsFrom, List.mem_cons, or_iff_right (by simp), List.mem_cons, ih, Entry.passed.injEq,
        List.append_cancel_left_eq, List.singleton_inj]
      rcases Nat.lt_trichotomy k index with hlt | rfl | hgt
      · exact iff_of_false (by omega) (by omega)
      · simp [eq_comm]
      · obtain ⟨d, rfl⟩ : ∃ d, k = index + 1 + d := ⟨k - (index + 1), by omega⟩
        have hd : index + 1 + d - index = d + 1 := by omega
        have hd' : index + 1 + d - (index + 1) = d := by omega
        rw [hd, hd', List.getElem?_cons_succ]
        have hne : index + 1 + d ≠ index := by omega
        have hle : index + 1 ≤ index + 1 + d ∧ index ≤ index + 1 + d := by omega
        simp [hne, hle]

namespace RunSettings.GoesThrough

variable {s : RunSettings} {loops : List OpenLoop} {o : OpenLoop} {r : RunState} {rounds : List Round}
  {c : Snapshot}

/-- Only a cancellation fails a loop that has got its collection. -/
theorem phase_ne (h : s.GoesThrough loops o r rounds c) (hlive : c.run.cancelled = false)
    (v : OpenVisit) (cause : NodeError) : c.phase ≠ .settling v (.error cause) := by
  induction h with
  | cancelled _ hcancelled => exact absurd (hlive.symm.trans hcancelled) (by simp)
  | again _ _ _ _ ih => exact ih hlive
  | _ => simp

/-- The next iteration is entered if the loop goes on and has more elements. -/
theorem entered_iff (h : s.GoesThrough loops o r rounds c)
    (hphase : ∀ v cause, c.phase ≠ .settling v (.error cause)) :
    (rounds = [] ↔ o.elements.length ≤ o.index) ∧
    ∀ k round, rounds[k]? = some round → (k + 1 < rounds.length ↔
      o.index + k + 1 < o.elements.length ∧ round.exit.GoesOn) := by
  have hlast : ∀ {o : OpenLoop} {last : Round}, o.index < o.elements.length → ¬ last.exit.GoesOn →
      ([last] = [] ↔ o.elements.length ≤ o.index) ∧ ∀ k round, [last][k]? = some round →
        (k + 1 < [last].length ↔ o.index + k + 1 < o.elements.length ∧ round.exit.GoesOn) := by
    intro o last hmore hnot
    refine ⟨by simpa using hmore, fun k round hround => ?_⟩
    obtain ⟨rfl, rfl⟩ : k = 0 ∧ last = round := by
      rcases k with _ | k
      · exact ⟨rfl, Option.some.inj hround⟩
      · exact absurd hround (by simp)
    exact iff_of_false (by simp) fun hgoes => hnot hgoes.2
  induction h with
  | exhausted hdone => exact ⟨iff_of_true rfl hdone, fun k round hround => absurd hround (by simp)⟩
  | cancelled => exact absurd rfl (hphase _ _)
  | @again o r frame exit r' rounds c hmore _ hexit _ ih =>
      obtain ⟨hnil, hnext⟩ := ih hphase
      simp only [OpenLoop.advance] at hnil hnext
      refine ⟨iff_of_false (by simp) (by omega), fun k round hround => ?_⟩
      cases k with
      | zero =>
          obtain rfl := Option.some.inj hround
          have hlength : 0 < rounds.length ↔ ¬ o.elements.length ≤ o.index + 1 := by
            rw [List.length_pos_iff, ne_eq, hnil]
          simp only [List.length_cons, hexit, and_true]
          omega
      | succ k =>
          have hrest := hnext k round hround
          rw [show o.index + 1 + k + 1 = o.index + (k + 1) + 1 by omega] at hrest
          rw [← hrest, List.length_cons]
          omega
  | closed hmore _ hexit =>
      refine hlast hmore ?_
      rcases hexit with ⟨rfl, -⟩ | ⟨id, rfl, -⟩ <;> simp [Exit.GoesOn]
  | abandoned hmore _ => exact hlast hmore (by simp [Exit.GoesOn])

/-- What is told of the loop while it goes through its elements. -/
theorem journal_eq (h : s.GoesThrough loops o r rounds c) : ∃ own, c.run.journal = own ++ r.journal ∧
    (own.filter (fun e => e.loop? = some o.node.id)).reverse =
      roundsFrom o.node.id (placeOf loops).iteration o.elements.length o.index (rounds.map (·.exit)) := by
  have hround : ∀ {o : OpenLoop} {r r' : RunState} {frame : Frame} {exit : Exit},
      s.Iteration loops o r frame exit r' → ∃ own,
        (r'.log (.passed (some o.node.id) (placeOf (o :: loops)).iteration exit)).journal =
          own ++ r.journal ∧
        own.filter (fun e => e.loop? = some o.node.id) =
          [.passed (some o.node.id) ((placeOf loops).iteration ++ [o.index]) exit,
            .sent (.loopIteration o.node.id o.index o.elements.length)] := by
    intro o r r' frame exit hiteration
    obtain ⟨added, hjournal, hspares⟩ := hiteration.journal_eq
    refine ⟨.passed (some o.node.id) (placeOf (o :: loops)).iteration exit :: added ++
      [.sent (.loopIteration o.node.id o.index o.elements.length)], ?_, ?_⟩
    · show _ :: r'.journal = _
      rw [hjournal]
      simp
    · rw [List.cons_append, List.filter_cons_of_pos (by simp [Entry.loop?]), List.filter_append,
        hspares.filter_eq_nil, placeOf_cons]
      simp [inside, Entry.loop?]
  induction h with
  | exhausted | cancelled => exact ⟨[], rfl, rfl⟩
  | again _ hiteration _ _ ih =>
      obtain ⟨own, hjournal, htold⟩ := hround hiteration
      obtain ⟨own', hjournal', htold'⟩ := ih
      refine ⟨own' ++ own, by rw [hjournal', hjournal, List.append_assoc], ?_⟩
      rw [List.filter_append, List.reverse_append, htold, List.map_cons, roundsFrom]
      exact congrArg (_ :: _ :: ·) htold'
  | closed _ hiteration | abandoned _ hiteration =>
      obtain ⟨own, hjournal, htold⟩ := hround hiteration
      exact ⟨own, hjournal, by rw [htold]; rfl⟩

/-- The loop completes with all that it has collected, or it fails because the run is cancelled, or it is
left open by a failure in its body. -/
theorem ends (h : s.GoesThrough loops o r rounds c) :
    c.loops = loops ∧ ((∃ exit, c.phase = .settling o.toOpenVisit
        (.ok ((o.collect (rounds.flatMap (·.values))).completion exit))) ∨
      c.phase = .settling o.toOpenVisit (.error .cancelled) ∨
      ∃ failure, c.phase = .leaving o.frame (.failed failure) ∧
        ∃ round ∈ rounds, round.exit = .failed failure) := by
  induction h with
  | @exhausted o r _ =>
      refine ⟨rfl, Or.inl ⟨.finished, ?_⟩⟩
      simp [OpenLoop.collect]
  | cancelled => exact ⟨rfl, Or.inr (Or.inl rfl)⟩
  | @again o r frame exit r' rounds c _ _ _ _ ih =>
      obtain ⟨hloops, hphase⟩ := ih
      refine ⟨hloops, hphase.imp ?_ (Or.imp_right ?_)⟩
      · rintro ⟨exit', hphase⟩
        refine ⟨exit', hphase.trans ?_⟩
        simp [OpenLoop.collect, OpenLoop.advance, OpenLoop.completion]
      · rintro ⟨failure, hphase, round, hround, hexit⟩
        exact ⟨failure, hphase, round, List.mem_cons_of_mem _ hround, hexit⟩
  | @closed _ _ _ _ _ _ _ goesOn => exact ⟨rfl, Or.inl ⟨goesOn, by simp [OpenLoop.collect]⟩⟩
  | abandoned => exact ⟨rfl, Or.inr (Or.inr ⟨_, rfl, _, List.mem_singleton_self _, rfl⟩)⟩

/-- Each round is an iteration of the loop, at the element that it is about. -/
theorem iteration_at (h : s.GoesThrough loops o r rounds c) {k : Nat} {round : Round}
    (hround : rounds[k]? = some round) :
    ∃ (hk : o.index + k < o.elements.length) (collected : List Value) (frame : Frame) (r' : RunState),
      s.Reachable ⟨.leaving frame round.exit, { o with index := o.index + k, collected } :: loops, r'⟩ ∧
      round.values = o.gathered loops o.elements[o.index + k] frame round.exit ∧
      r'.journal <:+ c.run.journal := by
  have hhead : ∀ {o : OpenLoop} {r r' : RunState} {frame : Frame} {exit : Exit} {rounds : List Round}
      {c : Snapshot} (hmore : o.index < o.elements.length), s.Iteration loops o r frame exit r' →
      r'.journal <:+ c.run.journal →
      ((⟨exit, o.gathered loops o.elements[o.index] frame exit⟩ : Round) :: rounds)[0]? = some round →
      ∃ (hk : o.index + 0 < o.elements.length) (collected : List Value) (frame : Frame) (r' : RunState),
        s.Reachable ⟨.leaving frame round.exit, { o with index := o.index + 0, collected } :: loops, r'⟩ ∧
        round.values = o.gathered loops o.elements[o.index + 0] frame round.exit ∧
        r'.journal <:+ c.run.journal := by
    intro o r r' frame exit rounds c hmore hiteration hsuffix hround
    obtain rfl := Option.some.inj hround
    exact ⟨hmore, o.collected, frame, r', hiteration.left, rfl, hsuffix⟩
  induction h generalizing k with
  | exhausted | cancelled => exact absurd hround (by simp)
  | @again o r frame exit r' rounds c hmore hiteration _ hrest ih =>
      cases k with
      | zero =>
          obtain ⟨own, hjournal, -⟩ := hrest.journal_eq
          refine hhead hmore hiteration ?_ hround
          rw [hjournal]
          exact (List.suffix_cons _ _).trans (List.suffix_append _ _)
      | succ k =>
          obtain ⟨hk, collected, frame', r'', hleft, hvalues, hsuffix⟩ := ih hround
          simp only [OpenLoop.advance, show o.index + 1 + k = o.index + (k + 1) by omega] at hk hleft hvalues
          exact ⟨hk, collected, frame', r'', hleft, hvalues, hsuffix⟩
  | closed hmore hiteration | abandoned hmore hiteration =>
      cases k with
      | zero => exact hhead hmore hiteration (List.suffix_cons _ _) hround
      | succ k => exact absurd hround (by simp)

end RunSettings.GoesThrough

end FlowGraph
