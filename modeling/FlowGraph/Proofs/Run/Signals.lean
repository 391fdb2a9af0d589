import FlowGraph.Proofs.Run.Passed
import FlowGraph.Proofs.Run.Turns
import FlowGraph.Standard

/-!
Breaking off and continuing. A signal that a visit gives ends the pass that it belongs to, and only that
one: the loop around it completes, or goes on with its next element. To what is further out the loop has
then run out of elements, or is in the midst of them.
-/

namespace FlowGraph

open Plan RunSettings

/-- The signal of a visit that ends a pass so. -/
def Exit.signal? : Exit → Option Signal
  | loopBreak => some .loopBreak
  | loopContinue => some .loopContinue
  | _ => none

theorem Phase.next_eq_leaving {exit : Exit} {signal : Signal} (h : exit.signal? = some signal)
    (frame : Frame) (todo : List PlannedNode) : Phase.next exit frame todo = .leaving frame exit := by
  cases exit <;> simp_all [Phase.next, Exit.signal?]

/-- The entry with which a pass goes on when these members are still due: the first of them begins or is
skipped, or the pass is finished. -/
inductive Resumes (region : Option String) (it : List Nat) : List String → Entry → Prop
  | finished : Resumes region it [] (.passed region it .finished)
  | started {id ids typeName} : Resumes region it (id :: ids) (.sent (.nodeStarted id typeName))
  | skipped {id ids} : Resumes region it (id :: ids) (.sent (.nodeSkipped id))

namespace RunSettings

variable {s : RunSettings} {c : Snapshot} {loops : List OpenLoop} {r : RunState}

/-- A visit that is about to complete ends its pass so if this is the signal that it gives, and it gives
no such signal outside of all loops. -/
theorem Reachable.signal_of_settling {v : OpenVisit} {completion : Completion}
    (h : s.Reachable ⟨.settling v (.ok completion), loops, r⟩) {exit : Exit} {signal : Signal}
    (hexit : exit.signal? = some signal) :
    (completion.exit = exit ↔ completion.signal = some signal) ∧
      (completion.exit = exit → (placeOf loops).region ≠ none) := by
  have hcases : exit = .loopBreak ∧ signal = .loopBreak ∨
      exit = .loopContinue ∧ signal = .loopContinue := by
    cases exit <;> simp_all [Exit.signal?, eq_comm]
  generalize hc : Snapshot.mk (.settling v (.ok completion)) loops r = c at h
  cases h with
  | begin => exact absurd (congrArg Snapshot.phase hc) (by simp [RunSettings.begin])
  | step h hstep =>
      cases hstep with
      | @judge _ result _ _ hkind =>
          obtain ⟨hphase, rfl, rfl⟩ := Snapshot.mk.inj hc
          obtain ⟨rfl, houtcome⟩ := Phase.settling.inj hphase
          cases result with
          | error e => exact absurd houtcome (by simp [Except.bind, Except.map])
          | ok value =>
              cases hchecked : (Except.ok value).bind (checkResult (placeOf loops) v.node) with
              | error e => exact absurd (hchecked ▸ houtcome) (by simp [Except.map])
              | ok value' =>
                  rw [hchecked] at houtcome
                  obtain rfl := eq_of_checkResult_eq_ok hchecked
                  obtain rfl := Except.ok.inj houtcome
                  have hregion : value = .loopBreak ∨ value = .loopContinue →
                      (placeOf loops).region ≠ none := by
                    rintro hvalue hnone
                    rcases hvalue with rfl | rfl <;>
                      simp [Except.bind, checkResult, hnone] at hchecked
                  rcases hcases with ⟨rfl, rfl⟩ | ⟨rfl, rfl⟩ <;>
                    cases value <;> simp_all [RunSettings.completion]
      | exhaust =>
          cases hc
          rcases hcases with ⟨rfl, rfl⟩ | ⟨rfl, rfl⟩ <;> simp [OpenLoop.completion]
      | close _ hgoesOn =>
          cases hc
          rcases hcases with ⟨rfl, rfl⟩ | ⟨rfl, rfl⟩ <;>
            rcases hgoesOn with ⟨rfl, rfl⟩ | ⟨id, rfl, rfl⟩ <;> simp [OpenLoop.completion]
      | settle => exact absurd (congrArg Snapshot.phase hc).symm (Phase.next_ne_settling _ _ _ _ _)
      | _ => exact absurd (congrArg Snapshot.phase hc) (by simp)

/-- A pass that a signal ends has just come to the visit that gave it. -/
theorem Reachable.exists_signal (hp : s.plan.Lawful) {frame : Frame} {exit : Exit} {signal : Signal}
    (h : s.Reachable ⟨.leaving frame exit, loops, r⟩) (hexit : exit.signal? = some signal) :
    ∃ v, .visited v ∈ r.journal ∧ v.nodeId ∈ s.plan.region (placeOf loops).region ∧
      v.iteration = (placeOf loops).iteration ∧ v.signal = some signal := by
  generalize hc : Snapshot.mk (.leaving frame exit) loops r = c at h
  cases h with
  | begin => exact absurd (congrArg Snapshot.phase hc) (by simp [RunSettings.begin])
  | step h hstep =>
      have hstanding := standing_of_reachable hp h
      cases hstep with
      | finish | abandon =>
          cases hc
          exact absurd hexit (by simp [Exit.signal?])
      | @settle v outcome loops' r' =>
          obtain ⟨hphase, rfl, rfl⟩ := Snapshot.mk.inj hc
          have hended := Phase.eq_of_next_eq_leaving hphase.symm
          cases hstanding with
          | settling hvisiting _ =>
              cases outcome with
              | error cause =>
                  rw [← hended] at hexit
                  exact absurd hexit (by simp [RunSettings.settle, Exit.signal?])
              | ok completion =>
                  have hsignal := ((h.signal_of_settling hexit).1.mp hended)
                  have hjournal := s.journal_complete (placeOf loops) v.node completion.outputs
                    completion.signal v.started v.frame r'
                  exact ⟨_, hjournal.symm ▸ List.mem_cons_self,
                    hvisiting.level.id_mem_region List.mem_cons_self, rfl, hsignal⟩
      | _ => exact absurd (congrArg Snapshot.phase hc) (by simp)

/-- A visit that gives a signal ends the pass that it belongs to, which is one through the body of a
loop. -/
structure Signalled (s : RunSettings) (v : Visit) (exit : Exit) (w : OpenVisit) (frame : Frame)
    (o : OpenLoop) (loops : List OpenLoop) (r : RunState) : Prop where
  leaving : s.Reachable ⟨.leaving frame exit, o :: loops, r⟩
  id_eq : v.nodeId = w.node.id
  iteration_eq : v.iteration = (placeOf loops).iteration ++ [o.index]
  journal_eq : ∃ earlier, r.journal = .visited v :: earlier ∧
    s.plan.Visiting earlier (o :: loops) w

theorem exists_signalled (hp : s.plan.Lawful) {v : Visit} (hv : v ∈ s.execute.2.visits) {exit : Exit}
    {signal : Signal} (hexit : exit.signal? = some signal) (hsignal : v.signal = some signal) :
    ∃ w frame o loops r, s.Signalled v exit w frame o loops r := by
  obtain ⟨later, rest, c, -, hc, hwrites⟩ :=
    (reachable_execute hp).written_of_mem hp (mem_visitsIn.mp hv)
  cases hwrites with
  | @completed w completion loops r =>
      obtain ⟨hiff, hregion⟩ := hc.signal_of_settling hexit
      obtain rfl := hiff.mpr hsignal
      obtain - | - | ⟨hvisiting, -⟩ := standing_of_reachable hp hc
      cases loops with
      | nil => exact absurd rfl (hregion rfl)
      | cons o loops =>
          have hleft : s.Reachable ⟨.next completion.exit _ w.todo, o :: loops,
              (s.complete (placeOf (o :: loops)) w.node completion.outputs completion.signal w.started
                w.frame r).2⟩ := hc.step .settle
          rw [Phase.next_eq_leaving hexit] at hleft
          refine ⟨w, _, o, loops, _, hleft, rfl, by rw [placeOf_cons]; rfl, _,
            s.journal_complete _ _ _ _ _ w.frame r, ?_⟩
          show s.plan.Visiting ([_] ++ r.journal) (o :: loops) w
          exact hvisiting.append hp (by simp [Entry.located?])
  | _ => exact absurd hsignal (by simp)

section

variable {v : Visit} {exit : Exit} {signal : Signal} {w : OpenVisit} {frame : Frame} {o : OpenLoop}

theorem Signalled.stacked (hp : s.plan.Lawful) (h : s.Signalled v exit w frame o loops r) :
    s.plan.Stacked r.journal (o :: loops) := by
  obtain - | - | - | ⟨-, -, hstacked⟩ := standing_of_reachable hp h.leaving
  exact hstacked

theorem Signalled.placeOf_eq (h : s.Signalled v exit w frame o loops r) :
    (placeOf (o :: loops)).iteration = v.iteration := by
  rw [h.iteration_eq, placeOf_cons]
  rfl

theorem Signalled.mem_region (h : s.Signalled v exit w frame o loops r) :
    v.nodeId ∈ s.plan.region (some o.node.id) := by
  obtain ⟨earlier, -, hvisiting⟩ := h.journal_eq
  rw [h.id_eq]
  exact hvisiting.level.id_mem_region List.mem_cons_self

/-- The pass is over at once, and the iteration with it. -/
theorem Signalled.passed (hp : s.plan.Lawful) (h : s.Signalled v exit w frame o loops r)
    (hexit : exit.signal? = some signal) : ∃ c, s.Reachable c ∧
      c.run.journal = .passed (some o.node.id) v.iteration exit :: r.journal ∧
      c.Past o.node.id (placeOf loops).iteration o.index := by
  have hmore := (h.stacked hp).2.1
  rw [← h.placeOf_eq]
  cases exit with
  | loopBreak => exact ⟨_, h.leaving.step (.close hmore (Or.inl ⟨rfl, rfl⟩)), rfl, .settling rfl rfl⟩
  | loopContinue =>
      exact ⟨_, h.leaving.step (.again hmore (Or.inr rfl)), rfl,
        .later [] rfl rfl (Nat.lt_succ_self o.index)⟩
  | _ => exact absurd hexit (by simp [Exit.signal?])

end

/-- The passes that a signal ends are those in which a direct member gives it. -/
theorem passed_iff_signal (hp : s.plan.Lawful) {region : Option String} {it : List Nat} {exit : Exit}
    {signal : Signal} (hexit : exit.signal? = some signal) :
    .passed region it exit ∈ s.execute.2.journal ↔ ∃ v ∈ s.execute.2.visits,
      v.nodeId ∈ s.plan.region region ∧ v.iteration = it ∧ v.signal = some signal := by
  constructor
  · intro h
    obtain ⟨later, rest, c, hjournal, hc, hwrites⟩ := (reachable_execute hp).written_of_mem hp h
    cases hwrites with
    | passed =>
        obtain ⟨v, hv, hmem, hit, hsignal⟩ := hc.exists_signal hp hexit
        refine ⟨v, mem_visitsIn.mpr ?_, hmem, hit, hsignal⟩
        exact hjournal.symm ▸ List.mem_append_right _ (List.mem_cons_of_mem _ hv)
  · rintro ⟨v, hv, hmem, rfl, hsignal⟩
    obtain ⟨w, frame, o, loops, r, h⟩ := exists_signalled hp hv hexit hsignal
    obtain ⟨c, hc, hjournal, -⟩ := h.passed hp hexit
    rw [← hp.region_eq_of_mem h.mem_region hmem]
    exact (hc.suffix_execute hp).subset (hjournal.symm ▸ List.mem_cons_self)

/-- A visit cuts a pass through the body of a loop short: the members that come after it, and all that is
inside of them, are not called and not visited in that iteration. -/
structure CutsShort (s : RunSettings) (v : Visit) (n : PlannedNode) (before after : List String) :
    Prop where
  region_eq : s.plan.region (some n.id) = before ++ v.nodeId :: after
  turns_eq : s.plan.turns s.execute.2.journal (some n.id) v.iteration = before ++ [v.nodeId]
  untouched : ∀ m ∈ after, ∀ id, s.plan.Within m id → ∀ e ∈ s.execute.2.journal, ∀ it,
    e.located? = some (id, it) → ¬ v.iteration <+: it

/-- What comes later in a pass that has been cut short is not touched in the iteration. -/
theorem Signalled.untouched (hp : s.plan.Lawful) {v : Visit} {exit : Exit} {signal : Signal}
    {w : OpenVisit} {frame : Frame} {o : OpenLoop} (h : s.Signalled v exit w frame o loops r)
    (hexit : exit.signal? = some signal) {m : PlannedNode} (hm : m ∈ w.todo) {id : String}
    (hid : s.plan.Within m.id id) {e : Entry} (he : e ∈ s.execute.2.journal) {it : List Nat}
    (hlocated : e.located? = some (id, it)) : ¬ v.iteration <+: it := by
  intro hprefix
  obtain ⟨c, hc, hjournal, hpast⟩ := h.passed hp hexit
  obtain ⟨earlier, hvisited, hvisiting⟩ := h.journal_eq
  have hmem : m ∈ w.node :: w.todo := List.mem_cons_of_mem _ hm
  have hnode := hvisiting.level.planned m hmem
  have hscope : m.scope = idsOf loops ++ [o.node.id] := by
    rw [(h.stacked hp).scope_eq hp hnode (hvisiting.level.getLast?_scope hp hmem), idsOf_cons]
  have hplace : (s.plan.scope id)[(placeOf loops).iteration.length]? = some o.node.id := by
    obtain ⟨inside, hinside⟩ := hp.scope_prefix_of_within hnode hid
    rw [← hinside, hscope, length_iteration_placeOf, ← length_idsOf]
    simp
  rw [h.iteration_eq] at hprefix
  have hwritten := hc.mem_of_past hp hpast he hlocated hplace hprefix
  rw [hjournal, hvisited] at hwritten
  rcases List.mem_cons.mp hwritten with rfl | hwritten
  · exact absurd hlocated (by simp [Entry.located?])
  rcases List.mem_cons.mp hwritten with rfl | hwritten
  · obtain ⟨rfl, -⟩ := Prod.mk.inj (Option.some.inj hlocated)
    exact hvisiting.level.not_within hp hm (Or.inl h.id_eq) hid
  · have hprecedes := hvisiting.untouched m hm e hwritten id it hlocated hid
    rw [h.placeOf_eq, h.iteration_eq] at hprecedes
    exact hprecedes.not_prefix_right hprefix

theorem Signalled.cutsShort (hp : s.plan.Lawful) {v : Visit} {exit : Exit} {signal : Signal}
    {w : OpenVisit} {frame : Frame} {o : OpenLoop} (h : s.Signalled v exit w frame o loops r)
    (hexit : exit.signal? = some signal) : ∃ before after, s.CutsShort v o.node before after := by
  obtain ⟨earlier, hjournal, hvisiting⟩ := h.journal_eq
  have hturns : s.plan.turns earlier (some o.node.id) v.iteration ++ v.nodeId :: w.todo.map (·.id) =
      s.plan.region (some o.node.id) := by
    rw [← h.placeOf_eq, h.id_eq, ← List.map_cons]
    exact hvisiting.level.turns_eq
  have huntouched : ∀ id ∈ w.todo.map (·.id), ∀ id', s.plan.Within id id' →
      ∀ e ∈ s.execute.2.journal, ∀ it, e.located? = some (id', it) → ¬ v.iteration <+: it := by
    intro id hid id' hid' e he it hlocated
    obtain ⟨m, hm, rfl⟩ := List.mem_map.mp hid
    exact h.untouched hp hexit hm hid' he hlocated
  refine ⟨_, _, hturns.symm, ?_, huntouched⟩
  have hordered : s.plan.turns s.execute.2.journal (some o.node.id) v.iteration <+:
      s.plan.region (some o.node.id) := by
    refine (reachable_execute hp).turns_ordered hp ?_ (List.suffix_refl _)
    rw [← h.placeOf_eq, length_iteration_placeOf, length_eq_depth hp (h.stacked hp)]
    rfl
  have hgrown : s.plan.turns earlier (some o.node.id) v.iteration ++ [v.nodeId] <+:
      s.plan.turns s.execute.2.journal (some o.node.id) v.iteration := by
    rw [← turns_visited h.mem_region, ← hjournal]
    exact turns_prefix_of_suffix (h.leaving.suffix_execute hp) _ _
  obtain ⟨more, hmore⟩ := hgrown
  cases more with
  | nil => rw [← hmore, List.append_nil]
  | cons id more =>
      obtain ⟨rest, hrest⟩ := hordered
      rw [← hmore, ← hturns, List.append_assoc, List.append_assoc] at hrest
      have hlater := List.append_cancel_left hrest
      obtain ⟨-, hlater⟩ := List.cons.inj hlater
      have hid : id ∈ w.todo.map (·.id) := hlater ▸ List.mem_cons_self
      have hmem : id ∈ s.plan.turns s.execute.2.journal (some o.node.id) v.iteration := by
        rw [← hmore]
        simp
      obtain ⟨u, hu, rfl⟩ := List.mem_map.mp hmem
      obtain ⟨hu, hvisit⟩ := List.mem_filter.mp hu
      refine absurd ?_ (huntouched _ hid _ (Or.inl rfl) _ (mem_visitsIn.mp hu) _ rfl)
      exact (of_decide_eq_true hvisit).1 ▸ List.prefix_rfl

/-- A pass goes on with the first member that is still due, or is finished. -/
theorem Reachable.resumes (hp : s.plan.Lawful) {frame : Frame} {todo : List PlannedNode}
    (h : s.Reachable ⟨.passing frame todo, loops, r⟩) : ∃ later e,
      s.execute.2.journal = later ++ e :: r.journal ∧
        Resumes (placeOf loops).region (placeOf loops).iteration (todo.map (·.id)) e := by
  have hwrites : ∀ {c : Snapshot} {e : Entry} (added : List Entry), s.Reachable c →
      c.run.journal = added ++ e :: r.journal →
      ∃ later, s.execute.2.journal = later ++ e :: r.journal := by
    intro c e added hc hjournal
    obtain ⟨later, hlater⟩ := hc.suffix_execute hp
    exact ⟨later ++ added, by rw [← hlater, hjournal, List.append_assoc]⟩
  cases todo with
  | nil =>
      have hleft := h.step .finish
      cases loops with
      | nil =>
          obtain ⟨later, hlater⟩ := hwrites [_] (hleft.step .conclude) (s.journal_send _ _)
          exact ⟨later, _, hlater, .finished⟩
      | cons o loops =>
          obtain - | - | - | ⟨-, -, -, hmore, -⟩ := standing_of_reachable hp hleft
          obtain ⟨later, hlater⟩ := hwrites []
            (hleft.step (.again hmore (Or.inl rfl))) rfl
          exact ⟨later, _, hlater, .finished⟩
  | cons n todo =>
      cases hactive : n.isActive (frame :: (placeOf loops).enclosing) with
      | false =>
          have hskip := s.journal_skip (placeOf loops) n r
          rw [skips, List.append_assoc] at hskip
          obtain ⟨later, hlater⟩ := hwrites (_ ++ [.visited _])
            (h.step (.skip hactive)) (hskip.trans (by simp; rfl))
          exact ⟨later, _, hlater, .skipped⟩
      | true =>
          have hcalls := s.calls_invoke (placeOf loops) frame n (s.start n r)
          obtain ⟨added, hafter, -⟩ := hcalls.exists_added
          rw [journal_start] at hafter
          obtain ⟨later, hlater⟩ := hwrites added (h.step (.call hactive)) hafter
          exact ⟨later, _, hlater, .started⟩

/-- A visit breaks a loop off, in an iteration of the loops around it and at an index. -/
structure BreaksOff (s : RunSettings) (v : Visit) (n : PlannedNode) (it : List Nat) (k : Nat) :
    Prop where
  iteration_eq : v.iteration = it ++ [k]
  /-- The loop completes at once, and the pass that it belongs to goes on with what comes after it. -/
  goes_on : ∃ before after e later outputs duration earlier,
    s.plan.region n.scope.getLast? = before ++ n.id :: after ∧ Resumes n.scope.getLast? it after e ∧
      s.execute.2.journal = later ++ e ::
        .visited ⟨n.id, it, .completed, none, duration⟩ ::
        .sent (.nodeCompleted n.id outputs duration) ::
        .passed (some n.id) (it ++ [k]) .loopBreak :: .visited v :: earlier
  /-- What the loop comes to is what it comes to by running out of elements after this one. -/
  as_exhausted : ∃ (o : OpenLoop) (loops : List OpenLoop) (frame : Frame) (r : RunState) (c : Snapshot)
    (hmore : o.index < o.elements.length), o.node = n ∧ (placeOf loops).iteration = it ∧ o.index = k ∧
      (∃ earlier, r.journal = .visited v :: earlier) ∧
      s.Reachable ⟨.leaving frame .loopBreak, o :: loops, r⟩ ∧
      s.Step ⟨.leaving frame .loopBreak, o :: loops, r⟩ c ∧
      s.Step ⟨.looping, { o.advance (o.gathered loops o.elements[o.index] frame .loopBreak) with
          elements := o.elements.take (o.index + 1) } :: loops,
        r.log (.passed (some n.id) (placeOf (o :: loops)).iteration .loopBreak)⟩ c

theorem Signalled.breaksOff (hp : s.plan.Lawful) {v : Visit} {w : OpenVisit} {frame : Frame}
    {o : OpenLoop} (h : s.Signalled v .loopBreak w frame o loops r) :
    s.BreaksOff v o.node (placeOf loops).iteration o.index := by
  obtain ⟨earlier, hjournal, -⟩ := h.journal_eq
  obtain ⟨hopened, hmore, -, hstacked⟩ := h.stacked hp
  have hlevel := hopened.visiting.level
  have hclosed := h.leaving.step (.close hmore (Or.inl ⟨rfl, rfl⟩))
  rw [h.placeOf_eq, h.iteration_eq] at hclosed
  refine ⟨h.iteration_eq, ?_, ?_⟩
  · have hpassing : s.Reachable ⟨.passing _ o.todo, loops,
        (s.complete (placeOf loops) o.node _ none o.started o.frame _).2⟩ := hclosed.step .settle
    obtain ⟨later, e, hlater, hresumes⟩ := hpassing.resumes hp
    rw [journal_complete] at hlater
    rw [hlevel.getLast?_scope hp List.mem_cons_self]
    exact ⟨_, _, e, later, _, _, earlier, hlevel.turns_eq.symm, hresumes,
      hlater.trans (by rw [RunState.log, hjournal])⟩
  · exact ⟨o, loops, frame, r, _, hmore, rfl, rfl, rfl, ⟨earlier, hjournal⟩, h.leaving,
      .close hmore (Or.inl ⟨rfl, rfl⟩), .exhaust (by simp [OpenLoop.advance])⟩

/-- A visit that gives a signal cuts short the pass that it belongs to, and breaks the loop off if the
signal is to break. -/
theorem exists_cutsShort (hp : s.plan.Lawful) {v : Visit} (hv : v ∈ s.execute.2.visits) {exit : Exit}
    {signal : Signal} (hexit : exit.signal? = some signal) (hsignal : v.signal = some signal) :
    ∃ n ∈ s.plan.nodes, ∃ it k before after, v.iteration = it ++ [k] ∧
      s.CutsShort v n before after ∧ (exit = .loopBreak → s.BreaksOff v n it k) := by
  obtain ⟨w, frame, o, loops, r, h⟩ := exists_signalled hp hv hexit hsignal
  obtain ⟨before, after, hcuts⟩ := h.cutsShort hp hexit
  refine ⟨o.node, (h.stacked hp).1.visiting.node_mem, _, o.index, before, after, h.iteration_eq, hcuts,
    ?_⟩
  rintro rfl
  exact h.breaksOff hp

/-- What a node answers, not being a loop, is how its visit completes, if it can be followed there. -/
theorem exists_visit_of_answered (hp : s.plan.Lawful) {n : PlannedNode} (hn : n ∈ s.plan.nodes)
    (hkind : n.kind.loopHandles? = none) {it : List Nat} {value : NodeResult}
    (h : .answered n.id it (.ok value) ∈ s.execute.2.journal)
    (hvalue : ∀ place : Place, place.region = n.scope.getLast? → checkResult place n value = .ok value) :
    ∃ v ∈ s.execute.2.visits, v.nodeId = n.id ∧ v.iteration = it ∧
      v.signal = (completion n value).signal := by
  obtain ⟨w, loops, r, hanswered, hid, rfl⟩ := (reachable_execute hp).exists_answered hp h
  obtain - | ⟨hvisiting, -, -, -⟩ := standing_of_reachable hp hanswered
  obtain rfl := hp.eq_of_id_eq hvisiting.node_mem hn hid
  have hregion := hvisiting.level.getLast?_scope hp List.mem_cons_self
  have hjudged := hanswered.step (.judge hkind)
  simp only [Except.bind, hvalue _ hregion.symm, Except.map] at hjudged
  have hjournal := s.journal_complete (placeOf loops) w.node (completion w.node value).outputs
    (completion w.node value).signal w.started w.frame r
  exact ⟨_, mem_visitsIn.mpr (((hjudged.step .settle).suffix_execute hp).subset
    (hjournal.symm ▸ List.mem_cons_self)), rfl, rfl, rfl⟩

end RunSettings

namespace Registry

/-- A signal acts on the nearest loop only. In a run that is not cancelled, each loop that has got its
collection announces its iterations one after the other, and enters the next one if it has an element
left and the pass was finished or ended by a signal to continue. The passes that a signal ends are those
through the body of a loop in which a direct member answers so. Such a visit takes the later members of
that one pass away and nothing else: all members are visited in the passes that are finished. If it breaks
the loop off, the loop completes, the pass around it goes on with the member after it, and all is as if
the loop had run out of elements there. -/
theorem signals_act_on_nearest_loop {r : Registry} {flow : Flow} {start : Option String}
    {s : RunSettings} (h : r.resolve flow start = .ok s.plan) (hlive : s.execute.2.cancelled = false) :
    (∀ n ∈ s.plan.nodes, ∀ handles, n.kind.loopHandles? = some handles → ∀ it values elements,
      .answered n.id it (.ok (.outputs values)) ∈ s.execute.2.journal →
      Dict.get? values handles.body = some (.array elements) →
      ∃ exits, s.Iterates n it elements.length exits) ∧
    (∀ region it exit signal, exit.signal? = some signal →
      (.passed region it exit ∈ s.execute.2.journal ↔ ∃ v ∈ s.execute.2.visits,
        v.nodeId ∈ s.plan.region region ∧ v.iteration = it ∧ v.signal = some signal)) ∧
    (∀ n ∈ s.plan.nodes, n.kind.loopHandles? = none → n.scope ≠ [] → ∀ it value,
      value = .loopBreak ∨ value = .loopContinue →
      .answered n.id it (.ok value) ∈ s.execute.2.journal → ∃ v ∈ s.execute.2.visits,
        v.nodeId = n.id ∧ v.iteration = it ∧ v.signal = (RunSettings.completion n value).signal) ∧
    (∀ v ∈ s.execute.2.visits, v.signal = some .loopBreak ∨ v.signal = some .loopContinue →
      ∃ n ∈ s.plan.nodes, ∃ it k before after, v.iteration = it ++ [k] ∧
        s.CutsShort v n before after ∧ (v.signal = some .loopBreak → s.BreaksOff v n it k)) ∧
    ∀ region it, .passed region it .finished ∈ s.execute.2.journal →
      s.plan.turns s.execute.2.journal region it = s.plan.region region := by
  have hp := r.lawful_of_resolve_eq_ok h
  refine ⟨fun n hn handles hkind it values elements hanswered hcollection =>
      RunSettings.exists_iterates hp hlive hn hkind hanswered hcollection,
    fun region it exit signal hexit => RunSettings.passed_iff_signal hp hexit,
    fun n hn hkind hscope it value hvalue hanswered => ?_, fun v hv hsignal => ?_,
    fun region it hfinished => ((RunSettings.reachable_execute hp).turns_of_passed hp hfinished).2 rfl⟩
  · refine RunSettings.exists_visit_of_answered hp hn hkind hanswered fun place hregion => ?_
    have hinside : place.region ≠ none := by
      rw [hregion]
      exact fun hnone => hscope (List.getLast?_eq_none_iff.mp hnone)
    rcases hvalue with rfl | rfl <;> simp [RunSettings.checkResult, hinside]
  · rcases hsignal with hsignal | hsignal
    · have hexit : Exit.signal? .loopBreak = some .loopBreak := rfl
      obtain ⟨n, hn, it, k, before, after, hit, hcuts, hbreaks⟩ :=
        RunSettings.exists_cutsShort hp hv hexit hsignal
      exact ⟨n, hn, it, k, before, after, hit, hcuts, fun _ => hbreaks rfl⟩
    · have hexit : Exit.signal? .loopContinue = some .loopContinue := rfl
      obtain ⟨n, hn, it, k, before, after, hit, hcuts, -⟩ :=
        RunSettings.exists_cutsShort hp hv hexit hsignal
      exact ⟨n, hn, it, k, before, after, hit, hcuts,
        fun hbreak => absurd (hsignal.symm.trans hbreak) (by simp)⟩

/-- The inner of two loops is broken off at its first element, and what comes after it in the outer one
goes on with the next element. -/
def cutShort : Flow where
  nodes := [⟨"s", "start", .null⟩,
    ⟨"rows", "json",
      .object [("value", .array [.array [.bool true, .bool false], .array [.bool true]])]⟩,
    ⟨"outer", "forEach", .null⟩, ⟨"inner", "forEach", .null⟩, ⟨"stop", "break", .null⟩,
    ⟨"never", "log", .null⟩, ⟨"next", "continue", .null⟩, ⟨"late", "log", .null⟩]
  edges := [⟨"e1", "s", none, "rows", none⟩, ⟨"e2", "rows", none, "outer", some "items"⟩,
    ⟨"e3", "outer", some "item", "inner", some "items"⟩, ⟨"e4", "inner", some "item", "stop", none⟩,
    ⟨"e5", "inner", some "item", "never", none⟩, ⟨"e6", "inner", some "done", "next", none⟩,
    ⟨"e7", "inner", some "done", "late", none⟩]

theorem signals_of_cutShort : ∃ p, Standard.registry.resolve cutShort none = .ok p ∧
    let s : RunSettings := { plan := p }
    s.execute.2.cancelled = false ∧ p.region (some "inner") = ["stop", "never"] ∧
      (∃ n ∈ p.nodes, n.id = "inner" ∧ ∃ exits, s.Iterates n [0] 2 exits) ∧
      .passed (some "inner") [0, 0] .loopBreak ∈ s.execute.2.journal ∧
      .passed (some "outer") [0] .loopContinue ∈ s.execute.2.journal ∧
      ∃ v n before after, v.nodeId = "stop" ∧ s.CutsShort v n before after ∧ s.BreaksOff v n [0] 0 := by
  have hrun : ((Standard.registry.resolve cutShort none).toOption.map fun p => decide
      (let run := RunSettings.execute { plan := p }
      run.2.cancelled = false ∧ p.region (some "inner") = ["stop", "never"] ∧
        "next" ∈ p.region (some "outer") ∧
        (∃ n ∈ p.nodes, n.id = "inner" ∧ n.kind.loopHandles? = some Standard.forEachHandles ∧
          .answered n.id [0] (.ok (.outputs [("item", .array [.bool true, .bool false])])) ∈
            run.2.journal) ∧
        (∃ v ∈ run.2.visits, v.nodeId = "stop" ∧ v.iteration = [0, 0] ∧ v.signal = some .loopBreak) ∧
        ∃ v ∈ run.2.visits, v.nodeId = "next" ∧ v.iteration = [0] ∧
          v.signal = some .loopContinue)) = some true := by
    decide +kernel
  obtain ⟨p, hp, hrun⟩ := Option.map_eq_some_iff.mp hrun
  have hok := eq_ok_of_toOption_eq_some hp
  obtain ⟨hlive, hregion, hnext, ⟨n, hn, hid, hkind, hanswer⟩, ⟨v, hv, hvid, hvit, hbreak⟩,
    w, hw, hwid, hwit, hcontinue⟩ := of_decide_eq_true hrun
  obtain ⟨hiterates, hpassed, -, hsignals, -⟩ :=
    signals_act_on_nearest_loop (s := { plan := p }) hok hlive
  obtain ⟨m, -, it, k, before, after, hit, hcuts, hbreaks⟩ := hsignals v hv (Or.inl hbreak)
  have hplace : [0] ++ [0] = it ++ [k] := hvit.symm.trans hit
  obtain ⟨rfl, hk⟩ := List.append_inj' hplace rfl
  obtain rfl := List.singleton_inj.mp hk
  refine ⟨p, hok, hlive, hregion, ⟨n, hn, hid, ?_⟩, ?_, ?_, v, m, before, after, hvid, hcuts,
    hbreaks hbreak⟩
  · exact hiterates n hn _ hkind [0] _ _ hanswer rfl
  · refine (hpassed (some "inner") [0, 0] .loopBreak .loopBreak rfl).mpr ⟨v, hv, ?_, hvit, hbreak⟩
    simp [hregion, hvid]
  · exact (hpassed (some "outer") [0] .loopContinue .loopContinue rfl).mpr
      ⟨w, hw, hwid ▸ hnext, hwit, hcontinue⟩

end Registry

end FlowGraph
