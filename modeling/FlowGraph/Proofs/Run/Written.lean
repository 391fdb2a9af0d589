import FlowGraph.Proofs.Run.Kept

/-!
Where the entries of a journal come from. An entry is written by a step, and upon what had been written
by then; so whatever holds of a snapshot in which an entry is written can be said of the entry and of
the journal below it.
-/

namespace FlowGraph

open Plan RunSettings

theorem suffix_append_cases {α : Type} {e : α} {rest added xs : List α}
    (h : e :: rest <:+ added ++ xs) :
    e :: rest <:+ xs ∨ ∃ before after, added = before ++ e :: after ∧ rest = after ++ xs := by
  induction added with
  | nil => exact Or.inl h
  | cons a added ih =>
      rcases List.suffix_cons_iff.mp h with heq | h
      · obtain ⟨rfl, rfl⟩ := List.cons.inj heq
        exact Or.inr ⟨[], added, rfl, rfl⟩
      · rcases ih h with h | ⟨before, after, rfl, rfl⟩
        · exact Or.inl h
        · exact Or.inr ⟨a :: before, after, rfl, rfl⟩

/-- Nodes are skipped one after the other, each at a visit of its own. -/
theorem skips_eq_append {it : List Nat} {ids : List String} (hnodup : ids.Nodup) {v : Visit}
    {before after : List Entry} (h : skips it ids = before ++ .visited v :: after) :
    ∃ id ∈ ids, v = ⟨id, it, .skipped, none, 0⟩ ∧
      ∀ e ∈ after, ∀ it', e.located? ≠ some (id, it') := by
  induction ids generalizing before after with
  | nil => exact absurd h (by simp [skips])
  | cons id ids ih =>
      obtain ⟨hid, hnodup⟩ := List.nodup_cons.mp hnodup
      have hsuffix : .visited v :: after <:+ skips it ids ++ [.visited ⟨id, it, .skipped, none, 0⟩,
          .sent (.nodeSkipped id)] := ⟨before, h.symm⟩
      rcases suffix_append_cases hsuffix with hlast | ⟨before', after', heq, rfl⟩
      · rcases List.suffix_cons_iff.mp hlast with heq | hlast
        · obtain ⟨hvisit, rfl⟩ := List.cons.inj heq
          refine ⟨id, List.mem_cons_self, Entry.visited.inj hvisit, fun e he it' => ?_⟩
          obtain rfl := List.mem_singleton.mp he
          simp [Entry.located?]
        · have hmem := hlast.subset List.mem_cons_self
          exact absurd (List.mem_singleton.mp hmem) (by simp)
      · obtain ⟨id', hid', rfl, hafter⟩ := ih hnodup heq
        refine ⟨id', List.mem_cons_of_mem _ hid', rfl, fun e he it' => ?_⟩
        rcases List.mem_append.mp he with he | he
        · exact hafter e he it'
        · have hne : id ≠ id' := fun heq => hid (heq ▸ hid')
          rcases List.mem_cons.mp he with rfl | he
          · simp [Entry.located?, hne]
          · obtain rfl := List.mem_singleton.mp he
            simp [Entry.located?]

namespace RunSettings

variable (s : RunSettings)

/-- Whether an entry can be written in a step from a snapshot, and upon what. -/
inductive Writes : Snapshot → Entry → List Entry → Prop
  | sent {c event journal} : Writes c (.sent event) journal
  | called {frame n todo loops r inputs}
      (hactive : n.isActive (frame :: (placeOf loops).enclosing) = true)
      (hinputs : n.resolveInputs (frame :: (placeOf loops).enclosing) = .ok inputs) :
      Writes ⟨.passing frame (n :: todo), loops, r⟩ (.called n.id (placeOf loops).iteration inputs)
        (.sent (.nodeStarted n.id n.typeName) :: r.journal)
  | answered {frame n todo loops r result added}
      (hactive : n.isActive (frame :: (placeOf loops).enclosing) = true)
      (hadded : ∀ e ∈ added, ∀ result, e ≠ .answered n.id (placeOf loops).iteration result) :
      Writes ⟨.passing frame (n :: todo), loops, r⟩
        (.answered n.id (placeOf loops).iteration result) (added ++ r.journal)
  | skipped {frame n todo loops r}
      (hinactive : n.isActive (frame :: (placeOf loops).enclosing) = false) :
      Writes ⟨.passing frame (n :: todo), loops, r⟩
        (.visited ⟨n.id, (placeOf loops).iteration, .skipped, none, 0⟩)
        (.sent (.nodeSkipped n.id) :: r.journal)
  /-- A node inside a loop that is skipped. -/
  | skippedWith {frame n todo loops r id added} (hid : n.id ∈ s.plan.scope id)
      (hadded : ∀ e ∈ added, ∀ it, e.located? ≠ some (id, it)) :
      Writes ⟨.passing frame (n :: todo), loops, r⟩
        (.visited ⟨id, (placeOf loops).iteration, .skipped, none, 0⟩) (added ++ r.journal)
  /-- A node inside a loop that has nothing to go through. -/
  | skippedFor {v result loops r id added} (hid : v.node.id ∈ s.plan.scope id)
      (hadded : ∀ e ∈ added, ∀ it, e.located? ≠ some (id, it)) :
      Writes ⟨.answered v result, loops, r⟩
        (.visited ⟨id, (placeOf loops).iteration, .skipped, none, 0⟩) (added ++ r.journal)
  | completed {v completion loops r} :
      Writes ⟨.settling v (.ok completion), loops, r⟩
        (.visited ⟨v.node.id, (placeOf loops).iteration, .completed, completion.signal,
          r.clock - v.started⟩)
        (.sent (.nodeCompleted v.node.id completion.outputs (r.clock - v.started)) :: r.journal)
  | failed {v cause loops r} :
      Writes ⟨.settling v (.error cause), loops, r⟩
        (.visited ⟨v.node.id, (placeOf loops).iteration, .failed, none, r.clock - v.started⟩)
        (.sent (.nodeFailed v.node.id cause.message) :: r.journal)
  | passed {frame exit loops r} :
      Writes ⟨.leaving frame exit, loops, r⟩
        (.passed (placeOf loops).region (placeOf loops).iteration exit) r.journal

variable {s}

theorem Writes.of_mem_sent {c : Snapshot} {added journal : List Entry} {e : Entry}
    {rest : List Entry} (hsent : ∀ e ∈ added, ∃ event, e = .sent event)
    (h : e :: rest <:+ added ++ journal) : e :: rest <:+ journal ∨ s.Writes c e rest := by
  rcases suffix_append_cases h with h | ⟨before, after, rfl, rfl⟩
  · exact Or.inl h
  · obtain ⟨event, rfl⟩ := hsent e (by simp)
    exact Or.inr .sent

theorem Writes.of_cons_sent {c : Snapshot} {event : Event} {journal : List Entry} {e : Entry}
    {rest : List Entry} (h : e :: rest <:+ .sent event :: journal) :
    e :: rest <:+ journal ∨ s.Writes c e rest := by
  rcases List.suffix_cons_iff.mp h with heq | h
  · obtain ⟨rfl, rfl⟩ := List.cons.inj heq
    exact Or.inr .sent
  · exact Or.inl h

theorem Writes.of_call {frame : Frame} {n : PlannedNode} {todo : List PlannedNode}
    {loops : List OpenLoop} {r : RunState} {e : Entry} {rest : List Entry}
    (hactive : n.isActive (frame :: (placeOf loops).enclosing) = true)
    (h : e :: rest <:+ (s.invoke (placeOf loops) frame n (s.start n r)).2.journal) :
    e :: rest <:+ r.journal ∨ s.Writes ⟨.passing frame (n :: todo), loops, r⟩ e rest := by
  have hcalls := s.calls_invoke (placeOf loops) frame n (s.start n r)
  rw [journal_start] at hcalls
  generalize (s.invoke (placeOf loops) frame n (s.start n r)).1 = result at hcalls
  generalize (s.invoke (placeOf loops) frame n (s.start n r)).2.journal = journal at hcalls h
  have hmessages : ∀ events, ∀ e ∈ messages n.id events, ∃ event, e = .sent event := by
    intro events e he
    obtain ⟨event, -, rfl⟩ := List.mem_map.mp he
    exact ⟨_, rfl⟩
  have hcalled : ∀ {events inputs},
      n.resolveInputs (frame :: (placeOf loops).enclosing) = .ok inputs →
      e :: rest <:+ messages n.id events ++ .called n.id (placeOf loops).iteration inputs ::
        .sent (.nodeStarted n.id n.typeName) :: r.journal →
      e :: rest <:+ r.journal ∨ s.Writes ⟨.passing frame (n :: todo), loops, r⟩ e rest := by
    intro events inputs hinputs h
    rcases Writes.of_mem_sent (hmessages events) h with h | h
    · rcases List.suffix_cons_iff.mp h with heq | h
      · obtain ⟨rfl, rfl⟩ := List.cons.inj heq
        exact Or.inr (.called hactive hinputs)
      · exact Writes.of_cons_sent h
    · exact Or.inr h
  cases hcalls with
  | refused => exact Writes.of_cons_sent h
  | cut hinputs => exact hcalled hinputs h
  | @answered inputs events result hinputs =>
      rcases List.suffix_cons_iff.mp h with heq | h
      · obtain ⟨rfl, rfl⟩ := List.cons.inj heq
        have hwrites : s.Writes ⟨.passing frame (n :: todo), loops, r⟩
            (.answered n.id (placeOf loops).iteration result)
            ((messages n.id events ++ [.called n.id (placeOf loops).iteration inputs,
              .sent (.nodeStarted n.id n.typeName)]) ++ r.journal) := by
          refine .answered hactive fun e he result => ?_
          rcases List.mem_append.mp he with he | he
          · obtain ⟨event, rfl⟩ := hmessages events e he
            simp
          · rcases List.mem_cons.mp he with rfl | he
            · simp
            · obtain rfl := List.mem_singleton.mp he
              simp
        rw [List.append_assoc] at hwrites
        exact Or.inr hwrites
      · exact hcalled hinputs h

theorem Writes.of_skips {c : Snapshot} {it : List Nat} {ids : List String} {journal : List Entry}
    {e : Entry} {rest : List Entry} (hnodup : ids.Nodup)
    (hvisited : ∀ id ∈ ids, ∀ added, (∀ e ∈ added, ∀ it', e.located? ≠ some (id, it')) →
      s.Writes c (.visited ⟨id, it, .skipped, none, 0⟩) (added ++ journal))
    (h : e :: rest <:+ skips it ids ++ journal) : e :: rest <:+ journal ∨ s.Writes c e rest := by
  rcases suffix_append_cases h with h | ⟨before, after, heq, rfl⟩
  · exact Or.inl h
  · obtain ⟨id, -, rfl | rfl⟩ := mem_skips (heq ▸ List.mem_append_right _ List.mem_cons_self)
    · obtain ⟨id', hid', hvisit, hafter⟩ := skips_eq_append hnodup heq
      rw [hvisit]
      exact Or.inr (hvisited id' hid' after hafter)
    · exact Or.inr .sent

theorem Writes.of_skip (hp : s.plan.Lawful) {frame : Frame} {n : PlannedNode}
    {todo : List PlannedNode} {loops : List OpenLoop} {r : RunState} {e : Entry} {rest : List Entry}
    (hinactive : n.isActive (frame :: (placeOf loops).enclosing) = false)
    (h : e :: rest <:+ (s.skip (placeOf loops) n r).journal) :
    e :: rest <:+ r.journal ∨ s.Writes ⟨.passing frame (n :: todo), loops, r⟩ e rest := by
  rw [journal_skip, skips, List.append_assoc] at h
  obtain ⟨hself, hnodup⟩ := List.nodup_cons.mp (hp.nodup_skipped n)
  have hinside : ∀ id ∈ s.skippedWith n, ∀ added, (∀ e ∈ added, ∀ it, e.located? ≠ some (id, it)) →
      s.Writes ⟨.passing frame (n :: todo), loops, r⟩
        (.visited ⟨id, (placeOf loops).iteration, .skipped, none, 0⟩)
        (added ++ ([.visited ⟨n.id, (placeOf loops).iteration, .skipped, none, 0⟩,
          .sent (.nodeSkipped n.id)] ++ r.journal)) := by
    intro id hid added hadded
    rw [← List.append_assoc]
    refine .skippedWith (hp.mem_skippedWith hid) fun e he it => ?_
    rcases List.mem_append.mp he with he | he
    · exact hadded e he it
    · have hne : n.id ≠ id := fun heq => hself (heq ▸ hid)
      rcases List.mem_cons.mp he with rfl | he
      · simp [Entry.located?, hne]
      · obtain rfl := List.mem_singleton.mp he
        simp [Entry.located?]
  rcases Writes.of_skips hnodup hinside h with h | h
  · rcases List.suffix_cons_iff.mp h with heq | h
    · obtain ⟨rfl, rfl⟩ := List.cons.inj heq
      exact Or.inr (.skipped hinactive)
    · exact Writes.of_cons_sent h
  · exact Or.inr h

/-- A step writes upon what has been written before it. -/
theorem Step.written (hp : s.plan.Lawful) {c c' : Snapshot} (hc : s.plan.Standing c)
    (hstep : s.Step c c') {e : Entry} {rest : List Entry} (h : e :: rest <:+ c'.run.journal) :
    e :: rest <:+ c.run.journal ∨ s.Writes c e rest := by
  have hpassed : ∀ {frame exit loops r region iteration},
      region = (placeOf loops).region → iteration = (placeOf loops).iteration →
      e :: rest <:+ .passed region iteration exit :: r.journal →
      e :: rest <:+ r.journal ∨ s.Writes ⟨.leaving frame exit, loops, r⟩ e rest := by
    rintro frame exit loops r _ _ rfl rfl h
    rcases List.suffix_cons_iff.mp h with heq | h
    · obtain ⟨rfl, rfl⟩ := List.cons.inj heq
      exact Or.inr .passed
    · exact Or.inl h
  cases hstep with
  | finish | judge | refuse | cancel | exhaust => exact Or.inl h
  | skip hinactive =>
      obtain ⟨hlevel, -, -⟩ := hc
      exact Writes.of_skip hp hinactive h
  | call hactive => exact Writes.of_call hactive h
  | @launch v result loops r handles elements outputs =>
      cases elements with
      | nil =>
          have hjournal := s.journal_skipAll (placeOf loops) (s.bodyNodes v.node.id) r
          simp only [List.isEmpty_nil, if_true, hjournal] at h
          refine Writes.of_skips (hp.nodup_bodyNodes v.node.id) (fun id hid added hadded => ?_) h
          exact .skippedFor (hp.mem_bodyNodes.mp hid) hadded
      | cons element elements => exact Or.inl h
  | enter =>
      rw [journal_send] at h
      exact Writes.of_cons_sent h
  | again | close | abandon => exact hpassed rfl rfl h
  | @settle v outcome loops r =>
      cases outcome with
      | error cause =>
          have hjournal := s.journal_fail (placeOf loops) v.node cause v.started r
          rw [RunSettings.settle, hjournal] at h
          rcases List.suffix_cons_iff.mp h with heq | h
          · obtain ⟨rfl, rfl⟩ := List.cons.inj heq
            exact Or.inr .failed
          · exact Writes.of_cons_sent h
      | ok completion =>
          have hjournal := s.journal_complete (placeOf loops) v.node completion.outputs
            completion.signal v.started v.frame r
          rw [RunSettings.settle] at h
          dsimp only at h
          rw [hjournal] at h
          rcases List.suffix_cons_iff.mp h with heq | h
          · obtain ⟨rfl, rfl⟩ := List.cons.inj heq
            exact Or.inr .completed
          · exact Writes.of_cons_sent h
  | @conclude frame exit r =>
      have hfinish : ∃ event, (s.finish exit (r.log (.passed none [] exit))).2.journal =
          .sent event :: .passed none [] exit :: r.journal := by
        cases exit <;> exact ⟨_, s.journal_send _ _⟩
      obtain ⟨event, hjournal⟩ := hfinish
      rw [hjournal] at h
      rcases Writes.of_cons_sent h with h | h
      · exact hpassed rfl rfl h
      · exact Or.inr h

theorem journal_begin : s.begin.run.journal = [.sent (.runStarted s.plan.start)] :=
  s.journal_send _ _

/-- Every entry of a journal was written in a step from something that the run had come to. -/
theorem Reachable.written (hp : s.plan.Lawful) {c : Snapshot} (hc : s.Reachable c) {e : Entry}
    {rest : List Entry} (h : e :: rest <:+ c.run.journal) :
    ∃ c₀, s.Reachable c₀ ∧ s.Writes c₀ e rest := by
  induction hc with
  | begin =>
      rw [journal_begin] at h
      rcases Writes.of_cons_sent h with h | h
      · exact absurd (List.suffix_nil.mp h) (by simp)
      · exact ⟨s.begin, .begin, h⟩
  | step hc hstep ih =>
      rcases hstep.written hp (standing_of_reachable hp hc) h with h | h
      · exact ih h
      · exact ⟨_, hc, h⟩

theorem Reachable.written_of_mem (hp : s.plan.Lawful) {c : Snapshot} (hc : s.Reachable c) {e : Entry}
    (h : e ∈ c.run.journal) :
    ∃ later rest c₀, c.run.journal = later ++ e :: rest ∧ s.Reachable c₀ ∧ s.Writes c₀ e rest := by
  obtain ⟨later, rest, hjournal⟩ := List.append_of_mem h
  obtain ⟨c₀, hc₀, hwrites⟩ := hc.written hp ⟨later, hjournal.symm⟩
  exact ⟨later, rest, c₀, hjournal, hc₀, hwrites⟩

end RunSettings

end FlowGraph
