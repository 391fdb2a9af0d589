import FlowGraph.Run.Engine
import Mathlib.Tactic.SplitIfs

/-!
What the parts of the engine write into the journal of a run, and how the journal is read: the visits
in their order, the outputs that a visit completed with, and where a node was last at work.
-/

namespace FlowGraph

/-- The visits that a journal tells of, in their order; of the journal of a run, those of its trace. -/
def visitsIn (journal : List Entry) : List Visit :=
  (journal.filterMap Entry.visit?).reverse

theorem mem_visitsIn {journal : List Entry} {v : Visit} :
    v ∈ visitsIn journal ↔ Entry.visited v ∈ journal := by
  rw [visitsIn, List.mem_reverse, List.mem_filterMap]
  constructor
  · rintro ⟨e, he, heq⟩
    cases e with
    | visited w =>
        obtain rfl := Option.some.inj heq
        exact he
    | _ => exact absurd heq (by simp [Entry.visit?])
  · intro h
    exact ⟨_, h, rfl⟩

theorem visitsIn_append (added journal : List Entry) :
    visitsIn (added ++ journal) = visitsIn journal ++ visitsIn added := by
  rw [visitsIn, List.filterMap_append, List.reverse_append]
  rfl

/-- The node that an entry is about and the iteration that it belongs to. -/
def Entry.located? : Entry → Option (String × List Nat)
  | called id iteration _ | answered id iteration _ => some (id, iteration)
  | visited v => some (v.nodeId, v.iteration)
  | _ => none

theorem Entry.located?_of_visit? {e : Entry} {v : Visit} (h : e.visit? = some v) :
    e.located? = some (v.nodeId, v.iteration) := by
  cases e with
  | visited w =>
      obtain rfl := Option.some.inj h
      rfl
  | _ => exact absurd h (by simp [Entry.visit?])

/-- Whether a journal tells that a node completed in an iteration, and with what. -/
def CompletedIn (journal : List Entry) (nodeId : String) (iteration : List Nat) (c : Completed) :
    Prop :=
  ∃ signal duration, signal.bind Signal.branch? = c.branch ∧
    [.visited ⟨nodeId, iteration, .completed, signal, duration⟩,
      .sent (.nodeCompleted nodeId c.outputs duration)] <:+: journal

theorem CompletedIn.cons {journal : List Entry} {id : String} {it : List Nat} {c : Completed}
    (h : CompletedIn journal id it c) (e : Entry) : CompletedIn (e :: journal) id it c := by
  obtain ⟨signal, duration, hbranch, hinfix⟩ := h
  exact ⟨signal, duration, hbranch, List.infix_cons hinfix⟩

/-- Only a visit of the node in this iteration tells of its completion. -/
theorem completedIn_append_iff {journal added : List Entry} {id : String} {it : List Nat}
    {c : Completed}
    (h : ∀ e ∈ added, ∀ v, e.visit? = some v → ¬ (v.nodeId = id ∧ v.iteration = it)) :
    CompletedIn (added ++ journal) id it c ↔ CompletedIn journal id it c := by
  induction added with
  | nil => rfl
  | cons e added ih =>
      rw [← ih fun e' he' => h e' (List.mem_cons_of_mem _ he')]
      refine ⟨fun hc => ?_, fun hc => hc.cons e⟩
      obtain ⟨signal, duration, hbranch, hinfix⟩ := hc
      rcases List.infix_cons_iff.mp hinfix with hhead | htail
      · obtain ⟨rest, hrest⟩ := hhead
        obtain ⟨rfl, -⟩ := List.cons.inj hrest
        exact absurd ⟨rfl, rfl⟩ (h _ List.mem_cons_self _ rfl)
      · exact ⟨signal, duration, hbranch, htail⟩

theorem completedIn_completed_iff {journal : List Entry} {id : String} {it : List Nat}
    {outputs : Outputs} {signal : Option Signal} {duration : Nat} {c : Completed}
    (h : ∀ c, ¬ CompletedIn journal id it c) :
    CompletedIn (.visited ⟨id, it, .completed, signal, duration⟩ ::
      .sent (.nodeCompleted id outputs duration) :: journal) id it c ↔
        c = ⟨outputs, signal.bind Signal.branch?⟩ := by
  constructor
  · rintro ⟨signal', duration', hbranch, hinfix⟩
    rcases List.infix_cons_iff.mp hinfix with hhead | htail
    · obtain ⟨rest, hrest⟩ := hhead
      simp only [List.cons_append, List.nil_append, List.cons.injEq, Entry.visited.injEq,
        Visit.mk.injEq, Entry.sent.injEq, Event.nodeCompleted.injEq] at hrest
      obtain ⟨⟨-, -, -, rfl, rfl⟩, ⟨-, houtputs, -⟩, -⟩ := hrest
      obtain ⟨outputs', branch⟩ := c
      exact Completed.mk.injEq .. ▸ ⟨houtputs, hbranch.symm⟩
    · have hc : CompletedIn ([.sent (.nodeCompleted id outputs duration)] ++ journal) id it c :=
        ⟨signal', duration', hbranch, htail⟩
      exact absurd ((completedIn_append_iff (by simp [Entry.visit?])).mp hc) (h c)
  · rintro rfl
    exact ⟨signal, duration, rfl, List.infix_iff_prefix_suffix.mpr
      ⟨_, ⟨journal, rfl⟩, List.suffix_refl _⟩⟩

theorem CompletedIn.visited_mem {journal : List Entry} {id : String} {it : List Nat} {c : Completed}
    (h : CompletedIn journal id it c) : ∃ signal duration, signal.bind Signal.branch? = c.branch ∧
      Entry.visited ⟨id, it, .completed, signal, duration⟩ ∈ journal := by
  obtain ⟨signal, duration, hbranch, hinfix⟩ := h
  exact ⟨signal, duration, hbranch, hinfix.subset List.mem_cons_self⟩

/-- What is written when nodes are skipped. -/
def skips (iteration : List Nat) : List String → List Entry
  | [] => []
  | id :: ids =>
    skips iteration ids ++ [.visited ⟨id, iteration, .skipped, none, 0⟩, .sent (.nodeSkipped id)]

/-- The messages of a node, as they are written. -/
def messages (nodeId : String) (events : List NodeEvent) : List Entry :=
  events.map fun e => .sent (.nodeEvent nodeId e)

/-- What is written from the beginning of a visit until its result is there, upon what was written
before it began. -/
inductive Calls (place : Place) (frame : Frame) (n : PlannedNode) (journal : List Entry) :
    Except NodeError NodeResult → List Entry → Prop
  /-- The executor is not called. -/
  | refused {cause} : Calls place frame n journal (.error cause) journal
  /-- The executor is cut short. -/
  | cut {inputs events cause} (hinputs : n.resolveInputs (frame :: place.enclosing) = .ok inputs) :
      Calls place frame n journal (.error cause)
        (messages n.id events ++ .called n.id place.iteration inputs :: journal)
  | answered {inputs events result}
      (hinputs : n.resolveInputs (frame :: place.enclosing) = .ok inputs) :
      Calls place frame n journal result
        (.answered n.id place.iteration result ::
          (messages n.id events ++ .called n.id place.iteration inputs :: journal))

/-- A call tells of no visit, and of no other node and iteration than its own. -/
theorem Calls.exists_added {place : Place} {frame : Frame} {n : PlannedNode} {journal : List Entry}
    {result : Except NodeError NodeResult} {after : List Entry}
    (h : Calls place frame n journal result after) : ∃ added, after = added ++ journal ∧
      ∀ e ∈ added, e.visit? = none ∧
        ∀ id it, e.located? = some (id, it) → id = n.id ∧ it = place.iteration := by
  have hmessages : ∀ events, ∀ e ∈ messages n.id events, e.visit? = none ∧
      ∀ id it, e.located? = some (id, it) → id = n.id ∧ it = place.iteration := by
    intro events e he
    obtain ⟨event, -, rfl⟩ := List.mem_map.mp he
    exact ⟨rfl, fun _ _ h => absurd h (by simp [Entry.located?])⟩
  have hown : ∀ e : Entry, e.visit? = none → e.located? = some (n.id, place.iteration) →
      e.visit? = none ∧ ∀ id it, e.located? = some (id, it) → id = n.id ∧ it = place.iteration := by
    intro e hvisit hlocated
    refine ⟨hvisit, fun id it h => ?_⟩
    obtain ⟨rfl, rfl⟩ := Prod.mk.inj (Option.some.inj (hlocated.symm.trans h))
    exact ⟨rfl, rfl⟩
  cases h with
  | refused => exact ⟨[], rfl, fun e he => absurd he List.not_mem_nil⟩
  | @cut inputs events =>
      refine ⟨messages n.id events ++ [.called n.id place.iteration inputs], by simp, fun e he => ?_⟩
      rcases List.mem_append.mp he with he | he
      · exact hmessages events e he
      · obtain rfl := List.mem_singleton.mp he
        exact hown _ rfl rfl
  | @answered inputs events result =>
      refine ⟨.answered n.id place.iteration result ::
        (messages n.id events ++ [.called n.id place.iteration inputs]), by simp, fun e he => ?_⟩
      rcases List.mem_cons.mp he with rfl | he
      · exact hown _ rfl rfl
      rcases List.mem_append.mp he with he | he
      · exact hmessages events e he
      · obtain rfl := List.mem_singleton.mp he
        exact hown _ rfl rfl

/-- A call tells that the node is called, of its messages and of its answer. -/
theorem Calls.eq_of_mem {place : Place} {frame : Frame} {n : PlannedNode} {added journal : List Entry}
    {result : Except NodeError NodeResult} (h : Calls place frame n journal result (added ++ journal))
    {e : Entry} (he : e ∈ added) : (∃ event, e = .sent (.nodeEvent n.id event)) ∨
      (∃ inputs, e = .called n.id place.iteration inputs) ∨
        e = .answered n.id place.iteration result := by
  have hcalled : ∀ events inputs, e ∈ messages n.id events ++
      [.called n.id place.iteration inputs] → (∃ event, e = .sent (.nodeEvent n.id event)) ∨
        (∃ inputs, e = .called n.id place.iteration inputs) ∨
          e = .answered n.id place.iteration result := by
    intro events inputs he
    rcases List.mem_append.mp he with he | he
    · obtain ⟨event, -, rfl⟩ := List.mem_map.mp he
      exact Or.inl ⟨event, rfl⟩
    · exact Or.inr (Or.inl ⟨inputs, List.mem_singleton.mp he⟩)
  generalize hafter : added ++ journal = after at h
  cases h with
  | refused =>
      obtain rfl := List.append_left_eq_self.mp hafter
      exact absurd he List.not_mem_nil
  | @cut inputs events =>
      obtain rfl : added = messages n.id events ++ [.called n.id place.iteration inputs] :=
        List.append_cancel_right (hafter.trans (by simp))
      exact hcalled events inputs he
  | @answered inputs events result =>
      obtain rfl : added = .answered n.id place.iteration result ::
          (messages n.id events ++ [.called n.id place.iteration inputs]) :=
        List.append_cancel_right (hafter.trans (by simp))
      rcases List.mem_cons.mp he with rfl | he
      · exact Or.inr (Or.inr rfl)
      · exact hcalled events inputs he

/-- The answer of a call is its result. -/
theorem Calls.eq_of_answered_mem {place : Place} {frame : Frame} {n : PlannedNode}
    {journal after : List Entry} {result : Except NodeError NodeResult}
    (h : Calls place frame n journal result after) {id : String} {it : List Nat}
    {answer : Except NodeError NodeResult} (hmem : .answered id it answer ∈ after) :
    .answered id it answer ∈ journal ∨ id = n.id ∧ it = place.iteration ∧ answer = result := by
  have hcalled : ∀ events inputs, .answered id it answer ∈
      messages n.id events ++ .called n.id place.iteration inputs :: journal →
      .answered id it answer ∈ journal := by
    intro events inputs hmem
    rcases List.mem_append.mp hmem with hmem | hmem
    · obtain ⟨event, -, heq⟩ := List.mem_map.mp hmem
      exact absurd heq (by simp)
    · exact (List.mem_cons.mp hmem).resolve_left (by simp)
  cases h with
  | refused => exact Or.inl hmem
  | cut => exact Or.inl (hcalled _ _ hmem)
  | answered =>
      rcases List.mem_cons.mp hmem with heq | hmem
      · obtain ⟨rfl, rfl, rfl⟩ := Entry.answered.inj heq
        exact Or.inr ⟨rfl, rfl, rfl⟩
      · exact Or.inl (hcalled _ _ hmem)

theorem Calls.answered_mem {place : Place} {frame : Frame} {n : PlannedNode}
    {journal after : List Entry} {value : NodeResult}
    (h : Calls place frame n journal (.ok value) after) :
    .answered n.id place.iteration (.ok value) ∈ after := by
  cases h with
  | answered => exact List.mem_cons_self

theorem mem_skips {it : List Nat} {ids : List String} {e : Entry} (h : e ∈ skips it ids) :
    ∃ id ∈ ids, e = .visited ⟨id, it, .skipped, none, 0⟩ ∨ e = .sent (.nodeSkipped id) := by
  induction ids with
  | nil => exact absurd h List.not_mem_nil
  | cons id ids ih =>
      rcases List.mem_append.mp h with h | h
      · obtain ⟨id', hid', he⟩ := ih h
        exact ⟨id', List.mem_cons_of_mem _ hid', he⟩
      · exact ⟨id, List.mem_cons_self, by simpa using h⟩

theorem located?_of_mem_skips {it : List Nat} {ids : List String} {e : Entry} (h : e ∈ skips it ids)
    {id : String} {it' : List Nat} (hlocated : e.located? = some (id, it')) : id ∈ ids ∧ it' = it := by
  obtain ⟨id', hid', rfl | rfl⟩ := mem_skips h
  · obtain ⟨rfl, rfl⟩ := Prod.mk.inj (Option.some.inj hlocated)
    exact ⟨hid', rfl⟩
  · exact absurd hlocated (by simp [Entry.located?])

theorem visited_mem_skips {it : List Nat} {ids : List String} {id : String} (h : id ∈ ids) :
    .visited ⟨id, it, .skipped, none, 0⟩ ∈ skips it ids := by
  induction ids with
  | nil => exact absurd h List.not_mem_nil
  | cons id' ids ih =>
      rcases List.mem_cons.mp h with rfl | h
      · exact List.mem_append_right _ List.mem_cons_self
      · exact List.mem_append_left _ (ih h)

namespace RunSettings

variable (s : RunSettings)

@[simp] theorem journal_send (e : Event) (r : RunState) :
    (s.send e r).journal = .sent e :: r.journal := by
  unfold send RunState.send
  cases s.cancellation.upon <;> rfl

@[simp] theorem clock_send (e : Event) (r : RunState) : (s.send e r).clock = r.clock := by
  unfold send RunState.send
  cases s.cancellation.upon <;> rfl

@[simp] theorem journal_start (n : PlannedNode) (r : RunState) :
    (s.start n r).journal = .sent (.nodeStarted n.id n.typeName) :: r.journal :=
  s.journal_send _ r

@[simp] theorem journal_fail (place : Place) (n : PlannedNode) (cause : NodeError) (started : Nat)
    (r : RunState) : (s.fail place n cause started r).journal =
      .visited ⟨n.id, place.iteration, .failed, none, r.clock - started⟩ ::
        .sent (.nodeFailed n.id cause.message) :: r.journal := by
  show Entry.visited _ :: (s.send _ r).journal = _
  rw [journal_send]

@[simp] theorem journal_complete (place : Place) (n : PlannedNode) (outputs : Outputs)
    (signal : Option Signal) (started : Nat) (frame : Frame) (r : RunState) :
    (s.complete place n outputs signal started frame r).2.journal =
      .visited ⟨n.id, place.iteration, .completed, signal, r.clock - started⟩ ::
        .sent (.nodeCompleted n.id outputs (r.clock - started)) :: r.journal := by
  show Entry.visited _ :: (s.send _ r).journal = _
  rw [journal_send]

@[simp] theorem journal_skipAll (place : Place) (ids : List String) (r : RunState) :
    (s.skipAll place ids r).journal = skips place.iteration ids ++ r.journal := by
  induction ids generalizing r with
  | nil => rfl
  | cons id ids ih =>
      show (s.skipAll place ids _).journal = _
      rw [ih]
      show _ ++ Entry.visited _ :: (s.send _ r).journal = _
      rw [journal_send, skips, List.append_assoc]
      rfl

/-- The nodes that are skipped together with a node. -/
def skippedWith (n : PlannedNode) : List String :=
  match n.kind.loopHandles? with
  | none => []
  | some _ => s.bodyNodes n.id

theorem journal_skip (place : Place) (n : PlannedNode) (r : RunState) :
    (s.skip place n r).journal =
      skips place.iteration (n.id :: s.skippedWith n) ++ r.journal := by
  unfold skip skippedWith
  cases n.kind.loopHandles? <;> exact s.journal_skipAll place _ r

theorem journal_sleepUntil (wake : Nat) (deadline : Option Nat) (r : RunState) :
    (s.sleepUntil wake deadline r).2.journal = r.journal := by
  unfold sleepUntil
  dsimp only
  split_ifs <;> rfl

theorem journal_carryOut (id : String) (deadline : Option Nat) (steps : List ActivityStep)
    (r : RunState) :
    ∃ events, (s.carryOut id deadline steps r).2.journal = messages id events ++ r.journal := by
  induction steps generalizing r with
  | nil => exact ⟨[], rfl⟩
  | cons step steps ih =>
      cases step with
      | emit e =>
          obtain ⟨events, hevents⟩ := ih (s.send (.nodeEvent id e) r)
          refine ⟨events ++ [e], ?_⟩
          rw [carryOut, hevents, journal_send]
          simp [messages]
      | sleep millis =>
          have hsleep := s.journal_sleepUntil (r.clock + millis) deadline r
          rw [carryOut]
          split
          next cause run heq =>
            refine ⟨[], ?_⟩
            rw [heq] at hsleep
            exact hsleep
          next run heq =>
            rw [heq] at hsleep
            obtain ⟨events, hevents⟩ := ih run
            exact ⟨events, hsleep ▸ hevents⟩

theorem calls_invoke (place : Place) (frame : Frame) (n : PlannedNode) (r : RunState) :
    Calls place frame n r.journal (s.invoke place frame n r).1
      (s.invoke place frame n r).2.journal := by
  unfold invoke
  split_ifs with hcancelled
  · exact .refused
  · cases hinputs : n.resolveInputs (frame :: place.enclosing) with
    | error cause => exact .refused
    | ok inputs =>
        dsimp only
        obtain ⟨events, hevents⟩ := s.journal_carryOut n.id (s.nodeTimeout.map (r.clock + ·))
          (n.executor.run (s.contextOf place n inputs r.store)).steps
          (r.log (.called n.id place.iteration inputs))
        split
        next cause run heq =>
          have hrun : run.journal = messages n.id events ++ .called n.id place.iteration inputs ::
              r.journal := (congrArg (·.2.journal) heq).symm.trans hevents
          rw [hrun]
          exact .cut hinputs
        next run heq =>
          have hrun : run.journal = messages n.id events ++ .called n.id place.iteration inputs ::
              r.journal := (congrArg (·.2.journal) heq).symm.trans hevents
          show Calls place frame n r.journal _ (.answered n.id place.iteration _ :: run.journal)
          rw [hrun]
          exact .answered hinputs

end RunSettings

end FlowGraph
