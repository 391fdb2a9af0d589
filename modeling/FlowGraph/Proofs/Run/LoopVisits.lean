import FlowGraph.Proofs.Run.Rounds

/-!
What a run tells of a visit of a loop. Once the loop has answered with its collection, each iteration that
it enters is announced and its pass is told of, in the order of the elements, until the loop completes or
the run is over; and all passes through its body that belong to the visit are told of there.
-/

namespace FlowGraph

open Plan RunSettings

/-- How a visit of a loop goes through so many elements, told by the exits of the iterations that it
enters. -/
structure RunSettings.Iterates (s : RunSettings) (n : PlannedNode) (it : List Nat) (total : Nat)
    (exits : List Exit) : Prop where
  /-- From its answer until the visit is recorded, or until the run is over, the loop announces one
  iteration after the other, and the pass of each is told of before the next one. -/
  told : ∃ later own result earlier, s.execute.2.journal =
      later ++ own ++ .answered n.id it (.ok result) :: earlier ∧
    (own.filter (fun e => e.loop? = some n.id)).reverse = roundsFrom n.id it total 0 exits ∧
    (later = [] ∨ ∃ v rest, own = .visited v :: rest ∧ v.nodeId = n.id ∧ v.iteration = it)
  /-- Nowhere else is one of its passes told of. -/
  passed_iff : ∀ k exit, .passed (some n.id) (it ++ [k]) exit ∈ s.execute.2.journal ↔
    exits[k]? = some exit
  /-- The first iteration is entered if there is an element. -/
  entered_first : exits = [] ↔ total = 0
  /-- The next iteration is entered if there is an element and the pass was finished, or ended by what
  goes on with the next iteration. -/
  entered_next : ∀ k exit, exits[k]? = some exit → (k + 1 < exits.length ↔
    k + 1 < total ∧ exit.GoesOn)

namespace RunSettings

variable {s : RunSettings} {c : Snapshot} {loops : List OpenLoop} {r : RunState}

/-- A node answers once in an iteration. -/
theorem Reachable.answered_once (hp : s.plan.Lawful) (hc : s.Reachable c) {id : String} {it : List Nat}
    {result : Except NodeError NodeResult} {rest : List Entry}
    (h : .answered id it result :: rest <:+ c.run.journal) (result' : Except NodeError NodeResult) :
    .answered id it result' ∉ rest := by
  obtain ⟨c₀, hc₀, hwrites⟩ := hc.written hp h
  cases hwrites with
  | answered _ hadded =>
      obtain ⟨-, huntouched, -⟩ := standing_of_reachable hp hc₀
      intro hmem
      rcases List.mem_append.mp hmem with hmem | hmem
      · exact hadded _ hmem _ rfl
      · exact (huntouched _ List.mem_cons_self _ hmem _ _ rfl (Or.inl rfl)).ne rfl

/-- What an executor has answered is told of last. -/
theorem Reachable.journal_of_answered {v : OpenVisit} {value : NodeResult}
    (h : s.Reachable ⟨.answered v (.ok value), loops, r⟩) :
    ∃ earlier, r.journal = .answered v.node.id (placeOf loops).iteration (.ok value) :: earlier := by
  generalize hc : Snapshot.mk (.answered v (.ok value)) loops r = c at h
  cases h with
  | begin => exact absurd (congrArg Snapshot.phase hc) (by simp [RunSettings.begin])
  | step _ hstep =>
      cases hstep with
      | @call frame n todo loops' r' =>
          obtain ⟨hphase, rfl, rfl⟩ := Snapshot.mk.inj hc
          obtain ⟨rfl, hresult⟩ := Phase.answered.inj hphase
          have hcalls := s.calls_invoke (placeOf loops) frame n (s.start n r')
          rw [← hresult] at hcalls
          generalize (s.invoke (placeOf loops) frame n (s.start n r')).2.journal = journal at hcalls
          cases hcalls with
          | answered => exact ⟨_, rfl⟩
      | settle => exact absurd (congrArg Snapshot.phase hc).symm (Phase.next_ne_answered _ _ _ _ _)
      | _ => exact absurd (congrArg Snapshot.phase hc) (by simp)

/-- A failure leaves the passes that are under way, and the run is over. -/
theorem Reachable.fails_out (hp : s.plan.Lawful) {frame : Frame} {failure : Failure}
    (h : s.Reachable ⟨.leaving frame (.failed failure), loops, r⟩) :
    ∃ added, s.execute.2.journal = added ++ r.journal ∧
      ∀ e ∈ added, e.located? = none ∧ ∀ id, e.loop? = some id → id ∈ idsOf loops := by
  induction loops generalizing frame r with
  | nil =>
      refine ⟨[.sent (.runFailed failure.nodeId failure.cause.message r.clock),
        .passed none [] (.failed failure)], ?_, by simp [Entry.loop?, Entry.located?]⟩
      rw [h.execute_eq hp]
      exact s.journal_send _ _
  | cons o loops ih =>
      obtain ⟨added, hjournal, hadded⟩ := ih (h.step .abandon)
      refine ⟨added ++ [.passed (some o.node.id) (placeOf (o :: loops)).iteration (.failed failure)],
        by rw [hjournal, List.append_assoc]; rfl, fun e he => ?_⟩
      simp only [mem_idsOf_cons]
      rcases List.mem_append.mp he with he | he
      · exact (hadded e he).imp_right fun h id hid => List.mem_cons_of_mem _ (h id hid)
      · obtain rfl := List.mem_singleton.mp he
        refine ⟨rfl, fun id hid => ?_⟩
        obtain rfl := Option.some.inj hid
        exact List.mem_cons_self

theorem Reachable.not_cancelled (hp : s.plan.Lawful) (h : s.Reachable c)
    (hlive : s.execute.2.cancelled = false) : c.run.cancelled = false := by
  cases hcancelled : c.run.cancelled with
  | false => rfl
  | true =>
      have hlast := Moves.cancelled (moves_of_steps (h.steps_execute hp)) hcancelled
      exact absurd (hlive.symm.trans hlast) (by simp)

/-- The visit of a loop that has got its collection. -/
structure Launched (s : RunSettings) (n : PlannedNode) (it : List Nat) (values : Outputs)
    (o : OpenLoop) (loops : List OpenLoop) (r : RunState) : Prop where
  node_eq : o.node = n
  iteration_eq : (placeOf loops).iteration = it
  outputs_eq : o.outputs = Dict.erase values o.handles.body
  index_eq : o.index = 0
  collected_eq : o.collected = []
  not_mem : n.id ∉ idsOf loops
  looping : s.Reachable ⟨.looping, o :: loops, r⟩
  journal_eq : ∃ skipped earlier,
    r.journal = skipped ++ .answered n.id it (.ok (.outputs values)) :: earlier ∧
      ∀ e ∈ skipped, e.loop? = none

theorem Reachable.exists_launched (hp : s.plan.Lawful) {n : PlannedNode} (hn : n ∈ s.plan.nodes)
    {handles : LoopHandles} (hkind : n.kind.loopHandles? = some handles) {it : List Nat}
    {values : Outputs} {elements : List Value} (hc : s.Reachable c)
    (hanswered : .answered n.id it (.ok (.outputs values)) ∈ c.run.journal)
    (hcollection : Dict.get? values handles.body = some (.array elements)) :
    ∃ o loops r, s.Launched n it values o loops r ∧ o.handles = handles ∧ o.elements = elements := by
  obtain ⟨v, loops, r, hv, hid, rfl⟩ := hc.exists_answered hp hanswered
  obtain - | ⟨hvisiting, -, -, hstacked⟩ := standing_of_reachable hp hv
  obtain rfl := hp.eq_of_id_eq hvisiting.node_mem hn hid
  have hsplit : (Except.ok (NodeResult.outputs values)).bind (splitCollection handles) =
      .ok (elements, Dict.erase values handles.body) := by
    simp only [Except.bind, splitCollection, hcollection]
  obtain ⟨earlier, hjournal⟩ := hv.journal_of_answered
  refine ⟨_, loops, _, ⟨rfl, rfl, rfl, rfl, rfl,
    hstacked.not_mem_idsOf hp hvisiting.level List.mem_cons_self (Or.inl rfl),
    hv.step (.launch hkind hsplit), ?_⟩, rfl, rfl⟩
  cases elements with
  | nil =>
      have hskips := s.journal_skipAll (placeOf loops) (s.bodyNodes v.node.id) r
      rw [hjournal] at hskips
      exact ⟨_, earlier, hskips, fun e he => loop?_of_mem_skips he⟩
  | cons element elements => exact ⟨[], earlier, hjournal, fun e he => absurd he List.not_mem_nil⟩

variable {n : PlannedNode} {it : List Nat} {values : Outputs} {o : OpenLoop}

/-- What is told of a loop from its answer on. -/
theorem Launched.told (hp : s.plan.Lawful) (h : s.Launched n it values o loops r)
    {rounds : List Round} (hgoes : s.GoesThrough loops o r rounds c) (hc : s.Reachable c)
    (hphase : ∀ v cause, c.phase ≠ .settling v (.error cause)) :
    ∃ later own earlier,
      s.execute.2.journal = later ++ own ++ .answered n.id it (.ok (.outputs values)) :: earlier ∧
      (own.filter (fun e => e.loop? = some n.id)).reverse =
        roundsFrom n.id it o.elements.length 0 (rounds.map (·.exit)) ∧
      (later = [] ∨ ∃ v rest, own = .visited v :: rest ∧ v.nodeId = n.id ∧ v.iteration = it) := by
  obtain ⟨skipped, earlier, hlaunched, hskipped⟩ := h.journal_eq
  obtain ⟨own, hjournal, htold⟩ := hgoes.journal_eq
  rw [h.node_eq, h.iteration_eq, h.index_eq] at htold
  have hsilent : ∀ added : List Entry, (∀ e ∈ added, e.loop? ≠ some n.id) →
      ((added ++ own ++ skipped).filter (fun e => e.loop? = some n.id)).reverse =
        roundsFrom n.id it o.elements.length 0 (rounds.map (·.exit)) := by
    intro added hadded
    have hnone : ∀ es : List Entry, (∀ e ∈ es, e.loop? ≠ some n.id) →
        es.filter (fun e => e.loop? = some n.id) = [] :=
      fun es hes => List.filter_eq_nil_iff.mpr fun e he heq => hes e he (of_decide_eq_true heq)
    rw [List.filter_append, List.filter_append, hnone added hadded,
      hnone skipped fun e he => by simp [hskipped e he], List.nil_append, List.append_nil]
    exact htold
  obtain ⟨hloops, hends⟩ := hgoes.ends
  obtain ⟨phase, loops', r'⟩ := c
  obtain rfl : loops' = loops := hloops
  dsimp only at hjournal hends
  rw [hlaunched] at hjournal
  rcases hends with ⟨exit, rfl⟩ | hcancelled | ⟨failure, rfl, -⟩
  · obtain ⟨later, hlater⟩ := (hc.step .settle).suffix_execute hp
    let outputs := ((o.collect (rounds.flatMap (·.values))).completion exit).outputs
    let v : Visit := ⟨o.node.id, (placeOf loops').iteration, .completed, none, r'.clock - o.started⟩
    have hsettled := s.journal_complete (placeOf loops') o.node outputs none o.started o.frame r'
    rw [hjournal] at hsettled
    refine ⟨later, .visited v :: .sent (.nodeCompleted o.node.id outputs v.duration) :: own ++ skipped,
      earlier, ?_, hsilent [_, _] (by simp [Entry.loop?]),
      Or.inr ⟨v, _, rfl, congrArg PlannedNode.id h.node_eq, h.iteration_eq⟩⟩
    rw [← hlater]
    refine (congrArg (later ++ ·) hsettled).trans ?_
    simp [v]
  · exact absurd hcancelled (hphase _ _)
  · obtain ⟨added, hadded, hidsOf⟩ := hc.fails_out hp
    refine ⟨[], added ++ own ++ skipped, earlier, ?_, hsilent added fun e he hid => ?_, Or.inl rfl⟩
    · rw [hadded, hjournal]
      simp
    · exact h.not_mem ((hidsOf e he).2 _ hid)

/-- The passes of a visit are told of between its answer and the end of the visit. -/
theorem mem_of_passed (hp : s.plan.Lawful) {later own earlier : List Entry} {result : NodeResult}
    (hjournal : s.execute.2.journal = later ++ own ++ .answered n.id it (.ok result) :: earlier)
    (hlater : later = [] ∨ ∃ v rest, own = .visited v :: rest ∧ v.nodeId = n.id ∧ v.iteration = it)
    {k : Nat} {exit : Exit} (h : .passed (some n.id) (it ++ [k]) exit ∈ s.execute.2.journal) :
    .passed (some n.id) (it ++ [k]) exit ∈ own := by
  have hc := reachable_execute hp
  have hwritten : ∀ rest, .passed (some n.id) (it ++ [k]) exit :: rest <:+ s.execute.2.journal →
      (∀ v, .visited v ∈ rest → v.nodeId = n.id → v.iteration ≠ it) ∧
        ∃ result, .answered n.id it result ∈ rest := by
    intro rest hrest
    obtain ⟨c₀, hc₀, hwrites⟩ := hc.written hp hrest
    generalize hregion : some n.id = region at hwrites
    generalize hit : it ++ [k] = iteration at hwrites
    cases hwrites with
    | @passed frame exit loops r =>
        cases loops with
        | nil => exact absurd hregion (by simp [placeOf])
        | cons o loops =>
            obtain - | - | - | ⟨-, -, hopened, -⟩ := standing_of_reachable hp hc₀
            obtain hid : n.id = o.node.id := Option.some.inj hregion
            rw [placeOf_cons] at hit
            obtain ⟨rfl, -⟩ := List.append_inj' hit rfl
            obtain ⟨values, -, hanswer⟩ := hopened.exists_answer
            rw [hid]
            exact ⟨fun v hv hvid => (hopened.visiting.unvisited v hv hvid).ne,
              _, (hanswer _).mpr rfl⟩
  obtain ⟨before, rest, hsplit⟩ := List.append_of_mem h
  have hsuffix : .passed (some n.id) (it ++ [k]) exit :: rest <:+ s.execute.2.journal :=
    ⟨before, hsplit.symm⟩
  obtain ⟨hunvisited, result', hanswered⟩ := hwritten rest hsuffix
  rw [hjournal, List.append_assoc] at hsuffix
  rcases suffix_append_cases hsuffix with hsuffix | ⟨before', between, rfl, rfl⟩
  · rcases suffix_append_cases hsuffix with hsuffix | ⟨before', between, rfl, -⟩
    · have hearlier := (List.suffix_cons_iff.mp hsuffix).resolve_left (by simp)
      have hmem := ((List.suffix_cons _ _).trans hearlier).subset hanswered
      exact absurd hmem (hc.answered_once hp ⟨later ++ own, hjournal.symm⟩ result')
    · exact List.mem_append_right _ List.mem_cons_self
  · rcases hlater with hnil | ⟨v, own', rfl, hid, hit⟩
    · exact absurd hnil (by simp)
    · exact absurd hit (hunvisited v (by simp) hid)

theorem Launched.iterates (hp : s.plan.Lawful) (h : s.Launched n it values o loops r)
    {rounds : List Round} (hgoes : s.GoesThrough loops o r rounds c) (hc : s.Reachable c)
    (hphase : ∀ v cause, c.phase ≠ .settling v (.error cause)) :
    s.Iterates n it o.elements.length (rounds.map (·.exit)) := by
  obtain ⟨later, own, earlier, hjournal, htold, hlater⟩ := h.told hp hgoes hc hphase
  obtain ⟨hfirst, hnext⟩ := hgoes.entered_iff hphase
  rw [h.index_eq] at hfirst hnext
  refine ⟨⟨later, own, _, earlier, hjournal, htold, hlater⟩, fun k exit => ?_, ?_, ?_⟩
  · have hrounds : .passed (some n.id) (it ++ [k]) exit ∈ own ↔
        .passed (some n.id) (it ++ [k]) exit ∈
          roundsFrom n.id it o.elements.length 0 (rounds.map (·.exit)) := by
      rw [← htold, List.mem_reverse, List.mem_filter]
      simp [Entry.loop?]
    have hmem : .passed (some n.id) (it ++ [k]) exit ∈ s.execute.2.journal ↔
        .passed (some n.id) (it ++ [k]) exit ∈ own := by
      refine ⟨mem_of_passed hp hjournal hlater, fun hown => ?_⟩
      rw [hjournal]
      exact List.mem_append_left _ (List.mem_append_right _ hown)
    rw [hmem, hrounds, passed_mem_roundsFrom]
    simp
  · rw [List.map_eq_nil_iff, hfirst, Nat.le_zero]
  · intro k exit hexit
    rw [List.getElem?_map, Option.map_eq_some_iff] at hexit
    obtain ⟨round, hround, rfl⟩ := hexit
    rw [List.length_map, hnext k round hround, Nat.zero_add]

/-- A loop that has got a collection goes through it. -/
theorem exists_iterates (hp : s.plan.Lawful) (hlive : s.execute.2.cancelled = false)
    (hn : n ∈ s.plan.nodes) {handles : LoopHandles} (hkind : n.kind.loopHandles? = some handles)
    {elements : List Value}
    (hanswered : .answered n.id it (.ok (.outputs values)) ∈ s.execute.2.journal)
    (hcollection : Dict.get? values handles.body = some (.array elements)) :
    ∃ exits, s.Iterates n it elements.length exits := by
  obtain ⟨o, loops, r, hlaunched, -, rfl⟩ :=
    (reachable_execute hp).exists_launched hp hn hkind hanswered hcollection
  obtain ⟨rounds, c, hgoes, hc⟩ := hlaunched.looping.goesThrough hp
  exact ⟨_, hlaunched.iterates hp hgoes hc (hgoes.phase_ne (hc.not_cancelled hp hlive))⟩

end RunSettings

end FlowGraph
