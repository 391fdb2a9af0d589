import FlowGraph.Proofs.Plan.Bindings
import FlowGraph.Proofs.Run.Frames
import FlowGraph.Proofs.Run.Passed
import FlowGraph.Standard

/-!
What a loop collects. When a loop completes, it has one value at most from each iteration: the value that
the source of its back edge completed with in that very iteration, or the element itself if it has no back
edge. The record of the run says which, however deep the loop lies and whatever else is under way.
-/

namespace FlowGraph

open Plan RunSettings

/-- Whether a binding that closes the body of a loop hands a value back from an iteration: its source
completed in it with the value, and chose no other of its outputs. -/
def HandsBack (journal : List Entry) (b : Binding) (iteration : List Nat) (value : Value) : Prop :=
  ∃ c, CompletedIn journal b.source iteration c ∧
    (∀ handle, c.branch = some handle → handle = b.sourceHandle) ∧
    Dict.get? c.outputs b.sourceHandle = some value

/-- What a visit of a loop collects from the iterations that it enters, told by their exits. -/
structure RunSettings.Collects (s : RunSettings) (n : PlannedNode) (it : List Nat)
    (elements : List Value) (exits : List Exit) (collected : List Value) : Prop where
  /-- If no edge closes the body, these are the elements that it has entered, without the one at which the
  run ended. -/
  elements_entered : n.backBinding = none →
    ((∀ id, exits.getLast? ≠ some (.ended id)) → collected = elements.take exits.length) ∧
    ∀ id, exits.getLast? = some (.ended id) → collected = elements.take (exits.length - 1)
  /-- If one does, each iteration gives a value or none, and the values are in their order: an iteration
  gives what its source hands back, if the pass was finished. -/
  handed_back : ∀ b, n.backBinding = some b → ∃ given : List (Option Value),
    given.length = exits.length ∧ collected = given.reduceOption ∧
    ∀ k value, given[k]? = some (some value) ↔
      exits[k]? = some .finished ∧ HandsBack s.execute.2.journal b (it ++ [k]) value

namespace RunSettings

variable {s : RunSettings} {c : Snapshot} {loops : List OpenLoop} {r : RunState}

/-- What is written after a visit tells of no other visit of the node in this iteration, and neither does
what was written before. -/
theorem Reachable.visited_apart (hp : s.plan.Lawful) (hc : s.Reachable c) {added rest : List Entry}
    {v : Visit} (h : c.run.journal = added ++ .visited v :: rest) :
    (∀ e ∈ added, ∀ u, e.visit? = some u → ¬ (u.nodeId = v.nodeId ∧ u.iteration = v.iteration)) ∧
      ∀ u, .visited u ∈ rest → ¬ (u.nodeId = v.nodeId ∧ u.iteration = v.iteration) := by
  have hordered : ∀ {u w : Visit} {rest : List Entry}, .visited w :: rest <:+ c.run.journal →
      .visited u ∈ rest → u.nodeId = w.nodeId → u.iteration ≠ w.iteration :=
    fun hw hu hid => (hc.precedes_of_visited hp hw hu hid).ne
  constructor
  · rintro e he u hu ⟨hid, hit⟩
    cases e with
    | visited u' =>
        obtain rfl := Option.some.inj hu
        obtain ⟨later, between, rfl⟩ := List.append_of_mem he
        have hlater : .visited u' :: (between ++ .visited v :: rest) <:+ c.run.journal :=
          ⟨later, by simp [h]⟩
        exact hordered hlater (by simp) hid.symm hit.symm
    | _ => exact absurd hu (by simp [Entry.visit?])
  · rintro u hu ⟨hid, hit⟩
    exact hordered ⟨added, h.symm⟩ hu hid hit

/-- A completion is told of once. -/
theorem Reachable.completedIn_iff (hp : s.plan.Lawful) (hc : s.Reachable c) {id : String} {it : List Nat}
    {outputs : Outputs} {signal : Option Signal} {duration : Nat} {added rest : List Entry}
    (h : c.run.journal = added ++ .visited ⟨id, it, .completed, signal, duration⟩ ::
      .sent (.nodeCompleted id outputs duration) :: rest) {found : Completed} :
    CompletedIn c.run.journal id it found ↔ found = ⟨outputs, signal.bind Signal.branch?⟩ := by
  obtain ⟨hlater, hearlier⟩ := hc.visited_apart hp h
  rw [h, completedIn_append_iff hlater]
  refine completedIn_completed_iff fun found' hfound' => ?_
  obtain ⟨_, _, -, hmem⟩ := hfound'.visited_mem
  exact hearlier _ (List.mem_cons_of_mem _ hmem) ⟨rfl, rfl⟩

/-- What completes in an iteration that is over has been told of. -/
theorem Reachable.completedIn_iff_of_past (hp : s.plan.Lawful) (hc : s.Reachable c) {id : String}
    {it : List Nat} {k : Nat} (hpast : c.Past id it k) {id' : String}
    (hscope : (s.plan.scope id')[it.length]? = some id) (found : Completed) :
    CompletedIn s.execute.2.journal id' (it ++ [k]) found ↔
      CompletedIn c.run.journal id' (it ++ [k]) found := by
  obtain ⟨added, hadded⟩ := hc.suffix_execute hp
  rw [← hadded]
  refine completedIn_append_iff fun e he u hu hsame => ?_
  have hlocated := Entry.located?_of_visit? hu
  rw [hsame.1, hsame.2] at hlocated
  have hmem : e ∈ s.execute.2.journal := hadded ▸ List.mem_append_left _ he
  have hwritten := hc.mem_of_past hp hpast hmem hlocated hscope List.prefix_rfl
  cases e with
  | visited v =>
      obtain rfl := Option.some.inj hu
      obtain ⟨later, between, rfl⟩ := List.append_of_mem he
      have hsplit : s.execute.2.journal = later ++ .visited v :: (between ++ c.run.journal) := by
        rw [← hadded]
        simp
      exact ((reachable_execute hp).visited_apart hp hsplit).2 v (List.mem_append_right _ hwritten)
        ⟨rfl, rfl⟩
  | _ => exact absurd hu (by simp [Entry.visit?])

/-! ### What a loop collects from one iteration -/

/-- When the pass of an iteration is finished, the edge that closes the body carries what its source
completed with in this iteration. -/
theorem Reachable.liveValue_iff_handsBack (hp : s.plan.Lawful) {frame : Frame} {o : OpenLoop}
    (h : s.Reachable ⟨.leaving frame .finished, o :: loops, r⟩) {b : Binding} {m : PlannedNode}
    (hm : m ∈ s.plan.nodes) (hid : m.id = b.source) (hlast : m.scope.getLast? = some o.node.id)
    (value : Value) :
    liveValue (frame :: (placeOf (o :: loops)).enclosing) b = some value ↔
      HandsBack s.execute.2.journal b ((placeOf loops).iteration ++ [o.index]) value := by
  obtain - | - | - | ⟨hlevel, -, hstacked⟩ := standing_of_reachable hp h
  have hmore := hstacked.2.1
  have hscope : m.scope = idsOf (o :: loops) := hstacked.scope_eq hp hm hlast
  have hit : (placeOf (o :: loops)).iteration = (placeOf loops).iteration ++ [o.index] := by
    rw [placeOf_cons]
    rfl
  have hlookup : ∀ found, lookup (frame :: (placeOf (o :: loops)).enclosing) b.source = some found ↔
      CompletedIn r.journal b.source ((placeOf loops).iteration ++ [o.index]) found := by
    intro found
    have houtside : m.id ∉ idsOf (o :: loops) := hscope ▸ hp.not_mem_scope_self m hm
    have htake : (placeOf (o :: loops)).iteration.take m.scope.length =
        (placeOf loops).iteration ++ [o.index] := by
      rw [hscope, length_idsOf, ← length_iteration_placeOf, List.take_length, hit]
    rw [← hid, lookup_iff hlevel hp hstacked hm (hscope ▸ List.prefix_rfl), htake]
    refine ⟨fun hfound => ?_, fun hfound => Or.inl ⟨houtside, hfound⟩⟩
    rcases hfound with ⟨-, hfound⟩ | ⟨o', ho', hid', -⟩
    · exact hfound
    · exact absurd (mem_idsOf.mpr ⟨o', ho', hid'⟩) houtside
  have hsame : ∀ found, CompletedIn s.execute.2.journal b.source ((placeOf loops).iteration ++ [o.index])
      found ↔ CompletedIn r.journal b.source ((placeOf loops).iteration ++ [o.index]) found := by
    intro found
    have hafter := h.step (.again hmore (Or.inl rfl))
    have hpast : Snapshot.Past o.node.id (placeOf loops).iteration o.index
        ⟨.looping, [] ++ o.advance (o.gathered loops o.elements[o.index] frame .finished) :: loops,
          r.log (.passed (some o.node.id) (placeOf (o :: loops)).iteration .finished)⟩ :=
      .later [] rfl rfl (Nat.lt_succ_self o.index)
    have hplace : (s.plan.scope b.source)[(placeOf loops).iteration.length]? = some o.node.id := by
      rw [← hid, hp.scope_id hm, hscope, idsOf_cons, length_iteration_placeOf, ← length_idsOf]
      simp
    rw [hafter.completedIn_iff_of_past hp hpast hplace found]
    show CompletedIn ([_] ++ r.journal) _ _ _ ↔ _
    exact completedIn_append_iff (by simp [Entry.visit?])
  rw [liveValue_iff, HandsBack]
  exact exists_congr fun found => and_congr_left' ((hlookup found).trans (hsame found).symm)

/-- What an iteration hands back to a loop whose body an edge closes. -/
theorem GoesThrough.values_iff (hp : s.plan.Lawful) {o : OpenLoop} {rounds : List Round}
    (h : s.GoesThrough loops o r rounds c) {b : Binding} (hback : o.node.backBinding = some b)
    {m : PlannedNode} (hm : m ∈ s.plan.nodes) (hid : m.id = b.source)
    (hlast : m.scope.getLast? = some o.node.id) {k : Nat} {round : Round}
    (hround : rounds[k]? = some round) :
    round.values = round.values.head?.toList ∧ ∀ value, round.values.head? = some value ↔
      round.exit = .finished ∧ HandsBack s.execute.2.journal b
        ((placeOf loops).iteration ++ [o.index + k]) value := by
  obtain ⟨hk, collected, frame, r', hleft, hvalues, -⟩ := h.iteration_at hround
  rw [OpenLoop.gathered, hback] at hvalues
  by_cases hexit : round.exit = .finished
  · rw [hexit] at hleft hvalues
    have hiff := hleft.liveValue_iff_handsBack hp hm hid hlast
    rw [hvalues]
    refine ⟨?_, fun value => ?_⟩
    · simp [RunSettings.collect]
    · rw [← hiff value]
      simp [RunSettings.collect, hexit, placeOf]
  · have hnone : round.values = [] := by
      rw [hvalues]
      cases hcase : round.exit with
      | finished => exact absurd hcase hexit
      | _ => rfl
    simp [hnone, hexit]

/-- A loop without such an edge lists the elements that it has entered, but the one at which the run
ends. -/
theorem GoesThrough.keeps_elements {o : OpenLoop} {rounds : List Round}
    (h : s.GoesThrough loops o r rounds c) (hback : o.node.backBinding = none)
    (hphase : ∀ frame failure, c.phase ≠ .leaving frame (.failed failure)) :
    ((∀ id, (rounds.map (·.exit)).getLast? ≠ some (.ended id)) →
      rounds.flatMap (·.values) = (o.elements.drop o.index).take rounds.length) ∧
    ∀ id, (rounds.map (·.exit)).getLast? = some (.ended id) →
      rounds.flatMap (·.values) = (o.elements.drop o.index).take (rounds.length - 1) := by
  induction h with
  | exhausted | cancelled => simp
  | @again o r frame exit r' rounds c hmore _ hexit _ ih =>
      obtain ⟨hall, hbut⟩ := ih hback hphase
      have hkept : o.gathered loops o.elements[o.index] frame exit = [o.elements[o.index]] := by
        rw [OpenLoop.gathered, hback]
        rcases hexit with rfl | rfl <;> rfl
      have hlast : ∀ id, ((exit :: rounds.map (·.exit)).getLast? = some (.ended id) ↔
          (rounds.map (·.exit)).getLast? = some (.ended id)) := by
        intro id
        rw [List.getLast?_cons]
        cases (rounds.map (·.exit)).getLast? with
        | none => rcases hexit with rfl | rfl <;> simp
        | some exit' => simp
      simp only [OpenLoop.advance] at hall hbut
      rw [List.drop_eq_getElem_cons hmore]
      simp only [List.map_cons, ne_eq, hlast, List.flatMap_cons, hkept, List.length_cons,
        Nat.add_sub_cancel]
      refine ⟨fun hnot => ?_, fun id hended => ?_⟩
      · rw [hall hnot, List.take_succ_cons, List.singleton_append]
      · have hlength : rounds.length = rounds.length - 1 + 1 := by
          cases rounds with
          | nil => exact absurd hended (by simp)
          | cons round rounds => rfl
        rw [hbut id hended, hlength, List.take_succ_cons, List.singleton_append, Nat.add_sub_cancel]
  | @closed o _ _ _ _ hmore _ _ hexit =>
      have hfirst : (o.elements.drop o.index).take 1 = [o.elements[o.index]] := by
        rw [List.drop_eq_getElem_cons hmore]
        rfl
      rcases hexit with ⟨rfl, -⟩ | ⟨id, rfl, -⟩
      · simp [OpenLoop.gathered, hback, RunSettings.collect, hfirst]
      · simp [OpenLoop.gathered, hback, RunSettings.collect]
  | abandoned => exact absurd rfl (hphase _ _)

/-! ### The visit that completes -/

/-- A loop that is about to complete has answered with a collection. -/
theorem Reachable.exists_answer_of_settling (hp : s.plan.Lawful) {v : OpenVisit}
    {completion : Completion} (h : s.Reachable ⟨.settling v (.ok completion), loops, r⟩)
    {handles : LoopHandles} (hkind : v.node.kind.loopHandles? = some handles) :
    ∃ values elements, .answered v.node.id (placeOf loops).iteration (.ok (.outputs values)) ∈ r.journal ∧
      Dict.get? values handles.body = some (.array elements) := by
  have hopened : ∀ {o : OpenLoop} {journal : List Entry}, s.plan.Opened journal loops o →
      o.toOpenVisit = v → ∃ values elements,
        .answered v.node.id (placeOf loops).iteration (.ok (.outputs values)) ∈ journal ∧
          Dict.get? values handles.body = some (.array elements) := by
    rintro o journal hopened rfl
    obtain ⟨values, hcollection, hanswer⟩ := hopened.exists_answer
    obtain rfl : handles = o.handles := Option.some.inj (hkind.symm.trans hopened.kind_eq)
    exact ⟨values, o.elements, (hanswer _).mpr rfl, hcollection⟩
  generalize hc : Snapshot.mk (.settling v (.ok completion)) loops r = c at h
  cases h with
  | begin => exact absurd (congrArg Snapshot.phase hc) (by simp [RunSettings.begin])
  | step h hstep =>
      have hstanding := standing_of_reachable hp h
      cases hstep with
      | judge hnone =>
          obtain ⟨hphase, -, -⟩ := Snapshot.mk.inj hc
          obtain ⟨rfl, -⟩ := Phase.settling.inj hphase
          exact absurd (hkind.symm.trans hnone) (by simp)
      | exhaust =>
          cases hc
          obtain - | - | - | - | ⟨hopen, -, -⟩ := hstanding
          exact hopened hopen rfl
      | close =>
          cases hc
          obtain - | - | - | ⟨-, -, hstacked⟩ := hstanding
          obtain ⟨values, elements, hanswer, hcollection⟩ := hopened hstacked.1 rfl
          exact ⟨values, elements, List.mem_cons_of_mem _ hanswer, hcollection⟩
      | settle => exact absurd (congrArg Snapshot.phase hc).symm (Phase.next_ne_settling _ _ _ _ _)
      | _ => exact absurd (congrArg Snapshot.phase hc) (by simp)

/-- A loop that has completed has answered with a collection. -/
theorem exists_collection (hp : s.plan.Lawful) {n : PlannedNode} (hn : n ∈ s.plan.nodes)
    {handles : LoopHandles} (hkind : n.kind.loopHandles? = some handles) {it : List Nat}
    {found : Completed} (hfound : CompletedIn s.execute.2.journal n.id it found) :
    ∃ values elements, .answered n.id it (.ok (.outputs values)) ∈ s.execute.2.journal ∧
      Dict.get? values handles.body = some (.array elements) := by
  obtain ⟨signal, duration, -, hmem⟩ := hfound.visited_mem
  obtain ⟨later, rest, c, hjournal, hc, hwrites⟩ := (reachable_execute hp).written_of_mem hp hmem
  generalize hvisit : Visit.mk n.id it .completed signal duration = v at hwrites
  cases hwrites with
  | @completed v completion loops r =>
      obtain ⟨hid, rfl, -⟩ := Visit.mk.inj hvisit
      obtain - | - | ⟨hvisiting, -⟩ := standing_of_reachable hp hc
      obtain rfl := hp.eq_of_id_eq hn hvisiting.node_mem hid
      obtain ⟨values, elements, hanswer, hcollection⟩ := hc.exists_answer_of_settling hp hkind
      exact ⟨values, elements, (hc.suffix_execute hp).subset hanswer, hcollection⟩
  | _ => exact absurd (congrArg Visit.status hvisit) (by simp)

/-- A loop whose visit is told to be completed has come to the end of it, and completed with what it
collected. -/
theorem Launched.completes (hp : s.plan.Lawful) {n : PlannedNode} {it : List Nat} {values : Outputs}
    {o : OpenLoop} (h : s.Launched n it values o loops r) {rounds : List Round}
    (hgoes : s.GoesThrough loops o r rounds c) (hc : s.Reachable c) {found : Completed}
    (hfound : CompletedIn s.execute.2.journal n.id it found) :
    ∃ exit, c.phase = .settling o.toOpenVisit
        (.ok ((o.collect (rounds.flatMap (·.values))).completion exit)) ∧
      found = ⟨((o.collect (rounds.flatMap (·.values))).completion exit).outputs, none⟩ := by
  obtain ⟨signal, duration, -, hmem⟩ := hfound.visited_mem
  obtain ⟨hloops, hends⟩ := hgoes.ends
  obtain ⟨phase, loops', r'⟩ := c
  obtain rfl : loops' = loops := hloops
  obtain rfl := h.node_eq
  obtain rfl := h.iteration_eq
  rcases hends with ⟨exit, rfl⟩ | hcancelled | ⟨failure, -, round, hround, hexit⟩
  · obtain ⟨later, hlater⟩ := (hc.step .settle).suffix_execute hp
    let outputs := ((o.collect (rounds.flatMap (·.values))).completion exit).outputs
    have hsettled := s.journal_complete (placeOf loops') o.node outputs none o.started o.frame r'
    have hjournal := hlater.symm.trans (congrArg (later ++ ·) hsettled)
    exact ⟨exit, rfl, ((reachable_execute hp).completedIn_iff hp hjournal).mp hfound⟩
  · obtain rfl : phase = _ := hcancelled
    have hfailed := (hc.step .settle).suffix_execute hp
    have hjournal := s.journal_fail (placeOf loops') o.node .cancelled o.started r'
    have hmem' := hfailed.subset (hjournal.symm ▸ List.mem_cons_self)
    have heq := (reachable_execute hp).visit_eq_of_iteration_eq hp (mem_visitsIn.mpr hmem)
      (mem_visitsIn.mpr hmem') rfl rfl
    exact absurd (congrArg Visit.status heq) (by simp)
  · obtain ⟨k, hk⟩ := List.getElem?_of_mem hround
    obtain ⟨_, collected, frame, r'', hleft, -, -⟩ := hgoes.iteration_at hk
    rw [hexit] at hleft
    obtain ⟨added, hadded, hsilent⟩ := hleft.fails_out hp
    obtain - | - | - | ⟨-, -, hopened, -⟩ := standing_of_reachable hp hleft
    rw [hadded] at hmem
    rcases List.mem_append.mp hmem with hmem | hmem
    · exact absurd (hsilent _ hmem).1 (by simp [Entry.located?])
    · exact absurd rfl (hopened.visiting.unvisited _ hmem rfl).ne

/-- What a loop has collected when it is through with its elements. -/
theorem Launched.collects (hp : s.plan.Lawful) {n : PlannedNode} {it : List Nat} {values : Outputs}
    {o : OpenLoop} (h : s.Launched n it values o loops r) {rounds : List Round}
    (hgoes : s.GoesThrough loops o r rounds c)
    (hphase : ∀ frame failure, c.phase ≠ .leaving frame (.failed failure))
    (hsource : ∀ b ∈ n.bindings, ∃ m ∈ s.plan.nodes, m.id = b.source ∧
      (b.backEdge = true → m.scope.getLast? = some n.id)) :
    s.Collects n it o.elements (rounds.map (·.exit)) (rounds.flatMap (·.values)) := by
  obtain rfl := h.node_eq
  obtain rfl := h.iteration_eq
  refine ⟨fun hback => ?_, fun b hback => ?_⟩
  · have hkept := hgoes.keeps_elements hback hphase
    rw [h.index_eq, List.drop_zero] at hkept
    rw [List.length_map]
    exact hkept
  · obtain ⟨m, hm, hid, hlast⟩ := hsource b (List.mem_of_find?_eq_some hback)
    have hvalues : ∀ {k : Nat} {round : Round}, rounds[k]? = some round →
        round.values = round.values.head?.toList ∧ ∀ value, round.values.head? = some value ↔
          round.exit = .finished ∧ HandsBack s.execute.2.journal b
            ((placeOf loops).iteration ++ [k]) value := by
      intro k round hround
      have hiff := hgoes.values_iff hp hback hm hid (hlast (List.find?_some hback)) hround
      rwa [h.index_eq, Nat.zero_add] at hiff
    refine ⟨rounds.map (·.values.head?), by simp, ?_, fun k value => ?_⟩
    · have hround : ∀ round ∈ rounds, round.values = round.values.head?.toList := by
        intro round hmem
        obtain ⟨k, hk⟩ := List.getElem?_of_mem hmem
        exact (hvalues hk).1
      show _ = (rounds.map (·.values.head?)).filterMap id
      rw [List.filterMap_map, List.filterMap_eq_flatMap_toList]
      exact List.flatMap_congr hround
    · simp only [List.getElem?_map, Option.map_eq_some_iff]
      constructor
      · rintro ⟨round, hround, hvalue⟩
        obtain ⟨hexit, hback⟩ := ((hvalues hround).2 value).mp hvalue
        exact ⟨⟨round, hround, hexit⟩, hback⟩
      · rintro ⟨⟨round, hround, hexit⟩, hback⟩
        exact ⟨round, hround, ((hvalues hround).2 value).mpr ⟨hexit, hback⟩⟩

end RunSettings

namespace Registry

/-- What a loop collects. A visit of a loop that has completed has got a collection, gone through its
elements, and put what it collected in place of the elements: from each iteration whose pass was finished
the value that the source of its back edge completed with in it, or, without a back edge, the elements
that it has entered, but the one at which the run ended. -/
theorem loop_collects {r : Registry} {flow : Flow} {start : Option String} {s : RunSettings}
    (h : r.resolve flow start = .ok s.plan) {n : PlannedNode} (hn : n ∈ s.plan.nodes)
    {handles : LoopHandles} (hkind : n.kind.loopHandles? = some handles)
    (hports : handles.body ≠ handles.done) {it : List Nat} {found : Completed}
    (hfound : CompletedIn s.execute.2.journal n.id it found) :
    ∃ values elements exits collected,
      .answered n.id it (.ok (.outputs values)) ∈ s.execute.2.journal ∧
      Dict.get? values handles.body = some (.array elements) ∧
      s.Iterates n it elements.length exits ∧ s.Collects n it elements exits collected ∧
      found = ⟨Dict.insert (Dict.erase values handles.body) handles.done (.array collected), none⟩ ∧
      Dict.get? found.outputs handles.done = some (.array collected) ∧
      Dict.get? found.outputs handles.body = none := by
  have hp := r.lawful_of_resolve_eq_ok h
  obtain ⟨values, elements, hanswer, hcollection⟩ := RunSettings.exists_collection hp hn hkind hfound
  obtain ⟨o, loops, r', hlaunched, rfl, rfl⟩ :=
    (RunSettings.reachable_execute hp).exists_launched hp hn hkind hanswer hcollection
  obtain ⟨rounds, c, hgoes, hc⟩ := hlaunched.looping.goesThrough hp
  obtain ⟨exit, hphase, rfl⟩ := hlaunched.completes hp hgoes hc hfound
  have houtputs : ((o.collect (rounds.flatMap (·.values))).completion exit).outputs =
      Dict.insert (Dict.erase values o.handles.body) o.handles.done
        (.array (rounds.flatMap (·.values))) := by
    simp [OpenLoop.completion, OpenLoop.collect, hlaunched.outputs_eq, hlaunched.collected_eq]
  refine ⟨values, o.elements, rounds.map (·.exit), rounds.flatMap (·.values), hanswer, hcollection,
    hlaunched.iterates hp hgoes hc fun v cause => by simp [hphase],
    hlaunched.collects hp hgoes (fun frame failure => by simp [hphase])
      fun b hb => exists_source_of_binding h hn hb, by rw [houtputs], ?_, ?_⟩
  · rw [houtputs, Dict.get?_insert_self]
  · rw [houtputs, Dict.get?_insert_of_ne _ _ hports, Dict.get?_erase_self]

/-- A loop that picks from its elements, and one that the run ends in. -/
def picked : Flow where
  nodes := [⟨"s", "start", .null⟩,
    ⟨"list", "json", .object [("value", .array [.bool true, .bool false, .bool true])]⟩,
    ⟨"pick", "forEach", .null⟩, ⟨"check", "if", .object [("condition", .string "value")]⟩,
    ⟨"all", "forEach", .null⟩, ⟨"stop", "end", .null⟩]
  edges := [⟨"e1", "s", none, "list", none⟩, ⟨"e2", "list", none, "pick", some "items"⟩,
    ⟨"e3", "pick", some "item", "check", none⟩, ⟨"e4", "check", some "true", "pick", some "next"⟩,
    ⟨"e5", "pick", some "done", "all", some "items"⟩, ⟨"e6", "all", some "item", "stop", none⟩]

/-- In its second iteration the first loop is handed nothing back, and the second one has collected
nothing. -/
theorem loop_collects_of_picked : ∃ p, Standard.registry.resolve picked none = .ok p ∧
    let s : RunSettings := { plan := p }
    (∃ n ∈ p.nodes, n.id = "pick" ∧ n.backBinding = some ⟨"next", "check", "true", "e4", true⟩ ∧
      ∃ elements exits, s.Iterates n [] elements.length exits ∧
        s.Collects n [] elements exits [.bool true, .bool true]) ∧
    ∃ n ∈ p.nodes, n.id = "all" ∧ n.backBinding = none ∧
      ∃ elements exits, s.Iterates n [] elements.length exits ∧ s.Collects n [] elements exits [] := by
  have hrun : ((Standard.registry.resolve picked none).toOption.map fun p => decide
      (let journal := (RunSettings.execute { plan := p }).2.journal
      (∃ n ∈ p.nodes, n.id = "pick" ∧ n.kind.loopHandles? = some Standard.forEachHandles ∧
        n.backBinding = some ⟨"next", "check", "true", "e4", true⟩ ∧
        [.visited ⟨n.id, [], .completed, none, 0⟩,
          .sent (.nodeCompleted n.id [("done", .array [.bool true, .bool true])] 0)] <:+: journal) ∧
        ∃ n ∈ p.nodes, n.id = "all" ∧ n.kind.loopHandles? = some Standard.forEachHandles ∧
          n.backBinding = none ∧
          [.visited ⟨n.id, [], .completed, none, 0⟩,
            .sent (.nodeCompleted n.id [("done", .array [])] 0)] <:+: journal)) = some true := by
    decide +kernel
  obtain ⟨p, hp, hrun⟩ := Option.map_eq_some_iff.mp hrun
  have hok := eq_ok_of_toOption_eq_some hp
  obtain ⟨⟨n, hn, hid, hkind, hback, hpicked⟩, m, hm, hmid, hmkind, hnone, hended⟩ :=
    of_decide_eq_true hrun
  refine ⟨p, hok, ⟨n, hn, hid, hback, ?_⟩, m, hm, hmid, hnone, ?_⟩
  · have hfound : CompletedIn (RunSettings.execute { plan := p }).2.journal n.id []
        ⟨[("done", .array [.bool true, .bool true])], none⟩ := ⟨none, 0, rfl, hpicked⟩
    obtain ⟨values, elements, exits, collected, -, -, hiterates, hcollects, -, hdone, -⟩ :=
      loop_collects (s := { plan := p }) hok hn hkind (by decide) hfound
    obtain rfl := Value.array.inj (Option.some.inj hdone)
    exact ⟨elements, exits, hiterates, hcollects⟩
  · have hfound : CompletedIn (RunSettings.execute { plan := p }).2.journal m.id []
        ⟨[("done", .array [])], none⟩ := ⟨none, 0, rfl, hended⟩
    obtain ⟨values, elements, exits, collected, -, -, hiterates, hcollects, -, hdone, -⟩ :=
      loop_collects (s := { plan := p }) hok hm hmkind (by decide) hfound
    obtain rfl := Value.array.inj (Option.some.inj hdone)
    exact ⟨elements, exits, hiterates, hcollects⟩

end Registry

end FlowGraph
