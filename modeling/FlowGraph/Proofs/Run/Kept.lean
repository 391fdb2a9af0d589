import FlowGraph.Proofs.Run.Standing

/-!
Every step of a run keeps the journal in accord with what is being done.
-/

namespace FlowGraph

open Plan RunSettings

theorem RunSettings.splitCollection_eq_ok {handles : LoopHandles}
    {result : Except NodeError NodeResult} {elements : List Value} {outputs : Outputs}
    (h : result.bind (splitCollection handles) = .ok (elements, outputs)) :
    ∃ values, result = .ok (.outputs values) ∧
      Dict.get? values handles.body = some (.array elements) ∧
      outputs = Dict.erase values handles.body := by
  cases result with
  | error cause => exact absurd h (by simp [Except.bind])
  | ok value =>
      cases value with
      | outputs values =>
          simp only [Except.bind, splitCollection] at h
          split at h
          next found heq =>
            obtain ⟨rfl, rfl⟩ := Prod.mk.inj (Except.ok.inj h)
            exact ⟨values, rfl, heq, rfl⟩
          · exact absurd h (by simp)
      | _ => exact absurd h (by simp [Except.bind, splitCollection])

namespace Plan

variable {s : RunSettings}

theorem Lawful.mem_bodyNodes (hp : s.plan.Lawful) {loopId id : String} :
    id ∈ s.bodyNodes loopId ↔ loopId ∈ s.plan.scope id := by
  rw [bodyNodes, List.mem_map]
  constructor
  · rintro ⟨n, hn, rfl⟩
    obtain ⟨hn, hbody⟩ := List.mem_filter.mp hn
    rw [hp.scope_id hn]
    exact (hp.mem_body n hn loopId).mp (by simpa using hbody)
  · intro hmem
    obtain ⟨n, hn, rfl, hscope⟩ := hp.exists_of_mem_scope hmem
    have hbody := (hp.mem_body n hn loopId).mpr hscope
    exact ⟨n, List.mem_filter.mpr ⟨hn, by simpa using hbody⟩, rfl⟩

theorem Lawful.nodup_bodyNodes (hp : s.plan.Lawful) (loopId : String) :
    (s.bodyNodes loopId).Nodup :=
  hp.nodup.sublist (List.filter_sublist.map _)

theorem Lawful.mem_skippedWith (hp : s.plan.Lawful) {n : PlannedNode} {id : String}
    (hmem : id ∈ s.skippedWith n) : n.id ∈ s.plan.scope id := by
  unfold skippedWith at hmem
  split at hmem
  · exact absurd hmem List.not_mem_nil
  · exact hp.mem_bodyNodes.mp hmem

/-- What is skipped together is skipped once. -/
theorem Lawful.nodup_skipped (hp : s.plan.Lawful) (n : PlannedNode) :
    (n.id :: s.skippedWith n).Nodup := by
  refine List.nodup_cons.mpr ⟨fun hmem => hp.not_mem_scope n.id (hp.mem_skippedWith hmem), ?_⟩
  unfold skippedWith
  cases n.kind.loopHandles? with
  | none => exact List.nodup_nil
  | some _ => exact hp.nodup_bodyNodes n.id

namespace Standing

theorem begin (hp : s.plan.Lawful) : s.plan.Standing s.begin := by
  have hjournal : (s.send (.runStarted s.plan.start) s.initial).journal =
      [.sent (.runStarted s.plan.start)] := s.journal_send _ _
  refine .passing ⟨?_, ?_, ?_⟩ ?_ trivial
  · intro n hn
    exact (hp.mem_regionNodes.mp hn).1
  · rw [hjournal]
    exact hp.map_id_regionNodes none
  · intro id c
    rw [hjournal, Dict.get?_nil]
    refine ⟨fun h => absurd h (by simp), ?_⟩
    rintro (⟨-, hc⟩ | ⟨o, ho, -⟩)
    · obtain ⟨_, _, -, hmem⟩ := hc.visited_mem
      exact absurd hmem (by simp)
    · exact absurd ho (by simp)
  · intro n _ e he id it hlocated
    rw [hjournal] at he
    obtain rfl := List.mem_singleton.mp he
    exact absurd hlocated (by simp [Entry.located?])

variable {frame : Frame} {n : PlannedNode} {todo : List PlannedNode} {loops : List OpenLoop}
  {r : RunState}

theorem skip (hp : s.plan.Lawful) (hlevel : s.plan.Level r.journal loops frame (n :: todo))
    (huntouched : s.plan.Untouched r.journal loops (n :: todo))
    (hstacked : s.plan.Stacked r.journal loops) :
    s.plan.Standing ⟨.passing frame todo, loops, s.skip (placeOf loops) n r⟩ := by
  have hwithin : ∀ id ∈ n.id :: s.skippedWith n, s.plan.Within n.id id := by
    intro id hid
    rcases List.mem_cons.mp hid with rfl | hid
    · exact Or.inl rfl
    · exact Or.inr (hp.mem_skippedWith hid)
  refine .passing ?_ ?_ ?_
  · rw [journal_skip, skips, List.append_assoc]
    have hsent : s.plan.Level ([.sent (.nodeSkipped n.id)] ++ r.journal) loops frame (n :: todo) :=
      hlevel.append (by simp [Entry.visit?])
    refine Level.append (hsent.visited (v := ⟨n.id, _, .skipped, none, 0⟩) rfl rfl (by simp)) ?_
    intro e he v hv _
    have hid := (located?_of_mem_skips he (Entry.located?_of_visit? hv)).1
    rw [← hlevel.getLast?_scope hp List.mem_cons_self]
    exact hp.not_mem_region_of_mem_scope hlevel.node_mem
      (hp.mem_skippedWith hid)
  · rw [journal_skip]
    refine Untouched.append (fun m hm => huntouched m (List.mem_cons_of_mem _ hm)) hlevel hp ?_
    intro e he id it hlocated
    exact hwithin id (located?_of_mem_skips he hlocated).1
  · rw [journal_skip]
    refine hstacked.append hp fun e he id it hlocated => ?_
    obtain ⟨hid, rfl⟩ := located?_of_mem_skips he hlocated
    exact ⟨fun o ho => hstacked.mem_scope hp hlevel List.mem_cons_self (hwithin id hid) ho,
      List.prefix_rfl⟩

theorem call (hp : s.plan.Lawful) (hlevel : s.plan.Level r.journal loops frame (n :: todo))
    (huntouched : s.plan.Untouched r.journal loops (n :: todo))
    (hstacked : s.plan.Stacked r.journal loops)
    (hactive : n.isActive (frame :: (placeOf loops).enclosing) = true) :
    s.plan.Standing ⟨.answered ⟨n, r.clock, frame, todo⟩
      (s.invoke (placeOf loops) frame n (s.start n r)).1, loops,
      (s.invoke (placeOf loops) frame n (s.start n r)).2⟩ := by
  have hown := huntouched n List.mem_cons_self
  have hcalls := s.calls_invoke (placeOf loops) frame n (s.start n r)
  rw [journal_start] at hcalls
  obtain ⟨added, hafter, hadded⟩ := hcalls.exists_added
  have hafter' : (s.invoke (placeOf loops) frame n (s.start n r)).2.journal =
      (added ++ [.sent (.nodeStarted n.id n.typeName)]) ++ r.journal := by
    rw [hafter, List.append_assoc]
    rfl
  have hlocated : ∀ e ∈ added ++ [.sent (.nodeStarted n.id n.typeName)], e.visit? = none ∧
      ∀ id it, e.located? = some (id, it) → id = n.id ∧ it = (placeOf loops).iteration := by
    intro e he
    rcases List.mem_append.mp he with he | he
    · exact hadded e he
    · obtain rfl := List.mem_singleton.mp he
      exact ⟨rfl, fun _ _ h => absurd h (by simp [Entry.located?])⟩
  have hvisiting : s.plan.Visiting r.journal loops ⟨n, r.clock, frame, todo⟩ :=
    ⟨hlevel, fun m hm => huntouched m (List.mem_cons_of_mem _ hm),
      fun visit hvisit hid => hown.visited hvisit (Or.inl hid), hactive⟩
  refine .answered ?_ ?_ ?_ ?_
  · rw [hafter']
    exact hvisiting.append hp fun e he id it h => Or.inr ⟨((hlocated e he).2 id it h).1, (hlocated e he).1⟩
  · rw [hafter']
    refine (hown.mono fun id hid => Or.inr hid).extend fun e he id it h hid => ?_
    obtain ⟨rfl, -⟩ := (hlocated e he).2 id it h
    exact absurd hid (hp.not_mem_scope n.id)
  · intro value hvalue answer
    rw [hvalue] at hcalls ⊢
    refine ⟨fun hmem => ?_, fun heq => heq ▸ hcalls.answered_mem⟩
    rcases hcalls.eq_of_answered_mem hmem with hmem | ⟨-, -, heq⟩
    · have hmem := (List.mem_cons.mp hmem).resolve_left (by simp)
      exact absurd rfl (hown _ hmem _ _ rfl (Or.inl rfl)).ne
    · exact heq
  · rw [hafter']
    refine hstacked.append hp fun e he id it h => ?_
    obtain ⟨rfl, rfl⟩ := (hlocated e he).2 id it h
    exact ⟨fun o ho => hstacked.mem_scope hp hlevel List.mem_cons_self (Or.inl rfl) ho,
      List.prefix_rfl⟩

theorem launch (hp : s.plan.Lawful) {v : OpenVisit} {result : Except NodeError NodeResult}
    (hvisiting : s.plan.Visiting r.journal loops v)
    (hbody : AllPrecede r.journal (v.node.id ∈ s.plan.scope ·) (placeOf loops).iteration)
    (hanswer : ∀ value, result = .ok value → ∀ answer,
      .answered v.node.id (placeOf loops).iteration answer ∈ r.journal ↔ answer = result)
    (hstacked : s.plan.Stacked r.journal loops) {handles : LoopHandles} {elements : List Value}
    {outputs : Outputs} (hkind : v.node.kind.loopHandles? = some handles)
    (hsplit : result.bind (splitCollection handles) = .ok (elements, outputs)) :
    s.plan.Standing ⟨.looping, { v with handles, elements, outputs } :: loops,
      if elements.isEmpty then s.skipAll (placeOf loops) (s.bodyNodes v.node.id) r else r⟩ := by
  obtain ⟨values, rfl, hvalues, -⟩ := splitCollection_eq_ok hsplit
  have hopened : s.plan.Opened r.journal loops { v with handles, elements, outputs } :=
    ⟨hvisiting, hkind, values, hvalues, hanswer _ rfl⟩
  cases elements with
  | nil =>
      have hjournal := s.journal_skipAll (placeOf loops) (s.bodyNodes v.node.id) r
      refine .looping ?_ (fun hne => absurd rfl hne) ?_
      · simp only [List.isEmpty_nil, if_true, hjournal]
        refine hopened.append hp fun e he id it hlocated => ?_
        exact hp.mem_bodyNodes.mp (located?_of_mem_skips he hlocated).1
      · simp only [List.isEmpty_nil, if_true, hjournal]
        refine hstacked.append hp fun e he id it hlocated => ?_
        obtain ⟨hid, rfl⟩ := located?_of_mem_skips he hlocated
        exact ⟨fun o ho => hstacked.mem_scope hp hvisiting.level List.mem_cons_self
          (Or.inr (hp.mem_bodyNodes.mp hid)) ho, List.prefix_rfl⟩
  | cons element elements =>
      exact .looping hopened (fun _ => hbody.append [0]) hstacked

/-- An iteration begins with all members of the body due and nothing found but the element. -/
theorem level_enter (hp : s.plan.Lawful) {journal : List Entry} {o : OpenLoop}
    (hbefore : AllPrecede journal (o.node.id ∈ s.plan.scope ·) (placeOf (o :: loops)).iteration)
    (hmore : o.index < o.elements.length) :
    s.plan.Level journal (o :: loops) [(o.node.id, o.entry o.elements[o.index])]
      (s.plan.regionNodes (some o.node.id)) := by
  refine ⟨fun n hn => (hp.mem_regionNodes.mp hn).1, ?_, fun id c => ?_⟩
  · -- Nothing in the body has been visited in this iteration.
    have hnone : s.plan.turns journal (some o.node.id) (placeOf (o :: loops)).iteration = [] := by
      rw [turns, List.map_eq_nil_iff, List.filter_eq_nil_iff]
      intro v hv
      simp only [decide_eq_true_eq]
      rintro ⟨hit, hmem⟩
      exact (hbefore.visited (mem_visitsIn.mp hv) (hp.mem_scope_of_mem_region hmem)).ne hit
    show s.plan.turns journal (some o.node.id) _ ++ _ = s.plan.region (some o.node.id)
    rw [hnone]
    exact hp.map_id_regionNodes (some o.node.id)
  · rw [Dict.get?_cons, Dict.get?_nil]
    constructor
    · intro hfound
      split at hfound
      next heq => exact Or.inr ⟨o, rfl, heq.symm, _, List.getElem?_eq_getElem hmore,
        (Option.some.inj hfound).symm⟩
      · exact absurd hfound (by simp)
    · rintro (⟨hmem, hc⟩ | ⟨o', ho', rfl, element, helement, rfl⟩)
      · exact absurd hc (hbefore.not_completedIn (hp.mem_scope_of_mem_region hmem) c)
      · obtain rfl := Option.some.inj ho'
        rw [List.getElem?_eq_getElem hmore] at helement
        rw [if_pos rfl, Option.some.inj helement]

theorem enter (hp : s.plan.Lawful) {o : OpenLoop} (hopened : s.plan.Opened r.journal loops o)
    (hbody : o.elements ≠ [] → AllPrecede r.journal (o.node.id ∈ s.plan.scope ·)
      ((placeOf loops).iteration ++ [o.index]))
    (hstacked : s.plan.Stacked r.journal loops) (hmore : o.index < o.elements.length) :
    s.plan.Standing ⟨.passing [(o.node.id, o.entry o.elements[o.index])]
      (s.plan.regionNodes (some o.node.id)), o :: loops,
      s.send (.loopIteration o.node.id o.index o.elements.length) r⟩ := by
  have hjournal := s.journal_send (.loopIteration o.node.id o.index o.elements.length) r
  have hsent : ∀ e ∈ ([.sent (.loopIteration o.node.id o.index o.elements.length)] : List Entry),
      ∀ id it, e.located? ≠ some (id, it) := by simp [Entry.located?]
  have hbefore : AllPrecede ([.sent (.loopIteration o.node.id o.index o.elements.length)] ++ r.journal)
      (o.node.id ∈ s.plan.scope ·) (placeOf (o :: loops)).iteration := by
    rw [placeOf_cons]
    exact (hbody (List.ne_nil_of_length_pos (by omega))).extend fun e he id it hlocated =>
      absurd hlocated (hsent e he id it)
  refine .passing ?_ ?_ ⟨?_, hmore, ?_, ?_⟩ <;> rw [hjournal]
  · exact level_enter hp hbefore hmore
  · intro n hn
    refine hbefore.mono fun id hid => ?_
    obtain ⟨hn, hlast⟩ := hp.mem_regionNodes.mp hn
    exact (hp.scope_prefix_of_within hn hid).subset (List.mem_of_getLast? hlast)
  · exact hopened.append hp fun e he id it hlocated => absurd hlocated (hsent e he id it)
  · intro e he id it hlocated hid
    have hprecedes := hbefore e he id it hlocated hid
    rw [placeOf_cons] at hprecedes
    exact hprecedes.succ
  · exact hstacked.append hp fun e he id it hlocated => absurd hlocated (hsent e he id it)

/-- A visit that ends touches neither the members that come after it nor the loops around it. -/
theorem visited (hp : s.plan.Lawful) {v : OpenVisit} (hvisiting : s.plan.Visiting r.journal loops v)
    (hstacked : s.plan.Stacked r.journal loops) (visit : Visit) (event : Event)
    (hid : visit.nodeId = v.node.id) (hit : visit.iteration = (placeOf loops).iteration) :
    s.plan.Untouched (.visited visit :: .sent event :: r.journal) loops v.todo ∧
      s.plan.Stacked (.visited visit :: .sent event :: r.journal) loops := by
  have hlevel := hvisiting.level
  have hlocated : ∀ e ∈ ([.visited visit, .sent event] : List Entry), ∀ id it,
      e.located? = some (id, it) → id = v.node.id ∧ it = (placeOf loops).iteration := by
    intro e he id it hlocated
    rcases List.mem_cons.mp he with rfl | he
    · obtain ⟨rfl, rfl⟩ := Prod.mk.inj (Option.some.inj hlocated)
      exact ⟨hid, hit⟩
    · obtain rfl := List.mem_singleton.mp he
      exact absurd hlocated (by simp [Entry.located?])
  constructor
  · exact hvisiting.untouched.append hlevel hp fun e he id it h => Or.inl (hlocated e he id it h).1
  · show s.plan.Stacked ([.visited visit, .sent event] ++ r.journal) loops
    refine hstacked.append hp fun e he id it h => ?_
    obtain ⟨rfl, rfl⟩ := hlocated e he id it h
    exact ⟨fun o ho => hstacked.mem_scope hp hlevel List.mem_cons_self (Or.inl rfl) ho,
      List.prefix_rfl⟩

theorem settle (hp : s.plan.Lawful) {v : OpenVisit} {outcome : Except NodeError Completion}
    (hvisiting : s.plan.Visiting r.journal loops v) (hstacked : s.plan.Stacked r.journal loops) :
    s.plan.Standing
      ⟨.next (s.settle (placeOf loops) v.node v.started v.frame outcome r).exit
        (s.settle (placeOf loops) v.node v.started v.frame outcome r).frame v.todo, loops,
        (s.settle (placeOf loops) v.node v.started v.frame outcome r).run⟩ := by
  have hlevel := hvisiting.level
  cases outcome with
  | error cause =>
      have hjournal := s.journal_fail (placeOf loops) v.node cause v.started r
      have hsent : s.plan.Level ([.sent (.nodeFailed v.node.id cause.message)] ++ r.journal) loops
          v.frame (v.node :: v.todo) := hlevel.append (by simp [Entry.visit?])
      have hfailed := hsent.visited (v := ⟨v.node.id, (placeOf loops).iteration, .failed, none,
        r.clock - v.started⟩) rfl rfl (by simp)
      have hrest := (visited hp hvisiting hstacked ⟨v.node.id, (placeOf loops).iteration, .failed, none,
        r.clock - v.started⟩ (.nodeFailed v.node.id cause.message) rfl rfl).2
      rw [← hjournal] at hrest
      have hexit : Exit.failed ⟨v.node.id, cause⟩ ≠ .finished := by simp
      exact .leaving (hjournal.symm ▸ hfailed) (fun h => absurd h hexit) hrest
  | ok completion =>
      have hjournal := s.journal_complete (placeOf loops) v.node completion.outputs
        completion.signal v.started v.frame r
      have hnew : ∀ c, ¬ CompletedIn r.journal v.node.id (placeOf loops).iteration c := by
        intro c hc
        obtain ⟨_, _, -, hmem⟩ := hc.visited_mem
        exact (hvisiting.unvisited _ hmem rfl).ne rfl
      have hcompleted := hlevel.completed hp hnew completion.outputs completion.signal
        (r.clock - v.started)
      have hrest := visited hp hvisiting hstacked ⟨v.node.id, (placeOf loops).iteration, .completed,
        completion.signal, r.clock - v.started⟩
        (.nodeCompleted v.node.id completion.outputs (r.clock - v.started)) rfl rfl
      rw [← hjournal] at hcompleted hrest
      obtain ⟨outputs, signal, exit⟩ := completion
      by_cases hexit : exit = .finished
      · subst hexit
        exact .passing hcompleted hrest.1 hrest.2
      · have hphase : ∀ frame todo, Phase.next exit frame todo = .leaving frame exit := by
          intro frame todo
          cases exit with
          | finished => exact absurd rfl hexit
          | _ => rfl
        show s.plan.Standing ⟨.next exit _ _, _, _⟩
        rw [hphase]
        exact .leaving hcompleted (fun h => absurd h hexit) hrest.2

/-- What the end of a pass leaves of the loop that it belongs to. -/
theorem leave (hp : s.plan.Lawful) {o : OpenLoop} (hstacked : s.plan.Stacked r.journal (o :: loops))
    (region : Option String) (iteration : List Nat) (exit : Exit) :
    s.plan.Opened (r.log (.passed region iteration exit)).journal loops o ∧
      AllPrecede (r.log (.passed region iteration exit)).journal (o.node.id ∈ s.plan.scope ·)
        ((placeOf loops).iteration ++ [o.index + 1]) ∧
      s.plan.Stacked (r.log (.passed region iteration exit)).journal loops := by
  have hpassed : ∀ e ∈ ([.passed region iteration exit] : List Entry), ∀ id it,
      e.located? ≠ some (id, it) := by simp [Entry.located?]
  obtain ⟨hopened, -, hbody, hstacked⟩ := hstacked
  exact ⟨hopened.append hp fun e he id it hlocated => absurd hlocated (hpassed e he id it),
    hbody.extend fun e he id it hlocated => absurd hlocated (hpassed e he id it),
    hstacked.append hp fun e he id it hlocated => absurd hlocated (hpassed e he id it)⟩

/-- Every step of a run keeps the journal in accord with what is being done. -/
theorem step (hp : s.plan.Lawful) {c c' : Snapshot} (hstep : s.Step c c')
    (h : s.plan.Standing c) : s.plan.Standing c' := by
  cases hstep with
  | finish =>
      obtain ⟨hlevel, -, hstacked⟩ := h
      exact .leaving hlevel (fun _ => rfl) hstacked
  | skip =>
      obtain ⟨hlevel, huntouched, hstacked⟩ := h
      exact skip hp hlevel huntouched hstacked
  | call hactive =>
      obtain ⟨hlevel, huntouched, hstacked⟩ := h
      exact call hp hlevel huntouched hstacked hactive
  | judge | refuse =>
      cases h with
      | answered hvisiting _ _ hstacked => exact .settling hvisiting hstacked
  | launch hkind hsplit =>
      cases h with
      | answered hvisiting hbody hanswer hstacked =>
          exact launch hp hvisiting hbody hanswer hstacked hkind hsplit
  | cancel | exhaust =>
      cases h with
      | looping hopened _ hstacked => exact .settling hopened.visiting hstacked
  | enter hmore =>
      cases h with
      | looping hopened hbody hstacked => exact enter hp hopened hbody hstacked hmore
  | again =>
      cases h with
      | leaving _ _ hstacked =>
          obtain ⟨hopened, hbody, hstacked⟩ := leave hp hstacked _ _ _
          exact .looping ⟨hopened.visiting, hopened.kind_eq, hopened.exists_answer⟩ (fun _ => hbody)
            hstacked
  | close =>
      cases h with
      | leaving _ _ hstacked =>
          obtain ⟨hopened, -, hstacked⟩ := leave hp hstacked _ _ _
          exact .settling hopened.visiting hstacked
  | @abandon frame failure o loops r =>
      cases h with
      | leaving _ _ hstacked =>
          obtain ⟨hopened, -, hstacked⟩ := leave hp hstacked _ _ _
          have hexit : Exit.failed failure ≠ .finished := by simp
          exact .leaving hopened.visiting.level (fun h => absurd h hexit) hstacked
  | settle =>
      cases h with
      | settling hvisiting hstacked => exact settle hp hvisiting hstacked
  | conclude => exact .ended

end Standing

/-- In everything that a run comes to, the journal is in accord with what is being done. -/
theorem standing_of_reachable (hp : s.plan.Lawful) {c : Snapshot} (h : s.Reachable c) :
    s.plan.Standing c := by
  induction h with
  | begin => exact Standing.begin hp
  | step _ hstep ih => exact ih.step hp hstep

end Plan

end FlowGraph
