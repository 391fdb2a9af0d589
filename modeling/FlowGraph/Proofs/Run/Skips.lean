import FlowGraph.Proofs.Run.Visits

/-!
Loops that are not gone through. With a loop that is skipped, and with one whose collection is empty,
all that lies inside of it is skipped in the iteration of the loop, whatever the depth; nothing of it
is called or visited again within that iteration.
-/

namespace FlowGraph

open Plan

namespace RunSettings

variable {s : RunSettings} {c c' : Snapshot}

/-- What a step writes: either nothing that it writes is a skip, or it skips a node with all inside, or
all that is inside of a loop. -/
theorem Step.exists_added (hc : s.plan.Standing c) (hstep : s.Step c c') :
    ∃ added, c'.run.journal = added ++ c.run.journal ∧
      ((∀ e ∈ added, ∀ v, e.visit? = some v → v.status ≠ .skipped) ∨
        ∃ n ∈ s.plan.nodes, ∃ it, added = skips it (n.id :: s.skippedWith n) ∨
          added = skips it (s.bodyNodes n.id)) := by
  cases hstep with
  | finish | judge | refuse | cancel | exhaust =>
      exact ⟨[], rfl, Or.inl fun e he => absurd he List.not_mem_nil⟩
  | @skip frame n todo loops r =>
      obtain ⟨hlevel, -, -⟩ := hc
      exact ⟨_, s.journal_skip (placeOf loops) n r,
        Or.inr ⟨n, hlevel.node_mem, _, Or.inl rfl⟩⟩
  | @call frame n todo loops r =>
      have hcalls := s.calls_invoke (placeOf loops) frame n (s.start n r)
      rw [journal_start] at hcalls
      obtain ⟨added, hafter, hadded⟩ := hcalls.exists_added
      refine ⟨added ++ [.sent (.nodeStarted n.id n.typeName)], by simp [hafter], Or.inl ?_⟩
      intro e he v hv
      rcases List.mem_append.mp he with he | he
      · rw [(hadded e he).1] at hv
        exact absurd hv (by simp)
      · obtain rfl := List.mem_singleton.mp he
        exact absurd hv (by simp [Entry.visit?])
  | @launch v result loops r handles elements outputs =>
      cases elements with
      | nil =>
          cases hc with
          | answered hvisiting =>
              exact ⟨_, s.journal_skipAll (placeOf loops) (s.bodyNodes v.node.id) r,
                Or.inr ⟨v.node, hvisiting.node_mem, _, Or.inr rfl⟩⟩
      | cons element elements => exact ⟨[], rfl, Or.inl fun e he => absurd he List.not_mem_nil⟩
  | enter => exact ⟨[_], s.journal_send _ _, Or.inl (by simp [Entry.visit?])⟩
  | again | close | abandon => exact ⟨[_], rfl, Or.inl (by simp [Entry.visit?])⟩
  | @settle v outcome loops r =>
      cases outcome with
      | error cause =>
          exact ⟨[_, _], s.journal_fail _ _ _ _ _, Or.inl (by simp [Entry.visit?])⟩
      | ok completion =>
          exact ⟨[_, _], s.journal_complete _ _ _ _ _ v.frame _, Or.inl (by simp [Entry.visit?])⟩
  | @conclude frame exit r =>
      cases exit <;> exact ⟨[_, _], s.journal_send _ _, Or.inl (by simp [Entry.visit?])⟩

theorem Step.journal_suffix (hc : s.plan.Standing c) (hstep : s.Step c c') :
    c.run.journal <:+ c'.run.journal := by
  obtain ⟨added, hadded, -⟩ := hstep.exists_added hc
  rw [hadded]
  exact List.suffix_append _ _

/-- With a node all that is inside of it is skipped. -/
theorem Reachable.skipped_inside (hp : s.plan.Lawful) (hc : s.Reachable c) {v : Visit}
    (hv : .visited v ∈ c.run.journal) (hskipped : v.status = .skipped) {id : String}
    (hid : v.nodeId ∈ s.plan.scope id) :
    .visited ⟨id, v.iteration, .skipped, none, 0⟩ ∈ c.run.journal := by
  induction hc with
  | begin =>
      rw [journal_begin] at hv
      exact absurd hv (by simp)
  | @step c c' hc hstep ih =>
      obtain ⟨added, hjournal, hadded⟩ := hstep.exists_added (standing_of_reachable hp hc)
      rw [hjournal] at hv ⊢
      rcases List.mem_append.mp hv with hv | hv
      swap
      · exact List.mem_append_right _ (ih hv)
      refine List.mem_append_left _ ?_
      rcases hadded with hnone | ⟨n, hn, it, rfl | rfl⟩
      · exact absurd hskipped (hnone _ hv v rfl)
      · obtain ⟨hmem, hit⟩ := located?_of_mem_skips hv rfl
        have hinside : n.id ∈ s.plan.scope id := by
          rcases List.mem_cons.mp hmem with heq | hmem
          · exact heq ▸ hid
          · exact hp.mem_scope_of_mem_scope (hp.mem_skippedWith hmem) hid
        have hwith : id ∈ s.skippedWith n := by
          obtain ⟨handles, hkind⟩ := hp.exists_handles_of_mem_scope hn hinside
          rw [skippedWith, hkind]
          exact hp.mem_bodyNodes.mpr hinside
        rw [hit]
        exact visited_mem_skips (List.mem_cons_of_mem _ hwith)
      · obtain ⟨hmem, hit⟩ := located?_of_mem_skips hv rfl
        rw [hit]
        exact visited_mem_skips (hp.mem_bodyNodes.mpr
          (hp.mem_scope_of_mem_scope (hp.mem_bodyNodes.mp hmem) hid))

/-- With a loop that has got an empty collection all that is inside of it is skipped, as soon as its
answer has been dealt with. -/
theorem Reachable.skipped_for (hp : s.plan.Lawful) (hc : s.Reachable c) {n : PlannedNode}
    (hn : n ∈ s.plan.nodes) {handles : LoopHandles} (hkind : n.kind.loopHandles? = some handles)
    {it : List Nat} {values : Outputs}
    (hanswered : .answered n.id it (.ok (.outputs values)) ∈ c.run.journal)
    (hempty : Dict.get? values handles.body = some (.array [])) :
    (∀ id, n.id ∈ s.plan.scope id → .visited ⟨id, it, .skipped, none, 0⟩ ∈ c.run.journal) ∨
      ∃ v, c.phase = .answered v (.ok (.outputs values)) ∧ v.node = n ∧
        it = (placeOf c.loops).iteration := by
  induction hc with
  | begin =>
      rw [journal_begin] at hanswered
      exact absurd hanswered (by simp)
  | @step c c' hc hstep ih =>
      have hstanding := standing_of_reachable hp hc
      obtain ⟨later, earlier, hsplit⟩ := List.append_of_mem hanswered
      rcases hstep.written hp hstanding ⟨later, hsplit.symm⟩ with hold | hwrites
      · rcases ih (hold.subset List.mem_cons_self) with hskipped | ⟨v, hphase, rfl, rfl⟩
        · exact Or.inl fun id hid => (hstep.journal_suffix hstanding).subset (hskipped id hid)
        obtain ⟨phase, loops, r⟩ := c
        obtain rfl := hphase
        refine Or.inl fun id hid => ?_
        have hcollection : (Except.ok (NodeResult.outputs values)).bind (splitCollection handles) =
            .ok ([], Dict.erase values handles.body) := by
          simp only [Except.bind, splitCollection, hempty]
        cases hstep with
        | judge hnone => exact absurd (hkind.symm.trans hnone) (by simp)
        | refuse hkind' hrefused =>
            obtain rfl := Option.some.inj (hkind.symm.trans hkind')
            exact absurd (hcollection.symm.trans hrefused) (by simp)
        | launch hkind' hlaunched =>
            obtain rfl := Option.some.inj (hkind.symm.trans hkind')
            obtain ⟨rfl, rfl⟩ := Prod.mk.inj (Except.ok.inj (hcollection.symm.trans hlaunched))
            simp only [List.isEmpty_nil, if_true, journal_skipAll]
            exact List.mem_append_left _ (visited_mem_skips (hp.mem_bodyNodes.mpr hid))
      · right
        generalize hid : n.id = id at hwrites hanswered
        cases hwrites with
        | @answered frame m todo loops r _ _ hactive =>
            obtain ⟨hlevel, huntouched, -⟩ := hstanding
            obtain rfl := hp.eq_of_id_eq hn hlevel.node_mem hid
            cases hstep with
            | skip hinactive => exact absurd (hactive.symm.trans hinactive) (by simp)
            | call _ =>
                have hcalls := s.calls_invoke (placeOf loops) frame n (s.start n r)
                rcases hcalls.eq_of_answered_mem hanswered with hmem | ⟨-, -, heq⟩
                · rw [journal_start] at hmem
                  have hmem := (List.mem_cons.mp hmem).resolve_left (by simp)
                  have hprecedes := huntouched n List.mem_cons_self _ hmem _ _ rfl (Or.inl rfl)
                  exact absurd rfl hprecedes.ne
                · exact ⟨⟨n, r.clock, frame, todo⟩, congrArg _ heq.symm, rfl, rfl⟩

/-- What was skipped in an iteration is not visited again within it, and never called. -/
theorem Reachable.only_skipped (hp : s.plan.Lawful) (hc : s.Reachable c) {id : String} {it : List Nat}
    (h : .visited ⟨id, it, .skipped, none, 0⟩ ∈ c.run.journal) :
    (visitsIn c.run.journal).filter (fun v => v.nodeId = id ∧ it <+: v.iteration) =
        [⟨id, it, .skipped, none, 0⟩] ∧
      ∀ it' inputs, .called id it' inputs ∈ c.run.journal → ¬ it <+: it' := by
  have hmem := mem_visitsIn.mpr h
  refine ⟨hc.filter_visits_eq hp hmem (by simp) fun u hu hwithin => ?_, fun it' inputs hcalled => ?_⟩
  · obtain ⟨hid, hit⟩ := of_decide_eq_true hwithin
    refine hc.visit_eq hp hu hmem hid (fun hbefore => ?_) fun hafter => ?_
    · exact hbefore.not_prefix_right hit
    · exact hafter.not_prefix_left hit
  · -- Of the call and the skip one comes first, and then the other one is about a later iteration.
    obtain ⟨later, earlier, hjournal⟩ := List.append_of_mem hcalled
    have hsuffix : .called id it' inputs :: earlier <:+ c.run.journal := ⟨later, hjournal.symm⟩
    rw [hjournal] at h
    rcases List.mem_append.mp h with h | h
    · obtain ⟨last, between, rfl⟩ := List.append_of_mem h
      have hskipped : .visited ⟨id, it, .skipped, none, 0⟩ ::
          (between ++ .called id it' inputs :: earlier) <:+ c.run.journal :=
        ⟨last, by rw [hjournal]; simp⟩
      have hprecedes := hc.precedes_of_skipped hp hskipped rfl (.called id it' inputs)
        (by simp) id it' rfl rfl
      exact hprecedes.not_prefix_right
    · have h := (List.mem_cons.mp h).resolve_left (by simp)
      exact (hc.precedes_of_called hp hsuffix _ h id it rfl rfl).not_prefix_left

end RunSettings

end FlowGraph
