import FlowGraph.Proofs.Run.Agreement
import FlowGraph.Proofs.Run.Visits

/-!
The iterations in which visits are recorded. Loops announce each iteration that they enter; at any time
the indices of the open loops are those that they announced last, so every visit carries, loop by loop of
its node's scope, the index announced last before it. The iterations of one node's visits grow in
lexicographic order, and none of them begins another one.
-/

namespace FlowGraph

open Plan

/-- The loop that an entry tells of, and the index of the iteration that it enters. -/
def Entry.entered? : Entry → Option (String × Nat)
  | sent (.loopIteration id index _) => some (id, index)
  | _ => none

/-- The index of the iteration that a loop has entered last. -/
def latestIndex (journal : List Entry) (loopId : String) : Option Nat :=
  Dict.get? (journal.filterMap Entry.entered?) loopId

theorem latestIndex_append {added journal : List Entry} (h : ∀ e ∈ added, e.entered? = none)
    (loopId : String) : latestIndex (added ++ journal) loopId = latestIndex journal loopId := by
  rw [latestIndex, List.filterMap_append, List.filterMap_eq_nil_iff.mpr h]
  rfl

theorem latestIndex_enter (journal : List Entry) (id : String) (index total : Nat) (loopId : String) :
    latestIndex (.sent (.loopIteration id index total) :: journal) loopId =
      if id = loopId then some index else latestIndex journal loopId := by
  show Dict.get? ((id, index) :: _) loopId = _
  rw [Dict.get?_cons]
  rfl

/-- What the iteration of a visit says, told upon what was written before the visit. -/
structure Plan.Stamped (p : Plan) (journal : List Entry) (v : Visit) : Prop where
  length_le : v.iteration.length ≤ (p.scope v.nodeId).length
  /-- Only what is skipped may be recorded at the depth of a loop around it. -/
  length_eq : v.status ≠ .skipped → v.iteration.length = (p.scope v.nodeId).length
  index_eq : ∀ (k index : Nat), v.iteration[k]? = some index →
    ∃ loopId, (p.scope v.nodeId)[k]? = some loopId ∧ latestIndex journal loopId = some index

/-- Whether a visit is recorded inside of these loops. -/
structure Plan.RecordedIn (p : Plan) (loops : List OpenLoop) (v : Visit) : Prop where
  iteration_eq : v.iteration = (placeOf loops).iteration
  scope_prefix : idsOf loops <+: p.scope v.nodeId
  scope_eq : v.status ≠ .skipped → p.scope v.nodeId = idsOf loops

theorem Plan.RecordedIn.stamped {p : Plan} {loops : List OpenLoop} {v : Visit}
    (h : p.RecordedIn loops v) {journal : List Entry}
    (hlatest : ∀ o ∈ loops, latestIndex journal o.node.id = some o.index) : p.Stamped journal v := by
  have hlength : v.iteration.length = (idsOf loops).length := by
    rw [h.iteration_eq, length_iteration_placeOf, length_idsOf]
  refine ⟨hlength ▸ h.scope_prefix.length_le, fun hexecuted => ?_, fun k index hk => ?_⟩
  · rw [h.scope_eq hexecuted, hlength]
  · -- Both lists run through the open loops, from the outermost one on.
    have hreverse : v.iteration = loops.reverse.map (·.index) := by
      rw [h.iteration_eq, List.map_reverse]
      rfl
    rw [hreverse, List.getElem?_map, Option.map_eq_some_iff] at hk
    obtain ⟨o, ho, rfl⟩ := hk
    have hid : (idsOf loops)[k]? = some o.node.id := by
      rw [idsOf, ← List.map_reverse, List.getElem?_map, ho]
      rfl
    refine ⟨o.node.id, ?_, hlatest o (List.mem_reverse.mp (List.mem_of_getElem? ho))⟩
    obtain ⟨inner, hinner⟩ := h.scope_prefix
    rw [← hinner]
    exact List.getElem?_append_left (List.getElem?_eq_some_iff.mp hid).1 |>.trans hid

/-- The loops with an iteration under way. -/
def Snapshot.underWay (c : Snapshot) : List OpenLoop :=
  match c.phase with
  | .looping => c.loops.tail
  | _ => c.loops

theorem underWay_next (exit : Exit) (frame : Frame) (todo : List PlannedNode) (loops : List OpenLoop)
    (r : RunState) : Snapshot.underWay ⟨.next exit frame todo, loops, r⟩ = loops := by
  cases exit <;> rfl

theorem Calls.entered?_eq_none {place : Place} {frame : Frame} {n : PlannedNode}
    {added journal : List Entry} {result : Except NodeError NodeResult}
    (h : Calls place frame n journal result (added ++ journal)) : ∀ e ∈ added, e.entered? = none := by
  intro e he
  rcases h.eq_of_mem he with ⟨event, rfl⟩ | ⟨inputs, rfl⟩ | rfl <;> rfl

theorem entered?_of_mem_skips {it : List Nat} {ids : List String} {e : Entry} (h : e ∈ skips it ids) :
    e.entered? = none := by
  obtain ⟨id, -, rfl | rfl⟩ := mem_skips h <;> rfl

namespace RunSettings

variable {s : RunSettings} {c c' : Snapshot}

/-- What a step writes that enters no iteration. -/
structure Records (s : RunSettings) (c c' : Snapshot) (added : List Entry) : Prop where
  journal_eq : c'.run.journal = added ++ c.run.journal
  entered : ∀ e ∈ added, e.entered? = none
  visited : ∀ v, .visited v ∈ added → s.plan.RecordedIn c.underWay v
  underWay : c'.underWay ⊆ c.underWay

theorem Records.of_skips (hp : s.plan.Lawful) (hloops : c.underWay = c.loops)
    (hunder : c'.underWay = c.loops) {ids : List String}
    (hjournal : c'.run.journal = skips (placeOf c.loops).iteration ids ++ c.run.journal)
    {n : PlannedNode} (hn : n ∈ s.plan.nodes) (hscope : n.scope = idsOf c.loops)
    (hwithin : ∀ id ∈ ids, s.plan.Within n.id id) :
    s.Records c c' (skips (placeOf c.loops).iteration ids) := by
  refine ⟨hjournal, fun e he => entered?_of_mem_skips he, fun v hv => ?_, ?_⟩
  · obtain ⟨id, hid, heq | heq⟩ := mem_skips hv
    swap
    · exact absurd heq (by simp)
    obtain rfl := Entry.visited.inj heq
    refine ⟨hloops ▸ rfl, ?_, fun hstatus => absurd rfl hstatus⟩
    rw [hloops, ← hscope]
    exact hp.scope_prefix_of_within hn (hwithin id hid)
  · rw [hunder, hloops]
    exact List.Subset.refl _

theorem Records.of_visit {visit : Visit} {event : Event}
    (hjournal : c'.run.journal = .visited visit :: .sent event :: c.run.journal)
    (hevent : (Entry.sent event).entered? = none) (hrecorded : s.plan.RecordedIn c.underWay visit)
    (hunder : c'.underWay = c.underWay) : s.Records c c' [.visited visit, .sent event] := by
  refine ⟨hjournal, ?_, fun u hu => ?_, hunder ▸ List.Subset.refl _⟩
  · exact List.forall_mem_cons.mpr ⟨rfl, List.forall_mem_singleton.mpr hevent⟩
  · obtain rfl : u = visit := by simpa using hu
    exact hrecorded

/-- A call writes what the node sends, and no visits. -/
theorem exists_records_of_invoke {place : Place} {frame : Frame} {n : PlannedNode}
    (hrun : c'.run = (s.invoke place frame n (s.start n c.run)).2) (hunder : c'.underWay ⊆ c.underWay) :
    ∃ added, s.Records c c' added := by
  have hcalls := s.calls_invoke place frame n (s.start n c.run)
  rw [journal_start] at hcalls
  obtain ⟨added, hafter, hadded⟩ := hcalls.exists_added
  rw [hafter] at hcalls
  refine ⟨added ++ [.sent (.nodeStarted n.id n.typeName)], by simp [hrun, hafter], ?_, ?_, hunder⟩
  · intro e he
    rcases List.mem_append.mp he with he | he
    · exact hcalls.entered?_eq_none e he
    · obtain rfl := List.mem_singleton.mp he
      rfl
  · intro v hv
    rcases List.mem_append.mp hv with hv | hv
    · exact absurd (hadded _ hv).1 (by simp [Entry.visit?])
    · exact absurd (List.mem_singleton.mp hv) (by simp)

/-- A step either has a loop enter an iteration, or records visits at the place where it happens. -/
theorem Step.enters_or_records (hp : s.plan.Lawful) (hc : s.plan.Standing c) (hstep : s.Step c c') :
    (∃ o loops r, c = ⟨.looping, o :: loops, r⟩ ∧ c'.underWay = o :: loops ∧
      c'.run.journal = .sent (.loopIteration o.node.id o.index o.elements.length) :: r.journal) ∨
    ∃ added, s.Records c c' added := by
  have hnone : ∀ {c c' : Snapshot}, c'.run.journal = c.run.journal → c'.underWay ⊆ c.underWay →
      ∃ added, s.Records c c' added :=
    fun hjournal hunder => ⟨[], hjournal, by simp, by simp, hunder⟩
  have hpassed : ∀ {c c' : Snapshot} {region iteration exit},
      c'.run.journal = .passed region iteration exit :: c.run.journal → c'.underWay ⊆ c.underWay →
      ∃ added, s.Records c c' added :=
    fun hjournal hunder => ⟨[_], hjournal, by simp [Entry.entered?], by simp, hunder⟩
  cases hstep with
  | finish | judge | refuse | cancel | exhaust => exact Or.inr (hnone rfl (List.Subset.refl _))
  | @skip frame n todo loops r =>
      obtain ⟨hlevel, -, hstacked⟩ := hc
      have hscope := hstacked.scope_eq hp hlevel.node_mem (hlevel.getLast?_scope hp List.mem_cons_self)
      refine Or.inr ⟨_, Records.of_skips hp rfl rfl (s.journal_skip (placeOf loops) n r)
        hlevel.node_mem hscope fun id hid => ?_⟩
      rcases List.mem_cons.mp hid with rfl | hid
      · exact Or.inl rfl
      · exact Or.inr (hp.mem_skippedWith hid)
  | call => exact Or.inr (exists_records_of_invoke rfl (List.Subset.refl _))
  | @launch v result loops r handles elements outputs =>
      cases hc with
      | answered hvisiting _ _ hstacked =>
          have hnode := hvisiting.node_mem
          have hscope := hstacked.scope_eq hp hnode
            (hvisiting.level.getLast?_scope hp List.mem_cons_self)
          cases elements with
          | nil =>
              refine Or.inr ⟨_, Records.of_skips hp rfl rfl
                (s.journal_skipAll (placeOf loops) (s.bodyNodes v.node.id) r) hnode hscope ?_⟩
              exact fun id hid => Or.inr (hp.mem_bodyNodes.mp hid)
          | cons element elements => exact Or.inr (hnone rfl (List.Subset.refl _))
  | @enter o loops r =>
      exact Or.inl ⟨o, loops, r, rfl, rfl, s.journal_send _ r⟩
  | again | close | abandon => exact Or.inr (hpassed rfl (List.subset_cons_self _ _))
  | @settle v outcome loops r =>
      cases hc with
      | settling hvisiting hstacked =>
          have hscope := hstacked.scope_eq hp hvisiting.node_mem
            (hvisiting.level.getLast?_scope hp List.mem_cons_self)
          have hrecorded : ∀ visit : Visit, visit.nodeId = v.node.id →
              visit.iteration = (placeOf loops).iteration → s.plan.RecordedIn loops visit := by
            intro visit hid hit
            rw [← hp.scope_id hvisiting.node_mem, ← hid] at hscope
            exact ⟨hit, hscope ▸ List.prefix_rfl, fun _ => hscope⟩
          have hunder := underWay_next (s.settle (placeOf loops) v.node v.started v.frame outcome r).exit
            (s.settle (placeOf loops) v.node v.started v.frame outcome r).frame v.todo loops
            (s.settle (placeOf loops) v.node v.started v.frame outcome r).run
          cases outcome with
          | error cause =>
              exact Or.inr ⟨_, Records.of_visit (s.journal_fail _ _ _ _ _) rfl (hrecorded _ rfl rfl)
                hunder⟩
          | ok completion =>
              exact Or.inr ⟨_, Records.of_visit (s.journal_complete _ _ _ _ _ v.frame _) rfl
                (hrecorded _ rfl rfl) hunder⟩
  | @conclude frame exit r =>
      cases exit <;> exact Or.inr ⟨[_, _], s.journal_send _ _, by simp [Entry.entered?], by simp,
        (List.Subset.refl _)⟩

/-- What holds in everything that a run comes to: the indices of open loops have been announced, and so
were those of all visits when they were recorded. -/
structure Indexed (s : RunSettings) (c : Snapshot) : Prop where
  latest : ∀ o ∈ c.underWay, latestIndex c.run.journal o.node.id = some o.index
  stamped : ∀ v rest, .visited v :: rest <:+ c.run.journal → s.plan.Stamped rest v

theorem Indexed.begin : s.Indexed s.begin := by
  refine ⟨fun o ho => absurd ho List.not_mem_nil, fun v rest h => ?_⟩
  rw [journal_begin] at h
  exact absurd (h.subset List.mem_cons_self) (by simp)

theorem Indexed.step (hp : s.plan.Lawful) (hc : s.plan.Standing c) (hstep : s.Step c c')
    (h : s.Indexed c) : s.Indexed c' := by
  rcases hstep.enters_or_records hp hc with ⟨o, loops, r, rfl, hunder, hjournal⟩ | ⟨added, hrec⟩
  · refine ⟨fun o' ho' => ?_, fun v rest hv => ?_⟩
    · rw [hjournal, latestIndex_enter]
      rw [hunder] at ho'
      rcases List.mem_cons.mp ho' with rfl | ho'
      · exact if_pos rfl
      · -- The loop that enters an iteration is none of those around it.
        cases hc with
        | looping hopened _ hstacked =>
            have hnot := hstacked.not_mem_idsOf hp hopened.visiting.level List.mem_cons_self
              (Or.inl rfl)
            rw [if_neg fun heq => hnot (mem_idsOf.mpr ⟨o', ho', heq.symm⟩)]
            exact h.latest o' ho'
    · rw [hjournal] at hv
      have hv := (List.suffix_cons_iff.mp hv).resolve_left (by simp)
      exact h.stamped v rest hv
  · refine ⟨fun o ho => ?_, fun v rest hv => ?_⟩
    · rw [hrec.journal_eq, latestIndex_append hrec.entered]
      exact h.latest o (hrec.underWay ho)
    · rw [hrec.journal_eq] at hv
      rcases suffix_append_cases hv with hv | ⟨before, after, rfl, rfl⟩
      · exact h.stamped v rest hv
      · refine (hrec.visited v (by simp)).stamped fun o ho => ?_
        rw [latestIndex_append fun e he => hrec.entered e (by simp [he])]
        exact h.latest o ho

theorem Reachable.indexed (hp : s.plan.Lawful) (hc : s.Reachable c) : s.Indexed c := by
  induction hc with
  | begin => exact Indexed.begin
  | step hc hstep ih => exact ih.step hp (standing_of_reachable hp hc) hstep

end RunSettings

/-- An iteration that is over before another one begins is the lesser one in lexicographic order. -/
theorem Precedes.lt {v w : List Nat} (h : Precedes v w) : v < w := by
  induction v generalizing w with
  | nil => exact h.elim
  | cons i v ih =>
      cases w with
      | nil => exact h.elim
      | cons j w =>
          rw [List.cons_lt_cons_iff]
          rcases h with h | ⟨rfl, h⟩
          · exact Or.inl h
          · exact Or.inr ⟨rfl, ih h⟩

namespace Registry

/-- The iterations of visits identify them. In every run of the plan of an accepted flow a visit that was
not skipped carries one index for each loop of its node's scope, a skipped one at most that many, and each
of them is the index of the iteration that the loop announced last before the visit; and the iterations of
one node's visits grow in lexicographic order, none of them being the beginning of another one. So of two
visits of a node the one is never made within the iteration of the other. -/
theorem iterations_identify_visits {r : Registry} {flow : Flow} {start : Option String}
    {s : RunSettings} (h : r.resolve flow start = .ok s.plan) :
    (∀ v rest, .visited v :: rest <:+ s.execute.2.journal → s.plan.Stamped rest v) ∧
    (s.execute.2.visits.Pairwise fun u v => u.nodeId = v.nodeId →
      u.iteration < v.iteration ∧ ¬ u.iteration <+: v.iteration ∧ ¬ v.iteration <+: u.iteration) ∧
    ∀ u ∈ s.execute.2.visits, ∀ v ∈ s.execute.2.visits, u.nodeId = v.nodeId →
      u.iteration <+: v.iteration → u = v := by
  have hp := lawful_of_resolve_eq_ok h
  have hc := RunSettings.reachable_execute hp
  refine ⟨(hc.indexed hp).stamped, ?_, ?_⟩
  · refine (hc.pairwise_visits hp).imp fun {u v} hprecedes hid => ?_
    exact ⟨(hprecedes hid).lt, (hprecedes hid).not_prefix_left, (hprecedes hid).not_prefix_right⟩
  · intro u hu v hv hid hprefix
    exact hc.visit_eq hp hu hv hid (fun h => h.not_prefix_left hprefix)
      fun h => h.not_prefix_right hprefix

/-- A loop inside another one that goes through two elements and then through none. -/
def unevenRows : Flow where
  nodes := [⟨"s", "start", .null⟩,
    ⟨"list", "json", .object [("value", .array [.array [.bool true, .bool true], .array []])]⟩,
    ⟨"outer", "forEach", .null⟩, ⟨"inner", "forEach", .null⟩, ⟨"show", "log", .null⟩]
  edges := [⟨"e1", "s", none, "list", none⟩, ⟨"e2", "list", none, "outer", some "items"⟩,
    ⟨"e3", "outer", some "item", "inner", some "items"⟩, ⟨"e4", "inner", some "item", "show", none⟩]

/-- What is inside of the inner loop is executed in two iterations, and then skipped in one of the outer
loop. -/
theorem iterations_of_unevenRows : ∃ p, Standard.registry.resolve unevenRows none = .ok p ∧
    let visits := (RunSettings.execute { plan := p }).2.visits
    (visits.filter (·.nodeId = "show")).map (fun v => (v.status, v.iteration)) =
      [(.completed, [0, 0]), (.completed, [0, 1]), (.skipped, [1])] ∧
    ∀ u ∈ visits, ∀ v ∈ visits, u.nodeId = v.nodeId → u.iteration <+: v.iteration → u = v := by
  have hrun : ((Standard.registry.resolve unevenRows none).toOption.map fun p =>
      ((RunSettings.execute { plan := p }).2.visits.filter (·.nodeId = "show")).map
        fun v => (v.status, v.iteration)) =
      some [(.completed, [0, 0]), (.completed, [0, 1]), (.skipped, [1])] := by decide +kernel
  obtain ⟨p, hp, hvisits⟩ := Option.map_eq_some_iff.mp hrun
  have hok := eq_ok_of_toOption_eq_some hp
  exact ⟨p, hok, hvisits, (iterations_identify_visits (s := { plan := p }) hok).2.2⟩

end Registry

end FlowGraph
