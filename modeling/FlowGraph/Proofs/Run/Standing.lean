import FlowGraph.Proofs.Plan.Lawful
import FlowGraph.Proofs.Run.Iteration

/-!
What the journal of a run has to do with what is being done. In every pass under way the members that
have been visited and those that are still due make up the region; the frame of the pass holds what the
journal tells of its members, and the element of the loop; and nothing that is still to be visited has
been at work in this iteration or in one inside or around it.
-/

namespace FlowGraph

namespace Plan

variable (p : Plan)

/-- Whether an id is that of a node or of one inside of it. -/
def Within (nodeId id : String) : Prop :=
  id = nodeId ∨ nodeId ∈ p.scope id

/-- The direct members of a region that were visited in an iteration, in the order of their visits. -/
def turns (journal : List Entry) (region : Option String) (iteration : List Nat) : List String :=
  ((visitsIn journal).filter fun v => v.iteration = iteration ∧ v.nodeId ∈ p.region region).map
    (·.nodeId)

/-- A pass under way: what its frame holds, and the members whose visits have not ended. -/
structure Level (journal : List Entry) (loops : List OpenLoop) (frame : Frame)
    (due : List PlannedNode) : Prop where
  planned : ∀ n ∈ due, n ∈ p.nodes
  turns_eq : p.turns journal (placeOf loops).region (placeOf loops).iteration ++ due.map (·.id) =
    p.region (placeOf loops).region
  /-- The frame holds the members that completed, and the element of the loop. -/
  found_iff : ∀ id c, Dict.get? frame id = some c ↔
    id ∈ p.region (placeOf loops).region ∧ CompletedIn journal id (placeOf loops).iteration c ∨
      ∃ o ∈ loops.head?, id = o.node.id ∧ ∃ element, o.elements[o.index]? = some element ∧
        c = o.entry element

/-- The members that come later have not been touched. -/
def Untouched (journal : List Entry) (loops : List OpenLoop) (todo : List PlannedNode) : Prop :=
  ∀ n ∈ todo, AllPrecede journal (p.Within n.id) (placeOf loops).iteration

/-- A visit under way. -/
structure Visiting (journal : List Entry) (loops : List OpenLoop) (v : OpenVisit) : Prop where
  level : p.Level journal loops v.frame (v.node :: v.todo)
  untouched : p.Untouched journal loops v.todo
  unvisited : ∀ visit, .visited visit ∈ journal → visit.nodeId = v.node.id →
    Precedes visit.iteration (placeOf loops).iteration
  active : v.node.isActive (v.frame :: (placeOf loops).enclosing) = true

/-- A loop that has got its collection. -/
structure Opened (journal : List Entry) (loops : List OpenLoop) (o : OpenLoop) : Prop where
  visiting : p.Visiting journal loops o.toOpenVisit
  kind_eq : o.node.kind.loopHandles? = some o.handles
  /-- The elements are those of its only answer. -/
  exists_answer : ∃ values, Dict.get? values o.handles.body = some (.array o.elements) ∧
    ∀ result, .answered o.node.id (placeOf loops).iteration result ∈ journal ↔
      result = .ok (.outputs values)

/-- Loops with an iteration under way, the innermost one first. -/
def Stacked (journal : List Entry) : List OpenLoop → Prop
  | [] => True
  | o :: loops =>
    p.Opened journal loops o ∧ o.index < o.elements.length ∧
      AllPrecede journal (o.node.id ∈ p.scope ·) ((placeOf loops).iteration ++ [o.index + 1]) ∧
      Stacked journal loops

/-- The snapshots whose journal fits what is being done. -/
inductive Standing : Snapshot → Prop
  | passing {frame todo loops r} (hlevel : p.Level r.journal loops frame todo)
      (huntouched : p.Untouched r.journal loops todo) (hstacked : p.Stacked r.journal loops) :
      Standing ⟨.passing frame todo, loops, r⟩
  | answered {v result loops r} (hvisiting : p.Visiting r.journal loops v)
      (hbody : AllPrecede r.journal (v.node.id ∈ p.scope ·) (placeOf loops).iteration)
      (hanswer : ∀ value, result = .ok value → ∀ answer,
        .answered v.node.id (placeOf loops).iteration answer ∈ r.journal ↔ answer = result)
      (hstacked : p.Stacked r.journal loops) : Standing ⟨.answered v result, loops, r⟩
  | settling {v outcome loops r} (hvisiting : p.Visiting r.journal loops v)
      (hstacked : p.Stacked r.journal loops) : Standing ⟨.settling v outcome, loops, r⟩
  | leaving {frame exit due loops r} (hlevel : p.Level r.journal loops frame due)
      (hdue : exit = .finished → due = []) (hstacked : p.Stacked r.journal loops) :
      Standing ⟨.leaving frame exit, loops, r⟩
  | looping {o loops r} (hopened : p.Opened r.journal loops o)
      (hbody : o.elements ≠ [] →
        AllPrecede r.journal (o.node.id ∈ p.scope ·) ((placeOf loops).iteration ++ [o.index]))
      (hstacked : p.Stacked r.journal loops) : Standing ⟨.looping, o :: loops, r⟩
  | ended {loops r} : Standing ⟨.ended, loops, r⟩

variable {p}

theorem Level.node_mem {journal : List Entry} {loops : List OpenLoop} {frame : Frame} {n : PlannedNode}
    {due : List PlannedNode} (h : p.Level journal loops frame (n :: due)) : n ∈ p.nodes :=
  h.planned n List.mem_cons_self

theorem Visiting.node_mem {journal : List Entry} {loops : List OpenLoop} {v : OpenVisit}
    (h : p.Visiting journal loops v) : v.node ∈ p.nodes :=
  h.level.node_mem

/-- Two direct members of a region have nothing in common. -/
theorem Lawful.not_within (h : p.Lawful) {m n : PlannedNode} (hm : m ∈ p.nodes) (hn : n ∈ p.nodes)
    (hscope : m.scope = n.scope) (hne : m ≠ n) {id : String} (hmid : p.Within m.id id) :
    ¬ p.Within n.id id := by
  have hnot : ∀ k ∈ p.nodes, ∀ k' ∈ p.nodes, k.scope = k'.scope → k.id ∉ k'.scope := by
    intro k hk k' _ heq
    exact heq ▸ h.not_mem_scope_self k hk
  rintro (rfl | hnid) <;> rcases hmid with heq | hmid
  · exact hne (h.eq_of_id_eq hm hn heq.symm)
  · rw [h.scope_id hn] at hmid
    exact hnot m hm n hn hscope hmid
  · subst heq
    rw [h.scope_id hm] at hnid
    exact hnot n hn m hm hscope.symm hnid
  · obtain ⟨k, hk, rfl, hmk⟩ := h.exists_of_mem_scope hmid
    rw [h.scope_id hk] at hnid
    exact hne (h.eq_of_mem_scope hm hn hk hscope hmk hnid)

/-- What is within a node lies inside of all loops around the node. -/
theorem Lawful.scope_prefix_of_within (h : p.Lawful) {n : PlannedNode} (hn : n ∈ p.nodes) {id : String}
    (hid : p.Within n.id id) : n.scope <+: p.scope id := by
  rcases hid with rfl | hid
  · exact h.scope_id hn ▸ List.prefix_rfl
  · obtain ⟨k, hk, rfl, hnk⟩ := h.exists_of_mem_scope hid
    rw [h.scope_id hk]
    exact h.mem_scope_trans hn hk hnk

theorem turns_append_of_avoids {journal added : List Entry} {region : Option String}
    {iteration : List Nat} (hadded : ∀ e ∈ added, ∀ v, e.visit? = some v → v.iteration = iteration →
      v.nodeId ∉ p.region region) :
    p.turns (added ++ journal) region iteration = p.turns journal region iteration := by
  have hnone : (visitsIn added).filter (fun v => v.iteration = iteration ∧
      v.nodeId ∈ p.region region) = [] := by
    rw [List.filter_eq_nil_iff]
    intro v hv
    have hmem := mem_visitsIn.mp hv
    simpa using hadded _ hmem v rfl
  rw [turns, visitsIn_append, List.filter_append, hnone, List.append_nil]
  rfl

theorem turns_visited {journal : List Entry} {region : Option String} {v : Visit}
    (hmem : v.nodeId ∈ p.region region) :
    p.turns (.visited v :: journal) region v.iteration =
      p.turns journal region v.iteration ++ [v.nodeId] := by
  have hvisits : visitsIn (.visited v :: journal) = visitsIn journal ++ [v] :=
    visitsIn_append [.visited v] journal
  rw [turns, hvisits, List.filter_append, List.map_append, List.filter_cons_of_pos (by simp [hmem])]
  rfl

namespace Level

variable {journal added : List Entry} {loops : List OpenLoop} {frame : Frame} {n : PlannedNode}
  {due : List PlannedNode}

theorem id_mem_region (h : p.Level journal loops frame due) (hn : n ∈ due) :
    n.id ∈ p.region (placeOf loops).region := by
  rw [← h.turns_eq]
  exact List.mem_append_right _ (List.mem_map_of_mem hn)

theorem getLast?_scope (h : p.Level journal loops frame due) (hp : p.Lawful) (hn : n ∈ due) :
    n.scope.getLast? = (placeOf loops).region := by
  obtain ⟨m, hm, hid, hlast⟩ := (hp.mem_region _ _).mp (h.id_mem_region hn)
  rw [← hp.eq_of_id_eq hm (h.planned n hn) hid]
  exact hlast

theorem scope_eq (h : p.Level journal loops frame due) (hp : p.Lawful) {m : PlannedNode}
    (hm : m ∈ due) (hn : n ∈ due) : m.scope = n.scope :=
  hp.scope_eq_of_getLast?_eq (h.planned m hm) (h.planned n hn)
    ((h.getLast?_scope hp hm).trans (h.getLast?_scope hp hn).symm)

/-- A member is due once. -/
theorem ne_of_mem (h : p.Level journal loops frame (n :: due)) (hp : p.Lawful) {m : PlannedNode}
    (hm : m ∈ due) : n ≠ m := by
  have hnodup := hp.region_nodup (placeOf loops).region
  rw [← h.turns_eq] at hnodup
  have hnot := (List.nodup_cons.mp (List.nodup_append.mp hnodup).2.1).1
  rintro rfl
  exact hnot (List.mem_map_of_mem hm)

theorem not_within (h : p.Level journal loops frame (n :: due)) (hp : p.Lawful) {m : PlannedNode}
    (hm : m ∈ due) {id : String} (hid : p.Within n.id id) : ¬ p.Within m.id id :=
  hp.not_within h.node_mem (h.planned m (List.mem_cons_of_mem _ hm))
    (h.scope_eq hp List.mem_cons_self (List.mem_cons_of_mem _ hm)) (h.ne_of_mem hp hm) hid

/-- A pass takes no notice of visits elsewhere. -/
theorem append (h : p.Level journal loops frame due) (hadded : ∀ e ∈ added, ∀ v,
      e.visit? = some v → v.iteration = (placeOf loops).iteration →
      v.nodeId ∉ p.region (placeOf loops).region) :
    p.Level (added ++ journal) loops frame due := by
  refine ⟨h.planned, ?_, fun id c => ?_⟩
  · rw [turns_append_of_avoids hadded]
    exact h.turns_eq
  · rw [h.found_iff]
    refine or_congr_left (and_congr_right fun hid => (completedIn_append_iff ?_).symm)
    rintro e he v hv ⟨rfl, hit⟩
    exact hadded e he v hv hit hid

theorem visited (h : p.Level journal loops frame (n :: due)) {v : Visit} (hid : v.nodeId = n.id)
    (hit : v.iteration = (placeOf loops).iteration) (hstatus : v.status ≠ .completed) :
    p.Level (.visited v :: journal) loops frame due := by
  have hmem := h.id_mem_region (n := n) List.mem_cons_self
  refine ⟨fun m hm => h.planned m (List.mem_cons_of_mem _ hm), ?_, fun id c => ?_⟩
  · rw [← hit, turns_visited (hid.symm ▸ hmem), hit, hid, List.append_assoc]
    exact h.turns_eq
  · rw [h.found_iff]
    refine or_congr_left (and_congr_right fun _ => ⟨fun hc => hc.cons _, fun hc => ?_⟩)
    obtain ⟨signal, duration, hbranch, hinfix⟩ := hc
    rcases List.infix_cons_iff.mp hinfix with hhead | htail
    · obtain ⟨rest, hrest⟩ := hhead
      obtain ⟨heq, -⟩ := List.cons.inj hrest
      obtain rfl := Entry.visited.inj heq
      exact absurd rfl hstatus
    · exact ⟨signal, duration, hbranch, htail⟩

theorem completed (h : p.Level journal loops frame (n :: due)) (hp : p.Lawful)
    (hnew : ∀ c, ¬ CompletedIn journal n.id (placeOf loops).iteration c) (outputs : Outputs)
    (signal : Option Signal) (duration : Nat) :
    p.Level (.visited ⟨n.id, (placeOf loops).iteration, .completed, signal, duration⟩ ::
      .sent (.nodeCompleted n.id outputs duration) :: journal) loops
      (Dict.insert frame n.id ⟨outputs, signal.bind Signal.branch?⟩) due := by
  have hmem := h.id_mem_region (n := n) List.mem_cons_self
  have hsent : p.Level ([.sent (.nodeCompleted n.id outputs duration)] ++ journal) loops frame
      (n :: due) := h.append (by simp [Entry.visit?])
  refine ⟨fun m hm => h.planned m (List.mem_cons_of_mem _ hm), ?_, fun id c => ?_⟩
  · rw [turns_visited (v := ⟨n.id, _, _, _, _⟩) hmem, List.append_assoc]
    exact hsent.turns_eq
  by_cases hid : id = n.id
  · subst hid
    have hloop : ∀ o ∈ loops.head?, n.id ≠ o.node.id := by
      intro o ho heq
      have hregion : (placeOf loops).region = some o.node.id := by
        simp only [placeOf, Option.mem_def.mp ho, Option.map_some]
      have hscope := hp.mem_scope_of_mem_region (hregion ▸ hmem)
      rw [← heq] at hscope
      exact hp.not_mem_scope n.id hscope
    rw [Dict.get?_insert_self, completedIn_completed_iff hnew, Option.some_inj]
    constructor
    · rintro rfl
      exact Or.inl ⟨hmem, rfl⟩
    · rintro (⟨-, rfl⟩ | ⟨o, ho, heq, -⟩)
      · rfl
      · exact absurd heq (hloop o ho)
  · rw [Dict.get?_insert_of_ne _ _ hid, h.found_iff]
    have hother : ∀ e ∈ ([.visited ⟨n.id, (placeOf loops).iteration, .completed, signal, duration⟩,
        .sent (.nodeCompleted n.id outputs duration)] : List Entry), ∀ v, e.visit? = some v →
        ¬ (v.nodeId = id ∧ v.iteration = (placeOf loops).iteration) := by
      rintro e he v hv ⟨rfl, -⟩
      rcases List.mem_cons.mp he with rfl | he
      · obtain rfl := Option.some.inj hv
        exact hid rfl
      · obtain rfl := List.mem_singleton.mp he
        exact absurd hv (by simp [Entry.visit?])
    exact or_congr_left (and_congr_right fun _ => (completedIn_append_iff hother).symm)

end Level

section

variable {journal added : List Entry} {loops : List OpenLoop} {frame : Frame} {n : PlannedNode}
  {todo : List PlannedNode}

theorem Untouched.append (h : p.Untouched journal loops todo)
    (hlevel : p.Level journal loops frame (n :: todo)) (hp : p.Lawful)
    (hadded : ∀ e ∈ added, ∀ id it, e.located? = some (id, it) → p.Within n.id id) :
    p.Untouched (added ++ journal) loops todo := by
  intro m hm
  refine (h m hm).extend fun e he id it hlocated hid => ?_
  exact absurd hid (hlevel.not_within hp hm (hadded e he id it hlocated))

theorem Visiting.append {v : OpenVisit} (h : p.Visiting journal loops v) (hp : p.Lawful)
    (hadded : ∀ e ∈ added, ∀ id it, e.located? = some (id, it) →
      v.node.id ∈ p.scope id ∨ id = v.node.id ∧ e.visit? = none) :
    p.Visiting (added ++ journal) loops v := by
  have hnode := h.node_mem
  have hinside : ∀ e ∈ added, ∀ visit, e.visit? = some visit →
      v.node.id ∈ p.scope visit.nodeId := by
    intro e he visit hvisit
    rcases hadded e he _ _ (Entry.located?_of_visit? hvisit) with hmem | ⟨-, hnone⟩
    · exact hmem
    · exact absurd (hnone.symm.trans hvisit) (by simp)
  refine ⟨h.level.append fun e he visit hvisit _ => ?_, h.untouched.append h.level hp ?_, ?_, h.active⟩
  · rw [← h.level.getLast?_scope hp List.mem_cons_self]
    exact hp.not_mem_region_of_mem_scope hnode (hinside e he visit hvisit)
  · intro e he id it hlocated
    rcases hadded e he id it hlocated with hmem | ⟨rfl, -⟩
    · exact Or.inr hmem
    · exact Or.inl rfl
  · intro visit hvisit hid
    rcases List.mem_append.mp hvisit with hvisit | hvisit
    · have hmem := hinside _ hvisit visit rfl
      rw [hid] at hmem
      exact absurd hmem (hp.not_mem_scope v.node.id)
    · exact h.unvisited visit hvisit hid

theorem Opened.append {o : OpenLoop} (h : p.Opened journal loops o) (hp : p.Lawful)
    (hadded : ∀ e ∈ added, ∀ id it, e.located? = some (id, it) → o.node.id ∈ p.scope id) :
    p.Opened (added ++ journal) loops o := by
  refine ⟨h.visiting.append hp fun e he id it hlocated => Or.inl (hadded e he id it hlocated),
    h.kind_eq, ?_⟩
  obtain ⟨values, hvalues, hanswer⟩ := h.exists_answer
  refine ⟨values, hvalues, fun result => ?_⟩
  rw [← hanswer result, List.mem_append, or_iff_right]
  intro hmem
  exact hp.not_mem_scope o.node.id (hadded _ hmem _ _ rfl)

/-- A pass takes place in the scope that its direct members have. -/
theorem Stacked.scope_eq (h : p.Stacked journal loops) (hp : p.Lawful) (hn : n ∈ p.nodes)
    (hlast : n.scope.getLast? = (placeOf loops).region) :
    n.scope = idsOf loops := by
  induction loops generalizing n with
  | nil => exact List.getLast?_eq_none_iff.mp hlast
  | cons o loops ih =>
      obtain ⟨hopened, -, -, hstacked⟩ := h
      have hlevel := hopened.visiting.level
      obtain ⟨l, hl, hid, hscope⟩ := hp.exists_scope_eq_concat hn hlast
      obtain rfl := hp.eq_of_id_eq hl hlevel.node_mem hid
      rw [hscope, ih hstacked hl (hlevel.getLast?_scope hp List.mem_cons_self), idsOf_cons]

theorem Stacked.length_scope (h : p.Stacked journal loops) (hp : p.Lawful)
    (hlevel : p.Level journal loops frame todo) (hn : n ∈ todo) : n.scope.length = loops.length := by
  rw [h.scope_eq hp (hlevel.planned n hn) (hlevel.getLast?_scope hp hn), length_idsOf]

/-- An open loop stands where its iteration and its scope end. -/
theorem Stacked.exists_opened (h : p.Stacked journal loops) {o : OpenLoop} (ho : o ∈ loops) :
    ∃ outer, p.Opened journal outer o ∧ o.index < o.elements.length ∧
      (placeOf outer).iteration ++ [o.index] <+: (placeOf loops).iteration ∧
      idsOf outer ++ [o.node.id] <+: idsOf loops := by
  induction loops with
  | nil => exact absurd ho List.not_mem_nil
  | cons o' loops ih =>
      obtain ⟨hopened, hmore, -, hstacked⟩ := h
      rw [placeOf_cons, RunSettings.inside, idsOf_cons]
      rcases List.mem_cons.mp ho with rfl | ho
      · exact ⟨loops, hopened, hmore, List.prefix_rfl, List.prefix_rfl⟩
      · obtain ⟨outer, houter, hmore, hit, hids⟩ := ih hstacked ho
        exact ⟨outer, houter, hmore, hit.trans (List.prefix_append _ _),
          hids.trans (List.prefix_append _ _)⟩

/-- The loops around a pass are told by their places in its scope. -/
theorem Stacked.exists_opened_at (h : p.Stacked journal loops) (hnodup : (idsOf loops).Nodup)
    {k : Nat} {id : String} (hk : (idsOf loops)[k]? = some id) :
    ∃ outer, ∃ o ∈ loops, o.node.id = id ∧ p.Opened journal outer o ∧
      idsOf outer = (idsOf loops).take k ∧
      (placeOf loops).iteration.take k = (placeOf outer).iteration ∧
      (placeOf loops).iteration[k]? = some o.index := by
  obtain ⟨o, ho, rfl⟩ := mem_idsOf.mp (List.mem_of_getElem? hk)
  obtain ⟨outer, hopened, -, hit, hids⟩ := h.exists_opened ho
  obtain ⟨hplace, htake, hindex⟩ := getElem?_of_prefix hit hids
  obtain rfl : k = outer.length :=
    (List.getElem?_inj (List.getElem?_eq_some_iff.mp hk).1 hnodup).mp (hk.trans hplace.symm)
  refine ⟨outer, o, ho, rfl, hopened, ?_, htake, hindex⟩
  rw [← length_idsOf outer]
  exact List.prefix_iff_eq_take.mp ((List.prefix_append _ _).trans hids)

/-- What a pass visits lies inside of all open loops. -/
theorem Stacked.mem_scope (h : p.Stacked journal loops) (hp : p.Lawful)
    (hlevel : p.Level journal loops frame todo) (hn : n ∈ todo) {id : String}
    (hid : p.Within n.id id) {o : OpenLoop} (ho : o ∈ loops) : o.node.id ∈ p.scope id := by
  have hscope := h.scope_eq hp (hlevel.planned n hn) (hlevel.getLast?_scope hp hn)
  have hmem : o.node.id ∈ n.scope := hscope ▸ mem_idsOf.mpr ⟨o, ho, rfl⟩
  exact (hp.scope_prefix_of_within (hlevel.planned n hn) hid).subset hmem

theorem Stacked.append (h : p.Stacked journal loops) (hp : p.Lawful)
    (hadded : ∀ e ∈ added, ∀ id it, e.located? = some (id, it) →
      (∀ o ∈ loops, o.node.id ∈ p.scope id) ∧ (placeOf loops).iteration <+: it) :
    p.Stacked (added ++ journal) loops := by
  induction loops with
  | nil => trivial
  | cons o loops ih =>
      obtain ⟨hopened, hmore, hbody, hstacked⟩ := h
      rw [placeOf_cons, RunSettings.inside] at hadded
      refine ⟨hopened.append hp fun e he id it hlocated =>
        (hadded e he id it hlocated).1 o List.mem_cons_self, hmore, ?_, ih hstacked ?_⟩
      · refine hbody.extend fun e he id it hlocated _ => ?_
        obtain ⟨rest, rfl⟩ := (hadded e he id it hlocated).2
        exact Precedes.next _ o.index rest
      · intro e he id it hlocated
        obtain ⟨hscope, hit⟩ := hadded e he id it hlocated
        exact ⟨fun o' ho' => hscope o' (List.mem_cons_of_mem _ ho'),
          (List.prefix_append _ _).trans hit⟩

end

end Plan

end FlowGraph
