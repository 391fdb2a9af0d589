import FlowGraph.Proofs.Run.Frames
import FlowGraph.Proofs.Run.Results
import FlowGraph.Proofs.Run.Tellings

/-!
One member of a region, visited in two runs of the same nodes. What comes of the visit depends on nothing
but what the frames hold of the sources that are read inside of the member; so where these are the same,
a visit that finishes in the one run finishes in the other one, leaves the same in its frame and tells the
same.
-/

namespace FlowGraph

open Plan

namespace Plan

variable (p : Plan)

/-- Whether an edge binds an output of a node with this id to a member or to something inside of it. -/
def Reads (n : PlannedNode) (id : String) : Prop :=
  ∃ m ∈ p.nodes, p.Within n.id m.id ∧ ∃ b ∈ m.bindings, b.source = id

/-- Whether an edge binds an output of a node with this id to something that lies in a region. -/
def RegionReads (region : Option String) (id : String) : Prop :=
  ∃ m ∈ p.nodes, LiesAround region m.scope ∧ ∃ b ∈ m.bindings, b.source = id

variable {p}

theorem reads_of_binding {n : PlannedNode} (hn : n ∈ p.nodes) {b : Binding} (hb : b ∈ n.bindings) :
    p.Reads n b.source :=
  ⟨n, hn, Or.inl rfl, b, hb, rfl⟩

end Plan

/-- Whether the nodes in question are found alike in two lists of frames. -/
def SameIn (ids : String → Prop) (frames frames' : List Frame) : Prop :=
  ∀ id, ids id → lookup frames id = lookup frames' id

namespace SameIn

variable {ids ids' : String → Prop} {frames frames' : List Frame}

theorem mono (h : SameIn ids frames frames') (hids : ∀ id, ids' id → ids id) :
    SameIn ids' frames frames' :=
  fun id hid => h id (hids id hid)

/-- The same entries are found before what is found alike. -/
theorem cons (h : SameIn ids frames frames') (frame : Frame) :
    SameIn ids (frame :: frames) (frame :: frames') :=
  fun id hid => by rw [lookup_cons, lookup_cons, h id hid]

theorem isLive_eq (h : SameIn ids frames frames') {b : Binding} (hb : ids b.source) :
    isLive frames b = isLive frames' b := by
  simp only [isLive, h b.source hb]

theorem liveValue_eq (h : SameIn ids frames frames') {b : Binding} (hb : ids b.source) :
    liveValue frames b = liveValue frames' b := by
  simp only [liveValue, h.isLive_eq hb, h b.source hb]

theorem any_isLive_eq (h : SameIn ids frames frames') {bindings : List Binding}
    (hbindings : ∀ b ∈ bindings, ids b.source) :
    bindings.any (isLive frames) = bindings.any (isLive frames') := by
  rw [Bool.eq_iff_iff, List.any_eq_true, List.any_eq_true]
  exact exists_congr fun b => and_congr_right fun hb => by rw [h.isLive_eq (hbindings b hb)]

/-- Where the sources of a node are found alike, the node is active alike. -/
theorem isActive_eq (h : SameIn ids frames frames') {n : PlannedNode}
    (hn : ∀ b ∈ n.forwardBindings, ids b.source) : n.isActive frames = n.isActive frames' := by
  have hinput : ∀ input, (n.bindingsOf input).any (isLive frames) =
      (n.bindingsOf input).any (isLive frames') := fun input =>
    h.any_isLive_eq fun b hb => hn b (List.mem_of_mem_filter hb)
  simp only [PlannedNode.isActive, hinput, h.any_isLive_eq hn]

theorem inputValue_eq (h : SameIn ids frames frames') {n : PlannedNode}
    (hn : ∀ b ∈ n.forwardBindings, ids b.source) (input : Handle) :
    n.inputValue frames input = n.inputValue frames' input := by
  have hbindings : ∀ b ∈ n.bindingsOf input, ids b.source :=
    fun b hb => hn b (List.mem_of_mem_filter hb)
  have hvalues : (n.bindingsOf input).filterMap (liveValue frames) =
      (n.bindingsOf input).filterMap (liveValue frames') :=
    List.filterMap_congr fun b hb => h.liveValue_eq (hbindings b hb)
  simp only [PlannedNode.inputValue, hvalues, h.any_isLive_eq hbindings]

/-- Where the sources of a node are found alike, it is given the same. -/
theorem resolveInputs_eq (h : SameIn ids frames frames') {n : PlannedNode}
    (hn : ∀ b ∈ n.forwardBindings, ids b.source) :
    n.resolveInputs frames = n.resolveInputs frames' := by
  have hinputs : ∀ inputs sofar,
      n.inputValues frames sofar inputs = n.inputValues frames' sofar inputs := by
    intro inputs
    induction inputs with
    | nil => exact fun _ => rfl
    | cons input inputs ih =>
        exact fun sofar => by simp only [PlannedNode.inputValues, h.inputValue_eq hn, ih]
  exact hinputs _ _

end SameIn

/-- A frame after a visit that has left this in it. -/
def Frame.leave (frame : Frame) (id : String) (found : Option Completed) : Frame :=
  match found with
  | some c => Dict.insert frame id c
  | none => frame

/-- Whether a pass is gone through, unless something in it fails. -/
def Exit.Plain : Exit → Prop
  | finished | failed _ => True
  | _ => False

namespace RunSettings

/-! ### How passes of plain nodes end -/

section

variable {s : RunSettings} (h : s.Orderly) {n : PlannedNode}

include h

theorem Orderly.result_cases (hn : n ∈ s.plan.nodes) {place : Place} {frame : Frame} {r : RunState}
    {value : NodeResult} (hok : (s.invoke place frame n r).1 = .ok value) :
    (∃ values, value = .outputs values) ∨ ∃ handle values, value = .branch handle values := by
  have hcall := s.callResult_invoke place frame n r
  generalize (s.invoke place frame n r).1 = result at hcall hok
  cases hcall with
  | returned => exact (h.plain n hn _).result_cases _ hok
  | _ => exact absurd hok (by simp)

theorem Orderly.exit_visit (hn : n ∈ s.plan.nodes) (place : Place) (frame : Frame) (r : RunState) :
    (s.visit place n frame r).exit.Plain := by
  have hcases : ∀ value, (s.invoke place frame n (s.start n r)).1 = .ok value →
      (∃ values, value = .outputs values) ∨ ∃ handle values, value = .branch handle values :=
    fun value => h.result_cases hn
  rw [visit]
  generalize s.invoke place frame n (s.start n r) = called at hcases
  obtain ⟨result, run⟩ := called
  cases result with
  | error e => trivial
  | ok value =>
      rcases hcases value rfl with ⟨values, rfl⟩ | ⟨handle, values, rfl⟩
      · trivial
      · simp only [Except.bind, checkResult]
        split_ifs <;> trivial

variable {pass : Place → Frame → RunState → Passed}
  (hpass : ∀ place frame r, (pass place frame r).exit.Plain)

include hpass

omit h in
theorem exit_iterate (place : Place) (n : PlannedNode) (loop : LoopHandles) (started total : Nat)
    (frame : Frame) (index : Nat) (elements : List Value) (r : RunState) :
    (s.iterate pass place n loop started total frame index elements r).exit.Plain := by
  induction elements generalizing index r with
  | nil => trivial
  | cons element elements ih =>
      rw [iterate]
      split_ifs
      · trivial
      dsimp only
      generalize hpassed : pass _ _ _ = passed
      have hplain : passed.exit.Plain := hpassed ▸ hpass _ _ _
      obtain ⟨exit, frame, run⟩ := passed
      cases exit with
      | finished => exact ih _ _
      | failed => trivial
      | _ => exact hplain.elim

omit h in
theorem exit_visitLoop (place : Place) (n : PlannedNode) (loop : LoopHandles) (frame : Frame)
    (r : RunState) : (s.visitLoop pass place n loop frame r).exit.Plain := by
  rw [visitLoop]
  dsimp only
  split
  · trivial
  next elements outputs _ =>
    generalize hlooped : s.iterate _ _ _ _ _ _ _ _ _ _ = looped
    have hplain : looped.exit.Plain := hlooped ▸ exit_iterate hpass _ _ _ _ _ _ _ _ _
    obtain ⟨exit, collected, run⟩ := looped
    cases exit with
    | finished | failed => trivial
    | _ => exact hplain.elim

theorem Orderly.exit_visitMember (hn : n ∈ s.plan.nodes) (place : Place) (frame : Frame)
    (r : RunState) : (s.visitMember pass place n frame r).exit.Plain := by
  rw [visitMember]
  split_ifs
  · cases n.kind.loopHandles? with
    | some loop => exact exit_visitLoop hpass place n loop frame r
    | none => exact h.exit_visit hn place frame r
  · trivial

theorem Orderly.exit_visitAll {ns : List PlannedNode} (hns : ∀ n ∈ ns, n ∈ s.plan.nodes)
    (place : Place) (frame : Frame) (r : RunState) :
    (s.visitAll pass place ns frame r).exit.Plain := by
  induction ns generalizing frame r with
  | nil => trivial
  | cons n ns ih =>
      obtain ⟨hn, hns⟩ := List.forall_mem_cons.mp hns
      have hplain := h.exit_visitMember hpass hn place frame r
      rw [visitAll]
      generalize s.visitMember pass place n frame r = passed at hplain
      obtain ⟨exit, frame, run⟩ := passed
      cases exit with
      | finished => exact ih hns frame run
      | _ => exact hplain

end

theorem Orderly.exit_pass {s : RunSettings} (h : s.Orderly) (depth : Nat) (place : Place) (frame : Frame)
    (r : RunState) : (s.pass depth place frame r).exit.Plain := by
  induction depth generalizing place frame r with
  | zero => trivial
  | succ depth ih =>
      exact h.exit_visitAll ih (fun n hn => (h.lawful.mem_regionNodes.mp hn).1) place frame r

end RunSettings

/-! ### One member in two runs -/

/-- Whether two passes go through the same region in the same iteration. -/
structure Place.Matches (place place' : Place) : Prop where
  region_eq : place.region = place'.region
  iteration_eq : place.iteration = place'.iteration

/-- A visit of a member and one that finishes, leaves the same in its frame and tells the same. -/
structure SameVisit (p : Plan) (n : PlannedNode) (frame frame' : Frame) (r r' : RunState)
    (passed passed' : Passed) : Prop where
  finished : passed'.exit = .finished
  exists_found : ∃ found, passed.frame = frame.leave n.id found ∧ passed'.frame = frame'.leave n.id found
  told : TellAlike (p.Within n.id) r passed.run r' passed'.run

/-- A pass and one that finishes, keeps alike what was found alike, and tells the same. -/
structure SamePass (ids : String → Prop) (outer outer' : List Frame) (frame frame' : Frame)
    (r r' : RunState) (passed passed' : Passed) : Prop where
  finished : passed'.exit = .finished
  found : ∀ id, lookup (frame :: outer) id = lookup (frame' :: outer') id →
    lookup (passed.frame :: outer) id = lookup (passed'.frame :: outer') id
  told : TellAlike ids r passed.run r' passed'.run

/-- Whether one way to go on does what another one does, if that finishes, and needs no more for it than
the same sources. -/
def Follows (reads ids : String → Prop) (outer outer' : List Frame)
    (go go' : Frame → RunState → Passed) : Prop :=
  ∀ frame frame' r r', SameIn reads (frame :: outer) (frame' :: outer') → r.Calm → r'.Calm →
    (go frame r).exit = .finished →
      SamePass ids outer outer' frame frame' r r' (go frame r) (go' frame' r')

namespace RunSettings

/-- Whether the passes of one run, nested so deep at most, do what those of another one do. -/
def PassesFollow (s s' : RunSettings) (depth : Nat) : Prop :=
  ∀ place place' : Place, place.Matches place' →
    Follows (s.plan.RegionReads place.region) (fun id => LiesAround place.region (s.plan.scope id))
      place.enclosing place'.enclosing (s.pass depth place) (s'.pass depth place')

theorem skip_eq (s : RunSettings) (place : Place) (n : PlannedNode) (r : RunState) :
    s.skip place n r = s.skipAll place (n.id :: s.skippedWith n) r := by
  unfold skip skippedWith
  cases n.kind.loopHandles? <;> rfl

section

variable {s s' : RunSettings} (h : s.Twin s') {place place' : Place} (hplace : place.Matches place')
  {n : PlannedNode} (hn : n ∈ s.plan.nodes) {frame frame' : Frame} {r r' : RunState}
  (hr : r.Calm) (hr' : r'.Calm)

include h

theorem Twin.find?_eq (id : String) : s.plan.find? id = s'.plan.find? id :=
  find?_id_eq_of_perm h.nodes_perm h.left.lawful.nodup id

theorem Twin.scope_eq (id : String) : s.plan.scope id = s'.plan.scope id := by
  rw [Plan.scope, Plan.scope, h.find?_eq]

theorem Twin.mem_bodyNodes_iff {loopId id : String} :
    id ∈ s.bodyNodes loopId ↔ id ∈ s'.bodyNodes loopId := by
  rw [h.left.lawful.mem_bodyNodes, h.right.lawful.mem_bodyNodes, h.scope_eq]

theorem Twin.answerOf_eq (hit : place.iteration = place'.iteration)
    (hsame : ∀ b ∈ n.forwardBindings, lookup (frame :: place.enclosing) b.source =
      lookup (frame' :: place'.enclosing) b.source) :
    s.answerOf place frame n = s'.answerOf place' frame' n := by
  have hfound : SameIn (fun id => lookup (frame :: place.enclosing) id =
      lookup (frame' :: place'.enclosing) id) (frame :: place.enclosing) (frame' :: place'.enclosing) :=
    fun _ hid => hid
  have hcontext : s.contextOf place n = s'.contextOf place' n := by
    funext inputs store
    rw [contextOf, contextOf, hit, h.inputs_eq]
  simp only [answerOf, hfound.resolveInputs_eq hsame, hcontext, h.nodeTimeout_eq]

include hr hr'

theorem Twin.skipAll_alike (hit : place.iteration = place'.iteration) {ids ids' : List String}
    (hnodup : ids.Nodup) (hnodup' : ids'.Nodup) (hids : ∀ id, id ∈ ids ↔ id ∈ ids')
    {only : String → Prop} (honly : ∀ id ∈ ids, only id) :
    TellAlike only r (s.skipAll place ids r) r' (s'.skipAll place' ids' r') := by
  have htold := h.right.tells_skipAll hr' place' hnodup'
  simp only [← hids, ← hit] at htold
  refine ⟨_, fun id hid => ?_, h.left.tells_skipAll hr place hnodup, htold⟩
  by_contra hnot
  exact hid (if_neg fun hmem => hnot (honly id hmem))

include hplace

theorem Twin.skip_same :
    SameVisit s.plan n frame frame' r r' ⟨.finished, frame, s.skip place n r⟩
      ⟨.finished, frame', s'.skip place' n r'⟩ := by
  refine ⟨rfl, ⟨none, rfl, rfl⟩, ?_⟩
  rw [skip_eq, skip_eq]
  have hids : ∀ id, id ∈ n.id :: s.skippedWith n ↔ id ∈ n.id :: s'.skippedWith n := by
    intro id
    unfold skippedWith
    cases n.kind.loopHandles? with
    | none => rfl
    | some _ => rw [List.mem_cons, List.mem_cons, h.mem_bodyNodes_iff]
  refine h.skipAll_alike hr hr' hplace.iteration_eq (h.left.lawful.nodup_skipped n)
    (h.right.lawful.nodup_skipped n) hids fun id hid => ?_
  rcases List.mem_cons.mp hid with rfl | hid
  · exact Or.inl rfl
  · exact Or.inr (h.left.lawful.mem_skippedWith hid)

theorem Twin.settle_same (started started' : Nat) {c : Completion} (hexit : c.exit = .finished) :
    SameVisit s.plan n frame frame' r r' (s.settle place n started frame (.ok c) r)
      (s'.settle place' n started' frame' (.ok c) r') := by
  have htold := h.left.tells_complete hr place n c.outputs c.signal started frame
  have htold' := h.right.tells_complete hr' place' n c.outputs c.signal started' frame'
  rw [← hplace.iteration_eq] at htold'
  refine ⟨hexit, ⟨some ⟨c.outputs, c.signal.bind Signal.branch?⟩, rfl, rfl⟩, _, fun id hid => ?_, htold,
    htold'⟩
  by_contra hnot
  exact hid (if_neg fun heq => hnot (Or.inl heq))

include hn

/-- A call in two runs comes to the same, and tells nothing. -/
theorem Twin.invoke_same
    (hsame : SameIn (s.plan.Reads n) (frame :: place.enclosing) (frame' :: place'.enclosing)) :
    (s.invoke place frame n (s.start n r)).1 = (s'.invoke place' frame' n (s'.start n r')).1 ∧
      r.Silent (s.invoke place frame n (s.start n r)).2 ∧
        r'.Silent (s'.invoke place' frame' n (s'.start n r')).2 := by
  have hstart := h.left.silent_start hr n
  have hstart' := h.right.silent_start hr' n
  obtain ⟨heq, hinvoke⟩ := h.left.invoke_spec hstart.calm place frame hn
  obtain ⟨heq', hinvoke'⟩ := h.right.invoke_spec hstart'.calm place' frame'
    (h.nodes_perm.mem_iff.mp hn)
  refine ⟨?_, hstart.tells hinvoke, hstart'.tells hinvoke'⟩
  rw [heq, heq']
  exact h.answerOf_eq hplace.iteration_eq fun b hb => hsame _ (reads_of_binding hn (List.mem_of_mem_filter hb))

theorem Twin.visit_same
    (hsame : SameIn (s.plan.Reads n) (frame :: place.enclosing) (frame' :: place'.enclosing))
    (hexit : (s.visit place n frame r).exit = .finished) :
    SameVisit s.plan n frame frame' r r' (s.visit place n frame r) (s'.visit place' n frame' r') := by
  obtain ⟨hresult, hsilent, hsilent'⟩ := h.invoke_same hplace hn hr hr' hsame
  have hcheck : checkResult place n = checkResult place' n := by
    funext result
    simp only [checkResult, hplace.region_eq]
  rw [visit] at hexit ⊢
  rw [visit, ← hcheck]
  generalize s.invoke place frame n (s.start n r) = called at hresult hsilent hexit ⊢
  generalize s'.invoke place' frame' n (s'.start n r') = called' at hresult hsilent' ⊢
  obtain ⟨result, run⟩ := called
  obtain ⟨result', run'⟩ := called'
  obtain rfl : result = result' := hresult
  dsimp only at hexit ⊢
  cases houtcome : (result.bind (checkResult place n)).map (completion n) with
  | error cause => exact absurd (houtcome ▸ hexit) (by simp [settle])
  | ok c =>
      rw [houtcome] at hexit
      have hsettled : SameVisit s.plan n frame frame' run run' _ _ :=
        h.settle_same hplace hsilent.calm hsilent'.calm r.clock r'.clock hexit
      exact ⟨hsettled.finished, hsettled.exists_found,
        (TellAlike.silent hsilent hsilent').trans hsettled.told⟩

omit hplace hn hr hr' in
/-- What lies in a loop reads no more than the loop. -/
theorem Twin.reads_of_regionReads {id : String} (hid : s.plan.RegionReads (some n.id) id) :
    s.plan.Reads n id := by
  obtain ⟨m, hm, haround, hbinding⟩ := hid
  exact ⟨m, hm, Or.inr (h.left.lawful.scope_id hm ▸ haround n.id rfl), hbinding⟩

variable {depth : Nat} (hpass : s.PassesFollow s' depth)
  (hsame : SameIn (s.plan.Reads n) (frame :: place.enclosing) (frame' :: place'.enclosing))

include hpass hsame

/-- The iterations of a loop in two runs collect the same. -/
theorem Twin.iterate_same (loop : LoopHandles) (started started' total : Nat) (elements : List Value)
    (index : Nat)
    (hexit : (s.iterate (s.pass depth) place n loop started total frame index elements r).exit =
      .finished) :
    let looped := s.iterate (s.pass depth) place n loop started total frame index elements r
    let looped' := s'.iterate (s'.pass depth) place' n loop started' total frame' index elements r'
    looped'.exit = .finished ∧ looped'.collected = looped.collected ∧
      TellAlike (s.plan.Within n.id) r looped.run r' looped'.run := by
  induction elements generalizing index r r' with
  | nil => exact ⟨rfl, rfl, .silent ⟨hr, fun _ => rfl⟩ ⟨hr', fun _ => rfl⟩⟩
  | cons element elements ih =>
      have hsent := h.left.silent_send hr (.loopIteration n.id index total) rfl
      have hsent' := h.right.silent_send hr' (.loopIteration n.id index total) rfl
      have hinside : (inside place n.id index frame).Matches (inside place' n.id index frame') :=
        ⟨rfl, by rw [inside, inside, hplace.iteration_eq]⟩
      have hfound : SameIn (s.plan.Reads n)
          ([(n.id, ⟨[(loop.body, element)], none⟩)] :: frame :: place.enclosing)
          ([(n.id, ⟨[(loop.body, element)], none⟩)] :: frame' :: place'.enclosing) := hsame.cons _
      have hplain := h.left.exit_pass depth (inside place n.id index frame)
        [(n.id, ⟨[(loop.body, element)], none⟩)] (s.send (.loopIteration n.id index total) r)
      have hfollows := hpass _ _ hinside _ _ _ _
        (hfound.mono fun id => h.reads_of_regionReads) hsent.calm hsent'.calm
      rw [iterate] at hexit ⊢
      rw [iterate]
      simp only [hr.live, hr'.live, Bool.false_eq_true, if_false] at hexit ⊢
      generalize s.pass depth _ _ _ = passed at hexit hfollows hplain ⊢
      generalize s'.pass depth _ _ _ = passed' at hfollows ⊢
      obtain ⟨exit, inner, run⟩ := passed
      obtain ⟨exit', inner', run'⟩ := passed'
      cases exit with
      | failed f => exact absurd hexit (by simp)
      | finished =>
          obtain ⟨rfl, hkept, htold⟩ := hfollows rfl
          have hwithin : ∀ id, LiesAround (some n.id) (s.plan.scope id) → s.plan.Within n.id id :=
            fun id hid => Or.inr (hid n.id rfl)
          have htold := (TellAlike.silent hsent hsent').trans (htold.mono hwithin)
          have hcollect : collect n.backBinding element (inner' :: frame' :: place'.enclosing) .finished =
              collect n.backBinding element (inner :: frame :: place.enclosing) .finished := by
            cases hback : n.backBinding with
            | none => rfl
            | some b =>
                have hsource := hfound b.source (reads_of_binding hn (List.mem_of_find?_eq_some hback))
                have hfound' : SameIn (· = b.source) (inner :: frame :: place.enclosing)
                    (inner' :: frame' :: place'.enclosing) := fun id hid => hid ▸ hkept b.source hsource
                exact congrArg Option.toList (hfound'.liveValue_eq rfl).symm
          obtain ⟨hfinished, hcollected, hrest⟩ := ih htold.calm_left htold.calm_right (index + 1) hexit
          exact ⟨hfinished, congrArg₂ (· ++ ·) hcollect hcollected, htold.trans hrest⟩
      | _ => exact hplain.elim

theorem Twin.visitLoop_same {loop : LoopHandles}
    (hexit : (s.visitLoop (s.pass depth) place n loop frame r).exit = .finished) :
    SameVisit s.plan n frame frame' r r' (s.visitLoop (s.pass depth) place n loop frame r)
      (s'.visitLoop (s'.pass depth) place' n loop frame' r') := by
  obtain ⟨hresult, hsilent, hsilent'⟩ := h.invoke_same hplace hn hr hr' hsame
  rw [visitLoop] at hexit ⊢
  rw [visitLoop]
  generalize s.invoke place frame n (s.start n r) = called at hresult hsilent hexit ⊢
  generalize s'.invoke place' frame' n (s'.start n r') = called' at hresult hsilent' ⊢
  obtain ⟨result, run⟩ := called
  obtain ⟨result', run'⟩ := called'
  obtain rfl : result = result' := hresult
  dsimp only at hexit hsilent hsilent' ⊢
  cases hsplit : result.bind (splitCollection loop) with
  | error cause => exact absurd (hsplit ▸ hexit) (by simp [settle])
  | ok split =>
      obtain ⟨elements, outputs⟩ := split
      rw [hsplit] at hexit
      dsimp only at hexit ⊢
      have hlaunched : TellAlike (s.plan.Within n.id) run
          (if elements.isEmpty then s.skipAll place (s.bodyNodes n.id) run else run) run'
          (if elements.isEmpty then s'.skipAll place' (s'.bodyNodes n.id) run' else run') := by
        split_ifs
        · exact h.skipAll_alike hsilent.calm hsilent'.calm hplace.iteration_eq
            (h.left.lawful.nodup_bodyNodes n.id) (h.right.lawful.nodup_bodyNodes n.id)
            (fun _ => h.mem_bodyNodes_iff) fun id hid => Or.inr (h.left.lawful.mem_bodyNodes.mp hid)
        · exact .silent ⟨hsilent.calm, fun _ => rfl⟩ ⟨hsilent'.calm, fun _ => rfl⟩
      generalize (if elements.isEmpty then s.skipAll place (s.bodyNodes n.id) run else run) = run₁
        at hexit hlaunched ⊢
      generalize (if elements.isEmpty then s'.skipAll place' (s'.bodyNodes n.id) run' else run') = run₂
        at hlaunched ⊢
      have hplain := exit_iterate (s := s) (h.left.exit_pass depth) place n loop r.clock elements.length
        frame 0 elements run₁
      have hiterated := h.iterate_same hplace hn hlaunched.calm_left hlaunched.calm_right hpass hsame
        loop r.clock r'.clock elements.length elements 0
      dsimp only at hiterated
      generalize s.iterate _ _ _ _ _ _ _ _ _ _ = looped at hexit hplain hiterated ⊢
      generalize s'.iterate _ _ _ _ _ _ _ _ _ _ = looped' at hiterated ⊢
      obtain ⟨exit, collected, last⟩ := looped
      obtain ⟨exit', collected', last'⟩ := looped'
      cases exit with
      | failed f => exact absurd hexit (by simp)
      | finished =>
          obtain ⟨rfl, rfl, htold⟩ := hiterated rfl
          have hsettled : SameVisit s.plan n frame frame' last last' _ _ :=
            h.settle_same hplace htold.calm_left htold.calm_right r.clock r'.clock
              (c := { outputs := Dict.insert outputs loop.done (.array collected') }) rfl
          exact ⟨hsettled.finished, hsettled.exists_found, (TellAlike.silent hsilent hsilent').trans
            (hlaunched.trans (htold.trans hsettled.told))⟩
      | _ => exact hplain.elim

theorem Twin.visitMember_same
    (hexit : (s.visitMember (s.pass depth) place n frame r).exit = .finished) :
    SameVisit s.plan n frame frame' r r' (s.visitMember (s.pass depth) place n frame r)
      (s'.visitMember (s'.pass depth) place' n frame' r') := by
  have hactive : n.isActive (frame :: place.enclosing) = n.isActive (frame' :: place'.enclosing) :=
    hsame.isActive_eq fun b hb => reads_of_binding hn (List.mem_of_mem_filter hb)
  rw [visitMember] at hexit ⊢
  rw [visitMember, ← hactive]
  split_ifs at hexit ⊢
  · cases hkind : n.kind.loopHandles? with
    | some loop =>
        rw [hkind] at hexit
        exact h.visitLoop_same hplace hn hr hr' hpass hsame hexit
    | none =>
        rw [hkind] at hexit
        exact h.visit_same hplace hn hr hr' hsame hexit
  · exact h.skip_same hplace hr hr'

end

end RunSettings

end FlowGraph
