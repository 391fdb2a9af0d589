import FlowGraph.Proofs.Plan.Excerpt
import FlowGraph.Proofs.Plan.Scopes

/-!
The plan of an excerpt of a flow that has all nodes that take part. The loops come in another order, and
so do the nodes in their bodies, of which some are left out; but among the nodes that are there the loops
enclose the same. Therefore all scopes are the same, the loops nest as before, and the graphs of the
regions have the same arcs. A graph without a cycle has an order, whatever the order in which its arcs
are listed; and a node is planned in the same way, but for the order of its bindings. So the excerpt is
accepted if the flow is.
-/

namespace FlowGraph

/-- Whether two planned nodes differ in nothing but the order of their bindings. -/
def PlannedNode.Alike (n n' : PlannedNode) : Prop :=
  ∃ bindings, n.bindings.Perm bindings ∧ n' = { n with bindings }

theorem PlannedNode.Alike.id_eq {n n' : PlannedNode} (h : n.Alike n') : n'.id = n.id := by
  obtain ⟨bindings, -, rfl⟩ := h
  rfl

namespace TypedFlow

/-- Whether two lists hold the same loops, with the same bodies. -/
structure SameLoops (loops loops' : List LoopBody) : Prop where
  forth : ∀ l ∈ loops, ∃ l' ∈ loops', l.id = l'.id ∧ l.body.Perm l'.body
  back : ∀ l' ∈ loops', ∃ l ∈ loops, l'.id = l.id ∧ l'.body.Perm l.body

theorem improper_eq {a a' b b' : LoopBody} (ha : a.id = a'.id) (habody : a.body.Perm a'.body)
    (hb : b.id = b'.id) (hbbody : b.body.Perm b'.body) : improper a b = improper a' b' := by
  have hany : ∀ {xs ys : List String} (q : String → Bool), xs.Perm ys → xs.any q = ys.any q := by
    intro xs ys q hperm
    rw [Bool.eq_iff_iff, List.any_eq_true, List.any_eq_true]
    simp only [hperm.mem_iff]
  simp only [improper, ha, hb, habody.mem_iff, hbbody.mem_iff, hany _ habody, hany _ hbbody]

namespace SameLoops

variable {loops loops' : List LoopBody} (h : SameLoops loops loops')

include h

theorem mem_scopeOf_iff {loopId id : String} :
    loopId ∈ scopeOf loops id ↔ loopId ∈ scopeOf loops' id := by
  rw [mem_scopeOf, mem_scopeOf]
  constructor
  · rintro ⟨l, hl, rfl, hid⟩
    obtain ⟨l', hl', heq, hbody⟩ := h.forth l hl
    exact ⟨l', hl', heq.symm, hbody.mem_iff.mp hid⟩
  · rintro ⟨l', hl', rfl, hid⟩
    obtain ⟨l, hl, heq, hbody⟩ := h.back l' hl'
    exact ⟨l, hl, heq.symm, hbody.mem_iff.mp hid⟩

theorem nested (hnested : Nested loops) (hnodup : (loops'.map (·.id)).Nodup) : Nested loops' := by
  refine ⟨hnodup, fun l' hl' => ?_, fun l' hl' => ?_, fun a' ha' b' hb' hne => ?_⟩
  · obtain ⟨l, hl, hid, hbody⟩ := h.back l' hl'
    rw [hid, hbody.mem_iff]
    exact hnested.not_mem_self l hl
  · obtain ⟨l, hl, -, hbody⟩ := h.back l' hl'
    exact hbody.nodup_iff.mpr (hnested.body_nodup l hl)
  · obtain ⟨a, ha, haid, habody⟩ := h.back a' ha'
    obtain ⟨b, hb, hbid, hbbody⟩ := h.back b' hb'
    rw [improper_eq haid habody hbid hbbody]
    exact hnested.proper a ha b hb (by rwa [← haid, ← hbid])

/-- The same loops lie around a node, in the same order. -/
theorem scopeOf_eq (hnested : Nested loops) (hnested' : Nested loops') (id : String) :
    scopeOf loops id = scopeOf loops' id := by
  refine hnested.scopeOf_eq_of_mem_iff hnested' (fun _ => h.mem_scopeOf_iff) fun l' hl' => ?_
  obtain ⟨l, hl, hid, hbody⟩ := h.back l' hl'
  exact ⟨l, hl, hid, hbody.subset⟩

end SameLoops

/-! ### Loops that keep some of their bodies -/

/-- A loop with those nodes of its body that have one of the ids. -/
def LoopBody.keep (ids : List String) (l : LoopBody) : LoopBody :=
  { l with body := l.body.filter (· ∈ ids) }

theorem LoopBody.mem_body_keep {ids : List String} {l : LoopBody} {id : String} :
    id ∈ (l.keep ids).body ↔ id ∈ l.body ∧ id ∈ ids := by
  rw [keep, List.mem_filter, decide_eq_true_eq]

theorem improper_eq_false_iff {a b : LoopBody} :
    improper a b = false ↔ (b.id ∈ a.body → a.id ∉ b.body ∧ ∀ id ∈ b.body, id ∈ a.body) ∧
      (b.id ∉ a.body → (∀ id ∈ a.body, id ∉ b.body) ∨ a.id ∈ b.body) := by
  by_cases hmem : b.id ∈ a.body
  · simp [improper, hmem]
  · simp only [improper, hmem, if_false, false_imp_iff, true_and, not_false_iff, true_imp_iff,
      Bool.and_eq_false_iff, Bool.not_eq_false', decide_eq_true_eq]
    refine or_congr_left ?_
    simp

theorem improper_keep {ids : List String} {a b : LoopBody} (ha : a.id ∈ ids) (hb : b.id ∈ ids)
    (h : improper a b = false) : improper (a.keep ids) (b.keep ids) = false := by
  rw [improper_eq_false_iff] at h ⊢
  simp only [LoopBody.mem_body_keep]
  refine ⟨fun hin => ?_, fun hout => ?_⟩
  · obtain ⟨hnot, hsub⟩ := h.1 hin.1
    exact ⟨fun hmem => hnot hmem.1, fun id hid => ⟨hsub id hid.1, hid.2⟩⟩
  · rcases h.2 fun hmem => hout ⟨hmem, hb⟩ with hdisjoint | hmem
    · exact Or.inl fun id hid hid' => hdisjoint id hid.1 hid'.1
    · exact Or.inr ⟨hmem, ha⟩

section Keep

variable {loops : List LoopBody} {ids : List String} (h : Nested loops) (hids : ∀ l ∈ loops, l.id ∈ ids)

include h hids

theorem Nested.keep : Nested (loops.map (·.keep ids)) := by
  have hnodup : ((loops.map (·.keep ids)).map (·.id)).Nodup := by
    rw [List.map_map]
    exact h.nodup
  refine ⟨hnodup, ?_, ?_, ?_⟩
  · intro l' hl' hmem
    obtain ⟨l, hl, rfl⟩ := List.mem_map.mp hl'
    exact h.not_mem_self l hl (LoopBody.mem_body_keep.mp hmem).1
  · intro l' hl'
    obtain ⟨l, hl, rfl⟩ := List.mem_map.mp hl'
    exact (h.body_nodup l hl).filter _
  · intro a' ha' b' hb' hne
    obtain ⟨a, ha, rfl⟩ := List.mem_map.mp ha'
    obtain ⟨b, hb, rfl⟩ := List.mem_map.mp hb'
    exact improper_keep (hids a ha) (hids b hb) (h.proper a ha b hb hne)

/-- The scopes of the nodes that are kept stay as they are. -/
theorem scopeOf_keep {id : String} (hid : id ∈ ids) :
    scopeOf loops id = scopeOf (loops.map (·.keep ids)) id := by
  refine h.scopeOf_eq_of_mem_iff (h.keep hids) (fun loopId => ?_) fun l' hl' => ?_
  · rw [mem_scopeOf, mem_scopeOf]
    constructor
    · rintro ⟨l, hl, rfl, hmem⟩
      exact ⟨_, List.mem_map_of_mem hl, rfl, LoopBody.mem_body_keep.mpr ⟨hmem, hid⟩⟩
    · rintro ⟨l', hl', rfl, hmem⟩
      obtain ⟨l, hl, rfl⟩ := List.mem_map.mp hl'
      exact ⟨l, hl, rfl, (LoopBody.mem_body_keep.mp hmem).1⟩
  · obtain ⟨l, hl, rfl⟩ := List.mem_map.mp hl'
    exact ⟨l, hl, rfl, List.filter_subset_self _⟩

end Keep

variable {f f' : TypedFlow}

theorem loopBody_eq_ok {loopId : String} {handles : LoopHandles} (hself : loopId ∉ f.bodyOf loopId)
    (hstray : ∀ e ∈ f.outgoing loopId, e.target ∈ f.bodyOf loopId →
      e.sourceHandle = some handles.body) :
    f.loopBody loopId handles = .ok ⟨loopId, f.bodyOf loopId⟩ := by
  have hfind : (f.outgoing loopId).find? (fun e => decide (e.sourceHandle ≠ some handles.body ∧
      e.target ∈ f.bodyOf loopId)) = none := by
    rw [List.find?_eq_none]
    intro e he hbad
    obtain ⟨hne, htarget⟩ := of_decide_eq_true hbad
    exact hne (hstray e he htarget)
  simp only [loopBody, if_neg hself, hfind]

/-- A region has an order exactly if a rank rises along the arcs of its graph. -/
theorem exists_regionOrder_eq_ok_iff {planned : List String} {loops : List LoopBody}
    {region : Option String} :
    (∃ order, f.regionOrder planned loops region = .ok order) ↔
      ∃ rank : String → Nat, ∀ v w, (v, w) ∈ (f.regionGraph planned loops region).arcs →
        rank v < rank w := by
  have hproper := proper_regionGraph f planned loops region
  constructor
  · rintro ⟨order, horder⟩
    simp only [regionOrder] at horder
    split at horder
    · exact absurd horder (by simp)
    next hnone => exact Graph.Digraph.exists_rank hproper hnone
  · rintro ⟨rank, hrank⟩
    simp only [regionOrder, Graph.Digraph.culprit?_eq_none hproper hrank]
    exact ⟨_, rfl⟩

theorem exists_planLoops_eq_ok {planned : List String} {all ls : List LoopBody}
    (h : ∀ l ∈ ls, ∃ order, f.regionOrder planned all (some l.id) = .ok order) :
    ∃ pls, f.planLoops planned all ls = .ok pls := by
  induction ls with
  | nil => exact ⟨[], rfl⟩
  | cons l ls ih =>
      obtain ⟨⟨order, horder⟩, h⟩ := List.forall_mem_cons.mp h
      obtain ⟨rest, hrest⟩ := ih h
      exact ⟨⟨l.id, l.body, order⟩ :: rest, by rw [planLoops, horder, hrest]; rfl⟩

/-! ### Excerpts -/

namespace Excerpt

variable {ids : List String} (h : f.Excerpt ids f')

include h

theorem exists_loopBody_eq_ok {n : TypedNode} {handles : LoopHandles} (hid : n.id ∈ ids)
    (hkind : n.kind.loopHandles? = some handles) (hok : ∃ l, f.loopBody n.id handles = .ok l) :
    ∃ l', f'.loopBody n.id handles = .ok l' := by
  obtain ⟨l, hl⟩ := hok
  have hbody := isBody_of_loopBody_eq_ok hkind hl
  have hsub : ∀ id, id ∈ f'.bodyOf n.id → id ∈ l.body := fun id hmem => by
    rw [← (h.bodyOf_perm hid).mem_iff] at hmem
    rw [hbody.body_eq]
    exact List.mem_of_mem_filter hmem
  refine ⟨_, loopBody_eq_ok (mt (hsub n.id) hbody.not_mem_self) fun e he htarget => ?_⟩
  exact hbody.no_stray e (h.mem_outgoing.mp he).1 (hsub e.target htarget)

theorem bind_eq {input : Handle} {e : FlowEdge} (htarget : e.target ∈ ids) :
    f'.bind input e = f.bind input e := by
  rw [bind, bind, h.isBackEdge_eq htarget]

theorem map_bind_eq {nodeId : String} (hid : nodeId ∈ ids) (input : Handle) :
    ((f.incoming nodeId).filter (·.targetHandle = input.id)).map (f'.bind input) =
      ((f.incoming nodeId).filter (·.targetHandle = input.id)).map (f.bind input) := by
  refine List.map_congr_left fun e he => h.bind_eq ?_
  have htarget := of_decide_eq_true (List.mem_filter.mp (List.mem_of_mem_filter he)).2
  exact htarget ▸ hid

/-- The edges are bound to the inputs of a node as before, but in another order. -/
theorem exists_bindInputs_eq_ok {nodeId : String} (hid : nodeId ∈ ids) {inputs : List Handle}
    {bindings : List Binding} (hok : f.bindInputs nodeId inputs = .ok bindings) :
    ∃ bindings', bindings.Perm bindings' ∧ f'.bindInputs nodeId inputs = .ok bindings' := by
  induction inputs generalizing bindings with
  | nil => exact ⟨bindings, .refl _, hok⟩
  | cons input inputs ih =>
      rw [bindInputs] at hok
      obtain ⟨_, hcount, hok⟩ := bind_eq_ok hok
      obtain ⟨rest, hrest, hok⟩ := bind_eq_ok hok
      obtain rfl := Except.ok.inj hok
      obtain ⟨rest', hperm, hrest'⟩ := ih hrest
      have hedges := (h.incoming_perm hid).filter (·.targetHandle = input.id)
      refine ⟨_, (h.map_bind_eq hid input ▸ hedges.map (f'.bind input)).append hperm, ?_⟩
      rw [bindInputs, ← hedges.length_eq, hcount, ok_bind, hrest', ok_bind]
      rfl

theorem exists_planNode_eq_ok {loops loops' : List LoopBody} {m : TypedNode} {n : PlannedNode}
    (hid : m.id ∈ ids) (hscope : scopeOf loops m.id = scopeOf loops' m.id)
    (hplanned : f.planNode loops m = .ok n) :
    ∃ n', n.Alike n' ∧ f'.planNode loops' m = .ok n' := by
  have hmade := madeFrom_of_planNode_eq_ok hplanned
  obtain ⟨bindings, hperm, hbound⟩ := h.exists_bindInputs_eq_ok hid hmade.bound
  refine ⟨_, ⟨bindings, hperm, rfl⟩, ?_⟩
  rw [planNode, hmade.bound, hmade.created] at hplanned
  rw [planNode, hbound, hmade.created, ← hscope]
  exact congrArg (fun k : PlannedNode => Except.ok { k with bindings }) (Except.ok.inj hplanned)

/-- Where edges enter a node in the same order, it is planned in the same way. -/
theorem planNode_eq {loops loops' : List LoopBody} {m : TypedNode} (hid : m.id ∈ ids)
    (hscope : scopeOf loops m.id = scopeOf loops' m.id)
    (hincoming : f'.incoming m.id = f.incoming m.id) :
    f'.planNode loops' m = f.planNode loops m := by
  have hinputs : ∀ inputs, f'.bindInputs m.id inputs = f.bindInputs m.id inputs := by
    intro inputs
    induction inputs with
    | nil => rfl
    | cons input inputs ih => simp only [bindInputs, hincoming, h.map_bind_eq hid, ih]
  simp only [planNode, hinputs, hscope]

end Excerpt

namespace ExcerptFor

variable {start : String} {ids : List String} (h : f.ExcerptFor start ids f')
  {loops loops' : List LoopBody} {p : Plan}

include h

theorem exists_loopBodies_eq_ok (hloops : f.loopBodies (f.members start) = .ok loops) :
    ∃ loops', f'.loopBodies (f'.members start) = .ok loops' := by
  have hbodies := exists_loopBodies_eq_ok_iff.mp ⟨loops, hloops⟩
  refine exists_loopBodies_eq_ok_iff.mpr fun n hn handles hkind => ?_
  have hmem := h.members_perm.mem_iff.mpr hn
  exact h.exists_loopBody_eq_ok (h.mem_ids hmem) hkind (hbodies n hmem handles hkind)

theorem map_id_perm (hloops : f.loopBodies (f.members start) = .ok loops)
    (hloops' : f'.loopBodies (f'.members start) = .ok loops') :
    (loops.map (·.id)).Perm (loops'.map (·.id)) := by
  rw [(loopBodies_spec hloops).1, (loopBodies_spec hloops').1]
  exact (h.members_perm.filter _).map _

theorem body_perm (hloops : f.loopBodies (f.members start) = .ok loops)
    (hloops' : f'.loopBodies (f'.members start) = .ok loops') {l l' : LoopBody} (hl : l ∈ loops)
    (hl' : l' ∈ loops') (hid : l'.id = l.id) : (l.keep ids).body.Perm l'.body := by
  obtain ⟨n, hn, handles, hbody⟩ := (loopBodies_spec hloops).2 l hl
  obtain ⟨n', -, handles', hbody'⟩ := (loopBodies_spec hloops').2 l' hl'
  rw [LoopBody.keep, hbody.body_eq, hbody'.body_eq, ← hbody'.id_eq, hid, hbody.id_eq]
  exact h.bodyOf_perm (h.mem_ids hn)

/-- The loops are the same, but keep only those nodes of their bodies that are there. -/
theorem sameLoops (hloops : f.loopBodies (f.members start) = .ok loops)
    (hloops' : f'.loopBodies (f'.members start) = .ok loops') :
    SameLoops (loops.map (·.keep ids)) loops' := by
  have hperm := h.map_id_perm hloops hloops'
  constructor
  · intro k hk
    obtain ⟨l, hl, rfl⟩ := List.mem_map.mp hk
    obtain ⟨l', hl', hid⟩ := List.mem_map.mp (hperm.mem_iff.mp (List.mem_map_of_mem hl))
    exact ⟨l', hl', hid.symm, h.body_perm hloops hloops' hl hl' hid⟩
  · intro l' hl'
    obtain ⟨l, hl, hid⟩ := List.mem_map.mp (hperm.mem_iff.mpr (List.mem_map_of_mem hl'))
    exact ⟨l.keep ids, List.mem_map_of_mem hl, hid.symm, (h.body_perm hloops hloops' hl hl' hid.symm).symm⟩

theorem mem_ids_of_mem_loops (hplanned : f.Planned start loops p) : ∀ l ∈ loops, l.id ∈ ids := by
  intro l hl
  obtain ⟨n, hn, _, hbody⟩ := hplanned.exists_isBody hl
  exact hbody.id_eq ▸ h.mem_ids hn

theorem nested (hplanned : f.Planned start loops p)
    (hloops' : f'.loopBodies (f'.members start) = .ok loops') : Nested loops' := by
  have hnested := hplanned.nested h.whole
  refine (h.sameLoops hplanned.bodies hloops').nested (hnested.keep (h.mem_ids_of_mem_loops hplanned)) ?_
  exact (h.map_id_perm hplanned.bodies hloops').nodup_iff.mp hnested.nodup

/-- The same loops lie around a node, in the same order. -/
theorem scopeOf_eq (hplanned : f.Planned start loops p)
    (hloops' : f'.loopBodies (f'.members start) = .ok loops') {id : String} (hid : id ∈ ids) :
    scopeOf loops id = scopeOf loops' id := by
  have hids := h.mem_ids_of_mem_loops hplanned
  have hnested := hplanned.nested h.whole
  rw [scopeOf_keep hnested hids hid]
  exact (h.sameLoops hplanned.bodies hloops').scopeOf_eq (hnested.keep hids)
    (h.nested hplanned hloops') id

/-! ### The plan of the excerpt -/

theorem checkBackEdges_eq_ok (hplanned : f.Planned start loops p)
    (hloops' : f'.loopBodies (f'.members start) = .ok loops') :
    f'.checkBackEdges ((f'.members start).map (·.id)) loops' = .ok () := by
  refine checkBackEdges_eq_ok_iff.mpr fun l' hl' e he hback => ?_
  obtain ⟨l, hl, hid⟩ := List.mem_map.mp
    ((h.map_id_perm hplanned.bodies hloops').mem_iff.mpr (List.mem_map_of_mem hl'))
  have hmem := h.mem_ids_of_mem_loops hplanned l hl
  rw [← hid, ← (h.incoming_perm hmem).mem_iff] at he
  have htarget : e.target ∈ ids := of_decide_eq_true (List.mem_filter.mp he).2 ▸ hmem
  obtain ⟨hsource, hlast⟩ := checkBackEdges_eq_ok_iff.mp hplanned.backEdges l hl e he
    ((h.isBackEdge_eq htarget).symm.trans hback)
  refine ⟨h.mem_members_iff.mp hsource, ?_⟩
  rwa [← h.scopeOf_eq hplanned hloops' (h.stable.source_mem e (List.mem_of_mem_filter he) htarget)]

theorem checkLoopControls_eq_ok (hplanned : f.Planned start loops p)
    (hloops' : f'.loopBodies (f'.members start) = .ok loops') :
    checkLoopControls (f'.members start) loops' = .ok () := by
  refine checkLoopControls_eq_ok_iff.mpr fun n hn hkind => ?_
  have hmem := h.members_perm.mem_iff.mpr hn
  rw [← h.scopeOf_eq hplanned hloops' (h.mem_ids hmem)]
  exact checkLoopControls_eq_ok_iff.mp hplanned.controls n hmem hkind

theorem exists_regionOrder_eq_ok (hplanned : f.Planned start loops p)
    (hloops' : f'.loopBodies (f'.members start) = .ok loops') {region : Option String}
    (hok : ∃ order, f.regionOrder ((f.members start).map (·.id)) loops region = .ok order) :
    ∃ order, f'.regionOrder ((f'.members start).map (·.id)) loops' region = .ok order := by
  have hscope : ∀ id ∈ (f.members start).map (·.id), scopeOf loops id = scopeOf loops' id := by
    intro id hid
    obtain ⟨n, hn, rfl⟩ := List.mem_map.mp hid
    exact h.scopeOf_eq hplanned hloops' (h.mem_ids hn)
  have hmembers : ∀ id, id ∈ regionMembers ((f.members start).map (·.id)) loops region ↔
      id ∈ regionMembers ((f'.members start).map (·.id)) loops' region := fun id => by
    rw [mem_regionMembers, mem_regionMembers, ← h.mem_members_iff]
    exact and_congr_right fun hid => by rw [hscope id hid]
  obtain ⟨rank, hrank⟩ := exists_regionOrder_eq_ok_iff.mp hok
  refine exists_regionOrder_eq_ok_iff.mpr ⟨rank, fun v w harc => hrank v w ?_⟩
  obtain ⟨e, he, hsource, hforward, htarget, harc⟩ := mem_arcs_regionGraph.mp harc
  rw [← h.mem_members_iff] at hsource htarget
  obtain ⟨he, hkept⟩ := h.mem_edges.mp he
  refine mem_arcs_regionGraph.mpr
    ⟨e, he, hsource, (h.isBackEdge_eq hkept).symm.trans hforward, htarget, ?_⟩
  simpa only [regionArc, hscope _ hsource, hscope _ htarget, hmembers] using harc

/-- The excerpt has a plan. -/
theorem exists_planned (hplanned : f.Planned start loops p) :
    ∃ loops' p', f'.Planned start loops' p' ∧ p'.start = start := by
  obtain ⟨loops', hloops'⟩ := h.exists_loopBodies_eq_ok hplanned.bodies
  obtain ⟨order', horder'⟩ := h.exists_regionOrder_eq_ok hplanned hloops' ⟨_, hplanned.order⟩
  obtain ⟨plannedLoops', hplannedLoops'⟩ : ∃ pls,
      f'.planLoops ((f'.members start).map (·.id)) loops' loops' = .ok pls := by
    refine exists_planLoops_eq_ok fun l' hl' => ?_
    obtain ⟨l, hl, hid⟩ := List.mem_map.mp
      ((h.map_id_perm hplanned.bodies hloops').mem_iff.mpr (List.mem_map_of_mem hl'))
    obtain ⟨_, -, -, horder⟩ := hplanned.exists_loop?_eq_some h.whole hl
    exact hid ▸ h.exists_regionOrder_eq_ok hplanned hloops' ⟨_, horder⟩
  obtain ⟨nodes', hnodes'⟩ : ∃ nodes',
      List.Forall₂ (fun m n => f'.planNode loops' m = .ok n) (f'.members start) nodes' := by
    refine exists_forall₂ fun m hm => ?_
    have hmem := h.members_perm.mem_iff.mpr hm
    obtain ⟨n, -, hn⟩ := exists_of_mem_forall₂ hplanned.nodes.flip hmem
    have hscope := h.scopeOf_eq hplanned hloops' (h.mem_ids hmem)
    obtain ⟨n', -, hn'⟩ := h.exists_planNode_eq_ok (h.mem_ids hmem) hscope hn
    exact ⟨n', hn'⟩
  exact ⟨loops', ⟨start, nodes', order', plannedLoops'⟩,
    ⟨hloops', checkNesting_eq_ok_iff.mpr (h.nested hplanned hloops').proper, h.checkBackEdges_eq_ok hplanned hloops',
      h.checkLoopControls_eq_ok hplanned hloops', horder', hplannedLoops', hnodes'⟩, rfl⟩

variable {p' : Plan}

theorem exists_alike (hplanned : f.Planned start loops p) (hplanned' : f'.Planned start loops' p')
    {n : PlannedNode} (hn : n ∈ p.nodes) : ∃ n' ∈ p'.nodes, n.Alike n' := by
  obtain ⟨m, hm, hmade⟩ := exists_of_mem_forall₂ hplanned.nodes hn
  have hscope := h.scopeOf_eq hplanned hplanned'.bodies (h.mem_ids hm)
  obtain ⟨n', halike, hmade'⟩ := h.exists_planNode_eq_ok (h.mem_ids hm) hscope hmade
  obtain ⟨k, hk, hkmade⟩ :=
    exists_of_mem_forall₂ hplanned'.nodes.flip (h.members_perm.mem_iff.mp hm)
  obtain rfl : k = n' := Except.ok.inj (hkmade.symm.trans hmade')
  exact ⟨k, hk, halike⟩

theorem planBody_perm (hplanned : f.Planned start loops p) (hplanned' : f'.Planned start loops' p')
    (loopId : String) : ((p.body loopId).filter (· ∈ ids)).Perm (p'.body loopId) := by
  have hperm := h.map_id_perm hplanned.bodies hplanned'.bodies
  by_cases hloop : loopId ∈ loops.map (·.id)
  · obtain ⟨l', hl', rfl⟩ := List.mem_map.mp (hperm.mem_iff.mp hloop)
    obtain ⟨l, hl, hid⟩ := List.mem_map.mp hloop
    rw [hplanned'.body_id h.wellFormed hl', ← hid, hplanned.body_id h.whole hl]
    exact h.body_perm hplanned.bodies hplanned'.bodies hl hl' hid.symm
  · have hloop' : loopId ∉ loops'.map (·.id) := mt hperm.mem_iff.mpr hloop
    rw [Plan.body, Plan.body, hplanned.loop?_eq_none hloop, hplanned'.loop?_eq_none hloop']
    exact .refl _

end ExcerptFor

end TypedFlow

namespace Registry

variable {r : Registry} {flow : Flow}

theorem typeFlow_eq_ok {f : TypedFlow} (hedges : f.edges = flow.edges)
    (hnodes : TypedFlow.typeNodes r [] flow.nodes = .ok f.nodes)
    (hchecked : f.checkEdges [] f.edges = .ok ()) : r.typeFlow flow = .ok f := by
  obtain ⟨nodes, edges⟩ := f
  obtain rfl : edges = flow.edges := hedges
  dsimp only at hnodes hchecked
  simp only [typeFlow, hnodes, ok_bind, hchecked, mapError_ok]
  rfl

end Registry

end FlowGraph
