import FlowGraph.Proofs.Plan.Loops

/-!
The order in which the sets of a flow are gone through. It decides which error is found where there are
several. But what passes the checks in one order passes them in every order, with the same loops around
every node; so an accepted flow has one plan, and is refused in no order.
-/

namespace FlowGraph

namespace TypedFlow

variable {f : TypedFlow} {nodes nodes' : List TypedNode} {loops loops' : List LoopBody}

/-- The bodies of the loops can be collected in every order if they can in one. -/
theorem exists_loopBodies_of_perm (hperm : nodes.Perm nodes') (h : f.loopBodies nodes = .ok loops) :
    ∃ loops', f.loopBodies nodes' = .ok loops' ∧ loops.Perm loops' := by
  have hbodies := exists_loopBodies_eq_ok_iff.mp ⟨loops, h⟩
  obtain ⟨loops', h'⟩ := exists_loopBodies_eq_ok_iff.mpr fun n hn => hbodies n (hperm.mem_iff.mpr hn)
  refine ⟨loops', h', ?_⟩
  rw [loops_eq_map h, loops_eq_map h']
  exact ((hperm.filter _).map _).map _

/-- Loops are put back into the order of the nodes by their ids. -/
theorem filterMap_find?_eq (hnodup : (nodes.map (·.id)).Nodup) (h : f.loopBodies nodes = .ok loops)
    (hperm : loops'.Perm loops) : nodes.filterMap (fun n => loops'.find? (·.id = n.id)) = loops := by
  obtain ⟨hids, hbodies⟩ := loopBodies_spec h
  have hloops : (loops.map (·.id)).Nodup := by
    rw [hids]
    exact hnodup.sublist (List.filter_sublist.map _)
  have hfind : ∀ n ∈ nodes, loops'.find? (·.id = n.id) =
      if n.kind.loopHandles?.isSome then some ⟨n.id, f.bodyOf n.id⟩ else none := by
    intro n hn
    have hsame : loops'.find? (·.id = n.id) = loops.find? (·.id = n.id) :=
      find?_id_eq_of_perm hperm ((hperm.map _).nodup_iff.mpr hloops) n.id
    rw [hsame]
    split_ifs with hkind
    · have hmem : ⟨n.id, f.bodyOf n.id⟩ ∈ loops := by
        rw [loops_eq_map h, List.map_map]
        exact List.mem_map.mpr ⟨n, List.mem_filter.mpr ⟨hn, hkind⟩, rfl⟩
      exact find?_id_eq_some hloops hmem
    · refine List.find?_eq_none.mpr fun l hl hid => hkind ?_
      obtain ⟨m, hm, handles, hbody⟩ := hbodies l hl
      obtain rfl : m = n :=
        List.inj_on_of_nodup_map hnodup hm hn (hbody.id_eq.symm.trans (of_decide_eq_true hid))
      exact hbody.kind_eq ▸ rfl
  rw [List.filterMap_congr hfind, loops_eq_map h, List.map_map]
  clear * -
  induction nodes with
  | nil => rfl
  | cons n nodes ih => cases hkind : n.kind.loopHandles?.isSome <;> simp [hkind, ih]

theorem Nested.perm (h : Nested loops) (hperm : loops.Perm loops') : Nested loops' where
  nodup := (hperm.map _).nodup_iff.mp h.nodup
  not_mem_self l hl := h.not_mem_self l (hperm.mem_iff.mpr hl)
  body_nodup l hl := h.body_nodup l (hperm.mem_iff.mpr hl)
  proper a ha b hb := h.proper a (hperm.mem_iff.mpr ha) b (hperm.mem_iff.mpr hb)

theorem Nested.scopeOf_eq_of_perm (h : Nested loops) (hperm : loops.Perm loops') (id : String) :
    scopeOf loops id = scopeOf loops' id := by
  refine h.scopeOf_eq_of_mem_iff (h.perm hperm) (fun loopId => ?_) fun l hl =>
    ⟨l, hperm.mem_iff.mpr hl, rfl, List.Subset.refl _⟩
  simp only [mem_scopeOf, hperm.mem_iff]

/-- Whether loops pass the checks of a flow that come after their bodies have been collected. -/
structure Checked (f : TypedFlow) (members : List TypedNode) (loops : List LoopBody) : Prop where
  nesting : checkNesting loops = .ok ()
  backEdges : f.checkBackEdges (members.map (·.id)) loops = .ok ()
  controls : checkLoopControls members loops = .ok ()

/-- Loops that pass the checks pass them in every order. -/
theorem Checked.perm (h : f.Checked nodes loops) (hnested : Nested loops) (hnodes : nodes.Perm nodes')
    (hloops : loops.Perm loops') : f.Checked nodes' loops' where
  nesting := checkNesting_eq_ok_iff.mpr (hnested.perm hloops).proper
  backEdges := by
    have hback := checkBackEdges_eq_ok_iff.mp h.backEdges
    refine checkBackEdges_eq_ok_iff.mpr fun l hl e he hb => ?_
    rw [← (hnodes.map _).mem_iff, ← hnested.scopeOf_eq_of_perm hloops]
    exact hback l (hloops.mem_iff.mpr hl) e he hb
  controls := by
    have hcontrols := checkLoopControls_eq_ok_iff.mp h.controls
    refine checkLoopControls_eq_ok_iff.mpr fun n hn hkind => ?_
    rw [← hnested.scopeOf_eq_of_perm hloops]
    exact hcontrols n (hnodes.mem_iff.mpr hn) hkind

variable (order : SetOrder) {start : String} {p : Plan}

/-- The order decides neither whether the loops nest properly nor what they are. -/
theorem nestedLoops_eq_ok_iff (hf : f.WellFormed) : f.nestedLoops order (f.members start) = .ok loops ↔
    f.loopBodies (f.members start) = .ok loops ∧ f.Checked (f.members start) loops := by
  have hnodup := nodup_members hf start
  have hmembers := order.members_perm (f.members start)
  rw [nestedLoops]
  constructor
  · intro h
    obtain ⟨found, hfound, h⟩ := bind_eq_ok h
    obtain ⟨_, hnesting, h⟩ := bind_eq_ok h
    obtain ⟨_, hback, h⟩ := bind_eq_ok h
    obtain ⟨_, hcontrols, h⟩ := bind_eq_ok h
    obtain ⟨listed, hlisted, hperm⟩ := exists_loopBodies_of_perm hmembers hfound
    have hloops := (order.loops_perm found).trans hperm
    obtain rfl : listed = loops := (filterMap_find?_eq hnodup hlisted hloops).symm.trans (Except.ok.inj h)
    have hproper := checkNesting_eq_ok_iff.mp hnesting
    have hnested : Nested listed := by
      refine nested_of_loopBodies_eq_ok hf hlisted (checkNesting_eq_ok_iff.mpr fun a ha b hb => ?_)
      exact hproper a (hloops.mem_iff.mpr ha) b (hloops.mem_iff.mpr hb)
    have hchecked : f.Checked (order.members (f.members start)) (order.loops found) :=
      ⟨hnesting, hback, hcontrols⟩
    exact ⟨hlisted, hchecked.perm (hnested.perm hloops.symm) hmembers hloops⟩
  · rintro ⟨hlisted, hchecked⟩
    obtain ⟨found, hfound, hperm⟩ := exists_loopBodies_of_perm hmembers.symm hlisted
    have hloops := hperm.trans (order.loops_perm found).symm
    have hnested := nested_of_loopBodies_eq_ok hf hlisted hchecked.nesting
    have hshuffled := hchecked.perm hnested hmembers.symm hloops
    simp only [hfound, ok_bind, hshuffled.nesting, hshuffled.backEdges, hshuffled.controls,
      filterMap_find?_eq hnodup hlisted hloops.symm]
    rfl

/-- What has passed all the checks is the plan, whatever the order in which they were made. -/
theorem plan_eq_ok_iff (hf : f.WellFormed) :
    f.plan order start = .ok p ↔ p.start = start ∧ ∃ loops, f.Planned start loops p := by
  rw [plan]
  constructor
  · intro h
    obtain ⟨loops, hloops, h⟩ := bind_eq_ok h
    obtain ⟨region, hregion, h⟩ := bind_eq_ok h
    obtain ⟨planned, hplanned, h⟩ := bind_eq_ok h
    obtain ⟨nodes, hnodes, h⟩ := bind_eq_ok h
    obtain rfl := Except.ok.inj h
    obtain ⟨hbodies, hchecked⟩ := (nestedLoops_eq_ok_iff order hf).mp (mapError_eq_ok hloops)
    exact ⟨rfl, loops, hbodies, hchecked.nesting, hchecked.backEdges, hchecked.controls,
      mapError_eq_ok hregion, mapError_eq_ok hplanned, mapM_eq_ok_iff.mp hnodes⟩
  · rintro ⟨rfl, loops, h⟩
    have hloops := (nestedLoops_eq_ok_iff order hf).mpr
      ⟨h.bodies, h.nesting, h.backEdges, h.controls⟩
    simp only [hloops, mapError_ok, ok_bind, h.order, h.loopOrders, mapM_eq_ok_iff.mpr h.nodes]
    rfl

end TypedFlow

namespace Registry

variable {r : Registry} {flow : Flow} {start : Option String} {p : Plan}

/-- An accepted flow: its typed form, the start that was found, and how the plan was made. -/
theorem exists_typed_of_resolveIn_eq_ok {order : TypedFlow.SetOrder}
    (h : r.resolveIn order flow start = .ok p) :
    ∃ (f : TypedFlow) (loops : List TypedFlow.LoopBody),
      r.typeFlow flow = .ok f ∧ f.findStart start = .ok p.start ∧ f.Planned p.start loops p := by
  obtain ⟨f, hf, h⟩ := bind_eq_ok h
  obtain ⟨id, hid, h⟩ := bind_eq_ok h
  obtain ⟨-, -, -, hwell⟩ := wellFormed_of_typeFlow_eq_ok hf
  obtain ⟨rfl, loops, hplanned⟩ := (TypedFlow.plan_eq_ok_iff order hwell).mp h
  exact ⟨f, loops, hf, mapError_eq_ok hid, hplanned⟩

theorem exists_typed_of_resolve_eq_ok (h : r.resolve flow start = .ok p) :
    ∃ (f : TypedFlow) (loops : List TypedFlow.LoopBody),
      r.typeFlow flow = .ok f ∧ f.findStart start = .ok p.start ∧ f.Planned p.start loops p :=
  exists_typed_of_resolveIn_eq_ok h

/-- An accepted flow: its typed form is well formed, and its plan is made from that. -/
theorem exists_planned_of_resolve_eq_ok (h : r.resolve flow start = .ok p) :
    ∃ (f : TypedFlow) (id : String) (loops : List TypedFlow.LoopBody),
      f.edges = flow.edges ∧ f.WellFormed ∧ f.Planned id loops p := by
  obtain ⟨f, loops, hf, -, hplanned⟩ := exists_typed_of_resolve_eq_ok h
  obtain ⟨hedges, -, -, hwell⟩ := wellFormed_of_typeFlow_eq_ok hf
  exact ⟨f, p.start, loops, hedges, hwell, hplanned⟩

theorem resolveIn_eq_ok (order : TypedFlow.SetOrder) {f : TypedFlow} {id : String}
    {loops : List TypedFlow.LoopBody} (hf : r.typeFlow flow = .ok f)
    (hfind : f.findStart start = .ok id) (hplanned : f.Planned id loops p) (hstart : p.start = id) :
    r.resolveIn order flow start = .ok p := by
  obtain ⟨-, -, -, hwell⟩ := wellFormed_of_typeFlow_eq_ok hf
  rw [resolveIn, hf, ok_bind, hfind, mapError_ok, ok_bind]
  exact (TypedFlow.plan_eq_ok_iff order hwell).mpr ⟨hstart, loops, hplanned⟩

theorem resolve_eq_ok {f : TypedFlow} {id : String} {loops : List TypedFlow.LoopBody}
    (hf : r.typeFlow flow = .ok f) (hfind : f.findStart start = .ok id)
    (hplanned : f.Planned id loops p) (hstart : p.start = id) : r.resolve flow start = .ok p :=
  resolveIn_eq_ok .listed hf hfind hplanned hstart

/-- A flow that is accepted in one order is accepted in every order, with the same plan. -/
theorem resolveIn_eq_ok_iff (order : TypedFlow.SetOrder) :
    r.resolveIn order flow start = .ok p ↔ r.resolve flow start = .ok p := by
  constructor <;> intro h <;>
  · obtain ⟨f, loops, hf, hfind, hplanned⟩ := exists_typed_of_resolveIn_eq_ok h
    exact resolveIn_eq_ok _ hf hfind hplanned rfl

end Registry

end FlowGraph
