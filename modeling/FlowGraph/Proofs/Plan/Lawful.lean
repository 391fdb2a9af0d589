import FlowGraph.Proofs.Plan.Regions

/-!
What can be relied on in the plan of an accepted flow, said of the plan alone. The laws name its nodes,
their scopes and bindings, its loops and its regions, and not how any of them was found; all that is
proved about runs rests on them.
-/

namespace FlowGraph

/-- The laws of the plan of an accepted flow. -/
structure Plan.Lawful (p : Plan) : Prop where
  nodup : (p.nodes.map (·.id)).Nodup
  /-- The loops of the plan are the nodes that are loops. -/
  loops_eq : p.loops.map (·.id) = (p.nodes.filter (·.kind.loopHandles?.isSome)).map (·.id)
  /-- A node is a direct member of the last loop in its scope. -/
  mem_region : ∀ region id,
    id ∈ p.region region ↔ ∃ n ∈ p.nodes, n.id = id ∧ n.scope.getLast? = region
  region_nodup : ∀ region, (p.region region).Nodup
  scope_nodup : ∀ n ∈ p.nodes, n.scope.Nodup
  not_mem_scope_self : ∀ n ∈ p.nodes, n.id ∉ n.scope
  /-- The scope of a loop is what stands before it in the scopes of the nodes inside. -/
  scope_getElem : ∀ n ∈ p.nodes, ∀ k (hk : k < n.scope.length),
    ∃ m ∈ p.nodes, m.id = n.scope[k] ∧ m.scope = n.scope.take k
  mem_body : ∀ n ∈ p.nodes, ∀ loopId, n.id ∈ p.body loopId ↔ loopId ∈ n.scope
  /-- Forward bindings lead from a scope into a scope that it begins. -/
  scope_of_binding : ∀ n ∈ p.nodes, ∀ b ∈ n.forwardBindings, ∀ m ∈ p.nodes, m.id = b.source →
    m.scope <+: n.scope
  /-- Inside a loop only its `body` output is bound. -/
  handle_of_binding : ∀ n ∈ p.nodes, ∀ b ∈ n.forwardBindings, ∀ m ∈ p.nodes, m.id = b.source →
    m.id ∈ n.scope → ∀ handles, m.kind.loopHandles? = some handles → b.sourceHandle = handles.body
  /-- A source comes before what stands for the bound node in the source's region. -/
  order_of_binding : ∀ n ∈ p.nodes, ∀ b ∈ n.forwardBindings, ∀ m ∈ p.nodes, m.id = b.source →
    m.id ≠ n.scope[m.scope.length]?.getD n.id →
    [m.id, n.scope[m.scope.length]?.getD n.id].Sublist (p.region m.scope.getLast?)

namespace Plan.Lawful

variable {p : Plan}

theorem eq_of_id_eq (h : p.Lawful) {m n : PlannedNode} (hm : m ∈ p.nodes) (hn : n ∈ p.nodes)
    (hid : m.id = n.id) : m = n :=
  List.inj_on_of_nodup_map h.nodup hm hn hid

theorem mem_loops_of_mem_scope (h : p.Lawful) {n : PlannedNode} (hn : n ∈ p.nodes)
    {loopId : String} (hmem : loopId ∈ n.scope) : ∃ l ∈ p.loops, l.id = loopId := by
  have hbody := (h.mem_body n hn loopId).mpr hmem
  rw [Plan.body] at hbody
  split at hbody
  next l hl =>
    exact ⟨l, List.mem_of_find?_eq_some hl, by simpa using List.find?_some hl⟩
  · exact absurd hbody List.not_mem_nil

theorem nodup_loops (h : p.Lawful) : (p.loops.map (·.id)).Nodup := by
  rw [h.loops_eq]
  exact h.nodup.sublist (List.filter_sublist.map _)

/-- No node is a direct member of two regions. -/
theorem region_eq_of_mem (h : p.Lawful) {region region' : Option String} {id : String}
    (hmem : id ∈ p.region region) (hmem' : id ∈ p.region region') : region = region' := by
  obtain ⟨n, hn, hid, rfl⟩ := (h.mem_region region id).mp hmem
  obtain ⟨n', hn', hid', rfl⟩ := (h.mem_region region' id).mp hmem'
  rw [h.eq_of_id_eq hn hn' (hid.trans hid'.symm)]

theorem find?_eq_some (h : p.Lawful) {n : PlannedNode} (hn : n ∈ p.nodes) :
    p.find? n.id = some n :=
  find?_id_eq_some h.nodup hn

theorem scope_id (h : p.Lawful) {n : PlannedNode} (hn : n ∈ p.nodes) : p.scope n.id = n.scope := by
  rw [Plan.scope, h.find?_eq_some hn]

theorem mem_regionNodes (h : p.Lawful) {region : Option String} {n : PlannedNode} :
    n ∈ p.regionNodes region ↔ n ∈ p.nodes ∧ n.scope.getLast? = region := by
  rw [Plan.regionNodes, List.mem_filterMap]
  constructor
  · rintro ⟨id, hid, hfind⟩
    obtain ⟨m, hm, rfl, hlast⟩ := (h.mem_region region id).mp hid
    obtain rfl := Option.some.inj ((h.find?_eq_some hm).symm.trans hfind)
    exact ⟨hm, hlast⟩
  · rintro ⟨hn, hlast⟩
    exact ⟨n.id, (h.mem_region region n.id).mpr ⟨n, hn, rfl, hlast⟩, h.find?_eq_some hn⟩

theorem map_id_regionNodes (h : p.Lawful) (region : Option String) :
    (p.regionNodes region).map (·.id) = p.region region := by
  have hfind : ∀ id ∈ p.region region, (p.find? id).map (·.id) = some id := by
    intro id hid
    obtain ⟨n, hn, rfl, -⟩ := (h.mem_region region id).mp hid
    rw [h.find?_eq_some hn]
    rfl
  rw [Plan.regionNodes, List.map_filterMap]
  exact (List.filterMap_congr hfind).trans List.filterMap_some

theorem exists_of_mem_scope (h : p.Lawful) {id loopId : String} (hmem : loopId ∈ p.scope id) :
    ∃ n ∈ p.nodes, n.id = id ∧ loopId ∈ n.scope := by
  cases hfind : p.find? id with
  | none => simp [Plan.scope, hfind] at hmem
  | some n =>
      obtain rfl : n.id = id := by simpa using List.find?_some hfind
      have hn := List.mem_of_find?_eq_some hfind
      exact ⟨n, hn, rfl, h.scope_id hn ▸ hmem⟩

theorem not_mem_scope (h : p.Lawful) (id : String) : id ∉ p.scope id := by
  intro hmem
  obtain ⟨n, hn, rfl, hscope⟩ := h.exists_of_mem_scope hmem
  exact h.not_mem_scope_self n hn hscope

theorem nodup_scope (h : p.Lawful) (id : String) : (p.scope id).Nodup := by
  cases hscope : p.scope id with
  | nil => exact List.nodup_nil
  | cons loopId loopIds =>
      obtain ⟨n, hn, rfl, -⟩ := h.exists_of_mem_scope (hscope ▸ List.mem_cons_self)
      rw [← hscope, h.scope_id hn]
      exact h.scope_nodup n hn

/-- The scope of a node is that of the nearest loop around it, and this loop. -/
theorem exists_scope_eq_concat (h : p.Lawful) {n : PlannedNode} (hn : n ∈ p.nodes) {loopId : String}
    (hlast : n.scope.getLast? = some loopId) :
    ∃ l ∈ p.nodes, l.id = loopId ∧ n.scope = l.scope ++ [loopId] := by
  obtain ⟨init, hinit⟩ := List.getLast?_eq_some_iff.mp hlast
  have hk : init.length < n.scope.length := by rw [hinit]; simp
  obtain ⟨l, hl, hid, hscope⟩ := h.scope_getElem n hn init.length hk
  have hget : n.scope[init.length] = loopId := by simp [hinit]
  refine ⟨l, hl, hid.trans hget, ?_⟩
  rw [hscope, hinit, List.take_left]

theorem scope_eq_of_getLast?_eq (h : p.Lawful) {m n : PlannedNode} (hm : m ∈ p.nodes)
    (hn : n ∈ p.nodes) (hlast : m.scope.getLast? = n.scope.getLast?) : m.scope = n.scope := by
  cases hregion : n.scope.getLast? with
  | none =>
      rw [hregion] at hlast
      rw [List.getLast?_eq_none_iff.mp hlast, List.getLast?_eq_none_iff.mp hregion]
  | some loopId =>
      rw [hregion] at hlast
      obtain ⟨l, hl, hid, hscope⟩ := h.exists_scope_eq_concat hm hlast
      obtain ⟨l', hl', hid', hscope'⟩ := h.exists_scope_eq_concat hn hregion
      rw [hscope, hscope', h.eq_of_id_eq hl hl' (hid.trans hid'.symm)]

theorem mem_scope_of_mem_region (h : p.Lawful) {loopId id : String}
    (hmem : id ∈ p.region (some loopId)) : loopId ∈ p.scope id := by
  obtain ⟨n, hn, rfl, hlast⟩ := (h.mem_region _ _).mp hmem
  rw [h.scope_id hn]
  exact List.mem_of_getLast? hlast

/-- What is inside of a direct member of a region is no direct member. -/
theorem not_mem_region_of_mem_scope (h : p.Lawful) {n : PlannedNode} (hn : n ∈ p.nodes)
    {id : String} (hmem : n.id ∈ p.scope id) : id ∉ p.region n.scope.getLast? := by
  intro hid
  obtain ⟨m, hm, rfl, hlast⟩ := (h.mem_region _ _).mp hid
  rw [h.scope_id hm, h.scope_eq_of_getLast?_eq hm hn hlast] at hmem
  exact h.not_mem_scope_self n hn hmem

/-- What lies inside a loop lies inside the loops around it. -/
theorem mem_scope_trans (h : p.Lawful) {m n : PlannedNode} (hm : m ∈ p.nodes) (hn : n ∈ p.nodes)
    (hmem : m.id ∈ n.scope) : m.scope <+: n.scope := by
  obtain ⟨k, hk, hid⟩ := List.mem_iff_getElem.mp hmem
  obtain ⟨m', hm', hid', hscope⟩ := h.scope_getElem n hn k hk
  obtain rfl := h.eq_of_id_eq hm hm' (hid.symm.trans hid'.symm)
  rw [hscope]
  exact List.take_prefix k n.scope

theorem mem_scope_of_mem_scope (h : p.Lawful) {a b id : String} (hab : a ∈ p.scope b)
    (hb : b ∈ p.scope id) : a ∈ p.scope id := by
  obtain ⟨m, hm, rfl, ham⟩ := h.exists_of_mem_scope hab
  obtain ⟨n, hn, rfl, hmn⟩ := h.exists_of_mem_scope hb
  rw [h.scope_id hn]
  exact (h.mem_scope_trans hm hn hmn).subset ham

/-- What something lies inside of is a loop. -/
theorem exists_handles_of_mem_scope (h : p.Lawful) {n : PlannedNode} (hn : n ∈ p.nodes)
    {id : String} (hmem : n.id ∈ p.scope id) : ∃ handles, n.kind.loopHandles? = some handles := by
  obtain ⟨m, hm, -, hscope⟩ := h.exists_of_mem_scope hmem
  obtain ⟨l, hl, hid⟩ := h.mem_loops_of_mem_scope hm hscope
  have hloop := List.mem_map_of_mem (f := PlannedLoop.id) hl
  rw [h.loops_eq] at hloop
  obtain ⟨k, hk, hkid⟩ := List.mem_map.mp hloop
  obtain ⟨hk, hkind⟩ := List.mem_filter.mp hk
  obtain rfl := h.eq_of_id_eq hk hn (hkid.trans hid)
  exact Option.isSome_iff_exists.mp hkind

theorem length_scope_lt (h : p.Lawful) {n : PlannedNode} (hn : n ∈ p.nodes) {id : String}
    (hmem : n.id ∈ p.scope id) : n.scope.length < (p.scope id).length := by
  obtain ⟨m, hm, rfl, hscope⟩ := h.exists_of_mem_scope hmem
  have hprefix := h.mem_scope_trans hn hm hscope
  rw [h.scope_id hm]
  refine Nat.lt_of_le_of_ne hprefix.length_le fun heq => ?_
  have hsame := hprefix.eq_of_length heq
  exact h.not_mem_scope_self n hn (hsame ▸ hscope)

/-- Two nodes with the same scope have nothing inside of both of them. -/
theorem eq_of_mem_scope (h : p.Lawful) {m n k : PlannedNode} (hm : m ∈ p.nodes) (hn : n ∈ p.nodes)
    (hk : k ∈ p.nodes) (hscope : m.scope = n.scope) (hmk : m.id ∈ k.scope) (hnk : n.id ∈ k.scope) :
    m = n := by
  obtain ⟨i, hi, hid⟩ := List.mem_iff_getElem.mp hmk
  obtain ⟨j, hj, hjd⟩ := List.mem_iff_getElem.mp hnk
  obtain ⟨m', hm', hid', hscopem⟩ := h.scope_getElem k hk i hi
  obtain ⟨n', hn', hjd', hscopen⟩ := h.scope_getElem k hk j hj
  obtain rfl := h.eq_of_id_eq hm hm' (hid.symm.trans hid'.symm)
  obtain rfl := h.eq_of_id_eq hn hn' (hjd.symm.trans hjd'.symm)
  have hlength : (k.scope.take i).length = (k.scope.take j).length := by
    rw [← hscopem, ← hscopen, hscope]
  have hij : i = j := by
    simp only [List.length_take] at hlength
    omega
  subst hij
  exact h.eq_of_id_eq hm hn (hid.symm.trans hjd)

end Plan.Lawful

namespace TypedFlow

variable {f : TypedFlow}

/-- The bindings of a node are the edges into its inputs, and a required input has one. -/
theorem bindInputs_spec {nodeId : String} {inputs : List Handle} {bindings : List Binding}
    (h : f.bindInputs nodeId inputs = .ok bindings) :
    (∀ b ∈ bindings, ∃ input ∈ inputs, ∃ e ∈ f.edges, e.target = nodeId ∧
      e.targetHandle = input.id ∧ b = f.bind input e) ∧
    ∀ input ∈ inputs, input.cardinality = .required → ∃ e ∈ f.edges, e.target = nodeId ∧
      e.targetHandle = input.id ∧ f.bind input e ∈ bindings := by
  induction inputs generalizing bindings with
  | nil =>
      obtain rfl : [] = bindings := by simpa [bindInputs] using h
      exact ⟨fun b hb => absurd hb List.not_mem_nil, fun input hinput => absurd hinput List.not_mem_nil⟩
  | cons input inputs ih =>
      rw [bindInputs] at h
      obtain ⟨_, hcount, h⟩ := bind_eq_ok h
      obtain ⟨rest, hrest, h⟩ := bind_eq_ok h
      obtain rfl := Except.ok.inj h
      obtain ⟨hedges, hrequired⟩ := ih hrest
      have hmem : ∀ e, e ∈ (f.incoming nodeId).filter (·.targetHandle = input.id) →
          e ∈ f.edges ∧ e.target = nodeId ∧ e.targetHandle = input.id := by
        simp only [incoming, List.mem_filter, decide_eq_true_eq, and_assoc]
        exact fun e he => he
      constructor
      · intro b hb
        rcases List.mem_append.mp hb with hb | hb
        · obtain ⟨e, he, rfl⟩ := List.mem_map.mp hb
          obtain ⟨he, htarget, hhandle⟩ := hmem e he
          exact ⟨input, List.mem_cons_self, e, he, htarget, hhandle, rfl⟩
        · obtain ⟨input', hinput', hb⟩ := hedges b hb
          exact ⟨input', List.mem_cons_of_mem _ hinput', hb⟩
      · intro input' hinput' hcardinality
        rcases List.mem_cons.mp hinput' with rfl | hinput'
        · -- The check has seen that there is an edge.
          have hne : (f.incoming nodeId).filter (·.targetHandle = input'.id) ≠ [] := by
            intro hnil
            simp [checkCount, hcardinality, hnil] at hcount
          obtain ⟨e, he⟩ := List.exists_mem_of_ne_nil _ hne
          obtain ⟨hmem, htarget, hhandle⟩ := hmem e he
          exact ⟨e, hmem, htarget, hhandle, List.mem_append_left _ (List.mem_map_of_mem he)⟩
        · obtain ⟨e, he, htarget, hhandle, hb⟩ := hrequired input' hinput' hcardinality
          exact ⟨e, he, htarget, hhandle, List.mem_append_right _ hb⟩

/-- What a planned node takes over from the node that it was made from. -/
structure MadeFrom (f : TypedFlow) (loops : List LoopBody) (m : TypedNode) (n : PlannedNode) :
    Prop where
  id_eq : n.id = m.id
  typeName_eq : n.typeName = m.type.name
  kind_eq : n.kind = m.kind
  data_eq : n.data = m.data
  handles_eq : n.handles = m.handles
  scope_eq : n.scope = scopeOf loops m.id
  bound : f.bindInputs m.id m.handles.inputs = .ok n.bindings
  created : m.type.create m.data = .ok n.executor

theorem MadeFrom.exists_edge {loops : List LoopBody} {m : TypedNode} {n : PlannedNode}
    (h : f.MadeFrom loops m n) {b : Binding} (hb : b ∈ n.bindings) :
    ∃ e ∈ f.edges, e.target = m.id ∧ b.source = e.source ∧
      b.sourceHandle = handleKey e.sourceHandle ∧ b.backEdge = f.isBackEdge e := by
  obtain ⟨input, -, e, he, htarget, -, rfl⟩ := (bindInputs_spec h.bound).1 b hb
  exact ⟨e, he, htarget, rfl, rfl, rfl⟩

theorem madeFrom_of_planNode_eq_ok {loops : List LoopBody} {m : TypedNode} {n : PlannedNode}
    (h : f.planNode loops m = .ok n) : f.MadeFrom loops m n := by
  rw [planNode] at h
  split at h
  · exact absurd h (by simp)
  next bindings hbindings =>
    split at h
    · exact absurd h (by simp)
    next executor hexecutor =>
      obtain rfl := Except.ok.inj h
      exact ⟨rfl, rfl, rfl, rfl, rfl, rfl, hbindings, hexecutor⟩

namespace Planned

variable {start : String} {loops : List LoopBody} {p : Plan}

theorem exists_madeFrom (h : f.Planned start loops p) {n : PlannedNode} (hn : n ∈ p.nodes) :
    ∃ m ∈ f.members start, f.MadeFrom loops m n := by
  obtain ⟨m, hm, hplanned⟩ := exists_of_mem_forall₂ h.nodes hn
  exact ⟨m, hm, madeFrom_of_planNode_eq_ok hplanned⟩

theorem map_id_nodes (h : f.Planned start loops p) :
    p.nodes.map (·.id) = (f.members start).map (·.id) := by
  have hids : List.Forall₂ (· = ·) (p.nodes.map (·.id)) ((f.members start).map (·.id)) := by
    rw [List.forall₂_map_left_iff, List.forall₂_map_right_iff]
    exact h.nodes.flip.imp fun _ _ hn => (madeFrom_of_planNode_eq_ok hn).id_eq
  rwa [List.forall₂_eq_eq_eq] at hids

theorem scope_eq (h : f.Planned start loops p) {n : PlannedNode} (hn : n ∈ p.nodes) :
    n.scope = scopeOf loops n.id := by
  obtain ⟨m, -, hmade⟩ := h.exists_madeFrom hn
  rw [hmade.scope_eq, hmade.id_eq]

theorem id_mem_members (h : f.Planned start loops p) {n : PlannedNode} (hn : n ∈ p.nodes) :
    n.id ∈ (f.members start).map (·.id) :=
  h.map_id_nodes ▸ List.mem_map_of_mem hn

/-- Every region of the plan lists its direct members, each once, and follows its graph. -/
theorem region_spec (h : f.Planned start loops p) (hf : f.WellFormed) (region : Option String) :
    (p.region region).Perm (regionMembers ((f.members start).map (·.id)) loops region) ∧
      ∀ v w, (v, w) ∈ (f.regionGraph ((f.members start).map (·.id)) loops region).arcs →
        [v, w].Sublist (p.region region) := by
  have hnodup := nodup_members hf start
  cases region with
  | none => exact regionOrder_spec hnodup h.order
  | some loopId =>
      by_cases hloop : loopId ∈ loops.map (·.id)
      · obtain ⟨l, hl, rfl⟩ := List.mem_map.mp hloop
        obtain ⟨pl, hfind, -, horder⟩ := h.exists_loop?_eq_some hf hl
        have hregion : p.region (some l.id) = pl.order := by simp only [Plan.region, hfind]
        rw [hregion]
        exact regionOrder_spec hnodup horder
      · have hregion : p.region (some loopId) = [] := by
          simp only [Plan.region, h.loop?_eq_none hloop]
        have hmembers : regionMembers ((f.members start).map (·.id)) loops (some loopId) = [] := by
          refine List.eq_nil_iff_forall_not_mem.mpr fun id hid => hloop ?_
          obtain ⟨l, hl, rfl, -⟩ :=
            mem_scopeOf.mp (List.mem_of_getLast? (mem_regionMembers.mp hid).2)
          exact List.mem_map_of_mem hl
        rw [hregion, hmembers]
        refine ⟨.refl _, fun v w hvw => ?_⟩
        have hv : v ∈ regionMembers ((f.members start).map (·.id)) loops (some loopId) :=
          (proper_regionGraph f _ loops (some loopId)).tail_mem v w hvw
        rw [hmembers] at hv
        exact absurd hv List.not_mem_nil

theorem getD_mem_regionMembers (h : f.Planned start loops p) (hf : f.WellFormed) {id : String}
    (hid : id ∈ (f.members start).map (·.id)) (k : Nat) :
    (scopeOf loops id)[k]?.getD id ∈ regionMembers ((f.members start).map (·.id)) loops
      ((scopeOf loops id).take k).getLast? :=
  (h.nested hf).getD_mem_regionMembers (fun _ => h.mem_members_of_mem) hid k

/-- No forward edge between members gets lost: in every region around its source, what stands for its
source comes before what stands for its target, unless the same node stands for both. -/
theorem sublist_region_of_edge (h : f.Planned start loops p) (hf : f.WellFormed) {e : FlowEdge}
    (he : e ∈ f.edges) (hforward : f.isBackEdge e = false)
    (hsource : e.source ∈ (f.members start).map (·.id))
    (htarget : e.target ∈ (f.members start).map (·.id)) {k : Nat}
    (hk : k ≤ (scopeOf loops e.source).length)
    (hne : (scopeOf loops e.source)[k]?.getD e.source ≠
      (scopeOf loops e.target)[k]?.getD e.target) :
    [(scopeOf loops e.source)[k]?.getD e.source,
      (scopeOf loops e.target)[k]?.getD e.target].Sublist
        (p.region ((scopeOf loops e.source).take k).getLast?) := by
  have hnested := h.nested hf
  have hprefix : scopeOf loops e.source <+: scopeOf loops e.target :=
    (h.prefix_around_of_edge hf he hforward).map LoopBody.id
  have htake : (scopeOf loops e.target).take k = (scopeOf loops e.source).take k := by
    obtain ⟨rest, hrest⟩ := hprefix
    rw [← hrest, List.take_append_of_le_length hk]
  refine (h.region_spec hf _).2 _ _ (List.mem_filterMap.mpr ⟨e, List.mem_filter.mpr
    ⟨List.mem_flatMap.mpr ⟨e.source, hsource, List.mem_filter.mpr
      ⟨List.mem_filter.mpr ⟨he, by simp⟩, by simp [hforward]⟩⟩, by simpa using htarget⟩, ?_⟩)
  have hrepS := representative_eq (hnested.nodup_scopeOf e.source) hk e.source
  have hrepT := representative_eq (hnested.nodup_scopeOf e.target)
    (hk.trans hprefix.length_le) e.target
  rw [htake] at hrepT
  have hmemS := h.getD_mem_regionMembers hf hsource k
  have hmemT := h.getD_mem_regionMembers hf htarget k
  rw [htake] at hmemT
  simp only [regionArc, hrepS, hrepT, Option.bind_eq_bind, Option.bind_some]
  rw [if_pos ⟨hne, hmemS, hmemT⟩]

theorem exists_node (h : f.Planned start loops p) {id : String}
    (hid : id ∈ (f.members start).map (·.id)) : ∃ n ∈ p.nodes, n.id = id := by
  rw [← h.map_id_nodes] at hid
  exact List.mem_map.mp hid

theorem mem_region_iff (h : f.Planned start loops p) (hf : f.WellFormed) {region : Option String}
    {id : String} :
    id ∈ p.region region ↔ ∃ n ∈ p.nodes, n.id = id ∧ n.scope.getLast? = region := by
  rw [(h.region_spec hf region).1.mem_iff, mem_regionMembers, ← h.map_id_nodes, List.mem_map]
  constructor
  · rintro ⟨⟨n, hn, rfl⟩, hlast⟩
    exact ⟨n, hn, rfl, by rwa [h.scope_eq hn]⟩
  · rintro ⟨n, hn, rfl, hlast⟩
    exact ⟨⟨n, hn, rfl⟩, by rwa [h.scope_eq hn] at hlast⟩

theorem mem_body_iff (h : f.Planned start loops p) (hf : f.WellFormed) {id loopId : String} :
    id ∈ p.body loopId ↔ loopId ∈ scopeOf loops id := by
  rw [mem_scopeOf, Plan.body]
  by_cases hloop : loopId ∈ loops.map (·.id)
  · obtain ⟨l, hl, rfl⟩ := List.mem_map.mp hloop
    obtain ⟨pl, hfind, hbody, -⟩ := h.exists_loop?_eq_some hf hl
    simp only [hfind, hbody]
    refine ⟨fun hid => ⟨l, hl, rfl, hid⟩, ?_⟩
    rintro ⟨l', hl', hid, hmem⟩
    exact (h.nested hf).eq_of_id_eq hl' hl hid ▸ hmem
  · simp only [h.loop?_eq_none hloop, List.not_mem_nil, false_iff]
    rintro ⟨l, hl, rfl, -⟩
    exact hloop (List.mem_map_of_mem hl)

theorem exists_edge_of_forward (h : f.Planned start loops p) {n : PlannedNode} (hn : n ∈ p.nodes)
    {b : Binding} (hb : b ∈ n.forwardBindings) : ∃ e ∈ f.edges, f.isBackEdge e = false ∧
      e.source = b.source ∧ e.target = n.id ∧ b.sourceHandle = handleKey e.sourceHandle := by
  obtain ⟨m, -, hmade⟩ := h.exists_madeFrom hn
  obtain ⟨hb, hforward⟩ := List.mem_filter.mp hb
  obtain ⟨e, he, htarget, hsource, hhandle, hback⟩ := hmade.exists_edge hb
  exact ⟨e, he, by simpa [hback] using hforward, hsource.symm, htarget.trans hmade.id_eq.symm, hhandle⟩

/-- An edge from a loop into its own body leaves the `body` output. -/
theorem handle_of_edge (h : f.Planned start loops p) (hf : f.WellFormed) {m : PlannedNode}
    (hm : m ∈ p.nodes) {handles : LoopHandles} (hkind : m.kind.loopHandles? = some handles)
    {e : FlowEdge} (he : e ∈ f.edges) (hsource : e.source = m.id)
    (hmem : m.id ∈ scopeOf loops e.target) : e.sourceHandle = some handles.body := by
  obtain ⟨l, hl, hid, htarget⟩ := mem_scopeOf.mp hmem
  obtain ⟨t, ht, handles', hbody⟩ := h.exists_isBody hl
  obtain ⟨t', ht', hmade⟩ := h.exists_madeFrom hm
  obtain rfl : t = t' := List.inj_on_of_nodup_map (nodup_members hf start) ht ht'
    (by rw [← hbody.id_eq, hid, hmade.id_eq])
  have hhandles : handles' = handles := by
    have := hbody.kind_eq
    rw [← hmade.kind_eq, hkind] at this
    exact (Option.some.inj this).symm
  rw [← hhandles]
  exact hbody.no_stray e (List.mem_filter.mpr ⟨he, by simp [hsource, hmade.id_eq]⟩) htarget

theorem map_id_loops_eq (h : f.Planned start loops p) :
    p.loops.map (·.id) = (p.nodes.filter (·.kind.loopHandles?.isSome)).map (·.id) := by
  rw [h.map_id_loops, (loopBodies_spec h.bodies).1]
  have hnodes := h.nodes
  generalize f.members start = members at hnodes ⊢
  generalize p.nodes = nodes at hnodes ⊢
  induction hnodes with
  | nil => rfl
  | @cons m n ms ns hn _ ih =>
      have hmade := madeFrom_of_planNode_eq_ok hn
      simp only [List.filter_cons, hmade.kind_eq]
      split_ifs
      · rw [List.map_cons, List.map_cons, hmade.id_eq, ih]
      · exact ih

theorem lawful (h : f.Planned start loops p) (hf : f.WellFormed) : p.Lawful := by
  have hnested := h.nested hf
  refine
    { nodup := h.map_id_nodes ▸ nodup_members hf start
      loops_eq := h.map_id_loops_eq
      mem_region := fun region id => h.mem_region_iff hf
      region_nodup := fun region =>
        ((h.region_spec hf region).1.nodup_iff).mpr ((nodup_members hf start).filter _)
      scope_nodup := fun n hn => h.scope_eq hn ▸ hnested.nodup_scopeOf n.id
      not_mem_scope_self := fun n hn => h.scope_eq hn ▸ hnested.not_mem_scopeOf_self n.id
      scope_getElem := fun n hn k hk => ?_
      mem_body := fun n hn loopId => h.scope_eq hn ▸ h.mem_body_iff hf
      scope_of_binding := fun n hn b hb m hm hmb => ?_
      handle_of_binding := fun n hn b hb m hm hmb hmem handles hkind => ?_
      order_of_binding := fun n hn b hb m hm hmb hne => ?_ }
  · have hscope := h.scope_eq hn
    rw [List.getElem_of_eq hscope hk]
    have hk' : k < (scopeOf loops n.id).length := hscope ▸ hk
    obtain ⟨l, hl, hid, -⟩ := mem_scopeOf.mp (List.getElem_mem hk')
    obtain ⟨m, hm, hmid⟩ := h.exists_node (hid ▸ h.mem_members_of_mem hl)
    refine ⟨m, hm, hmid, ?_⟩
    rw [h.scope_eq hm, hmid, hnested.scopeOf_getElem n.id hk', hscope]
  · obtain ⟨e, he, hforward, hsource, htarget, -⟩ := h.exists_edge_of_forward hn hb
    rw [h.scope_eq hn, h.scope_eq hm, hmb, ← hsource, ← htarget]
    exact (h.prefix_around_of_edge hf he hforward).map LoopBody.id
  · obtain ⟨e, he, -, hsource, htarget, hhandle⟩ := h.exists_edge_of_forward hn hb
    have hedge : e.sourceHandle = some handles.body :=
      h.handle_of_edge hf hm hkind he (hsource.trans hmb.symm) (by rwa [htarget, ← h.scope_eq hn])
    rw [hhandle, hedge]
    rfl
  · obtain ⟨e, he, hforward, hsource, htarget, -⟩ := h.exists_edge_of_forward hn hb
    have hsm : e.source = m.id := hsource.trans hmb.symm
    have hsublist := h.sublist_region_of_edge hf he hforward (hsm ▸ h.id_mem_members hm)
      (htarget ▸ h.id_mem_members hn) (k := (scopeOf loops e.source).length) (Nat.le_refl _)
    simp only [hsm, htarget, ← h.scope_eq hm, ← h.scope_eq hn, List.getElem?_length,
      Option.getD_none, List.take_length] at hsublist
    exact hsublist hne

end Planned

end TypedFlow

/-- The plan of an accepted flow is lawful. -/
theorem Registry.lawful_of_resolve_eq_ok {r : Registry} {flow : Flow} {start : Option String}
    {p : Plan} (h : r.resolve flow start = .ok p) : p.Lawful := by
  obtain ⟨f, id, loops, -, hf, hplanned⟩ := r.exists_planned_of_resolve_eq_ok h
  exact hplanned.lawful hf

end FlowGraph
