import FlowGraph.Proofs.Graph.Reach
import FlowGraph.Proofs.Plan.Nesting

/-!
The loops of an accepted flow. Every member that is a loop has a body; the bodies nest properly and are
closed under forward edges, and no edge enters a body from another output of its loop. Therefore
scopes only grow along forward edges.
-/

namespace FlowGraph.TypedFlow

variable {f : TypedFlow}

/-- What was checked when the body of a loop was collected. -/
structure IsBody (f : TypedFlow) (n : TypedNode) (handles : LoopHandles) (l : LoopBody) : Prop where
  id_eq : l.id = n.id
  kind_eq : n.kind.loopHandles? = some handles
  body_eq : l.body = f.bodyOf n.id
  not_mem_self : n.id ∉ l.body
  no_stray : ∀ e ∈ f.outgoing n.id, e.target ∈ l.body → e.sourceHandle = some handles.body

theorem isBody_of_loopBody_eq_ok {n : TypedNode} {handles : LoopHandles} {l : LoopBody}
    (hkind : n.kind.loopHandles? = some handles) (h : f.loopBody n.id handles = .ok l) :
    f.IsBody n handles l := by
  simp only [loopBody] at h
  split_ifs at h with hself
  split at h
  · exact absurd h (by simp)
  next hstray =>
    obtain rfl := Except.ok.inj h
    refine ⟨rfl, hkind, rfl, hself, fun e he htarget => ?_⟩
    by_contra hne
    have := List.find?_eq_none.mp hstray e he
    simp only [decide_eq_true_eq, not_and] at this
    exact this hne htarget

/-- The loops are those among the nodes, in their order, each with its body. -/
theorem loopBodies_spec {nodes : List TypedNode} {loops : List LoopBody}
    (h : f.loopBodies nodes = .ok loops) :
    loops.map (·.id) = (nodes.filter (·.kind.loopHandles?.isSome)).map (·.id) ∧
      ∀ l ∈ loops, ∃ n ∈ nodes, ∃ handles, f.IsBody n handles l := by
  induction nodes generalizing loops with
  | nil =>
      obtain rfl : [] = loops := by simpa [loopBodies] using h
      exact ⟨rfl, by simp⟩
  | cons n nodes ih =>
      rw [loopBodies] at h
      split at h
      next hkind =>
        obtain ⟨hids, hbodies⟩ := ih h
        refine ⟨by simpa [hkind] using hids, fun l hl => ?_⟩
        obtain ⟨m, hm, hbody⟩ := hbodies l hl
        exact ⟨m, List.mem_cons_of_mem _ hm, hbody⟩
      next handles hkind =>
        obtain ⟨l, hl, h⟩ := bind_eq_ok h
        obtain ⟨rest, hrest, h⟩ := bind_eq_ok h
        obtain rfl := Except.ok.inj h
        obtain ⟨hids, hbodies⟩ := ih hrest
        have hbody := isBody_of_loopBody_eq_ok hkind hl
        refine ⟨by simpa [hkind, hbody.id_eq] using hids, fun l' hl' => ?_⟩
        rcases List.mem_cons.mp hl' with rfl | hl'
        · exact ⟨n, List.mem_cons_self, handles, hbody⟩
        · obtain ⟨m, hm, hbody⟩ := hbodies l' hl'
          exact ⟨m, List.mem_cons_of_mem _ hm, hbody⟩

theorem exists_loopBodies_eq_ok_iff {nodes : List TypedNode} :
    (∃ loops, f.loopBodies nodes = .ok loops) ↔ ∀ n ∈ nodes, ∀ handles,
      n.kind.loopHandles? = some handles → ∃ l, f.loopBody n.id handles = .ok l := by
  induction nodes with
  | nil => exact ⟨fun _ => by simp, fun _ => ⟨[], rfl⟩⟩
  | cons n nodes ih =>
      rw [List.forall_mem_cons, ← ih, loopBodies]
      cases hkind : n.kind.loopHandles? with
      | none => simp
      | some handles =>
          simp only [Option.some.injEq, forall_eq']
          constructor
          · rintro ⟨loops, h⟩
            obtain ⟨l, hl, h⟩ := bind_eq_ok h
            obtain ⟨rest, hrest, -⟩ := bind_eq_ok h
            exact ⟨⟨l, hl⟩, rest, hrest⟩
          · rintro ⟨⟨l, hl⟩, rest, hrest⟩
            exact ⟨l :: rest, by rw [hl, hrest]; rfl⟩

/-- Loops are determined by their ids. -/
theorem loops_eq_map {nodes : List TypedNode} {loops : List LoopBody}
    (hloops : f.loopBodies nodes = .ok loops) :
    loops = ((nodes.filter (·.kind.loopHandles?.isSome)).map (·.id)).map fun id =>
      ⟨id, f.bodyOf id⟩ := by
  obtain ⟨hids, hbodies⟩ := loopBodies_spec hloops
  rw [← hids, List.map_map]
  conv_lhs => rw [← List.map_id loops]
  refine List.map_congr_left fun l hl => ?_
  obtain ⟨n, -, handles, hbody⟩ := hbodies l hl
  obtain ⟨id, body⟩ := l
  exact congrArg (LoopBody.mk id) (hbody.body_eq.trans (congrArg f.bodyOf hbody.id_eq.symm))

theorem checkNesting_eq_ok_iff {loops : List LoopBody} : checkNesting loops = .ok () ↔
    ∀ a ∈ loops, ∀ b ∈ loops, b.id ≠ a.id → improper a b = false := by
  have hpair : ∀ a b, (a, b) ∈ loopPairs loops ↔ a ∈ loops ∧ b ∈ loops ∧ b.id ≠ a.id := by
    simp [loopPairs]
  rw [checkNesting]
  split
  next a b hfind =>
    obtain ⟨ha, hb, hne⟩ := (hpair a b).mp (List.mem_of_find?_eq_some hfind)
    refine iff_of_false (by simp) fun hall => ?_
    exact absurd (List.find?_some hfind) (by simp [hall a ha b hb hne])
  next hnone =>
    refine iff_of_true rfl fun a ha b hb hne => ?_
    simpa using List.find?_eq_none.mp hnone (a, b) ((hpair a b).mpr ⟨ha, hb, hne⟩)

theorem checkBackEdges_eq_ok_iff {members : List String} {loops : List LoopBody} :
    f.checkBackEdges members loops = .ok () ↔ ∀ l ∈ loops, ∀ e ∈ f.incoming l.id,
      f.isBackEdge e = true → e.source ∈ members ∧
        (scopeOf loops e.source).getLast? = some e.target := by
  simp only [checkBackEdges]
  split
  next e he =>
    refine iff_of_false (by simp) fun hall => ?_
    obtain ⟨l, hl, hmem⟩ := List.mem_flatMap.mp (List.mem_of_find?_eq_some he)
    obtain ⟨hmem, hback⟩ := List.mem_filter.mp hmem
    have hbad := List.find?_some he
    simp [hall l hl e hmem hback] at hbad
  next hnone =>
    refine iff_of_true rfl fun l hl e he hback => ?_
    have hgood := List.find?_eq_none.mp hnone e
      (List.mem_flatMap.mpr ⟨l, hl, List.mem_filter.mpr ⟨he, hback⟩⟩)
    simpa using hgood

theorem checkLoopControls_eq_ok_iff {members : List TypedNode} {loops : List LoopBody} :
    checkLoopControls members loops = .ok () ↔
      ∀ n ∈ members, n.kind = .loopControl → scopeOf loops n.id ≠ [] := by
  simp only [checkLoopControls]
  split
  next n hn =>
    refine iff_of_false (by simp) fun hall => ?_
    have hbad := List.find?_some hn
    obtain ⟨hkind, hscope⟩ := of_decide_eq_true hbad
    exact hall n (List.mem_of_find?_eq_some hn) hkind hscope
  next hnone =>
    refine iff_of_true rfl fun n hn hkind hscope => ?_
    exact List.find?_eq_none.mp hnone n hn (decide_eq_true ⟨hkind, hscope⟩)

theorem mem_forwardArcs {e : FlowEdge} (he : e ∈ f.edges) (hforward : f.isBackEdge e = false) :
    (e.source, e.target) ∈ f.forwardArcs :=
  List.mem_map.mpr ⟨e, List.mem_filter.mpr ⟨he, by simp [hforward]⟩, rfl⟩

theorem mem_bodyOf {loopId id : String} :
    id ∈ f.bodyOf loopId ↔ id ∈ f.nodes.map (·.id) ∧ id ∈ f.reachBody loopId := by
  simp only [bodyOf, List.mem_map, List.mem_filter, decide_eq_true_eq]
  constructor
  · rintro ⟨n, ⟨hn, hreach⟩, rfl⟩
    exact ⟨⟨n, hn, rfl⟩, hreach⟩
  · rintro ⟨⟨n, hn, rfl⟩, hreach⟩
    exact ⟨n, ⟨hn, hreach⟩, rfl⟩

theorem members_sublist (f : TypedFlow) (start : String) :
    ((f.members start).map (·.id)).Sublist (f.nodes.map (·.id)) :=
  List.filter_sublist.map _

theorem nodup_members (hf : f.WellFormed) (start : String) :
    ((f.members start).map (·.id)).Nodup :=
  hf.nodup.sublist (members_sublist f start)

/-- A loop with a body is one of the nodes. -/
theorem id_mem_of_loopBodies_eq_ok {nodes : List TypedNode} {loops : List LoopBody}
    (h : f.loopBodies nodes = .ok loops) {l : LoopBody} (hl : l ∈ loops) :
    l.id ∈ nodes.map (·.id) := by
  obtain ⟨n, hn, handles, hbody⟩ := (loopBodies_spec h).2 l hl
  rw [hbody.id_eq]
  exact List.mem_map_of_mem hn

/-- Loops whose bodies could be collected and have been checked are nested. -/
theorem nested_of_loopBodies_eq_ok (hf : f.WellFormed) {start : String} {loops : List LoopBody}
    (hbodies : f.loopBodies (f.members start) = .ok loops) (hnesting : checkNesting loops = .ok ()) :
    Nested loops := by
  obtain ⟨hids, hspec⟩ := loopBodies_spec hbodies
  refine ⟨?_, fun l hl => ?_, fun l hl => ?_, checkNesting_eq_ok_iff.mp hnesting⟩
  · rw [hids]
    exact (nodup_members hf start).sublist (List.filter_sublist.map _)
  · obtain ⟨n, -, handles, hbody⟩ := hspec l hl
    rw [hbody.id_eq]
    exact hbody.not_mem_self
  · obtain ⟨n, -, handles, hbody⟩ := hspec l hl
    rw [hbody.body_eq]
    exact hf.nodup.sublist (List.filter_sublist.map _)

namespace Planned

variable {start : String} {loops : List LoopBody} {p : Plan}

theorem exists_isBody (h : f.Planned start loops p) {l : LoopBody} (hl : l ∈ loops) :
    ∃ n ∈ f.members start, ∃ handles, f.IsBody n handles l :=
  (loopBodies_spec h.bodies).2 l hl

theorem mem_body (h : f.Planned start loops p) {l : LoopBody} (hl : l ∈ loops) {id : String} :
    id ∈ l.body ↔ id ∈ f.nodes.map (·.id) ∧ id ∈ f.reachBody l.id := by
  obtain ⟨n, -, handles, hbody⟩ := h.exists_isBody hl
  rw [hbody.body_eq, hbody.id_eq]
  exact mem_bodyOf

theorem nested (h : f.Planned start loops p) (hf : f.WellFormed) : Nested loops :=
  nested_of_loopBodies_eq_ok hf h.bodies h.nesting

/-- A loop that takes part is a member. -/
theorem mem_members_of_mem (h : f.Planned start loops p) {l : LoopBody} (hl : l ∈ loops) :
    l.id ∈ (f.members start).map (·.id) :=
  id_mem_of_loopBodies_eq_ok h.bodies hl

/-- Forward edges do not leave the body of a loop. -/
theorem mem_body_of_edge (h : f.Planned start loops p) (hf : f.WellFormed) {l : LoopBody}
    (hl : l ∈ loops) {e : FlowEdge} (he : e ∈ f.edges) (hforward : f.isBackEdge e = false)
    (hsource : e.source ∈ l.body) : e.target ∈ l.body :=
  (h.mem_body hl).mpr ⟨hf.target_mem e he,
    Graph.mem_reach_of_arc ((h.mem_body hl).mp hsource).2 (mem_forwardArcs he hforward)⟩

/-- Scopes only grow along forward edges. -/
theorem prefix_around_of_edge (h : f.Planned start loops p) (hf : f.WellFormed) {e : FlowEdge}
    (he : e ∈ f.edges) (hforward : f.isBackEdge e = false) :
    around loops e.source <+: around loops e.target :=
  (h.nested hf).prefix_around fun _ hl hsource => h.mem_body_of_edge hf hl he hforward hsource

end Planned

end FlowGraph.TypedFlow
