import FlowGraph.Plan.Resolve
import FlowGraph.Proofs.Except
import Mathlib.Data.List.Forall2
import Mathlib.Data.List.Nodup
import Mathlib.Tactic.Common

/-!
What it takes for a flow to be accepted. `Registry.resolve` is a chain of checks, each of which may end
it with an error; the statements here take an accepted flow apart into the checks that it has passed
and the parts that its plan is made of.
-/

namespace FlowGraph

theorem mapM_eq_ok_iff {ε α β : Type} {f : α → Except ε β} {xs : List α} {ys : List β} :
    xs.mapM f = .ok ys ↔ List.Forall₂ (fun x y => f x = .ok y) xs ys := by
  constructor
  · intro h
    induction xs generalizing ys with
    | nil =>
        obtain rfl : [] = ys := by simpa [pure, Except.pure] using h
        exact .nil
    | cons x xs ih =>
        rw [List.mapM_cons] at h
        obtain ⟨y, hy, h⟩ := bind_eq_ok h
        obtain ⟨ys', hys, h⟩ := bind_eq_ok h
        obtain rfl : y :: ys' = ys := by simpa [pure, Except.pure] using h
        exact .cons hy (ih hys)
  · intro h
    induction h with
    | nil => rfl
    | cons hx _ ih =>
        rw [List.mapM_cons, hx, ih]
        rfl

theorem exists_of_mem_forall₂ {α β : Type} {R : α → β → Prop} {xs : List α} {ys : List β}
    (h : List.Forall₂ R xs ys) {y : β} (hy : y ∈ ys) : ∃ x ∈ xs, R x y := by
  obtain ⟨i, hi, rfl⟩ := List.mem_iff_getElem.mp hy
  have hi' : i < xs.length := h.length_eq ▸ hi
  exact ⟨xs[i], List.getElem_mem hi', (List.forall₂_iff_get.mp h).2 i hi' hi⟩

theorem exists_forall₂ {α β : Type} {R : α → β → Prop} {xs : List α} (h : ∀ x ∈ xs, ∃ y, R x y) :
    ∃ ys, List.Forall₂ R xs ys := by
  induction xs with
  | nil => exact ⟨[], .nil⟩
  | cons x xs ih =>
      obtain ⟨⟨y, hy⟩, hxs⟩ := List.forall_mem_cons.mp h
      obtain ⟨ys, hys⟩ := ih hxs
      exact ⟨y :: ys, .cons hy hys⟩

/-- Where ids do not repeat, what is found by an id is the entry that has it. -/
theorem find?_id_eq_some {α : Type} {id : α → String} {xs : List α} (hnodup : (xs.map id).Nodup)
    {x : α} (hx : x ∈ xs) : xs.find? (id · = id x) = some x := by
  induction xs with
  | nil => exact absurd hx List.not_mem_nil
  | cons y ys ih =>
      obtain ⟨hy, hnodup⟩ := List.nodup_cons.mp hnodup
      rcases List.mem_cons.mp hx with rfl | hx
      · simp
      · have hne : id y ≠ id x := fun heq => hy (heq ▸ List.mem_map_of_mem hx)
        rw [List.find?_cons_of_neg (by simpa using hne), ih hnodup hx]

/-- Where ids do not repeat, the same is found by an id whatever the order. -/
theorem find?_id_eq_of_perm {α : Type} {id : α → String} {xs ys : List α} (hperm : xs.Perm ys)
    (hnodup : (xs.map id).Nodup) (key : String) : xs.find? (id · = key) = ys.find? (id · = key) := by
  cases hfind : xs.find? (id · = key) with
  | some x =>
      have hkey : id x = key := by simpa using List.find?_some hfind
      have hx := hperm.mem_iff.mp (List.mem_of_find?_eq_some hfind)
      rw [← hkey, find?_id_eq_some ((hperm.map id).nodup_iff.mp hnodup) hx]
  | none =>
      refine (List.find?_eq_none.mpr fun y hy => ?_).symm
      exact List.find?_eq_none.mp hfind y (hperm.mem_iff.mpr hy)

theorem NodeKind.loopHandles?_eq_some {kind : NodeKind} {handles : LoopHandles} :
    kind.loopHandles? = some handles ↔ kind = .loop handles := by
  cases kind <;> simp [loopHandles?]

namespace TypedFlow

variable {f : TypedFlow}

/-- A flow whose nodes have different ids and whose edges join nodes of the flow. -/
structure WellFormed (f : TypedFlow) : Prop where
  nodup : (f.nodes.map (·.id)).Nodup
  source_mem : ∀ e ∈ f.edges, e.source ∈ f.nodes.map (·.id)
  target_mem : ∀ e ∈ f.edges, e.target ∈ f.nodes.map (·.id)

/-- Whether a typed node is what a node becomes. -/
structure Types (registry : Registry) (n : FlowNode) (m : TypedNode) : Prop where
  id_eq : m.id = n.id
  type_eq : registry.get? n.typeName = some m.type
  described : m.type.describe n.id n.data = .ok ⟨m.data, m.handles⟩

theorem typeNodes_eq_ok_iff {registry : Registry} {seen : List String} {nodes : List FlowNode}
    {typed : List TypedNode} :
    typeNodes registry seen nodes = .ok typed ↔ List.Forall₂ (Types registry) nodes typed ∧
      (nodes.map (·.id)).Nodup ∧ ∀ n ∈ nodes, n.id ∉ seen := by
  constructor
  · intro h
    induction nodes generalizing seen typed with
    | nil =>
        obtain rfl : [] = typed := by simpa [typeNodes] using h
        exact ⟨.nil, List.nodup_nil, by simp⟩
    | cons n nodes ih =>
        rw [typeNodes] at h
        split_ifs at h with hseen
        split at h
        · exact absurd h (by simp)
        next type htype =>
          split at h
          · exact absurd h (by simp)
          next view hview =>
            obtain ⟨rest, hrest, h⟩ := bind_eq_ok h
            obtain rfl := Except.ok.inj h
            obtain ⟨htyped, hnodup, hnot⟩ := ih hrest
            refine ⟨.cons ⟨rfl, htype, hview⟩ htyped, List.nodup_cons.mpr ⟨?_, hnodup⟩, ?_⟩
            · intro hmem
              obtain ⟨m, hm, hid⟩ := List.mem_map.mp hmem
              exact hnot m hm (hid ▸ List.mem_cons_self)
            · exact List.forall_mem_cons.mpr
                ⟨hseen, fun m hm => mt (List.mem_cons_of_mem n.id) (hnot m hm)⟩
  · rintro ⟨htyped, hnodup, hnot⟩
    induction htyped generalizing seen with
    | nil => rfl
    | @cons n m nodes typed hnode _ ih =>
        obtain ⟨hid, hnodup⟩ := List.nodup_cons.mp hnodup
        obtain ⟨hseen, hnot⟩ := List.forall_mem_cons.mp hnot
        obtain ⟨id, type, data, handles⟩ := m
        obtain ⟨rfl, htype, hview⟩ := hnode
        have hrest : typeNodes registry (n.id :: seen) nodes = .ok typed := ih hnodup fun m hm hmem => by
          rcases List.mem_cons.mp hmem with heq | hmem
          · exact hid (List.mem_map.mpr ⟨m, hm, heq⟩)
          · exact hnot m hm hmem
        simp only [typeNodes, if_neg hseen, htype, hview, hrest]
        rfl

theorem map_id_of_types {registry : Registry} {nodes : List FlowNode} {typed : List TypedNode}
    (h : List.Forall₂ (Types registry) nodes typed) : typed.map (·.id) = nodes.map (·.id) := by
  have hids : List.Forall₂ (· = ·) (typed.map (·.id)) (nodes.map (·.id)) := by
    rw [List.forall₂_map_left_iff, List.forall₂_map_right_iff]
    exact h.flip.imp fun _ _ hn => hn.id_eq
  rwa [List.forall₂_eq_eq_eq] at hids

theorem mem_of_find?_eq_some {id : String} {n : TypedNode} (h : f.find? id = some n) :
    n ∈ f.nodes ∧ n.id = id :=
  ⟨List.mem_of_find?_eq_some h, by simpa using List.find?_some h⟩

theorem mem_of_endpoint_eq_ok {edgeId id : String} {n : TypedNode}
    (h : f.endpoint edgeId id = .ok n) : id ∈ f.nodes.map (·.id) := by
  rw [endpoint] at h
  split at h
  · exact absurd h (by simp)
  next m hm =>
    obtain ⟨hmem, rfl⟩ := mem_of_find?_eq_some hm
    exact List.mem_map_of_mem hmem

theorem checkEdges_eq_ok_iff {seen : List String} {edges : List FlowEdge} :
    f.checkEdges seen edges = .ok () ↔ (∀ e ∈ edges, f.checkEdge e = .ok ()) ∧
      (edges.map (·.id)).Nodup ∧ ∀ e ∈ edges, e.id ∉ seen := by
  induction edges generalizing seen with
  | nil => simp [checkEdges]
  | cons e edges ih =>
      have hrest : (∀ e' ∈ edges, e'.id ∉ e.id :: seen) ↔
          (e.id ∉ edges.map (·.id)) ∧ ∀ e' ∈ edges, e'.id ∉ seen := by
        simp only [List.mem_cons, not_or, List.mem_map, not_exists, not_and]
        exact ⟨fun h => ⟨fun e' he' => (h e' he').1, fun e' he' => (h e' he').2⟩,
          fun h e' he' => ⟨h.1 e' he', h.2 e' he'⟩⟩
      rw [checkEdges, List.forall_mem_cons, List.forall_mem_cons, List.map_cons, List.nodup_cons]
      by_cases hseen : e.id ∈ seen
      · simp [hseen]
      · rw [if_neg hseen]
        cases hedge : f.checkEdge e with
        | error cause =>
            have hnot : (Except.error cause : Except GraphError Unit) ≠ .ok () := by simp
            exact iff_of_false hnot fun hchecked => hnot hchecked.1.1
        | ok _ =>
            show f.checkEdges (e.id :: seen) edges = _ ↔ _
            rw [ih, hrest]
            tauto

theorem mem_of_checkEdge_eq_ok {e : FlowEdge} (h : f.checkEdge e = .ok ()) :
    e.source ∈ f.nodes.map (·.id) ∧ e.target ∈ f.nodes.map (·.id) := by
  rw [checkEdge] at h
  obtain ⟨source, hsource, h⟩ := bind_eq_ok h
  obtain ⟨target, htarget, -⟩ := bind_eq_ok h
  exact ⟨mem_of_endpoint_eq_ok hsource, mem_of_endpoint_eq_ok htarget⟩

/-- How the plan of a flow comes about: the checks that were passed, and what each part of the plan
was made from. -/
structure Planned (f : TypedFlow) (start : String) (loops : List LoopBody) (p : Plan) : Prop where
  bodies : f.loopBodies (f.members start) = .ok loops
  nesting : checkNesting loops = .ok ()
  backEdges : f.checkBackEdges ((f.members start).map (·.id)) loops = .ok ()
  controls : checkLoopControls (f.members start) loops = .ok ()
  order : f.regionOrder ((f.members start).map (·.id)) loops none = .ok p.order
  loopOrders : f.planLoops ((f.members start).map (·.id)) loops loops = .ok p.loops
  nodes : List.Forall₂ (fun m n => f.planNode loops m = .ok n) (f.members start) p.nodes

theorem mem_of_findStart_eq_ok {start : Option String} {id : String}
    (h : f.findStart start = .ok id) : id ∈ f.nodes.map (·.id) := by
  cases start with
  | some chosen =>
      simp only [findStart] at h
      split at h
      next n hn =>
        obtain rfl := Except.ok.inj h
        exact List.mem_map_of_mem (List.mem_of_find?_eq_some hn)
      · exact absurd h (by simp)
  | none =>
      simp only [findStart] at h
      split at h
      · exact absurd h (by simp)
      next hentries =>
        obtain rfl := Except.ok.inj h
        obtain ⟨n, hn, hid⟩ := List.mem_map.mp (hentries ▸ List.mem_singleton_self _)
        exact hid ▸ List.mem_map_of_mem (List.mem_of_mem_filter hn)
      · exact absurd h (by simp)

end TypedFlow

namespace Registry

variable {r : Registry} {flow : Flow}

/-- A flow with typed nodes is well formed, and its edges have been checked. -/
theorem wellFormed_of_typeFlow_eq_ok {f : TypedFlow} (h : r.typeFlow flow = .ok f) :
    f.edges = flow.edges ∧ TypedFlow.typeNodes r [] flow.nodes = .ok f.nodes ∧
      f.checkEdges [] f.edges = .ok () ∧ f.WellFormed := by
  rw [typeFlow] at h
  obtain ⟨nodes, hnodes, h⟩ := bind_eq_ok h
  obtain ⟨_, hedges, h⟩ := bind_eq_ok h
  obtain rfl := Except.ok.inj h
  have hchecked := mapError_eq_ok hedges
  obtain ⟨htyped, hnodup, -⟩ := TypedFlow.typeNodes_eq_ok_iff.mp hnodes
  have hmem := fun e he =>
    TypedFlow.mem_of_checkEdge_eq_ok ((TypedFlow.checkEdges_eq_ok_iff.mp hchecked).1 e he)
  exact ⟨rfl, hnodes, hchecked, TypedFlow.map_id_of_types htyped ▸ hnodup, fun e he => (hmem e he).1,
    fun e he => (hmem e he).2⟩

end Registry

end FlowGraph
