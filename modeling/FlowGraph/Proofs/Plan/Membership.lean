import FlowGraph.Proofs.Plan.Lawful
import FlowGraph.Standard
import Mathlib.Logic.Relation

/-!
Which nodes a plan has. They are meant to be the least set that contains all that edges lead to from
the start, the sources of edges into its nodes, and the bodies of its loops. All that a plan has is in
this set, and it has what is reachable from the start and all sources. But the walk into the body of a
loop does not go on from nodes that were found before as sources; so a plan may miss nodes of a body,
and it misses none exactly if no forward edge leads out of it from inside a body.
-/

namespace FlowGraph

/-- No edge that closes no loop leads out of a plan from inside the body of a loop. -/
def Plan.KeepsBodies (p : Plan) (f : TypedFlow) : Prop :=
  ∀ loopId, ∀ e ∈ f.edges, e.source ∈ p.nodes.map (·.id) → e.source ∈ p.body loopId →
    f.isBackEdge e = false → e.target ∈ p.nodes.map (·.id)

namespace TypedFlow

/-- Edges lead from one node to another. -/
def LeadsTo (f : TypedFlow) : String → String → Prop :=
  Relation.ReflTransGen fun u v => (u, v) ∈ f.arcs

/-- What the `body` output of a loop leads to along edges that close no loop. -/
inductive InBody (f : TypedFlow) (loopId : String) : String → Prop where
  | first {handles : LoopHandles} {e : FlowEdge} (hloop : f.loopHandles? loopId = some handles)
      (he : e ∈ f.edges) (hsource : e.source = loopId) (hhandle : e.sourceHandle = some handles.body)
      (hforward : f.isBackEdge e = false) : InBody f loopId e.target
  | next {e : FlowEdge} (hsource : InBody f loopId e.source) (he : e ∈ f.edges)
      (hforward : f.isBackEdge e = false) : InBody f loopId e.target

/-- The least set that contains what the start leads to, the sources of edges into it, and the bodies of
the loops in it. -/
inductive TakesPart (f : TypedFlow) (start : String) : String → Prop where
  | reached {id : String} (hreach : f.LeadsTo start id) : TakesPart f start id
  | source {e : FlowEdge} (he : e ∈ f.edges) (htarget : TakesPart f start e.target) :
      TakesPart f start e.source
  | inside {loopId id : String} (hloop : TakesPart f start loopId) (hbody : f.InBody loopId id) :
      TakesPart f start id

variable {f : TypedFlow} {start : String}

theorem mem_arcs {u v : String} :
    (u, v) ∈ f.arcs ↔ ∃ e ∈ f.edges, e.source = u ∧ e.target = v := by
  simp only [arcs, List.mem_map, Prod.mk.injEq]

theorem mem_bodyEntries {loopId id : String} :
    id ∈ f.bodyEntries loopId ↔ ∃ handles, f.loopHandles? loopId = some handles ∧
      ∃ e ∈ f.edges, e.source = loopId ∧ e.sourceHandle = some handles.body ∧ e.target = id := by
  cases hloop : f.loopHandles? loopId with
  | none => simp [bodyEntries, hloop]
  | some handles =>
      simp only [bodyEntries, hloop, outgoing, List.mem_map, List.mem_filter, decide_eq_true_eq,
        Option.some.injEq, exists_eq_left', and_assoc]

theorem InBody.exists_loopHandles?_eq_some {loopId id : String} (h : f.InBody loopId id) :
    ∃ handles, f.loopHandles? loopId = some handles := by
  induction h with
  | first hloop => exact ⟨_, hloop⟩
  | next _ _ _ ih => exact ih

/-! ### Rounds -/

/-- Node ids that lead nowhere new in a round. -/
structure Stable (f : TypedFlow) (members : List String) : Prop where
  source_mem : ∀ e ∈ f.edges, e.target ∈ members → e.source ∈ members
  entry_mem : ∀ loopId ∈ members, ∀ id ∈ f.bodyEntries loopId, id ∈ members

theorem subset_sourcesInto (f : TypedFlow) (members : List String) :
    members ⊆ f.sourcesInto members :=
  (Graph.reach_closed _ members []).1

theorem subset_grow (f : TypedFlow) (members : List String) : members ⊆ f.grow members :=
  List.Subset.trans (f.subset_sourcesInto members) (Graph.reach_closed f.arcs _ _).2.1

theorem nodup_grow (f : TypedFlow) (members : List String) : (f.grow members).Nodup :=
  Graph.nodup_walk _ _ _ (Graph.nodup_walk _ _ _ List.nodup_nil)

theorem subset_growAll (f : TypedFlow) (rounds : Nat) (members : List String) :
    members ⊆ f.growAll rounds members := by
  induction rounds generalizing members with
  | zero => exact List.Subset.refl _
  | succ rounds ih =>
      simp only [growAll]
      split_ifs
      · exact f.subset_grow members
      · exact List.Subset.trans (f.subset_grow members) (ih (f.grow members))

theorem grow_subset_growAll (f : TypedFlow) (rounds : Nat) (members : List String) :
    f.grow members ⊆ f.growAll (rounds + 1) members := by
  simp only [growAll]
  split_ifs
  · exact List.Subset.refl _
  · exact f.subset_growAll rounds (f.grow members)

theorem mem_sourcesInto_of_edge {members : List String} {e : FlowEdge} (he : e ∈ f.edges)
    (htarget : e.target ∈ f.sourcesInto members) : e.source ∈ f.sourcesInto members :=
  Graph.mem_reach_of_arc htarget (Graph.mem_reversed.mpr (mem_arcs.mpr ⟨e, he, rfl, rfl⟩))

theorem mem_newEntries {members : List String} {id : String} :
    id ∈ f.newEntries members ↔
      (∃ loopId ∈ members, id ∈ f.bodyEntries loopId) ∧ id ∉ members := by
  simp only [newEntries, List.mem_filter, List.mem_flatMap, decide_eq_true_eq]

theorem grow_subset_ids (hf : f.WellFormed) {members : List String}
    (hmembers : members ⊆ f.nodes.map (·.id)) : f.grow members ⊆ f.nodes.map (·.id) := by
  have hsources : ∀ id ∈ f.sourcesInto members, id ∈ f.nodes.map (·.id) := by
    refine Graph.walk_induction hmembers (by simp) fun v _ _ _ w hw => ?_
    obtain ⟨e, he, rfl, -⟩ := mem_arcs.mp (Graph.mem_reversed.mp hw)
    exact hf.source_mem e he
  refine Graph.walk_induction (fun id hid => ?_) hsources fun v _ _ _ w hw => ?_
  · obtain ⟨⟨loopId, -, hentry⟩, -⟩ := mem_newEntries.mp hid
    obtain ⟨handles, -, e, he, -, -, rfl⟩ := mem_bodyEntries.mp hentry
    exact hf.target_mem e he
  · obtain ⟨e, he, -, rfl⟩ := mem_arcs.mp hw
    exact hf.target_mem e he

/-- A round that adds nothing shows that nothing can be added. -/
theorem stable_of_length_grow_eq {members : List String} (hnodup : members.Nodup)
    (hlength : (f.grow members).length = members.length) : f.Stable (f.grow members) := by
  have hperm : members.Perm (f.grow members) :=
    (List.subperm_of_subset hnodup (f.subset_grow members)).perm_of_length_le hlength.le
  have hclosed : ∀ id, id ∈ f.grow members ↔ id ∈ f.sourcesInto members := fun id =>
    ⟨fun hid => f.subset_sourcesInto members (hperm.mem_iff.mpr hid),
      fun hid => (Graph.reach_closed f.arcs _ _).2.1 id hid⟩
  refine ⟨fun e he htarget => ?_, fun loopId hloop id hentry => ?_⟩
  · rw [hclosed] at htarget ⊢
    exact mem_sourcesInto_of_edge he htarget
  · by_cases hmem : id ∈ f.sourcesInto members
    · exact (hclosed id).mpr hmem
    · exact (Graph.reach_closed f.arcs _ _).1 id
        (mem_newEntries.mpr ⟨⟨loopId, (hclosed loopId).mp hloop, hentry⟩, hmem⟩)

theorem length_le_of_subset_ids {members : List String} (hnodup : members.Nodup)
    (hmembers : members ⊆ f.nodes.map (·.id)) : members.length ≤ f.nodes.length := by
  simpa using (List.subperm_of_subset hnodup hmembers).length_le

theorem length_lt_length_grow {members : List String} (hnodup : members.Nodup)
    (hlength : (f.grow members).length ≠ members.length) :
    members.length < (f.grow members).length := by
  have hle := (List.subperm_of_subset hnodup (f.subset_grow members)).length_le
  omega

/-- Rounds that may add more nodes than are left end with one that adds nothing. -/
theorem stable_growAll (hf : f.WellFormed) {rounds : Nat} {members : List String}
    (hnodup : members.Nodup) (hmembers : members ⊆ f.nodes.map (·.id))
    (hrounds : f.nodes.length < members.length + rounds) : f.Stable (f.growAll rounds members) := by
  induction rounds generalizing members with
  | zero =>
      have := length_le_of_subset_ids hnodup hmembers
      omega
  | succ rounds ih =>
      simp only [growAll]
      split_ifs with hlength
      · exact stable_of_length_grow_eq hnodup hlength
      · -- The round has added a node, so one round less is enough for what is left.
        have hlt := length_lt_length_grow hnodup hlength
        exact ih (f.nodup_grow members) (grow_subset_ids hf hmembers) (by omega)

/-- More rounds than that find nothing else. -/
theorem growAll_eq_growAll (hf : f.WellFormed) {rounds rounds' : Nat} {members : List String}
    (hnodup : members.Nodup) (hmembers : members ⊆ f.nodes.map (·.id))
    (hrounds : f.nodes.length < members.length + rounds)
    (hrounds' : f.nodes.length < members.length + rounds') :
    f.growAll rounds members = f.growAll rounds' members := by
  have hbound := length_le_of_subset_ids hnodup hmembers
  induction rounds generalizing rounds' members with
  | zero => omega
  | succ rounds ih =>
      cases rounds' with
      | zero => omega
      | succ rounds' =>
          simp only [growAll]
          split_ifs with hlength
          · rfl
          · have hlt := length_lt_length_grow hnodup hlength
            have hgrown := grow_subset_ids hf hmembers
            exact ih (f.nodup_grow members) hgrown (by omega) (by omega)
              (length_le_of_subset_ids (f.nodup_grow members) hgrown)

/-! ### What is found -/

theorem leadsTo_of_mem_reach {id : String} (hid : id ∈ Graph.reach f.arcs [start] []) :
    f.LeadsTo start id := by
  refine Graph.walk_induction ?_ (by simp) (fun v _ _ hv w hw => hv.tail hw) id hid
  rintro v hv
  rw [List.mem_singleton.mp hv]
  exact .refl

theorem reach_subset_ids (hf : f.WellFormed) (hstart : start ∈ f.nodes.map (·.id)) :
    Graph.reach f.arcs [start] [] ⊆ f.nodes.map (·.id) := by
  refine Graph.walk_induction ?_ (by simp) fun v _ _ _ w hw => ?_
  · rintro v hv
    rwa [List.mem_singleton.mp hv]
  · obtain ⟨e, he, -, rfl⟩ := mem_arcs.mp hw
    exact hf.target_mem e he

theorem mem_found_of_leadsTo {id : String} (hid : f.LeadsTo start id) : id ∈ f.found start := by
  refine f.subset_growAll _ _ ?_
  induction hid with
  | refl => exact (Graph.reach_closed f.arcs [start] []).1 start (List.mem_singleton_self start)
  | tail _ harc ih => exact Graph.mem_reach_of_arc ih harc

theorem stable_found (hf : f.WellFormed) (hstart : start ∈ f.nodes.map (·.id)) :
    f.Stable (f.found start) :=
  stable_growAll hf (Graph.nodup_walk _ _ _ List.nodup_nil) (reach_subset_ids hf hstart) (by omega)

theorem growAll_subset_ids (hf : f.WellFormed) {rounds : Nat} {members : List String}
    (hmembers : members ⊆ f.nodes.map (·.id)) : f.growAll rounds members ⊆ f.nodes.map (·.id) := by
  induction rounds generalizing members with
  | zero => exact hmembers
  | succ rounds ih =>
      simp only [growAll]
      split_ifs
      · exact grow_subset_ids hf hmembers
      · exact ih (grow_subset_ids hf hmembers)

theorem found_subset_ids (hf : f.WellFormed) (hstart : start ∈ f.nodes.map (·.id)) :
    f.found start ⊆ f.nodes.map (·.id) :=
  growAll_subset_ids hf (reach_subset_ids hf hstart)

theorem mem_members_iff (hf : f.WellFormed) (hstart : start ∈ f.nodes.map (·.id)) {id : String} :
    id ∈ (f.members start).map (·.id) ↔ id ∈ f.found start := by
  simp only [members, List.mem_map, List.mem_filter, decide_eq_true_eq]
  constructor
  · rintro ⟨n, ⟨-, hfound⟩, rfl⟩
    exact hfound
  · intro hfound
    obtain ⟨n, hn, rfl⟩ := List.mem_map.mp (found_subset_ids hf hstart hfound)
    exact ⟨n, ⟨hn, hfound⟩, rfl⟩

theorem stable_members (hf : f.WellFormed) (hstart : start ∈ f.nodes.map (·.id)) :
    f.Stable ((f.members start).map (·.id)) := by
  have hfound := stable_found hf hstart
  refine ⟨fun e he htarget => ?_, fun loopId hloop id hentry => ?_⟩
  · rw [mem_members_iff hf hstart] at htarget ⊢
    exact hfound.source_mem e he htarget
  · rw [mem_members_iff hf hstart] at hloop ⊢
    exact hfound.entry_mem loopId hloop id hentry

namespace Planned

variable {loops : List LoopBody} {p : Plan}

/-- The members that are loops have bodies. -/
theorem exists_body_of_mem (h : f.Planned start loops p) (hf : f.WellFormed) {id : String}
    (hid : id ∈ (f.members start).map (·.id)) {handles : LoopHandles}
    (hloop : f.loopHandles? id = some handles) : ∃ l ∈ loops, l.id = id := by
  obtain ⟨n, hn, rfl⟩ := List.mem_map.mp hid
  have hfind : f.find? n.id = some n := find?_id_eq_some hf.nodup (List.mem_of_mem_filter hn)
  have hkind : n.kind.loopHandles?.isSome = true := by
    rw [loopHandles?, hfind] at hloop
    exact Option.isSome_iff_exists.mpr ⟨handles, hloop⟩
  have hmem : n.id ∈ loops.map (·.id) := by
    rw [(loopBodies_spec h.bodies).1]
    exact List.mem_map_of_mem (List.mem_filter.mpr ⟨hn, hkind⟩)
  exact List.mem_map.mp hmem

/-- A back edge into a loop of the plan comes from a node for which the loop is the nearest one. -/
theorem getLast?_scopeOf_of_backEdge (h : f.Planned start loops p) (hf : f.WellFormed) {e : FlowEdge}
    (he : e ∈ f.edges) (hback : f.isBackEdge e = true)
    (htarget : e.target ∈ (f.members start).map (·.id)) :
    ∃ l ∈ loops, l.id = e.target ∧ (around loops e.source).getLast? = some l := by
  have hloop : ∃ handles, f.loopHandles? e.target = some handles := by
    rw [isBackEdge] at hback
    split at hback
    next handles hloop => exact ⟨handles, hloop⟩
    · exact absurd hback (by simp)
  obtain ⟨handles, hloop⟩ := hloop
  obtain ⟨l, hl, hid⟩ := h.exists_body_of_mem hf htarget hloop
  have hmem : e ∈ f.incoming l.id := List.mem_filter.mpr ⟨he, decide_eq_true hid.symm⟩
  obtain ⟨-, hlast⟩ := checkBackEdges_eq_ok_iff.mp h.backEdges l hl e hmem hback
  rw [scopeOf_eq, List.getLast?_map, Option.map_eq_some_iff] at hlast
  obtain ⟨k, hk, hkid⟩ := hlast
  obtain ⟨hkmem, -⟩ := mem_around.mp (List.mem_of_getLast? hk)
  obtain rfl := (h.nested hf).eq_of_id_eq hkmem hl (hkid.trans hid.symm)
  exact ⟨k, hkmem, hid, hk⟩

/-- What closes the body of a loop of the plan comes from a direct member of it. -/
theorem getLast?_scope_of_backEdge (h : f.Planned start loops p) (hf : f.WellFormed)
    {m n : PlannedNode} (hm : m ∈ p.nodes) (hn : n ∈ p.nodes) {b : Binding} (hb : b ∈ n.bindings)
    (hback : b.backEdge = true) (hid : m.id = b.source) : m.scope.getLast? = some n.id := by
  obtain ⟨t, ht, hmade⟩ := h.exists_madeFrom hn
  obtain ⟨e, he, htarget, hsource, -, hbe⟩ := hmade.exists_edge hb
  obtain ⟨l, -, hlid, hlast⟩ := h.getLast?_scopeOf_of_backEdge hf he (hbe ▸ hback)
    (htarget ▸ List.mem_map_of_mem ht)
  rw [h.scope_eq hm, scopeOf_eq, List.getLast?_map, hid, hsource, hlast, Option.map_some, hlid, htarget,
    hmade.id_eq]

/-- A back edge that begins inside a loop ends there, or at the loop. -/
theorem target_of_backEdge (h : f.Planned start loops p) (hf : f.WellFormed) {e : FlowEdge}
    (he : e ∈ f.edges) (hback : f.isBackEdge e = true)
    (htarget : e.target ∈ (f.members start).map (·.id)) {l : LoopBody} (hl : l ∈ loops)
    (hsource : e.source ∈ l.body) : e.target = l.id ∨ e.target ∈ l.body := by
  obtain ⟨k, hk, hid, hlast⟩ := h.getLast?_scopeOf_of_backEdge hf he hback htarget
  obtain ⟨outer, houter⟩ := List.getLast?_eq_some_iff.mp hlast
  have hmem : l ∈ around loops e.source := mem_around.mpr ⟨hl, hsource⟩
  have hchain := (h.nested hf).pairwise_around e.source
  rw [houter] at hmem hchain
  rcases List.mem_append.mp hmem with hmem | hmem
  · have hencloses := (List.pairwise_append.mp hchain).2.2 l hmem k (List.mem_singleton_self k)
    exact Or.inr (hid ▸ hencloses)
  · rw [List.mem_singleton.mp hmem]
    exact Or.inl hid.symm

/-- The edges from the `body` output of a loop of the plan close no loop. -/
theorem isBackEdge_eq_false_of_entry (h : f.Planned start loops p) (hf : f.WellFormed)
    (hstable : f.Stable ((f.members start).map (·.id))) {l : LoopBody} (hl : l ∈ loops)
    {handles : LoopHandles} (hloop : f.loopHandles? l.id = some handles) {e : FlowEdge}
    (he : e ∈ f.edges) (hsource : e.source = l.id) (hhandle : e.sourceHandle = some handles.body) :
    f.isBackEdge e = false := by
  have hentry : e.target ∈ f.bodyEntries l.id :=
    mem_bodyEntries.mpr ⟨handles, hloop, e, he, hsource, hhandle, rfl⟩
  have htarget := hstable.entry_mem l.id (h.mem_members_of_mem hl) e.target hentry
  have hbody : e.target ∈ l.body :=
    (h.mem_body hl).mpr ⟨hf.target_mem e he, (Graph.reach_closed _ _ _).1 _ hentry⟩
  by_contra hback
  rw [Bool.not_eq_false] at hback
  -- The loop that the edge closed would lie in `l`, and `l` in it.
  obtain ⟨k, hk, hid, hlast⟩ := h.getLast?_scopeOf_of_backEdge hf he hback htarget
  obtain ⟨-, hinner⟩ := mem_around.mp (List.mem_of_getLast? hlast)
  rw [hsource] at hinner
  rw [← hid] at hbody
  exact ((h.nested hf).body_subset hl hk hbody).2 hinner

theorem mem_body_iff_inBody (h : f.Planned start loops p) (hf : f.WellFormed)
    (hstable : f.Stable ((f.members start).map (·.id))) {l : LoopBody} (hl : l ∈ loops)
    {id : String} : id ∈ l.body ↔ f.InBody l.id id := by
  constructor
  · intro hid
    refine Graph.walk_induction (fun v hv => ?_) (by simp) (fun v _ _ hv w hw => ?_) id
      ((h.mem_body hl).mp hid).2
    · obtain ⟨handles, hloop, e, he, hsource, hhandle, rfl⟩ := mem_bodyEntries.mp hv
      exact .first hloop he hsource hhandle
        (h.isBackEdge_eq_false_of_entry hf hstable hl hloop he hsource hhandle)
    · obtain ⟨e, he, heq⟩ := List.mem_map.mp hw
      obtain ⟨rfl, rfl⟩ := Prod.mk.inj heq
      obtain ⟨he, hforward⟩ := List.mem_filter.mp he
      exact .next hv he (by simpa using hforward)
  · intro hid
    induction hid with
    | first hloop he hsource hhandle hforward =>
        have hentry := mem_bodyEntries.mpr ⟨_, hloop, _, he, hsource, hhandle, rfl⟩
        exact (h.mem_body hl).mpr ⟨hf.target_mem _ he, (Graph.reach_closed _ _ _).1 _ hentry⟩
    | next _ he hforward ih => exact h.mem_body_of_edge hf hl he hforward ih

/-! ### Nothing takes part without a reason -/

/-- What a round adds to the sources lies in the body of a loop among them. -/
theorem mem_grow (h : f.Planned start loops p) (hf : f.WellFormed) {members : List String}
    (hmembers : f.grow members ⊆ (f.members start).map (·.id)) {id : String}
    (hid : id ∈ f.grow members) : id ∈ f.sourcesInto members ∨
      ∃ l ∈ loops, l.id ∈ f.sourcesInto members ∧ id ∈ l.body := by
  have hclosed := Graph.reach_closed f.arcs (f.newEntries (f.sourcesInto members))
    (f.sourcesInto members)
  refine Graph.walk_induction (P := fun id => id ∈ f.sourcesInto members ∨
    ∃ l ∈ loops, l.id ∈ f.sourcesInto members ∧ id ∈ l.body)
    (fun v hv => Or.inr ?_) (fun v hv => Or.inl hv) (fun v hv hnot hpassed w hw => ?_) id hid
  · obtain ⟨⟨loopId, hloop, hentry⟩, -⟩ := mem_newEntries.mp hv
    obtain ⟨handles, hhandles, e, he, -, -, rfl⟩ := mem_bodyEntries.mp hentry
    obtain ⟨l, hl, rfl⟩ := h.exists_body_of_mem hf (hmembers (hclosed.2.1 loopId hloop)) hhandles
    exact ⟨l, hl, hloop,
      (h.mem_body hl).mpr ⟨hf.target_mem e he, (Graph.reach_closed _ _ _).1 _ hentry⟩⟩
  · obtain ⟨l, hl, hloop, hbody⟩ := hpassed.resolve_left hnot
    have htarget := hmembers (hclosed.2.2 v hv hnot w hw)
    obtain ⟨e, he, rfl, rfl⟩ := mem_arcs.mp hw
    cases hback : f.isBackEdge e with
    | false => exact Or.inr ⟨l, hl, hloop, h.mem_body_of_edge hf hl he hback hbody⟩
    | true =>
        rcases h.target_of_backEdge hf he hback htarget hl hbody with heq | hinside
        · exact Or.inl (heq ▸ hloop)
        · exact Or.inr ⟨l, hl, hloop, hinside⟩

theorem takesPart_of_mem_grow (h : f.Planned start loops p) (hf : f.WellFormed)
    (hstable : f.Stable ((f.members start).map (·.id))) {members : List String}
    (hpart : ∀ id ∈ members, f.TakesPart start id)
    (hmembers : f.grow members ⊆ (f.members start).map (·.id)) :
    ∀ id ∈ f.grow members, f.TakesPart start id := by
  have hsources : ∀ id ∈ f.sourcesInto members, f.TakesPart start id := by
    refine Graph.walk_induction hpart (by simp) fun v _ _ hv w hw => ?_
    obtain ⟨e, he, rfl, rfl⟩ := mem_arcs.mp (Graph.mem_reversed.mp hw)
    exact .source he hv
  intro id hid
  rcases h.mem_grow hf hmembers hid with hid | ⟨l, hl, hloop, hbody⟩
  · exact hsources id hid
  · exact .inside (hsources l.id hloop) ((h.mem_body_iff_inBody hf hstable hl).mp hbody)

theorem takesPart_of_mem_growAll (h : f.Planned start loops p) (hf : f.WellFormed)
    (hstable : f.Stable ((f.members start).map (·.id))) {rounds : Nat} {members : List String}
    (hpart : ∀ id ∈ members, f.TakesPart start id)
    (hmembers : f.growAll rounds members ⊆ (f.members start).map (·.id)) :
    ∀ id ∈ f.growAll rounds members, f.TakesPart start id := by
  induction rounds generalizing members with
  | zero => exact hpart
  | succ rounds ih =>
      simp only [growAll] at hmembers ⊢
      split_ifs at hmembers ⊢
      · exact h.takesPart_of_mem_grow hf hstable hpart hmembers
      · have hgrow := List.Subset.trans (f.subset_growAll rounds (f.grow members)) hmembers
        exact ih (h.takesPart_of_mem_grow hf hstable hpart hgrow) hmembers

theorem takesPart_of_mem (h : f.Planned start loops p) (hf : f.WellFormed)
    (hstart : start ∈ f.nodes.map (·.id)) (hstable : f.Stable ((f.members start).map (·.id)))
    {id : String} (hid : id ∈ (f.members start).map (·.id)) : f.TakesPart start id := by
  have hfound := (mem_members_iff hf hstart).mp hid
  refine h.takesPart_of_mem_growAll hf hstable (fun v hv => ?_) (fun v hv => ?_) id hfound
  · exact .reached (leadsTo_of_mem_reach hv)
  · exact (mem_members_iff hf hstart).mpr hv

/-! ### What is missed -/

theorem mem_planBody_iff_inBody (h : f.Planned start loops p) (hf : f.WellFormed)
    (hstable : f.Stable ((f.members start).map (·.id))) {loopId : String}
    (hloop : loopId ∈ (f.members start).map (·.id)) {id : String} :
    id ∈ p.body loopId ↔ f.InBody loopId id := by
  rw [h.mem_body_iff hf, mem_scopeOf]
  constructor
  · rintro ⟨l, hl, rfl, hid⟩
    exact (h.mem_body_iff_inBody hf hstable hl).mp hid
  · intro hid
    obtain ⟨handles, hhandles⟩ := hid.exists_loopHandles?_eq_some
    obtain ⟨l, hl, rfl⟩ := h.exists_body_of_mem hf hloop hhandles
    exact ⟨l, hl, rfl, (h.mem_body_iff_inBody hf hstable hl).mpr hid⟩

theorem mem_of_inBody (h : f.Planned start loops p) (hf : f.WellFormed)
    (hstable : f.Stable ((f.members start).map (·.id))) (hkeeps : p.KeepsBodies f) {loopId : String}
    (hloop : loopId ∈ (f.members start).map (·.id)) {id : String} (hid : f.InBody loopId id) :
    id ∈ (f.members start).map (·.id) := by
  induction hid with
  | first hhandles he hsource hhandle _ =>
      exact hstable.entry_mem loopId hloop _
        (mem_bodyEntries.mpr ⟨_, hhandles, _, he, hsource, hhandle, rfl⟩)
  | next hinside he hforward ih =>
      rw [← h.map_id_nodes] at ih ⊢
      exact hkeeps loopId _ he ih ((h.mem_planBody_iff_inBody hf hstable hloop).mpr hinside) hforward

theorem mem_of_takesPart (h : f.Planned start loops p) (hf : f.WellFormed)
    (hstart : start ∈ f.nodes.map (·.id)) (hstable : f.Stable ((f.members start).map (·.id)))
    (hkeeps : p.KeepsBodies f) {id : String} (hid : f.TakesPart start id) :
    id ∈ (f.members start).map (·.id) := by
  induction hid with
  | reached hreach => exact (mem_members_iff hf hstart).mpr (mem_found_of_leadsTo hreach)
  | source he _ ih => exact hstable.source_mem _ he ih
  | inside _ hbody ih => exact h.mem_of_inBody hf hstable hkeeps ih hbody

/-- If all bodies are in the plan, no forward edge leads out of it from inside one. -/
theorem keepsBodies_of_subset (h : f.Planned start loops p) (hf : f.WellFormed)
    (hbodies : ∀ loopId ∈ p.nodes.map (·.id), p.body loopId ⊆ p.nodes.map (·.id)) :
    p.KeepsBodies f := by
  intro loopId e he _ hsource hforward
  rw [h.mem_body_iff hf] at hsource
  obtain ⟨l, hl, rfl, hbody⟩ := mem_scopeOf.mp hsource
  have hloop : l.id ∈ p.nodes.map (·.id) := h.map_id_nodes ▸ h.mem_members_of_mem hl
  refine hbodies l.id hloop ((h.mem_body_iff hf).mpr (mem_scopeOf.mpr ⟨l, hl, rfl, ?_⟩))
  exact h.mem_body_of_edge hf hl he hforward hbody

end Planned

end TypedFlow

namespace Registry

/-- The nodes of a plan belong to the least set that contains what the start leads to, the sources of
edges into it and the bodies of its loops; the first and the second are all there; and so are the third,
or equally the whole set, exactly if no forward edge leads out of the plan from inside a body. -/
theorem members_closed_iff_keepsBodies {r : Registry} {flow : Flow} {start : Option String} {p : Plan}
    (h : r.resolve flow start = .ok p) :
    ∃ f : TypedFlow, r.typeFlow flow = .ok f ∧ f.edges = flow.edges ∧
      (∀ id ∈ p.nodes.map (·.id), f.TakesPart p.start id) ∧
      (∀ id, f.LeadsTo p.start id → id ∈ p.nodes.map (·.id)) ∧
      (∀ e ∈ flow.edges, e.target ∈ p.nodes.map (·.id) → e.source ∈ p.nodes.map (·.id)) ∧
      (∀ loopId ∈ p.nodes.map (·.id), ∀ id, id ∈ p.body loopId ↔ f.InBody loopId id) ∧
      ((∀ id, id ∈ p.nodes.map (·.id) ↔ f.TakesPart p.start id) ↔ p.KeepsBodies f) ∧
      ((∀ loopId ∈ p.nodes.map (·.id), p.body loopId ⊆ p.nodes.map (·.id)) ↔ p.KeepsBodies f) := by
  obtain ⟨f, loops, htyped, hfind, hplanned⟩ := exists_typed_of_resolve_eq_ok h
  obtain ⟨hedges, -, -, hf⟩ := wellFormed_of_typeFlow_eq_ok htyped
  have hstart := TypedFlow.mem_of_findStart_eq_ok hfind
  have hstable := TypedFlow.stable_members hf hstart
  have hsound : ∀ id ∈ p.nodes.map (·.id), f.TakesPart p.start id := fun id hid =>
    hplanned.takesPart_of_mem hf hstart hstable (hplanned.map_id_nodes ▸ hid)
  have hbody : ∀ loopId ∈ p.nodes.map (·.id), ∀ id, id ∈ p.body loopId ↔ f.InBody loopId id :=
    fun loopId hloop id =>
      hplanned.mem_planBody_iff_inBody hf hstable (hplanned.map_id_nodes ▸ hloop)
  have hsubset : (∀ id, id ∈ p.nodes.map (·.id) ↔ f.TakesPart p.start id) →
      ∀ loopId ∈ p.nodes.map (·.id), p.body loopId ⊆ p.nodes.map (·.id) := fun hall loopId hloop id hid =>
    (hall id).mpr (.inside (hsound loopId hloop) ((hbody loopId hloop id).mp hid))
  have hcomplete : p.KeepsBodies f → ∀ id, id ∈ p.nodes.map (·.id) ↔ f.TakesPart p.start id :=
    fun hkeeps id => ⟨hsound id, fun hid =>
      hplanned.map_id_nodes ▸ hplanned.mem_of_takesPart hf hstart hstable hkeeps hid⟩
  refine ⟨f, htyped, hedges, hsound, fun id hid => ?_, ?_, hbody, ?_, ?_⟩
  · rw [hplanned.map_id_nodes, TypedFlow.mem_members_iff hf hstart]
    exact TypedFlow.mem_found_of_leadsTo hid
  · rw [hplanned.map_id_nodes, ← hedges]
    exact hstable.source_mem
  · exact ⟨fun hall => hplanned.keepsBodies_of_subset hf (hsubset hall), hcomplete⟩
  · exact ⟨hplanned.keepsBodies_of_subset hf, fun hkeeps => hsubset (hcomplete hkeeps)⟩

/-- A loop that takes part as a source only, all of its body with it. -/
def sourceLoop : Flow where
  nodes := [⟨"s", "start", .null⟩, ⟨"list", "json", .object [("value", .array [.bool true])]⟩,
    ⟨"loop", "forEach", .null⟩, ⟨"x", "log", .null⟩, ⟨"y", "log", .null⟩, ⟨"z", "log", .null⟩,
    ⟨"n", "merge", .null⟩]
  edges := [⟨"e1", "s", none, "n", none⟩, ⟨"e2", "list", none, "loop", some "items"⟩,
    ⟨"e3", "loop", some "item", "x", none⟩, ⟨"e4", "x", none, "y", none⟩,
    ⟨"e5", "loop", some "done", "z", none⟩, ⟨"e6", "z", none, "n", none⟩]

theorem body_of_sourceLoop_taken :
    ∃ p, Standard.registry.resolve sourceLoop none = .ok p ∧
      (∀ loopId ∈ p.nodes.map (·.id), p.body loopId ⊆ p.nodes.map (·.id)) ∧
      p.body "loop" = ["x", "y"] := by
  have hbody : ((Standard.registry.resolve sourceLoop none).toOption.map fun p =>
      (p.nodes.map (·.id), p.body "loop")) =
        some (["s", "list", "loop", "x", "y", "z", "n"], ["x", "y"]) := by decide +kernel
  obtain ⟨p, hp, heq⟩ := Option.map_eq_some_iff.mp hbody
  obtain ⟨hnodes, hbody⟩ := Prod.mk.inj heq
  have hok := eq_ok_of_toOption_eq_some hp
  refine ⟨p, hok, ?_, hbody⟩
  obtain ⟨f, -, hedges, -, -, -, -, -, hall⟩ := members_closed_iff_keepsBodies hok
  refine hall.mpr fun loopId e he _ _ _ => ?_
  have htargets : ∀ e ∈ sourceLoop.edges, e.target ∈ ["s", "list", "loop", "x", "y", "z", "n"] := by
    decide
  rw [hnodes]
  exact htargets e (hedges ▸ he)

/-- A loop with a node in its body that is found as a source, as the loop is; the walk into the body
does not go on from there. -/
def cutBody : Flow where
  nodes := [⟨"s", "start", .null⟩, ⟨"list", "json", .object [("value", .array [.bool true])]⟩,
    ⟨"loop", "forEach", .null⟩, ⟨"x", "log", .null⟩, ⟨"n", "merge", .null⟩, ⟨"y", "log", .null⟩]
  edges := [⟨"e1", "s", none, "n", none⟩, ⟨"e2", "list", none, "loop", some "items"⟩,
    ⟨"e3", "loop", some "item", "x", none⟩, ⟨"e4", "x", none, "n", none⟩,
    ⟨"e5", "x", none, "y", none⟩]

/-- The node `y` lies in the body of a loop of the plan and takes part, but the plan misses it. -/
theorem cutBody_missed :
    ∃ p f, Standard.registry.resolve cutBody none = .ok p ∧
      Standard.registry.typeFlow cutBody = .ok f ∧ "loop" ∈ p.nodes.map (·.id) ∧
      "y" ∈ p.body "loop" ∧ f.TakesPart p.start "y" ∧ "y" ∉ p.nodes.map (·.id) := by
  have hplan : ((Standard.registry.resolve cutBody none).toOption.map fun p =>
      (p.nodes.map (·.id), p.body "loop", p.start)) =
        some (["s", "list", "loop", "x", "n"], ["x", "n", "y"], "s") := by decide +kernel
  obtain ⟨p, hp, heq⟩ := Option.map_eq_some_iff.mp hplan
  obtain ⟨hnodes, hrest⟩ := Prod.mk.inj heq
  obtain ⟨hbody, hstart⟩ := Prod.mk.inj hrest
  have hflow : ((Standard.registry.typeFlow cutBody).toOption.map fun f =>
      ((f.loopHandles? "loop").map (·.body), f.edges, f.edges.map f.isBackEdge)) =
        some (some "item", cutBody.edges, [false, false, false, false, false]) := by decide +kernel
  obtain ⟨f, hf, heq⟩ := Option.map_eq_some_iff.mp hflow
  obtain ⟨hloop, hrest⟩ := Prod.mk.inj heq
  obtain ⟨hedges, hforward⟩ := Prod.mk.inj hrest
  obtain ⟨handles, hhandles, hitem⟩ := Option.map_eq_some_iff.mp hloop
  have hback : ∀ e ∈ cutBody.edges, f.isBackEdge e = false := by
    intro e he
    have hmem := List.mem_map_of_mem (f := f.isBackEdge) (hedges ▸ he)
    rw [hforward] at hmem
    simpa using hmem
  have hedge : ∀ e ∈ cutBody.edges, e ∈ f.edges := fun e he => hedges ▸ he
  refine ⟨p, f, eq_ok_of_toOption_eq_some hp, eq_ok_of_toOption_eq_some hf, by simp [hnodes],
    by simp [hbody], ?_, by simp [hnodes]⟩
  have hn : f.TakesPart p.start "n" := by
    refine .reached (.single ?_)
    rw [hstart]
    exact TypedFlow.mem_arcs.mpr ⟨⟨"e1", "s", none, "n", none⟩, hedge _ (by decide), rfl, rfl⟩
  have hx : f.TakesPart p.start "x" :=
    .source (e := ⟨"e4", "x", none, "n", none⟩) (hedge _ (by decide)) hn
  have hl : f.TakesPart p.start "loop" :=
    .source (e := ⟨"e3", "loop", some "item", "x", none⟩) (hedge _ (by decide)) hx
  have hinside : f.InBody "loop" "x" :=
    .first (e := ⟨"e3", "loop", some "item", "x", none⟩) hhandles (hedge _ (by decide)) rfl
      (by rw [hitem]) (hback _ (by decide))
  exact .inside hl (.next (e := ⟨"e5", "x", none, "y", none⟩) hinside (hedge _ (by decide))
    (hback _ (by decide)))

end Registry

end FlowGraph
