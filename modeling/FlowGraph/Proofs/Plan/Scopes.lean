import FlowGraph.Proofs.Plan.RegionOrder

/-!
Scopes are the nesting of loop bodies. A scope is computed by sorting the loops around a node by the
sizes of their bodies; here it is read off the plan that this order is the one in which the loops
enclose each other, that the scope of every loop in it is what stands before it, and that along edges
that close no loop scopes only grow.
-/

namespace FlowGraph

/-- Whether a loop lies inside another one together with its whole body, which is the smaller one. -/
structure Plan.Encloses (p : Plan) (outer inner : String) : Prop where
  mem : inner ∈ p.body outer
  subset : p.body inner ⊆ p.body outer
  not_subset : ¬ p.body outer ⊆ p.body inner
  not_mem : outer ∉ p.body inner

namespace TypedFlow.Planned

variable {f : TypedFlow} {start : String} {loops : List LoopBody} {p : Plan}

theorem body_id (h : f.Planned start loops p) (hf : f.WellFormed) {l : LoopBody} (hl : l ∈ loops) :
    p.body l.id = l.body := by
  obtain ⟨pl, hfind, hbody, -⟩ := h.exists_loop?_eq_some hf hl
  rw [Plan.body, hfind]
  exact hbody

theorem encloses_of_mem_body (h : f.Planned start loops p) (hf : f.WellFormed) {outer inner : LoopBody}
    (houter : outer ∈ loops) (hinner : inner ∈ loops) (hmem : outer.Encloses inner) :
    p.Encloses outer.id inner.id := by
  have hnested := h.nested hf
  obtain ⟨hsub, hnot⟩ := hnested.body_subset houter hinner hmem
  have hself := hnested.not_mem_self inner hinner
  have hout := h.body_id hf houter
  have hin := h.body_id hf hinner
  exact
    { mem := hout ▸ hmem
      subset := by rw [hin, hout]; exact hsub
      -- The inner loop itself is what its own body lacks.
      not_subset := by rw [hin, hout]; exact fun hle => hself (hle hmem)
      not_mem := hin ▸ hnot }

/-- In the scope of a planned node every loop encloses the ones after it. -/
theorem pairwise_scope (h : f.Planned start loops p) (hf : f.WellFormed) {n : PlannedNode}
    (hn : n ∈ p.nodes) : n.scope.Pairwise p.Encloses := by
  rw [h.scope_eq hn, scopeOf_eq, List.pairwise_map]
  refine ((h.nested hf).pairwise_around n.id).imp_of_mem ?_
  intro outer inner houter hinner hmem
  exact h.encloses_of_mem_body hf (mem_around.mp houter).1 (mem_around.mp hinner).1 hmem

end TypedFlow.Planned

/-- A scope lists the planned loops whose bodies contain the node. -/
theorem Plan.Lawful.mem_scope_iff {p : Plan} (h : p.Lawful) {n : PlannedNode} (hn : n ∈ p.nodes)
    {loopId : String} : loopId ∈ n.scope ↔ ∃ l ∈ p.loops, l.id = loopId ∧ n.id ∈ l.body := by
  rw [← h.mem_body n hn]
  constructor
  · intro hmem
    obtain ⟨l, hl, rfl⟩ := h.mem_loops_of_mem_scope hn ((h.mem_body n hn loopId).mp hmem)
    have hfind : p.loop? l.id = some l := find?_id_eq_some h.nodup_loops hl
    rw [Plan.body, hfind] at hmem
    exact ⟨l, hl, rfl, hmem⟩
  · rintro ⟨l, hl, rfl, hmem⟩
    have hfind : p.loop? l.id = some l := find?_id_eq_some h.nodup_loops hl
    rw [Plan.body, hfind]
    exact hmem

namespace Registry

/-- The scopes of an accepted flow are the nesting of its loops. The scope of a planned node lists,
each once, the loops whose bodies contain the node, every one of them enclosing the ones after it; the
loop at each position is planned, and its scope is what stands before it; and along every edge between
planned nodes that closes no loop the scope of the source begins the scope of the target. -/
theorem scopes_are_nesting {r : Registry} {flow : Flow} {start : Option String} {p : Plan}
    (h : r.resolve flow start = .ok p) :
    (∀ n ∈ p.nodes, p.scope n.id = n.scope ∧ n.scope.Nodup ∧
      (∀ loopId, loopId ∈ n.scope ↔ ∃ l ∈ p.loops, l.id = loopId ∧ n.id ∈ l.body) ∧
      n.scope.Pairwise p.Encloses ∧
      ∀ k (hk : k < n.scope.length),
        ∃ m ∈ p.nodes, m.id = n.scope[k] ∧ m.scope = n.scope.take k) ∧
    ∀ e ∈ flow.edges, ¬ p.ClosesLoop e → ∀ u ∈ p.nodes, ∀ v ∈ p.nodes,
      u.id = e.source → v.id = e.target → u.scope <+: v.scope := by
  obtain ⟨f, id, loops, hedges, hf, hplanned⟩ := r.exists_planned_of_resolve_eq_ok h
  have hlawful := hplanned.lawful hf
  constructor
  · intro n hn
    exact ⟨hlawful.scope_id hn, hlawful.scope_nodup n hn, fun _ => hlawful.mem_scope_iff hn,
      hplanned.pairwise_scope hf hn, hlawful.scope_getElem n hn⟩
  · intro e he hforward u hu v hv hsource htarget
    exact hplanned.scope_prefix_of_edge hf (hedges ▸ he) hforward hu hv hsource htarget

/-- In `crossingLevels` the inner loop lies inside the outer one, and the edge from the top level right
into the inner body leads from the empty scope into that of both loops. -/
theorem scopes_of_crossingLevels :
    ∃ p, Standard.registry.resolve crossingLevels none = .ok p ∧
      p.scope "s" = [] ∧ p.scope "sum" = ["outer", "inner"] ∧ p.Encloses "outer" "inner" ∧
      p.scope "s" <+: p.scope "sum" := by
  have hscopes : ((Standard.registry.resolve crossingLevels none).toOption.map fun p =>
      ((p.find? "s").map (·.scope), (p.find? "sum").map (·.scope))) =
        some (some [], some ["outer", "inner"]) := by decide +kernel
  obtain ⟨p, hp, heq⟩ := Option.map_eq_some_iff.mp hscopes
  have hok : Standard.registry.resolve crossingLevels none = .ok p := eq_ok_of_toOption_eq_some hp
  obtain ⟨hs, hsum⟩ := Prod.mk.inj heq
  obtain ⟨u, hu, hus⟩ := Option.map_eq_some_iff.mp hs
  obtain ⟨v, hv, hvs⟩ := Option.map_eq_some_iff.mp hsum
  have huid : u.id = "s" := by simpa using List.find?_some hu
  have hvid : v.id = "sum" := by simpa using List.find?_some hv
  obtain ⟨hnodes, hedges⟩ := scopes_are_nesting hok
  have hpairwise := (hnodes v (List.mem_of_find?_eq_some hv)).2.2.2.1
  have hforward : ¬ p.ClosesLoop ⟨"e6", "s", none, "sum", none⟩ := by
    rintro ⟨n, -, -, handles, -, hnext⟩
    exact absurd hnext (by simp)
  have hprefix := hedges ⟨"e6", "s", none, "sum", none⟩ (by decide) hforward
    u (List.mem_of_find?_eq_some hu) v (List.mem_of_find?_eq_some hv) huid hvid
  rw [hvs] at hpairwise
  refine ⟨p, hok, by rw [Plan.scope, hu]; exact hus, by rw [Plan.scope, hv]; exact hvs,
    List.rel_of_pairwise_cons hpairwise List.mem_cons_self, ?_⟩
  rw [Plan.scope, hu, Plan.scope, hv]
  exact hprefix

end Registry

end FlowGraph
