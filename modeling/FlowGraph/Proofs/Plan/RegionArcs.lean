import FlowGraph.Proofs.Plan.RegionOrder

/-!
The arcs of a region's graph are its constraints, none of them lost. Building the graph passes over an edge
whenever an end has no representative, or one that is not among the direct members. Where the loops nest
properly this does not happen to a node inside the region: at the level of the region, the loop next in the
node's scope stands for it, or else the node itself, and the scope of that loop is what stands before it; so
its nearest loop is the region. An edge is left out, then, only where it closes a loop, where an end lies
outside the region or the plan, or where one member stands for both ends; every other edge is one arc.
-/

namespace FlowGraph.TypedFlow

variable {f : TypedFlow} {planned : List String} {loops : List LoopBody} {region : Option String}

/-- What stands for a node lies in a region around the node. -/
theorem liesAround_of_representative_eq_some {scope : List String} {id a : String}
    (h : representative region scope id = some a) : LiesAround region scope := by
  rintro loopId rfl
  rw [representative] at h
  split at h
  next i hi =>
    obtain ⟨hlt, hloop, -⟩ := List.findIdx?_eq_some_iff_getElem.mp hi
    obtain rfl : scope[i] = loopId := by simpa using hloop
    exact List.getElem_mem hlt
  · exact absurd h (by simp)

/-- A planned node inside a region has a representative: a direct member of the region, which is the node
itself or a loop with the node in its body. -/
theorem Nested.exists_representative (h : Nested loops) (hloops : ∀ l ∈ loops, l.id ∈ planned)
    {id : String} (hid : id ∈ planned) (hregion : LiesAround region (scopeOf loops id)) :
    ∃ a, representative region (scopeOf loops id) id = some a ∧
      a ∈ regionMembers planned loops region ∧ (a = id ∨ ∃ l ∈ loops, l.id = a ∧ id ∈ l.body) := by
  obtain ⟨k, hk, rfl⟩ := exists_level hregion
  refine ⟨_, representative_eq (h.nodup_scopeOf id) hk id, h.getD_mem_regionMembers hloops hid k, ?_⟩
  rcases Nat.lt_or_ge k (scopeOf loops id).length with hlt | hge
  · rw [List.getElem?_eq_getElem hlt, Option.getD_some]
    exact Or.inr (mem_scopeOf.mp (List.getElem_mem hlt))
  · rw [List.getElem?_eq_none hge, Option.getD_none]
    exact Or.inl rfl

/-- Whether an edge puts one node before another one in a region: it closes no loop, joins planned nodes,
and these are what the two different nodes stand for. -/
def Constrains (f : TypedFlow) (planned : List String) (loops : List LoopBody)
    (region : Option String) (a b : String) (e : FlowEdge) : Prop :=
  f.isBackEdge e = false ∧ e.source ∈ planned ∧ e.target ∈ planned ∧ a ≠ b ∧
    representative region (scopeOf loops e.source) e.source = some a ∧
    representative region (scopeOf loops e.target) e.target = some b

instance (a b : String) (e : FlowEdge) : Decidable (f.Constrains planned loops region a b e) :=
  inferInstanceAs (Decidable (_ ∧ _ ∧ _ ∧ _ ∧ _ ∧ _))

/-- Where a representative exists it is a member, so no edge is passed over because it is not. -/
theorem Nested.regionArc_eq_some_iff (h : Nested loops) (hloops : ∀ l ∈ loops, l.id ∈ planned)
    {e : FlowEdge} (hsource : e.source ∈ planned) (htarget : e.target ∈ planned) {a b : String} :
    regionArc (regionMembers planned loops region) loops region e = some (a, b) ↔ a ≠ b ∧
      representative region (scopeOf loops e.source) e.source = some a ∧
      representative region (scopeOf loops e.target) e.target = some b := by
  have hmember : ∀ {id c : String}, id ∈ planned →
      representative region (scopeOf loops id) id = some c → c ∈ regionMembers planned loops region := by
    intro id c hid hc
    obtain ⟨c', hc', hmem, -⟩ :=
      h.exists_representative hloops hid (liesAround_of_representative_eq_some hc)
    obtain rfl := Option.some.inj (hc.symm.trans hc')
    exact hmem
  rw [TypedFlow.regionArc_eq_some_iff]
  constructor
  · rintro ⟨ha, hb, hne, -, -⟩
    exact ⟨hne, ha, hb⟩
  · rintro ⟨hne, ha, hb⟩
    exact ⟨ha, hb, hne, hmember hsource ha, hmember htarget hb⟩

/-- The edges that leave different nodes, node by node, are those with one of them as their source. -/
theorem perm_flatMap_outgoing (f : TypedFlow) (hnodup : planned.Nodup) :
    (planned.flatMap f.outgoing).Perm (f.edges.filter (·.source ∈ planned)) := by
  induction planned with
  | nil => simp
  | cons id planned ih =>
      obtain ⟨hid, hnodup⟩ := List.nodup_cons.mp hnodup
      have hfirst : (f.edges.filter (·.source ∈ id :: planned)).filter (·.source = id) =
          f.outgoing id := by
        rw [List.filter_filter]
        refine List.filter_congr fun e _ => ?_
        by_cases he : e.source = id <;> simp [he]
      have hothers : (f.edges.filter (·.source ∈ id :: planned)).filter (!·.source = id) =
          f.edges.filter (·.source ∈ planned) := by
        rw [List.filter_filter]
        refine List.filter_congr fun e _ => ?_
        by_cases he : e.source = id <;> simp [he, hid]
      rw [List.flatMap_cons, ← hfirst]
      exact ((ih hnodup).append_left _).trans
        (hothers ▸ List.filter_append_perm _ (f.edges.filter (·.source ∈ id :: planned)))

/-- Between two members there are as many arcs as edges that put the one before the other. -/
theorem Nested.count_arcs_regionGraph (h : Nested loops) (hloops : ∀ l ∈ loops, l.id ∈ planned)
    (hnodup : planned.Nodup) (a b : String) :
    (f.regionGraph planned loops region).arcs.count (a, b) =
      f.edges.countP fun e => f.Constrains planned loops region a b e := by
  simp only [regionGraph, List.count_filterMap, List.countP_filter, ← List.filter_flatMap]
  rw [(f.perm_flatMap_outgoing hnodup).countP_eq, List.countP_filter]
  refine List.countP_congr fun e _ => ?_
  simp only [Bool.and_eq_true, beq_iff_eq, decide_eq_true_eq, Bool.not_eq_true']
  constructor
  · rintro ⟨⟨⟨harc, htarget⟩, hforward⟩, hsource⟩
    exact ⟨hforward, hsource, htarget, (h.regionArc_eq_some_iff hloops hsource htarget).mp harc⟩
  · rintro ⟨hforward, hsource, htarget, harc⟩
    exact ⟨⟨⟨(h.regionArc_eq_some_iff hloops hsource htarget).mpr harc, htarget⟩, hforward⟩, hsource⟩

end FlowGraph.TypedFlow

namespace FlowGraph.Registry

open TypedFlow

/-- No constraint is lost in a flow whose loops nest properly, whatever the checks after that one find. In
every region, something stands for each planned node inside: a planned node with the region as its nearest
loop, namely the node itself or a loop with the node in its body; and it is a vertex of the region's graph.
From one vertex to another one there are as many arcs as edges that close no loop and join planned nodes for
which the two stand. -/
theorem region_constraints_kept {r : Registry} {flow : Flow} {f : TypedFlow}
    (hf : r.typeFlow flow = .ok f) {start : String} {loops : List LoopBody}
    (hbodies : f.loopBodies (f.members start) = .ok loops) (hnesting : checkNesting loops = .ok ())
    (region : Option String) :
    (∀ id ∈ (f.members start).map (·.id), LiesAround region (scopeOf loops id) →
      ∃ a ∈ (f.members start).map (·.id), representative region (scopeOf loops id) id = some a ∧
        (scopeOf loops a).getLast? = region ∧ (a = id ∨ ∃ l ∈ loops, l.id = a ∧ id ∈ l.body) ∧
        a ∈ (f.regionGraph ((f.members start).map (·.id)) loops region).vertices) ∧
    ∀ a b, (f.regionGraph ((f.members start).map (·.id)) loops region).arcs.count (a, b) =
      f.edges.countP fun e => f.Constrains ((f.members start).map (·.id)) loops region a b e := by
  obtain ⟨-, -, -, hwell⟩ := wellFormed_of_typeFlow_eq_ok hf
  have hnested := nested_of_loopBodies_eq_ok hwell hbodies hnesting
  have hloops := fun l (hl : l ∈ loops) => id_mem_of_loopBodies_eq_ok hbodies hl
  refine ⟨fun id hid hregion => ?_, fun a b => ?_⟩
  · obtain ⟨a, ha, hmem, hbody⟩ := hnested.exists_representative hloops hid hregion
    obtain ⟨hplanned, hlast⟩ := mem_regionMembers.mp hmem
    exact ⟨a, hplanned, ha, hlast, hbody, hmem⟩
  · exact hnested.count_arcs_regionGraph hloops (nodup_members hwell start) a b

/-- Two edges from the top level right into the inner body of a loop inside another one. -/
def crossingTwice : Flow :=
  { crossingLevels with edges := crossingLevels.edges ++ [⟨"e7", "s", none, "sum", none⟩] }

/-- At the top level the outer loop stands for the node where both edges end, and each of them is an arc of
its own; in the region of the outer loop it is the inner one. -/
theorem constraints_of_crossingTwice :
    ∃ f loops, Standard.registry.typeFlow crossingTwice = .ok f ∧
      f.loopBodies (f.members "s") = .ok loops ∧ checkNesting loops = .ok () ∧
      representative none (scopeOf loops "sum") "sum" = some "outer" ∧
      (f.regionGraph ((f.members "s").map (·.id)) loops none).arcs.count ("s", "outer") = 2 ∧
      representative (some "outer") (scopeOf loops "sum") "sum" = some "inner" ∧
      "inner" ∈ (f.regionGraph ((f.members "s").map (·.id)) loops (some "outer")).vertices := by
  have hchecked : ((Standard.registry.typeFlow crossingTwice).toOption.bind fun f =>
      (f.loopBodies (f.members "s")).toOption.bind fun loops =>
        (checkNesting loops).toOption.map fun _ =>
          ((f.members "s").map (·.id), scopeOf loops "sum",
            f.edges.countP fun e => f.Constrains ((f.members "s").map (·.id)) loops none "s" "outer" e)) =
      some (["s", "list", "outer", "inner", "show", "sum"], ["outer", "inner"], 2) := by decide +kernel
  obtain ⟨f, hf, hchecked⟩ := Option.bind_eq_some_iff.mp hchecked
  obtain ⟨loops, hloops, hchecked⟩ := Option.bind_eq_some_iff.mp hchecked
  obtain ⟨_, hnesting, hchecked⟩ := Option.map_eq_some_iff.mp hchecked
  simp only [Prod.mk.injEq] at hchecked
  obtain ⟨hids, hscope, hcount⟩ := hchecked
  have htyped := eq_ok_of_toOption_eq_some hf
  have hbodies := eq_ok_of_toOption_eq_some hloops
  have hnested := eq_ok_of_toOption_eq_some hnesting
  obtain ⟨-, harcs⟩ := region_constraints_kept htyped hbodies hnested none
  obtain ⟨hinside, -⟩ := region_constraints_kept htyped hbodies hnested (some "outer")
  obtain ⟨a, -, ha, -, -, hvertex⟩ := hinside "sum" (by rw [hids]; decide) fun loopId heq =>
    hscope ▸ Option.some.inj heq ▸ List.mem_cons_self
  have hinner : representative (some "outer") (scopeOf loops "sum") "sum" = some "inner" := by
    rw [hscope]
    decide
  obtain rfl := Option.some.inj (ha.symm.trans hinner)
  exact ⟨f, loops, htyped, hbodies, hnested, by rw [hscope]; decide, (harcs _ _).trans hcount, hinner,
    hvertex⟩

end FlowGraph.Registry
