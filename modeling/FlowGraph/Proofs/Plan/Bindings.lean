import FlowGraph.Proofs.Plan.Wiring
import FlowGraph.Standard

/-!
The bindings of a planned node are the edges of the flow that enter it, grouped by its inputs. As long
as no two of its inputs have the same id, no edge is lost and none is bound twice.
-/

namespace FlowGraph

namespace PlannedNode

/-- Whether a binding of the node stands for an edge that enters the node. -/
structure Binds (n : PlannedNode) (e : FlowEdge) (b : Binding) : Prop where
  exists_input : ∃ input ∈ n.handles.inputs, input.id = e.targetHandle ∧ b.input = input.key
  source_eq : b.source = e.source
  sourceHandle_eq : b.sourceHandle = handleKey e.sourceHandle
  edgeId_eq : b.edgeId = e.id
  /-- The edge closes the body of a loop if the node is a loop and the edge enters its `next` input. -/
  backEdge_iff : b.backEdge = true ↔
    ∃ handles, n.kind = .loop handles ∧ e.targetHandle = some handles.next

/-- The position among the inputs of the node of the one that an edge enters. -/
def inputIndex (n : PlannedNode) (e : FlowEdge) : Nat :=
  (n.handles.inputs.map (·.id)).idxOf e.targetHandle

/-- The bindings of the node that stand for edges into an input. Keys do not tell them: the input
without an id shares its key with one whose id is the empty text. -/
def bindingsInto (n : PlannedNode) (edges : List FlowEdge) (input : Handle) : List Binding :=
  n.bindings.filter fun b => edges.any fun e => e.id = b.edgeId && e.targetHandle = input.id

end PlannedNode

namespace TypedFlow

variable {f : TypedFlow} {nodeId : String}

/-- The edges that enter an input of a node, in the order of the flow. -/
def entering (f : TypedFlow) (nodeId : String) (input : Handle) : List FlowEdge :=
  (f.incoming nodeId).filter (·.targetHandle = input.id)

theorem mem_entering {input : Handle} {e : FlowEdge} :
    e ∈ f.entering nodeId input ↔ e ∈ f.incoming nodeId ∧ e.targetHandle = input.id := by
  simp [entering]

/-- The edges that enter the inputs of a node, input by input. -/
def enteringAll (f : TypedFlow) (nodeId : String) (inputs : List Handle) : List FlowEdge :=
  inputs.flatMap (f.entering nodeId)

theorem bindInputs_eq_ok_iff {inputs : List Handle} {bindings : List Binding} :
    f.bindInputs nodeId inputs = .ok bindings ↔
      (∀ input ∈ inputs, checkCount nodeId input (f.entering nodeId input).length = .ok ()) ∧
      bindings = inputs.flatMap fun input => (f.entering nodeId input).map (f.bind input) := by
  induction inputs generalizing bindings with
  | nil => simp [bindInputs, eq_comm]
  | cons input inputs ih =>
      rw [List.forall_mem_cons, List.flatMap_cons]
      constructor
      · intro h
        rw [bindInputs] at h
        obtain ⟨_, hcount, h⟩ := bind_eq_ok h
        obtain ⟨rest, hrest, h⟩ := bind_eq_ok h
        obtain rfl := Except.ok.inj h
        obtain ⟨hcounts, rfl⟩ := ih.mp hrest
        exact ⟨⟨hcount, hcounts⟩, rfl⟩
      · rintro ⟨⟨hcount, hcounts⟩, rfl⟩
        have hcount : checkCount nodeId input
            ((f.incoming nodeId).filter (·.targetHandle = input.id)).length = .ok () := hcount
        rw [bindInputs, hcount, ih.mpr ⟨hcounts, rfl⟩]
        rfl

theorem checkCount_eq_ok_iff {input : Handle} {count : Nat} :
    checkCount nodeId input count = .ok () ↔
      (input.cardinality = .required → count = 1) ∧ (input.cardinality = .optional → count ≤ 1) := by
  rw [checkCount]
  cases input.cardinality
  · simp only [reduceCtorEq, true_and]
    split_ifs <;> simp_all <;> omega
  · simp only [reduceCtorEq, false_and]
    split_ifs <;> simp_all
  · simp

/-- Inputs with different ids divide the edges among them. -/
theorem perm_enteringAll {inputs : List Handle} (hinputs : (inputs.map (·.id)).Nodup)
    (hedges : f.edges.Nodup)
    (hentered : ∀ e ∈ f.incoming nodeId, ∃ input ∈ inputs, e.targetHandle = input.id) :
    (f.enteringAll nodeId inputs).Perm (f.incoming nodeId) := by
  have hincoming : (f.incoming nodeId).Nodup := hedges.filter _
  refine (List.perm_ext_iff_of_nodup ?_ hincoming).mpr fun e => ?_
  · refine List.nodup_flatMap.mpr ⟨fun input _ => hincoming.filter _, ?_⟩
    refine hinputs.of_map.imp_of_mem fun {a b} ha hb hne e hea heb => ?_
    have hid : a.id = b.id := (mem_entering.mp hea).2.symm.trans (mem_entering.mp heb).2
    exact hne (List.inj_on_of_nodup_map hinputs ha hb hid)
  · rw [enteringAll, List.mem_flatMap]
    constructor
    · rintro ⟨input, -, he⟩
      exact (mem_entering.mp he).1
    · intro he
      obtain ⟨input, hinput, hid⟩ := hentered e he
      exact ⟨input, hinput, mem_entering.mpr ⟨he, hid⟩⟩

theorem pairwise_idxOf {α : Type} [BEq α] [LawfulBEq α] {xs : List α} (h : xs.Nodup) :
    xs.Pairwise fun x y => xs.idxOf x < xs.idxOf y := by
  rw [List.pairwise_iff_getElem]
  intro i j hi hj hlt
  rwa [h.idxOf_getElem i hi, h.idxOf_getElem j hj]

/-- Edges go by the position of their input, and into one input by their position in the flow. -/
theorem pairwise_enteringAll {inputs : List Handle} (hinputs : (inputs.map (·.id)).Nodup) :
    (f.enteringAll nodeId inputs).Pairwise fun e e' =>
      (inputs.map (·.id)).idxOf e.targetHandle < (inputs.map (·.id)).idxOf e'.targetHandle ∨
        e.targetHandle = e'.targetHandle ∧ [e, e'].Sublist f.edges := by
  refine List.pairwise_flatMap.mpr ⟨fun input _ => ?_, ?_⟩
  · refine List.pairwise_iff_forall_sublist.mpr fun {e e'} hsublist => Or.inr ⟨?_, ?_⟩
    · have hhandle : ∀ a ∈ [e, e'], a.targetHandle = input.id :=
        fun a ha => (mem_entering.mp (hsublist.subset ha)).2
      rw [hhandle e (by simp), hhandle e' (by simp)]
    · exact hsublist.trans (List.filter_sublist.trans List.filter_sublist)
  · refine (List.pairwise_map.mp (pairwise_idxOf hinputs)).imp fun {a b} hlt e he e' he' => ?_
    rw [(mem_entering.mp he).2, (mem_entering.mp he').2]
    exact Or.inl hlt

namespace Planned

variable {start : String} {loops : List LoopBody} {p : Plan}

theorem binds_bind (h : f.Planned start loops p) (hf : f.WellFormed) {n : PlannedNode}
    (hn : n ∈ p.nodes) {input : Handle} (hinput : input ∈ n.handles.inputs) {e : FlowEdge}
    (he : e ∈ f.entering n.id input) : n.Binds e (f.bind input e) := by
  obtain ⟨hincoming, hhandle⟩ := mem_entering.mp he
  have hid : n.id = e.target := (of_decide_eq_true (List.mem_filter.mp hincoming).2).symm
  refine ⟨⟨input, hinput, hhandle.symm, rfl⟩, rfl, rfl, rfl, ?_⟩
  refine (h.isBackEdge_eq_true_iff hf hn hid).trans ⟨?_, fun hkind => ⟨n, hn, hid, hkind⟩⟩
  rintro ⟨n', hn', hid', hkind⟩
  obtain rfl := (h.lawful hf).eq_of_id_eq hn hn' (hid.trans hid'.symm)
  exact hkind

theorem binds_enteringAll (h : f.Planned start loops p) (hf : f.WellFormed) {n : PlannedNode}
    (hn : n ∈ p.nodes) : List.Forall₂ n.Binds (f.enteringAll n.id n.handles.inputs) n.bindings := by
  obtain ⟨m, -, hmade⟩ := h.exists_madeFrom hn
  have hbound := (bindInputs_eq_ok_iff.mp hmade.bound).2
  rw [← hmade.id_eq, ← hmade.handles_eq] at hbound
  have heach : ∀ inputs ⊆ n.handles.inputs, List.Forall₂ n.Binds (f.enteringAll n.id inputs)
      (inputs.flatMap fun input => (f.entering n.id input).map (f.bind input)) := by
    intro inputs hsubset
    induction inputs with
    | nil => exact .nil
    | cons input inputs ih =>
        obtain ⟨hinput, hsubset⟩ := List.cons_subset.mp hsubset
        refine List.rel_append ?_ (ih hsubset)
        rw [List.forall₂_map_right_iff, List.forall₂_same]
        exact fun e he => h.binds_bind hf hn hinput he
  rw [hbound]
  exact heach _ (List.Subset.refl _)

/-- As many bindings stand for edges into an input as edges enter it. -/
theorem length_bindingsInto (h : f.Planned start loops p) (hf : f.WellFormed)
    (hids : (f.edges.map (·.id)).Nodup) {n : PlannedNode} (hn : n ∈ p.nodes)
    (hperm : (f.enteringAll n.id n.handles.inputs).Perm (f.incoming n.id)) (input : Handle) :
    (n.bindingsInto f.edges input).length = (f.entering n.id input).length := by
  have hbinds : List.Forall₂ (fun e b => e ∈ f.edges ∧ n.Binds e b)
      (f.enteringAll n.id n.handles.inputs) n.bindings :=
    (List.forall₂_and_left _ _).mpr ⟨fun e he => List.mem_of_mem_filter (hperm.mem_iff.mp he),
      h.binds_enteringAll hf hn⟩
  have htold : ∀ e b, e ∈ f.edges ∧ n.Binds e b → (decide (e.targetHandle = input.id) = true ↔
      (f.edges.any fun e' => e'.id = b.edgeId && e'.targetHandle = input.id) = true) := by
    rintro e b ⟨he, hb⟩
    simp only [decide_eq_true_eq, List.any_eq_true, Bool.and_eq_true]
    constructor
    · exact fun hhandle => ⟨e, he, hb.edgeId_eq.symm, hhandle⟩
    · rintro ⟨e', he', hid, hhandle⟩
      obtain rfl := List.inj_on_of_nodup_map hids he' he (hid.trans hb.edgeId_eq)
      exact hhandle
  rw [PlannedNode.bindingsInto, ← (List.rel_filter htold hbinds).length_eq]
  exact (hperm.filter _).length_eq

end Planned

end TypedFlow

namespace Registry

/-- A binding comes from a planned node, and what closes the body of a loop from a direct member of it. -/
theorem exists_source_of_binding {r : Registry} {flow : Flow} {start : Option String} {p : Plan}
    (h : r.resolve flow start = .ok p) {n : PlannedNode} (hn : n ∈ p.nodes) {b : Binding}
    (hb : b ∈ n.bindings) : ∃ m ∈ p.nodes, m.id = b.source ∧
      (b.backEdge = true → m.scope.getLast? = some n.id) := by
  obtain ⟨f, loops, htyped, hfind, hplanned⟩ := exists_typed_of_resolve_eq_ok h
  obtain ⟨-, -, hchecked, hf⟩ := wellFormed_of_typeFlow_eq_ok htyped
  have hstable := TypedFlow.stable_members hf (TypedFlow.mem_of_findStart_eq_ok hfind)
  obtain ⟨m, _, _, hjoins⟩ := hplanned.exists_joins hf hchecked hstable hn hb
  exact ⟨m, hjoins.source_mem, hjoins.source_eq, fun hback =>
    hplanned.getLast?_scope_of_backEdge hf hjoins.source_mem hn hb hback hjoins.source_eq⟩

/-- The bindings of a planned node whose inputs have different ids are the edges that enter it, each of
them once: by the position of the input, and into one input in the order of the flow. All of them come
from planned nodes, and what closes the body of a loop from a direct member of it. A required input has
one binding, an optional one at most one. -/
theorem bindings_are_incoming_edges {r : Registry} {flow : Flow} {start : Option String} {p : Plan}
    (h : r.resolve flow start = .ok p) {n : PlannedNode} (hn : n ∈ p.nodes)
    (hinputs : (n.handles.inputs.map (·.id)).Nodup) :
    (∃ es : List FlowEdge, es.Perm (flow.incoming n.id) ∧ List.Forall₂ n.Binds es n.bindings ∧
      es.Pairwise fun e e' => n.inputIndex e < n.inputIndex e' ∨
        e.targetHandle = e'.targetHandle ∧ [e, e'].Sublist flow.edges) ∧
    (n.bindings.map (·.edgeId)).Nodup ∧
    (∀ input ∈ n.handles.inputs,
      (input.cardinality = .required → (n.bindingsInto flow.edges input).length = 1) ∧
      (input.cardinality = .optional → (n.bindingsInto flow.edges input).length ≤ 1)) ∧
    ∀ b ∈ n.bindings, ∃ m ∈ p.nodes, m.id = b.source ∧
      (b.backEdge = true → m.scope.getLast? = some n.id) := by
  obtain ⟨f, loops, htyped, -, hplanned⟩ := exists_typed_of_resolve_eq_ok h
  obtain ⟨hedges, -, hchecked, hf⟩ := wellFormed_of_typeFlow_eq_ok htyped
  obtain ⟨hjoined, hids, -⟩ := TypedFlow.checkEdges_eq_ok_iff.mp hchecked
  obtain ⟨t, ht, hmade⟩ := hplanned.exists_madeFrom hn
  have hbinds := hplanned.binds_enteringAll hf hn
  have hentered : ∀ e ∈ f.incoming n.id, ∃ input ∈ n.handles.inputs,
      e.targetHandle = input.id := by
    intro e he
    obtain ⟨he, htarget⟩ := List.mem_filter.mp he
    obtain ⟨-, target, -, input, -, htarget', -, hinput, -⟩ :=
      TypedFlow.exists_handles_of_checkEdge_eq_ok (hjoined e he)
    obtain rfl := TypedFlow.Planned.eq_of_find? hf ht
      ((of_decide_eq_true htarget).trans hmade.id_eq) htarget'
    rw [hmade.handles_eq]
    have hid : input.id = e.targetHandle := by simpa using List.find?_some hinput
    exact ⟨input, List.mem_of_find?_eq_some hinput, hid.symm⟩
  have hperm := TypedFlow.perm_enteringAll hinputs hids.of_map hentered
  refine ⟨⟨_, hperm.trans ?_, hbinds, ?_⟩, ?_, ?_, fun b hb => exists_source_of_binding h hn hb⟩
  · rw [TypedFlow.incoming, hedges, Flow.incoming]
  · exact hedges ▸ TypedFlow.pairwise_enteringAll hinputs
  · have hmap : n.bindings.map (·.edgeId) =
        (f.enteringAll n.id n.handles.inputs).map (·.id) := by
      rw [← List.forall₂_eq_eq_eq, List.forall₂_map_left_iff, List.forall₂_map_right_iff]
      exact hbinds.flip.imp fun _ _ hb => hb.edgeId_eq
    rw [hmap, (hperm.map _).nodup_iff]
    exact hids.sublist (List.filter_sublist.map _)
  · intro input hinput
    rw [← hedges, hplanned.length_bindingsInto hf hids hn hperm input, hmade.id_eq]
    exact TypedFlow.checkCount_eq_ok_iff.mp
      ((TypedFlow.bindInputs_eq_ok_iff.mp hmade.bound).1 input (hmade.handles_eq ▸ hinput))

/-- A loop whose body hands a value back; the edge that does comes before the one that brings the
collection. -/
def handingBack : Flow where
  nodes := [⟨"s", "start", .null⟩, ⟨"list", "json", .object [("value", .array [.bool true])]⟩,
    ⟨"loop", "forEach", .null⟩, ⟨"x", "log", .null⟩, ⟨"z", "log", .null⟩, ⟨"n", "merge", .null⟩]
  edges := [⟨"e1", "s", none, "n", none⟩, ⟨"e2", "x", none, "loop", some "next"⟩,
    ⟨"e3", "loop", some "item", "x", none⟩, ⟨"e4", "list", none, "loop", some "items"⟩,
    ⟨"e5", "loop", some "done", "z", none⟩, ⟨"e6", "z", none, "n", none⟩]

/-- The collection is bound first, as its input is, and what is handed back comes from the body. -/
theorem bindings_of_handingBack :
    ∃ p, Standard.registry.resolve handingBack none = .ok p ∧ ∃ n ∈ p.nodes, n.id = "loop" ∧
      (n.handles.inputs.map (·.id)).Nodup ∧
      n.bindings = [⟨"items", "list", "", "e4", false⟩, ⟨"next", "x", "", "e2", true⟩] ∧
      ∃ m ∈ p.nodes, m.id = "x" ∧ m.scope.getLast? = some "loop" := by
  have hplan : ((Standard.registry.resolve handingBack none).toOption.bind fun p =>
      (p.find? "loop").map fun n => (n.handles.inputs.map (·.id), n.bindings)) =
        some ([some "items", some "next"],
          [⟨"items", "list", "", "e4", false⟩, ⟨"next", "x", "", "e2", true⟩]) := by decide +kernel
  obtain ⟨p, hp, hnode⟩ := Option.bind_eq_some_iff.mp hplan
  obtain ⟨n, hn, heq⟩ := Option.map_eq_some_iff.mp hnode
  obtain ⟨hinputs, hbindings⟩ := Prod.mk.inj heq
  have hid : n.id = "loop" := by simpa using List.find?_some hn
  have hmem := List.mem_of_find?_eq_some hn
  have hnodup : (n.handles.inputs.map (·.id)).Nodup := by rw [hinputs]; decide
  obtain ⟨-, -, -, hsources⟩ :=
    bindings_are_incoming_edges (eq_ok_of_toOption_eq_some hp) hmem hnodup
  obtain ⟨m, hm, hmid, hscope⟩ := hsources ⟨"next", "x", "", "e2", true⟩ (by simp [hbindings])
  exact ⟨p, eq_ok_of_toOption_eq_some hp, n, hmem, hid, hnodup, hbindings, m, hm, hmid,
    hid ▸ hscope rfl⟩

end Registry

end FlowGraph
