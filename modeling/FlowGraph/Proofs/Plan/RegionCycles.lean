import FlowGraph.Proofs.Graph.TwoPasses
import FlowGraph.Proofs.Plan.Regions

/-!
Regions without an order. What has to run before what in a region follows from the edges that close no loop,
where a nested loop stands for all that lies in its body. A region has an order exactly if this relation has
no cycle; otherwise the error names a node that is on one.
-/

namespace FlowGraph.TypedFlow

variable {f : TypedFlow} {planned : List String} {loops : List LoopBody} {region : Option String}

/-- Whether two direct members of a region are different ones and an edge that closes no loop joins nodes
that they stand for. -/
structure Precedes (f : TypedFlow) (planned : List String) (loops : List LoopBody)
    (region : Option String) (a b : String) : Prop where
  source_mem : a ∈ regionMembers planned loops region
  target_mem : b ∈ regionMembers planned loops region
  ne : a ≠ b
  joined : ∃ e ∈ f.forwardEdges, e.source ∈ planned ∧ e.target ∈ planned ∧
    representative region (scopeOf loops e.source) e.source = some a ∧
    representative region (scopeOf loops e.target) e.target = some b

/-- The arcs of the graph of a region are no more and no less than that. -/
theorem arc_iff_precedes {a b : String} :
    (a, b) ∈ (f.regionGraph planned loops region).arcs ↔ f.Precedes planned loops region a b := by
  rw [mem_arcs_regionGraph]
  constructor
  · rintro ⟨e, he, hsource, hforward, htarget, harc⟩
    obtain ⟨ha, hb, hne, hamem, hbmem⟩ := regionArc_eq_some_iff.mp harc
    have hedge : e ∈ f.forwardEdges := List.mem_filter.mpr ⟨he, by simp [hforward]⟩
    exact ⟨hamem, hbmem, hne, e, hedge, hsource, htarget, ha, hb⟩
  · rintro ⟨hamem, hbmem, hne, e, hedge, hsource, htarget, ha, hb⟩
    obtain ⟨he, hforward⟩ := List.mem_filter.mp hedge
    exact ⟨e, he, hsource, by simpa using hforward, htarget,
      regionArc_eq_some_iff.mpr ⟨ha, hb, hne, hamem, hbmem⟩⟩

theorem onCycle_regionGraph_iff {id : String} : (f.regionGraph planned loops region).OnCycle id ↔
    Relation.TransGen (f.Precedes planned loops region) id id := by
  have hsame : (fun a b => (a, b) ∈ (f.regionGraph planned loops region).arcs) =
      f.Precedes planned loops region := by
    funext a b
    exact propext arc_iff_precedes
  rw [Graph.Digraph.OnCycle, hsame]

theorem regionOrder_eq_ok_iff : (∃ order, f.regionOrder planned loops region = .ok order) ↔
    (f.regionGraph planned loops region).culprit? = none := by
  rw [regionOrder]
  cases (f.regionGraph planned loops region).culprit? <;> simp

theorem regionOrder_eq_error_iff {e : GraphError} : f.regionOrder planned loops region = .error e ↔
    ∃ id, e = .cycle id ∧ (f.regionGraph planned loops region).culprit? = some id := by
  rw [regionOrder]
  cases (f.regionGraph planned loops region).culprit? <;> simp [eq_comm]

/-- A region has an order exactly if its members do not precede one another in a cycle. If it has none, the
error names a member that is on a cycle: the one that the two passes over the graph of the region report,
and they report nothing if there is an order. -/
theorem region_cycles_exact (f : TypedFlow) (planned : List String) (loops : List LoopBody)
    (region : Option String) :
    ((∃ order, f.regionOrder planned loops region = .ok order) ↔
      ∀ id, ¬ Relation.TransGen (f.Precedes planned loops region) id id) ∧
    (∀ e, f.regionOrder planned loops region = .error e →
      ∃ id, e = .cycle id ∧ Relation.TransGen (f.Precedes planned loops region) id id) ∧
    ((∃ order, f.regionOrder planned loops region = .ok order) ↔
      (f.regionGraph planned loops region).Reports none) ∧
    ∀ id, f.regionOrder planned loops region = .error (.cycle id) ↔
      (f.regionGraph planned loops region).Reports (some id) := by
  have hproper := proper_regionGraph f planned loops region
  refine ⟨?_, fun e he => ?_, ?_, fun id => ?_⟩
  · rw [regionOrder_eq_ok_iff, Graph.Digraph.culprit?_eq_none_iff hproper]
    exact forall_congr' fun id => not_congr onCycle_regionGraph_iff
  · obtain ⟨id, rfl, hculprit⟩ := regionOrder_eq_error_iff.mp he
    exact ⟨id, rfl, onCycle_regionGraph_iff.mp (Graph.Digraph.onCycle_of_culprit? hproper hculprit)⟩
  · rw [regionOrder_eq_ok_iff, Graph.Digraph.reports_iff hproper]
  · rw [regionOrder_eq_error_iff, Graph.Digraph.reports_iff hproper]
    exact ⟨fun ⟨_, heq, hculprit⟩ => GraphError.cycle.inj heq ▸ hculprit, fun h => ⟨id, rfl, h⟩⟩

/-- Edges that lead into a cycle, one of them twice. -/
def circular : TypedFlow where
  nodes := []
  edges := [⟨"e1", "a", none, "b", none⟩, ⟨"e2", "b", none, "c", none⟩, ⟨"e3", "c", none, "b", none⟩,
    ⟨"e4", "c", none, "b", some "again"⟩]

/-- The error names a node of the cycle, and not the one that leads into it. -/
theorem circular_names_culprit :
    circular.regionOrder ["a", "b", "c"] [] none = .error (.cycle "c") ∧
      Relation.TransGen (circular.Precedes ["a", "b", "c"] [] none) "c" "c" := by
  have herror : circular.regionOrder ["a", "b", "c"] [] none = .error (.cycle "c") := by decide +kernel
  obtain ⟨id, heq, hcycle⟩ := (region_cycles_exact circular ["a", "b", "c"] [] none).2.1 _ herror
  obtain rfl := GraphError.cycle.inj heq
  exact ⟨herror, hcycle⟩

end FlowGraph.TypedFlow
