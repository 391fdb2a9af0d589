import FlowGraph.Proofs.Standard.Safety

/-!
Edges between definite categories do not go wrong. What the standard nodes put on an output of a definite
category is of that category, so what an edge brings from such an output passes the check at the input
that it may enter, and the test that the executor there makes. Only an output of the category `any` can
bring what an input has to refuse.
-/

namespace FlowGraph

/-- Whether the nodes that a type makes put on every output of a definite category only values of that
category. -/
def NodeType.PutsTyped (t : NodeType) : Prop :=
  ∀ id data view executor, t.describe id data = .ok view → t.create view.data = .ok executor →
    ∀ ctx result, (executor.run ctx).result = .ok result →
      ∀ output ∈ view.handles.outputs, output.category ≠ .any →
        ∀ v, Dict.get? result.values output.key = some v → v ≠ .null ∧ v.category = output.category

theorem Value.ne_null_of_category {v : Value} (h : v.category ≠ .any) : v ≠ .null := by
  rintro rfl
  exact h rfl

theorem NodeType.Conforming.putsTyped {t : NodeType} (h : t.Conforming) : t.PutsTyped := by
  intro id data view executor hview hcreate ctx result hresult output houtput hany v hv
  have htyped := ((h id data view executor hview hcreate).yields ctx result hresult).typed
  have hcategory := htyped output houtput hany v hv
  exact ⟨Value.ne_null_of_category (hcategory ▸ hany), hcategory⟩

/-- A value of the category of an output passes the check at every input that the output may feed. -/
theorem PlannedNode.checkValue_of_isCompatible {output input : Handle}
    (hcompatible : output.category.isCompatible input.category = true) (hany : output.category ≠ .any)
    {v : Value} (hv : v.category = output.category) :
    checkValue input v = .ok () ∧ (input.category ≠ .any → v.category = input.category) := by
  simp only [Category.isCompatible, Bool.or_eq_true, beq_iff_eq, hany, false_or] at hcompatible
  constructor
  · rw [checkValue, if_pos]
    rcases hcompatible with hinput | hequal
    · simp [Category.accepts, Category.isCompatible, hinput]
    · simp [Category.accepts, Category.isCompatible, hv, hequal]
  · intro hinput
    rw [hv]
    exact hcompatible.resolve_left hinput

namespace Registry

/-- The standard nodes put typed values on their outputs. In a run of a flow of them a visit that fails is
the one that the run fails for, and it fails for the category of an input only if an edge into this input
leaves an output of the category `any`; all that completes is typed; and whatever comes over an edge from
an output of a definite category is no null, is of that category and is let in. -/
theorem typed_edges_never_fail (lib : Standard.Libraries) :
    (∀ t ∈ Standard.typesWith lib, t.name ≠ Standard.requestType → t.PutsTyped) ∧
    ∀ (flow : Flow) (start : Option String) (s : RunSettings),
      (Standard.registryWith lib).resolve flow start = .ok s.plan →
      (∀ node ∈ flow.nodes, node.typeName ≠ Standard.requestType) →
      (∀ visit ∈ s.execute.2.trace.visits, visit.status = .failed →
        ∃ failure, s.execute.1 = .error failure ∧ failure.nodeId = visit.nodeId) ∧
      (∀ failure field expected actual, s.execute.1 = .error failure →
        failure.cause = .invalidInputType field expected actual →
        ∃ n ∈ s.plan.nodes, n.id = failure.nodeId ∧ s.plan.FedByAny flow.edges n field) ∧
      (∀ n ∈ s.plan.nodes, ∀ it found, CompletedIn s.execute.2.journal n.id it found →
        n.handles.Typed found.outputs) ∧
      ∀ n b m output input, s.plan.Joins flow.edges n b m output input → output.category ≠ .any →
        ∀ earlier it v, earlier <:+ s.execute.2.journal → s.plan.Carries earlier n it b v →
          v ≠ .null ∧ v.category = output.category ∧ PlannedNode.checkValue input v = .ok () ∧
            (input.category ≠ .any → v.category = input.category) := by
  refine ⟨fun t ht hname => (Standard.conforming_of_mem ht hname).putsTyped,
    fun flow start s h hrequests => ?_⟩
  have hp := lawful_of_resolve_eq_ok h
  have hwired := wired_of_resolve_eq_ok h
  have hconforms := hwired.conforming hrequests
  have hc := RunSettings.reachable_execute hp
  refine ⟨fun visit hvisit hfailed => ?_, fun failure field expected actual hfailure hcause => ?_,
    fun n hn it found hcompleted => ?_,
    fun n b m output input hjoins hany earlier it v hearlier hcarries => ?_⟩
  · exact (RunSettings.accounted_execute hp).exists_failure hvisit hfailed
  · obtain ⟨n, hn, hid, hadmits⟩ := RunSettings.admits_of_execute_eq_error hp hwired hconforms hfailure
    rw [hcause] at hadmits
    exact ⟨n, hn, hid, hadmits.2⟩
  · exact (hc.fits_of_completedIn hp hconforms hn hcompleted).typed
  · have hcategory := hc.typed_of_carries hp hconforms hearlier hjoins hany hcarries
    obtain ⟨hcheck, hequal⟩ :=
      PlannedNode.checkValue_of_isCompatible hjoins.compatible hany hcategory
    exact ⟨Value.ne_null_of_category (hcategory ▸ hany), hcategory, hcheck, hequal⟩

/-- A number is added to one, and a truth value that stands in JSON is read as a text. -/
def anyIntoText : Flow where
  nodes := [⟨"s", "start", .null⟩, ⟨"one", "number", .object [("value", .string "1")]⟩,
    ⟨"sum", "math", .null⟩, ⟨"yes", "json", .object [("value", .bool true)]⟩,
    ⟨"parse", "jsonParse", .null⟩]
  edges := [⟨"e1", "s", none, "one", none⟩, ⟨"e2", "one", none, "sum", some "a"⟩,
    ⟨"e3", "sum", none, "yes", none⟩, ⟨"e4", "yes", none, "parse", none⟩]

/-- The run fails where the output of the category `any` is bound, and not at the numbers. -/
theorem failure_of_anyIntoText :
    ∃ p, Standard.registry.resolve anyIntoText none = .ok p ∧
      let run := RunSettings.execute { plan := p }
      run.1 = .error ⟨"parse", .invalidInputType "" "text" "boolean"⟩ ∧
        (∃ n ∈ p.nodes, n.id = "parse" ∧ p.FedByAny anyIntoText.edges n "") ∧
        ∀ n ∈ p.nodes, ∀ it found, CompletedIn run.2.journal n.id it found →
          n.handles.Typed found.outputs := by
  have hrun : ((Standard.registry.resolve anyIntoText none).toOption.map fun p =>
      failureOf (RunSettings.execute { plan := p }).1) =
      some (some ⟨"parse", .invalidInputType "" "text" "boolean"⟩) := by
    decide +kernel
  obtain ⟨p, hp, hfailure⟩ := Option.map_eq_some_iff.mp hrun
  have hok := eq_ok_of_toOption_eq_some hp
  have herror := eq_error_of_failureOf hfailure
  obtain ⟨-, hfed, htyped, -⟩ := (typed_edges_never_fail .builtIn).2 anyIntoText none { plan := p } hok (by decide)
  exact ⟨p, hok, herror, hfed _ "" "text" "boolean" herror rfl, htyped⟩

end Registry

end FlowGraph
