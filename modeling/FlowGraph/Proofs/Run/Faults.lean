import FlowGraph.Proofs.Run.Fitting

/-!
For which causes the visits of a conforming plan can fail. No input that the node can count on is
missing, and nothing fails for a reason of the engine's own; and where an input is refused for its
category, it is fed by an output of the category `any`.
-/

namespace FlowGraph

open Plan

/-- The causes for which a visit of a node may fail. -/
def Plan.Admits (p : Plan) (edges : List FlowEdge) (n : PlannedNode) : NodeError → Prop
  | .missingInput _ => False
  | .invalidInputType field _ _ =>
    (∃ input ∈ n.handles.inputs, input.key = field) ∧ p.FedByAny edges n field
  | .executionFailed reason => ¬ EngineReason reason
  | _ => True

namespace RunSettings

variable {s : RunSettings} {registry : Registry} {flow : Flow} {v : OpenVisit} {loops : List OpenLoop}
  {r : RunState}

/-- A call fails because it is cancelled or runs out of time, because an input is refused, or because
its executor fails; and in an active node that does not miss what it has declared. -/
theorem Reachable.admits_of_answered (hp : s.plan.Lawful) (hwired : s.plan.Wired registry flow)
    (hconforms : s.plan.Conforming) {cause : NodeError}
    (h : s.Reachable ⟨.answered v (.error cause), loops, r⟩) :
    s.plan.Admits flow.edges v.node cause := by
  obtain - | ⟨hvisiting, -, -, hstacked⟩ := standing_of_reachable hp h
  have hnode := hvisiting.node_mem
  have hconforms' := hconforms v.node hnode
  have hsupplies := h.supplies hp hwired hconforms hvisiting.level hstacked List.mem_cons_self
  have hcall := h.callResult
  generalize hcause : Except.error cause = result at hcall
  cases hcall with
  | cancelled =>
      obtain rfl := Except.error.inj hcause
      trivial
  | timeout =>
      obtain rfl := Except.error.inj hcause
      trivial
  | unresolved hinputs =>
      obtain rfl := Except.error.inj hcause
      obtain ⟨input, hinput, _, _, rfl, hany⟩ :=
        hsupplies.of_resolveInputs_eq_error hwired hnode hconforms' hinputs
      exact ⟨⟨input, hinput, rfl⟩, hany⟩
  | @returned ctx hinputs =>
      have hallows := hconforms'.allows ctx cause hcause.symm
      cases cause with
      | missingInput name =>
          obtain ⟨input, hinput, rfl, hassured, hnone⟩ := hallows
          obtain ⟨value, hvalue⟩ := hsupplies.exists_of_assured hwired hnode hconforms' hvisiting.active
            hinputs hinput hassured
          exact absurd (hnone.symm.trans hvalue) (by simp)
      | invalidInputType field expected actual =>
          obtain ⟨input, hinput, rfl, hany, hone, value, hvalue, hne⟩ := hallows
          have hfound := PlannedNode.get?_of_resolveInputs hinputs hconforms'.nodup_inputs hinput
          rw [hvalue] at hfound
          exact ⟨⟨input, hinput, rfl⟩, hsupplies.fedByAny hwired hnode hconforms' hinput
            (PlannedNode.source_of_inputValue hfound hone) hany hne⟩
      | executionFailed reason => exact hallows
      | _ => trivial

/-- What conforms is not refused by the engine. -/
theorem checkResult_of_yields {place : Place} {n : PlannedNode} {value : NodeResult}
    (h : n.kind.Yields n.handles value) (hcontrol : n.kind = .loopControl → place.region ≠ none) :
    checkResult place n value = .ok value := by
  cases h with
  | outputs | collection | flowEnd => rfl
  | branch _ hdeclared =>
      rw [checkResult, if_pos (List.any_eq_true.mpr ⟨_, hdeclared, decide_eq_true rfl⟩)]
  | loopBreak hkind | loopContinue hkind => rw [checkResult, if_neg (hcontrol hkind)]

theorem splitCollection_of_yields {n : PlannedNode} {loop : LoopHandles} {value : NodeResult}
    (h : n.kind.Yields n.handles value) (hkind : n.kind.loopHandles? = some loop) :
    ∃ elements outputs, splitCollection loop value = .ok (elements, outputs) := by
  obtain ⟨values, elements, rfl, hbody⟩ := h.exists_array hkind
  rw [splitCollection, hbody]
  exact ⟨_, _, rfl⟩

theorem Reachable.admits (hp : s.plan.Lawful) (hwired : s.plan.Wired registry flow)
    (hconforms : s.plan.Conforming) {cause : NodeError}
    (h : s.Reachable ⟨.settling v (.error cause), loops, r⟩) :
    s.plan.Admits flow.edges v.node cause := by
  rcases h.exists_of_settling_error with rfl | ⟨result, hanswered, hcase⟩
  · trivial
  cases result with
  | error e =>
      have hcause : cause = e := by
        rcases hcase with ⟨-, hfailed⟩ | ⟨loop, -, hfailed⟩ <;> exact (Except.error.inj hfailed).symm
      exact hcause ▸ hanswered.admits_of_answered hp hwired hconforms
  | ok value =>
      have hyields := hanswered.yields hp hconforms
      rcases hcase with ⟨-, hfailed⟩ | ⟨loop, hkind, hfailed⟩
      · have hcontrol : v.node.kind = .loopControl → (placeOf loops).region ≠ none := by
          intro hkind hnone
          obtain - | ⟨hvisiting, -, -, -⟩ := standing_of_reachable hp hanswered
          have hnode := hvisiting.node_mem
          have hlast := hvisiting.level.getLast?_scope hp List.mem_cons_self
          rw [hnone, List.getLast?_eq_none_iff] at hlast
          exact hwired.control_inside v.node hnode hkind hlast
        have hchecked := checkResult_of_yields hyields hcontrol
        exact absurd (hchecked.symm.trans hfailed) (by simp)
      · obtain ⟨elements, outputs, hsplit⟩ := splitCollection_of_yields hyields hkind
        exact absurd (hsplit.symm.trans hfailed) (by simp)

/-- A run fails at a node, and for a cause for which visits of the node may fail. -/
theorem admits_of_execute_eq_error (hp : s.plan.Lawful) (hwired : s.plan.Wired registry flow)
    (hconforms : s.plan.Conforming) {failure : Failure} (h : s.execute.1 = .error failure) :
    ∃ n ∈ s.plan.nodes, n.id = failure.nodeId ∧ s.plan.Admits flow.edges n failure.cause := by
  obtain ⟨frame, exit, r, hleft, hexecute⟩ := exists_leaving_of_execute hp
  rw [hexecute] at h
  have hexit : exit = .failed failure := by
    cases exit with
    | failed f => exact congrArg Exit.failed (Except.error.inj h)
    | _ => exact absurd h (by simp [finish])
  subst hexit
  obtain ⟨v, loops, r', hsettling, hid⟩ := hleft.exists_settling_of_failed hp rfl
  obtain - | - | ⟨hvisiting, -⟩ := standing_of_reachable hp hsettling
  exact ⟨v.node, hvisiting.node_mem, hid,
    hsettling.admits hp hwired hconforms⟩

end RunSettings

end FlowGraph
