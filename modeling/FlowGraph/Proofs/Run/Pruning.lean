import FlowGraph.Proofs.Plan.Pruning
import FlowGraph.Run.Engine

/-!
What a run takes from its plan: the start, the nodes, the regions, how many loops there are, and which of
the planned nodes lie in the body of a loop. Two plans that agree on these have the same runs. So the nodes
of a flow that are left out of its plan do not matter for any run.
-/

namespace FlowGraph

/-- Whether two plans agree on all that runs take from them. -/
structure Plan.RunsLike (p p' : Plan) : Prop where
  start_eq : p'.start = p.start
  nodes_eq : p'.nodes = p.nodes
  region_eq : ∀ region, p'.region region = p.region region
  loops_eq : p'.loops.length = p.loops.length
  mem_body_iff : ∀ n ∈ p.nodes, ∀ loopId, n.id ∈ p'.body loopId ↔ n.id ∈ p.body loopId

namespace RunSettings

variable {s : RunSettings} {p' : Plan}

theorem carryOut_plan (nodeId : String) (deadline : Option Nat) (steps : List ActivityStep) (r : RunState) :
    { s with plan := p' }.carryOut nodeId deadline steps r = s.carryOut nodeId deadline steps r := by
  induction steps generalizing r with
  | nil => rfl
  | cons step steps ih =>
      cases step with
      | emit e => exact ih _
      | sleep millis =>
          simp only [carryOut, ih]
          rfl

theorem invoke_plan (place : Place) (frame : Frame) (n : PlannedNode) (r : RunState) :
    { s with plan := p' }.invoke place frame n r = s.invoke place frame n r := by
  simp only [invoke, contextOf, carryOut_plan]

theorem visit_plan (place : Place) (n : PlannedNode) (frame : Frame) (r : RunState) :
    { s with plan := p' }.visit place n frame r = s.visit place n frame r := by
  simp only [visit, invoke_plan]
  rfl

theorem iterate_plan (pass : Place → Frame → RunState → Passed) (place : Place) (n : PlannedNode)
    (loop : LoopHandles) (started total : Nat) (frame : Frame) (index : Nat) (elements : List Value)
    (r : RunState) :
    { s with plan := p' }.iterate pass place n loop started total frame index elements r =
      s.iterate pass place n loop started total frame index elements r := by
  induction elements generalizing index r with
  | nil => rfl
  | cons element elements ih =>
      simp only [iterate, ih]
      rfl

end RunSettings

namespace Plan.RunsLike

open RunSettings

variable {s : RunSettings} {p' : Plan} (h : s.plan.RunsLike p')

include h

theorem bodyNodes_eq (loopId : String) :
    { s with plan := p' }.bodyNodes loopId = s.bodyNodes loopId := by
  simp only [bodyNodes, h.nodes_eq]
  refine congrArg _ (List.filter_congr fun n hn => ?_)
  simp only [h.mem_body_iff n hn]

theorem regionNodes_eq (region : Option String) : p'.regionNodes region = s.plan.regionNodes region := by
  have hfind : p'.find? = s.plan.find? := by
    funext id
    rw [Plan.find?, Plan.find?, h.nodes_eq]
  rw [Plan.regionNodes, Plan.regionNodes, h.region_eq, hfind]

theorem skip_eq (place : Place) (n : PlannedNode) (r : RunState) :
    { s with plan := p' }.skip place n r = s.skip place n r := by
  rw [skip, skip, h.bodyNodes_eq]
  rfl

theorem visitLoop_eq (pass : Place → Frame → RunState → Passed) (place : Place) (n : PlannedNode)
    (loop : LoopHandles) (frame : Frame) (r : RunState) :
    { s with plan := p' }.visitLoop pass place n loop frame r =
      s.visitLoop pass place n loop frame r := by
  simp only [visitLoop, h.bodyNodes_eq, iterate_plan, invoke_plan]
  rfl

theorem visitMember_eq (pass : Place → Frame → RunState → Passed) (place : Place) (n : PlannedNode)
    (frame : Frame) (r : RunState) :
    { s with plan := p' }.visitMember pass place n frame r = s.visitMember pass place n frame r := by
  simp only [visitMember, h.visitLoop_eq, visit_plan, h.skip_eq]

theorem visitAll_eq (pass : Place → Frame → RunState → Passed) (place : Place) (ns : List PlannedNode)
    (frame : Frame) (r : RunState) :
    { s with plan := p' }.visitAll pass place ns frame r = s.visitAll pass place ns frame r := by
  induction ns generalizing frame r with
  | nil => rfl
  | cons n ns ih => simp only [visitAll, h.visitMember_eq, ih]

theorem pass_eq (depth : Nat) : { s with plan := p' }.pass depth = s.pass depth := by
  induction depth with
  | zero => rfl
  | succ depth ih =>
      funext place frame r
      simp only [RunSettings.pass, ih, h.regionNodes_eq, h.visitAll_eq]

/-- Plans that agree on all that runs take from them have the same runs. -/
theorem execute_eq : { s with plan := p' }.execute = s.execute := by
  have hinitial : { s with plan := p' }.initial = s.initial := by
    rw [initial, initial, h.nodes_eq]
  simp only [execute, h.pass_eq, h.loops_eq, h.start_eq, hinitial]
  rfl

end Plan.RunsLike

theorem Plan.runsLike_trim (p : Plan) : p.RunsLike p.trim where
  start_eq := rfl
  nodes_eq := rfl
  region_eq := p.region_trim
  loops_eq := List.length_map _
  mem_body_iff n hn loopId := by
    rw [p.body_trim, List.mem_filter, decide_eq_true_eq, and_iff_left (List.mem_map_of_mem hn)]

namespace Registry

/-- Nodes outside of the plan do not matter. A flow without them and without the edges that touch them is
accepted with the same start option; its plan has the same start, the same nodes with their data, bindings
and scopes, the same regions and the same loops, each body without the nodes that are gone; and every run
of it is the same. -/
theorem plan_independent_of_rest {r : Registry} {flow : Flow} {start : Option String} {p : Plan}
    (h : r.resolve flow start = .ok p) :
    ∃ p', r.resolve (flow.keep (p.nodes.map (·.id))) start = .ok p' ∧
      p'.start = p.start ∧ p'.nodes = p.nodes ∧ (∀ id, p'.scope id = p.scope id) ∧
      (∀ region, p'.region region = p.region region) ∧ p'.loops.map (·.id) = p.loops.map (·.id) ∧
      (∀ loopId, p'.body loopId = (p.body loopId).filter (· ∈ p.nodes.map (·.id))) ∧
      ∀ s : RunSettings, s.plan = p → { s with plan := p' }.execute = s.execute := by
  have hloops : p.trim.loops.map (·.id) = p.loops.map (·.id) := by
    rw [Plan.trim, List.map_map]
    rfl
  refine ⟨p.trim, resolve_keep h, rfl, rfl, fun _ => rfl, p.region_trim, hloops, p.body_trim, ?_⟩
  rintro s rfl
  exact s.plan.runsLike_trim.execute_eq

/-- In `cutBody` the node `y` lies in the body of the loop, but the plan does without it. -/
theorem runs_of_cutBody_without_rest :
    ∃ p p', Standard.registry.resolve cutBody none = .ok p ∧
      Standard.registry.resolve (cutBody.keep ["s", "list", "loop", "x", "n"]) none = .ok p' ∧
      p.body "loop" = ["x", "n", "y"] ∧ p'.body "loop" = ["x", "n"] ∧
      ∀ s : RunSettings, s.plan = p → { s with plan := p' }.execute = s.execute := by
  have hplan : ((Standard.registry.resolve cutBody none).toOption.map fun p =>
      (p.nodes.map (·.id), p.body "loop")) =
        some (["s", "list", "loop", "x", "n"], ["x", "n", "y"]) := by decide +kernel
  obtain ⟨p, hp, heq⟩ := Option.map_eq_some_iff.mp hplan
  obtain ⟨hids, hbody⟩ := Prod.mk.inj heq
  have hok := eq_ok_of_toOption_eq_some hp
  obtain ⟨p', hok', -, -, -, -, -, hbody', hruns⟩ := plan_independent_of_rest hok
  rw [hids] at hok' hbody'
  refine ⟨p, p', hok, hok', hbody, ?_, hruns⟩
  rw [hbody', hbody]
  decide

end Registry

end FlowGraph
