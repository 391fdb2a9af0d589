import FlowGraph.Proofs.Dict
import FlowGraph.Proofs.Node.Conformity
import FlowGraph.Proofs.Plan.Lawful
import FlowGraph.Proofs.Run.Journal

/-!
What a run tells of each of its nodes: how its visits ended, and what it has put on its outputs, in this
order and without the times. Two runs that do the same work in another order write different journals, but
each node is told about in the same way; so what they do is compared node by node. The parts of the engine
that have nothing to do with the order of a pass are compared here.
-/

namespace FlowGraph

inductive Telling where
  /-- A visit has ended. -/
  | visit (iteration : List Nat) (status : Status) (signal : Option Signal)
  /-- The node has completed with these outputs. -/
  | outputs (values : Outputs)
deriving DecidableEq

def Entry.telling? : Entry → Option (String × Telling)
  | visited v => some (v.nodeId, .visit v.iteration v.status v.signal)
  | sent (.nodeCompleted id outputs _) => some (id, .outputs outputs)
  | _ => none

/-- What a journal tells of a node, the newest first. -/
def tellings (journal : List Entry) (id : String) : List (String × Telling) :=
  (journal.filterMap Entry.telling?).filter (·.1 = id)

/-- The tellings of one node and of no other. -/
def tellingsOf (nodeId : String) (told : List Telling) (id : String) : List (String × Telling) :=
  if id = nodeId then told.map fun t => (nodeId, t) else []

theorem tellings_append (added journal : List Entry) (id : String) :
    tellings (added ++ journal) id = tellings added id ++ tellings journal id := by
  rw [tellings, List.filterMap_append, List.filter_append]
  rfl

theorem tellings_eq_nil {added : List Entry} (h : ∀ e ∈ added, e.telling? = none) (id : String) :
    tellings added id = [] := by
  rw [tellings, List.filterMap_eq_nil_iff.mpr h]
  rfl

theorem tellings_messages (nodeId : String) (events : List NodeEvent) (id : String) :
    tellings (messages nodeId events) id = [] := by
  refine tellings_eq_nil (fun e he => ?_) id
  obtain ⟨event, -, rfl⟩ := List.mem_map.mp he
  rfl

/-- Of nodes that are skipped nothing else is told. -/
theorem tellings_skips {it : List Nat} {ids : List String} (hnodup : ids.Nodup) (id : String) :
    tellings (skips it ids) id =
      if id ∈ ids then tellingsOf id [.visit it .skipped none] id else [] := by
  induction ids with
  | nil => rfl
  | cons id' ids ih =>
      obtain ⟨hnot, hnodup⟩ := List.nodup_cons.mp hnodup
      rw [skips, tellings_append, ih hnodup]
      by_cases hid : id = id'
      · subst hid
        simp [hnot, tellings, Entry.telling?, tellingsOf]
      · simp [hid, Ne.symm hid, tellings, Entry.telling?]

/-- A state of a run that is not cancelled and has no variables. -/
structure RunState.Calm (r : RunState) : Prop where
  live : r.cancelled = false
  store_eq : r.store = []
  sorted_outputs : Dict.Sorted r.outputs
  sorted_statuses : Dict.Sorted r.statuses

/-- Whether a run has come from one state to another one and told this meanwhile. -/
structure RunState.Tells (r : RunState) (told : String → List (String × Telling)) (r' : RunState) :
    Prop where
  calm : r'.Calm
  tellings_eq : ∀ id, tellings r'.journal id = told id ++ tellings r.journal id

theorem RunState.Tells.trans {r r' r'' : RunState} {told told' : String → List (String × Telling)}
    (h : r.Tells told r') (h' : r'.Tells told' r'') : r.Tells (fun id => told' id ++ told id) r'' :=
  ⟨h'.calm, fun id => by rw [h'.tellings_eq, h.tellings_eq, List.append_assoc]⟩

/-- A run that has told nothing meanwhile. -/
abbrev RunState.Silent (r r' : RunState) : Prop := r.Tells (fun _ => []) r'

theorem RunState.Silent.tells {r r' r'' : RunState} {told : String → List (String × Telling)}
    (h : r.Silent r') (h' : r'.Tells told r'') : r.Tells told r'' :=
  ⟨h'.calm, fun id => by rw [h'.tellings_eq, h.tellings_eq, List.nil_append]⟩

theorem RunState.Calm.silent_log {r : RunState} (hr : r.Calm) {e : Entry} (he : e.telling? = none) :
    r.Silent (r.log e) := by
  refine ⟨⟨hr.live, hr.store_eq, hr.sorted_outputs, hr.sorted_statuses⟩, fun id => ?_⟩
  show tellings ([e] ++ r.journal) id = _
  rw [tellings_append, tellings_eq_nil (by simpa using he)]

/-- Whether two runs have told the same meanwhile, and only of the nodes in question. -/
def TellAlike (ids : String → Prop) (r₁ r₁' r₂ r₂' : RunState) : Prop :=
  ∃ told : String → List (String × Telling), (∀ id, told id ≠ [] → ids id) ∧
    r₁.Tells told r₁' ∧ r₂.Tells told r₂'

namespace TellAlike

variable {ids ids' : String → Prop} {r₁ r₁' r₁'' r₂ r₂' r₂'' : RunState}

theorem silent (h₁ : r₁.Silent r₁') (h₂ : r₂.Silent r₂') : TellAlike ids r₁ r₁' r₂ r₂' :=
  ⟨_, fun _ h => absurd rfl h, h₁, h₂⟩

theorem mono (h : TellAlike ids r₁ r₁' r₂ r₂') (hids : ∀ id, ids id → ids' id) :
    TellAlike ids' r₁ r₁' r₂ r₂' := by
  obtain ⟨told, honly, h₁, h₂⟩ := h
  exact ⟨told, fun id hid => hids id (honly id hid), h₁, h₂⟩

theorem trans (h : TellAlike ids r₁ r₁' r₂ r₂') (h' : TellAlike ids r₁' r₁'' r₂' r₂'') :
    TellAlike ids r₁ r₁'' r₂ r₂'' := by
  obtain ⟨told, honly, h₁, h₂⟩ := h
  obtain ⟨told', honly', h₁', h₂'⟩ := h'
  refine ⟨_, fun id hid => ?_, h₁.trans h₁', h₂.trans h₂'⟩
  by_cases hnil : told' id = []
  · exact honly id fun hnil' => hid (by rw [hnil, hnil', List.append_nil])
  · exact honly' id hnil

theorem calm_left (h : TellAlike ids r₁ r₁' r₂ r₂') : r₁'.Calm := by
  obtain ⟨_, -, h₁, -⟩ := h
  exact h₁.calm

theorem calm_right (h : TellAlike ids r₁ r₁' r₂ r₂') : r₂'.Calm := by
  obtain ⟨_, -, -, h₂⟩ := h
  exact h₂.calm

/-- Two runs that are compared with the same run from one of its states on. -/
theorem through {r₃ r₃' : RunState} (h : TellAlike ids r₁ r₁' r₂ r₂')
    (h' : TellAlike ids' r₂ r₂' r₃ r₃') : TellAlike ids r₁ r₁' r₃ r₃' := by
  obtain ⟨told, honly, h₁, h₂⟩ := h
  obtain ⟨told', -, h₂', h₃⟩ := h'
  obtain rfl : told = told' := funext fun id =>
    List.append_cancel_right ((h₂.tellings_eq id).symm.trans (h₂'.tellings_eq id))
  exact ⟨told, honly, h₁, h₃⟩

/-- Two stretches that tell of different nodes may be gone through in either order. -/
theorem swap {r₂₁ : RunState} (h : TellAlike ids r₁ r₁' r₂₁ r₂'')
    (h' : TellAlike ids' r₁' r₁'' r₂ r₂₁) (hapart : ∀ id, ids id → ¬ ids' id) :
    TellAlike (fun id => ids id ∨ ids' id) r₁ r₁'' r₂ r₂'' := by
  obtain ⟨told, honly, h₁, h₂⟩ := h
  obtain ⟨told', honly', h₁', h₂'⟩ := h'
  have hcomm : (fun id => told' id ++ told id) = fun id => told id ++ told' id := by
    funext id
    by_cases hnil : told id = []
    · rw [hnil, List.append_nil, List.nil_append]
    · have hnil' : told' id = [] := by
        by_contra hne
        exact hapart id (honly id hnil) (honly' id hne)
      rw [hnil', List.append_nil, List.nil_append]
  refine ⟨_, fun id hid => ?_, h₁.trans h₁', hcomm ▸ h₂'.trans h₂⟩
  by_cases hnil : told id = []
  · exact Or.inr (honly' id fun hnil' => hid (by rw [hnil, hnil', List.append_nil]))
  · exact Or.inl (honly id hnil)

end TellAlike

namespace RunSettings

/-- Whether steps take longer than the time that is left for them. -/
def overruns : (left : Option Nat) → List ActivityStep → Bool
  | _, [] => false
  | left, .emit _ :: steps => overruns left steps
  | left, .sleep millis :: steps =>
    left.any (· < millis) || overruns (left.map (· - millis)) steps

/-- What a call comes to where nothing is cancelled and there are no variables. -/
def answerOf (s : RunSettings) (place : Place) (frame : Frame) (n : PlannedNode) :
    Except NodeError NodeResult :=
  match n.resolveInputs (frame :: place.enclosing) with
  | .error e => .error e
  | .ok inputs =>
    let activity := n.executor.run (s.contextOf place n inputs [])
    if overruns s.nodeTimeout activity.steps then .error (.timeout (s.nodeTimeout.getD 0))
    else activity.result

/-- Runs that are not cut short, of plain nodes. -/
structure Orderly (s : RunSettings) : Prop where
  lawful : s.plan.Lawful
  /-- The edge that closes the body of a loop comes from a direct member of it. -/
  closing : ∀ n ∈ s.plan.nodes, ∀ b ∈ n.bindings, b.backEdge = true →
    ∀ m ∈ s.plan.nodes, m.id = b.source → m.scope.getLast? = some n.id
  plain : ∀ n ∈ s.plan.nodes, n.executor.Plain
  free : s.cancellation = {}

/-- Two runs of the same nodes, in regions that may be ordered in different ways. -/
structure Twin (s s' : RunSettings) : Prop where
  left : s.Orderly
  right : s'.Orderly
  nodes_perm : s.plan.nodes.Perm s'.plan.nodes
  inputs_eq : s.inputs = s'.inputs
  nodeTimeout_eq : s.nodeTimeout = s'.nodeTimeout

theorem Orderly.twin_self {s : RunSettings} (h : s.Orderly) : s.Twin s :=
  ⟨h, h, .refl _, rfl, rfl⟩

section

variable {s : RunSettings} (h : s.Orderly) {r : RunState}

include h

theorem Orderly.send_eq (e : Event) (r : RunState) : s.send e r = r.log (.sent e) := by
  unfold RunSettings.send RunState.send
  rw [h.free]

theorem Orderly.silent_send (hr : r.Calm) (e : Event) (he : (Entry.sent e).telling? = none) :
    r.Silent (s.send e r) := by
  rw [h.send_eq]
  exact hr.silent_log he

theorem Orderly.silent_start (hr : r.Calm) (n : PlannedNode) : r.Silent (s.start n r) := by
  have hsent := h.silent_send hr (.nodeStarted n.id n.typeName) rfl
  exact ⟨⟨hsent.calm.live, hsent.calm.store_eq, hsent.calm.sorted_outputs,
    hsent.calm.sorted_statuses.insert _⟩, hsent.tellings_eq⟩

theorem Orderly.tells_complete (hr : r.Calm) (place : Place) (n : PlannedNode) (outputs : Outputs)
    (signal : Option Signal) (started : Nat) (frame : Frame) :
    r.Tells (tellingsOf n.id [.visit place.iteration .completed signal, .outputs outputs])
      (s.complete place n outputs signal started frame r).2 := by
  have hjournal := s.journal_complete place n outputs signal started frame r
  refine ⟨?_, fun id => ?_⟩
  · simp only [complete, h.send_eq]
    exact ⟨hr.live, hr.store_eq, hr.sorted_outputs.insert outputs, hr.sorted_statuses.insert _⟩
  · rw [hjournal]
    show tellings ([_, _] ++ r.journal) id = _
    rw [tellings_append]
    by_cases hid : id = n.id
    · subst hid
      simp [tellings, Entry.telling?, tellingsOf]
    · simp [tellings, Entry.telling?, tellingsOf, hid, Ne.symm hid]

theorem Orderly.tells_skipAll (hr : r.Calm) (place : Place) {ids : List String} (hnodup : ids.Nodup) :
    r.Tells (fun id => if id ∈ ids then tellingsOf id [.visit place.iteration .skipped none] id else [])
      (s.skipAll place ids r) := by
  refine ⟨?_, fun id => ?_⟩
  · induction ids generalizing r with
    | nil => exact hr
    | cons id ids ih =>
        have hsent := (h.silent_send hr (.nodeSkipped id) rfl).calm
        exact ih ⟨hsent.live, hsent.store_eq, hsent.sorted_outputs, hsent.sorted_statuses.insert _⟩
          (List.nodup_cons.mp hnodup).2
  · rw [journal_skipAll, tellings_append, tellings_skips hnodup]

theorem Orderly.sleepUntil_eq (hr : r.Calm) (millis : Nat) (left : Option Nat) :
    s.sleepUntil (r.clock + millis) (left.map (r.clock + ·)) r =
      if left.any (· < millis) then
        (some (.timeout (s.nodeTimeout.getD 0)), { r with clock := r.clock + left.getD 0 })
      else (none, { r with clock := r.clock + millis }) := by
  unfold sleepUntil
  simp only [h.free, Cancellation.hasStruck, hr.live, Bool.false_eq_true, false_and, if_false]
  cases left with
  | none => simp
  | some k =>
      by_cases hk : k < millis
      · have hmin : min (r.clock + millis) (r.clock + k) = r.clock + k := by omega
        simp [hk, hmin]
      · simp [hk]

/-- A call takes as long at one time as at another. -/
theorem Orderly.carryOut_spec (hr : r.Calm) (nodeId : String) (left : Option Nat)
    (steps : List ActivityStep) :
    (s.carryOut nodeId (left.map (r.clock + ·)) steps r).1 =
        (if overruns left steps then some (.timeout (s.nodeTimeout.getD 0)) else none) ∧
      (s.carryOut nodeId (left.map (r.clock + ·)) steps r).2.Calm := by
  induction steps generalizing left r with
  | nil => exact ⟨rfl, hr⟩
  | cons step steps ih =>
      cases step with
      | emit e =>
          have hsent := h.silent_send hr (.nodeEvent nodeId e) rfl
          have hrest := ih hsent.calm left
          rw [clock_send] at hrest
          exact hrest
      | sleep millis =>
          rw [carryOut, h.sleepUntil_eq hr, overruns]
          by_cases hover : left.any (· < millis)
          · simp only [hover, if_true, Bool.true_or]
            exact ⟨trivial, hr.live, hr.store_eq, hr.sorted_outputs, hr.sorted_statuses⟩
          · have hleft : left.map (r.clock + ·) =
                (left.map (· - millis)).map (r.clock + millis + ·) := by
              cases left with
              | none => rfl
              | some k =>
                  have hk : millis ≤ k := by simpa using hover
                  simp only [Option.map_some, Option.some.injEq]
                  omega
            simp only [hover, Bool.false_eq_true, if_false, Bool.false_or, hleft]
            exact ih (r := { r with clock := r.clock + millis })
              ⟨hr.live, hr.store_eq, hr.sorted_outputs, hr.sorted_statuses⟩ (left.map (· - millis))

/-- A call comes to the same result at any time. -/
theorem Orderly.invoke_spec (hr : r.Calm) (place : Place) (frame : Frame) {n : PlannedNode}
    (hn : n ∈ s.plan.nodes) :
    (s.invoke place frame n r).1 = s.answerOf place frame n ∧
      r.Silent (s.invoke place frame n r).2 := by
  have hcalls := s.calls_invoke place frame n r
  have hresult : (s.invoke place frame n r).1 = s.answerOf place frame n ∧
      (s.invoke place frame n r).2.Calm := by
    unfold invoke answerOf
    simp only [hr.live, Bool.false_eq_true, if_false]
    cases n.resolveInputs (frame :: place.enclosing) with
    | error e => exact ⟨rfl, hr⟩
    | ok inputs =>
        have hcarried := h.carryOut_spec (r := r.log (.called n.id place.iteration inputs))
          ⟨hr.live, hr.store_eq, hr.sorted_outputs, hr.sorted_statuses⟩ n.id s.nodeTimeout
          (n.executor.run (s.contextOf place n inputs r.store)).steps
        rw [hr.store_eq] at hcarried ⊢
        dsimp only at hcarried ⊢
        generalize s.carryOut _ _ _ _ = carried at hcarried ⊢
        obtain ⟨failed, run⟩ := carried
        obtain ⟨rfl, hcalm⟩ := hcarried
        split_ifs
        · exact ⟨rfl, hcalm⟩
        · refine ⟨rfl, hcalm.live, ?_, hcalm.sorted_outputs, hcalm.sorted_statuses⟩
          exact (h.plain n hn _).store_eq
  refine ⟨hresult.1, hresult.2, fun id => ?_⟩
  generalize (s.invoke place frame n r).2.journal = after at hcalls ⊢
  generalize (s.invoke place frame n r).1 = result at hcalls
  cases hcalls with
  | refused => rfl
  | @cut inputs events =>
      rw [tellings_append, tellings_messages]
      rfl
  | @answered inputs events =>
      show tellings ([_] ++ (_ ++ ([_] ++ r.journal))) id = _
      rw [tellings_append, tellings_append, tellings_append, tellings_messages,
        tellings_eq_nil (by simp [Entry.telling?]), tellings_eq_nil (by simp [Entry.telling?])]
      rfl

end

end RunSettings

end FlowGraph
