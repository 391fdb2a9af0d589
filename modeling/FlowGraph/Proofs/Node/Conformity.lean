import FlowGraph.Node.Basic
import FlowGraph.Proofs.Except

/-!
What a run can rely on in the executor of a node. Its result fits the kind and the handles of the node:
every output has a value of its category, a branch leads to an output of the node, a loop hands over an
array, and only what ends a loop or an iteration asks for that. Its errors are no errors of the engine,
and it complains of an input only if that input is missing, or is of a category that the node did not
declare for it.
-/

namespace FlowGraph

/-- The texts by which the engine itself refuses what an executor does. -/
inductive EngineReason : String → Prop
  | strayControl : EngineReason "loop control signal outside of any loop"
  | noOutputs : EngineReason "loop executors must produce outputs"
  | undeclaredBranch (handle : String) : EngineReason s!"branch to undeclared output '{handle}'"

/-- Whether an input has a value whenever its node is called. -/
def Handle.Assured (h : Handle) : Prop :=
  h.cardinality = .required ∨ h.default.isSome = true

/-- The values that a result puts on outputs. -/
def NodeResult.values : NodeResult → Outputs
  | outputs values | branch _ values => values
  | _ => []

namespace Handles

variable (h : Handles)

/-- On an output of a definite category there is a value of that category, if any. -/
def Typed (values : Outputs) : Prop :=
  ∀ output ∈ h.outputs, output.category ≠ .any →
    ∀ v, Dict.get? values output.key = some v → v.category = output.category

/-- Whether an executor may fail in this way on its inputs. -/
def Allows (inputs : Dict Value) : NodeError → Prop
  | .missingInput name =>
    ∃ input ∈ h.inputs, input.key = name ∧ input.Assured ∧ Dict.get? inputs name = none
  | .invalidInputType field _ _ =>
    ∃ input ∈ h.inputs, input.key = field ∧ input.category ≠ .any ∧ input.cardinality ≠ .many ∧
      ∃ v, Dict.get? inputs field = some v ∧ v.category ≠ input.category
  | .executionFailed reason => ¬ EngineReason reason
  | _ => True

end Handles

/-- What the engine assumes of the handles of a loop. -/
structure LoopHandles.Among (loop : LoopHandles) (h : Handles) : Prop where
  required_ne_next : ∀ input ∈ h.inputs, input.cardinality = .required → input.id ≠ some loop.next
  input_ne_body : ∀ input ∈ h.inputs, input.key ≠ loop.body
  output_cases : ∀ output ∈ h.outputs, output.id = some loop.body ∧ output.category = .any ∨
    output.id = some loop.done ∧ output.category = .array
  body_ne_done : loop.body ≠ loop.done

/-- The results that a node of a kind may come to. -/
inductive NodeKind.Yields (kind : NodeKind) (h : Handles) : NodeResult → Prop
  | outputs {values} (hkind : kind.loopHandles? = none) (htyped : h.Typed values)
      (hfilled : ∀ output ∈ h.outputs, (Dict.get? values output.key).isSome = true) :
      Yields kind h (.outputs values)
  /-- The other outputs of a loop are filled by the engine. -/
  | collection {loop values elements} (hkind : kind.loopHandles? = some loop)
      (htyped : h.Typed values) (hbody : Dict.get? values loop.body = some (.array elements)) :
      Yields kind h (.outputs values)
  | branch {output values} (hkind : kind.loopHandles? = none) (hdeclared : output ∈ h.outputs)
      (htyped : h.Typed values) (hfilled : (Dict.get? values output.key).isSome = true) :
      Yields kind h (.branch output.key values)
  | loopBreak (hkind : kind = .loopControl) (hnone : h.outputs = []) : Yields kind h .loopBreak
  | loopContinue (hkind : kind = .loopControl) (hnone : h.outputs = []) :
      Yields kind h .loopContinue
  | flowEnd (hkind : kind.loopHandles? = none) (hnone : h.outputs = []) : Yields kind h .flowEnd

theorem NodeKind.Yields.typed {kind : NodeKind} {h : Handles} {result : NodeResult}
    (hyields : kind.Yields h result) : h.Typed result.values := by
  cases hyields with
  | outputs _ htyped | collection _ htyped | branch _ _ htyped => exact htyped
  | loopBreak | loopContinue | flowEnd => exact fun _ _ _ v hv => absurd hv (by simp [NodeResult.values])

theorem NodeKind.Yields.exists_array {kind : NodeKind} {h : Handles} {result : NodeResult}
    (hyields : kind.Yields h result) {loop : LoopHandles} (hkind : kind.loopHandles? = some loop) :
    ∃ values elements, result = .outputs values ∧
      Dict.get? values loop.body = some (.array elements) := by
  cases hyields with
  | collection hkind' _ hbody =>
      obtain rfl := Option.some.inj (hkind.symm.trans hkind')
      exact ⟨_, _, rfl, hbody⟩
  | outputs hnone | branch hnone | flowEnd hnone => exact absurd (hkind.symm.trans hnone) (by simp)
  | loopBreak hcontrol | loopContinue hcontrol =>
      rw [hcontrol] at hkind
      exact absurd hkind (by simp [NodeKind.loopHandles?])

/-- Whether the executor of a node does what a run relies on, whatever it is given. -/
structure Conforms (kind : NodeKind) (h : Handles) (executor : Executor) : Prop where
  nodup_inputs : (h.inputs.map Handle.key).Nodup
  default_fits : ∀ input ∈ h.inputs, ∀ v, input.default = some v → v.category = input.category
  among : ∀ loop, kind.loopHandles? = some loop → loop.Among h
  yields : ∀ ctx result, (executor.run ctx).result = .ok result → kind.Yields h result
  allows : ∀ ctx e, (executor.run ctx).result = .error e → h.Allows ctx.inputs e

/-- An executor that comes to the same result whatever it is given. -/
theorem Conforms.of_result {kind : NodeKind} {h : Handles} {executor : Executor} {result : NodeResult}
    (hkind : kind.loopHandles? = none) (hnodup : (h.inputs.map Handle.key).Nodup)
    (hdefault : ∀ input ∈ h.inputs, ∀ v, input.default = some v → v.category = input.category)
    (hyields : kind.Yields h result) (hresult : ∀ ctx, (executor.run ctx).result = .ok result) :
    Conforms kind h executor := by
  refine ⟨hnodup, hdefault, fun loop hloop => ?_, fun ctx result' hok => ?_, fun ctx e herror => ?_⟩
  · exact absurd (hkind.symm.trans hloop) (by simp)
  · obtain rfl := Except.ok.inj ((hresult ctx).symm.trans hok)
    exact hyields
  · exact absurd ((hresult ctx).symm.trans herror) (by simp)

theorem Context.get?_of_requireInput {ctx : Context} {name : String} {v : Value}
    (h : ctx.requireInput name = .ok v) : Dict.get? ctx.inputs name = some v := by
  rw [requireInput] at h
  split at h
  next found hfound =>
    obtain rfl := Except.ok.inj h
    exact hfound
  · exact absurd h (by simp)

namespace Handles

variable {h : Handles} {ctx : Context} (input : Handle) {e : NodeError}

theorem allows_of_requireInput (hinput : input ∈ h.inputs) (hassured : input.Assured)
    (herror : ctx.requireInput input.key = .error e) : h.Allows ctx.inputs e := by
  rw [Context.requireInput] at herror
  split at herror
  · exact absurd herror (by simp)
  next hnone =>
    obtain rfl := Except.error.inj herror
    exact ⟨input, hinput, rfl, hassured, hnone⟩

/-- An executor may refuse what is of another category than it has declared. -/
theorem allows_of_category_ne (hinput : input ∈ h.inputs) (hany : input.category ≠ .any)
    (hone : input.cardinality ≠ .many) {v : Value} (hvalue : ctx.requireInput input.key = .ok v)
    (hne : v.category ≠ input.category) (expected actual : String) :
    h.Allows ctx.inputs (.invalidInputType input.key expected actual) :=
  ⟨input, hinput, rfl, hany, hone, v, Context.get?_of_requireInput hvalue, hne⟩

theorem allows_of_requireText (hinput : input ∈ h.inputs) (hassured : input.Assured)
    (hcategory : input.category = .text) (hone : input.cardinality ≠ .many)
    (herror : ctx.requireText input.key = .error e) : h.Allows ctx.inputs e := by
  rcases bind_eq_error herror with hmissing | ⟨v, hvalue, herror⟩
  · exact allows_of_requireInput input hinput hassured hmissing
  · cases v with
    | text s => exact absurd herror (by simp [Value.text?, pure, Except.pure])
    | _ =>
        obtain rfl := Except.error.inj herror
        exact allows_of_category_ne input hinput (by simp [hcategory]) hone hvalue
          (by simp [hcategory, Value.category]) _ _

theorem allows_of_requireNumber (hinput : input ∈ h.inputs) (hassured : input.Assured)
    (hcategory : input.category = .number) (hone : input.cardinality ≠ .many)
    (herror : ctx.requireNumber input.key = .error e) : h.Allows ctx.inputs e := by
  rcases bind_eq_error herror with hmissing | ⟨v, hvalue, herror⟩
  · exact allows_of_requireInput input hinput hassured hmissing
  · cases v with
    | number x => exact absurd herror (by simp [Value.number?, pure, Except.pure])
    | _ =>
        obtain rfl := Except.error.inj herror
        exact allows_of_category_ne input hinput (by simp [hcategory]) hone hvalue
          (by simp [hcategory, Value.category]) _ _

end Handles

/-- A text that does not begin as the engine's own do is none of them. -/
theorem not_engineReason {reason : String} {c : Char} (hhead : reason.toList.head? = some c)
    (hc : c ≠ 'l' ∧ c ≠ 'b') : ¬ EngineReason reason := by
  rintro (_ | _ | ⟨handle⟩)
  · exact hc.1 (Option.some.inj hhead).symm
  · exact hc.1 (Option.some.inj hhead).symm
  · simp only [toString, String.toList_append] at hhead
    exact hc.2 (Option.some.inj hhead).symm

/-- The results of a node with one output, the one without an id. -/
inductive Handles.Main (h : Handles) (category : Category) (inputs : Dict Value) :
    Except NodeError NodeResult → Prop
  | value {v} (hcategory : category ≠ .any → v.category = category) :
      Main h category inputs (.ok (.outputs [(unnamedKey, v)]))
  | error {e} (hallows : h.Allows inputs e) : Main h category inputs (.error e)

theorem Handles.main_of_ofValue {h : Handles} {category : Category} {ctx : Context}
    {x : Except NodeError Value} (hvalue : ∀ v, x = .ok v → category ≠ .any → v.category = category)
    (herror : ∀ e, x = .error e → h.Allows ctx.inputs e) :
    h.Main category ctx.inputs (Activity.ofValue ctx x).result := by
  cases x with
  | ok v => exact .value (hvalue v rfl)
  | error e => exact .error (herror e rfl)

theorem Conforms.of_main {kind : NodeKind} {h : Handles} {executor : Executor} {category : Category}
    (hkind : kind.loopHandles? = none) (hnodup : (h.inputs.map Handle.key).Nodup)
    (hdefault : ∀ input ∈ h.inputs, ∀ v, input.default = some v → v.category = input.category)
    (houtputs : h.outputs = [.unnamedOutput category])
    (hmain : ∀ ctx, h.Main category ctx.inputs (executor.run ctx).result) :
    Conforms kind h executor := by
  refine ⟨hnodup, hdefault, fun loop hloop => ?_, fun ctx result hresult => ?_, fun ctx e herror => ?_⟩
  · exact absurd (hkind.symm.trans hloop) (by simp)
  · have hmain := hmain ctx
    rw [hresult] at hmain
    cases hmain with
    | @value v hcategory =>
        have hkey : ∀ output ∈ h.outputs, output.key = unnamedKey ∧ output.category = category := by
          intro output houtput
          rw [houtputs] at houtput
          obtain rfl := List.mem_singleton.mp houtput
          exact ⟨rfl, rfl⟩
        refine .outputs hkind (fun output houtput hany w hw => ?_) fun output houtput => ?_
        · obtain ⟨hunnamed, rfl⟩ := hkey output houtput
          rw [hunnamed, Dict.get?_cons, if_pos rfl] at hw
          exact Option.some.inj hw ▸ hcategory hany
        · rw [(hkey output houtput).1, Dict.get?_cons, if_pos rfl]
          rfl
  · have hmain := hmain ctx
    rw [herror] at hmain
    cases hmain with
    | error hallows => exact hallows

/-- Whether all that a node does is to put values on outputs, or to fail: it changes no variables of the
run, and ends neither a loop nor the run. -/
structure Activity.Plain (ctx : Context) (activity : Activity) : Prop where
  store_eq : activity.store = ctx.store
  result_cases : ∀ result, activity.result = .ok result →
    (∃ values, result = .outputs values) ∨ ∃ handle values, result = .branch handle values

namespace Activity.Plain

theorem of_error (ctx : Context) (e : NodeError) : (Activity.ofResult ctx (.error e)).Plain ctx :=
  ⟨rfl, fun _ h => absurd h (by simp [ofResult])⟩

theorem of_outputs {ctx : Context} {steps : List ActivityStep} {values : Outputs} :
    Activity.Plain ctx ⟨steps, .ok (.outputs values), ctx.store⟩ :=
  ⟨rfl, fun _ h => Or.inl ⟨values, (Except.ok.inj h).symm⟩⟩

theorem of_value (ctx : Context) (value : Except NodeError Value) :
    (Activity.ofValue ctx value).Plain ctx := by
  cases value with
  | error e => exact of_error ctx e
  | ok v => exact of_outputs

end Activity.Plain

/-- Whether an executor does nothing else in any visit. -/
def Executor.Plain (executor : Executor) : Prop :=
  ∀ ctx, (executor.run ctx).Plain ctx

end FlowGraph
