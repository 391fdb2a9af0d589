import FlowGraph.Proofs.Node.Conformity
import FlowGraph.Proofs.Plan.Wiring
import FlowGraph.Proofs.Run.Frames

/-!
What a node that is run finds at its inputs, if every live binding carries a value and every value is of
the category of the output that it comes from. No assured input is empty then; and a value that is not
of the category of its input, or is refused for that, has come over an edge from an output of the
category `any`.
-/

namespace FlowGraph

namespace Plan

variable (p : Plan) (edges : List FlowEdge)

/-- What the live bindings of a node carry. -/
structure Supplies (n : PlannedNode) (frames : List Frame) : Prop where
  exists_value : ∀ b ∈ n.forwardBindings, isLive frames b = true → ∃ v, liveValue frames b = some v
  typed : ∀ b ∈ n.forwardBindings, ∀ m output input, p.Joins edges n b m output input →
    output.category ≠ .any → ∀ v, liveValue frames b = some v → v.category = output.category

/-- Whether an edge into an input of a node leaves an output of the category `any`. -/
def FedByAny (n : PlannedNode) (field : String) : Prop :=
  ∃ e ∈ edges, e.target = n.id ∧ handleKey e.targetHandle = field ∧
    ∃ m ∈ p.nodes, m.id = e.source ∧
      ∃ output, m.handles.findOutput e.sourceHandle = some output ∧ output.category = .any

end Plan

theorem Category.category_ne_of_not_accepts {c : Category} {v : Value} (h : c.accepts v ≠ true) :
    c ≠ .any ∧ v.category ≠ c := by
  constructor
  · rintro rfl
    simp [accepts, isCompatible] at h
  · rintro rfl
    simp [accepts, isCompatible] at h

namespace PlannedNode

variable {n : PlannedNode} {frames : List Frame} {input : Handle}

theorem mem_bindingsOf {b : Binding} :
    b ∈ n.bindingsOf input ↔ b ∈ n.forwardBindings ∧ b.input = input.key := by
  rw [bindingsOf, List.mem_filter, decide_eq_true_iff]

theorem exists_live_of_isActive (h : n.isActive frames = true) (hbound : n.forwardBindings ≠ [])
    (hinput : input ∈ n.handles.inputs) (hrequired : input.cardinality = .required) :
    ∃ b ∈ n.bindingsOf input, isLive frames b = true := by
  rw [isActive, Bool.or_eq_true, List.isEmpty_iff, Bool.and_eq_true, List.all_eq_true] at h
  have hall := (h.resolve_left hbound).2 input (List.mem_filter.mpr ⟨hinput, decide_eq_true hrequired⟩)
  exact List.any_eq_true.mp hall

theorem checkValue_eq_error {v : Value} {cause : NodeError} (h : checkValue input v = .error cause) :
    cause = .invalidInputType input.key input.category.name v.typeName ∧ input.category ≠ .any ∧
      v.category ≠ input.category := by
  rw [checkValue] at h
  split_ifs at h with haccepts
  exact ⟨(Except.error.inj h).symm, Category.category_ne_of_not_accepts haccepts⟩

/-- Of several values the first one is refused that is not of the category. -/
theorem exists_of_forM_eq_error {values : List Value} {cause : NodeError}
    (h : values.forM (checkValue input) = .error cause) :
    ∃ before v after, values = before ++ v :: after ∧ (∀ u ∈ before, checkValue input u = .ok ()) ∧
      checkValue input v = .error cause := by
  induction values with
  | nil => exact absurd h (by simp [pure, Except.pure])
  | cons v values ih =>
      rcases bind_eq_error (x := checkValue input v) h with hv | ⟨_, hv, hrest⟩
      · exact ⟨[], v, values, rfl, fun u hu => absurd hu List.not_mem_nil, hv⟩
      · obtain ⟨before, w, after, rfl, hbefore, hw⟩ := ih hrest
        exact ⟨v :: before, w, after, rfl, List.forall_mem_cons.mpr ⟨hv, hbefore⟩, hw⟩

/-- What an input holds that takes one edge at most: the value of a live binding, or the default. -/
theorem inputValue_eq_ok {found : Option Value} (h : n.inputValue frames input = .ok found)
    (hone : input.cardinality ≠ .many) :
    found = (((n.bindingsOf input).filterMap (liveValue frames)).head? <|> input.default) := by
  rw [inputValue, if_neg hone] at h
  split at h
  next v hv =>
    obtain ⟨_, -, h⟩ := bind_eq_ok h
    rw [← Except.ok.inj h, hv]
  next hnone =>
    split_ifs at h
    rw [← Except.ok.inj h, hnone]

theorem isSome_of_inputValue {found : Option Value} (h : n.inputValue frames input = .ok found)
    (hvalue : input.default.isSome = true ∨
      ∃ b ∈ n.bindingsOf input, ∃ v, liveValue frames b = some v) :
    found.isSome = true := by
  by_cases hmany : input.cardinality = .many
  · rw [inputValue, if_pos hmany] at h
    obtain ⟨_, -, h⟩ := bind_eq_ok h
    rw [← Except.ok.inj h]
    rfl
  · rw [inputValue_eq_ok h hmany]
    rcases hvalue with hdefault | ⟨b, hb, v, hv⟩
    · cases ((n.bindingsOf input).filterMap (liveValue frames)).head? with
      | none => exact hdefault
      | some w => rfl
    · have hmem : v ∈ (n.bindingsOf input).filterMap (liveValue frames) :=
        List.mem_filterMap.mpr ⟨b, hb, hv⟩
      obtain ⟨w, values, hvalues⟩ := List.exists_cons_of_ne_nil (List.ne_nil_of_mem hmem)
      rw [hvalues]
      rfl

/-- Where the value of an input comes from. -/
theorem source_of_inputValue {v : Value} (h : n.inputValue frames input = .ok (some v))
    (hone : input.cardinality ≠ .many) :
    input.default = some v ∨ ∃ b ∈ n.bindingsOf input, liveValue frames b = some v := by
  have hfound := inputValue_eq_ok h hone
  cases hvalues : (n.bindingsOf input).filterMap (liveValue frames) with
  | nil =>
      rw [hvalues] at hfound
      exact Or.inl hfound.symm
  | cons w values =>
      rw [hvalues] at hfound
      obtain rfl := Option.some.inj hfound
      exact Or.inr (List.mem_filterMap.mp (hvalues ▸ List.mem_cons_self))

/-- Why an input is refused: a value is not of its category, or a live binding has not got one. -/
theorem inputValue_eq_error {cause : NodeError} (h : n.inputValue frames input = .error cause) :
    (∃ v, (input.default = some v ∨ ∃ b ∈ n.bindingsOf input, liveValue frames b = some v) ∧
      checkValue input v = .error cause) ∨
    ∃ b ∈ n.bindingsOf input, isLive frames b = true ∧
      (n.bindingsOf input).filterMap (liveValue frames) = [] := by
  rw [inputValue] at h
  by_cases hmany : input.cardinality = .many
  · rw [if_pos hmany] at h
    rcases bind_eq_error h with hforM | ⟨_, -, h⟩
    · obtain ⟨before, v, after, hvalues, -, hcheck⟩ := exists_of_forM_eq_error hforM
      exact Or.inl ⟨v, Or.inr (List.mem_filterMap.mp (hvalues ▸ by simp)), hcheck⟩
    · exact absurd h (by simp [pure, Except.pure])
  · rw [if_neg hmany] at h
    cases hvalues : (n.bindingsOf input).filterMap (liveValue frames) with
    | cons w values =>
        rw [hvalues] at h
        rcases bind_eq_error h with hcheck | ⟨_, -, h⟩
        · exact Or.inl ⟨w, Or.inr (List.mem_filterMap.mp (hvalues ▸ List.mem_cons_self)), hcheck⟩
        · exact absurd h (by simp [pure, Except.pure])
    | nil =>
        rw [hvalues] at h
        cases hdefault : input.default with
        | some v =>
            rw [hdefault] at h
            rcases bind_eq_error h with hcheck | ⟨_, -, h⟩
            · exact Or.inl ⟨v, Or.inl rfl, hcheck⟩
            · exact absurd h (by simp [pure, Except.pure])
        | none =>
            rw [hdefault] at h
            simp only [List.head?_nil, Option.orElse_eq_orElse, Option.orElse_eq_or, Option.or_self] at h
            split_ifs at h with hlive
            · obtain ⟨b, hb, hlive⟩ := List.any_eq_true.mp hlive.2
              exact Or.inr ⟨b, hb, hlive, rfl⟩
            · exact absurd h (by simp [pure, Except.pure])

/-- What has been found when an input has been looked at. -/
def withFound (sofar : Dict Value) (key : String) (v : Option Value) : Dict Value :=
  (v.map (Dict.insert sofar key)).getD sofar

theorem get?_withFound_self {sofar : Dict Value} {key : String} (hnew : Dict.get? sofar key = none)
    (v : Option Value) : Dict.get? (withFound sofar key v) key = v := by
  cases v with
  | none => exact hnew
  | some v => exact Dict.get?_insert_self sofar key v

theorem get?_withFound_of_ne (sofar : Dict Value) {key other : String} (v : Option Value)
    (h : other ≠ key) : Dict.get? (withFound sofar key v) other = Dict.get? sofar other := by
  cases v with
  | none => rfl
  | some v => exact Dict.get?_insert_of_ne sofar v h

theorem inputValues_cons {inputs : List Handle} {sofar found : Dict Value}
    (h : n.inputValues frames sofar (input :: inputs) = .ok found) :
    ∃ v, n.inputValue frames input = .ok v ∧
      n.inputValues frames (withFound sofar input.key v) inputs = .ok found := by
  rw [inputValues] at h
  obtain ⟨v, hv, h⟩ := bind_eq_ok h
  refine ⟨v, hv, ?_⟩
  cases v <;> exact h

theorem get?_of_not_mem {inputs : List Handle} {sofar found : Dict Value}
    (h : n.inputValues frames sofar inputs = .ok found) {key : String}
    (hkey : key ∉ inputs.map Handle.key) : Dict.get? found key = Dict.get? sofar key := by
  induction inputs generalizing sofar with
  | nil => rw [Except.ok.inj h]
  | cons input inputs ih =>
      obtain ⟨hne, hrest⟩ := List.ne_and_not_mem_of_not_mem_cons hkey
      obtain ⟨v, -, h⟩ := inputValues_cons h
      rw [ih h hrest, get?_withFound_of_ne sofar v hne]

theorem get?_of_inputValues {inputs : List Handle} {sofar found : Dict Value}
    (h : n.inputValues frames sofar inputs = .ok found) (hnodup : (inputs.map Handle.key).Nodup)
    (hnew : ∀ input ∈ inputs, Dict.get? sofar input.key = none) :
    ∀ input ∈ inputs, n.inputValue frames input = .ok (Dict.get? found input.key) := by
  induction inputs generalizing sofar with
  | nil => exact fun input hinput => absurd hinput List.not_mem_nil
  | cons input inputs ih =>
      obtain ⟨hnot, hnodup⟩ := List.nodup_cons.mp hnodup
      obtain ⟨v, hv, h⟩ := inputValues_cons h
      intro input' hinput'
      rcases List.mem_cons.mp hinput' with rfl | hinput'
      · -- A later input does not overwrite what was found here.
        rw [hv, get?_of_not_mem h hnot, get?_withFound_self (hnew input' List.mem_cons_self)]
      · refine ih h hnodup (fun input'' hinput'' => ?_) input' hinput'
        have hne : input''.key ≠ input.key := by
          intro heq
          exact hnot (heq ▸ List.mem_map_of_mem hinput'')
        rw [get?_withFound_of_ne sofar v hne]
        exact hnew input'' (List.mem_cons_of_mem _ hinput'')

theorem get?_of_resolveInputs {found : Dict Value} (h : n.resolveInputs frames = .ok found)
    (hnodup : (n.handles.inputs.map Handle.key).Nodup) (hinput : input ∈ n.handles.inputs) :
    n.inputValue frames input = .ok (Dict.get? found input.key) :=
  get?_of_inputValues h hnodup (fun _ _ => rfl) input hinput

/-- The first input decides for which no value can be found. -/
theorem exists_of_resolveInputs_eq_error {cause : NodeError}
    (h : n.resolveInputs frames = .error cause) :
    ∃ before input after, n.handles.inputs = before ++ input :: after ∧
      (∀ other ∈ before, ∃ v, n.inputValue frames other = .ok v) ∧
      n.inputValue frames input = .error cause := by
  have hinputs : ∀ inputs sofar, n.inputValues frames sofar inputs = .error cause →
      ∃ before input after, inputs = before ++ input :: after ∧
        (∀ other ∈ before, ∃ v, n.inputValue frames other = .ok v) ∧
        n.inputValue frames input = .error cause := by
    intro inputs
    induction inputs with
    | nil => exact fun sofar h => absurd h (by simp [inputValues])
    | cons input inputs ih =>
        intro sofar h
        rw [inputValues] at h
        rcases bind_eq_error h with hinput | ⟨v, hv, h⟩
        · exact ⟨[], input, inputs, rfl, fun _ hother => absurd hother List.not_mem_nil, hinput⟩
        · have hrest : ∃ sofar, n.inputValues frames sofar inputs = .error cause := by
            cases v <;> exact ⟨_, h⟩
          obtain ⟨sofar, hrest⟩ := hrest
          obtain ⟨before, input', after, rfl, hbefore, herror⟩ := ih sofar hrest
          exact ⟨input :: before, input', after, rfl, List.forall_mem_cons.mpr ⟨⟨v, hv⟩, hbefore⟩, herror⟩
  exact hinputs _ _ h

end PlannedNode

namespace Plan

variable {p : Plan} {registry : Registry} {flow : Flow} {n : PlannedNode} {frames : List Frame}

/-- A value of another category than its input has come from an output of no definite category. -/
theorem Supplies.fedByAny (hsupplies : p.Supplies flow.edges n frames) (hp : p.Wired registry flow)
    (hn : n ∈ p.nodes) (hconforms : Conforms n.kind n.handles n.executor) {input : Handle}
    (hinput : input ∈ n.handles.inputs) {v : Value}
    (hsource : input.default = some v ∨ ∃ b ∈ n.bindingsOf input, liveValue frames b = some v)
    (hany : input.category ≠ .any) (hne : v.category ≠ input.category) :
    p.FedByAny flow.edges n input.key := by
  rcases hsource with hdefault | ⟨b, hb, hv⟩
  · exact absurd (hconforms.default_fits input hinput v hdefault) hne
  · obtain ⟨hbound, hkey⟩ := PlannedNode.mem_bindingsOf.mp hb
    obtain ⟨m, output, input', hjoins⟩ := hp.joined n hn b (List.mem_of_mem_filter hbound)
    obtain rfl : input' = input := List.inj_on_of_nodup_map hconforms.nodup_inputs hjoins.input_mem
      hinput (hjoins.input_key.trans hkey)
    obtain ⟨e, he, hsource, htarget, -, hfind, hid⟩ := hjoins.exists_edge
    refine ⟨e, he, htarget, hid ▸ rfl, m, hjoins.source_mem, hsource.symm, output, hfind, ?_⟩
    by_contra houtput
    have hcategory := hsupplies.typed b hbound m output input' hjoins houtput v hv
    have hcompatible := hjoins.compatible
    simp only [Category.isCompatible, Bool.or_eq_true, beq_iff_eq, houtput, hany, false_or] at hcompatible
    exact hne (hcategory.trans hcompatible)

theorem Supplies.exists_of_assured (hsupplies : p.Supplies flow.edges n frames) (hp : p.Wired registry flow)
    (hn : n ∈ p.nodes) (hconforms : Conforms n.kind n.handles n.executor)
    (hactive : n.isActive frames = true) {inputs : Dict Value}
    (hinputs : n.resolveInputs frames = .ok inputs) {input : Handle}
    (hinput : input ∈ n.handles.inputs) (hassured : input.Assured) :
    ∃ v, Dict.get? inputs input.key = some v := by
  have hvalue := PlannedNode.get?_of_resolveInputs hinputs hconforms.nodup_inputs hinput
  refine Option.isSome_iff_exists.mp (PlannedNode.isSome_of_inputValue hvalue ?_)
  rcases hassured with hrequired | hdefault
  · have hnext : ∀ handles, n.kind = .loop handles → input.id ≠ some handles.next :=
      fun handles hkind => (hconforms.among handles (hkind ▸ rfl)).required_ne_next input hinput hrequired
    obtain ⟨b, hb, -⟩ := hp.required_bound n hn input hinput hrequired hnext
    obtain ⟨b, hb, hlive⟩ := PlannedNode.exists_live_of_isActive hactive (List.ne_nil_of_mem hb) hinput
      hrequired
    exact Or.inr ⟨b, hb, hsupplies.exists_value b (PlannedNode.mem_bindingsOf.mp hb).1 hlive⟩
  · exact Or.inl hdefault

/-- The inputs of a node are refused only for a value from an output of no definite category. -/
theorem Supplies.of_resolveInputs_eq_error (hsupplies : p.Supplies flow.edges n frames)
    (hp : p.Wired registry flow) (hn : n ∈ p.nodes)
    (hconforms : Conforms n.kind n.handles n.executor) {cause : NodeError}
    (h : n.resolveInputs frames = .error cause) : ∃ input ∈ n.handles.inputs, ∃ expected actual,
      cause = .invalidInputType input.key expected actual ∧ p.FedByAny flow.edges n input.key := by
  obtain ⟨before, input, after, hinputs, -, herror⟩ := PlannedNode.exists_of_resolveInputs_eq_error h
  have hinput : input ∈ n.handles.inputs := by simp [hinputs]
  rcases PlannedNode.inputValue_eq_error herror with ⟨v, hsource, hcheck⟩ | ⟨b, hb, hlive, hnone⟩
  · obtain ⟨rfl, hany, hne⟩ := PlannedNode.checkValue_eq_error hcheck
    exact ⟨input, hinput, _, _, rfl, hsupplies.fedByAny hp hn hconforms hinput hsource hany hne⟩
  · obtain ⟨v, hv⟩ := hsupplies.exists_value b (PlannedNode.mem_bindingsOf.mp hb).1 hlive
    have hmem : v ∈ (n.bindingsOf input).filterMap (liveValue frames) :=
      List.mem_filterMap.mpr ⟨b, hb, hv⟩
    exact absurd (hnone ▸ hmem) List.not_mem_nil

end Plan

end FlowGraph
