import FlowGraph.Proofs.Node.Conformity
import FlowGraph.Proofs.Schema
import FlowGraph.Proofs.Standard.FirstMatch
import Mathlib.Data.List.Nodup

/-!
The standard node types conform, the one that sends requests apart: whatever normalised data a node is
made from, its executor does what a run relies on. That is so in every language of conditions.
-/

namespace FlowGraph

theorem NodeType.describe_eq_ok {t : NodeType} {id : String} {data : Json} {view : NodeView}
    (h : t.describe id data = .ok view) : ∃ fields, t.schema.normalize id data = .ok fields ∧
      view = ⟨.object fields, t.handles (.object fields)⟩ := by
  obtain ⟨fields, hfields, h⟩ := bind_eq_ok h
  exact ⟨fields, hfields, (Except.ok.inj h).symm⟩

/-- Whether every node that a type makes from normalised data conforms. -/
def NodeType.Conforming (t : NodeType) : Prop :=
  ∀ id data view executor, t.describe id data = .ok view → t.create view.data = .ok executor →
    Conforms t.kind view.handles executor

/-- A type whose handles do not depend on the data. -/
theorem NodeType.conforming_of_handles {t : NodeType} {h : Handles} (hhandles : ∀ data, t.handles data = h)
    (hconforms : ∀ data executor, t.create data = .ok executor → Conforms t.kind h executor) :
    t.Conforming := by
  intro id data view executor hview hcreate
  obtain ⟨fields, -, rfl⟩ := describe_eq_ok hview
  rw [hhandles]
  exact hconforms _ executor hcreate

namespace Standard

open Condition

variable {language : Language} {lib : Libraries}

theorem start_conforming : start.Conforming := by
  refine NodeType.conforming_of_handles (fun _ => rfl) fun data executor hcreate => ?_
  obtain rfl := Except.ok.inj hcreate
  exact .of_main rfl (by simp) (by simp) rfl fun ctx => .value fun _ => rfl

theorem finish_conforming : finish.Conforming := by
  refine NodeType.conforming_of_handles (fun _ => rfl) fun data executor hcreate => ?_
  obtain rfl := Except.ok.inj hcreate
  exact .of_result rfl (by simp) (by simp [Handle.unnamed]) (.flowEnd rfl rfl) fun _ => rfl

theorem breakLoop_conforming : breakLoop.Conforming := by
  refine NodeType.conforming_of_handles (fun _ => rfl) fun data executor hcreate => ?_
  obtain rfl := Except.ok.inj hcreate
  exact .of_result rfl (by simp) (by simp [Handle.unnamed]) (.loopBreak rfl rfl) fun _ => rfl

theorem continueLoop_conforming : continueLoop.Conforming := by
  refine NodeType.conforming_of_handles (fun _ => rfl) fun data executor hcreate => ?_
  obtain rfl := Except.ok.inj hcreate
  exact .of_result rfl (by simp) (by simp [Handle.unnamed]) (.loopContinue rfl rfl) fun _ => rfl

theorem forEach_conforming : forEach.Conforming := by
  refine NodeType.conforming_of_handles (fun _ => rfl) fun data executor hcreate => ?_
  obtain rfl := Except.ok.inj hcreate
  refine ⟨by decide, by simp [Handle.required, Handle.optional], fun loop hloop => ?_,
    fun ctx result hresult => ?_, fun ctx e herror => ?_⟩
  · obtain rfl : forEachHandles = loop := Option.some.inj hloop
    exact ⟨by decide, by decide, by decide, by decide⟩
  · dsimp only at hresult
    split at hresult
    · exact absurd hresult (by simp [Activity.ofResult])
    next items _ =>
      obtain rfl := Except.ok.inj hresult
      refine .collection rfl (fun output houtput hany v hv => ?_) rfl
      rw [Dict.get?_cons, Dict.get?_nil] at hv
      rcases List.mem_cons.mp houtput with rfl | houtput
      · exact absurd rfl hany
      · obtain rfl := List.mem_singleton.mp houtput
        exact absurd hv (by simp [Handle.key, Handle.output, handleKey, forEachHandles])
  · dsimp only at herror
    split at herror
    next e' hcollection =>
      obtain rfl := Except.error.inj herror
      rw [collectionOf] at hcollection
      split at hcollection
      · exact absurd hcollection (by simp)
      · exact absurd hcollection (by simp)
      · exact absurd hcollection (by simp)
      next v harray _ hv =>
        obtain rfl := Except.error.inj hcollection
        refine ⟨_, List.mem_cons_self, rfl, by simp [Handle.required], by simp [Handle.required], v, hv,
          fun heq => ?_⟩
        cases v with
        | array items => exact harray items rfl
        | _ => exact absurd heq (by simp [Value.category, Handle.required])
    · exact absurd herror (by simp)

theorem decoration_conforming (name : String) (metadata : Metadata) (schema : Schema) :
    (decoration name metadata schema).Conforming := by
  refine NodeType.conforming_of_handles (fun _ => rfl) fun data executor hcreate => ?_
  obtain rfl := Except.ok.inj hcreate
  exact .of_result rfl (by simp) (by simp) (.outputs rfl (by simp [Handles.Typed]) (by simp)) fun _ => rfl

theorem mem_of_firstHolding {compiled : List (Compiled language)} {scope : language.Scope} {id : String}
    (h : firstHolding compiled scope = .ok (some id)) : id ∈ compiled.map (·.id) := by
  induction compiled generalizing scope with
  | nil => exact absurd h (by simp [firstHolding])
  | cons c compiled ih =>
      rw [firstHolding_cons] at h
      split at h
      · exact absurd h (by simp)
      · obtain rfl := Option.some.inj (Except.ok.inj h)
        exact List.mem_cons_self
      · exact List.mem_cons_of_mem _ (ih h)

theorem any_of_mem_ifHandles {data : Json} {output : Handle} (h : output ∈ (ifHandles data).outputs) :
    output.category = .any := by
  rcases List.mem_append.mp h with h | h
  · obtain ⟨c, -, rfl⟩ := List.mem_map.mp h
    rfl
  · obtain rfl := List.mem_singleton.mp h
    rfl

/-- The output that is chosen is that of a condition, or the one for no condition. -/
theorem exists_output_of_firstHolding {data : Json} {compiled : List (Compiled language)}
    {scope : language.Scope} {chosen : Option String}
    (hcompile : compile language (conditionsOf data) = .ok compiled)
    (hchosen : firstHolding compiled scope = .ok chosen) :
    ∃ output ∈ (ifHandles data).outputs, output.key = chosen.getD falseHandle := by
  cases chosen with
  | none => exact ⟨_, List.mem_append_right _ List.mem_cons_self, rfl⟩
  | some id =>
      have hid := mem_of_firstHolding hchosen
      rw [map_id_of_compile hcompile] at hid
      obtain ⟨authored, hauthored, rfl⟩ := List.mem_map.mp hid
      exact ⟨_, List.mem_append_left _ (List.mem_map_of_mem hauthored), rfl⟩

theorem ifElse_conforming (language : Language) : (ifElse language).Conforming := by
  intro id data view executor hview hcreate
  obtain ⟨fields, -, rfl⟩ := NodeType.describe_eq_ok hview
  obtain ⟨compiled, hcompile, hcreate⟩ := bind_eq_ok hcreate
  obtain rfl := Except.ok.inj hcreate
  refine ⟨by simp [ifElse, ifHandles], by simp [ifElse, ifHandles, Handle.unnamed],
    fun _ h => absurd h (by simp [ifElse, NodeKind.loopHandles?]), fun ctx result hresult => ?_,
    fun ctx e herror => ?_⟩
  · dsimp only at hresult
    rcases branchOn_cases compiled ctx with ⟨reason, heq⟩ | ⟨scope, chosen, hchosen, heq⟩
    · rw [heq] at hresult
      exact absurd hresult (by simp [Activity.ofResult])
    · rw [heq] at hresult
      obtain rfl := Except.ok.inj hresult
      obtain ⟨output, houtput, hkey⟩ := exists_output_of_firstHolding hcompile hchosen
      rw [← hkey]
      refine .branch rfl houtput (fun output' houtput' hany => ?_) ?_
      · exact absurd (any_of_mem_ifHandles houtput') hany
      · rw [Dict.get?_cons, if_pos rfl]
        rfl
  · dsimp only at herror
    rcases branchOn_cases compiled ctx with ⟨reason, heq⟩ | ⟨scope, chosen, -, heq⟩
    · rw [heq] at herror
      obtain rfl := Except.error.inj herror
      trivial
    · rw [heq] at herror
      exact absurd herror (by simp [Activity.ofResult])

theorem constant_conforming {name label : String} {category : Category} {kind : FieldKind}
    {default : Json}
    (hcategory : category ≠ .any → ∀ j, FieldSpec.Holds ⟨"value", kind, some default⟩ j →
      (Value.ofJson j).category = category) :
    (constant name label category kind default).Conforming := by
  intro id data view executor hview hcreate
  obtain ⟨fields, hfields, rfl⟩ := NodeType.describe_eq_ok hview
  obtain ⟨j, hj, hholds⟩ := Schema.holds_of_normalize_eq_ok hfields (f := ⟨"value", kind, some default⟩)
    (by simp [constant, Schema.field, Schema.plain, Schema.ofVersion]) List.mem_cons_self
    (by simp [versionField])
  have hvalue : (Json.object fields).field? "value" = some j := hj
  simp only [constant, hvalue] at hcreate
  obtain rfl := Except.ok.inj hcreate
  exact .of_main rfl (by simp [constant]) (by simp [constant, triggerInput, Handle.unnamed]) rfl
    fun ctx => .value fun hany => hcategory hany j hholds

theorem constantString_conforming : constantString.Conforming := by
  refine constant_conforming fun _ j hj => ?_
  rcases hj with hj | ⟨raw, hj⟩
  · obtain rfl := Option.some.inj hj
    rfl
  · cases raw with
    | string s =>
        obtain rfl := Option.some.inj hj
        rfl
    | _ => exact absurd hj (by simp [FieldKind.coerce])

theorem constantNumber_conforming : constantNumber.Conforming := by
  refine constant_conforming fun _ j hj => ?_
  rcases hj with hj | ⟨raw, hj⟩
  · obtain rfl := Option.some.inj hj
    rfl
  · cases raw with
    | number n =>
        obtain rfl := Option.some.inj hj
        rfl
    | string s =>
        obtain ⟨x, -, hj⟩ := Option.bind_eq_some_iff.mp hj
        obtain ⟨n, -, hj⟩ := Option.bind_eq_some_iff.mp hj
        obtain rfl := Option.some.inj hj
        rfl
    | _ => exact absurd hj (by simp [FieldKind.coerce])

theorem constantBoolean_conforming : constantBoolean.Conforming := by
  refine constant_conforming fun _ j hj => ?_
  rcases hj with hj | ⟨raw, hj⟩
  · obtain rfl := Option.some.inj hj
    rfl
  · cases raw with
    | bool b =>
        obtain rfl := Option.some.inj hj
        rfl
    | _ => exact absurd hj (by simp [FieldKind.coerce])

theorem constantJson_conforming : constantJson.Conforming :=
  constant_conforming fun hany => absurd rfl hany

theorem jsonParse_conforming : jsonParse.Conforming := by
  refine NodeType.conforming_of_handles (fun _ => rfl) fun data executor hcreate => ?_
  obtain rfl := Except.ok.inj hcreate
  refine .of_main rfl (by simp) (by simp [Handle.unnamed]) rfl fun ctx =>
    Handles.main_of_ofValue (fun v _ hany => absurd rfl hany) fun e herror => ?_
  rcases bind_eq_error herror with hread | ⟨text, -, herror⟩
  · exact Handles.allows_of_requireText (.unnamed .text .required) List.mem_cons_self
      (Or.inl rfl) rfl (by simp [Handle.unnamed]) hread
  · split at herror
    · exact absurd herror (by simp [pure, Except.pure])
    · obtain rfl := Except.error.inj herror
      exact not_engineReason (c := 'J') (by simp [toString]) (by decide)

theorem jsonStringify_conforming : jsonStringify.Conforming := by
  refine NodeType.conforming_of_handles (fun _ => rfl) fun data executor hcreate => ?_
  obtain ⟨pretty, -, hcreate⟩ := bind_eq_ok hcreate
  obtain rfl := Except.ok.inj hcreate
  refine .of_main rfl (by simp) (by simp [Handle.unnamed]) rfl fun ctx =>
    Handles.main_of_ofValue (fun v hvalue _ => ?_) fun e herror => ?_
  · obtain ⟨value, -, hvalue⟩ := bind_eq_ok hvalue
    obtain rfl := Except.ok.inj hvalue
    rfl
  · rcases bind_eq_error herror with hmissing | ⟨value, -, herror⟩
    · exact Handles.allows_of_requireInput (.unnamed .any .required) List.mem_cons_self
        (Or.inl rfl) hmissing
    · exact absurd herror (by simp [pure, Except.pure])

theorem not_engineReason_of_apply {op : MathOperation} {a b : Float} {e : NodeError}
    (h : op.apply a b = .error e) : ∃ reason, e = .executionFailed reason ∧ ¬ EngineReason reason := by
  rw [MathOperation.apply] at h
  split at h
  · exact ⟨_, (Except.error.inj h).symm, not_engineReason (c := 'd') (by simp) (by decide)⟩
  · split at h
    · exact absurd h (by simp)
    · exact ⟨_, (Except.error.inj h).symm,
        not_engineReason (c := 'n') (by simp [toString]) (by decide)⟩

theorem math_conforming : math.Conforming := by
  intro id data view executor hview hcreate
  obtain ⟨fields, -, rfl⟩ := NodeType.describe_eq_ok hview
  obtain ⟨name, -, hcreate⟩ := bind_eq_ok hcreate
  split at hcreate
  · exact absurd hcreate (by simp)
  next op _ =>
    obtain rfl := Except.ok.inj hcreate
    refine .of_main rfl (by simp [math, Handle.key, Handle.required, Handle.optional, handleKey]) ?_ rfl
      fun ctx => Handles.main_of_ofValue (fun v hvalue _ => ?_) fun e herror => ?_
    · intro input hinput v hv
      rcases List.mem_cons.mp hinput with rfl | hinput
      · exact absurd hv (by simp [Handle.required])
      · obtain rfl := List.mem_singleton.mp hinput
        obtain rfl := Option.some.inj hv
        rfl
    · obtain ⟨a, -, hvalue⟩ := bind_eq_ok hvalue
      obtain ⟨b, -, hvalue⟩ := bind_eq_ok hvalue
      obtain ⟨x, -, hvalue⟩ := bind_eq_ok hvalue
      obtain rfl := Except.ok.inj hvalue
      rfl
    · rcases bind_eq_error herror with ha | ⟨a, -, herror⟩
      · exact Handles.allows_of_requireNumber (.required "a" .number) List.mem_cons_self
          (Or.inl rfl) rfl (by simp [Handle.required]) ha
      rcases bind_eq_error herror with hb | ⟨b, -, herror⟩
      · -- The default stands for a missing `b`.
        exact Handles.allows_of_requireNumber
          { Handle.optional "b" .number with default := some _ }
          (List.mem_cons_of_mem _ List.mem_cons_self) (Or.inr rfl) rfl (by simp [Handle.optional]) hb
      rcases bind_eq_error herror with hx | ⟨x, -, herror⟩
      · obtain ⟨reason, rfl, hreason⟩ := not_engineReason_of_apply hx
        exact hreason
      · exact absurd herror (by simp [pure, Except.pure])

theorem merge_conforming : merge.Conforming := by
  refine NodeType.conforming_of_handles (fun _ => rfl) fun data executor hcreate => ?_
  obtain rfl := Except.ok.inj hcreate
  exact .of_main rfl (by simp) (by simp [Handle.unnamed]) rfl fun ctx => .value fun _ => rfl

theorem getVariable_conforming : getVariable.Conforming := by
  refine NodeType.conforming_of_handles (fun _ => rfl) fun data executor hcreate => ?_
  obtain ⟨name, -, hcreate⟩ := bind_eq_ok hcreate
  obtain rfl := Except.ok.inj hcreate
  exact .of_main rfl (by simp) (by simp [triggerInput, Handle.unnamed]) rfl
    fun ctx => .value fun hany => absurd rfl hany

theorem setVariable_conforming : setVariable.Conforming := by
  refine NodeType.conforming_of_handles (fun _ => rfl) fun data executor hcreate => ?_
  obtain ⟨name, -, hcreate⟩ := bind_eq_ok hcreate
  obtain rfl := Except.ok.inj hcreate
  refine .of_main rfl (by simp) (by simp [Handle.unnamed]) rfl fun ctx => ?_
  dsimp only
  split
  next e herror =>
    exact .error (Handles.allows_of_requireInput (.unnamed .any .required) List.mem_cons_self
      (Or.inl rfl) herror)
  · exact .value fun hany => absurd rfl hany

theorem log_conforming : log.Conforming := by
  refine NodeType.conforming_of_handles (fun _ => rfl) fun data executor hcreate => ?_
  obtain ⟨message, -, hcreate⟩ := bind_eq_ok hcreate
  obtain ⟨level, -, hcreate⟩ := bind_eq_ok hcreate
  obtain rfl := Except.ok.inj hcreate
  exact .of_main rfl (by simp) (by simp [Handle.unnamed]) rfl
    fun ctx => .value fun hany => absurd rfl hany

theorem delay_conforming : delay.Conforming := by
  refine NodeType.conforming_of_handles (fun _ => rfl) fun data executor hcreate => ?_
  obtain ⟨ms, -, hcreate⟩ := bind_eq_ok hcreate
  obtain rfl := Except.ok.inj hcreate
  exact .of_main rfl (by simp) (by simp [Handle.unnamed]) rfl
    fun ctx => .value fun hany => absurd rfl hany

theorem names_typesWith (lib : Libraries) :
    (typesWith lib).map NodeType.name = all.map NodeType.name := rfl

theorem eq_of_name_eq {t u : NodeType} (ht : t ∈ typesWith lib) (hu : u ∈ typesWith lib)
    (h : t.name = u.name) : t = u :=
  List.inj_on_of_nodup_map (names_typesWith lib ▸ (by decide : (all.map NodeType.name).Nodup)) ht hu h

/-- Every standard type conforms, except the one that sends requests. -/
theorem conforming_of_mem {t : NodeType} (ht : t ∈ typesWith lib) (hname : t.name ≠ requestType) :
    t.Conforming := by
  simp only [typesWith, List.mem_cons, List.not_mem_nil, or_false] at ht
  rcases ht with rfl | rfl | rfl | rfl | rfl | rfl | rfl | rfl | rfl | rfl | rfl | rfl | rfl | rfl |
    rfl | rfl | rfl | rfl | rfl | rfl | rfl
  · exact start_conforming
  · exact ifElse_conforming _
  · exact forEach_conforming
  · exact breakLoop_conforming
  · exact continueLoop_conforming
  · exact finish_conforming
  · exact decoration_conforming _ _ _
  · exact decoration_conforming _ _ _
  · exact constantString_conforming
  · exact constantNumber_conforming
  · exact constantBoolean_conforming
  · exact constantJson_conforming
  · exact jsonParse_conforming
  · exact jsonStringify_conforming
  · exact math_conforming
  · exact merge_conforming
  · exact getVariable_conforming
  · exact setVariable_conforming
  · exact log_conforming
  · exact delay_conforming
  · exact absurd rfl hname

end Standard

theorem Registry.mem_of_get?_registerAll {r : Registry} {types : List NodeType} {name : String}
    {t : NodeType} (h : (r.registerAll types).1.get? name = some t) :
    r.get? name = some t ∨ t ∈ types ∧ t.name = name := by
  induction types generalizing r with
  | nil => exact Or.inl h
  | cons t' types ih =>
      rw [registerAll] at h
      split at h
      next r' hregister =>
        rcases ih h with hfound | ⟨hmem, hname⟩
        · rw [register] at hregister
          split at hregister
          · exact absurd hregister (by simp)
          · obtain rfl := Except.ok.inj hregister
            by_cases hname : name = t'.name
            · subst hname
              rw [get?, Dict.get?_insert_self] at hfound
              obtain rfl := Option.some.inj hfound
              exact Or.inr ⟨List.mem_cons_self, rfl⟩
            · rw [get?, Dict.get?_insert_of_ne _ _ hname] at hfound
              exact Or.inl hfound
        · exact Or.inr ⟨List.mem_cons_of_mem _ hmem, hname⟩
      · exact Or.inl h

theorem Standard.mem_of_get? {lib : Libraries} {name : String} {t : NodeType}
    (h : (registryWith lib).get? name = some t) : t ∈ typesWith lib ∧ t.name = name :=
  (Registry.mem_of_get?_registerAll h).resolve_left (by simp [Registry.get?])

end FlowGraph
