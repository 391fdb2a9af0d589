import FlowGraph.Proofs.Standard.Conditions
import FlowGraph.Proofs.Standard.FirstMatch
import FlowGraph.Proofs.Standard.Migration

/-!
Data that a standard type accepts is enough to make a node of. Schemas say what a field holds, and executors
are made by reading the fields once more: a text is asked for where the schema has a text, a number where it
has a number, and what is looked up by name is something that the validator has seen before. Only the
expressions of an `if` node are read for the first time when the node is made.
-/

namespace FlowGraph

/-- A field that cannot be null holds something of its kind. -/
theorem FieldSpec.Holds.fits {f : FieldSpec} {j : Json} (h : f.Holds j) (hsound : f.Sound)
    (hdefault : f.default ≠ some .null) (hkind : f.kind ≠ .any) : f.kind.Fits j := by
  rcases h with hj | ⟨raw, hraw⟩
  · rcases hsound j hj with rfl | hfits
    · exact absurd hj hdefault
    · exact hfits
  · refine FieldKind.fits_of_coerce hraw ?_
    cases raw with
    | null => cases hk : f.kind <;> simp_all [FieldKind.coerce]
    | _ => rfl

namespace Schema.Steady

variable {s : Schema} {nodeId : String} {raw : Json} {data : Dict Json}

theorem exists_fits (hs : s.Steady) (h : s.normalize nodeId raw = .ok data) {f : FieldSpec}
    (hf : f ∈ s.fields) (hdefault : f.default ≠ some .null) (hkind : f.kind ≠ .any) :
    ∃ j, Dict.get? data f.name = some j ∧ f.kind.Fits j := by
  have hversion : f.name ≠ versionField := fun heq => hs.version_free (heq ▸ List.mem_map_of_mem hf)
  obtain ⟨j, hj, hholds⟩ := holds_of_normalize_eq_ok h hs.names_nodup hf hversion
  exact ⟨j, hj, hholds.fits (hs.sound f hf) hdefault hkind⟩

/-- What the validator has accepted it accepts with the version written into it. -/
theorem valid_of_normalize (hs : s.Steady) (h : s.normalize nodeId raw = .ok data)
    {check : Dict Json → Except FieldIssue Unit} (hcheck : s.validator = some check) :
    check data = .ok () := by
  obtain ⟨payload, -, hpayload, rfl⟩ := exists_of_normalize_eq_ok hs.names_nodup h
  rw [hs.validator_blind check hcheck]
  exact hpayload.valid check hcheck

theorem exists_textField (hs : s.Steady) (h : s.normalize nodeId raw = .ok data) (name : String)
    {default : Option Json} (hf : ⟨name, .string, default⟩ ∈ s.fields) (hdefault : default ≠ some .null) :
    ∃ text, Dict.get? data name = some (.string text) ∧ textField (.object data) name = .ok text := by
  obtain ⟨j, hj, -, hcoerce⟩ := hs.exists_fits h hf hdefault (by simp)
  cases j with
  | string text => exact ⟨text, hj, by simp [textField, Json.field?, hj, Json.string?]⟩
  | _ => exact absurd hcoerce (by simp [FieldKind.coerce])

theorem exists_numberField (hs : s.Steady) (h : s.normalize nodeId raw = .ok data) (name : String)
    {default : Option Json} (hf : ⟨name, .number, default⟩ ∈ s.fields) (hdefault : default ≠ some .null) :
    ∃ x, numberField (.object data) name = .ok x := by
  obtain ⟨j, hj, -, hcoerce⟩ := hs.exists_fits h hf hdefault (by simp)
  cases j with
  | number n => exact ⟨n.toFloat, by simp [numberField, Json.field?, hj, Json.float?]⟩
  | string text =>
      obtain ⟨x, -, hcoerce⟩ := Option.bind_eq_some_iff.mp hcoerce
      obtain ⟨n, -, hcoerce⟩ := Option.bind_eq_some_iff.mp hcoerce
      exact absurd hcoerce (by simp)
  | _ => exact absurd hcoerce (by simp [FieldKind.coerce])

theorem exists_boolField (hs : s.Steady) (h : s.normalize nodeId raw = .ok data) (name : String)
    {default : Option Json} (hf : ⟨name, .boolean, default⟩ ∈ s.fields) (hdefault : default ≠ some .null) :
    ∃ b, boolField (.object data) name = .ok b := by
  obtain ⟨j, hj, -, hcoerce⟩ := hs.exists_fits h hf hdefault (by simp)
  cases j with
  | bool b => exact ⟨b, by simp [boolField, Json.field?, hj, Json.bool?]⟩
  | _ => exact absurd hcoerce (by simp [FieldKind.coerce])

end Schema.Steady

/-- Whether a node of the type can be made of whatever data its schema accepts. -/
def NodeType.Creates (t : NodeType) : Prop :=
  ∀ nodeId raw data, t.schema.normalize nodeId raw = .ok data →
    ∃ executor, t.create (.object data) = .ok executor

namespace Standard

open Condition Schema

variable {language : Language} {lib : Libraries}

theorem constant_creates {name label : String} {category : Category} {kind : FieldKind}
    {default : Json} : (constant name label category kind default).Creates := by
  intro nodeId raw data h
  obtain ⟨j, hj, -⟩ := Schema.holds_of_normalize_eq_ok h (f := ⟨"value", kind, some default⟩)
    (by simp [constant, Schema.field, Schema.plain, Schema.ofVersion]) List.mem_cons_self
    (by simp [versionField])
  have hvalue : (Json.object data).field? "value" = some j := hj
  exact ⟨_, by simp only [constant, hvalue]; rfl⟩

theorem jsonStringify_creates : jsonStringify.Creates := by
  intro nodeId raw data h
  obtain ⟨pretty, hpretty⟩ := jsonStringify_steady.exists_boolField h "pretty"
    List.mem_cons_self (by simp)
  exact ⟨_, by simp only [jsonStringify, hpretty, ok_bind]; rfl⟩

/-- The operation of accepted data has a name that is known. -/
theorem exists_parse_of_validateMath {payload : Dict Json} {name : String}
    (hget : Dict.get? payload "operation" = some (.string name)) (h : validateMath payload = .ok ()) :
    ∃ op, MathOperation.parse name = some op := by
  simp only [validateMath, hget, Option.bind_some, Json.string?, Option.getD_some] at h
  split at h
  next op hop => exact ⟨op, hop⟩
  · exact absurd h (by simp)

theorem math_creates : math.Creates := by
  intro nodeId raw data h
  obtain ⟨name, hget, hname⟩ := math_steady.exists_textField h "operation" List.mem_cons_self (by simp)
  obtain ⟨op, hop⟩ := exists_parse_of_validateMath hget (math_steady.valid_of_normalize h rfl)
  exact ⟨_, by simp only [math, hname, ok_bind, hop]; rfl⟩

theorem getVariable_creates : getVariable.Creates := by
  intro nodeId raw data h
  obtain ⟨name, -, hname⟩ := getVariable_steady.exists_textField h "name"
    List.mem_cons_self (by simp)
  exact ⟨_, by simp only [getVariable, hname, ok_bind]; rfl⟩

theorem setVariable_creates : setVariable.Creates := by
  intro nodeId raw data h
  obtain ⟨name, -, hname⟩ := setVariable_steady.exists_textField h "name"
    List.mem_cons_self (by simp)
  exact ⟨_, by simp only [setVariable, hname, ok_bind]; rfl⟩

theorem log_creates : log.Creates := by
  intro nodeId raw data h
  obtain ⟨message, -, hmessage⟩ := log_steady.exists_textField h "message"
    List.mem_cons_self (by simp)
  obtain ⟨level, -, hlevel⟩ := log_steady.exists_textField h "level"
    (List.mem_cons_of_mem _ List.mem_cons_self) (by simp)
  exact ⟨_, by simp only [log, hmessage, hlevel, ok_bind]; rfl⟩

theorem delay_creates : delay.Creates := by
  intro nodeId raw data h
  obtain ⟨ms, hms⟩ := delay_steady.exists_numberField h "ms" List.mem_cons_self
    (by simp [Json.ofUInt32])
  exact ⟨_, by simp only [delay, hms, ok_bind]; rfl⟩

theorem mem_methods_of_validate {payload : Dict Json} {method : String}
    (hget : Dict.get? payload "method" = some (.string method))
    (h : validateRequest payload = .ok ()) : method ∈ Http.methods := by
  by_contra hother
  simp [validateRequest, hget, Json.string?, hother] at h

/-- The methods that the schema allows are methods that a request can have. -/
theorem httpRequest_creates (client : Http.Client) : (httpRequest client).Creates := by
  intro nodeId raw data h
  have hsteady := httpRequest_steady client
  obtain ⟨method, hget, hmethod⟩ := hsteady.exists_textField h "method" List.mem_cons_self (by simp)
  obtain ⟨url, -, hurl⟩ := hsteady.exists_textField h "url"
    (List.mem_cons_of_mem _ List.mem_cons_self) (by simp)
  have hallowed := mem_methods_of_validate hget (hsteady.valid_of_normalize h rfl)
  exact ⟨_, by simp only [httpRequest, hmethod, ok_bind, client.method_eq_ok method hallowed, hurl]; rfl⟩

/-- A type that does not look at its data makes a node of any. -/
theorem creates_of_create_eq {t : NodeType} {executor : Executor}
    (h : ∀ data, t.create data = .ok executor) : t.Creates :=
  fun _ _ data _ => ⟨executor, h (.object data)⟩

theorem creates_of_mem {t : NodeType} (ht : t ∈ typesWith lib) (hname : t.name ≠ ifType) :
    t.Creates := by
  simp only [typesWith, List.mem_cons, List.not_mem_nil, or_false] at ht
  rcases ht with rfl | rfl | rfl | rfl | rfl | rfl | rfl | rfl | rfl | rfl | rfl | rfl | rfl | rfl |
    rfl | rfl | rfl | rfl | rfl | rfl | rfl
  · exact creates_of_create_eq fun _ => rfl
  · exact absurd rfl hname
  · exact creates_of_create_eq fun _ => rfl
  · exact creates_of_create_eq fun _ => rfl
  · exact creates_of_create_eq fun _ => rfl
  · exact creates_of_create_eq fun _ => rfl
  · exact creates_of_create_eq fun _ => rfl
  · exact creates_of_create_eq fun _ => rfl
  · exact constant_creates
  · exact constant_creates
  · exact constant_creates
  · exact constant_creates
  · exact creates_of_create_eq fun _ => rfl
  · exact jsonStringify_creates
  · exact math_creates
  · exact creates_of_create_eq fun _ => rfl
  · exact getVariable_creates
  · exact setVariable_creates
  · exact log_creates
  · exact delay_creates
  · exact httpRequest_creates _

/-- Whether a condition is an authored one, ready to be evaluated. -/
structure Compiles (authored : Authored) (c : Compiled language) : Prop where
  id_eq : c.id = authored.id
  parsed : language.parse authored.expression = .ok c.expression

/-- Reading the conditions goes through if each of them can be read, and gives one for each, in order. -/
theorem compile_eq_ok_iff {authored : List Authored} {conditions : List (Compiled language)} :
    compile language authored = .ok conditions ↔ List.Forall₂ Compiles authored conditions := by
  induction authored generalizing conditions with
  | nil => simp [compile, eq_comm]
  | cons a authored ih =>
      rw [compile]
      constructor
      · intro h
        split at h
        · exact absurd h (by simp)
        next e he =>
          obtain ⟨rest, hrest, h⟩ := bind_eq_ok h
          obtain rfl := Except.ok.inj h
          exact .cons ⟨rfl, he⟩ (ih.mp hrest)
      · intro h
        obtain ⟨c, rest, hc, hrest, rfl⟩ := List.forall₂_cons_left_iff.mp h
        obtain ⟨hid, hparsed⟩ := hc
        simp only [hparsed, ih.mpr hrest, ok_bind]
        rw [← hid]
        rfl

/-- The first condition that does not parse, with what is said about it. -/
inductive Unparsed (language : Language) : List Authored → NodeError → Prop
  | intro {before c after reason} (hbefore : ∀ b ∈ before, ∃ e, language.parse b.expression = .ok e)
      (hc : language.parse c.expression = .error reason) : Unparsed language (before ++ c :: after)
        (.invalidData conditionsField s!"condition '{c.id}' does not parse: {reason}")

theorem Unparsed.head {c : Authored} {reason : String} (authored : List Authored)
    (hc : language.parse c.expression = .error reason) : Unparsed language (c :: authored)
      (.invalidData conditionsField s!"condition '{c.id}' does not parse: {reason}") :=
  show Unparsed language ([] ++ c :: authored) _ from .intro (by simp) hc

theorem Unparsed.cons {a : Authored} {authored : List Authored} {e : NodeError}
    (ha : ∃ e, language.parse a.expression = .ok e) (h : Unparsed language authored e) :
    Unparsed language (a :: authored) e := by
  obtain ⟨hbefore, hc⟩ := h
  exact .intro (List.forall_mem_cons.mpr ⟨ha, hbefore⟩) hc

theorem compile_eq_ok_or_unparsed (language : Language) (authored : List Authored) :
    (∃ conditions, compile language authored = .ok conditions) ∨
      ∃ e, compile language authored = .error e ∧ Unparsed language authored e := by
  induction authored with
  | nil => exact Or.inl ⟨[], rfl⟩
  | cons a authored ih =>
      rw [compile]
      cases ha : language.parse a.expression with
      | error reason => exact Or.inr ⟨_, rfl, .head authored ha⟩
      | ok expression =>
          rcases ih with ⟨conditions, hconditions⟩ | ⟨e, he, hunparsed⟩
          · exact Or.inl ⟨⟨a.id, expression⟩ :: conditions, by rw [hconditions]; rfl⟩
          · exact Or.inr ⟨e, by rw [he]; rfl, hunparsed.cons ⟨expression, ha⟩⟩

/-- A branch that is taken leads to an output of one of the conditions, or to the one for no condition. -/
theorem exists_key_of_result {authored : List Authored} {conditions : List (Compiled language)}
    {ctx : Context} {result : NodeResult} (hcompile : compile language authored = .ok conditions)
    (hresult : (branchOn conditions ctx).result = .ok result) :
    ∃ key ∈ authored.map (·.id) ++ [falseHandle], result = .branch key [(key, ctx.mainOrNull)] := by
  rcases branchOn_cases conditions ctx with ⟨reason, heq⟩ | ⟨scope, chosen, hchosen, heq⟩
  · rw [heq] at hresult
    exact absurd hresult (by simp [Activity.ofResult])
  · rw [heq] at hresult
    obtain rfl := Except.ok.inj hresult
    refine ⟨chosen.getD falseHandle, ?_, rfl⟩
    cases chosen with
    | none => exact List.mem_append_right _ List.mem_cons_self
    | some id =>
        have hid := mem_of_firstHolding hchosen
        rw [map_id_of_compile hcompile] at hid
        exact List.mem_append_left _ hid

/-- Data that a standard type accepts makes a node, unless it is the data of an `if` node with a condition
that does not parse; then the first such condition is named. The data of an `if` node lists conditions and
nothing else among them; the keys of its outputs are their ids, in order, and the one for no condition, none
of them empty and no two alike; its executor has exactly these conditions, and whenever it ends without an
error it sends its input value to one of these outputs. -/
theorem accepted_data_creates {lib : Libraries} {t : NodeType} (ht : t ∈ typesWith lib) {nodeId : String} {raw : Json}
    {data : Dict Json} (h : t.schema.normalize nodeId raw = .ok data) :
    ((∃ executor, t.create (.object data) = .ok executor) ∨
      t.name = ifType ∧ ∃ e, t.create (.object data) = .error e ∧
        Unparsed lib.language (conditionsOf (.object data)) e) ∧
    (t.name = ifType → ∃ authored keys, Lists data authored ∧
      keys = authored.map (·.id) ++ [falseHandle] ∧
      (t.handles (.object data)).outputs.map (·.key) = keys ∧ keys.Nodup ∧ (∀ key ∈ keys, key ≠ "") ∧
      ∀ executor, t.create (.object data) = .ok executor →
        ∃ conditions : List (Compiled lib.language), executor = ⟨ifType, branchOn conditions⟩ ∧
          List.Forall₂ Compiles authored conditions ∧
          ∀ ctx result, (executor.run ctx).result = .ok result →
            ∃ key ∈ keys, result = .branch key [(key, ctx.mainOrNull)]) := by
  by_cases hname : t.name = ifType
  · have hif : ifElse lib.language ∈ typesWith lib := by simp [typesWith]
    obtain rfl := eq_of_name_eq ht hif hname
    obtain ⟨-, authored, -, hlists, hnamed, -⟩ := exists_lists_of_normalize h
    have hconditions := hlists.conditionsOf_eq
    rw [← hconditions] at hnamed
    have hkeys := keys_ifHandles (.object data)
    rw [hconditions] at hkeys
    refine ⟨?_, fun _ => ⟨authored, _, hlists, rfl, hkeys, hkeys ▸ hnamed.nodup_keys,
      hkeys ▸ hnamed.key_ne_empty, fun executor hcreate => ?_⟩⟩
    · rcases compile_eq_ok_or_unparsed lib.language (conditionsOf (.object data)) with
        ⟨conditions, hcompile⟩ | ⟨e, herror, hunparsed⟩
      · exact Or.inl ⟨_, create_ifElse hcompile⟩
      · exact Or.inr ⟨rfl, e, by simp only [ifElse, herror]; rfl, hunparsed⟩
    · obtain ⟨conditions, hcompile, hexecutor⟩ := bind_eq_ok hcreate
      obtain rfl := Except.ok.inj hexecutor
      rw [hconditions] at hcompile
      exact ⟨conditions, rfl, compile_eq_ok_iff.mp hcompile,
        fun ctx result hresult => exists_key_of_result hcompile hresult⟩
  · obtain ⟨executor, hcreate⟩ := creates_of_mem ht hname nodeId raw data h
    exact ⟨Or.inl ⟨executor, hcreate⟩, fun heq => absurd heq hname⟩

/-- A condition that parses, and one that ends too early. -/
def unfinished : Dict Json :=
  [("_version", versionJson 2), (conditionsField, .array [Authored.toJson ⟨"a", "true"⟩,
    Authored.toJson ⟨"b", "value =="⟩])]

/-- Two conditions make a node with three outputs; an expression that ends too early makes none, though the
schema accepts it. -/
theorem creation_of_conditions :
    (∃ executor, (ifElse builtIn).create (.object twoConditions) = .ok executor ∧
      ∃ authored keys, Lists twoConditions authored ∧ keys = ["b", "a", "false"] ∧
        ∀ ctx result, (executor.run ctx).result = .ok result →
          ∃ key ∈ keys, result = .branch key [(key, ctx.mainOrNull)]) ∧
    ∃ e, (ifElse builtIn).create (.object unfinished) = .error e ∧
      Unparsed builtIn (conditionsOf (.object unfinished)) e := by
  have hmem : ifElse builtIn ∈ typesWith .builtIn := by simp [typesWith, Libraries.builtIn]
  have htwo : ifSchema.normalize "n" (.object twoConditions) = .ok twoConditions := by rfl
  have hunfinished : ifSchema.normalize "n" (.object unfinished) = .ok unfinished := by rfl
  have hmade : ((ifElse builtIn).create (.object twoConditions)).toOption.isSome = true := by decide +kernel
  have hnone : ((ifElse builtIn).create (.object unfinished)).toOption.isSome = false := by decide +kernel
  constructor
  · obtain ⟨executor, hsome⟩ := Option.isSome_iff_exists.mp hmade
    have hcreate := eq_ok_of_toOption_eq_some hsome
    obtain ⟨authored, keys, hlists, hkeys, -, -, -, hexecutor⟩ := (accepted_data_creates hmem htwo).2 rfl
    obtain ⟨conditions, -, -, hresult⟩ := hexecutor executor hcreate
    refine ⟨executor, hcreate, authored, keys, hlists, ?_, hresult⟩
    rw [hkeys, ← hlists.conditionsOf_eq]
    rfl
  · rcases (accepted_data_creates hmem hunfinished).1 with ⟨executor, hcreate⟩ | ⟨-, e, herror, hunparsed⟩
    · exact absurd hnone (by simp [hcreate, Except.toOption])
    · exact ⟨e, herror, hunparsed⟩

end Standard

end FlowGraph
