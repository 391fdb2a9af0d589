import FlowGraph.Proofs.Schema

/-!
What normalising keeps, fills and rejects. The declared fields are looked up one after the other in a
payload that changes on the way. But no two of them have the same name, so each of them is judged by the
payload as it has been migrated, and what comes of all of them can be told without the way there: a field
holds the value that the payload states, or its default; the first field without either is named; and
whatever is not declared stays.
-/

namespace FlowGraph

namespace FieldSpec

/-- Whether a payload states nothing for a field; null is as good as nothing. -/
def Unstated (f : FieldSpec) (payload : Dict Json) : Prop :=
  Dict.get? payload f.name = none ∨ Dict.get? payload f.name = some .null

/-- Whether there is a value for a field: the stated one is of the kind of the field or becomes so, and
where none is stated there is a default. -/
structure Provided (f : FieldSpec) (payload : Dict Json) : Prop where
  fits : ∀ j, Dict.get? payload f.name = some j → j ≠ .null → ∃ coerced, f.kind.coerce j = some coerced
  defaulted : f.Unstated payload → ∃ default, f.default = some default

/-- Whether data holds for a field what a payload provides. -/
structure FilledIn (f : FieldSpec) (payload data : Dict Json) : Prop where
  stated : ∀ j, Dict.get? payload f.name = some j → j ≠ .null →
    ∃ coerced, f.kind.coerce j = some coerced ∧ Dict.get? data f.name = some coerced
  defaulted : f.Unstated payload →
    ∃ default, f.default = some default ∧ Dict.get? data f.name = some default

/-- The value of a field, if a payload provides one. -/
def value? (f : FieldSpec) (payload : Dict Json) : Option Json :=
  match (Dict.get? payload f.name).filter (!·.isNull) with
  | some stated => f.kind.coerce stated
  | none => f.default

/-- What is wrong with a field that a payload provides no value for. -/
def offence (f : FieldSpec) (nodeId : String) (payload : Dict Json) : SchemaError :=
  match (Dict.get? payload f.name).filter (!·.isNull) with
  | some stated => .invalidField nodeId f.name s!"expected {f.kind.name}, got {stated.compact}"
  | none => .missingField nodeId f.name

variable {f : FieldSpec} {payload : Dict Json}

theorem value?_of_stated {j : Json} (hget : Dict.get? payload f.name = some j) (hnull : j ≠ .null) :
    f.value? payload = f.kind.coerce j := by
  have hstated : j.isNull = false := by cases j <;> simp_all [Json.isNull]
  simp [value?, hget, Option.filter, hstated]

theorem value?_of_unstated (h : f.Unstated payload) : f.value? payload = f.default := by
  rcases h with hget | hget <;> simp [value?, hget, Option.filter, Json.isNull]

theorem stated_or_unstated (f : FieldSpec) (payload : Dict Json) :
    (∃ j, Dict.get? payload f.name = some j ∧ j ≠ .null) ∨ f.Unstated payload := by
  cases hget : Dict.get? payload f.name with
  | none => exact Or.inr (Or.inl hget)
  | some j =>
      by_cases hnull : j = .null
      · exact Or.inr (Or.inr (hnull ▸ hget))
      · exact Or.inl ⟨j, rfl, hnull⟩

theorem provided_iff : f.Provided payload ↔ ∃ value, f.value? payload = some value := by
  constructor
  · intro h
    rcases f.stated_or_unstated payload with ⟨j, hget, hnull⟩ | hunstated
    · rw [value?_of_stated hget hnull]
      exact h.fits j hget hnull
    · rw [value?_of_unstated hunstated]
      exact h.defaulted hunstated
  · rintro ⟨value, hvalue⟩
    refine ⟨fun j hget hnull => ⟨value, ?_⟩, fun hunstated => ⟨value, ?_⟩⟩
    · rw [← value?_of_stated hget hnull, hvalue]
    · rw [← value?_of_unstated hunstated, hvalue]

theorem filledIn_of_get? {data : Dict Json} (hprovided : f.Provided payload)
    (hget : Dict.get? data f.name = f.value? payload) : f.FilledIn payload data := by
  obtain ⟨value, hvalue⟩ := provided_iff.mp hprovided
  rw [hvalue] at hget
  refine ⟨fun j hj hnull => ⟨value, ?_, hget⟩, fun hunstated => ⟨value, ?_, hget⟩⟩
  · rw [← value?_of_stated hj hnull, hvalue]
  · rw [← value?_of_unstated hunstated, hvalue]

end FieldSpec

namespace Schema

variable {nodeId : String} {payload : Dict Json}

theorem fieldValue_eq_ok {f : FieldSpec} {value : Json} (h : f.value? payload = some value) :
    fieldValue nodeId f (Dict.get? payload f.name) = .ok value := by
  unfold FieldSpec.value? at h
  unfold fieldValue
  split at h
  next stated hstated => simp only [hstated, h]
  next hunstated => simp only [hunstated, h]

theorem fieldValue_eq_error {f : FieldSpec} (h : f.value? payload = none) :
    fieldValue nodeId f (Dict.get? payload f.name) = .error (f.offence nodeId payload) := by
  unfold FieldSpec.value? at h
  unfold fieldValue FieldSpec.offence
  split at h
  next stated hstated => simp only [hstated, h]
  next hunstated => simp only [hunstated, h]

/-- The fields of a payload, with the values that another one provides for the declared fields. -/
def withValues (payload : Dict Json) : List FieldSpec → Dict Json → Dict Json
  | [], data => data
  | f :: fields, data =>
    withValues payload fields
      (match f.value? payload with
        | some value => Dict.insert data f.name value
        | none => data)

/-- A payload with the values that it provides for the declared fields. -/
def filled (s : Schema) (payload : Dict Json) : Dict Json :=
  withValues payload s.fields payload

theorem get?_withValues_of_not_mem {fields : List FieldSpec} {data : Dict Json} {key : String}
    (hkey : key ∉ fields.map (·.name)) :
    Dict.get? (withValues payload fields data) key = Dict.get? data key := by
  induction fields generalizing data with
  | nil => rfl
  | cons f fields ih =>
      obtain ⟨hne, hrest⟩ := List.ne_and_not_mem_of_not_mem_cons hkey
      rw [withValues, ih hrest]
      split
      · exact Dict.get?_insert_of_ne _ _ hne
      · rfl

theorem get?_withValues {fields : List FieldSpec} {data : Dict Json}
    (hnodup : (fields.map (·.name)).Nodup) {f : FieldSpec} (hf : f ∈ fields) {value : Json}
    (hvalue : f.value? payload = some value) :
    Dict.get? (withValues payload fields data) f.name = some value := by
  induction fields generalizing data with
  | nil => exact absurd hf List.not_mem_nil
  | cons g fields ih =>
      obtain ⟨hnot, hnodup⟩ := List.nodup_cons.mp hnodup
      rcases List.mem_cons.mp hf with rfl | hf
      · rw [withValues, get?_withValues_of_not_mem hnot, hvalue]
        exact Dict.get?_insert_self _ _ _
      · exact ih hnodup hf

/-- Filling in goes through if there is a value for every field, and stops at the first one without.
The data that is filled on the way states for the fields still to come what the payload does. -/
theorem fillFields_eq {fields : List FieldSpec} {data : Dict Json}
    (hnodup : (fields.map (·.name)).Nodup)
    (hsame : ∀ f ∈ fields, Dict.get? data f.name = Dict.get? payload f.name) :
    fillFields nodeId fields data =
      match fields.find? fun f => (f.value? payload).isNone with
      | some f => .error (f.offence nodeId payload)
      | none => .ok (withValues payload fields data) := by
  induction fields generalizing data with
  | nil => rfl
  | cons f fields ih =>
      obtain ⟨hnot, hnodup⟩ := List.nodup_cons.mp hnodup
      obtain ⟨hf, hrest⟩ := List.forall_mem_cons.mp hsame
      rw [fillFields, hf, List.find?_cons, withValues]
      cases hvalue : f.value? payload with
      | none =>
          rw [fieldValue_eq_error hvalue]
          rfl
      | some value =>
          rw [fieldValue_eq_ok hvalue, ok_bind]
          refine ih hnodup fun g hg => ?_
          have hne : g.name ≠ f.name := fun heq => hnot (List.mem_map.mpr ⟨g, hg, heq⟩)
          rw [Dict.get?_insert_of_ne _ _ hne, hrest g hg]

variable {s : Schema}

theorem fillFields_eq_ok (hnodup : (s.fields.map (·.name)).Nodup)
    (h : ∀ f ∈ s.fields, f.Provided payload) :
    fillFields nodeId s.fields payload = .ok (s.filled payload) := by
  have hnone : s.fields.find? (fun f => (f.value? payload).isNone) = none := by
    rw [List.find?_eq_none]
    intro f hf
    obtain ⟨value, hvalue⟩ := FieldSpec.provided_iff.mp (h f hf)
    simp [hvalue]
  rw [fillFields_eq hnodup fun _ _ => rfl, hnone]
  rfl

theorem fillFields_eq_error (hnodup : (s.fields.map (·.name)).Nodup) {before after : List FieldSpec}
    {f : FieldSpec} (hfields : s.fields = before ++ f :: after)
    (hbefore : ∀ g ∈ before, g.Provided payload) (hf : ¬ f.Provided payload) :
    fillFields nodeId s.fields payload = .error (f.offence nodeId payload) := by
  have hsome : s.fields.find? (fun f => (f.value? payload).isNone) = some f := by
    rw [List.find?_eq_some_iff_append]
    refine ⟨?_, before, after, hfields, fun g hg => ?_⟩
    · cases hvalue : f.value? payload with
      | none => rfl
      | some value => exact absurd (FieldSpec.provided_iff.mpr ⟨value, hvalue⟩) hf
    · obtain ⟨value, hvalue⟩ := FieldSpec.provided_iff.mp (hbefore g hg)
      simp [hvalue]
  rw [fillFields_eq hnodup fun _ _ => rfl, hsome]

/-- Either there is a value for every field, or there is a first field without. -/
theorem provided_or_exists_offending (fields : List FieldSpec) (payload : Dict Json) :
    (∀ f ∈ fields, f.Provided payload) ∨ ∃ before f after, fields = before ++ f :: after ∧
      (∀ g ∈ before, g.Provided payload) ∧ ¬ f.Provided payload := by
  induction fields with
  | nil => exact Or.inl fun f hf => absurd hf List.not_mem_nil
  | cons f fields ih =>
      by_cases hf : f.Provided payload
      · rcases ih with hall | ⟨before, g, after, rfl, hbefore, hg⟩
        · exact Or.inl (List.forall_mem_cons.mpr ⟨hf, hall⟩)
        · exact Or.inr ⟨f :: before, g, after, rfl, List.forall_mem_cons.mpr ⟨hf, hbefore⟩, hg⟩
      · exact Or.inr ⟨[], f, fields, rfl, by simp, hf⟩

/-- Data that holds the values of all declared fields, and of the others what the payload holds. Of the
version nothing is said. -/
structure Completes (s : Schema) (payload data : Dict Json) : Prop where
  declared : ∀ f ∈ s.fields, f.FilledIn payload data
  kept : ∀ key, key ≠ versionField → key ∉ s.fields.map (·.name) →
    Dict.get? data key = Dict.get? payload key

/-- A payload that the declared fields and the validator accept. -/
structure Acceptable (s : Schema) (payload : Dict Json) : Prop where
  provided : ∀ f ∈ s.fields, f.Provided payload
  valid : ∀ check, s.validator = some check → check (s.filled payload) = .ok ()

/-- Data that a payload is normalised to. -/
structure Normalized (s : Schema) (payload data : Dict Json) : Prop where
  completes : s.Completes payload data
  version_eq : Dict.get? data versionField = some (versionJson s.version)
  mem_keys_iff : ∀ key, key ∈ Dict.keys data ↔
    key = versionField ∨ key ∈ s.fields.map (·.name) ∨ key ∈ Dict.keys payload

/-- What is wrong with a payload that is refused: its first field without a value, or else what the
validator finds. -/
inductive Refuses (s : Schema) (nodeId : String) (payload : Dict Json) : SchemaError → Prop
  | field {before f after} (hfields : s.fields = before ++ f :: after)
      (hbefore : ∀ g ∈ before, g.Provided payload) (hf : ¬ f.Provided payload) :
      Refuses s nodeId payload (f.offence nodeId payload)
  | validator {check issue} (hprovided : ∀ f ∈ s.fields, f.Provided payload)
      (hcheck : s.validator = some check) (hissue : check (s.filled payload) = .error issue) :
      Refuses s nodeId payload (.invalidField nodeId issue.field issue.message)

theorem completes_filled (hnodup : (s.fields.map (·.name)).Nodup)
    (hprovided : ∀ f ∈ s.fields, f.Provided payload) : s.Completes payload (s.filled payload) := by
  refine ⟨fun f hf => FieldSpec.filledIn_of_get? (hprovided f hf) ?_, fun key _ hkey => ?_⟩
  · obtain ⟨value, hvalue⟩ := FieldSpec.provided_iff.mp (hprovided f hf)
    rw [filled, get?_withValues hnodup hf hvalue, hvalue]
  · exact get?_withValues_of_not_mem hkey

theorem FilledIn.isSome {f : FieldSpec} {data : Dict Json} (h : f.FilledIn payload data) :
    (Dict.get? data f.name).isSome = true := by
  rcases f.stated_or_unstated payload with ⟨j, hget, hnull⟩ | hunstated
  · obtain ⟨coerced, -, hdata⟩ := h.stated j hget hnull
    simp [hdata]
  · obtain ⟨default, -, hdata⟩ := h.defaulted hunstated
    simp [hdata]

/-- Writing the version into a completed payload leaves the rest of it as it is. -/
theorem Completes.normalized {data : Dict Json} (h : s.Completes payload data)
    (hversion : versionField ∉ s.fields.map (·.name)) :
    s.Normalized payload (Dict.insert data versionField (versionJson s.version)) := by
  have hcompletes : s.Completes payload (Dict.insert data versionField (versionJson s.version)) := by
    refine ⟨fun f hf => ?_, fun key hkey hnot => ?_⟩
    · have hne : f.name ≠ versionField := fun heq => hversion (heq ▸ List.mem_map_of_mem hf)
      refine ⟨fun j hget hnull => ?_, fun hunstated => ?_⟩ <;> rw [Dict.get?_insert_of_ne _ _ hne]
      · exact (h.declared f hf).stated j hget hnull
      · exact (h.declared f hf).defaulted hunstated
    · rw [Dict.get?_insert_of_ne _ _ hkey, h.kept key hkey hnot]
  refine ⟨hcompletes, Dict.get?_insert_self _ _ _, fun key => ?_⟩
  rw [Dict.mem_keys_iff, Dict.mem_keys_iff]
  by_cases hkey : key = versionField
  · simp [hkey]
  · by_cases hdeclared : key ∈ s.fields.map (·.name)
    · obtain ⟨f, hf, rfl⟩ := List.mem_map.mp hdeclared
      simp [hdeclared, FilledIn.isSome (hcompletes.declared f hf)]
    · rw [hcompletes.kept key hkey hdeclared]
      simp [hkey, hdeclared]

theorem normalize_of_migrate_eq_ok {raw : Json} (hmigrate : s.migrate nodeId raw = .ok payload)
    (hnodup : (s.fields.map (·.name)).Nodup) (hprovided : ∀ f ∈ s.fields, f.Provided payload) :
    s.normalize nodeId raw = (s.validate nodeId (s.filled payload)).map fun _ =>
      Dict.insert (s.filled payload) versionField (versionJson s.version) := by
  rw [normalize, hmigrate, ok_bind, fillFields_eq_ok hnodup hprovided, ok_bind]
  cases s.validate nodeId (s.filled payload) <;> rfl

theorem validate_eq_ok (h : ∀ check, s.validator = some check → check payload = .ok ()) :
    s.validate nodeId payload = .ok () := by
  unfold validate
  split
  · rfl
  next check hcheck => rw [h check hcheck]

/-- An acceptable payload is filled, and marked with the current version. -/
theorem Acceptable.normalize_eq_ok {raw : Json} (h : s.Acceptable payload)
    (hmigrate : s.migrate nodeId raw = .ok payload) (hnodup : (s.fields.map (·.name)).Nodup) :
    s.normalize nodeId raw =
      .ok (Dict.insert (s.filled payload) versionField (versionJson s.version)) := by
  rw [normalize_of_migrate_eq_ok hmigrate hnodup h.provided, validate_eq_ok h.valid]
  rfl

/-- A payload is acceptable, or else it is refused and there is a reason. -/
theorem acceptable_or_exists_refuses {raw : Json} (hmigrate : s.migrate nodeId raw = .ok payload)
    (hnodup : (s.fields.map (·.name)).Nodup) :
    s.Acceptable payload ∨ ∃ e, s.Refuses nodeId payload e ∧ s.normalize nodeId raw = .error e := by
  rcases provided_or_exists_offending s.fields payload with
    hprovided | ⟨before, f, after, hfields, hbefore, hf⟩
  · have hnormalize := normalize_of_migrate_eq_ok hmigrate hnodup hprovided
    cases hcheck : s.validator with
    | none => exact Or.inl ⟨hprovided, fun check h => absurd (hcheck.symm.trans h) (by simp)⟩
    | some check =>
        cases hissue : check (s.filled payload) with
        | ok =>
            refine Or.inl ⟨hprovided, fun check' h => ?_⟩
            obtain rfl := Option.some.inj (hcheck.symm.trans h)
            exact hissue
        | error issue =>
            refine Or.inr ⟨_, .validator hprovided hcheck hissue, ?_⟩
            rw [hnormalize, validate, hcheck]
            simp only [hissue]
            rfl
  · refine Or.inr ⟨_, .field hfields hbefore hf, ?_⟩
    rw [normalize, hmigrate, ok_bind, fillFields_eq_error hnodup hfields hbefore hf]
    rfl

/-- What is normalised migrates to an acceptable payload, which is filled. -/
theorem exists_of_normalize_eq_ok {raw : Json} {data : Dict Json}
    (hnodup : (s.fields.map (·.name)).Nodup) (h : s.normalize nodeId raw = .ok data) :
    ∃ payload, s.migrate nodeId raw = .ok payload ∧ s.Acceptable payload ∧
      data = Dict.insert (s.filled payload) versionField (versionJson s.version) := by
  obtain ⟨payload, hmigrate, -⟩ := bind_eq_ok h
  rcases acceptable_or_exists_refuses hmigrate hnodup with hpayload | ⟨e, -, herror⟩
  · exact ⟨payload, hmigrate, hpayload,
      Except.ok.inj (h.symm.trans (hpayload.normalize_eq_ok hmigrate hnodup))⟩
  · exact absurd (h.symm.trans herror) (by simp)

/-- Normalising succeeds exactly for the payloads that migrate to an acceptable one, which it completes;
otherwise it says why the payload does not migrate, which field is the first one without a value, or what
the validator finds. -/
theorem normalize_keeps_fills_rejects (hnodup : (s.fields.map (·.name)).Nodup)
    (hversion : versionField ∉ s.fields.map (·.name)) (nodeId : String) (raw : Json) :
    ((∃ data, s.normalize nodeId raw = .ok data) ↔
      ∃ payload, s.migrate nodeId raw = .ok payload ∧ s.Acceptable payload) ∧
    (∀ data, s.normalize nodeId raw = .ok data →
      ∃ payload, s.migrate nodeId raw = .ok payload ∧ s.Normalized payload data) ∧
    (∀ e, s.normalize nodeId raw = .error e → s.migrate nodeId raw = .error e ∨
      ∃ payload, s.migrate nodeId raw = .ok payload ∧ s.Refuses nodeId payload e) ∧
    ∀ payload, (∀ f ∈ s.fields, f.Provided payload) → s.Completes payload (s.filled payload) ∧
      Dict.get? (s.filled payload) versionField = Dict.get? payload versionField := by
  refine ⟨⟨?_, ?_⟩, fun data h => ?_, fun e h => ?_, fun payload hprovided => ?_⟩
  · rintro ⟨data, h⟩
    obtain ⟨payload, hmigrate, hpayload, -⟩ := exists_of_normalize_eq_ok hnodup h
    exact ⟨payload, hmigrate, hpayload⟩
  · rintro ⟨payload, hmigrate, hpayload⟩
    exact ⟨_, hpayload.normalize_eq_ok hmigrate hnodup⟩
  · obtain ⟨payload, hmigrate, hpayload, rfl⟩ := exists_of_normalize_eq_ok hnodup h
    exact ⟨payload, hmigrate, (completes_filled hnodup hpayload.provided).normalized hversion⟩
  · cases hmigrate : s.migrate nodeId raw with
    | error e' =>
        rw [normalize, hmigrate] at h
        exact Or.inl h
    | ok payload =>
        refine Or.inr ⟨payload, rfl, ?_⟩
        rcases acceptable_or_exists_refuses hmigrate hnodup with hpayload | ⟨e', hrefuses, herror⟩
        · exact absurd (h.symm.trans (hpayload.normalize_eq_ok hmigrate hnodup)) (by simp)
        · obtain rfl := Except.error.inj (h.symm.trans herror)
          exact hrefuses
  · exact ⟨completes_filled hnodup hprovided, get?_withValues_of_not_mem hversion⟩

/-- The first version of a guest's data held the age under another name. -/
def renameYears (payload : Dict Json) : Except String (Dict Json) :=
  match Dict.get? payload "years" with
  | some years => .ok (Dict.insert (Dict.erase payload "years") "age" years)
  | none => .error "no years"

/-- An age, which must be there, and a name. -/
def guest : Schema :=
  (((ofVersion 2).required "age" .number).field "name" .string (.string "nobody")).migration 1 renameYears

/-- Data of the first version, with an age as text, and something that no field is declared for. -/
def firstGuest : Json :=
  .object [("extra", .bool true), ("name", .null), ("years", .string " 5 ")]

/-- Data of the current version without an age. -/
def agelessGuest : Json :=
  .object [("_version", versionJson 2), ("age", .null), ("name", .bool true)]

/-- The age becomes a number, the name its default, and the rest stays. Of two fields without a value the
first one is named. -/
theorem guest_normalized : (guest.fields.map (·.name)).Nodup ∧
    versionField ∉ guest.fields.map (·.name) ∧
    (∃ data, guest.normalize "n" firstGuest = .ok data ∧
      (∃ payload, guest.migrate "n" firstGuest = .ok payload ∧ guest.Normalized payload data) ∧
      data = [("_version", versionJson 2), ("age", .ofFloat 5), ("extra", .bool true),
        ("name", .string "nobody")]) ∧
    ∃ payload, guest.migrate "n" agelessGuest = .ok payload ∧
      guest.Refuses "n" payload (.missingField "n" "age") := by
  have hnodup : (guest.fields.map (·.name)).Nodup := by decide
  have hversion : versionField ∉ guest.fields.map (·.name) := by decide
  have hfirst : (guest.normalize "n" firstGuest).toOption = some [("_version", versionJson 2),
      ("age", .ofFloat 5), ("extra", .bool true), ("name", .string "nobody")] := by decide +kernel
  have hnormalize := eq_ok_of_toOption_eq_some hfirst
  obtain ⟨-, hnormalized, -, -⟩ := normalize_keeps_fills_rejects hnodup hversion "n" firstGuest
  obtain ⟨-, -, hrefuses, -⟩ := normalize_keeps_fills_rejects hnodup hversion "n" agelessGuest
  have hmigrate : guest.migrate "n" agelessGuest =
      .ok [("_version", versionJson 2), ("age", .null), ("name", .bool true)] := by rfl
  have hageless : guest.normalize "n" agelessGuest = .error (.missingField "n" "age") := by rfl
  refine ⟨hnodup, hversion, ⟨_, hnormalize, hnormalized _ hnormalize, rfl⟩, _, hmigrate, ?_⟩
  rcases hrefuses _ hageless with herror | ⟨payload, hpayload, hrefused⟩
  · exact absurd (hmigrate.symm.trans herror) (by simp)
  · obtain rfl := Except.ok.inj (hmigrate.symm.trans hpayload)
    exact hrefused

end Schema

end FlowGraph
