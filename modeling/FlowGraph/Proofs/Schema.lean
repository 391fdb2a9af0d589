import FlowGraph.Proofs.Dict
import FlowGraph.Proofs.Except
import FlowGraph.Schema
import Mathlib.Tactic.Common

/-!
What normalised data holds: under every declared field its default, or a value that is of the kind of
the field or was made so. Normalising it again changes nothing, if every default is what its field may
hold and the validator does not look at the version.
-/

namespace FlowGraph

/-- What a declared field may hold in normalised data. -/
def FieldSpec.Holds (f : FieldSpec) (j : Json) : Prop :=
  f.default = some j ∨ ∃ raw, f.kind.coerce raw = some j

namespace Schema

variable {nodeId : String}

theorem holds_of_fieldValue_eq_ok {f : FieldSpec} {found : Option Json} {j : Json}
    (h : fieldValue nodeId f found = .ok j) : f.Holds j := by
  rw [fieldValue] at h
  split at h
  next value _ =>
    split at h
    next coerced hcoerced =>
      obtain rfl := Except.ok.inj h
      exact Or.inr ⟨value, hcoerced⟩
    · exact absurd h (by simp)
  next default _ hdefault =>
    obtain rfl := Except.ok.inj h
    exact Or.inl hdefault
  · exact absurd h (by simp)

theorem settled_of_fillFields {fields : List FieldSpec} {payload filled : Dict Json} {key : String}
    {j : Json} (h : fillFields nodeId fields payload = .ok filled) (hkey : key ∉ fields.map (·.name))
    (hsettled : Dict.Settled payload key j) : Dict.Settled filled key j := by
  induction fields generalizing payload with
  | nil => exact Except.ok.inj h ▸ hsettled
  | cons f fields ih =>
      obtain ⟨hne, hrest⟩ := List.ne_and_not_mem_of_not_mem_cons hkey
      obtain ⟨value, -, h⟩ := bind_eq_ok h
      exact ih h hrest (hsettled.insert (Ne.symm hne) value)

/-- A declared field keeps the value that it is filled with. -/
theorem exists_fieldValue_of_fillFields {fields : List FieldSpec} {payload filled : Dict Json}
    (h : fillFields nodeId fields payload = .ok filled) (hnodup : (fields.map (·.name)).Nodup) :
    ∀ f ∈ fields, ∃ found j, fieldValue nodeId f found = .ok j ∧ Dict.Settled filled f.name j := by
  induction fields generalizing payload with
  | nil => exact fun f hf => absurd hf List.not_mem_nil
  | cons f fields ih =>
      obtain ⟨hnot, hnodup⟩ := List.nodup_cons.mp hnodup
      obtain ⟨value, hvalue, h⟩ := bind_eq_ok h
      have hsettled := settled_of_fillFields h hnot (Dict.settled_insert payload f.name value)
      exact List.forall_mem_cons.mpr ⟨⟨_, value, hvalue, hsettled⟩, ih h hnodup⟩

/-- Normalised data holds every declared field. -/
theorem holds_of_normalize_eq_ok {s : Schema} {raw : Json} {data : Dict Json}
    (h : s.normalize nodeId raw = .ok data) (hnodup : (s.fields.map (·.name)).Nodup)
    {f : FieldSpec} (hf : f ∈ s.fields) (hversion : f.name ≠ versionField) :
    ∃ j, Dict.get? data f.name = some j ∧ f.Holds j := by
  obtain ⟨payload, -, h⟩ := bind_eq_ok h
  obtain ⟨filled, hfilled, h⟩ := bind_eq_ok h
  obtain ⟨_, -, h⟩ := bind_eq_ok h
  obtain ⟨found, j, hj, hsettled⟩ := exists_fieldValue_of_fillFields hfilled hnodup f hf
  refine ⟨j, ?_, holds_of_fieldValue_eq_ok hj⟩
  rw [← Except.ok.inj h, Dict.get?_insert_of_ne _ _ hversion, hsettled.get?]

end Schema

/-- Whether a value is one, and not null, that a field of the kind holds as it stands. -/
structure FieldKind.Fits (kind : FieldKind) (j : Json) : Prop where
  not_null : j.isNull = false
  coerce_eq : kind.coerce j = some j

theorem FieldKind.fits_of_coerce {kind : FieldKind} {raw j : Json} (h : kind.coerce raw = some j)
    (hraw : raw.isNull = false) : kind.Fits j := by
  unfold coerce at h
  split at h
  case h_1 =>
    obtain rfl := Option.some.inj h
    exact ⟨hraw, rfl⟩
  case h_4 =>
    obtain ⟨x, -, h⟩ := Option.bind_eq_some_iff.mp h
    obtain ⟨n, -, h⟩ := Option.bind_eq_some_iff.mp h
    obtain rfl := Option.some.inj h
    exact ⟨rfl, rfl⟩
  case h_8 => exact absurd h (by simp)
  all_goals
    obtain rfl := Option.some.inj h
    exact ⟨rfl, rfl⟩

/-- Whether the default of a field, if it has one, may stand in the field: null stands for the
default itself. -/
def FieldSpec.Sound (f : FieldSpec) : Prop :=
  ∀ default, f.default = some default → default = .null ∨ f.kind.Fits default

/-- What makes normalised data stay as it is: every field is declared once, none is the version, the
defaults may stand in their fields, and the validator does not look at the version, which is written
after the data has been checked. -/
structure Schema.Steady (s : Schema) : Prop where
  names_nodup : (s.fields.map (·.name)).Nodup
  version_free : versionField ∉ s.fields.map (·.name)
  sound : ∀ f ∈ s.fields, f.Sound
  validator_blind : ∀ check, s.validator = some check →
    ∀ payload version, check (Dict.insert payload versionField version) = check payload

namespace Schema

variable {s : Schema}

theorem fieldValue_of_fits {f : FieldSpec} {j : Json} (h : f.kind.Fits j) :
    fieldValue nodeId f (some j) = .ok j := by
  simp [fieldValue, Option.filter, h.not_null, h.coerce_eq]

/-- A sound field keeps the value that it was given. -/
theorem fieldValue_fieldValue {f : FieldSpec} (hsound : f.Sound) {found : Option Json} {j : Json}
    (h : fieldValue nodeId f found = .ok j) : fieldValue nodeId f (some j) = .ok j := by
  rw [fieldValue] at h
  split at h
  next value hvalue =>
    split at h
    next coerced hcoerced =>
      obtain rfl := Except.ok.inj h
      have hraw : value.isNull = false := by simpa using (Option.filter_eq_some_iff.mp hvalue).2
      exact fieldValue_of_fits (FieldKind.fits_of_coerce hcoerced hraw)
    · exact absurd h (by simp)
  next default _ hdefault =>
    obtain rfl := Except.ok.inj h
    rcases hsound default hdefault with rfl | hfits
    · simp [fieldValue, Option.filter, Json.isNull, hdefault]
    · exact fieldValue_of_fits hfits
  · exact absurd h (by simp)

/-- A payload that holds a value for a field, as filling in the field would leave it. -/
def Filled (nodeId : String) (f : FieldSpec) (payload : Dict Json) : Prop :=
  ∃ j, fieldValue nodeId f (some j) = .ok j ∧ Dict.Settled payload f.name j

theorem fillFields_of_filled {fields : List FieldSpec} {payload : Dict Json}
    (h : ∀ f ∈ fields, Filled nodeId f payload) : fillFields nodeId fields payload = .ok payload := by
  induction fields with
  | nil => rfl
  | cons f fields ih =>
      obtain ⟨⟨j, hj, hsettled⟩, hrest⟩ := List.forall_mem_cons.mp h
      rw [fillFields, hsettled.get?, hj, ok_bind, hsettled, ih hrest]

theorem nat?_versionJson {version : Nat} (h : version < 0x100000000) :
    (versionJson version).nat? = some version := by
  have hmod : (UInt32.ofNat version).toNat = version := UInt32.toNat_ofNat_of_lt h
  simp only [versionJson, Json.ofUInt32, Json.nat?, Number.ofUInt32, Number.toNat?, hmod]
  simp

theorem payloadVersion_of_current {payload : Dict Json}
    (h : Dict.get? payload versionField = some (versionJson s.version)) :
    payloadVersion nodeId payload = .ok s.version := by
  rw [payloadVersion, h]
  dsimp only [versionJson, Json.ofUInt32]
  rw [← Json.ofUInt32, ← versionJson, nat?_versionJson s.version_bounds.2]
  exact if_pos s.version_bounds

/-- A payload at the current version has nothing to migrate. -/
theorem migrate_of_current {payload : Dict Json}
    (h : Dict.get? payload versionField = some (versionJson s.version)) :
    s.migrate nodeId (.object payload) = .ok payload := by
  rw [migrate, payloadFields, ok_bind, payloadVersion_of_current h, ok_bind,
    if_neg (Nat.lt_irrefl _), Nat.sub_self, migrateSteps]

/-- Normalised data is left as it is when it is normalised again. -/
theorem Steady.normalize_normalize (hs : s.Steady) {raw : Json} {data : Dict Json}
    (h : s.normalize nodeId raw = .ok data) : s.normalize nodeId (.object data) = .ok data := by
  obtain ⟨payload, -, h⟩ := bind_eq_ok h
  obtain ⟨filled, hfilled, h⟩ := bind_eq_ok h
  obtain ⟨_, hvalid, h⟩ := bind_eq_ok h
  obtain rfl := Except.ok.inj h
  have hversion := Dict.settled_insert filled versionField (versionJson s.version)
  have hfields : ∀ f ∈ s.fields,
      Filled nodeId f (Dict.insert filled versionField (versionJson s.version)) := by
    intro f hf
    obtain ⟨found, j, hj, hsettled⟩ := exists_fieldValue_of_fillFields hfilled hs.names_nodup f hf
    have hne : versionField ≠ f.name := fun heq => hs.version_free (heq ▸ List.mem_map_of_mem hf)
    exact ⟨j, fieldValue_fieldValue (hs.sound f hf) hj, hsettled.insert hne _⟩
  have hvalidate : s.validate nodeId (Dict.insert filled versionField (versionJson s.version)) =
      .ok () := by
    rw [← hvalid, validate, validate]
    split
    · rfl
    next check hcheck => rw [hs.validator_blind check hcheck]
  rw [normalize, migrate_of_current hversion.get?, ok_bind, fillFields_of_filled hfields, ok_bind,
    hvalidate, ok_bind, hversion]
  rfl

theorem steady_ofVersion (version : Nat) : (ofVersion version).Steady where
  names_nodup := List.nodup_nil
  version_free := List.not_mem_nil
  sound := fun f hf => absurd hf List.not_mem_nil
  validator_blind := fun check hcheck => absurd hcheck (by simp [ofVersion])

theorem Steady.append (hs : s.Steady) {f : FieldSpec}
    (hnew : f.name ∉ versionField :: s.fields.map (·.name)) (hsound : f.Sound) :
    Steady { s with fields := s.fields ++ [f] } := by
  obtain ⟨hversion, hname⟩ := List.ne_and_not_mem_of_not_mem_cons hnew
  refine ⟨?_, ?_, ?_, hs.validator_blind⟩
  · rw [List.map_append, List.nodup_append]
    refine ⟨hs.names_nodup, List.pairwise_singleton _ _, fun name hmem other hother heq => hname ?_⟩
    rw [List.map_singleton, List.mem_singleton] at hother
    exact hother ▸ heq ▸ hmem
  · rw [List.map_append, List.mem_append]
    exact not_or.mpr ⟨hs.version_free, fun hmem => hversion (List.mem_singleton.mp hmem).symm⟩
  · intro f' hf'
    rcases List.mem_append.mp hf' with hf' | hf'
    · exact hs.sound f' hf'
    · exact List.mem_singleton.mp hf' ▸ hsound

theorem Steady.required (hs : s.Steady) {name : String} {kind : FieldKind}
    (hnew : name ∉ versionField :: s.fields.map (·.name)) : (s.required name kind).Steady :=
  hs.append hnew fun _ hdefault => absurd hdefault (by simp)

theorem Steady.field (hs : s.Steady) {name : String} {kind : FieldKind} {default : Json}
    (hnew : name ∉ versionField :: s.fields.map (·.name))
    (hdefault : default = .null ∨ kind.Fits default) : (s.field name kind default).Steady :=
  hs.append hnew fun _ heq => Option.some.inj heq ▸ hdefault

/-- How payloads of earlier versions are brought to the current one does not matter. -/
theorem Steady.migration (hs : s.Steady) (fromVersion : Nat)
    (apply : Dict Json → Except String (Dict Json)) : (s.migration fromVersion apply).Steady :=
  ⟨hs.names_nodup, hs.version_free, hs.sound, hs.validator_blind⟩

theorem Steady.checkedBy (hs : s.Steady) {check : Dict Json → Except FieldIssue Unit}
    (hblind : ∀ payload version, check (Dict.insert payload versionField version) = check payload) :
    (s.checkedBy check).Steady :=
  ⟨hs.names_nodup, hs.version_free, hs.sound, fun _ hcheck => Option.some.inj hcheck ▸ hblind⟩

end Schema

end FlowGraph
