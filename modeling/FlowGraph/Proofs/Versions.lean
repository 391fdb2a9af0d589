import FlowGraph.Proofs.Schema

/-!
From version to version. A migration counts the versions that it passes through, and marks each payload on
the way with the version that it has come to; so a payload that is left halfway and read again is taken up
where it was left, and a migration in two parts comes to the same as one at once. The steps themselves
decide nothing about the way: at every version it is the first registered step for it that is taken, and
what a step writes into the version is overwritten.
-/

namespace FlowGraph.Schema

variable {s t : Schema} {nodeId : String}

/-- Whether a step is the one that is taken at a version: the first of the registered steps that starts
from it. -/
def Taken (migrations : List Migration) (version : Nat) (m : Migration) : Prop :=
  ∃ before after, migrations = before ++ m :: after ∧ m.fromVersion = version ∧
    ∀ earlier ∈ before, earlier.fromVersion ≠ version

/-- Whether a payload at a version becomes another one at the next version: what the step that is taken
makes of it, marked with that version. -/
def Advances (s : Schema) (version : Nat) (payload next : Dict Json) : Prop :=
  ∃ m result, Taken s.migrations version m ∧ m.apply payload = .ok result ∧
    next = Dict.insert result versionField (versionJson (version + 1))

/-- Why a payload at a version does not come to the next one: no step starts from the version, or the step
that is taken refuses the payload. -/
inductive Stuck (s : Schema) (nodeId : String) (version : Nat) (payload : Dict Json) : SchemaError → Prop
  | missing (hnone : ∀ m ∈ s.migrations, m.fromVersion ≠ version) :
      Stuck s nodeId version payload (.migration nodeId version "no migration registered")
  | refused {m reason} (hm : Taken s.migrations version m) (hrefused : m.apply payload = .error reason) :
      Stuck s nodeId version payload (.migration nodeId version reason)

theorem find?_eq_some_iff_taken {migrations : List Migration} {version : Nat} {m : Migration} :
    migrations.find? (·.fromVersion = version) = some m ↔ Taken migrations version m := by
  rw [List.find?_eq_some_iff_append]
  constructor
  · rintro ⟨hfrom, before, after, hsplit, hbefore⟩
    refine ⟨before, after, hsplit, by simpa using hfrom, fun earlier hearlier => ?_⟩
    simpa using hbefore earlier hearlier
  · rintro ⟨before, after, hsplit, hfrom, hbefore⟩
    refine ⟨by simpa using hfrom, before, after, hsplit, fun earlier hearlier => ?_⟩
    simpa using hbefore earlier hearlier

theorem migrateOnce_of_taken {version : Nat} {payload result : Dict Json} {m : Migration}
    (hm : Taken s.migrations version m) (h : m.apply payload = .ok result) :
    s.migrateOnce nodeId version payload =
      .ok (Dict.insert result versionField (versionJson (version + 1))) := by
  rw [migrateOnce, find?_eq_some_iff_taken.mpr hm]
  simp only [h]

theorem migrateOnce_of_refused {version : Nat} {payload : Dict Json} {m : Migration} {reason : String}
    (hm : Taken s.migrations version m) (h : m.apply payload = .error reason) :
    s.migrateOnce nodeId version payload = .error (.migration nodeId version reason) := by
  rw [migrateOnce, find?_eq_some_iff_taken.mpr hm]
  simp only [h]

theorem migrateOnce_of_missing {version : Nat} {payload : Dict Json}
    (h : ∀ m ∈ s.migrations, m.fromVersion ≠ version) : s.migrateOnce nodeId version payload =
      .error (.migration nodeId version "no migration registered") := by
  have hnone : s.migrations.find? (·.fromVersion = version) = none := by
    rw [List.find?_eq_none]
    intro m hm
    simpa using h m hm
  rw [migrateOnce, hnone]

/-- At every version there is a step to take or none. -/
theorem exists_taken_or_missing (migrations : List Migration) (version : Nat) :
    (∃ m, Taken migrations version m) ∨ ∀ m ∈ migrations, m.fromVersion ≠ version := by
  cases hfind : migrations.find? (·.fromVersion = version) with
  | some m => exact Or.inl ⟨m, find?_eq_some_iff_taken.mp hfind⟩
  | none =>
      refine Or.inr fun m hm => ?_
      simpa using List.find?_eq_none.mp hfind m hm

/-- Either the payload comes to the next version, or it is stuck. -/
theorem advances_or_stuck (s : Schema) (nodeId : String) (version : Nat) (payload : Dict Json) :
    (∃ next, s.Advances version payload next ∧ s.migrateOnce nodeId version payload = .ok next) ∨
      ∃ e, s.Stuck nodeId version payload e ∧ s.migrateOnce nodeId version payload = .error e := by
  rcases exists_taken_or_missing s.migrations version with ⟨m, hm⟩ | hmissing
  · cases h : m.apply payload with
    | ok result => exact Or.inl ⟨_, ⟨m, result, hm, h, rfl⟩, migrateOnce_of_taken hm h⟩
    | error reason => exact Or.inr ⟨_, .refused hm h, migrateOnce_of_refused hm h⟩
  · exact Or.inr ⟨_, .missing hmissing, migrateOnce_of_missing hmissing⟩

theorem migrateOnce_eq_ok_iff {version : Nat} {payload next : Dict Json} :
    s.migrateOnce nodeId version payload = .ok next ↔ s.Advances version payload next := by
  constructor
  · intro h
    rcases s.advances_or_stuck nodeId version payload with ⟨next', hnext, hok⟩ | ⟨e, -, herror⟩
    · obtain rfl := Except.ok.inj (hok.symm.trans h)
      exact hnext
    · exact absurd (herror.symm.trans h) (by simp)
  · rintro ⟨m, result, hm, hresult, rfl⟩
    exact migrateOnce_of_taken hm hresult

theorem migrateOnce_eq_error_iff {version : Nat} {payload : Dict Json} {e : SchemaError} :
    s.migrateOnce nodeId version payload = .error e ↔ s.Stuck nodeId version payload e := by
  constructor
  · intro h
    rcases s.advances_or_stuck nodeId version payload with ⟨next, -, hok⟩ | ⟨e', hstuck, herror⟩
    · exact absurd (hok.symm.trans h) (by simp)
    · obtain rfl := Except.error.inj (herror.symm.trans h)
      exact hstuck
  · intro h
    cases h with
    | missing hmissing => exact migrateOnce_of_missing hmissing
    | refused hm hreason => exact migrateOnce_of_refused hm hreason

/-- Whether a payload at one version becomes another one at a later version, step by step, each version in
between passed once and in order. -/
inductive Leads (s : Schema) : Nat → Dict Json → Nat → Dict Json → Prop
  | here {version payload} : Leads s version payload version payload
  | step {version payload next last result} (hnext : s.Advances version payload next)
      (hrest : Leads s (version + 1) next last result) : Leads s version payload last result

theorem Leads.le {version last : Nat} {payload result : Dict Json}
    (h : s.Leads version payload last result) : version ≤ last := by
  induction h with
  | here => exact Nat.le_refl _
  | step _ _ ih => omega

/-- A payload that has come to a version is marked with it. -/
theorem Leads.marked {version last : Nat} {payload result : Dict Json}
    (h : s.Leads version payload last result) (hlt : version < last) :
    Dict.get? result versionField = some (versionJson last) := by
  induction h with
  | here => omega
  | @step version payload next last result hnext hrest ih =>
      by_cases hmore : version + 1 < last
      · exact ih hmore
      · obtain rfl : last = version + 1 := by have := hrest.le; omega
        obtain ⟨m, r, -, -, rfl⟩ := hnext
        cases hrest with
        | here => exact Dict.get?_insert_self _ _ _
        | step _ hrest => have := hrest.le; omega

theorem migrateSteps_eq_ok_iff {count version : Nat} {payload result : Dict Json} :
    s.migrateSteps nodeId count version payload = .ok result ↔
      s.Leads version payload (version + count) result := by
  induction count generalizing version payload with
  | zero =>
      constructor
      · intro h
        rw [← Except.ok.inj h]
        exact .here
      · intro h
        cases h with
        | here => rfl
        | step _ hrest => have := hrest.le; omega
  | succ count ih =>
      have hshift : version + (count + 1) = version + 1 + count := by omega
      rw [hshift]
      constructor
      · intro h
        obtain ⟨next, hnext, h⟩ := bind_eq_ok h
        exact .step (migrateOnce_eq_ok_iff.mp hnext) (ih.mp h)
      · intro h
        generalize hlast : version + 1 + count = last at h
        cases h with
        | here => omega
        | step hnext hrest =>
            subst hlast
            rw [migrateSteps, migrateOnce_eq_ok_iff.mpr hnext, ok_bind]
            exact ih.mpr hrest

theorem migrateSteps_eq_error_iff {count version : Nat} {payload : Dict Json} {e : SchemaError} :
    s.migrateSteps nodeId count version payload = .error e ↔
      ∃ last result, last < version + count ∧ s.Leads version payload last result ∧
        s.Stuck nodeId last result e := by
  induction count generalizing version payload with
  | zero =>
      refine ⟨fun h => absurd h (by simp [migrateSteps]), ?_⟩
      rintro ⟨last, result, hlt, hleads, -⟩
      have := hleads.le
      omega
  | succ count ih =>
      constructor
      · intro h
        rcases bind_eq_error h with hstuck | ⟨next, hnext, h⟩
        · exact ⟨version, payload, by omega, .here, migrateOnce_eq_error_iff.mp hstuck⟩
        · obtain ⟨last, result, hlt, hleads, hstuck⟩ := ih.mp h
          exact ⟨last, result, by omega, .step (migrateOnce_eq_ok_iff.mp hnext) hleads, hstuck⟩
      · rintro ⟨last, result, hlt, hleads, hstuck⟩
        rw [migrateSteps]
        cases hleads with
        | here =>
            rw [migrateOnce_eq_error_iff.mpr hstuck]
            rfl
        | step hnext hrest =>
            rw [migrateOnce_eq_ok_iff.mpr hnext, ok_bind]
            exact ih.mpr ⟨last, result, by omega, hrest, hstuck⟩

/-- Steps one after the other, and then more of them from the version where those have come to. -/
theorem migrateSteps_add (s : Schema) (nodeId : String) (first more version : Nat) (payload : Dict Json) :
    s.migrateSteps nodeId (first + more) version payload =
      (s.migrateSteps nodeId first version payload >>= fun halfway =>
        s.migrateSteps nodeId more (version + first) halfway) := by
  induction first generalizing version payload with
  | zero =>
      rw [Nat.zero_add]
      rfl
  | succ first ih =>
      rw [show first + 1 + more = first + more + 1 by omega, migrateSteps, migrateSteps]
      cases s.migrateOnce nodeId version payload with
      | error e => rfl
      | ok next =>
          rw [ok_bind, ok_bind, ih, show version + 1 + first = version + (first + 1) by omega]

theorem migrateSteps_congr (h : t.migrations = s.migrations) (count version : Nat) (payload : Dict Json) :
    t.migrateSteps nodeId count version payload = s.migrateSteps nodeId count version payload := by
  induction count generalizing version payload with
  | zero => rfl
  | succ count ih => simp only [migrateSteps, migrateOnce, h, ih]

theorem migrate_eq_migrateSteps {raw : Json} {payload : Dict Json} {version : Nat}
    (hpayload : payloadFields nodeId raw = .ok payload)
    (hversion : payloadVersion nodeId payload = .ok version) (hle : version ≤ s.version) :
    s.migrate nodeId raw = s.migrateSteps nodeId (s.version - version) version payload := by
  rw [migrate, hpayload, ok_bind, hversion, ok_bind, if_neg (by omega)]

/-- A payload that has been brought to the version of a schema is read again as one of that version. -/
theorem Leads.payloadVersion_eq {payload result : Dict Json} {version : Nat}
    (hversion : payloadVersion nodeId payload = .ok version)
    (h : s.Leads version payload t.version result) : payloadVersion nodeId result = .ok t.version := by
  by_cases hlt : version < t.version
  · exact payloadVersion_of_current (h.marked hlt)
  · obtain rfl : version = t.version := by have := h.le; omega
    cases h with
    | here => exact hversion
    | step _ hrest => have := hrest.le; omega

/-- It makes no difference whether a payload is left at a version on the way. -/
theorem migrate_bind_migrate {raw : Json} {payload : Dict Json} {version : Nat}
    (hpayload : payloadFields nodeId raw = .ok payload)
    (hversion : payloadVersion nodeId payload = .ok version) (hsame : t.migrations = s.migrations)
    (hfirst : version ≤ t.version) (hthen : t.version ≤ s.version) :
    (t.migrate nodeId raw >>= fun halfway => s.migrate nodeId (.object halfway)) =
      s.migrate nodeId raw := by
  have hadd : s.version - version = t.version - version + (s.version - t.version) := by omega
  have hback : version + (t.version - version) = t.version := by omega
  rw [migrate_eq_migrateSteps hpayload hversion hfirst, migrateSteps_congr hsame,
    migrate_eq_migrateSteps hpayload hversion (by omega), hadd, migrateSteps_add, hback]
  cases hsteps : s.migrateSteps nodeId (t.version - version) version payload with
  | error e => rfl
  | ok halfway =>
      have hleads := migrateSteps_eq_ok_iff.mp hsteps
      rw [hback] at hleads
      rw [ok_bind, ok_bind]
      exact migrate_eq_migrateSteps rfl (hleads.payloadVersion_eq hversion) hthen

/-- A payload with nothing told of its version. -/
def unmarked (payload : Dict Json) : Dict Json :=
  Dict.insert payload versionField .null

/-- Steps that start from the same versions, and refuse the same payloads for the same reasons or come to
the same payloads but for what they write into the version. -/
def AlikeButVersion (migrations migrations' : List Migration) : Prop :=
  List.Forall₂ (fun m m' : Migration => m.fromVersion = m'.fromVersion ∧
    ∀ payload, (m.apply payload).map unmarked = (m'.apply payload).map unmarked) migrations migrations'

theorem insert_version_of_unmarked {payload payload' : Dict Json} (h : unmarked payload = unmarked payload')
    (version : Json) :
    Dict.insert payload versionField version = Dict.insert payload' versionField version := by
  calc Dict.insert payload versionField version
      = Dict.insert (unmarked payload) versionField version := (Dict.insert_insert _ _ _ _).symm
    _ = Dict.insert (unmarked payload') versionField version := by rw [h]
    _ = Dict.insert payload' versionField version := Dict.insert_insert _ _ _ _

theorem migrateOnce_of_alike (h : AlikeButVersion s.migrations t.migrations) (version : Nat)
    (payload : Dict Json) :
    t.migrateOnce nodeId version payload = s.migrateOnce nodeId version payload := by
  rw [migrateOnce, migrateOnce]
  generalize s.migrations = ms, t.migrations = ms' at h
  induction h with
  | nil => rfl
  | @cons m m' ms ms' hm _ ih =>
      obtain ⟨hfrom, happly⟩ := hm
      by_cases hversion : m.fromVersion = version
      · simp only [List.find?_cons, hversion, ← hfrom, decide_true]
        have halike := Alike.of_map_eq (happly payload)
        generalize m.apply payload = result at halike ⊢
        generalize m'.apply payload = result' at halike ⊢
        cases halike with
        | error reason => rfl
        | ok hsame => simp only [insert_version_of_unmarked hsame]
      · simpa only [List.find?_cons, hversion, ← hfrom, decide_false] using ih

theorem migrateSteps_of_alike (h : AlikeButVersion s.migrations t.migrations) (count version : Nat)
    (payload : Dict Json) :
    t.migrateSteps nodeId count version payload = s.migrateSteps nodeId count version payload := by
  induction count generalizing version payload with
  | zero => rfl
  | succ count ih => simp only [migrateSteps, migrateOnce_of_alike h, ih]

/-- A payload of a later version than the current one is refused. Any other one comes to the current version
through the versions in between, by the step that is taken at each of them, or is refused at the first
version where it is stuck; leaving it at a version on the way and taking it up again comes to the same,
payload or error; and so do steps that differ in what they write into the version. -/
theorem migration_path_independent {raw : Json} {payload : Dict Json} {version : Nat}
    (hpayload : payloadFields nodeId raw = .ok payload)
    (hversion : payloadVersion nodeId payload = .ok version) (s : Schema) :
    (s.version < version →
      s.migrate nodeId raw = .error (.unsupportedVersion nodeId version s.version)) ∧
    (version ≤ s.version →
      (∀ t : Schema, t.migrations = s.migrations → version ≤ t.version → t.version ≤ s.version →
        (t.migrate nodeId raw >>= fun halfway => s.migrate nodeId (.object halfway)) =
          s.migrate nodeId raw) ∧
      (∀ result, s.migrate nodeId raw = .ok result ↔ s.Leads version payload s.version result) ∧
      (∀ e, s.migrate nodeId raw = .error e ↔ ∃ last halfway, last < s.version ∧
        s.Leads version payload last halfway ∧ s.Stuck nodeId last halfway e) ∧
      ∀ t : Schema, t.version = s.version → AlikeButVersion s.migrations t.migrations →
        t.migrate nodeId raw = s.migrate nodeId raw) := by
  refine ⟨fun hnewer => ?_, fun hle => ⟨fun t hsame hfirst hthen => ?_, fun result => ?_, fun e => ?_,
    fun t hcurrent halike => ?_⟩⟩
  · rw [migrate, hpayload, ok_bind, hversion, ok_bind, if_pos hnewer]
  · exact migrate_bind_migrate hpayload hversion hsame hfirst hthen
  · have hlast : version + (s.version - version) = s.version := by omega
    rw [migrate_eq_migrateSteps hpayload hversion hle, migrateSteps_eq_ok_iff, hlast]
  · have hlast : version + (s.version - version) = s.version := by omega
    rw [migrate_eq_migrateSteps hpayload hversion hle, migrateSteps_eq_error_iff, hlast]
  · rw [migrate_eq_migrateSteps hpayload hversion hle,
      migrate_eq_migrateSteps hpayload hversion (hcurrent ▸ hle), hcurrent, migrateSteps_of_alike halike]

def claimAhead (payload : Dict Json) : Except String (Dict Json) :=
  .ok (Dict.insert (Dict.insert payload "a" (.bool true)) versionField (versionJson 99))

def clearVersion (payload : Dict Json) : Except String (Dict Json) :=
  .ok (Dict.insert (Dict.insert payload "b" (.bool true)) versionField .null)

/-- Two steps that meddle with the version, and one that comes too late to be taken; none starts from
version 3. -/
def relay (version : Nat) : Schema :=
  (((ofVersion version).migration 1 claimAhead).migration 1 fun _ => .error "too late").migration 2
    clearVersion

/-- The same steps, which leave the version alone. -/
def quietRelay (version : Nat) : Schema :=
  (((ofVersion version).migration 1 fun payload => .ok (Dict.insert payload "a" (.bool true))).migration 1
    fun _ => .error "too late").migration 2 fun payload => .ok (Dict.insert payload "b" (.bool true))

/-- The versions that the steps write are of no effect, neither at once nor by way of version 2, and the way
ends where no step is registered. -/
theorem relay_path_independent : payloadFields "n" .null = .ok [] ∧ payloadVersion "n" [] = .ok 1 ∧
    (relay 3).migrate "n" .null =
      .ok [("_version", versionJson 3), ("a", .bool true), ("b", .bool true)] ∧
    ((relay 2).migrate "n" .null >>= fun halfway => (relay 3).migrate "n" (.object halfway)) =
      (relay 3).migrate "n" .null ∧
    (quietRelay 3).migrate "n" .null = (relay 3).migrate "n" .null ∧
    (relay 4).migrate "n" .null = .error (.migration "n" 3 "no migration registered") ∧
    (∃ halfway, (relay 4).Leads 1 [] 3 halfway) ∧
    (relay 1).migrate "n" (.object [("_version", versionJson 2)]) =
      .error (.unsupportedVersion "n" 2 1) := by
  have hpayload : payloadFields "n" .null = .ok [] := rfl
  have hversion : payloadVersion "n" [] = .ok 1 := rfl
  have hnewer : payloadVersion "n" [("_version", versionJson 2)] = .ok 2 := by rfl
  have halike : AlikeButVersion (relay 3).migrations (quietRelay 3).migrations := by
    refine .cons ⟨rfl, fun payload => ?_⟩ (.cons ⟨rfl, fun _ => rfl⟩
      (.cons ⟨rfl, fun payload => ?_⟩ .nil)) <;>
    exact congrArg Except.ok (Dict.insert_insert _ _ _ _)
  have hrefused : (relay 4).migrate "n" .null = .error (.migration "n" 3 "no migration registered") := by
    rfl
  obtain ⟨-, hthree⟩ := migration_path_independent hpayload hversion (relay 3)
  obtain ⟨hpath, -, -, hsame⟩ := hthree (by decide)
  obtain ⟨-, hfour⟩ := migration_path_independent hpayload hversion (relay 4)
  obtain ⟨-, -, herror, -⟩ := hfour (by decide)
  obtain ⟨last, halfway, -, hleads, hstuck⟩ := (herror _).mp hrefused
  obtain rfl : last = 3 := by cases hstuck <;> rfl
  exact ⟨hpayload, hversion, by rfl, hpath (relay 2) rfl (by decide) (by decide),
    hsame (quietRelay 3) rfl halike, hrefused, ⟨halfway, hleads⟩,
    (migration_path_independent rfl hnewer (relay 1)).1 (by decide)⟩

end FlowGraph.Schema
