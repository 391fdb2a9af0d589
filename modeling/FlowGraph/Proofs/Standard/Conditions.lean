import FlowGraph.Proofs.Normalization
import FlowGraph.Standard.Branching
import Mathlib.Data.List.Nodup

/-!
The conditions of an `if` node, as a schema accepts them and as it leaves them. Data of the current version
keeps its list of conditions. Data of the first version has one condition under another name, and only that
one becomes a condition of the list: what stands in the place of the list, which version 1 does not know, is
replaced. A payload that does not say its version is one of version 1.
-/

namespace FlowGraph.Standard

open Schema

/-- Conditions with an id of their own each, which is neither empty nor the output for no condition. -/
structure WellNamed (cs : List Authored) : Prop where
  ids_nodup : (cs.map (·.id)).Nodup
  ne_empty : ∀ c ∈ cs, c.id ≠ ""
  ne_falseHandle : ∀ c ∈ cs, c.id ≠ falseHandle

/-- Data that lists conditions, and nothing else among them. -/
def Lists (data : Dict Json) (cs : List Authored) : Prop :=
  ∃ items, Dict.get? data conditionsField = some (.array items) ∧
    items.map Authored.ofJson? = cs.map some

theorem wellNamed_nil : WellNamed [] :=
  ⟨List.nodup_nil, by simp, by simp⟩

theorem wellNamed_cons {c : Authored} {cs : List Authored} : WellNamed (c :: cs) ↔
    (c.id ≠ "" ∧ c.id ≠ falseHandle) ∧ c.id ∉ cs.map (·.id) ∧ WellNamed cs := by
  constructor
  · intro h
    obtain ⟨hnot, hnodup⟩ := List.nodup_cons.mp h.ids_nodup
    obtain ⟨hempty, hne_empty⟩ := List.forall_mem_cons.mp h.ne_empty
    obtain ⟨hfalse, hne_false⟩ := List.forall_mem_cons.mp h.ne_falseHandle
    exact ⟨⟨hempty, hfalse⟩, hnot, hnodup, hne_empty, hne_false⟩
  · rintro ⟨⟨hempty, hfalse⟩, hnot, h⟩
    exact ⟨List.nodup_cons.mpr ⟨hnot, h.ids_nodup⟩, List.forall_mem_cons.mpr ⟨hempty, h.ne_empty⟩,
      List.forall_mem_cons.mpr ⟨hfalse, h.ne_falseHandle⟩⟩

theorem filterMap_of_map_eq {α β : Type} {f : α → Option β} {xs : List α} {ys : List β}
    (h : xs.map f = ys.map some) : xs.filterMap f = ys := by
  have hmap := congrArg (List.filterMap id) h
  simpa [List.filterMap_map] using hmap

theorem conditionsOf_of_get? {data : Dict Json} {items : List Json}
    (h : Dict.get? data conditionsField = some (.array items)) :
    conditionsOf (.object data) = items.filterMap Authored.ofJson? := by
  simp [conditionsOf, Json.field?, h, Json.items?]

theorem Lists.conditionsOf_eq {data : Dict Json} {cs : List Authored} (h : Lists data cs) :
    conditionsOf (.object data) = cs := by
  obtain ⟨items, hget, hitems⟩ := h
  rw [conditionsOf_of_get? hget, filterMap_of_map_eq hitems]

/-- The check goes through if there are only conditions, no id occurs twice or was seen before, and none
is reserved. -/
theorem checkConditions_eq_ok_iff {seen : List String} {items : List Json} :
    checkConditions seen items = .ok () ↔ ∃ cs : List Authored,
      items.map Authored.ofJson? = cs.map some ∧ WellNamed cs ∧ ∀ c ∈ cs, c.id ∉ seen := by
  induction items generalizing seen with
  | nil =>
      refine ⟨fun _ => ⟨[], rfl, wellNamed_nil, by simp⟩, fun _ => rfl⟩
  | cons j items ih =>
      rw [checkConditions]
      constructor
      · intro h
        split at h
        · exact absurd h (by simp)
        next c hc =>
          split_ifs at h with hreserved hseen
          obtain ⟨cs, hitems, hnamed, hfresh⟩ := ih.mp h
          have hnot : c.id ∉ cs.map (·.id) := fun hmem => by
            obtain ⟨c', hc', heq⟩ := List.mem_map.mp hmem
            exact hfresh c' hc' (heq ▸ List.mem_cons_self)
          refine ⟨c :: cs, by simp [hc, hitems], ?_, ?_⟩
          · exact wellNamed_cons.mpr ⟨not_or.mp hreserved, hnot, hnamed⟩
          · exact List.forall_mem_cons.mpr
              ⟨hseen, fun c' hc' hmem => hfresh c' hc' (List.mem_cons_of_mem _ hmem)⟩
      · rintro ⟨cs, hitems, hnamed, hfresh⟩
        cases cs with
        | nil => exact absurd hitems (by simp)
        | cons c cs =>
            obtain ⟨hc, hitems⟩ := List.cons.inj hitems
            obtain ⟨⟨hempty, hfalse⟩, hnot, hnamed⟩ := wellNamed_cons.mp hnamed
            obtain ⟨hseen, hunseen⟩ := List.forall_mem_cons.mp hfresh
            simp only [hc, hempty, hfalse, or_self, if_false, hseen]
            refine ih.mpr ⟨cs, hitems, hnamed, fun c' hc' hmem => ?_⟩
            rcases List.mem_cons.mp hmem with heq | hmem
            · exact hnot (List.mem_map.mpr ⟨c', hc', heq⟩)
            · exact hunseen c' hc' hmem

theorem validateConditions_eq_ok_iff {payload : Dict Json} :
    validateConditions payload = .ok () ↔ ∃ cs, Lists payload cs ∧ WellNamed cs := by
  rw [validateConditions]
  constructor
  · intro h
    split at h
    next items hget =>
      obtain ⟨cs, hitems, hnamed, -⟩ := checkConditions_eq_ok_iff.mp h
      exact ⟨cs, ⟨items, hget, hitems⟩, hnamed⟩
    · exact absurd h (by simp)
  · rintro ⟨cs, ⟨items, hget, hitems⟩, hnamed⟩
    rw [hget]
    exact checkConditions_eq_ok_iff.mpr ⟨cs, hitems, hnamed, by simp⟩

/-- The keys of the outputs are the ids of the conditions, and the one for no condition at the end. -/
theorem keys_ifHandles (data : Json) : (ifHandles data).outputs.map (·.key) =
    (conditionsOf data).map (·.id) ++ [falseHandle] := by
  simp [ifHandles, Handle.key, Handle.output, handleKey]

/-- Outputs of accepted conditions can be told apart. -/
theorem WellNamed.nodup_keys {data : Json} (h : WellNamed (conditionsOf data)) :
    ((ifHandles data).outputs.map (·.key)).Nodup := by
  rw [keys_ifHandles, ← List.concat_eq_append]
  refine (List.nodup_concat _ _).mpr ⟨fun hmem => ?_, h.ids_nodup⟩
  obtain ⟨c, hc, hid⟩ := List.mem_map.mp hmem
  exact h.ne_falseHandle c hc hid

/-- None of them is taken for the output without an id. -/
theorem WellNamed.key_ne_empty {data : Json} (h : WellNamed (conditionsOf data)) :
    ∀ key ∈ (ifHandles data).outputs.map (·.key), key ≠ "" := by
  intro key hkey
  rw [keys_ifHandles] at hkey
  rcases List.mem_append.mp hkey with hkey | hkey
  · obtain ⟨c, hc, rfl⟩ := List.mem_map.mp hkey
    exact h.ne_empty c hc
  · obtain rfl := List.mem_singleton.mp hkey
    decide

/-- The list of conditions is the only field that is declared. -/
def conditionsSpec : FieldSpec :=
  ⟨conditionsField, .array, some (.array [])⟩

theorem fields_ifSchema : ifSchema.fields = [conditionsSpec] := rfl

theorem ifSchema_names_nodup : (ifSchema.fields.map (·.name)).Nodup := by
  decide

/-- Normalised data lists the conditions that the payload has after its migration, in the very array that
the payload holds, if it holds one. Each of them has an id of its own. -/
theorem exists_lists_of_normalize {nodeId : String} {raw : Json} {data : Dict Json}
    (h : ifSchema.normalize nodeId raw = .ok data) :
    ∃ payload cs, ifSchema.migrate nodeId raw = .ok payload ∧ Lists data cs ∧ WellNamed cs ∧
      conditionsOf (.object payload) = cs ∧
      ∀ items, Dict.get? payload conditionsField = some (.array items) →
        Dict.get? data conditionsField = some (.array items) := by
  obtain ⟨payload, hmigrate, hpayload, rfl⟩ := exists_of_normalize_eq_ok ifSchema_names_nodup h
  obtain ⟨cs, ⟨items, hget, hitems⟩, hnamed⟩ :=
    validateConditions_eq_ok_iff.mp (hpayload.valid validateConditions rfl)
  have hdata : Dict.get? (Dict.insert (ifSchema.filled payload) versionField
      (versionJson ifSchema.version)) conditionsField = some (.array items) := by
    rw [Dict.get?_insert_of_ne _ _ (by decide), hget]
  rw [hdata]
  refine ⟨payload, cs, hmigrate, ⟨items, hdata, hitems⟩, hnamed, ?_⟩
  have hfilled : conditionsSpec.FilledIn payload (ifSchema.filled payload) :=
    (completes_filled ifSchema_names_nodup hpayload.provided).declared _ (by simp [fields_ifSchema])
  rcases conditionsSpec.stated_or_unstated payload with ⟨j, hj, hnull⟩ | hunstated
  · obtain ⟨coerced, hcoerced, hgiven⟩ := hfilled.stated j hj hnull
    obtain rfl : coerced = .array items := Option.some.inj (hgiven.symm.trans hget)
    obtain rfl : j = .array items := by
      cases j <;> simp_all [conditionsSpec, FieldKind.coerce]
    refine ⟨?_, fun items' hitems' => hj.symm.trans hitems'⟩
    rw [conditionsOf_of_get? hj, filterMap_of_map_eq hitems]
  · obtain ⟨default, hdefault, hgiven⟩ := hfilled.defaulted hunstated
    obtain rfl : .array [] = default := Option.some.inj hdefault
    obtain rfl : items = [] := by simpa using hget.symm.trans hgiven
    obtain rfl : cs = [] := by simpa using hitems.symm
    rcases hunstated with hnone | hnull
    · simp_all [conditionsSpec, conditionsOf, Json.field?]
    · simp_all [conditionsSpec, conditionsOf, Json.field?, Json.items?]

/-- Normalised data lists conditions with an id of their own each. -/
theorem wellNamed_of_normalize {nodeId : String} {raw : Json} {data : Dict Json}
    (h : ifSchema.normalize nodeId raw = .ok data) : WellNamed (conditionsOf (.object data)) := by
  obtain ⟨payload, cs, -, hlists, hnamed, -⟩ := exists_lists_of_normalize h
  rwa [hlists.conditionsOf_eq]

theorem payloadVersion_pos {nodeId : String} {payload : Dict Json} {version : Nat}
    (h : payloadVersion nodeId payload = .ok version) : 1 ≤ version := by
  unfold payloadVersion at h
  split at h
  · exact (Except.ok.inj h).le
  · exact (Except.ok.inj h).le
  · split at h
    next n _ =>
      split_ifs at h with hbounds
      exact Except.ok.inj h ▸ hbounds.1
    · exact absurd h (by simp)

/-- A payload that migrates is of the current version and stays, or is of the first one and has the single
condition of that version as its list. -/
theorem migrate_ifSchema_eq_ok {nodeId : String} {payload migrated : Dict Json}
    (h : ifSchema.migrate nodeId (.object payload) = .ok migrated) :
    payloadVersion nodeId payload = .ok 2 ∧ migrated = payload ∨
    payloadVersion nodeId payload = .ok 1 ∧ ∃ listed, migrateSingleCondition payload = .ok listed ∧
      migrated = Dict.insert listed versionField (versionJson 2) := by
  rw [migrate, payloadFields, ok_bind] at h
  obtain ⟨version, hversion, h⟩ := bind_eq_ok h
  have hpos := payloadVersion_pos hversion
  have htwo : ifSchema.version = 2 := rfl
  split_ifs at h with hnewer
  obtain rfl | rfl : version = 2 ∨ version = 1 := by omega
  · exact Or.inl ⟨hversion, (Except.ok.inj h).symm⟩
  · refine Or.inr ⟨hversion, ?_⟩
    obtain ⟨next, hnext, h⟩ := bind_eq_ok h
    obtain rfl : next = migrated := Except.ok.inj h
    have hfind : ifSchema.migrations.find? (·.fromVersion = 1) = some ⟨1, migrateSingleCondition⟩ := by
      rfl
    rw [migrateOnce, hfind] at hnext
    dsimp only at hnext
    split at hnext
    · exact absurd hnext (by simp)
    next listed hlisted => exact ⟨listed, hlisted, (Except.ok.inj hnext).symm⟩

theorem migrateSingleCondition_eq_ok {payload listed : Dict Json}
    (h : migrateSingleCondition payload = .ok listed) :
    (∃ expression, Dict.get? payload "condition" = some (.string expression) ∧
      Lists listed [⟨"true", expression⟩]) ∨
    (Dict.get? payload "condition" = none ∨ Dict.get? payload "condition" = some .null) ∧
      Lists listed [] := by
  unfold migrateSingleCondition at h
  dsimp only at h
  split at h
  next hnone =>
    obtain rfl := Except.ok.inj h
    exact Or.inr ⟨Or.inl hnone, [], Dict.get?_insert_self _ _ _, rfl⟩
  next hnull =>
    obtain rfl := Except.ok.inj h
    exact Or.inr ⟨Or.inr hnull, [], Dict.get?_insert_self _ _ _, rfl⟩
  next expression hstring =>
    obtain rfl := Except.ok.inj h
    exact Or.inl ⟨expression, hstring, _, Dict.get?_insert_self _ _ _, rfl⟩
  · exact absurd h (by simp)

/-- A payload that is normalised is of version 2 and keeps its conditions, in the very array that it holds;
or it is of version 1, as one is that does not say its version, and has the condition of that version
or none: whatever it holds in the place of the list is replaced. -/
theorem normalized_conditions {nodeId : String} {payload data : Dict Json}
    (h : ifSchema.normalize nodeId (.object payload) = .ok data) :
    (payloadVersion nodeId payload = .ok 2 ∧
      conditionsOf (.object data) = conditionsOf (.object payload) ∧
      ∀ items, Dict.get? payload conditionsField = some (.array items) →
        Dict.get? data conditionsField = some (.array items)) ∨
    (payloadVersion nodeId payload = .ok 1 ∧
      ((∃ expression, Dict.get? payload "condition" = some (.string expression) ∧
          conditionsOf (.object data) = [⟨"true", expression⟩]) ∨
        (Dict.get? payload "condition" = none ∨ Dict.get? payload "condition" = some .null) ∧
          conditionsOf (.object data) = [])) := by
  obtain ⟨migrated, cs, hmigrate, hlists, -, hconditions, hkept⟩ := exists_lists_of_normalize h
  rw [hlists.conditionsOf_eq, ← hconditions]
  rcases migrate_ifSchema_eq_ok hmigrate with ⟨hversion, rfl⟩ | ⟨hversion, listed, hlisted, rfl⟩
  · exact Or.inl ⟨hversion, rfl, hkept⟩
  · refine Or.inr ⟨hversion, ?_⟩
    have hsame : conditionsOf (.object (Dict.insert listed versionField (versionJson 2))) =
        conditionsOf (.object listed) := by
      rw [conditionsOf, conditionsOf, Json.field?, Json.field?, Dict.get?_insert_of_ne _ _ (by decide)]
    rw [hsame]
    rcases migrateSingleCondition_eq_ok hlisted with ⟨expression, hstring, hlists⟩ | ⟨hnone, hlists⟩
    · exact Or.inl ⟨expression, hstring, hlists.conditionsOf_eq⟩
    · exact Or.inr ⟨hnone, hlists.conditionsOf_eq⟩

/-- One condition as version 1 held it, with an entry of a list that version 1 does not know. -/
def singleCondition : Dict Json :=
  [("condition", .string "value == 1.0"), (conditionsField, .array [Authored.toJson ⟨"a", "true"⟩])]

/-- Two conditions as version 2 lists them, with something of the author's in the first. -/
def twoConditions : Dict Json :=
  [("_version", versionJson 2), (conditionsField, .array [
    .object [("expression", .string "true"), ("id", .string "b"), ("note", .null)],
    Authored.toJson ⟨"a", "false"⟩])]

/-- The list of version 2 stays in its order; of version 1 there is the single condition only. -/
theorem conditions_of_both_versions :
    (∃ data, ifSchema.normalize "n" (.object twoConditions) = .ok data ∧
      conditionsOf (.object data) = [⟨"b", "true"⟩, ⟨"a", "false"⟩]) ∧
    ∃ data, ifSchema.normalize "n" (.object singleCondition) = .ok data ∧
      conditionsOf (.object data) = [⟨"true", "value == 1.0"⟩] := by
  have htwo : ifSchema.normalize "n" (.object twoConditions) = .ok twoConditions := by rfl
  have hsingle : ifSchema.normalize "n" (.object singleCondition) = .ok [("_version", versionJson 2),
      (conditionsField, .array [Authored.toJson ⟨"true", "value == 1.0"⟩])] := by rfl
  refine ⟨⟨_, htwo, ?_⟩, _, hsingle, ?_⟩
  · rcases normalized_conditions htwo with ⟨-, hsame, -⟩ | ⟨hversion, -⟩
    · exact hsame.trans rfl
    · exact absurd hversion (by decide)
  · rcases normalized_conditions hsingle with
      ⟨hversion, -⟩ | ⟨-, ⟨expression, hstring, hsame⟩ | ⟨hnone, -⟩⟩
    · exact absurd hversion (by decide)
    · have hget : Dict.get? singleCondition "condition" = some (.string "value == 1.0") := rfl
      obtain rfl := Json.string.inj (Option.some.inj (hget.symm.trans hstring))
      exact hsame
    · exact absurd hnone (by decide)

/-- A list of conditions without a version. -/
def unversioned : Dict Json :=
  [(conditionsField, .array [Authored.toJson ⟨"a", "true"⟩])]

/-- Without its version a list of conditions is taken for data of version 1, and none of them is kept. -/
theorem unversioned_conditions_replaced :
    ∃ data, ifSchema.normalize "n" (.object unversioned) = .ok data ∧
      conditionsOf (.object unversioned) = [⟨"a", "true"⟩] ∧ conditionsOf (.object data) = [] :=
  ⟨[("_version", versionJson 2), (conditionsField, .array [])], rfl, rfl, rfl⟩

end FlowGraph.Standard
