import FlowGraph.Proofs.Standard.Conditions
import Mathlib.Data.List.Nodup

/-!
Editing the conditions of an `if` node. What is left of the conditions from the start keeps its order, and
the conditions that were added and not removed follow in the order in which they were added. The ids of the
added ones are numbered, so none of them is taken twice or reserved. But the numbers begin at one, whatever
the ids of the conditions from the start; so the conditions that are left are accepted again as long as no
such condition has an id that is about to be taken.
-/

namespace FlowGraph

def numbered (stem : String) (n : Nat) : String :=
  s!"{stem}-{n}"

theorem toList_numbered (stem : String) (n : Nat) :
    (numbered stem n).toList = stem.toList ++ '-' :: Nat.toDigits 10 n := by
  have hstem : toString stem = stem := rfl
  have hhyphen : (toString "-").toList = ['-'] := rfl
  simp [numbered, hstem, hhyphen]

theorem numbered_injective (stem : String) : Function.Injective (numbered stem) := by
  intro m n h
  have hlists : stem.toList ++ '-' :: Nat.toDigits 10 m = stem.toList ++ '-' :: Nat.toDigits 10 n := by
    rw [← toList_numbered, ← toList_numbered, h]
  have hdigits : Nat.toDigits 10 m = Nat.toDigits 10 n :=
    (List.cons.inj (List.append_cancel_left hlists)).2
  simpa using congrArg (Nat.ofDigitChars 10 · 0) hdigits

/-- A text without a hyphen is no numbered id. -/
theorem numbered_ne {stem s : String} {n : Nat} (hs : '-' ∉ s.toList) : numbered stem n ≠ s := by
  rintro rfl
  exact hs (by simp [toList_numbered])

namespace Standard

/-- An edit of the conditions of a node: a condition is added, or the conditions with an id are removed. -/
inductive Edit where
  | add (expression : String)
  | remove (id : String)
deriving DecidableEq

def Edit.isAdd : Edit → Bool
  | add _ => true
  | remove _ => false

def countAdds (edits : List Edit) : Nat :=
  edits.countP Edit.isAdd

/-- Whether no edit removes a condition. -/
def Authored.stays (edits : List Edit) (c : Authored) : Bool :=
  Edit.remove c.id ∉ edits

/-- The conditions that are added and not removed later, in order; the first one gets the number `n`. -/
def additions (stem : String) : (n : Nat) → List Edit → List Authored
  | _, [] => []
  | n, .add expression :: edits =>
    [⟨numbered stem n, expression⟩].filter (Authored.stays edits) ++ additions stem (n + 1) edits
  | n, .remove _ :: edits => additions stem n edits

@[simp] theorem countAdds_add (expression : String) (edits : List Edit) :
    countAdds (.add expression :: edits) = countAdds edits + 1 :=
  List.countP_cons_of_pos rfl

@[simp] theorem countAdds_remove (id : String) (edits : List Edit) :
    countAdds (.remove id :: edits) = countAdds edits :=
  List.countP_cons_of_neg (by simp [Edit.isAdd])

theorem Authored.stays_iff {edits : List Edit} {c : Authored} :
    c.stays edits = true ↔ Edit.remove c.id ∉ edits := by
  simp [stays]

@[simp] theorem Authored.stays_nil : Authored.stays [] = fun _ => true := by
  funext c
  simp [stays]

@[simp] theorem Authored.stays_add (expression : String) (edits : List Edit) :
    Authored.stays (.add expression :: edits) = Authored.stays edits := by
  funext c
  simp [stays]

@[simp] theorem Authored.stays_remove (id : String) (edits : List Edit) :
    Authored.stays (.remove id :: edits) = fun c => c.stays edits && decide (c.id ≠ id) := by
  funext c
  simp [stays, Bool.and_comm]

namespace ConditionList

def edit (l : ConditionList) : Edit → ConditionList
  | .add expression => (l.add expression).2
  | .remove id => (l.remove id).2

/-- The conditions after edits, one after the other. -/
def editAll (l : ConditionList) (edits : List Edit) : ConditionList :=
  edits.foldl edit l

variable {l : ConditionList}

@[simp] theorem editAll_nil : l.editAll [] = l := rfl

@[simp] theorem editAll_cons (e : Edit) (edits : List Edit) :
    l.editAll (e :: edits) = (l.edit e).editAll edits := rfl

@[simp] theorem ids_add (expression : String) :
    (l.edit (.add expression)).ids = { l.ids with taken := l.ids.taken + 1 } := rfl

@[simp] theorem ids_remove (id : String) : (l.edit (.remove id)).ids = l.ids := rfl

@[simp] theorem conditions_add (expression : String) : (l.edit (.add expression)).conditions =
    l.conditions ++ [⟨numbered l.ids.stem (l.ids.taken + 1), expression⟩] := rfl

@[simp] theorem conditions_remove (id : String) :
    (l.edit (.remove id)).conditions = l.conditions.filter (·.id ≠ id) := rfl

/-- Every addition takes one number, and nothing else does. -/
theorem ids_editAll (edits : List Edit) :
    (l.editAll edits).ids = { l.ids with taken := l.ids.taken + countAdds edits } := by
  induction edits generalizing l with
  | nil => rfl
  | cons e edits ih =>
      rw [editAll_cons, ih]
      cases e with
      | add expression =>
          have hcount : l.ids.taken + 1 + countAdds edits = l.ids.taken + (countAdds edits + 1) := by
            omega
          simp [hcount]
      | remove id => simp

theorem id_add_editAll (edits : List Edit) (expression : String) :
    ((l.editAll edits).add expression).1 =
      numbered l.ids.stem (l.ids.taken + countAdds edits + 1) := by
  show numbered (l.editAll edits).ids.stem ((l.editAll edits).ids.taken + 1) = _
  rw [ids_editAll]

/-- What is left of the conditions from the start is followed by what is left of those that were added. -/
theorem conditions_editAll (edits : List Edit) : (l.editAll edits).conditions =
    l.conditions.filter (Authored.stays edits) ++ additions l.ids.stem (l.ids.taken + 1) edits := by
  induction edits generalizing l with
  | nil => simp [additions]
  | cons e edits ih =>
      rw [editAll_cons, ih]
      cases e with
      | add expression => simp [additions, List.filter_append]
      | remove id => simp [additions, List.filter_filter]

end ConditionList

/-- What is added has one of the numbers from `n` on, one for each addition. -/
theorem exists_number_of_mem_additions {stem : String} {n : Nat} {edits : List Edit} {c : Authored}
    (h : c ∈ additions stem n edits) : ∃ m, n ≤ m ∧ m < n + countAdds edits ∧ c.id = numbered stem m := by
  induction edits generalizing n with
  | nil => exact absurd h List.not_mem_nil
  | cons e edits ih =>
      cases e with
      | add expression =>
          rw [countAdds_add]
          rcases List.mem_append.mp h with h | h
          · obtain rfl := List.mem_singleton.mp (List.mem_of_mem_filter h)
            exact ⟨n, le_refl n, by omega, rfl⟩
          · obtain ⟨m, hle, hlt, hid⟩ := ih h
            exact ⟨m, by omega, by omega, hid⟩
      | remove id =>
          obtain ⟨m, hle, hlt, hid⟩ := ih h
          exact ⟨m, hle, by simpa using hlt, hid⟩

/-- Whether every addition takes an id that no condition has then. -/
def AddsFresh (l : ConditionList) (edits : List Edit) : Prop :=
  ∀ before expression after, edits = before ++ .add expression :: after →
    ((l.editAll before).add expression).1 ∉ (l.editAll before).conditions.map (·.id)

/-- Whether every condition from the start whose number is about to be taken has been removed before. -/
def Unclaimed (l : ConditionList) (edits : List Edit) : Prop :=
  ∀ before expression after, edits = before ++ .add expression :: after →
    ∀ c ∈ l.conditions, c.id = numbered l.ids.stem (l.ids.taken + countAdds before + 1) →
      Edit.remove c.id ∈ before

variable {l : ConditionList} {edits : List Edit}

/-- The numbers that were taken before differ from the next one, so only a condition from the start can
have it. -/
theorem addsFresh_iff_unclaimed : AddsFresh l edits ↔ Unclaimed l edits := by
  have hstep : ∀ before expression,
      ((l.editAll before).add expression).1 ∉ (l.editAll before).conditions.map (·.id) ↔
        ∀ c ∈ l.conditions, c.id = numbered l.ids.stem (l.ids.taken + countAdds before + 1) →
          Edit.remove c.id ∈ before := by
    intro before expression
    rw [ConditionList.id_add_editAll, ConditionList.conditions_editAll]
    constructor
    · intro hfresh c hc hid
      by_contra hstays
      refine hfresh (List.mem_map.mpr ⟨c, List.mem_append_left _ ?_, hid⟩)
      exact List.mem_filter.mpr ⟨hc, Authored.stays_iff.mpr hstays⟩
    · intro hremoved hmem
      obtain ⟨c, hc, hid⟩ := List.mem_map.mp hmem
      rcases List.mem_append.mp hc with hc | hc
      · obtain ⟨hc, hstays⟩ := List.mem_filter.mp hc
        exact Authored.stays_iff.mp hstays (hremoved c hc hid)
      · obtain ⟨m, -, hlt, hnumber⟩ := exists_number_of_mem_additions hc
        have hsame := numbered_injective _ (hnumber.symm.trans hid)
        omega
  simp only [AddsFresh, Unclaimed, hstep]

theorem WellNamed.perm {cs cs' : List Authored} (h : WellNamed cs) (hperm : cs.Perm cs') :
    WellNamed cs' :=
  ⟨(hperm.map _).nodup_iff.mp h.ids_nodup, fun c hc => h.ne_empty c (hperm.mem_iff.mpr hc),
    fun c hc => h.ne_falseHandle c (hperm.mem_iff.mpr hc)⟩

theorem WellNamed.add (h : WellNamed l.conditions) {expression : String}
    (hfresh : (l.add expression).1 ∉ l.conditions.map (·.id)) :
    WellNamed (l.edit (.add expression)).conditions := by
  have hempty : (l.add expression).1 ≠ "" := numbered_ne (by decide)
  have hfalse : (l.add expression).1 ≠ falseHandle := numbered_ne (by decide)
  have hcons : WellNamed (⟨(l.add expression).1, expression⟩ :: l.conditions) :=
    wellNamed_cons.mpr ⟨⟨hempty, hfalse⟩, hfresh, h⟩
  exact hcons.perm (List.perm_append_singleton _ _).symm

theorem WellNamed.sublist {cs cs' : List Authored} (h : WellNamed cs) (hsub : cs'.Sublist cs) :
    WellNamed cs' :=
  ⟨h.ids_nodup.sublist (hsub.map _), fun c hc => h.ne_empty c (hsub.subset hc),
    fun c hc => h.ne_falseHandle c (hsub.subset hc)⟩

/-- Edits keep ids apart from each other and from the reserved ones, if every addition takes a new id. -/
theorem WellNamed.editAll (h : WellNamed l.conditions) (hfresh : AddsFresh l edits) :
    WellNamed (l.editAll edits).conditions := by
  induction edits generalizing l with
  | nil => exact h
  | cons e edits ih =>
      have hrest : AddsFresh (l.edit e) edits := fun before expression after heq =>
        hfresh (e :: before) expression after (congrArg (e :: ·) heq)
      cases e with
      | add expression => exact ih (h.add (hfresh [] expression edits rfl)) hrest
      | remove id => exact ih (h.sublist List.filter_sublist) hrest

namespace ConditionList

/-- The fields of the data of a node with these conditions. -/
def fields (l : ConditionList) : Dict Json :=
  [(versionField, Schema.versionJson 2), (conditionsField, .array (l.conditions.map Authored.toJson))]

theorem toData_eq (l : ConditionList) : l.toData = .object l.fields := rfl

theorem lists_fields (l : ConditionList) : Lists l.fields l.conditions := by
  refine ⟨l.conditions.map Authored.toJson, rfl, ?_⟩
  rw [List.map_map]
  exact List.map_congr_left fun c _ => rfl

theorem conditionsOf_toData (l : ConditionList) : conditionsOf l.toData = l.conditions :=
  l.lists_fields.conditionsOf_eq

/-- The data of conditions with ids of their own is accepted, and left as it is. -/
theorem normalize_toData (h : WellNamed l.conditions) (nodeId : String) :
    ifSchema.normalize nodeId l.toData = .ok l.fields := by
  have hversion : Dict.Settled l.fields versionField (Schema.versionJson 2) := by
    simp [Dict.Settled, Dict.insert, fields]
  have hconditions : Dict.Settled l.fields conditionsField
      (.array (l.conditions.map Authored.toJson)) := by
    have hne : versionField ≠ conditionsField := by decide
    have hnot : ¬ conditionsField < versionField := by decide
    simp [Dict.Settled, Dict.insert, fields, hne, hnot]
  have hfill : Schema.fillFields nodeId ifSchema.fields l.fields = .ok l.fields := by
    rw [fields_ifSchema]
    refine Schema.fillFields_of_filled (List.forall_mem_singleton.mpr ⟨_, ?_, hconditions⟩)
    exact Schema.fieldValue_of_fits ⟨rfl, rfl⟩
  have hvalid : validateConditions l.fields = .ok () :=
    validateConditions_eq_ok_iff.mpr ⟨l.conditions, l.lists_fields, h⟩
  have hvalidate : ifSchema.validate nodeId l.fields = .ok () :=
    Schema.validate_eq_ok fun check hcheck => Option.some.inj hcheck ▸ hvalid
  rw [toData_eq, Schema.normalize, Schema.migrate_of_current hversion.get?, ok_bind, hfill, ok_bind,
    hvalidate, ok_bind]
  exact congrArg Except.ok hversion

end ConditionList

/-- What edits leave of the validity of a node: every addition takes an id that no condition has then, the
data is accepted as it is, and no two handles share their key. -/
structure StaysValid (l : ConditionList) (edits : List Edit) : Prop where
  fresh : AddsFresh l edits
  accepted : ∃ fields, (l.editAll edits).toData = .object fields ∧
    ∀ nodeId, ifSchema.normalize nodeId (l.editAll edits).toData = .ok fields
  handles_nodup : ((ifHandles (l.editAll edits).toData).outputs.map (·.key)).Nodup

/-- The conditions of edited data are those from the start that were not removed, in their order, followed by
those that were added and not removed, in the order of their addition; and their ids are its handles, followed
by the one for no condition. The node stays valid exactly if no condition from the start has an id that is
taken while it is there. -/
theorem edits_keep_valid_iff {nodeId : String} {raw : Json} {data : Dict Json}
    (h : ifSchema.normalize nodeId raw = .ok data) (ids : IdSequence) (edits : List Edit) :
    let start : ConditionList := .ofData ids (.object data)
    let edited : Json := (start.editAll edits).toData
    conditionsOf edited = (conditionsOf (.object data)).filter (Authored.stays edits) ++
      additions ids.stem (ids.taken + 1) edits ∧
    (ifHandles edited).outputs.map (·.key) = (conditionsOf edited).map (·.id) ++ [falseHandle] ∧
    (StaysValid start edits ↔ Unclaimed start edits) := by
  intro start edited
  have hstart : WellNamed start.conditions := wellNamed_of_normalize h
  refine ⟨?_, keys_ifHandles edited, fun hvalid => addsFresh_iff_unclaimed.mp hvalid.fresh,
    fun hunclaimed => ?_⟩
  · rw [ConditionList.conditionsOf_toData, ConditionList.conditions_editAll]
    rfl
  · have hfresh : AddsFresh start edits := addsFresh_iff_unclaimed.mpr hunclaimed
    have hnamed := hstart.editAll hfresh
    refine ⟨hfresh, ⟨_, ConditionList.toData_eq _, ConditionList.normalize_toData hnamed⟩, ?_⟩
    refine WellNamed.nodup_keys ?_
    rwa [ConditionList.conditionsOf_toData]

/-- Data with two conditions, one of them with a number. -/
def numberedData : Dict Json :=
  [("_version", Schema.versionJson 2), (conditionsField, .array
    [Authored.toJson ⟨"a", "true"⟩, Authored.toJson ⟨"cond-2", "false"⟩])]

/-- The condition with the number goes before the number is taken. -/
def renumbering : List Edit :=
  [.add "1 < 2", .remove "cond-2", .add "2 < 1"]

theorem unclaimed_renumbering :
    Unclaimed (.ofData ⟨"cond", 0⟩ (.object numberedData)) renumbering := by
  intro before expression after hsplit
  rcases before with _ | ⟨e₁, _ | ⟨e₂, _ | ⟨e₃, before⟩⟩⟩
  · decide
  · exact absurd hsplit (by simp [renumbering])
  · obtain ⟨rfl, rfl, -⟩ : e₁ = .add "1 < 2" ∧ e₂ = .remove "cond-2" ∧ after = [] := by
      simp_all [renumbering]
    decide
  · exact absurd hsplit (by simp [renumbering])

theorem renumbering_keeps_valid :
    ∃ data, ifSchema.normalize "n" (.object numberedData) = .ok data ∧
      Unclaimed (.ofData ⟨"cond", 0⟩ (.object data)) renumbering ∧
      StaysValid (.ofData ⟨"cond", 0⟩ (.object data)) renumbering ∧
      conditionsOf ((ConditionList.ofData ⟨"cond", 0⟩ (.object data)).editAll renumbering).toData =
        [⟨"a", "true"⟩, ⟨"cond-1", "1 < 2"⟩, ⟨"cond-2", "2 < 1"⟩] := by
  have hnormalize : ifSchema.normalize "n" (.object numberedData) = .ok numberedData := by rfl
  obtain ⟨hconditions, -, hvalid⟩ := edits_keep_valid_iff hnormalize ⟨"cond", 0⟩ renumbering
  have hunclaimed := unclaimed_renumbering
  exact ⟨_, hnormalize, hunclaimed, hvalid.mpr hunclaimed, hconditions.trans (by decide)⟩

/-- Data with a condition that was added by an earlier editor. -/
def reloadedData : Dict Json :=
  [("_version", Schema.versionJson 2), (conditionsField, .array [Authored.toJson ⟨"cond-1", "true"⟩])]

/-- The first condition that is added to reloaded data gets the id of the one that is there, and the data is
not accepted any more. -/
theorem reloaded_ids_taken_twice :
    ∃ data, ifSchema.normalize "n" (.object reloadedData) = .ok data ∧
      ((ConditionList.ofData ⟨"cond", 0⟩ (.object data)).add "false").1 ∈
        (conditionsOf (.object data)).map (·.id) ∧
      ifSchema.normalize "n" ((ConditionList.ofData ⟨"cond", 0⟩ (.object data)).add "false").2.toData =
        .error (.invalidField "n" conditionsField "duplicate condition id 'cond-1'") := by
  refine ⟨reloadedData, by rfl, by decide, ?_⟩
  rfl

end Standard

end FlowGraph
