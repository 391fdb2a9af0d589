import FlowGraph.Proofs.Decimal.Nearest
import FlowGraph.Proofs.Json.Forms
import FlowGraph.Proofs.Json.Reading
import FlowGraph.Value

/-!
Values and JSON. A value that becomes JSON and is read again has lost its numbers that are not finite, each
to a null in its place; a JSON value that is read as a value and becomes JSON again has had its integers
replaced by the nearest floating-point numbers. Both ways keep everything else, so a second round changes
nothing.

Reading a value by trying its kinds, from memory or from a text, comes to the same as following the
structure of the JSON value; and bringing a value into a form comes to the same as bringing its JSON value
into that form.
-/

namespace FlowGraph

open Decimal (Nearest)

namespace Number

theorem isFinite_toFloat (n : Number) : n.toFloat.isFinite = true := by
  cases n with
  | int n range => exact (Decimal.nearest_intToFloat range).finite
  | float x finite => exact finite

/-- The number without a distinction between integers and floating-point numbers. -/
def floating (n : Number) : Number :=
  .float n.toFloat n.isFinite_toFloat

theorem ofFloat?_toFloat (n : Number) : ofFloat? n.toFloat = some n.floating :=
  ofFloat?_of_isFinite n.isFinite_toFloat

end Number

namespace Json

mutual

/-- The value with other numbers in the places of its numbers. -/
def mapNumbers (f : Number → Number) : Json → Json
  | .null => .null
  | .bool b => .bool b
  | .number n => .number (f n)
  | .string s => .string s
  | .array items => .array (mapNumbersOfItems f items)
  | .object fields => .object (mapNumbersOfFields f fields)

def mapNumbersOfItems (f : Number → Number) : List Json → List Json
  | [] => []
  | j :: js => mapNumbers f j :: mapNumbersOfItems f js

def mapNumbersOfFields (f : Number → Number) : List (String × Json) → List (String × Json)
  | [] => []
  | (k, j) :: fs => (k, mapNumbers f j) :: mapNumbersOfFields f fs

end

end Json

namespace Value

mutual

/-- The value with null in the places of the numbers that are not finite. -/
def nullified : Value → Value
  | .null => .null
  | .bool b => .bool b
  | .number x => if x.isFinite = true then .number x else .null
  | .text s => .text s
  | .array items => .array (nullifiedItems items)
  | .object fields => .object (nullifiedFields fields)

/-- The items, each with null in these places. -/
def nullifiedItems : List Value → List Value
  | [] => []
  | v :: vs => nullified v :: nullifiedItems vs

def nullifiedFields : List (String × Value) → List (String × Value)
  | [] => []
  | (k, v) :: fs => (k, nullified v) :: nullifiedFields fs

end

mutual

def numbers : Value → List Float
  | .number x => [x]
  | .array items => numbersOfItems items
  | .object fields => numbersOfFields fields
  | _ => []

def numbersOfItems : List Value → List Float
  | [] => []
  | v :: vs => numbers v ++ numbersOfItems vs

def numbersOfFields : List (String × Value) → List Float
  | [] => []
  | (_, v) :: fs => numbers v ++ numbersOfFields fs

end

/-! ### There and back -/

mutual

/-- A value that became JSON and is read again has lost the numbers that are not finite. -/
theorem ofJson_toJson : ∀ v : Value, ofJson v.toJson = v.nullified
  | .null => rfl
  | .bool _ => rfl
  | .number x => by
      rw [toJson, nullified]
      split_ifs with h
      · rw [Json.ofFloat_of_isFinite h]
        rfl
      · rw [Json.ofFloat_eq_null h]
        rfl
  | .text _ => rfl
  | .array items => congrArg Value.array (ofJsonItems_toJsonItems items)
  | .object fields => congrArg Value.object (ofJsonFields_toJsonFields fields)

theorem ofJsonItems_toJsonItems : ∀ vs : List Value, ofJsonItems (toJsonItems vs) = nullifiedItems vs
  | [] => rfl
  | v :: vs => congrArg₂ List.cons (ofJson_toJson v) (ofJsonItems_toJsonItems vs)

theorem ofJsonFields_toJsonFields : ∀ fs : List (String × Value),
    ofJsonFields (toJsonFields fs) = nullifiedFields fs
  | [] => rfl
  | (k, v) :: fs =>
      congrArg₂ (fun v fs => (k, v) :: fs) (ofJson_toJson v) (ofJsonFields_toJsonFields fs)

end

mutual

theorem nullified_eq_self_iff : ∀ v : Value, v.nullified = v ↔ ∀ x ∈ v.numbers, x.isFinite = true
  | .null => by simp [nullified, numbers]
  | .bool _ => by simp [nullified, numbers]
  | .number x => by
      rw [nullified, numbers, List.forall_mem_singleton]
      split_ifs with h <;> simp [h]
  | .text _ => by simp [nullified, numbers]
  | .array items => by
      rw [nullified, numbers, Value.array.injEq]
      exact nullifiedItems_eq_self_iff items
  | .object fields => by
      rw [nullified, numbers, Value.object.injEq]
      exact nullifiedFields_eq_self_iff fields

theorem nullifiedItems_eq_self_iff : ∀ vs : List Value,
    nullifiedItems vs = vs ↔ ∀ x ∈ numbersOfItems vs, x.isFinite = true
  | [] => by simp [nullifiedItems, numbersOfItems]
  | v :: vs => by
      rw [nullifiedItems, numbersOfItems, List.forall_mem_append, List.cons.injEq, nullified_eq_self_iff v,
        nullifiedItems_eq_self_iff vs]

theorem nullifiedFields_eq_self_iff : ∀ fs : List (String × Value),
    nullifiedFields fs = fs ↔ ∀ x ∈ numbersOfFields fs, x.isFinite = true
  | [] => by simp [nullifiedFields, numbersOfFields]
  | (k, v) :: fs => by
      rw [nullifiedFields, numbersOfFields, List.forall_mem_append, List.cons.injEq, Prod.mk.injEq,
        nullified_eq_self_iff v, nullifiedFields_eq_self_iff fs]
      simp only [true_and]

end

mutual

/-- The null that takes the place of a number is what the number becomes in JSON. -/
theorem toJson_nullified : ∀ v : Value, v.nullified.toJson = v.toJson
  | .null => rfl
  | .bool _ => rfl
  | .number x => by
      rw [nullified]
      split_ifs with h
      · rfl
      · exact (Json.ofFloat_eq_null h).symm
  | .text _ => rfl
  | .array items => congrArg Json.array (toJsonItems_nullifiedItems items)
  | .object fields => congrArg Json.object (toJsonFields_nullifiedFields fields)

theorem toJsonItems_nullifiedItems : ∀ vs : List Value, toJsonItems (nullifiedItems vs) = toJsonItems vs
  | [] => rfl
  | v :: vs => congrArg₂ List.cons (toJson_nullified v) (toJsonItems_nullifiedItems vs)

theorem toJsonFields_nullifiedFields : ∀ fs : List (String × Value),
    toJsonFields (nullifiedFields fs) = toJsonFields fs
  | [] => rfl
  | (k, v) :: fs =>
      congrArg₂ (fun j fs => (k, j) :: fs) (toJson_nullified v) (toJsonFields_nullifiedFields fs)

end

/-- A second round changes nothing. -/
theorem toJson_ofJson_toJson (v : Value) : (ofJson v.toJson).toJson = v.toJson := by
  rw [ofJson_toJson, toJson_nullified]

mutual

/-- A JSON value that was read as a value and becomes JSON again has had its integers replaced. -/
theorem toJson_ofJson : ∀ j : Json, (ofJson j).toJson = j.mapNumbers Number.floating
  | .null => rfl
  | .bool _ => rfl
  | .number n => Json.ofFloat_of_isFinite n.isFinite_toFloat
  | .string _ => rfl
  | .array items => congrArg Json.array (toJsonItems_ofJsonItems items)
  | .object fields => congrArg Json.object (toJsonFields_ofJsonFields fields)

theorem toJsonItems_ofJsonItems : ∀ js : List Json,
    toJsonItems (ofJsonItems js) = Json.mapNumbersOfItems Number.floating js
  | [] => rfl
  | j :: js => congrArg₂ List.cons (toJson_ofJson j) (toJsonItems_ofJsonItems js)

theorem toJsonFields_ofJsonFields : ∀ fs : List (String × Json),
    toJsonFields (ofJsonFields fs) = Json.mapNumbersOfFields Number.floating fs
  | [] => rfl
  | (k, j) :: fs =>
      congrArg₂ (fun j fs => (k, j) :: fs) (toJson_ofJson j) (toJsonFields_ofJsonFields fs)

end

/-! ### Reading by trying the kinds -/

theorem untagged?_array (items : List Json) :
    untagged? (.array items) = (untaggedItems? items).map .array := by
  rw [untagged?]
  cases untaggedItems? items <;> rfl

theorem untagged?_object (fields : List (String × Json)) :
    untagged? (.object fields) = (untaggedFields? [] fields).map .object := by
  rw [untagged?]
  rfl

theorem ofJsonFields_insert (fields : Dict Json) (k : String) (j : Json) :
    ofJsonFields (Dict.insert fields k j) = Dict.insert (ofJsonFields fields) k (ofJson j) := by
  induction fields with
  | nil => rfl
  | cons f fields ih =>
      obtain ⟨key, value⟩ := f
      rw [Dict.insert, ofJsonFields, Dict.insert]
      split_ifs
      · rfl
      · rfl
      · rw [ofJsonFields, ih]

mutual

/-- All that stands in a tree is taken in with the same error, if there is one, with which the JSON value of
the tree is read, and it is of a kind that makes it the value of this JSON value. -/
theorem alike_gather : ∀ (raw : Raw) (reading : Reading),
    Alike (fun content j => untagged? content = some (ofJson j)) (raw.gather reading) (raw.toJson reading)
  | .null, _ => .ok rfl
  | .bool _, _ => .ok rfl
  | .number value, _ => by
      cases value with
      | error e => exact .error e
      | ok n => exact .ok rfl
  | .string value, _ => by
      cases value with
      | error e => exact .error e
      | ok s => exact .ok rfl
  | .array items fault, reading => by
      rw [Raw.gather, Raw.toJson]
      refine Alike.bind_same _ fun inner => (alike_gatherItems items inner).bind fun content js h => ?_
      refine Alike.bind_same _ fun _ => .ok ?_
      rw [untagged?_array, h]
      rfl
  | .object members fault, reading => by
      rw [Raw.gather, Raw.toJson]
      refine Alike.bind_same _ fun inner => (alike_gatherMembers members [] inner).bind fun content fs h => ?_
      refine Alike.bind_same _ fun _ => .ok ?_
      rw [untagged?_object]
      exact congrArg (Option.map Value.object) h
  | .broken fault, _ => .error fault.kept

theorem alike_gatherItems : ∀ (items : List Raw) (reading : Reading),
    Alike (fun content js => untaggedItems? content = some (ofJsonItems js)) (Raw.gatherItems reading items)
      (Raw.toJsonItems reading items)
  | [], _ => .ok rfl
  | item :: items, reading => by
      rw [Raw.gatherItems, Raw.toJsonItems]
      refine (alike_gather item reading).bind fun c j h => (alike_gatherItems items reading).bind
        fun cs js hs => .ok ?_
      rw [untaggedItems?, h, hs]
      rfl

theorem alike_gatherMembers : ∀ (members : List (Except ReadError String × Raw)) (sofar : Dict Json)
    (reading : Reading), Alike (fun content fs => untaggedFields? (ofJsonFields sofar) content =
      some (ofJsonFields fs)) (Raw.gatherMembers reading members) (Raw.toJsonMembers reading sofar members)
  | [], _, _ => .ok rfl
  | (key, item) :: members, sofar, reading => by
      rw [Raw.gatherMembers, Raw.toJsonMembers]
      refine Alike.bind_same key fun k => (alike_gather item reading).bind fun c j h => ?_
      refine (alike_gatherMembers members (Dict.insert sofar k j) reading).map_left fun cs fs hs => ?_
      rw [untaggedFields?, h, ← hs, ofJsonFields_insert]
      rfl

end

/-- Trying the kinds comes to the same as following the structure, whatever the tree is. -/
theorem untagged_eq (reading : Reading) (raw : Raw) :
    untagged reading raw = (Reader.json reading raw).map ofJson := by
  have h := alike_gather raw reading
  rw [untagged, Reader.json]
  generalize raw.gather reading = content at h ⊢
  generalize raw.toJson reading = value at h ⊢
  cases h with
  | error e => rfl
  | ok h =>
      rw [ok_bind, h]
      rfl

theorem ofJson_untagged {j : Json} (h : j.Ordered) : untagged.ofJson j = .ok (ofJson j) := by
  have hread : Reader.json ⟨j.depth, false⟩ (Raw.ofJson j) = .ok j := by
    rw [Reader.reads_json h, Reading.within, if_pos le_rfl]
  rw [Reader.ofJson, untagged_eq, hread]
  rfl

theorem ofText_untagged (text : String) : untagged.ofText text = (Json.parse text).map ofJson := by
  rw [Json.parse, Reader.ofText, Reader.ofText, untagged_eq]
  cases Reader.json .text (Raw.ofText text).root with
  | error e => rfl
  | ok j =>
      show _ = Except.map ofJson _
      cases (Raw.ofText text).trailing with
      | some e => rfl
      | none => rfl

variable {β : Type} {form : Serializer β} {f : Json → β}

mutual

/-- A form makes of a value what is made of its JSON value. -/
theorem serialize_eq (h : form.Follows f) : ∀ v : Value, v.serialize form = f v.toJson
  | .null => h.null.symm
  | .bool b => (h.bool b).symm
  | .number x => (h.float x).symm
  | .text s => (h.text s).symm
  | .array items => (congrArg form.array (serializeItems_eq h items)).trans (h.array _).symm
  | .object fields => (congrArg form.object (serializeFields_eq h fields)).trans (h.object _).symm

theorem serializeItems_eq (h : form.Follows f) : ∀ vs : List Value,
    serializeItems form vs = (toJsonItems vs).map f
  | [] => rfl
  | v :: vs => congrArg₂ List.cons (serialize_eq h v) (serializeItems_eq h vs)

theorem serializeFields_eq (h : form.Follows f) : ∀ fs : List (String × Value),
    serializeFields form fs = (toJsonFields fs).map fun e => (e.1, f e.2)
  | [] => rfl
  | (k, v) :: fs => congrArg₂ (fun b fs => (k, b) :: fs) (serialize_eq h v) (serializeFields_eq h fs)

end

mutual

/-- The form in memory is the JSON value, for a value with its fields in the order of their keys. -/
theorem serialize_tree : ∀ v : Value, v.toJson.Ordered → v.serialize .tree = v.toJson
  | .null, _ => rfl
  | .bool _, _ => rfl
  | .number _, _ => rfl
  | .text _, _ => rfl
  | .array items, h => congrArg Json.array (serializeItems_tree items h)
  | .object fields, h => by
      show Json.object (Dict.ofList (serializeFields .tree fields)) = Json.object (toJsonFields fields)
      rw [serializeFields_tree fields h.2]
      exact congrArg Json.object (Dict.union_of_sorted h.1)

theorem serializeItems_tree : ∀ vs : List Value, Json.OrderedItems (toJsonItems vs) →
    serializeItems .tree vs = toJsonItems vs
  | [], _ => rfl
  | v :: vs, h => congrArg₂ List.cons (serialize_tree v h.1) (serializeItems_tree vs h.2)

theorem serializeFields_tree : ∀ fs : List (String × Value), Json.OrderedFields (toJsonFields fs) →
    serializeFields .tree fs = toJsonFields fs
  | [], _ => rfl
  | (k, v) :: fs, h =>
      congrArg₂ (fun j fs => (k, j) :: fs) (serialize_tree v h.1) (serializeFields_tree fs h.2)

end

/-! ### All conversions -/

/-- Values and JSON convert consistently. From a value to JSON and back, the numbers that are not finite
become null; from JSON to a value and back, each integer becomes the nearest floating-point number, and a
second round changes nothing. Reading by trying the kinds and bringing a value into a form agree with the
two conversions; what is asked of objects is that their fields are in order, as those of a map are. -/
theorem json_conversions_agree :
    (∀ v : Value, ofJson v.toJson = v.nullified ∧
      (ofJson v.toJson = v ↔ ∀ x ∈ v.numbers, x.isFinite = true)) ∧
    (∀ j : Json, (ofJson j).toJson = j.mapNumbers Number.floating ∧
      (ofJson (ofJson j).toJson).toJson = (ofJson j).toJson) ∧
    (∀ n range, Nearest (Number.floating (.int n range)).toFloat n) ∧
    (∀ x finite, Number.floating (.float x finite) = .float x finite) ∧
    (∀ v : Value, v.toJson.Ordered → v.serialize .tree = v.toJson) ∧
    (∀ v : Value, v.serialize .compact = v.toJson.compactChars ∧
      ∀ level, v.serialize .pretty level = v.toJson.prettyChars level) ∧
    (∀ j : Json, j.Ordered → untagged.ofJson j = .ok (ofJson j)) ∧
    (∀ text, untagged.ofText text = (Json.parse text).map ofJson) ∧
    (∀ x y : Float, x.toBits = y.toBits ↔ x = y) ∧
    (∀ x : Float, (Number.ofFloat? x).map Number.toFloat = if x.isFinite = true then some x else none) ∧
    ∀ n : Number, Number.ofFloat? n.toFloat = some n.floating := by
  refine ⟨fun v => ⟨ofJson_toJson v, ?_⟩, fun j => ⟨toJson_ofJson j, toJson_ofJson_toJson (ofJson j)⟩,
    fun n range => Decimal.nearest_intToFloat range, fun _ _ => rfl, serialize_tree,
    fun v => ⟨serialize_eq Serializer.compact_follows v, fun level => ?_⟩, fun j => ofJson_untagged,
    ofText_untagged, fun x y => Float.toBits_inj, fun x => ?_, Number.ofFloat?_toFloat⟩
  · rw [ofJson_toJson, nullified_eq_self_iff]
  · exact congrFun (serialize_eq Serializer.pretty_follows v) level
  · split_ifs with h
    · rw [Number.ofFloat?_of_isFinite h]
      rfl
    · rw [Number.ofFloat?_eq_none h]
      rfl

/-- The infinite number in this value is lost, the negative zero is kept; and the integer that needs 54
digits becomes its even neighbour. -/
theorem infinite_and_long_numbers_converted :
    ofJson (Value.object [("list", .array [.number (1 / 0), .number (-0.0)])]).toJson =
      .object [("list", .array [.null, .number (-0.0)])] ∧
    (Value.object [("list", .array [.number (1 / 0), .number (-0.0)])]).serialize .tree =
      .object [("list", .array [.null, .number (.float (-0.0) (by decide +kernel))])] ∧
    (ofJson (.number (.int 9007199254740993 (by decide)))).toJson =
      .number (.float 9007199254740992 (by decide +kernel)) ∧
    untagged.ofJson (.array [.number (.int 9007199254740993 (by decide)), .null]) =
      .ok (.array [.number 9007199254740992, .null]) := by
  obtain ⟨hvalue, hjson, -, -, htree, -, hread, -⟩ := json_conversions_agree
  have hlist : (Value.object [("list", .array [.number (1 / 0), .number (-0.0)])]).toJson =
      .object [("list", .array [.null, .number (.float (-0.0) (by decide +kernel))])] := by decide +kernel
  have hnullified : (Value.object [("list", .array [.number (1 / 0), .number (-0.0)])]).nullified =
      .object [("list", .array [.null, .number (-0.0)])] := by decide +kernel
  have hlong : (Number.int 9007199254740993 (by decide)).floating =
      .float 9007199254740992 (by decide +kernel) := by decide +kernel
  have hfloat : (Number.int 9007199254740993 (by decide)).toFloat = 9007199254740992 := by decide +kernel
  have hordered : (Value.object [("list", .array [.number (1 / 0), .number (-0.0)])]).toJson.Ordered := by
    rw [hlist]
    exact ⟨List.pairwise_singleton _ _, ⟨trivial, trivial, trivial⟩, trivial⟩
  have hpair : (Json.array [.number (.int 9007199254740993 (by decide)), .null]).Ordered :=
    ⟨trivial, trivial, trivial⟩
  refine ⟨(hvalue _).1.trans hnullified, (htree _ hordered).trans hlist, ?_, ?_⟩
  · rw [(hjson _).1, Json.mapNumbers, hlong]
  · rw [hread _ hpair]
    show Except.ok (Value.array [.number (Number.int 9007199254740993 (by decide)).toFloat, .null]) = _
    rw [hfloat]

end Value

end FlowGraph
