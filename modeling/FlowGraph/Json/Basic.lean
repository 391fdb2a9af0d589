import FlowGraph.Dict

/-!
JSON values. An integer is kept apart from a floating-point number: `5` and `5.0` differ. An integer
lies between the least signed and the greatest unsigned number of 64 bits, and a floating-point
number is finite, so every number has a written form. The fields of an object stand in the order of
their keys when the object is built by the operations of `Dict`.
-/

namespace FlowGraph

inductive Number where
  | int (n : Int) (range : -0x8000000000000000 ≤ n ∧ n < 0x10000000000000000)
  | float (x : Float) (finite : x.isFinite = true)
deriving DecidableEq

namespace Number

/-- An integer as a number, if it is in range. -/
def ofInt? (n : Int) : Option Number :=
  if h : -0x8000000000000000 ≤ n ∧ n < 0x10000000000000000 then some (.int n h) else none

/-- A floating-point number as a number, if it is finite. -/
def ofFloat? (x : Float) : Option Number :=
  if h : x.isFinite = true then some (.float x h) else none

def ofUInt32 (n : UInt32) : Number :=
  .int n.toNat (by have := n.toNat_lt; omega)

/-- The floating-point number closest to an integer. -/
def intToFloat (n : Int) : Float :=
  if n < 0 then -(UInt64.ofNat n.natAbs).toFloat else (UInt64.ofNat n.natAbs).toFloat

/-- The number as a floating-point number. -/
def toFloat : Number → Float
  | .int n _ => intToFloat n
  | .float x _ => x

/-- The number as a natural number, if it is an integer that is not negative. -/
def toNat? : Number → Option Nat
  | .int n _ => if 0 ≤ n then some n.toNat else none
  | .float _ _ => none

end Number

inductive Json where
  | null
  | bool (b : Bool)
  | number (n : Number)
  | string (s : String)
  | array (items : List Json)
  | object (fields : List (String × Json))
deriving Inhabited

namespace Json

mutual

/-- Decides whether two values are equal. -/
def decEq : (a b : Json) → Decidable (a = b)
  | .null, b => by
    cases b
    case null => exact isTrue rfl
    all_goals exact isFalse (by simp)
  | .bool x, b => by
    cases b
    case bool y => exact decidable_of_iff (x = y) (by simp)
    all_goals exact isFalse (by simp)
  | .number x, b => by
    cases b
    case number y => exact decidable_of_iff (x = y) (by simp)
    all_goals exact isFalse (by simp)
  | .string x, b => by
    cases b
    case string y => exact decidable_of_iff (x = y) (by simp)
    all_goals exact isFalse (by simp)
  | .array xs, b => by
    cases b
    case array ys =>
      exact match decEqItems xs ys with
        | isTrue h => isTrue (by rw [h])
        | isFalse h => isFalse (by simpa using h)
    all_goals exact isFalse (by simp)
  | .object xs, b => by
    cases b
    case object ys =>
      exact match decEqFields xs ys with
        | isTrue h => isTrue (by rw [h])
        | isFalse h => isFalse (by simpa using h)
    all_goals exact isFalse (by simp)

def decEqItems : (xs ys : List Json) → Decidable (xs = ys)
  | [], [] => isTrue rfl
  | [], _ :: _ => isFalse (by simp)
  | _ :: _, [] => isFalse (by simp)
  | x :: xs, y :: ys =>
    match decEq x y, decEqItems xs ys with
    | isTrue h, isTrue h' => isTrue (by rw [h, h'])
    | isFalse h, _ => isFalse (by simp [h])
    | _, isFalse h => isFalse (by simp [h])

def decEqFields : (xs ys : List (String × Json)) → Decidable (xs = ys)
  | [], [] => isTrue rfl
  | [], _ :: _ => isFalse (by simp)
  | _ :: _, [] => isFalse (by simp)
  | (k, x) :: xs, (l, y) :: ys =>
    if hk : k = l then
      match decEq x y, decEqFields xs ys with
      | isTrue h, isTrue h' => isTrue (by rw [hk, h, h'])
      | isFalse h, _ => isFalse (by simp [h])
      | _, isFalse h => isFalse (by simp [h])
    else isFalse (by simp [hk])

end

instance : DecidableEq Json := decEq

def ofUInt32 (n : UInt32) : Json :=
  .number (.ofUInt32 n)

/-- A floating-point number, or null if it is not finite. -/
def ofFloat (x : Float) : Json :=
  match Number.ofFloat? x with
  | some n => .number n
  | none => .null

/-- The value of a field; nothing if the value is no object or lacks the field. -/
def field? : Json → String → Option Json
  | .object fields, key => Dict.get? fields key
  | _, _ => none

def string? : Json → Option String
  | .string s => some s
  | _ => none

/-- The truth value, if the value is one. -/
def bool? : Json → Option Bool
  | .bool b => some b
  | _ => none

/-- The number as a floating-point number, if the value is a number. -/
def float? : Json → Option Float
  | .number n => some n.toFloat
  | _ => none

/-- The natural number, if the value is a non-negative integer. -/
def nat? : Json → Option Nat
  | .number n => n.toNat?
  | _ => none

/-- The items, if the value is an array. -/
def items? : Json → Option (List Json)
  | .array items => some items
  | _ => none

/-- The fields, if the value is an object. -/
def fields? : Json → Option (Dict Json)
  | .object fields => some fields
  | _ => none

def isNull : Json → Bool
  | .null => true
  | _ => false

mutual

/-- Every object in the value lists its fields in strictly increasing order of the keys. -/
def Ordered : Json → Prop
  | .array items => OrderedItems items
  | .object fields => Dict.Sorted fields ∧ OrderedFields fields
  | _ => True

def OrderedItems : List Json → Prop
  | [] => True
  | j :: js => Ordered j ∧ OrderedItems js

def OrderedFields : List (String × Json) → Prop
  | [] => True
  | (_, j) :: fs => Ordered j ∧ OrderedFields fs

end

mutual

/-- How many containers are open at the deepest place of the value. -/
def depth : Json → Nat
  | .array items => depthItems items + 1
  | .object fields => depthFields fields + 1
  | _ => 0

def depthItems : List Json → Nat
  | [] => 0
  | j :: js => max (depth j) (depthItems js)

def depthFields : List (String × Json) → Nat
  | [] => 0
  | (_, j) :: fs => max (depth j) (depthFields fs)

end

end Json

end FlowGraph
