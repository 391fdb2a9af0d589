import FlowGraph.Category
import FlowGraph.Json.Decode
import FlowGraph.Json.Serializer

/-!
The values that flow between nodes. Unlike JSON data they know one kind of number only, and that
number may be infinite or no number at all; such a number becomes null in JSON.

Two ways lead from JSON to a value: `ofJson` follows the structure of the JSON value, and `untagged?`
tries the kinds of values one after the other. Two ways lead back: `toJson` follows the structure of the
value, and `serialize` brings the value into a form, which need not be JSON in memory.
-/

namespace FlowGraph

/-- A value that flows between nodes. -/
inductive Value where
  | null
  | bool (b : Bool)
  | number (x : Float)
  | text (s : String)
  | array (items : List Value)
  | object (fields : List (String × Value))
deriving Inhabited

namespace Value

mutual

/-- Decides whether two values are equal; numbers compare by their bits. -/
def decEq : (a b : Value) → Decidable (a = b)
  | .null, b => by
    cases b
    case null => exact isTrue rfl
    all_goals exact isFalse (by simp)
  | .bool x, b => by
    cases b
    case bool y => exact decidable_of_iff (x = y) (by simp)
    all_goals exact isFalse (by simp)
  | .number x, b => by
    cases b
    case number y => exact decidable_of_iff (x = y) (by simp)
    all_goals exact isFalse (by simp)
  | .text x, b => by
    cases b
    case text y => exact decidable_of_iff (x = y) (by simp)
    all_goals exact isFalse (by simp)
  | .array xs, b => by
    cases b
    case array ys =>
      exact match decEqItems xs ys with
        | isTrue h => isTrue (by rw [h])
        | isFalse h => isFalse (by simpa using h)
    all_goals exact isFalse (by simp)
  | .object xs, b => by
    cases b
    case object ys =>
      exact match decEqFields xs ys with
        | isTrue h => isTrue (by rw [h])
        | isFalse h => isFalse (by simpa using h)
    all_goals exact isFalse (by simp)

def decEqItems : (xs ys : List Value) → Decidable (xs = ys)
  | [], [] => isTrue rfl
  | [], _ :: _ => isFalse (by simp)
  | _ :: _, [] => isFalse (by simp)
  | x :: xs, y :: ys =>
    match decEq x y, decEqItems xs ys with
    | isTrue h, isTrue h' => isTrue (by rw [h, h'])
    | isFalse h, _ => isFalse (by simp [h])
    | _, isFalse h => isFalse (by simp [h])

def decEqFields : (xs ys : List (String × Value)) → Decidable (xs = ys)
  | [], [] => isTrue rfl
  | [], _ :: _ => isFalse (by simp)
  | _ :: _, [] => isFalse (by simp)
  | (k, x) :: xs, (l, y) :: ys =>
    if hk : k = l then
      match decEq x y, decEqFields xs ys with
      | isTrue h, isTrue h' => isTrue (by rw [hk, h, h'])
      | isFalse h, _ => isFalse (by simp [h])
      | _, isFalse h => isFalse (by simp [h])
    else isFalse (by simp [hk])

end

instance : DecidableEq Value := decEq

def text? : Value → Option String
  | .text s => some s
  | _ => none

def number? : Value → Option Float
  | .number x => some x
  | _ => none

def bool? : Value → Option Bool
  | .bool b => some b
  | _ => none

def items? : Value → Option (List Value)
  | .array items => some items
  | _ => none

def fields? : Value → Option (Dict Value)
  | .object fields => some fields
  | _ => none

def isNull : Value → Bool
  | .null => true
  | _ => false

/-- The category of the value. Null is of no category of its own. -/
def category : Value → Category
  | .null => .any
  | .bool _ => .boolean
  | .number _ => .number
  | .text _ => .text
  | .array _ => .array
  | .object _ => .object

def typeName : Value → String
  | .null => "null"
  | .bool _ => "boolean"
  | .number _ => "number"
  | .text _ => "text"
  | .array _ => "array"
  | .object _ => "object"

mutual

def toJson : Value → Json
  | .null => .null
  | .bool b => .bool b
  | .number x => Json.ofFloat x
  | .text s => .string s
  | .array items => .array (toJsonItems items)
  | .object fields => .object (toJsonFields fields)

def toJsonItems : List Value → List Json
  | [] => []
  | v :: vs => toJson v :: toJsonItems vs

def toJsonFields : List (String × Value) → List (String × Json)
  | [] => []
  | (k, v) :: fs => (k, toJson v) :: toJsonFields fs

end

mutual

/-- The value of a JSON form; an integer becomes the closest floating-point number. -/
def ofJson : Json → Value
  | .null => .null
  | .bool b => .bool b
  | .number n => .number n.toFloat
  | .string s => .text s
  | .array items => .array (ofJsonItems items)
  | .object fields => .object (ofJsonFields fields)

def ofJsonItems : List Json → List Value
  | [] => []
  | j :: js => ofJson j :: ofJsonItems js

def ofJsonFields : List (String × Json) → List (String × Value)
  | [] => []
  | (k, j) :: fs => (k, ofJson j) :: ofJsonFields fs

end

mutual

/-- The value of a JSON form, found by trying the kinds of values one after the other. -/
def untagged? (j : Json) : Option Value :=
  (if j.isNull then some .null else none)
    <|> j.bool?.map .bool
    <|> j.float?.map .number
    <|> j.string?.map .text
    <|> (match j with
      | .array items => (untaggedItems? items).map .array
      | _ => none)
    <|> (match j with
      | .object fields => (untaggedFields? [] fields).map .object
      | _ => none)

def untaggedItems? : List Json → Option (List Value)
  | [] => some []
  | j :: js => do
    let v ← untagged? j
    let vs ← untaggedItems? js
    return v :: vs

/-- The values of the fields, if each has one, put into the map of the values before them. -/
def untaggedFields? (sofar : Dict Value) : List (String × Json) → Option (Dict Value)
  | [] => some sofar
  | (k, j) :: fs => do
    let v ← untagged? j
    untaggedFields? (Dict.insert sofar k v) fs

end

/-- Reads a value: takes in all that stands in the tree, and tries the kinds of values. -/
def untagged : Reader Value := fun reading raw => do
  let content ← raw.gather reading
  match untagged? content with
  | some v => .ok v
  | none => .error (.noVariant "Value")

mutual

/-- The value in a form. Nothing of the form tells the kind of a value except what becomes of it. -/
def serialize {β : Type} (form : Serializer β) : Value → β
  | .null => form.null
  | .bool b => form.bool b
  | .number x => form.float x
  | .text s => form.text s
  | .array items => form.array (serializeItems form items)
  | .object fields => form.object (serializeFields form fields)

def serializeItems {β : Type} (form : Serializer β) : List Value → List β
  | [] => []
  | v :: vs => serialize form v :: serializeItems form vs

def serializeFields {β : Type} (form : Serializer β) : List (String × Value) → List (String × β)
  | [] => []
  | (k, v) :: fs => (k, serialize form v) :: serializeFields form fs

end

/-- The value for display: a text as it is, everything else as JSON. -/
def display : Value → String
  | .text s => s
  | v => v.toJson.compact

end Value

/-- Whether a value may arrive at a handle of the category. Null may arrive everywhere. -/
def Category.accepts (c : Category) (v : Value) : Bool :=
  v.isNull || c.isCompatible v.category

end FlowGraph
