import FlowGraph.Json.Raw

/-!
Values and records out of the tree of a JSON text. A reader goes through the tree from left to right
and stops at the first thing that does not fit.

A record is read from an object, whose fields may come in any order and among unknown ones, or from
an array of its fields in the order of their declaration. Unknown fields are skipped. The same
readers serve values that are already in memory, as trees without faults.
-/

namespace FlowGraph

/-- How a tree is read: how many more containers may be opened, and whether the tree is that of a
text, as opposed to a value in memory. -/
structure Reading where
  room : Nat
  isText : Bool

/-- A text may have 127 containers open at once. -/
def Reading.text : Reading := ⟨127, true⟩

def Reading.enter (reading : Reading) : Except ReadError Reading :=
  match reading.room with
  | 0 => .error .tooDeep
  | room + 1 => .ok { reading with room }

/-- Reads something out of a tree. -/
abbrev Reader (α : Type) : Type := Reading → Raw → Except ReadError α

namespace Raw

/-- The fault that ends a container, if it has one. -/
def close (fault : Option Fault) : Except ReadError Unit :=
  match fault with
  | some f => .error f.kept
  | none => .ok ()

mutual

/-- The value of a tree. Of two fields with one key the later one counts. -/
def toJson (reading : Reading) : Raw → Except ReadError Json
  | .null => .ok .null
  | .bool b => .ok (.bool b)
  | .number value => value.map .number
  | .string value => value.map .string
  | .array items fault => do
    let inner ← reading.enter
    let values ← toJsonItems inner items
    close fault
    return .array values
  | .object members fault => do
    let inner ← reading.enter
    let fields ← toJsonMembers inner [] members
    close fault
    return .object fields
  | .broken fault => .error fault.kept

def toJsonItems (reading : Reading) : List Raw → Except ReadError (List Json)
  | [] => .ok []
  | item :: items => do
    let value ← toJson reading item
    let values ← toJsonItems reading items
    return value :: values

/-- The fields of the members, added to those that were read before. -/
def toJsonMembers (reading : Reading) (fields : Dict Json) :
    List (Except ReadError String × Raw) → Except ReadError (Dict Json)
  | [] => .ok fields
  | (key, item) :: members => do
    let key ← key
    let value ← toJson reading item
    toJsonMembers reading (Dict.insert fields key value) members

end

mutual

/-- All that stands in a tree: the fields of its objects as they come, those with one key included. -/
def gather (reading : Reading) : Raw → Except ReadError Json
  | .null => .ok .null
  | .bool b => .ok (.bool b)
  | .number value => value.map .number
  | .string value => value.map .string
  | .array items fault => do
    let inner ← reading.enter
    let values ← gatherItems inner items
    close fault
    return .array values
  | .object members fault => do
    let inner ← reading.enter
    let fields ← gatherMembers inner members
    close fault
    return .object fields
  | .broken fault => .error fault.kept

def gatherItems (reading : Reading) : List Raw → Except ReadError (List Json)
  | [] => .ok []
  | item :: items => do
    let value ← gather reading item
    let values ← gatherItems reading items
    return value :: values

def gatherMembers (reading : Reading) :
    List (Except ReadError String × Raw) → Except ReadError (List (String × Json))
  | [] => .ok []
  | (key, item) :: members => do
    let key ← key
    let value ← gather reading item
    let fields ← gatherMembers reading members
    return (key, value) :: fields

end

mutual

/-- What a reader that skips the tree stumbles over. -/
def skip : Raw → Except ReadError Unit
  | .array items fault => do
    skipItems items
    match fault with
    | some f => .error f.skipped
    | none => .ok ()
  | .object members fault => do
    skipMembers members
    match fault with
    | some f => .error f.skipped
    | none => .ok ()
  | .broken fault => .error fault.skipped
  | _ => .ok ()

def skipItems : List Raw → Except ReadError Unit
  | [] => .ok ()
  | item :: items => do
    skip item
    skipItems items

/-- `skip` for every member; keys may be anything. -/
def skipMembers : List (Except ReadError String × Raw) → Except ReadError Unit
  | [] => .ok ()
  | (_, item) :: members => do
    skip item
    skipMembers members

end

mutual

def ofJson : Json → Raw
  | .null => .null
  | .bool b => .bool b
  | .number n => .number (.ok n)
  | .string s => .string (.ok s)
  | .array items => .array (ofJsonItems items) none
  | .object fields => .object (ofJsonFields fields) none

def ofJsonItems : List Json → List Raw
  | [] => []
  | j :: js => ofJson j :: ofJsonItems js

def ofJsonFields : List (String × Json) → List (Except ReadError String × Raw)
  | [] => []
  | (k, j) :: fs => (.ok k, ofJson j) :: ofJsonFields fs

end

end Raw

namespace Reader

variable {α β σ : Type}

def json : Reader Json := Raw.toJson

def string : Reader String
  | _, .string value => value
  | _, raw => .error raw.mismatch

def bool : Reader Bool
  | _, .bool b => .ok b
  | _, raw => .error raw.mismatch

/-- An integer between zero and `limit`. -/
def natUpTo (limit : Nat) : Reader Nat
  | _, .number value => do
    match ← value with
    | .int n _ => if 0 ≤ n ∧ n ≤ limit then .ok n.toNat else .error .invalidValue
    | .float _ _ => .error .invalidType
  | _, raw => .error raw.mismatch

/-- A natural number of 64 bits. -/
def word : Reader Nat := natUpTo 0xffffffffffffffff

/-- Something, or null for its absence. -/
def optional (reader : Reader α) : Reader (Option α)
  | _, .null => .ok none
  | reading, raw => (reader reading raw).map some

/-- The items of an array, one after the other. -/
def items (reader : Reader α) (reading : Reading) : List Raw → Except ReadError (List α)
  | [] => .ok []
  | item :: rest => do
    let a ← reader reading item
    let as ← items reader reading rest
    return a :: as

def list (reader : Reader α) : Reader (List α)
  | reading, .array raws fault => do
    let inner ← reading.enter
    let values ← items reader inner raws
    Raw.close fault
    return values
  | _, raw => .error raw.mismatch

/-- The members of an object with values of one kind, added to those that were read before. -/
def members (reader : Reader α) (reading : Reading) (sofar : Dict α) :
    List (Except ReadError String × Raw) → Except ReadError (Dict α)
  | [] => .ok sofar
  | (key, item) :: rest => do
    let key ← key
    let a ← reader reading item
    members reader reading (Dict.insert sofar key a) rest

/-- An object with values of one kind. -/
def dict (reader : Reader α) : Reader (Dict α)
  | reading, .object raws fault => do
    let inner ← reading.enter
    let values ← members reader inner [] raws
    Raw.close fault
    return values
  | _, raw => .error raw.mismatch

def lookup (variants : List (String × α)) (name : String) : Except ReadError α :=
  match variants.find? (·.1 = name) with
  | some v => .ok v.2
  | none => .error (.unknownVariant name (variants.map (·.1)))

/-- One of several names. A name may also stand as the only key of an object, over null. -/
def variant (variants : List (String × α)) : Reader α
  | _, .string value => do lookup variants (← value)
  | reading, .object [(key, item)] fault => do
    let _ ← reading.enter
    let a ← lookup variants (← key)
    match item with
    | .null =>
      match fault with
      | some f => .error f.named
      | none => .ok a
    | item => .error item.mismatch
  | reading, .object [] none => .error (if reading.isText then .expectedValue else .invalidValue)
  | reading, .object ((key, item) :: _) _ => do
    if reading.isText then
      let _ ← lookup variants (← key)
      match item with
      | .null => .error .expectedValue
      | item => .error item.mismatch
    else .error .invalidValue
  | _, .object [] (some fault) => .error fault.named
  | _, .broken fault => .error fault.named
  | reading, raw => .error (if reading.isText then .expectedValue else raw.mismatch)

end Reader

/-- A field of a record `σ`: its name, how it is read into the record, and whether the record needs
it when it is read by names and when it is read by places. -/
structure RecordField (σ : Type) where
  name : String
  read : Reading → Raw → σ → Except ReadError σ
  neededByName : Bool
  neededByPlace : Bool

def RecordField.needed {σ α : Type} (name : String) (reader : Reader α) (set : α → σ → σ) :
    RecordField σ :=
  ⟨name, fun reading raw s => (reader reading raw).map (set · s), true, true⟩

/-- A field that keeps its initial value when it is not there. -/
def RecordField.withDefault {σ α : Type} (name : String) (reader : Reader α) (set : α → σ → σ) :
    RecordField σ :=
  ⟨name, fun reading raw s => (reader reading raw).map (set · s), false, false⟩

/-- A field that may be left out by name, but not by place. -/
def RecordField.nullable {σ α : Type} (name : String) (reader : Reader α)
    (set : Option α → σ → σ) : RecordField σ :=
  ⟨name, fun reading raw s => (reader.optional reading raw).map (set · s), false, true⟩

/-- A record type: its name, its fields in the order of their declaration, and the record before
any field is read. -/
structure Record (σ : Type) where
  name : String
  fields : List (RecordField σ)
  initial : σ

namespace Record

variable {σ : Type}

def expected (r : Record σ) : String :=
  "struct " ++ r.name ++ " with " ++ toString r.fields.length ++
    (if r.fields.length = 1 then " element" else " elements")

/-- Reads the members of an object; `seen` are the names of the fields that were read before. -/
def readMembers (r : Record σ) (reading : Reading) (s : σ) (seen : List String) :
    List (Except ReadError String × Raw) → Except ReadError (σ × List String)
  | [] => .ok (s, seen)
  | (key, item) :: members => do
    let key ← key
    match r.fields.find? (·.name = key) with
    | none =>
      item.skip
      readMembers r reading s seen members
    | some field =>
      if key ∈ seen then .error (.duplicateField key)
      else
        let s ← field.read reading item s
        readMembers r reading s (key :: seen) members

/-- Reads the items of an array, the fields in their order. -/
def readPlaces (reading : Reading) (s : σ) :
    List (RecordField σ) → List Raw → Except ReadError (σ × List (RecordField σ) × List Raw)
  | field :: fields, item :: items => do
    let s ← field.read reading item s
    readPlaces reading s fields items
  | fields, items => .ok (s, fields, items)

def read (r : Record σ) : Reader σ
  | reading, .object members fault => do
    let inner ← reading.enter
    let (s, seen) ← readMembers r inner r.initial [] members
    Raw.close fault
    match r.fields.find? fun f => f.neededByName && !seen.contains f.name with
    | some field => .error (.missingField field.name)
    | none => .ok s
  | reading, .array items fault => do
    let inner ← reading.enter
    let (s, missing, extra) ← readPlaces inner r.initial r.fields items
    if extra.isEmpty then
      if missing.isEmpty then
        match fault with
        | some f => .error f.afterItems
        | none => .ok s
      else
        Raw.close fault
        match missing.findIdx? (·.neededByPlace) with
        | some i => .error (.invalidLength (r.fields.length - missing.length + i) r.expected)
        | none => .ok s
    else if reading.isText then .error .trailingCharacters
    else .error (.invalidLength items.length "fewer elements in array")
  | _, raw => .error raw.mismatch

end Record

def Reader.ofText {α : Type} (reader : Reader α) (text : String) : Except ReadError α := do
  let document := Raw.ofText text
  let a ← reader .text document.root
  match document.trailing with
  | some e => .error e
  | none => .ok a

def Reader.ofJson {α : Type} (reader : Reader α) (j : Json) : Except ReadError α :=
  reader ⟨j.depth, false⟩ (Raw.ofJson j)

def Json.parse (text : String) : Except ReadError Json :=
  Reader.json.ofText text

end FlowGraph
