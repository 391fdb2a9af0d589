import FlowGraph.Json.Printer

/-!
Forms that a value can be brought into. A form says what becomes of each kind of value, given what has
become of the parts. There are three of them: a JSON value in memory, JSON text without blanks and
indented JSON text.
-/

namespace FlowGraph

/-- A form of values: what becomes of null, of a truth value, a number and a text, and of an array and
an object of what their items and fields have become. -/
structure Serializer (β : Type) where
  null : β
  bool : Bool → β
  float : Float → β
  text : String → β
  array : List β → β
  object : List (String × β) → β

namespace Serializer

open Json (stringChars lineBreak)

/-- A JSON value in memory. Fields are put into the map of those before them. -/
def tree : Serializer Json where
  null := .null
  bool := .bool
  float := Json.ofFloat
  text := .string
  array := .array
  object fields := .object (Dict.ofList fields)

def boolChars : Bool → List Char
  | true => ['t', 'r', 'u', 'e']
  | false => ['f', 'a', 'l', 's', 'e']

/-- A number with the fewest digits; null in place of one that is not finite. -/
def floatChars (x : Float) : List Char :=
  if x.isFinite = true then (Decimal.jsonLayout.floatText x).toList else ['n', 'u', 'l', 'l']

def compact : Serializer (List Char) where
  null := ['n', 'u', 'l', 'l']
  bool := boolChars
  float := floatChars
  text := stringChars
  array items := '[' :: [','].intercalate items ++ [']']
  object fields :=
    '\x7b' :: [','].intercalate (fields.map fun f => stringChars f.1 ++ ':' :: f.2) ++ ['\x7d']

/-- Parts on lines of their own between two marks; the marks alone if there are no parts. -/
def block (level : Nat) (opening closing : Char) (parts : List (List Char)) : List Char :=
  if parts.isEmpty then [opening, closing]
  else
    opening :: [','].intercalate (parts.map (lineBreak (level + 1) ++ ·)) ++ lineBreak level ++ [closing]

/-- Indented JSON text, for each number of containers that are open around it. -/
def pretty : Serializer (Nat → List Char) where
  null _ := ['n', 'u', 'l', 'l']
  bool b _ := boolChars b
  float x _ := floatChars x
  text s _ := stringChars s
  array items level := block level '[' ']' (items.map fun item => item (level + 1))
  object fields level :=
    block level '\x7b' '\x7d' (fields.map fun f => stringChars f.1 ++ ':' :: ' ' :: f.2 (level + 1))

end Serializer

end FlowGraph
