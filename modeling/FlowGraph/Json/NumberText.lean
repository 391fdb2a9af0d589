import FlowGraph.Decimal.Scaled
import FlowGraph.Json.Basic
import FlowGraph.Json.ReadError

/-!
The text of a JSON number and its value. A text without fraction and exponent whose digits fit into
64 bits is an integer; every other text is a floating-point number, `-0` among them. Digits beyond
those that fit into 64 bits only count for the magnitude. A number that is too large for a
floating-point number is an error, one that is too small is zero.
-/

namespace FlowGraph

structure NumberText where
  negative : Bool
  whole : List Char
  fraction : List Char := []
  /-- Whether the exponent is negative, and its digits. -/
  exponent : Option (Bool × List Char) := none

namespace NumberText

/-- The greatest exponent that is read as it stands. -/
def exponentLimit : Nat := 0x7fffffff

/-- The floating-point number `significand * 10 ^ exponent` with its sign. -/
def scaledNumber (negative : Bool) (significand : Nat) (exponent : Int) : Except ReadError Number :=
  match Decimal.scaled (UInt64.ofNat significand) exponent with
  | none => .error .numberTooLarge
  | some x =>
    match Number.ofFloat? (if negative then -x else x) with
    | none => .error .numberTooLarge
    | some n => .ok n

/-- The significand in 64 bits and the power of ten that belongs to it, without the exponent. -/
def parts (t : NumberText) : Nat × Int :=
  let (s, used) := Decimal.significand 0 t.whole
  let (s', used') := Decimal.significand s t.fraction
  (s', ((t.whole.length - used : Nat) : Int) - used')

/-- Whether the text is that of an integer in 64 bits. -/
def isInteger (t : NumberText) : Bool :=
  t.fraction.isEmpty && t.exponent.isNone && t.parts.2 == 0

def value (t : NumberText) : Except ReadError Number :=
  let (s, e) := t.parts
  if t.isInteger then
    if t.negative && s == 0 then scaledNumber true 0 0
    else
      match Number.ofInt? (if t.negative then -(s : Int) else s) with
      | some n => .ok n
      | none => scaledNumber t.negative s 0
  else
    match t.exponent with
    | none => scaledNumber t.negative s e
    | some (below, digits) =>
      let size := Decimal.digitsValue digits
      if exponentLimit < size then
        if s ≠ 0 ∧ !below then .error .numberTooLarge else scaledNumber t.negative 0 0
      else scaledNumber t.negative s (if below then e - size else e + size)

end NumberText

end FlowGraph
