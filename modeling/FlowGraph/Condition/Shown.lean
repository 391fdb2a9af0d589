import FlowGraph.Condition.Datum
import FlowGraph.Text.Quoted

/-!
The text of a datum, which is what joining it to a text adds.

A text or a character shows as it is, and nothing as no text at all. Within an array or a map a text is
quoted, a character still shows as it is, and nothing is a pair of parentheses.
-/

namespace FlowGraph.Condition

/-- Numbers from this one up to `greatestPlain` are written out in full: the single-precision number
closest to `1e-7`. -/
def leastPlain : Float := Float.ofBits 0x3E7AD7F2A0000000

/-- The single-precision number closest to `1e13`. -/
def greatestPlain : Float := Float.ofBits 0x42A2309CE0000000

/-- Numbers with an exponent, whatever their size. -/
def exponentLayout : Decimal.Layout := ⟨some (1, 0), "", ""⟩

/-- Numbers that are written out in full. -/
def fullLayout : Decimal.Layout := ⟨none, ".0", ""⟩

/-- Numbers within an array or a map: written out from `0.0001` up to, not including, `10 ^ 16`. -/
def innerLayout : Decimal.Layout := ⟨some (-4, 15), ".0", ""⟩

/-- The text of a floating-point number. Both zeros show alike. -/
def floatText (x : Float) : String :=
  if x == 0.0 then "0.0"
  else if greatestPlain < x.abs || x.abs < leastPlain then exponentLayout.floatText x
  else if x.isNaN then "NaN"
  else fullLayout.floatText x

namespace Datum

mutual

/-- The text of a datum within an array or a map. -/
def inner : Datum → String
  | unit => "()"
  | bool b => if b then "true" else "false"
  | int n => Decimal.intText n
  | float x => innerLayout.floatText x
  | char c => String.singleton c
  | text s => Text.quote s
  | array items => "[" ++ innerItems items ++ "]"
  | map fields => "#\x7b" ++ innerFields fields ++ "\x7d"
  | range first last closed =>
    Decimal.intText first ++ (if closed then "..=" else "..") ++ Decimal.intText last
  | function => "Fn"

def innerItems : List Datum → String
  | [] => ""
  | [d] => inner d
  | d :: ds => inner d ++ ", " ++ innerItems ds

/-- The keys and the texts of the fields, with commas between them. -/
def innerFields : List (String × Datum) → String
  | [] => ""
  | [(k, d)] => Text.quote k ++ ": " ++ inner d
  | (k, d) :: fs => Text.quote k ++ ": " ++ inner d ++ ", " ++ innerFields fs

end

/-- The text of a datum that is joined to a text. -/
def shown : Datum → String
  | unit => ""
  | float x => floatText x
  | char c => String.singleton c
  | text s => s
  | d => d.inner

end Datum

end FlowGraph.Condition
