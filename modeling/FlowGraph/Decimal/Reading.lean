import FlowGraph.Decimal.Scaled

/-!
Numbers as people write them into a text field: a sign, digits with a point anywhere among them, and
an exponent. At least one digit must stand before the exponent. The value is the closest
floating-point number, which is infinite if the decimal is too large.
-/

namespace FlowGraph.Decimal

/-- Reads a sign, if there is one; the result tells whether it was a minus. -/
def readSign : List Char → Bool × List Char
  | '-' :: cs => (true, cs)
  | '+' :: cs => (false, cs)
  | cs => (false, cs)

/-- Reads the exponent that makes up the whole of a text; an empty text stands for zero. -/
def readExponent : List Char → Option Int
  | [] => some 0
  | c :: cs =>
    if c = 'e' ∨ c = 'E' then
      let (negative, digits) := readSign cs
      if digits.isEmpty || !digits.all isDigit then none
      else some (if negative then -(digitsValue digits : Int) else digitsValue digits)
    else none

/-- Reads a decimal number that makes up the whole of a text. -/
def readDecimal (cs : List Char) : Option Float :=
  let (negative, cs) := readSign cs
  let whole := cs.takeWhile isDigit
  let (fraction, cs) :=
    match cs.dropWhile isDigit with
    | '.' :: cs => (cs.takeWhile isDigit, cs.dropWhile isDigit)
    | cs => ([], cs)
  if whole.isEmpty && fraction.isEmpty then none
  else
    (readExponent cs).map fun exponent =>
      let x := nearest (digitsValue (whole ++ fraction)) (exponent - fraction.length)
      if negative then -x else x

end FlowGraph.Decimal
