import FlowGraph.Decimal.Shortest

/-!
The written form of a number. A layout says which numbers are written out in full and which with an
exponent, whether a whole number ends in `.0` and how a positive exponent begins; the digits are the
shortest that read back.
-/

namespace FlowGraph.Decimal

/-- The decisions of a written form. -/
structure Layout where
  /-- The exponents of the leading digit for which the number is written out in full; every
  exponent when there is none. -/
  positional : Option (Int × Int)
  /-- What a whole number that is written out in full ends in. -/
  wholeSuffix : String
  /-- The sign of an exponent that is not negative. -/
  plusSign : String

/-- Numbers in JSON text: written out from `0.00001` up to, not including, `10 ^ 16`, and always
recognisable as no integer. -/
def jsonLayout : Layout := ⟨some (-5, 15), ".0", "+"⟩

/-- Numbers in plain messages: always written out, and whole numbers without a point. -/
def plainLayout : Layout := ⟨none, "", ""⟩

/-- The decimal digits of a natural number. -/
def natText (n : Nat) : String :=
  String.ofList (Nat.toDigits 10 n)

/-- The decimal digits of an integer, after a minus sign if it is negative. -/
def intText (n : Int) : String :=
  if n < 0 then "-" ++ natText n.natAbs else natText n.natAbs

def zeros (n : Nat) : String :=
  String.ofList (List.replicate n '0')

/-- A number written out in full, where `leading` is the exponent of its first digit. -/
def positionalText (wholeSuffix : String) (digits : List Char) (leading : Int) : String :=
  if leading < 0 then
    "0." ++ zeros ((-leading).toNat - 1) ++ String.ofList digits
  else
    let whole := leading.toNat + 1
    if digits.length ≤ whole then
      String.ofList digits ++ zeros (whole - digits.length) ++ wholeSuffix
    else
      String.ofList (digits.take whole) ++ "." ++ String.ofList (digits.drop whole)

/-- A number as one digit, a fraction if there are more digits, and an exponent. -/
def exponentText (plusSign : String) (digits : List Char) (leading : Int) : String :=
  let fraction := digits.drop 1
  String.ofList (digits.take 1) ++
    (if fraction.isEmpty then "" else "." ++ String.ofList fraction) ++
    (if leading < 0 then "e-" else "e" ++ plusSign) ++ natText leading.natAbs

def Layout.decimalText (layout : Layout) (d : Magnitude) : String :=
  let digits := Nat.toDigits 10 d.digits
  let leading := d.exponent + (digits.length : Int) - 1
  match layout.positional with
  | none => positionalText layout.wholeSuffix digits leading
  | some (low, high) =>
    if low ≤ leading ∧ leading ≤ high then positionalText layout.wholeSuffix digits leading
    else exponentText layout.plusSign digits leading

/-- The written form of a floating-point number. -/
def Layout.floatText (layout : Layout) (x : Float) : String :=
  match Shown.ofFloat x with
  | .notANumber => "NaN"
  | .infinite negative => if negative then "-inf" else "inf"
  | .finite negative magnitude =>
    (if negative then "-" else "") ++ layout.decimalText magnitude

end FlowGraph.Decimal
