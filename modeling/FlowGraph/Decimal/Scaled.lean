/-!
From decimal digits to a binary floating-point number, in two ways.

`nearest` gives the number closest to the decimal. `scaled` is the quicker way that JSON text uses:
the digits, cut to what fits into 64 bits, become a floating-point number, and that number is
multiplied or divided by a power of ten, so that it is rounded up to three times.
-/

namespace FlowGraph.Decimal

/-- The floating-point number closest to `10 ^ k`. -/
def powerOfTen (k : Nat) : Float :=
  Float.ofScientific 1 false k

/-- The floating-point number closest to `digits * 10 ^ exponent`. A decimal beyond `10 ^ 400` or
below `10 ^ (-400)` is infinite or zero, which spares its powers of ten. -/
def nearest (digits : Nat) (exponent : Int) : Float :=
  let leading := exponent + (Nat.toDigits 10 digits).length
  if digits = 0 ∨ leading < -400 then 0.0
  else if 400 < leading then 1.0 / 0.0
  else Float.ofScientific digits (decide (exponent < 0)) exponent.natAbs

/-- `significand * 10 ^ exponent` by one multiplication or up to two divisions in floating point;
nothing when the result is too large. -/
def scaled (significand : UInt64) (exponent : Int) : Option Float :=
  let x := significand.toFloat
  if 0 ≤ exponent then
    if exponent ≤ 308 then
      let y := x * powerOfTen exponent.toNat
      if y.isInf then none else some y
    else if significand = 0 then some x
    else none
  else if -308 ≤ exponent then some (x / powerOfTen exponent.natAbs)
  else if -616 ≤ exponent then some (x / powerOfTen 308 / powerOfTen (exponent + 308).natAbs)
  else some 0.0

def digitValue (c : Char) : Nat :=
  c.toNat - '0'.toNat

def isDigit (c : Char) : Bool :=
  '0' ≤ c && c ≤ '9'

/-- The number that a list of decimal digits writes. -/
def digitsValue (ds : List Char) : Nat :=
  ds.foldl (fun n c => 10 * n + digitValue c) 0

/-- The leading digits that fit into 64 bits, continuing `start`, and the number of digits used. -/
def significand (start : Nat) : List Char → Nat × Nat
  | [] => (start, 0)
  | c :: cs =>
    let next := 10 * start + digitValue c
    if next < 0x10000000000000000 then
      let (s, used) := significand next cs
      (s, used + 1)
    else (start, 0)

end FlowGraph.Decimal
