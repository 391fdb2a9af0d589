import FlowGraph.Decimal.Shortest

/-!
The remainder of a division of floating-point numbers: what is left of the first number after taking
the second away as often as possible, with the sign of the first. It is exact, so it is computed on
the integers that the two numbers are multiples of.
-/

namespace FlowGraph.Decimal

/-- Mantissa and exponent of a finite number, without its sign. -/
def magnitude (x : Float) : Nat × Int :=
  let bits := x.toBits.toNat
  let exponent : Nat := bits / hiddenBit % 2048
  let fraction : Nat := bits % hiddenBit
  if exponent = 0 then (fraction, -1074) else (fraction + hiddenBit, (exponent : Int) - 1075)

/-- The number `mantissa * 2 ^ exponent`, cut off after 53 binary digits. -/
def ofBinary (mantissa : Nat) (exponent : Int) : Float :=
  let shift := max ((Nat.log2 mantissa : Int) - 52) (-1074 - exponent)
  let m := if 0 ≤ shift then mantissa >>> shift.toNat else mantissa <<< (-shift).toNat
  if m < hiddenBit then Float.ofBits (UInt64.ofNat m)
  else Float.ofBits (UInt64.ofNat ((exponent + shift + 1075).toNat * hiddenBit + (m - hiddenBit)))

/-- Whether the sign bit of the number is set. -/
def isNegative (x : Float) : Bool :=
  signBit ≤ x.toBits.toNat

/-- The remainder of `a` divided by `b`. -/
def remainder (a b : Float) : Float :=
  if !a.isFinite || b.isNaN || b == 0.0 then 0.0 / 0.0
  else if b.isInf then a
  else
    let (m, e) := magnitude a
    let (n, f) := magnitude b
    let base := min e f
    let rest := (m * .pow 2 (e - base).toNat) % (n * .pow 2 (f - base).toNat)
    let r := ofBinary rest base
    if isNegative a then -r else r

end FlowGraph.Decimal
