/-!
The shortest decimal that reads back as a given binary floating-point number.

A finite number is `m * 2 ^ q`. The real numbers that round to it form an interval around it, whose
ends belong to it when `m` is even. Of the decimals in that interval the ones with the fewest digits
count, and of those the one nearest to the number; of two equally near ones the one with an even
last digit. On the grid of the multiples of `10 ^ k` only the two neighbours of the number can be
nearest, so the search tests these two for one digit, two digits and so on. All arithmetic is exact.
-/

namespace FlowGraph.Decimal

/-- A decimal without sign: `digits * 10 ^ exponent`. -/
structure Magnitude where
  digits : Nat
  exponent : Int
deriving DecidableEq, Repr, Inhabited

/-- A positive binary number `mantissa * 2 ^ exponent`. At the lower end of a binade the next
smaller number is only half a step away. -/
structure Binary where
  mantissa : Nat
  exponent : Int
  narrowBelow : Bool
deriving DecidableEq, Repr

/-- The fraction `num / den`. -/
structure Ratio where
  num : Nat
  den : Nat

/-- `2 ^ q / 10 ^ k` as a fraction. -/
def unitRatio (q k : Int) : Ratio where
  num := .pow 2 q.toNat * .pow 10 (-k).toNat
  den := .pow 2 (-q).toNat * .pow 10 k.toNat

/-- The exponent of the leading decimal digit: the greatest `p` with `10 ^ p ≤ b`. The estimate from
the binary length is this number or one less. -/
def Binary.leadingExponent (b : Binary) : Int :=
  let p := ((b.exponent + (Nat.log2 b.mantissa : Int)) * 30103).fdiv 100000
  let unit := unitRatio b.exponent (p + 1)
  if unit.den ≤ b.mantissa * unit.num then p + 1 else p

/-- Whether `candidate * 10 ^ k` lies in the interval of the reals that round to `b`. -/
def Binary.Admits (b : Binary) (k : Int) (candidate : Nat) : Bool :=
  let unit := unitRatio b.exponent k
  let point := 4 * candidate * unit.den
  let high := (4 * b.mantissa + 2) * unit.num
  let low := (4 * b.mantissa - if b.narrowBelow then 1 else 2) * unit.num
  if b.mantissa % 2 = 0 then low ≤ point && point ≤ high
  else low < point && point < high

/-- The neighbour of `b` on the grid of the multiples of `10 ^ k` that reads back as `b` and is
nearer to it, if there is one. -/
def Binary.onGrid (b : Binary) (k : Int) : Option Magnitude :=
  let unit := unitRatio b.exponent k
  let floor := b.mantissa * unit.num / unit.den
  let twiceRest := 2 * (b.mantissa * unit.num % unit.den)
  let down := b.Admits k floor
  let up := b.Admits k (floor + 1)
  let takeDown :=
    if twiceRest = unit.den then floor % 2 = 0 else twiceRest < unit.den
  if down && (takeDown || !up) then some ⟨floor, k⟩
  else if up then some ⟨floor + 1, k⟩
  else none

/-- The decimal with its trailing zeros moved into the exponent; `fuel` bounds their number. -/
def Magnitude.strip : Nat → Magnitude → Magnitude
  | 0, d => d
  | fuel + 1, d =>
    if d.digits ≠ 0 ∧ d.digits % 10 = 0 then strip fuel ⟨d.digits / 10, d.exponent + 1⟩ else d

/-- The shortest decimal that reads back as `b`. Seventeen digits always suffice. -/
def Binary.shortest (b : Binary) : Magnitude :=
  let p := b.leadingExponent
  let found := (List.range 17).findSome? fun (i : Nat) => b.onGrid (p - i)
  (found.getD ⟨0, 0⟩).strip 20

/-- The weight of the leading bit of a mantissa, which its 52 stored bits leave out. -/
def hiddenBit : Nat := 0x10000000000000

/-- The weight of the sign among the 64 bits of a floating-point number. -/
def signBit : Nat := 0x8000000000000000

/-- What a floating-point number is, seen in decimal. -/
inductive Shown where
  | notANumber
  | infinite (negative : Bool)
  | finite (negative : Bool) (magnitude : Magnitude)
deriving DecidableEq, Repr

/-- Reads sign, exponent and fraction from the 64 bits of the number. -/
def Shown.ofFloat (x : Float) : Shown :=
  let bits := x.toBits.toNat
  let negative : Bool := signBit ≤ bits
  let exponent : Nat := bits / hiddenBit % 2048
  let fraction : Nat := bits % hiddenBit
  if exponent = 2047 then
    if fraction = 0 then .infinite negative else .notANumber
  else if exponent = 0 then
    if fraction = 0 then .finite negative ⟨0, 0⟩
    else .finite negative (Binary.shortest ⟨fraction, -1074, false⟩)
  else
    .finite negative
      (Binary.shortest ⟨fraction + hiddenBit, (exponent : Int) - 1075, fraction = 0 && 1 < exponent⟩)

end FlowGraph.Decimal
