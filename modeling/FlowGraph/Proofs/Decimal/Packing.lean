import FlowGraph.Decimal.Remainder
import FlowGraph.Json.Basic
import Mathlib

/-!
The fields of a floating-point number. A number that is packed from a sign, a mantissa of 53 binary digits
and an exponent is one that these fields can be taken out of again, and so is its negative.
-/

namespace FlowGraph.Decimal

open Float.Model UnpackedFloat

/-- The bits of a number, as its fields are taken out of them. -/
def bits (x : Float) : BitVec Format.binary64.numBits :=
  x.toModel.toBits.toBitVec

theorem toNat_unpackMantissa (b : BitVec Format.binary64.numBits) :
    (unpackMantissa b).toNat = b.toNat % 2 ^ 52 := by
  simp [unpackMantissa]

theorem toNat_unpackExponent (b : BitVec Format.binary64.numBits) :
    (unpackExponent b).toNat = b.toNat / 2 ^ 52 % 2048 := by
  simp [unpackExponent, Nat.shiftRight_eq_div_pow]

theorem toNat_unpackSign (b : BitVec Format.binary64.numBits) :
    (unpackSign b).toNat = b.toNat / 2 ^ 63 := by
  have hlt : b.toNat < 2 ^ 64 := b.isLt
  simp only [unpackSign, BitVec.toNat_cast, BitVec.extractLsb_toNat, Nat.shiftRight_eq_div_pow]
  norm_num
  omega

theorem isFinite_iff (x : Float) : x.isFinite = true ↔ unpackExponent (bits x) ≠ -1#11 := by
  show (UnpackedFloat.unpack Format.binary64 (bits x)).isFinite = true ↔ _
  unfold UnpackedFloat.unpack
  dsimp only
  split_ifs <;> simp_all [UnpackedFloat.isFinite]

/-- The mantissa, the exponent and the sign of a finite number. -/
structure Encodes (x : Float) (sign : Sign) (mantissa : Nat) (exponent : Int) : Prop where
  finite : x.isFinite = true
  magnitude_eq : magnitude x = (mantissa, exponent)
  isNegative_eq : isNegative x = true ↔ sign = .negative

/-- A number that is packed from its fields has these fields. -/
theorem encodes_of_bits {x : Float} {sign : Sign} {exponent : BitVec 11} {mantissa : BitVec 52}
    (hx : bits x = packComponents Format.binary64 sign exponent mantissa) (hfinite : exponent ≠ -1#11) :
    Encodes x sign (if exponent.toNat = 0 then mantissa.toNat else mantissa.toNat + 2 ^ 52)
      (if exponent.toNat = 0 then -1074 else exponent.toNat - 1075) := by
  have hexponent : (bits x).toNat / 2 ^ 52 % 2048 = exponent.toNat := by
    rw [← toNat_unpackExponent, hx, unpackExponent_packComponents]
  have hmantissa : (bits x).toNat % 2 ^ 52 = mantissa.toNat := by
    rw [← toNat_unpackMantissa, hx, unpackMantissa_packComponents]
  have hsign : (bits x).toNat / 2 ^ 63 = sign.toBitVec.toNat := by
    rw [← toNat_unpackSign, hx, unpackSign_packComponents]
  refine ⟨?_, ?_, ?_⟩
  · rw [isFinite_iff, hx, unpackExponent_packComponents]
    exact hfinite
  · have hmagnitude : magnitude x = if (bits x).toNat / 2 ^ 52 % 2048 = 0 then
        ((bits x).toNat % 2 ^ 52, -1074) else ((bits x).toNat % 2 ^ 52 + 2 ^ 52,
          (((bits x).toNat / 2 ^ 52 % 2048 : Nat) : Int) - 1075) := rfl
    rw [hmagnitude, hexponent, hmantissa]
    split_ifs <;> rfl
  · have hnegative : isNegative x = decide (2 ^ 63 ≤ (bits x).toNat) := rfl
    have hlt : (bits x).toNat < 2 ^ 64 := (bits x).isLt
    rw [hnegative, decide_eq_true_eq]
    cases sign with
    | negative =>
        have hone : (bits x).toNat / 2 ^ 63 = 1 := hsign
        refine ⟨fun _ => rfl, fun _ => by omega⟩
    | positive =>
        have hzero : (bits x).toNat / 2 ^ 63 = 0 := hsign
        exact ⟨fun hle => by omega, fun h => absurd h (by simp)⟩

/-- A mantissa of 53 binary digits, and an exponent that a finite number can have with it. -/
structure Normal (mantissa : Nat) (exponent : Int) : Prop where
  le_mantissa : 2 ^ 52 ≤ mantissa
  mantissa_lt : mantissa < 2 ^ 53
  le_exponent : -1074 ≤ exponent
  exponent_le : exponent ≤ 971

namespace Normal

variable {mantissa : Nat} {exponent : Int} {sign : Sign}

theorem pos (h : Normal mantissa exponent) : 0 < mantissa :=
  Nat.lt_of_lt_of_le (by norm_num) h.le_mantissa

theorem pack_eq (h : Normal mantissa exponent) :
    UnpackedFloat.pack Format.binary64 (.finite sign mantissa exponent h.pos) =
      packComponents Format.binary64 sign (BitVec.ofNat 11 (exponent + 1075).toNat)
        (BitVec.ofNat 52 mantissa) := by
  obtain ⟨hle, hlt, hmin, hmax⟩ := h
  have hlog : mantissa.log2 = 52 := (Nat.log2_eq_iff (by omega)).mpr ⟨hle, hlt⟩
  have hbiased : exponent + (Format.binary64.exponentBias : Int) +
      (Format.binary64.mantissaBitsWithoutImplicit : Int) = exponent + 1075 := by
    show exponent + 1023 + 52 = exponent + 1075
    ring
  have hroom : ¬ 2 ^ Format.binary64.exponentBits ≤ (exponent + 1075).toNat + 1 := by
    show ¬ 2 ^ 11 ≤ _
    omega
  rw [UnpackedFloat.pack]
  dsimp only
  rw [hbiased, if_neg hroom, hlog]
  exact if_pos rfl

theorem exponent_toNat (h : Normal mantissa exponent) :
    (BitVec.ofNat 11 (exponent + 1075).toNat).toNat = (exponent + 1075).toNat := by
  obtain ⟨-, -, hmin, hmax⟩ := h
  rw [BitVec.toNat_ofNat]
  exact Nat.mod_eq_of_lt (by omega)

theorem mantissa_toNat (h : Normal mantissa exponent) :
    (BitVec.ofNat 52 mantissa).toNat + 2 ^ 52 = mantissa := by
  obtain ⟨hle, hlt, -, -⟩ := h
  rw [BitVec.toNat_ofNat]
  omega

theorem exponent_ne (h : Normal mantissa exponent) :
    BitVec.ofNat 11 (exponent + 1075).toNat ≠ -1#11 ∧ BitVec.ofNat 11 (exponent + 1075).toNat ≠ 0#11 := by
  obtain ⟨-, -, hmin, hmax⟩ := id h
  constructor <;> intro heq
  · have htoNat := congrArg BitVec.toNat heq
    rw [h.exponent_toNat] at htoNat
    have hall : (-1#11 : BitVec 11).toNat = 2047 := rfl
    omega
  · have htoNat := congrArg BitVec.toNat heq
    rw [h.exponent_toNat] at htoNat
    have hzero : (0#11 : BitVec 11).toNat = 0 := rfl
    omega

theorem encodes (h : Normal mantissa exponent) :
    Encodes (.ofModel (Float.Model.pack (.finite sign mantissa exponent h.pos))) sign mantissa exponent := by
  have hencodes := encodes_of_bits (x := .ofModel (Float.Model.pack (.finite sign mantissa exponent h.pos)))
    h.pack_eq h.exponent_ne.1
  have hne : (exponent + 1075).toNat ≠ 0 := by
    have := h.le_exponent
    omega
  rw [h.exponent_toNat, if_neg hne, if_neg hne, h.mantissa_toNat] at hencodes
  have hexponent : (((exponent + 1075).toNat : Nat) : Int) - 1075 = exponent := by
    have := h.le_exponent
    omega
  rwa [hexponent] at hencodes

theorem unpack_pack (h : Normal mantissa exponent) :
    (Float.Model.pack (.finite sign mantissa exponent h.pos)).unpack =
      .finite sign mantissa exponent h.pos := by
  show UnpackedFloat.unpack Format.binary64 (UnpackedFloat.pack Format.binary64 _) = _
  obtain ⟨hfinite, hnormal⟩ := h.exponent_ne
  have hmantissa : (1#1 ++ BitVec.ofNat 52 mantissa).toNat = mantissa := by
    rw [BitVec.toNat_append, ← Nat.shiftLeft_add_eq_or_of_lt (BitVec.isLt _), Nat.shiftLeft_eq]
    have := h.mantissa_toNat
    simp only [BitVec.toNat_ofNat] at this ⊢
    omega
  have hexponent : (((exponent + 1075).toNat : Nat) : Int) -
      ((Format.binary64.exponentBias : Int) + Format.binary64.mantissaBitsWithoutImplicit) = exponent := by
    have hmin := h.le_exponent
    show (((exponent + 1075).toNat : Nat) : Int) - (1023 + 52) = exponent
    omega
  rw [h.pack_eq, UnpackedFloat.unpack]
  simp only [unpackMantissa_packComponents, unpackExponent_packComponents, unpackSign_packComponents,
    hfinite, hnormal, if_false, Sign.ofBitVec_toBitVec, hmantissa, h.exponent_toNat, hexponent]

/-- The number with the other sign has the same mantissa and exponent. -/
theorem neg_pack (h : Normal mantissa exponent) :
    -Float.ofModel (Float.Model.pack (.finite .positive mantissa exponent h.pos)) =
      .ofModel (Float.Model.pack (.finite .negative mantissa exponent h.pos)) := by
  show Float.ofModel (Float.Model.pack (Float.Model.unpack _).neg) = _
  rw [h.unpack_pack]
  rfl

end Normal

end FlowGraph.Decimal
