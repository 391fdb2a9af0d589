import FlowGraph.Proofs.Decimal.Packing

/-!
The floating-point number that an integer becomes is the nearest one. An integer of at most 53 binary digits
is a floating-point number itself. Of a longer one the digits beyond the 53rd are cut off and the rest is
rounded, so what comes out is the nearest multiple of a power of two; and a floating-point number that is no
such multiple is smaller than the least of them with 53 digits, which is no greater than the integer.
-/

namespace FlowGraph.Decimal

open Float.Model UnpackedFloat

theorem targetExponent_eq (t : Int) : Format.binary64.targetExponent t = max (t - 53) (-1074) := rfl

theorem shiftRight_succ (n k : Nat) : (⟨n, false, false⟩ : ExtendedMantissa) >>> (k + 1) =
    ⟨n / 2 ^ (k + 1), n / 2 ^ k % 2 != 0, n % 2 ^ k != 0⟩ := by
  induction k with
  | zero =>
      show ExtendedMantissa.shiftRightOne ⟨n, false, false⟩ = _
      simp [ExtendedMantissa.shiftRightOne, Nat.mod_one]
  | succ k ih =>
      show ExtendedMantissa.shiftRightOne ((⟨n, false, false⟩ : ExtendedMantissa) >>> (k + 1)) = _
      rw [ih, ExtendedMantissa.shiftRightOne]
      have hmod := Nat.mod_mul (x := n) (a := 2 ^ k) (b := 2)
      have hsticky : (n / 2 ^ k % 2 != 0 || n % 2 ^ k != 0) = (n % 2 ^ (k + 1) != 0) := by
        rw [pow_succ, hmod]
        have hpos : 0 < 2 ^ k := Nat.two_pow_pos k
        rcases Nat.mod_two_eq_zero_or_one (n / 2 ^ k) with hbit | hbit <;> simp [hbit]
      simp only [hsticky, Nat.div_div_eq_div_mul, ← pow_succ]

/-- The digit after the cut and those behind it say which neighbour is nearer. -/
theorem roundedMantissa_cases (n k : Nat) {r : Nat}
    (hr : ((⟨n, false, false⟩ : ExtendedMantissa) >>> (k + 1)).roundedMantissa = r) :
    n % 2 ^ (k + 1) < 2 ^ k ∧ r = n / 2 ^ (k + 1) ∨
    n % 2 ^ (k + 1) = 2 ^ k ∧ r = n / 2 ^ (k + 1) + n / 2 ^ (k + 1) % 2 ∨
    2 ^ k < n % 2 ^ (k + 1) ∧ r = n / 2 ^ (k + 1) + 1 := by
  rw [shiftRight_succ] at hr
  have hrest : n % 2 ^ k < 2 ^ k := Nat.mod_lt n (Nat.two_pow_pos k)
  have hmod : n % 2 ^ (k + 1) = n % 2 ^ k + 2 ^ k * (n / 2 ^ k % 2) := by rw [pow_succ, Nat.mod_mul]
  rw [hmod]
  rcases Nat.mod_two_eq_zero_or_one (n / 2 ^ k) with hbit | hbit <;> rw [hbit] at hr ⊢
  · by_cases hzero : n % 2 ^ k = 0
    · rw [hzero] at hr
      exact Or.inl ⟨by omega, hr.symm⟩
    · rw [bne_iff_ne.mpr hzero] at hr
      exact Or.inl ⟨by omega, hr.symm⟩
  · by_cases hzero : n % 2 ^ k = 0
    · rw [hzero] at hr
      exact Or.inr (Or.inl ⟨by omega, hr.symm⟩)
    · rw [bne_iff_ne.mpr hzero] at hr
      exact Or.inr (Or.inr ⟨by omega, hr.symm⟩)

/-- Rounding is to the nearest multiple; where two are as near, to the even one. -/
theorem roundedMantissa_spec (n k : Nat) {r : Nat}
    (hr : ((⟨n, false, false⟩ : ExtendedMantissa) >>> (k + 1)).roundedMantissa = r) :
    |2 * ((r : Int) * 2 ^ (k + 1) - n)| ≤ 2 ^ (k + 1) ∧
      (|2 * ((r : Int) * 2 ^ (k + 1) - n)| = 2 ^ (k + 1) → r % 2 = 0) := by
  have hcases := roundedMantissa_cases n k hr
  have hdigits : (n : Int) = 2 ^ (k + 1) * (n / 2 ^ (k + 1) : Nat) + (n % 2 ^ (k + 1) : Nat) := by
    exact_mod_cast (Nat.div_add_mod n (2 ^ (k + 1))).symm
  have hlt : n % 2 ^ (k + 1) < 2 ^ (k + 1) := Nat.mod_lt n (Nat.two_pow_pos _)
  have hoff : (r : Int) * 2 ^ (k + 1) - n =
      (r - (n / 2 ^ (k + 1) : Nat)) * 2 ^ (k + 1) - (n % 2 ^ (k + 1) : Nat) := by
    rw [hdigits]
    ring
  have hunit : (2 : Int) ^ (k + 1) = 2 * ((2 ^ k : Nat) : Int) := by
    push_cast
    ring
  have hunit' : 2 ^ (k + 1) = 2 * 2 ^ k := pow_succ' 2 k
  rw [hoff, hunit, abs_eq_max_neg]
  clear hoff hdigits
  generalize n / 2 ^ (k + 1) = quotient at *
  generalize n % 2 ^ (k + 1) = rest at *
  generalize 2 ^ k = unit at *
  rcases hcases with ⟨hrest, rfl⟩ | ⟨hrest, rfl⟩ | ⟨hrest, rfl⟩
  · rw [sub_self, zero_mul]
    omega
  · rcases Nat.mod_two_eq_zero_or_one quotient with heven | hodd
    · rw [heven, Nat.add_zero, sub_self, zero_mul]
      omega
    · rw [hodd, Nat.cast_add, Nat.cast_one, add_sub_cancel_left, one_mul]
      omega
  · rw [Nat.cast_add, Nat.cast_one, add_sub_cancel_left, one_mul]
    omega

theorem shiftToTargetExponent_of_le {m : Nat} {e : Int}
    (h : Format.binary64.targetExponent (totalExponent m e) ≤ e) :
    shiftToTargetExponent Format.binary64 m e .exact = (⟨m, false, false⟩, e) := by
  rw [shiftToTargetExponent, shiftToExponent, Int.toNat_eq_zero.mpr (by omega)]
  exact Prod.ext rfl (Int.add_zero e)

theorem shiftToTargetExponent_of_eq {m k : Nat} {e : Int}
    (h : Format.binary64.targetExponent (totalExponent m e) = e + (k + 1)) :
    shiftToTargetExponent Format.binary64 m e .exact =
      ((⟨m, false, false⟩ : ExtendedMantissa) >>> (k + 1), e + (k + 1)) := by
  have hshift : (e + ((k : Int) + 1) - e).toNat = k + 1 := by omega
  rw [shiftToTargetExponent, shiftToExponent, h, hshift]
  rfl

theorem targetExponent_of_lt {m : Nat} {e : Int} (hm : m < 2 ^ 53) (he : -1074 ≤ e) :
    Format.binary64.targetExponent (totalExponent m e) ≤ e := by
  have hlog : m.log2 ≤ 52 := by
    rcases Nat.eq_zero_or_pos m with rfl | hpos
    · simp
    · exact Nat.le_of_lt_succ ((Nat.log2_lt hpos.ne').mpr hm)
  rw [targetExponent_eq, totalExponent]
  omega

/-- What has 53 binary digits is not rounded. -/
theorem Normal.roundWithAccuracy_eq {m : Nat} {e : Int} (h : Normal m e) (sign : Sign) :
    roundWithAccuracy Format.binary64 sign m e .exact = .finite sign m e h.pos := by
  have hshift := shiftToTargetExponent_of_le (targetExponent_of_lt h.mantissa_lt h.le_exponent)
  have hrounded : (⟨m, false, false⟩ : ExtendedMantissa).roundedMantissa = m := rfl
  rw [roundWithAccuracy, hshift]
  dsimp only
  rw [hrounded, hshift]
  exact dif_neg h.pos.ne'

/-- What an integer becomes: itself, if it has no more than 53 binary digits; else the multiple of a power
of two that is nearest to it, an even one if two are. -/
inductive Rounds (n m : Nat) (e : Int) : Prop
  | exact (hvalue : (m : ℚ) * 2 ^ e = n)
  | cut (k r : Nat) (hvalue : (m : ℚ) * 2 ^ e = r * 2 ^ (k + 1)) (hle : 2 ^ 52 * 2 ^ (k + 1) ≤ n)
      (hnear : |2 * ((r : Int) * 2 ^ (k + 1) - n)| ≤ 2 ^ (k + 1))
      (heven : |2 * ((r : Int) * 2 ^ (k + 1) - n)| = 2 ^ (k + 1) → m % 2 = 0)

theorem exists_round_of_lt {n : Nat} (hpos : 0 < n) (hlt : n < 2 ^ 53) :
    ∃ m e, ∃ h : Normal m e, UnpackedFloat.round Format.binary64 .positive n 0 =
      .finite .positive m e h.pos ∧ Rounds n m e := by
  have hlog : n.log2 < 53 := (Nat.log2_lt hpos.ne').mpr hlt
  obtain ⟨s, hs⟩ : ∃ s, n.log2 + s = 52 := ⟨52 - n.log2, by omega⟩
  have hnormal : Normal (n * 2 ^ s) (-s) := by
    refine ⟨?_, ?_, by omega, by omega⟩
    · rw [← hs, pow_add]
      exact Nat.mul_le_mul_right _ (Nat.log2_self_le hpos.ne')
    · have hpow : (2 : Nat) ^ 53 = 2 ^ (n.log2 + 1) * 2 ^ s := by
        rw [← pow_add]
        congr 1
        omega
      rw [hpow]
      exact Nat.mul_lt_mul_of_pos_right Nat.lt_log2_self (Nat.two_pow_pos s)
  refine ⟨n * 2 ^ s, -s, hnormal, ?_, .exact ?_⟩
  · have htarget : Format.binary64.targetExponent (totalExponent n 0) = -s := by
      rw [targetExponent_eq, totalExponent]
      omega
    have hshift : (0 - -(s : Int)).toNat = s := by omega
    rw [UnpackedFloat.round, htarget, decreaseExponent, hshift, Nat.shiftLeft_eq, zero_sub]
    exact hnormal.roundWithAccuracy_eq .positive
  · have hne : (2 : ℚ) ^ s ≠ 0 := pow_ne_zero s two_ne_zero
    rw [zpow_neg, zpow_natCast]
    push_cast
    rw [mul_assoc, mul_inv_cancel₀ hne, mul_one]

/-- An integer of more than 53 binary digits is shifted and rounded, and what comes out of the rounding is
shifted once more if it has too many digits. -/
theorem round_eq_of_shift {n k r m : Nat} {e : Int} {shifted : ExtendedMantissa} (hk : n.log2 = 52 + (k + 1))
    (hr : ((⟨n, false, false⟩ : ExtendedMantissa) >>> (k + 1)).roundedMantissa = r) (h : Normal m e)
    (hshifted : shiftToTargetExponent Format.binary64 r (0 + (k + 1)) .exact = (shifted, e))
    (hm : shifted.mantissa = m) :
    UnpackedFloat.round Format.binary64 .positive n 0 = .finite .positive m e h.pos := by
  subst hm
  have htarget : Format.binary64.targetExponent (totalExponent n 0) = 0 + ((k : Int) + 1) := by
    rw [targetExponent_eq, totalExponent, hk]
    push_cast
    omega
  have hround : UnpackedFloat.round Format.binary64 .positive n 0 =
      roundWithAccuracy Format.binary64 .positive n 0 .exact := by
    have hshift : (0 - (0 + ((k : Int) + 1))).toNat = 0 := by omega
    rw [UnpackedFloat.round, htarget, decreaseExponent, hshift]
    rfl
  rw [hround, roundWithAccuracy, shiftToTargetExponent_of_eq htarget]
  dsimp only
  rw [hr, hshifted]
  exact dif_neg h.pos.ne'

theorem exists_round_of_le {n : Nat} (hle : 2 ^ 53 ≤ n) (hlt : n < 2 ^ 64) :
    ∃ m e, ∃ h : Normal m e, UnpackedFloat.round Format.binary64 .positive n 0 =
      .finite .positive m e h.pos ∧ Rounds n m e := by
  have hne : n ≠ 0 := by omega
  have hlog : 53 ≤ n.log2 := (Nat.le_log2 hne).mpr hle
  have hlog' : n.log2 < 64 := (Nat.log2_lt hne).mpr hlt
  obtain ⟨k, hk⟩ : ∃ k, n.log2 = 52 + (k + 1) := ⟨n.log2 - 53, by omega⟩
  obtain ⟨r, hr⟩ : ∃ r, ((⟨n, false, false⟩ : ExtendedMantissa) >>> (k + 1)).roundedMantissa = r :=
    ⟨_, rfl⟩
  obtain ⟨hnear, heven⟩ := roundedMantissa_spec n k hr
  have hcases := roundedMantissa_cases n k hr
  have hleast : 2 ^ 52 * 2 ^ (k + 1) ≤ n := by
    rw [← pow_add, ← hk]
    exact Nat.log2_self_le hne
  have hquotient : 2 ^ 52 ≤ n / 2 ^ (k + 1) ∧ n / 2 ^ (k + 1) < 2 ^ 53 := by
    constructor
    · exact (Nat.le_div_iff_mul_le (Nat.two_pow_pos _)).mpr hleast
    · rw [Nat.div_lt_iff_lt_mul (Nat.two_pow_pos _), ← pow_add]
      have hlog2 : n < 2 ^ (n.log2 + 1) := Nat.lt_log2_self
      rw [hk] at hlog2
      exact lt_of_lt_of_le hlog2 (Nat.pow_le_pow_right (by norm_num) (by omega))
  by_cases hsmall : r < 2 ^ 53
  · have hnormal : Normal r (0 + ((k : Int) + 1)) := ⟨by omega, hsmall, by omega, by omega⟩
    have hkept := shiftToTargetExponent_of_le (targetExponent_of_lt hsmall hnormal.le_exponent)
    refine ⟨r, _, hnormal, round_eq_of_shift hk hr hnormal hkept rfl, .cut k r ?_ hleast hnear heven⟩
    rw [zero_add]
    norm_cast
  · -- The digits were all ones, and rounding up has carried through all of them.
    obtain rfl : r = 2 ^ 53 := by omega
    have hnormal : Normal (2 ^ 52) (0 + ((k : Int) + 1) + ((0 : Nat) + 1)) :=
      ⟨le_refl _, by norm_num, by omega, by omega⟩
    have hcarry : Format.binary64.targetExponent (totalExponent (2 ^ 53) (0 + ((k : Int) + 1))) =
        0 + ((k : Int) + 1) + ((0 : Nat) + 1) := by
      rw [targetExponent_eq, totalExponent, Nat.log2_two_pow]
      omega
    refine ⟨2 ^ 52, _, hnormal, round_eq_of_shift hk hr hnormal (shiftToTargetExponent_of_eq hcarry) rfl,
      .cut k (2 ^ 53) ?_ hleast hnear fun _ => by norm_num⟩
    rw [zero_add, Nat.cast_zero, zero_add]
    norm_cast
    ring

/-! ### The nearest number -/

/-- The number that a finite floating-point number stands for. -/
def exact (x : Float) : ℚ :=
  (if isNegative x then -1 else 1) * ((magnitude x).1 * 2 ^ (magnitude x).2)

/-- Whether a floating-point number is a finite one that no other is nearer to an integer than. Where
another one is as near, the last binary digit is 0; and of the two zeros it is the positive one. -/
structure Nearest (x : Float) (n : Int) : Prop where
  finite : x.isFinite = true
  sign : isNegative x = true ↔ n < 0
  le : ∀ y : Float, y.isFinite = true → |exact x - n| ≤ |exact y - n|
  even : ∀ y : Float, y.isFinite = true → |exact y - n| = |exact x - n| → exact y ≠ exact x →
    (magnitude x).1 % 2 = 0

theorem mantissa_lt (x : Float) : (magnitude x).1 < 2 ^ 53 := by
  have hmod : x.toBits.toNat % hiddenBit < 2 ^ 52 := Nat.mod_lt _ (by decide)
  have hbit : hiddenBit = 2 ^ 52 := rfl
  simp only [magnitude]
  split_ifs <;> dsimp only <;> omega

/-- Whether a number is a multiple of a power of two, or else has less than 53 digits before the last one
that such a multiple has; for every power of two. -/
def Gridded (v : ℚ) : Prop :=
  ∀ k : Nat, (∃ z : Int, v = z * 2 ^ k) ∨ |v| < 2 ^ 52 * 2 ^ k

theorem Gridded.neg {v : ℚ} (h : Gridded v) : Gridded (-v) := by
  intro k
  rcases h k with ⟨z, rfl⟩ | hlt
  · refine Or.inl ⟨-z, ?_⟩
    push_cast
    ring
  · exact Or.inr (by rwa [abs_neg])

theorem gridded_of_lt {m : Nat} (e : Int) (hm : m < 2 ^ 53) : Gridded ((m : ℚ) * 2 ^ e) := by
  intro k
  by_cases hle : (k : Int) ≤ e
  · obtain ⟨d, rfl⟩ := Int.le.dest hle
    refine Or.inl ⟨m * 2 ^ d, ?_⟩
    rw [zpow_add₀ two_ne_zero, zpow_natCast, zpow_natCast]
    push_cast
    ring
  · right
    have hlt : (m : ℚ) < 2 ^ 53 := by exact_mod_cast hm
    have hpow : (2 : ℚ) ^ e ≤ 2 ^ ((k : Int) - 1) := zpow_le_zpow_right₀ one_le_two (by omega)
    have hhalf : (2 : ℚ) ^ 53 * 2 ^ ((k : Int) - 1) = 2 ^ 52 * 2 ^ k := by
      rw [zpow_sub_one₀ two_ne_zero, zpow_natCast]
      ring
    rw [abs_of_nonneg (by positivity)]
    calc (m : ℚ) * 2 ^ e < 2 ^ 53 * 2 ^ e := mul_lt_mul_of_pos_right hlt (by positivity)
      _ ≤ 2 ^ 53 * 2 ^ ((k : Int) - 1) := mul_le_mul_of_nonneg_left hpow (by positivity)
      _ = 2 ^ 52 * 2 ^ k := hhalf

theorem gridded_exact (x : Float) : Gridded (exact x) := by
  have h := gridded_of_lt (magnitude x).2 (mantissa_lt x)
  rw [exact]
  split_ifs
  · rw [neg_one_mul]
    exact h.neg
  · rwa [one_mul]

namespace Rounds

variable {n m : Nat} {e : Int} {v : ℚ}

/-- Two multiples of one unit are at least that unit apart. -/
theorem unit_le {r : Nat} {z : Int} (hne : z ≠ r) (unit : ℚ) (hunit : 0 < unit) (n : ℚ) :
    unit ≤ |z * unit - n| + |r * unit - n| := by
  have hone : (1 : ℚ) ≤ |(z : ℚ) - r| := by
    have hint : 1 ≤ |z - (r : Int)| := Int.one_le_abs (sub_ne_zero.mpr hne)
    exact_mod_cast hint
  calc unit ≤ |(z : ℚ) - r| * unit := le_mul_of_one_le_left hunit.le hone
    _ = |z * unit - r * unit| := by rw [← sub_mul, abs_mul, abs_of_pos hunit]
    _ ≤ |z * unit - n| + |r * unit - n| := by
        rw [abs_sub_comm (r * unit) n]
        exact abs_sub_le _ _ _

theorem nearest_multiple {r : Nat} {unit n : ℚ} (hunit : 0 < unit)
    (hnear : 2 * |(r : ℚ) * unit - n| ≤ unit) (z : Int) : |(r : ℚ) * unit - n| ≤ |z * unit - n| := by
  by_cases hz : z = r
  · subst hz
    exact le_refl _
  · have hapart := unit_le hz unit hunit n
    linarith

theorem le_and_even (h : Rounds n m e) (hv : Gridded v) :
    |(m : ℚ) * 2 ^ e - n| ≤ |v - n| ∧
      (|v - n| = |(m : ℚ) * 2 ^ e - n| → v ≠ m * 2 ^ e → m % 2 = 0) := by
  cases h with
  | exact hvalue =>
      rw [hvalue, sub_self, abs_zero]
      exact ⟨abs_nonneg _, fun hzero hne => absurd (sub_eq_zero.mp (abs_eq_zero.mp hzero)) hne⟩
  | cut k r hvalue hle hnear heven =>
      rw [hvalue]
      rw [abs_mul] at hnear heven
      have hunit : (0 : ℚ) < 2 ^ (k + 1) := by positivity
      have hnear' : 2 * |(r : ℚ) * 2 ^ (k + 1) - n| ≤ 2 ^ (k + 1) := by exact_mod_cast hnear
      have heven' : 2 * |(r : ℚ) * 2 ^ (k + 1) - n| = 2 ^ (k + 1) → m % 2 = 0 := by exact_mod_cast heven
      have hmultiple := nearest_multiple hunit hnear'
      rcases hv (k + 1) with ⟨z, rfl⟩ | hlt
      · refine ⟨hmultiple z, fun heq hne => heven' ?_⟩
        have hz : z ≠ r := by
          rintro rfl
          exact hne rfl
        have hapart := unit_le hz _ hunit (n : ℚ)
        linarith
      · -- The least multiple with 53 digits lies between this number and the integer.
        have hleast : (2 : ℚ) ^ 52 * 2 ^ (k + 1) ≤ n := by exact_mod_cast hle
        have hbelow : |(r : ℚ) * 2 ^ (k + 1) - n| ≤ (n : ℚ) - 2 ^ 52 * 2 ^ (k + 1) := by
          have hbound := hmultiple (2 ^ 52)
          rw [Int.cast_pow, Int.cast_ofNat, abs_sub_comm (2 ^ 52 * 2 ^ (k + 1) : ℚ) (n : ℚ),
            abs_of_nonneg (sub_nonneg.mpr hleast)] at hbound
          exact hbound
        have hfar : (n : ℚ) - 2 ^ 52 * 2 ^ (k + 1) < |v - n| := by
          have hv := le_abs_self v
          have hdistance := neg_abs_le (v - n)
          linarith
        exact ⟨by linarith, fun heq _ => by linarith⟩

end Rounds

theorem Encodes.exact_positive {x : Float} {m : Nat} {e : Int} (h : Encodes x .positive m e) :
    exact x = m * 2 ^ e := by
  have hsign : ¬ isNegative x = true := fun hnegative => absurd (h.isNegative_eq.mp hnegative) (by simp)
  rw [exact, h.magnitude_eq, if_neg hsign, one_mul]

theorem Encodes.exact_negative {x : Float} {m : Nat} {e : Int} (h : Encodes x .negative m e) :
    exact x = -(m * 2 ^ e) := by
  rw [exact, h.magnitude_eq, if_pos (h.isNegative_eq.mpr rfl), neg_one_mul]

theorem encodes_zero (sign : Sign) :
    Encodes (.ofModel (Float.Model.pack (.zero sign))) sign 0 (-1074) :=
  encodes_of_bits (show _ = packComponents Format.binary64 sign 0#11 0#52 from rfl) (by decide)

/-- A natural number of 64 bits becomes zero, or what rounding makes of it. -/
theorem toFloat_eq (n : UInt64) : n.toFloat = .ofModel (Float.Model.pack (.zero .positive)) ∧ n.toNat = 0 ∨
    ∃ m e, ∃ h : Normal m e, n.toFloat = .ofModel (Float.Model.pack (.finite .positive m e h.pos)) ∧
      Rounds n.toNat m e := by
  have hlt : n.toNat < 2 ^ 64 := n.toNat_lt
  have hpack : n.toFloat = .ofModel (Float.Model.pack
      (UnpackedFloat.normalize Format.binary64 (n.toNat : Int) 0 .positive)) := rfl
  rcases Nat.eq_zero_or_pos n.toNat with hzero | hpos
  · rw [hzero] at hpack
    exact Or.inl ⟨hpack, hzero⟩
  · have hcompare : compare (n.toNat : Int) 0 = .gt := Int.compare_eq_gt.mpr (by omega)
    have hnormalize : UnpackedFloat.normalize Format.binary64 (n.toNat : Int) 0 .positive =
        UnpackedFloat.round Format.binary64 .positive n.toNat 0 := by
      rw [UnpackedFloat.normalize, hcompare]
      rfl
    right
    rw [hpack, hnormalize]
    by_cases hsmall : n.toNat < 2 ^ 53
    · obtain ⟨m, e, h, hround, hrounds⟩ := exists_round_of_lt hpos hsmall
      exact ⟨m, e, h, by rw [hround], hrounds⟩
    · obtain ⟨m, e, h, hround, hrounds⟩ := exists_round_of_le (not_lt.mp hsmall) hlt
      exact ⟨m, e, h, by rw [hround], hrounds⟩

/-- An integer becomes the nearest number, up to its sign. -/
theorem exists_encodes_intToFloat {n : Int} (hrange : -0x8000000000000000 ≤ n ∧ n < 0x10000000000000000) :
    ∃ m e, Rounds n.natAbs m e ∧
      Encodes (Number.intToFloat n) (if n < 0 then .negative else .positive) m e := by
  have hnat : (UInt64.ofNat n.natAbs).toNat = n.natAbs :=
    UInt64.toNat_ofNat_of_lt' (by show n.natAbs < 2 ^ 64; omega)
  have hzero : Rounds 0 0 (-1074) := .exact (by simp)
  rw [Number.intToFloat]
  rcases toFloat_eq (UInt64.ofNat n.natAbs) with ⟨hfloat, hn⟩ | ⟨m, e, h, hfloat, hrounds⟩
  · rw [hnat] at hn
    obtain rfl : n = 0 := Int.natAbs_eq_zero.mp hn
    exact ⟨0, -1074, hzero, by rw [if_neg (lt_irrefl _), if_neg (lt_irrefl _), hfloat]; exact encodes_zero _⟩
  · rw [hnat] at hrounds
    refine ⟨m, e, hrounds, ?_⟩
    split_ifs with hnegative
    · rw [hfloat, h.neg_pack]
      exact h.encodes
    · rw [hfloat]
      exact h.encodes

/-- The floating-point number that an integer becomes is the nearest one. -/
theorem nearest_intToFloat {n : Int} (hrange : -0x8000000000000000 ≤ n ∧ n < 0x10000000000000000) :
    Nearest (Number.intToFloat n) n := by
  obtain ⟨m, e, hrounds, hencodes⟩ := exists_encodes_intToFloat hrange
  have hmantissa : (magnitude (Number.intToFloat n)).1 = m := by rw [hencodes.magnitude_eq]
  have hsign : isNegative (Number.intToFloat n) = true ↔ n < 0 := by
    rw [hencodes.isNegative_eq]
    split_ifs with hnegative <;> simp [hnegative]
  by_cases hnegative : n < 0
  · rw [if_pos hnegative] at hencodes
    have habs : (n.natAbs : ℚ) = -n := by
      rw [Nat.cast_natAbs, abs_of_neg hnegative, Int.cast_neg]
    have hdistance : ∀ v : ℚ, |v - n| = |-v - n.natAbs| := by
      intro v
      rw [habs, ← abs_neg]
      congr 1
      ring
    have hvalue : -exact (Number.intToFloat n) = m * 2 ^ e := by rw [hencodes.exact_negative, neg_neg]
    refine ⟨hencodes.finite, hsign, fun y _ => ?_, fun y _ heq hne => ?_⟩
    · rw [hdistance, hdistance (exact y), hvalue]
      exact (hrounds.le_and_even (gridded_exact y).neg).1
    · rw [hdistance, hdistance (exact (Number.intToFloat n)), hvalue] at heq
      rw [hmantissa]
      refine (hrounds.le_and_even (gridded_exact y).neg).2 heq fun hsame => hne ?_
      rw [← neg_inj, hsame, hvalue]
  · rw [if_neg hnegative] at hencodes
    have habs : (n : ℚ) = n.natAbs := by
      rw [Nat.cast_natAbs, abs_of_nonneg (not_lt.mp hnegative)]
    have hvalue : exact (Number.intToFloat n) = m * 2 ^ e := hencodes.exact_positive
    refine ⟨hencodes.finite, hsign, fun y _ => ?_, fun y _ heq hne => ?_⟩
    · rw [habs, hvalue]
      exact (hrounds.le_and_even (gridded_exact y)).1
    · rw [habs, hvalue] at heq
      rw [hmantissa]
      refine (hrounds.le_and_even (gridded_exact y)).2 heq fun hsame => hne ?_
      rw [hsame, hvalue]

end FlowGraph.Decimal
