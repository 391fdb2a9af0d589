import FlowGraph.Json.Printer
import FlowGraph.Proofs.Json.Reading
import FlowGraph.Proofs.Json.Scanning
import Mathlib.Data.List.TakeWhile
import Mathlib.Order.Basic

/-!
Numbers that read back. The written form of a number has no blanks, so if reading it gives the number
then all of it is one number's text, and that text can stand in front of anything that does not go on
with it. Integers always read back; floating-point numbers do as far as their digits are read exactly.
-/

namespace FlowGraph

/-- Whether reading the written form of a number gives the number. -/
def Number.ReadsBack (n : Number) : Prop :=
  Json.parse (Json.number n).pretty = .ok (.number n)

namespace Decimal

def Unblank (s : String) : Prop :=
  ∀ c ∈ s.toList, Raw.isBlank c = false

instance (s : String) : Decidable (Unblank s) :=
  List.decidableBAll (fun c => Raw.isBlank c = false) s.toList

theorem Unblank.append {s t : String} (hs : Unblank s) (ht : Unblank t) : Unblank (s ++ t) := by
  intro c hc
  rw [String.toList_append] at hc
  exact (List.mem_append.mp hc).elim (hs c) (ht c)

theorem not_isBlank_of_isDigit {c : Char} (h : isDigit c = true) : Raw.isBlank c = false := by
  refine Bool.eq_false_iff.mpr fun hblank => ?_
  simp only [Raw.isBlank, Bool.or_eq_true, beq_iff_eq] at hblank
  rcases hblank with ((rfl | rfl) | rfl) | rfl <;> exact absurd h (by decide)

theorem unblank_digits {cs : List Char} {n : Nat} (h : ∀ c ∈ cs, c ∈ Nat.toDigits 10 n) :
    Unblank (String.ofList cs) := by
  intro c hc
  rw [String.toList_ofList] at hc
  exact not_isBlank_of_isDigit (Nat.isDigit_of_mem_toDigits (by decide) (by decide) (h c hc))

theorem unblank_natText (n : Nat) : Unblank (natText n) :=
  unblank_digits fun _ hc => hc

theorem unblank_intText (n : Int) : Unblank (intText n) := by
  unfold intText
  split
  · exact Unblank.append (by decide) (unblank_natText _)
  · exact unblank_natText _

theorem unblank_zeros (n : Nat) : Unblank (zeros n) := by
  intro c hc
  rw [zeros, String.toList_ofList] at hc
  rw [List.eq_of_mem_replicate hc]
  rfl

theorem unblank_positionalText (n : Nat) (leading : Int) :
    Unblank (positionalText ".0" (Nat.toDigits 10 n) leading) := by
  have hdot : Unblank "." := by decide
  unfold positionalText
  split
  · exact ((show Unblank "0." by decide).append (unblank_zeros _)).append (unblank_natText n)
  · dsimp only
    split
    · exact ((unblank_natText n).append (unblank_zeros _)).append (by decide)
    · exact ((unblank_digits fun _ => List.mem_of_mem_take).append hdot).append
        (unblank_digits fun _ => List.mem_of_mem_drop)

theorem unblank_exponentText (n : Nat) (leading : Int) :
    Unblank (exponentText "+" (Nat.toDigits 10 n) leading) := by
  unfold exponentText
  refine ((Unblank.append (unblank_digits fun _ => List.mem_of_mem_take) ?_).append ?_).append
    (unblank_natText _)
  · split
    · decide
    · exact Unblank.append (by decide) (unblank_digits fun _ => List.mem_of_mem_drop)
  · split <;> decide

theorem unblank_floatText (x : Float) : Unblank (jsonLayout.floatText x) := by
  unfold Layout.floatText
  split
  · decide
  · split <;> decide
  next negative magnitude _ =>
    refine Unblank.append (by split <;> decide) ?_
    dsimp only [Layout.decimalText, jsonLayout]
    split
    · exact unblank_positionalText _ _
    · exact unblank_exponentText _ _

end Decimal

theorem Json.not_isBlank_of_mem_numberChars {n : Number} {c : Char} (h : c ∈ Json.numberChars n) :
    Raw.isBlank c = false := by
  cases n with
  | int n range => exact Decimal.unblank_intText n c h
  | float x finite => exact Decimal.unblank_floatText x c h

namespace Raw

theorem scanExponent_suffix {t t' : NumberText} {cs left : List Char}
    (h : scanExponent t cs = .read t' left) : left <:+ cs := by
  cases cs with
  | nil =>
      obtain ⟨-, rfl⟩ := Scan.read.inj h
      exact List.suffix_rfl
  | cons c cs =>
      rw [scanExponent_cons] at h
      unfold scanExponentDigits at h
      split_ifs at h
      · obtain ⟨-, rfl⟩ := Scan.read.inj h
        refine ((List.dropWhile_suffix _).trans ?_).trans (List.suffix_cons c cs)
        unfold Decimal.readSign
        split
        · exact List.suffix_cons _ _
        · exact List.suffix_cons _ _
        · exact List.suffix_rfl
      · obtain ⟨-, rfl⟩ := Scan.read.inj h
        exact List.suffix_rfl

theorem scanFraction_suffix {t t' : NumberText} {cs left : List Char}
    (h : scanFraction t cs = .read t' left) : left <:+ cs := by
  unfold scanFraction at h
  split at h
  · dsimp only at h
    split_ifs at h
    exact ((scanExponent_suffix h).trans (List.dropWhile_suffix _)).trans (List.suffix_cons _ _)
  · exact scanExponent_suffix h

theorem scanNumber_suffix {t : NumberText} {cs left : List Char}
    (h : scanNumber cs = .read t left) : left <:+ cs := by
  have hmagnitude : ∀ {negative cs}, scanMagnitude negative cs = .read t left → left <:+ cs := by
    intro negative cs h
    unfold scanMagnitude at h
    dsimp only at h
    split at h
    · cases h
    · cases h
    · exact (scanFraction_suffix h).trans (List.dropWhile_suffix _)
  unfold scanNumber at h
  split at h
  · exact (hmagnitude h).trans (List.suffix_cons _ _)
  · exact hmagnitude h

theorem scanNumber_of_parseValue {fuel : Nat} {cs : List Char} {value : Except ReadError Number}
    {rest : Option (List Char)} (h : parseValue fuel cs = (.number value, rest)) :
    ∃ t left, scanNumber (skipBlank cs) = .read t left ∧ value = t.value ∧ rest = some left := by
  cases fuel with
  | zero => simp [parseValue] at h
  | succ fuel =>
      rw [parseValue] at h
      split at h
      · simp at h
      next c cs hcs =>
        split_ifs at h
        · cases hscan : scanWord ['u', 'l', 'l'] cs <;> simp [hscan, leaf] at h
        · cases hscan : scanWord ['r', 'u', 'e'] cs <;> simp [hscan, leaf] at h
        · cases hscan : scanWord ['a', 'l', 's', 'e'] cs <;> simp [hscan, leaf] at h
        · cases hscan : scanString {} .plain cs <;> simp [hscan, leaf] at h
        · rw [hcs]
          cases hscan : scanNumber (c :: cs) with
          | read t left =>
              rw [hscan] at h
              obtain ⟨hvalue, hrest⟩ := Prod.mk.inj h
              exact ⟨t, left, rfl, (Raw.number.inj hvalue).symm, hrest.symm⟩
          | stop fault => simp [hscan, leaf] at h
        · simp at h
        · simp at h
        · simp at h

theorem eq_number_of_toJson {reading : Reading} {raw : Raw} {n : Number}
    (h : toJson reading raw = .ok (.number n)) : raw = .number (.ok n) := by
  cases raw with
  | null => cases h
  | bool b => cases h
  | number value =>
      cases value with
      | error e => cases h
      | ok m => exact congrArg (fun m => Raw.number (.ok m)) (Json.number.inj (Except.ok.inj h))
  | string value => cases value <;> cases h
  | array items fault =>
      obtain ⟨_, _, h⟩ := bind_eq_ok h
      obtain ⟨_, _, h⟩ := bind_eq_ok h
      obtain ⟨_, _, h⟩ := bind_eq_ok h
      cases h
  | object members fault =>
      obtain ⟨_, _, h⟩ := bind_eq_ok h
      obtain ⟨_, _, h⟩ := bind_eq_ok h
      obtain ⟨_, _, h⟩ := bind_eq_ok h
      cases h
  | broken fault => cases h

theorem skipBlank_eq_self {cs : List Char} (h : ∀ c ∈ cs, isBlank c = false) : skipBlank cs = cs := by
  cases cs with
  | nil => rfl
  | cons c cs => simp [skipBlank, h c List.mem_cons_self]

end Raw

/-- Whether a number is read from all of its written form. -/
def Number.Scans (n : Number) : Prop :=
  ∃ t, Raw.scanNumber (Json.numberChars n) = .read t [] ∧ t.value = .ok n

theorem Number.ReadsBack.scans {n : Number} (h : n.ReadsBack) : n.Scans := by
  obtain ⟨hread, htrailing⟩ := Reader.of_ofText h
  have hroot := Raw.eq_number_of_toJson hread
  have htext : (Json.number n).pretty.toList = Json.numberChars n := String.toList_ofList
  unfold Raw.ofText at hroot htrailing
  rw [htext] at hroot htrailing
  dsimp only at hroot htrailing
  cases hparse : Raw.parseValue (3 * (Json.numberChars n).length + 3) (Json.numberChars n) with
  | mk root rest =>
      rw [hparse] at hroot htrailing
      obtain rfl : root = .number (.ok n) := by cases rest <;> exact hroot
      obtain ⟨t, left, hscan, hvalue, rfl⟩ := Raw.scanNumber_of_parseValue hparse
      rw [Raw.skipBlank_eq_self fun _ => Json.not_isBlank_of_mem_numberChars] at hscan
      have hleft : Raw.skipBlank left = left :=
        Raw.skipBlank_eq_self fun c hc =>
          Json.not_isBlank_of_mem_numberChars ((Raw.scanNumber_suffix hscan).subset hc)
      dsimp only at htrailing
      rw [hleft] at htrailing
      cases left with
      | nil => exact ⟨t, hscan, hvalue.symm⟩
      | cons c left => cases htrailing

namespace Decimal

theorem le_digitsValue (cs : List Char) (start : Nat) :
    start ≤ cs.foldl (fun n c => 10 * n + digitValue c) start := by
  induction cs generalizing start with
  | nil => exact le_rfl
  | cons c cs ih => exact le_trans (by omega) (ih (10 * start + digitValue c))

/-- All digits of a number that fits into 64 bits count. -/
theorem significand_eq (cs : List Char) (start : Nat)
    (h : cs.foldl (fun n c => 10 * n + digitValue c) start < 0x10000000000000000) :
    significand start cs = (cs.foldl (fun n c => 10 * n + digitValue c) start, cs.length) := by
  induction cs generalizing start with
  | nil => rfl
  | cons c cs ih =>
      have hnext : 10 * start + digitValue c < 0x10000000000000000 := (le_digitsValue cs _).trans_lt h
      rw [significand, if_pos hnext, ih _ h]
      rfl

theorem digitsValue_toDigits (n : Nat) : digitsValue (Nat.toDigits 10 n) = n :=
  Nat.ofDigitChars_toDigits (by decide) (by decide)

theorem digitChar_ne_zero : ∀ n < 10, 0 < n → Nat.digitChar n ≠ '0' := by
  decide

theorem head?_toDigits {n : Nat} (hn : 0 < n) : (Nat.toDigits 10 n).head? ≠ some '0' := by
  induction n using Nat.strongRecOn with
  | ind n ih =>
      rw [Nat.toDigits_eq_if (by decide)]
      split
      next hlt => exact fun hhead => digitChar_ne_zero n hlt hn (Option.some.inj hhead)
      next hge =>
        obtain ⟨d, ds, hds⟩ := List.exists_cons_of_ne_nil (Nat.toDigits_ne_nil (n := n / 10) (b := 10))
        have hhead := ih (n / 10) (by omega) (by omega)
        rw [hds] at hhead ⊢
        exact hhead

end Decimal

/-- The digits of a natural number read as a whole number without fraction and exponent. -/
theorem Raw.scanMagnitude_toDigits (negative : Bool) (n : Nat) :
    Raw.scanMagnitude negative (Nat.toDigits 10 n) = .read ⟨negative, Nat.toDigits 10 n, [], none⟩ [] := by
  have hdigits : ∀ c ∈ Nat.toDigits 10 n, Decimal.isDigit c = true := fun _ hc =>
    Nat.isDigit_of_mem_toDigits (by decide) (by decide) hc
  unfold Raw.scanMagnitude
  simp only [List.takeWhile_eq_self_iff.mpr hdigits, List.dropWhile_eq_nil_iff.mpr hdigits]
  split
  next hnil => exact absurd hnil Nat.toDigits_ne_nil
  next d ds hzero =>
    have hhead := congrArg List.head? hzero
    rcases Nat.eq_zero_or_pos n with rfl | hpos
    · exact absurd hzero (by simp [Nat.toDigits_of_lt_base])
    · exact absurd hhead (Decimal.head?_toDigits hpos)
  next => rfl

theorem Number.scans_int (n : Int) (range : -0x8000000000000000 ≤ n ∧ n < 0x10000000000000000) :
    (Number.int n range).Scans := by
  have hparts : ∀ negative, NumberText.parts ⟨negative, Nat.toDigits 10 n.natAbs, [], none⟩ =
      (n.natAbs, 0) := by
    intro negative
    have hvalue := Decimal.digitsValue_toDigits n.natAbs
    unfold Decimal.digitsValue at hvalue
    have hall := Decimal.significand_eq (Nat.toDigits 10 n.natAbs) 0 (by rw [hvalue]; omega)
    simp [NumberText.parts, hall, hvalue, Decimal.significand]
  have hread : ∀ negative : Bool, (if negative then -(n.natAbs : Int) else n.natAbs) = n →
      (negative = true → n ≠ 0) →
      NumberText.value ⟨negative, Nat.toDigits 10 n.natAbs, [], none⟩ = .ok (.int n range) := by
    intro negative hsign hzero
    have hnot : (negative && n.natAbs == 0) = false := by
      cases negative <;> simp_all
    unfold NumberText.value NumberText.isInteger
    simp only [hparts, hnot, hsign, Number.ofInt?, dif_pos range]
    rfl
  by_cases hneg : n < 0
  · refine ⟨_, ?_, hread true (by rw [if_pos rfl]; omega) fun _ => by omega⟩
    have htext : Json.numberChars (.int n range) = '-' :: Nat.toDigits 10 n.natAbs := by
      simp [Json.numberChars, Decimal.intText, hneg, Decimal.natText]
    rw [htext]
    exact Raw.scanMagnitude_toDigits true n.natAbs
  · refine ⟨_, ?_, hread false (by rw [if_neg Bool.false_ne_true]; omega) fun h => by cases h⟩
    have htext : Json.numberChars (.int n range) = Nat.toDigits 10 n.natAbs := by
      simp [Json.numberChars, Decimal.intText, hneg, Decimal.natText]
    obtain ⟨d, ds, hds⟩ := List.exists_cons_of_ne_nil (Nat.toDigits_ne_nil (n := n.natAbs) (b := 10))
    have hdigit : d.isDigit = true :=
      Nat.isDigit_of_mem_toDigits (by decide) (by decide) (hds ▸ List.mem_cons_self)
    have hminus : d ≠ '-' := fun hd => absurd (hd ▸ hdigit) (by decide)
    rw [htext, hds, Raw.scanNumber_cons hminus, ← hds]
    exact Raw.scanMagnitude_toDigits false n.natAbs

end FlowGraph
