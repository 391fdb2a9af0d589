import FlowGraph.Decimal.Reading
import FlowGraph.Json.Printer
import FlowGraph.Json.Raw
import Mathlib.Tactic.Common

/-!
Texts and numbers of a JSON text, read as they are written. A text is read back whatever its characters,
and reading a number does not depend on what follows it, as long as that does not look like more of it.
-/

namespace FlowGraph

namespace Raw

theorem hasBytes_of_le_length {n : Nat} {cs : List Char} (h : n ≤ cs.length) : hasBytes n cs = true := by
  induction cs generalizing n with
  | nil => simpa [hasBytes] using h
  | cons c cs ih =>
      have hsize : 1 ≤ c.utf8Size := Char.utf8Size_pos c
      rw [List.length_cons] at h
      rw [hasBytes]
      split
      · rfl
      · exact ih (by omega)

theorem hexValue_digitChar : ∀ n < 16, hexValue (Nat.digitChar n) = some n := by
  decide

/-- The last two digits of the numbered escape of a control. -/
theorem hexDigits_of_lt {n : Nat} (hn : n < 32) :
    (if n < 16 then '0' :: Text.hexDigits n else Text.hexDigits n) =
      [Nat.digitChar (n / 16), Nat.digitChar (n % 16)] := by
  split
  next hlt =>
    rw [Text.hexDigits, Nat.toDigits_of_lt_base hlt, Nat.div_eq_of_lt hlt, Nat.mod_eq_of_lt hlt]
    rfl
  next hge =>
    have hone : n / 16 < 16 := by omega
    rw [Text.hexDigits, Nat.toDigits_eq_if (by decide), if_neg hge, Nat.toDigits_of_lt_base hone]
    rfl

/-- A numbered escape below the surrogates stands for its character. -/
theorem scanString_numbered (s : StringSoFar) (hlead : s.lead = none) {n : Nat} (hn : n < 32)
    (rest : List Char) :
    scanString s .plain
      ('\\' :: 'u' :: '0' :: '0' :: Nat.digitChar (n / 16) :: Nat.digitChar (n % 16) :: rest) =
        scanString (s.push (Char.ofNat n)) .plain rest := by
  have hhigh := hexValue_digitChar (n / 16) (by omega)
  have hlow := hexValue_digitChar (n % 16) (by omega)
  have hzero : hexValue '0' = some 0 := by decide
  have hunit : s.pushUnit (16 * (n / 16) + n % 16) = s.push (Char.ofNat n) := by
    rw [Nat.div_add_mod]
    simp only [StringSoFar.pushUnit, hlead]
    rw [if_neg (by omega), if_neg (by omega)]
  have hbytes : hasBytes 4 ('0' :: '0' :: Nat.digitChar (n / 16) :: Nat.digitChar (n % 16) :: rest) =
      true := hasBytes_of_le_length (by simp)
  simp [scanString, hbytes, hzero, hhigh, hlow, hunit]

/-- A short escape stands for its character. -/
theorem scanString_short (s : StringSoFar) (hlead : s.lead = none) {letter c : Char}
    (hletter : letter ≠ 'u') (hescaped : escapedChar letter = some c) (rest : List Char) :
    scanString s .plain ('\\' :: letter :: rest) = scanString (s.push c) .plain rest := by
  simp [scanString, hletter, hescaped, StringSoFar.noPair, hlead]

/-- A character is read as it is escaped. -/
theorem scanString_escape (s : StringSoFar) (hlead : s.lead = none) (c : Char) (rest : List Char) :
    scanString s .plain (Json.escape c ++ rest) = scanString (s.push c) .plain rest := by
  have hnumbered : c.toNat < 32 → scanString s .plain
      ('\\' :: 'u' :: '0' :: '0' :: Nat.digitChar (c.toNat / 16) :: Nat.digitChar (c.toNat % 16) :: rest) =
        scanString (s.push c) .plain rest := by
    intro hc
    rw [scanString_numbered s hlead hc, Char.ofNat_toNat]
  unfold Json.escape
  split_ifs with hquote hbackslash hbell hfeed hline hreturn htab hlow hcontrol
  · subst hquote
    exact scanString_short s hlead (by decide) rfl rest
  · subst hbackslash
    exact scanString_short s hlead (by decide) rfl rest
  · subst hbell
    exact scanString_short s hlead (by decide) rfl rest
  · subst hfeed
    exact scanString_short s hlead (by decide) rfl rest
  · subst hline
    exact scanString_short s hlead (by decide) rfl rest
  · subst hreturn
    exact scanString_short s hlead (by decide) rfl rest
  · subst htab
    exact scanString_short s hlead (by decide) rfl rest
  · have hdigits := hexDigits_of_lt (n := c.toNat) (by omega)
    rw [if_pos hlow] at hdigits
    rw [← hnumbered (by omega)]
    exact congrArg (fun ds => scanString s .plain ('\\' :: 'u' :: '0' :: '0' :: (ds ++ rest))) hdigits
  · have hdigits := hexDigits_of_lt hcontrol
    rw [if_neg hlow] at hdigits
    rw [← hnumbered hcontrol]
    exact congrArg (fun ds => scanString s .plain ('\\' :: 'u' :: '0' :: '0' :: (ds ++ rest))) hdigits
  · rw [List.singleton_append, scanString, if_neg hbackslash, if_neg hquote, if_neg hcontrol,
      StringSoFar.noPair, hlead]
    rfl

/-- A text is read back up to its closing quote. -/
theorem scanString_stringChars (text : String) (rest : List Char) :
    scanString {} .plain (text.toList.flatMap Json.escape ++ '"' :: rest) = .read (.ok text) rest := by
  have hread : ∀ (cs : List Char) (s : StringSoFar), s.lead = none → s.error = none →
      scanString s .plain (cs.flatMap Json.escape ++ '"' :: rest) =
        .read (.ok (String.ofList (s.chars.reverse ++ cs))) rest := by
    intro cs
    induction cs with
    | nil =>
        intro s hlead herror
        simp [scanString, StringSoFar.noPair, hlead, StringSoFar.value, herror]
    | cons c cs ih =>
        intro s hlead herror
        rw [List.flatMap_cons, List.append_assoc, scanString_escape s hlead,
          ih (s.push c) hlead herror]
        simp [StringSoFar.push]
  rw [hread text.toList {} rfl rfl]
  simp

/-- Reads the digits of an exponent whose sign has been read. -/
def scanExponentDigits (t : NumberText) (below : Bool) (cs : List Char) : Scan NumberText :=
  if (cs.takeWhile Decimal.isDigit).isEmpty then .stop (noDigit (cs.dropWhile Decimal.isDigit))
  else .read { t with exponent := some (below, cs.takeWhile Decimal.isDigit) }
    (cs.dropWhile Decimal.isDigit)

theorem scanExponent_cons (t : NumberText) (c : Char) (cs : List Char) :
    scanExponent t (c :: cs) = if c = 'e' ∨ c = 'E' then
      scanExponentDigits t (Decimal.readSign cs).1 (Decimal.readSign cs).2 else .read t (c :: cs) := by
  unfold scanExponent scanExponentDigits
  rcases cs with _ | ⟨d, cs⟩
  · rfl
  · by_cases hplus : d = '+'
    · subst hplus
      rfl
    · by_cases hminus : d = '-'
      · subst hminus
        rfl
      · simp [Decimal.readSign, hplus, hminus]

theorem readSign_append {cs : List Char} (hcs : cs ≠ []) (rest : List Char) :
    Decimal.readSign (cs ++ rest) = ((Decimal.readSign cs).1, (Decimal.readSign cs).2 ++ rest) := by
  obtain ⟨c, cs, rfl⟩ := List.exists_cons_of_ne_nil hcs
  by_cases hplus : c = '+'
  · subst hplus
    rfl
  · by_cases hminus : c = '-'
    · subst hminus
      rfl
    · simp [Decimal.readSign, hplus, hminus]

theorem scanNumber_cons {c : Char} (hc : c ≠ '-') (cs : List Char) :
    scanNumber (c :: cs) = scanMagnitude false (c :: cs) := by
  simp [scanNumber, hc]

/-- Whether a text that follows a number does not look like more of it. -/
def EndsNumber (rest : List Char) : Prop :=
  ∀ c ∈ rest.head?, Decimal.isDigit c = false ∧ c ≠ '.' ∧ c ≠ 'e' ∧ c ≠ 'E'

theorem endsNumber_nil : EndsNumber [] := by
  simp [EndsNumber]

section

variable {rest : List Char} (hrest : EndsNumber rest)
include hrest

theorem takeWhile_append_isDigit (cs : List Char) :
    (cs ++ rest).takeWhile Decimal.isDigit = cs.takeWhile Decimal.isDigit := by
  induction cs with
  | nil =>
      cases rest with
      | nil => rfl
      | cons c rest => simp [(hrest c rfl).1]
  | cons c cs ih => simp [List.takeWhile_cons, ih]

theorem dropWhile_append_isDigit (cs : List Char) :
    (cs ++ rest).dropWhile Decimal.isDigit = cs.dropWhile Decimal.isDigit ++ rest := by
  induction cs with
  | nil =>
      cases rest with
      | nil => rfl
      | cons c rest => simp [(hrest c rfl).1]
  | cons c cs ih =>
      rw [List.cons_append, List.dropWhile_cons, List.dropWhile_cons, ih]
      split <;> rfl

theorem scanExponentDigits_append {t t' : NumberText} {below : Bool} {cs left : List Char}
    (h : scanExponentDigits t below cs = .read t' left) :
    scanExponentDigits t below (cs ++ rest) = .read t' (left ++ rest) := by
  unfold scanExponentDigits at h ⊢
  rw [takeWhile_append_isDigit hrest, dropWhile_append_isDigit hrest]
  split_ifs at h ⊢
  obtain ⟨rfl, rfl⟩ := Scan.read.inj h
  rfl

theorem scanExponent_append {t t' : NumberText} {cs left : List Char}
    (h : scanExponent t cs = .read t' left) : scanExponent t (cs ++ rest) = .read t' (left ++ rest) := by
  cases cs with
  | nil =>
      obtain ⟨rfl, rfl⟩ := Scan.read.inj h
      cases rest with
      | nil => rfl
      | cons c rest =>
          have hno : ¬ (c = 'e' ∨ c = 'E') := not_or.mpr (hrest c rfl).2.2
          rw [List.nil_append, scanExponent_cons, if_neg hno]
  | cons c cs =>
      rw [scanExponent_cons] at h
      rw [List.cons_append, scanExponent_cons]
      split_ifs at h ⊢
      · cases cs with
        | nil => exact absurd h (by simp [Decimal.readSign, scanExponentDigits])
        | cons d cs =>
            rw [readSign_append (List.cons_ne_nil d cs)]
            exact scanExponentDigits_append hrest h
      · obtain ⟨rfl, rfl⟩ := Scan.read.inj h
        rfl

theorem scanFraction_append {t t' : NumberText} {cs left : List Char}
    (h : scanFraction t cs = .read t' left) : scanFraction t (cs ++ rest) = .read t' (left ++ rest) := by
  have hplain : ∀ cs : List Char, (∀ c ∈ cs.head?, c ≠ '.') →
      scanFraction t cs = scanExponent t cs := by
    intro cs hcs
    rcases cs with _ | ⟨c, cs⟩
    · rfl
    · simp [scanFraction, hcs c rfl]
  cases cs with
  | nil =>
      rw [hplain [] (by simp)] at h
      rw [hplain ([] ++ rest) fun c hc => (hrest c hc).2.1]
      exact scanExponent_append hrest h
  | cons c cs =>
      by_cases hpoint : c = '.'
      · subst hpoint
        rw [List.cons_append]
        unfold scanFraction at h ⊢
        simp only [takeWhile_append_isDigit hrest, dropWhile_append_isDigit hrest] at h ⊢
        split_ifs at h ⊢
        exact scanExponent_append hrest h
      · rw [hplain _ (by simpa using hpoint)] at h
        rw [hplain _ (by simpa using hpoint)]
        exact scanExponent_append hrest h

theorem scanMagnitude_append {negative : Bool} {t : NumberText} {cs left : List Char}
    (h : scanMagnitude negative cs = .read t left) :
    scanMagnitude negative (cs ++ rest) = .read t (left ++ rest) := by
  unfold scanMagnitude at h ⊢
  simp only [takeWhile_append_isDigit hrest, dropWhile_append_isDigit hrest] at h ⊢
  split at h
  next => cases h
  next => cases h
  next => exact scanFraction_append hrest h

/-- A number is read up to its end, whatever follows it. -/
theorem scanNumber_append {t : NumberText} {cs left : List Char}
    (h : scanNumber cs = .read t left) : scanNumber (cs ++ rest) = .read t (left ++ rest) := by
  cases cs with
  | nil => exact absurd h (by simp [scanNumber, scanMagnitude])
  | cons c cs =>
      by_cases hminus : c = '-'
      · subst hminus
        exact scanMagnitude_append hrest h
      · rw [scanNumber_cons hminus] at h
        rw [List.cons_append, scanNumber_cons hminus]
        exact scanMagnitude_append hrest h

end

end Raw

end FlowGraph
