import FlowGraph.Text.Upper

/-!
Lower case, as the counterpart of upper case: the lower-case letter of an upper-case one is the letter
that becomes it. Of several such letters it is the one that is no variant of another letter.
-/

namespace FlowGraph.Text

/-- Letters that become an upper-case letter which has another lower-case letter: variants of letters,
and letters that begin a word in upper case. -/
def variantLetters : List Nat :=
  [0xB5, 0x131, 0x17F, 0x1C5, 0x1C8, 0x1CB, 0x1F2, 0x345, 0x3C2, 0x3D0, 0x3D1, 0x3D5, 0x3D6, 0x3F0, 0x3F1,
    0x3F5, 0x1C80, 0x1C81, 0x1C82, 0x1C83, 0x1C84, 0x1C85, 0x1C86, 0x1C87, 0x1C88, 0x1E9B, 0x1FBE]

/-- The letter of a run that becomes an upper-case letter. -/
def UpperRun.lower? (r : UpperRun) (upper : Nat) : Option Nat :=
  let n := ((upper : Int) - r.distance).toNat
  if r.first ≤ n ∧ n ≤ r.last ∧ (n - r.first) % r.step = 0 ∧ n ∉ variantLetters then some n else none

/-- The lower-case form of a character. -/
def lowerChar (c : Char) : Char :=
  if c.toNat < 128 then c.toLower
  else ((upperRuns.findSome? (·.lower? c.toNat)).map Char.ofNat).getD c

end FlowGraph.Text
