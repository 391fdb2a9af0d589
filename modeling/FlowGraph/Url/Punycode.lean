/-!
Punycode: a text with characters beyond ASCII in letters and digits. The ASCII characters come first;
the others follow in the order of their numbers, each as the number of steps that a walk through all
characters at all places takes from the one before. The steps are written with digits of base 36 whose
weights depend on how long the numbers before were.
-/

namespace FlowGraph.Url.Punycode

def digitChar (d : Nat) : Char :=
  if d < 26 then Char.ofNat (97 + d) else Char.ofNat (22 + d)

def digitValue? (c : Char) : Option Nat :=
  if c.isLower then some (c.toNat - 97)
  else if c.isUpper then some (c.toNat - 65)
  else if c.isDigit then some (c.toNat - 22)
  else none

/-- From which value on a digit is followed by another one; `place` is 36 for the first digit, 72 for
the second one and so on. -/
def threshold (bias place : Nat) : Nat :=
  if place ≤ bias + 1 then 1 else if bias + 26 ≤ place then 26 else place - bias

/-- Scales a number of steps down to at most 455; also says how much. -/
def scaleDown (delta place : Nat) : Nat × Nat :=
  if 455 < delta then scaleDown (delta / 35) (place + 36) else (delta, place)
termination_by delta
decreasing_by omega

/-- The bias after a number of steps; `count` is how many characters there are now. -/
def adapt (delta count : Nat) (first : Bool) : Nat :=
  let delta := if first then delta / 700 else delta / 2
  let (delta, place) := scaleDown (delta + delta / count) 0
  place + 36 * delta / (delta + 38)

def encodeNumber (bias place n : Nat) : List Char :=
  let t := threshold bias place
  if n < t then [digitChar n]
  else digitChar (t + (n - t) % (36 - t)) :: encodeNumber bias (place + 36) ((n - t) / (36 - t))
termination_by n
decreasing_by
  have h : 1 ≤ threshold bias place := by unfold threshold; split <;> (try split) <;> omega
  exact Nat.lt_of_le_of_lt (Nat.div_le_self _ _) (by omega)

/-- The state of the writer: the digits so far, the steps since the last character, the bias and how
many characters have been written. -/
structure Writer where
  digits : List Char := []
  delta : Nat
  bias : Nat
  done : Nat

/-- Walks over a character of the text while `code` is being written. -/
def Writer.step (basic code : Nat) (w : Writer) (c : Char) : Writer :=
  if c.toNat < code then { w with delta := w.delta + 1 }
  else if c.toNat = code then
    { digits := w.digits ++ encodeNumber w.bias 36 w.delta
      delta := 0
      bias := adapt w.delta (w.done + 1) (w.done == basic)
      done := w.done + 1 }
  else w

/-- Writes the characters with the codes, which are given in their order; `code` is the first one that
has not been considered. -/
def Writer.run (text : List Char) (basic : Nat) : Writer → (code : Nat) → List Nat → Writer
  | w, _, [] => w
  | w, code, next :: codes =>
    let w := { w with delta := w.delta + (next - code) * (w.done + 1) }
    let w := text.foldl (step basic next) w
    run text basic { w with delta := w.delta + 1 } (next + 1) codes

def encode (text : List Char) : List Char :=
  let ascii := text.filter (·.toNat < 128)
  let codes := ((text.map Char.toNat).filter (128 ≤ ·)).mergeSort.eraseDups
  let w := Writer.run text ascii.length ⟨[], 0, 72, ascii.length⟩ 128 codes
  ascii ++ (if ascii.isEmpty then [] else ['-']) ++ w.digits

/-- Reads a number: its value, and what follows its digits. -/
def decodeNumber (bias : Nat) : (place weight : Nat) → List Char → Option (Nat × List Char)
  | _, _, [] => none
  | place, weight, c :: cs => do
    let d ← digitValue? c
    let t := threshold bias place
    if d < t then return (d * weight, cs)
    else
      let (n, cs) ← decodeNumber bias (place + 36) (weight * (36 - t)) cs
      return (d * weight + n, cs)

/-- Reads characters and puts them into the text so far; `code` and `place` are where the walk stands.
The fuel is the number of digits. -/
def insertAll : (fuel : Nat) → (first : Bool) → (code place bias : Nat) → (text : List Char) →
    List Char → Option (List Char)
  | _, _, _, _, _, text, [] => some text
  | 0, _, _, _, _, _, _ => none
  | fuel + 1, first, code, place, bias, text, cs => do
    let (delta, rest) ← decodeNumber bias 36 1 cs
    let size := text.length + 1
    let code := code + (place + delta) / size
    let place := (place + delta) % size
    if !code.isValidChar then none
    else
      let text := text.take place ++ Char.ofNat code :: text.drop place
      insertAll fuel false code (place + 1) (adapt delta size first) text rest

/-- The text that a text in Punycode stands for. -/
def decode? (cs : List Char) : Option (List Char) :=
  let digits := (cs.reverse.takeWhile (· ≠ '-')).reverse
  let before := cs.length - digits.length
  if before ≤ 1 then insertAll cs.length true 128 0 72 [] cs
  else insertAll digits.length true 128 0 72 (cs.take (before - 1)) digits

end FlowGraph.Url.Punycode
