import FlowGraph.Text.Lower
import FlowGraph.Text.Visible
import FlowGraph.Url.Punycode

/-!
Names of hosts. A name is brought to lower case and to full-size characters; then every label that is
not ASCII is written in Punycode, after `xn--`.
-/

namespace FlowGraph.Url

/-- ASCII characters that cannot be in the name of a host. -/
def forbiddenInDomain : List Char :=
  [' ', '%', '#', '/', ':', '<', '>', '?', '@', '[', '\\', ']', '^', '|', '\x7f']

/-- Characters that a name is read without: hyphens that do not show, joiners of words and selectors of
variants. -/
def ignoredInDomain : List (Nat × Nat) :=
  [(0xAD, 0xAD), (0x34F, 0x34F), (0x180B, 0x180D), (0x180F, 0x180F), (0x200B, 0x200B), (0x2060, 0x2060),
    (0x2064, 0x2064), (0xFE00, 0xFE0F), (0xFEFF, 0xFEFF), (0x1BCA0, 0x1BCA3), (0xE0100, 0xE01EF)]

/-- What a character of a name becomes. -/
def domainChar (c : Char) : List Char :=
  let n := c.toNat
  if n < 128 then [c.toLower]
  else if n = 0x3002 ∨ n = 0xFF61 then ['.']
  else if 0xFF01 ≤ n ∧ n ≤ 0xFF5E then [(Char.ofNat (n - 0xFEE0)).toLower]
  else if n = 0x130 then ['i', '\u0307']
  else if n = 0x1E9E then ['\u00df']
  else if Text.inRanges ignoredInDomain n then []
  else [Text.lowerChar c]

/-- A character that a name may have once it has been brought to its form. -/
def isDomainChar (c : Char) : Bool :=
  if c.toNat < 128 then 32 ≤ c.toNat && !forbiddenInDomain.contains c
  else !Text.isHidden c && c.toNat ≠ 0xFFFC && c.toNat ≠ 0xFFFD

/-- A label of a name beyond ASCII, in its form. -/
def isWideLabel (label : List Char) : Bool :=
  label.any (128 ≤ ·.toNat) && label.all isDomainChar && !(label.head?.any Text.isAttaching)

/-- What begins a label that is in Punycode. -/
def punycodeMark : List Char := ['x', 'n', '-', '-']

/-- A label in ASCII, if it can be a label. -/
def asciiLabel? (label : List Char) : Option (List Char) :=
  if label.all (·.toNat < 128) then
    if punycodeMark.isPrefixOf label then do
      let wide ← Punycode.decode? (label.drop punycodeMark.length)
      if isWideLabel wide && wide.flatMap domainChar == wide then return label else none
    else some label
  else if isWideLabel label && !punycodeMark.isPrefixOf label then
    some (punycodeMark ++ Punycode.encode label)
  else none

def labelsOf (name : List Char) : List (List Char) :=
  name.foldr (fun c labels =>
    match labels with
    | [] => [[c]]
    | label :: rest => if c = '.' then [] :: label :: rest else (c :: label) :: rest) [[]]

/-- The name of a host in ASCII, if it can be one. -/
def domainToAscii? (name : List Char) : Option (List Char) := do
  let name := name.flatMap domainChar
  if !name.all isDomainChar then none
  else
    let labels ← (labelsOf name).mapM asciiLabel?
    return ['.'].intercalate labels

end FlowGraph.Url
