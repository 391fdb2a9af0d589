import FlowGraph.Url.Domain
import FlowGraph.Url.Percent

/-!
Hosts of addresses: names and numbers. The host of an address with a well-known scheme is the name of
a machine, or its number if the last label is a number; that of any other address is any text. A host
in brackets is a number of eight groups in either case.
-/

namespace FlowGraph.Url

inductive Host where
  | name (text : String)
  | four (number : Nat)
  | six (groups : List Nat)
deriving DecidableEq, Repr

/-- The number that digits stand for, if all are digits of the radix. -/
def digitsInRadix? (radix : Nat) (cs : List Char) : Option Nat :=
  cs.foldl (fun n c => do
    let n ← n
    let d ← hexDigitValue? c
    if d < radix then some (radix * n + d) else none) (some 0)

/-- A part of a number: hexadecimal after `0x`, octal after another `0`, else decimal. -/
def partValue? : List Char → Option Nat
  | [] => none
  | '0' :: 'x' :: cs | '0' :: 'X' :: cs => digitsInRadix? 16 cs
  | '0' :: c :: cs => digitsInRadix? 8 (c :: cs)
  | cs => digitsInRadix? 10 cs

/-- The labels of a name without the empty one at its end. -/
def properLabels (name : List Char) : List (List Char) :=
  let labels := labelsOf name
  if labels.getLast? = some [] then labels.dropLast else labels

/-- Whether the last label of a name is a number, so that the whole name has to be one. -/
def endsInNumber (name : List Char) : Bool :=
  match (properLabels name).getLast? with
  | some last => (!last.isEmpty && last.all Char.isDigit) || (partValue? last).isSome
  | none => false

/-- The number of a name: all parts but the last one are bytes, and the last one has the other
bytes. -/
def fourOf? (name : List Char) : Option Nat := do
  let parts ← (properLabels name).mapM partValue?
  let last ← parts.getLast?
  let bytes := parts.dropLast
  if 3 < bytes.length ∨ bytes.any (255 < ·) ∨ Nat.pow 256 (4 - bytes.length) ≤ last then none
  else return (bytes.foldl (fun n b => 256 * n + b) 0) * Nat.pow 256 (4 - bytes.length) + last

/-- The text of a number of four bytes. -/
def fourText (n : Nat) : String :=
  s!"{n / 0x1000000}.{n / 0x10000 % 256}.{n / 0x100 % 256}.{n % 256}"

/-- The parts of a text between a mark. -/
def partsAt (mark : Char) (cs : List Char) : List (List Char) :=
  cs.foldr (fun c parts =>
    match parts with
    | [] => [[c]]
    | part :: rest => if c = mark then [] :: part :: rest else (c :: part) :: rest) [[]]

/-- A group of up to four hexadecimal digits. -/
def group? (cs : List Char) : Option Nat :=
  if cs.isEmpty ∨ 4 < cs.length then none else digitsInRadix? 16 cs

/-- A byte in decimal digits, without a zero before them. -/
def byte? (cs : List Char) : Option Nat :=
  if cs.isEmpty ∨ (1 < cs.length ∧ cs.head? = some '0') then none
  else (digitsInRadix? 10 cs).filter (· < 256)

/-- The last two groups, written as four bytes. -/
def byteGroups? (cs : List Char) : Option (List Nat) := do
  match ← (partsAt '.' cs).mapM byte? with
  | [a, b, c, d] => some [256 * a + b, 256 * c + d]
  | _ => none

/-- The groups between colons; the last two may be written as bytes if the text `ends` there. -/
def groups? (ends : Bool) (cs : List Char) : Option (List Nat) :=
  if cs.isEmpty then some []
  else
    let parts := partsAt ':' cs
    match parts.getLast? with
    | some last =>
      if ends ∧ last.contains '.' then do
        return (← parts.dropLast.mapM group?) ++ (← byteGroups? last)
      else parts.mapM group?
    | none => none

/-- The text before and after the first two colons in a row. -/
def splitGap : List Char → Option (List Char × List Char)
  | [] => none
  | ':' :: ':' :: cs => some ([], cs)
  | c :: cs => (splitGap cs).map fun r => (c :: r.1, r.2)

/-- The number in brackets. Two colons stand for as many groups of zero as are missing. -/
def sixOf? (cs : List Char) : Option (List Nat) := do
  match splitGap cs with
  | none =>
    let groups ← if cs.isEmpty then none else groups? true cs
    if groups.length = 8 then some groups else none
  | some (before, after) =>
    let before ← groups? false before
    let after ← groups? true after
    let missing := 8 - (before.length + after.length)
    if missing = 0 then none else some (before ++ List.replicate missing 0 ++ after)

/-- How many groups of zero the list begins with. -/
def zerosAhead (groups : List Nat) : Nat :=
  (groups.takeWhile (· = 0)).length

/-- The longest run of groups of zero, the first one of several. -/
def longestZeros (groups : List Nat) : Nat :=
  ((List.range groups.length).map fun i => zerosAhead (groups.drop i)).foldl max 0

def groupsText (groups : List Nat) : String :=
  ":".intercalate (groups.map fun g => String.ofList (Nat.toDigits 16 g))

/-- The text of a number of eight groups: the longest run of groups of zero, if it has two at least, is
left out. -/
def sixText (groups : List Nat) : String :=
  let size := longestZeros groups
  if size < 2 then groupsText groups
  else
    let start := (List.range groups.length).findIdx fun i => zerosAhead (groups.drop i) = size
    s!"{groupsText (groups.take start)}::{groupsText (groups.drop (start + size))}"

namespace Host

def isPresent : Host → Bool
  | name text => text ≠ ""
  | _ => true

def text : Host → String
  | name text => text
  | four number => fourText number
  | six groups => s!"[{sixText groups}]"

/-- A host in brackets; the opening one has been read. -/
def ofBrackets? (cs : List Char) : Option Host :=
  if cs.getLast? = some ']' then (sixOf? cs.dropLast).map .six else none

/-- The host of an address with a well-known scheme. -/
def known? (cs : List Char) : Option Host :=
  match cs with
  | '[' :: cs => ofBrackets? cs
  | cs => do
    let name ← domainToAscii? (← unescapeText? cs)
    if name.isEmpty then none
    else if endsInNumber name then (fourOf? name).map .four
    else return .name (String.ofList name)

def forbidden : List Char :=
  ['\x00', '\t', '\n', '\r', ' ', '#', '/', ':', '<', '>', '?', '@', '[', '\\', ']', '^', '|']

def any? (cs : List Char) : Option Host :=
  match cs with
  | '[' :: cs => ofBrackets? cs
  | cs =>
    if cs.any forbidden.contains then none else some (.name (String.ofList (escape [] cs)))

end Host

end FlowGraph.Url
