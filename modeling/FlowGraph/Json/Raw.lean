import FlowGraph.Json.NumberText

/-!
JSON text as a tree, faults included. Reading a text never fails as a whole: it gives the tree of
what is there, with the fault in the place where the text stops being JSON. A reader of records walks
the tree from left to right and reports what it meets first, the fault or a value that does not fit.

A fault has a name for readers that keep the value in question, one for readers that skip it and one
for readers that want one of several names, because they meet the text with different expectations.
Some texts are faulty only for those that keep them: a number that is too large, or half a surrogate
pair.
-/

namespace FlowGraph

/-- What is wrong with a text at one place, as met by a reader that keeps the value, that skips it, or
that wants it to be one of several names. -/
structure Fault where
  kept : ReadError
  skipped : ReadError
  named : ReadError
deriving DecidableEq

/-- A fault with one name for all readers. -/
def Fault.same (e : ReadError) : Fault := ⟨e, e, e⟩

/-- The error of a reader that has met all the items that it wants when it meets the fault. -/
def Fault.afterItems (f : Fault) : ReadError :=
  if f.kept = .expectedItemEnd then .trailingCharacters else f.kept

/-- A JSON text as a tree. An array or object ends with a fault if its end is not as it should be;
if the fault lies within its last item the container itself has none. -/
inductive Raw where
  | null
  | bool (b : Bool)
  | number (value : Except ReadError Number)
  | string (value : Except ReadError String)
  | array (items : List Raw) (fault : Option Fault)
  | object (members : List (Except ReadError String × Raw)) (fault : Option Fault)
  | broken (fault : Fault)
deriving Inhabited

namespace Raw

/-- The error for a tree in the place of something of another type: its own error if it has one. -/
def mismatch : Raw → ReadError
  | .number (.error e) => e
  | .string (.error e) => e
  | .broken fault => fault.kept
  | _ => .invalidType

/-- A part of a text that was read, with what follows it, or the fault that ends the reading. -/
inductive Scan (α : Type) where
  | read (value : α) (rest : List Char)
  | stop (fault : Fault)

/-- The blanks between the parts of a JSON text. -/
def isBlank (c : Char) : Bool :=
  c == ' ' || c == '\n' || c == '\t' || c == '\r'

/-- The text after its leading blanks. -/
def skipBlank (cs : List Char) : List Char :=
  cs.dropWhile isBlank

/-- Reads the letters of a word one after the other. -/
def scanWord : List Char → List Char → Scan Unit
  | [], cs => .read () cs
  | _ :: _, [] => .stop ⟨.endInValue, .endInValue, .expectedValue⟩
  | w :: ws, c :: cs =>
    if c = w then scanWord ws cs else .stop ⟨.expectedWord, .expectedWord, .expectedValue⟩

/-- The fault of a number that goes on with `rest` where it needs a digit. -/
def noDigit (rest : List Char) : Fault :=
  ⟨if rest.isEmpty then .endInValue else .invalidNumber, .invalidNumber, .expectedValue⟩

/-- Reads the exponent of a number, if it has one. -/
def scanExponent (t : NumberText) : List Char → Scan NumberText
  | [] => .read t []
  | c :: cs =>
    if c = 'e' ∨ c = 'E' then
      let (below, cs) :=
        match cs with
        | '+' :: r => (false, r)
        | '-' :: r => (true, r)
        | r => (false, r)
      let digits := cs.takeWhile Decimal.isDigit
      let rest := cs.dropWhile Decimal.isDigit
      if digits.isEmpty then .stop (noDigit rest)
      else .read { t with exponent := some (below, digits) } rest
    else .read t (c :: cs)

/-- Reads the fraction of a number, if it has one, and its exponent. -/
def scanFraction (t : NumberText) : List Char → Scan NumberText
  | '.' :: cs =>
    let digits := cs.takeWhile Decimal.isDigit
    let rest := cs.dropWhile Decimal.isDigit
    if digits.isEmpty then .stop (noDigit rest)
    else scanExponent { t with fraction := digits } rest
  | cs => scanExponent t cs

/-- Reads a number whose minus sign, if any, has been read. No digit may follow a leading zero. -/
def scanMagnitude (negative : Bool) (cs : List Char) : Scan NumberText :=
  let digits := cs.takeWhile Decimal.isDigit
  let rest := cs.dropWhile Decimal.isDigit
  match digits with
  | [] => .stop (noDigit cs)
  | '0' :: _ :: _ => .stop (noDigit digits)
  | _ => scanFraction ⟨negative, digits, [], none⟩ rest

def scanNumber : List Char → Scan NumberText
  | '-' :: cs => scanMagnitude true cs
  | cs => scanMagnitude false cs

/-- Where a reader stands inside a text: between characters, after a backslash, or after some of the
four digits of a numbered escape. -/
inductive StringState where
  | plain
  | escaped
  | hex (count value : Nat)

/-- What has been read of a text: its characters, last one first, the first half of a surrogate pair
that waits for the second one, and the first error for readers that keep the text. -/
structure StringSoFar where
  chars : List Char := []
  lead : Option Nat := none
  error : Option ReadError := none

namespace StringSoFar

/-- Notes an error, unless there is one already. -/
def fail (s : StringSoFar) (e : ReadError) : StringSoFar :=
  { s with error := s.error.or (some e), lead := none }

def push (s : StringSoFar) (c : Char) : StringSoFar :=
  { s with chars := c :: s.chars }

/-- Something other than the second half of a surrogate pair comes next. -/
def noPair (s : StringSoFar) : StringSoFar :=
  if s.lead.isSome then s.fail .unfinishedSurrogate else s

/-- Adds the UTF-16 unit of a numbered escape. -/
def pushUnit (s : StringSoFar) (n : Nat) : StringSoFar :=
  match s.lead with
  | some h =>
    if 0xDC00 ≤ n ∧ n ≤ 0xDFFF then
      { s.push (Char.ofNat (0x10000 + (h - 0xD800) * 0x400 + (n - 0xDC00))) with lead := none }
    else s.fail .loneSurrogate
  | none =>
    if 0xDC00 ≤ n ∧ n ≤ 0xDFFF then s.fail .loneSurrogate
    else if 0xD800 ≤ n ∧ n ≤ 0xDBFF then { s with lead := some n }
    else s.push (Char.ofNat n)

/-- What the text is for a reader that keeps it. -/
def value (s : StringSoFar) : Except ReadError String :=
  match s.error with
  | some e => .error e
  | none => .ok (String.ofList s.chars.reverse)

/-- The text cannot be read on. -/
def stop (s : StringSoFar) (e : ReadError) : Scan (Except ReadError String) :=
  .stop ⟨s.error.getD e, e, s.error.getD e⟩

end StringSoFar

/-- The character that a letter after a backslash stands for. -/
def escapedChar (c : Char) : Option Char :=
  if c = '"' ∨ c = '\\' ∨ c = '/' then some c
  else if c = 'b' then some '\x08'
  else if c = 'f' then some '\x0c'
  else if c = 'n' then some '\n'
  else if c = 'r' then some '\r'
  else if c = 't' then some '\t'
  else none

def hexValue (c : Char) : Option Nat :=
  if '0' ≤ c ∧ c ≤ '9' then some (c.toNat - 48)
  else if 'a' ≤ c ∧ c ≤ 'f' then some (c.toNat - 87)
  else if 'A' ≤ c ∧ c ≤ 'F' then some (c.toNat - 55)
  else none

/-- Whether the text is at least `n` bytes long. -/
def hasBytes (n : Nat) : List Char → Bool
  | [] => n == 0
  | c :: cs => if n ≤ c.utf8Size then true else hasBytes (n - c.utf8Size) cs

/-- Reads a text up to its closing quote. A numbered escape needs four bytes, and four digits. -/
def scanString (s : StringSoFar) : StringState → List Char → Scan (Except ReadError String)
  | _, [] => s.stop .endInString
  | .plain, c :: cs =>
    if c = '\\' then scanString s .escaped cs
    else if c = '"' then .read s.noPair.value cs
    else if c.toNat < 32 then s.noPair.stop .controlCharacter
    else scanString (s.noPair.push c) .plain cs
  | .escaped, c :: cs =>
    if c = 'u' then scanString s (.hex 0 0) cs
    else
      match escapedChar c with
      | some d => scanString (s.noPair.push d) .plain cs
      | none => s.noPair.stop .invalidEscape
  | .hex count value, c :: cs =>
    if count = 0 ∧ !hasBytes 4 (c :: cs) then s.stop .endInString
    else
      match hexValue c with
      | some d =>
        if count = 3 then scanString (s.pushUnit (16 * value + d)) .plain cs
        else scanString s (.hex (count + 1) (16 * value + d)) cs
      | none => s.stop .invalidEscape

/-- The tree of a part, and the rest of the text unless reading stopped. -/
abbrev Parsed (α : Type) : Type := α × Option (List Char)

/-- The tree of a scanned leaf. -/
def leaf {α : Type} (build : α → Raw) : Scan α → Parsed Raw
  | .read a rest => (build a, some rest)
  | .stop fault => (.broken fault, none)

mutual

/-- Reads a value. `fuel` bounds the number of calls; twice the length of the text is enough. -/
def parseValue : Nat → List Char → Parsed Raw
  | 0, _ => (.broken (.same .tooDeep), none)
  | fuel + 1, cs =>
    match skipBlank cs with
    | [] => (.broken (.same .endInValue), none)
    | c :: cs =>
      if c = 'n' then leaf (fun _ => .null) (scanWord ['u', 'l', 'l'] cs)
      else if c = 't' then leaf (fun _ => .bool true) (scanWord ['r', 'u', 'e'] cs)
      else if c = 'f' then leaf (fun _ => .bool false) (scanWord ['a', 'l', 's', 'e'] cs)
      else if c = '"' then leaf .string (scanString {} .plain cs)
      else if c = '-' ∨ Decimal.isDigit c then
        leaf (fun t => .number t.value) (scanNumber (c :: cs))
      else if c = '[' then
        let ((items, fault), rest) := parseItems fuel true cs
        (.array items fault, rest)
      else if c = '\x7b' then
        let ((members, fault), rest) := parseMembers fuel true cs
        (.object members fault, rest)
      else (.broken (.same .expectedValue), none)

def parseItems : Nat → Bool → List Char → Parsed (List Raw × Option Fault)
  | 0, _, _ => (([], some (.same .tooDeep)), none)
  | fuel + 1, first, cs =>
    match skipBlank cs with
    | [] => (([], some (.same .endInArray)), none)
    | ']' :: cs => (([], none), some cs)
    | c :: cs =>
      if first then parseItem fuel (c :: cs)
      else if c = ',' then
        match skipBlank cs with
        | ']' :: _ => (([], some ⟨.trailingComma, .expectedValue, .trailingComma⟩), none)
        | cs => parseItem fuel cs
      else (([], some (.same .expectedItemEnd)), none)

/-- Reads an item and the items that follow it. -/
def parseItem : Nat → List Char → Parsed (List Raw × Option Fault)
  | 0, _ => (([], some (.same .tooDeep)), none)
  | fuel + 1, cs =>
    match parseValue fuel cs with
    | (item, none) => (([item], none), none)
    | (item, some cs) =>
      let ((items, fault), rest) := parseItems fuel false cs
      ((item :: items, fault), rest)

def parseMembers : Nat → Bool → List Char →
    Parsed (List (Except ReadError String × Raw) × Option Fault)
  | 0, _, _ => (([], some (.same .tooDeep)), none)
  | fuel + 1, first, cs =>
    match skipBlank cs with
    | [] => (([], some ⟨.endInObject, .endInObject, if first then .endInValue else .endInObject⟩), none)
    | '\x7d' :: cs => (([], none), some cs)
    | c :: cs =>
      if first then
        if c = '"' then parseMember fuel cs
        else (([], some ⟨.keyNotString, .keyNotString, (parseValue fuel (c :: cs)).1.mismatch⟩), none)
      else if c = ',' then
        match skipBlank cs with
        | [] => (([], some ⟨.endInValue, .endInObject, .expectedValue⟩), none)
        | '"' :: cs =>
          let ((members, fault), rest) := parseMember fuel cs
          ((members, fault.map fun f => { f with named := .expectedValue }), rest)
        | '\x7d' :: _ => (([], some ⟨.trailingComma, .keyNotString, .expectedValue⟩), none)
        | _ => (([], some ⟨.keyNotString, .keyNotString, .expectedValue⟩), none)
      else (([], some ⟨.expectedFieldEnd, .expectedFieldEnd, .expectedValue⟩), none)

/-- Reads a member whose opening quote has been read, and the members that follow it. -/
def parseMember : Nat → List Char → Parsed (List (Except ReadError String × Raw) × Option Fault)
  | 0, _ => (([], some (.same .tooDeep)), none)
  | fuel + 1, cs =>
    match scanString {} .plain cs with
    | .stop fault => (([], some fault), none)
    | .read key cs =>
      match skipBlank cs with
      | [] => (([(key, .broken (.same .endInObject))], none), none)
      | ':' :: cs =>
        match parseValue fuel cs with
        | (value, none) => (([(key, value)], none), none)
        | (value, some cs) =>
          let ((members, fault), rest) := parseMembers fuel false cs
          (((key, value) :: members, fault), rest)
      | _ => (([(key, .broken (.same .expectedColon))], none), none)

end

/-- A whole text: its tree, and what is wrong after it. -/
structure Document where
  root : Raw
  trailing : Option ReadError

/-- Reads a whole text. Nothing but blanks may follow the value. -/
def ofText (text : String) : Document :=
  let cs := text.toList
  match parseValue (3 * cs.length + 3) cs with
  | (root, none) => ⟨root, none⟩
  | (root, some rest) => ⟨root, if (skipBlank rest).isEmpty then none else some .trailingCharacters⟩

end Raw

end FlowGraph
