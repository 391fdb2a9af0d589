/-!
Percent encoding: a byte of the UTF-8 form of a text as a percent sign and two hexadecimal digits.
Every part of an address has its own set of characters that do not stand for themselves in it; the
controls and all that is not ASCII never do.
-/

namespace FlowGraph.Url

def hexDigit (n : Nat) : Char :=
  if n < 10 then Char.ofNat (48 + n) else Char.ofNat (55 + n)

def hexDigitValue? (c : Char) : Option Nat :=
  if c.isDigit then some (c.toNat - 48)
  else if 'a' ≤ c ∧ c ≤ 'f' then some (c.toNat - 87)
  else if 'A' ≤ c ∧ c ≤ 'F' then some (c.toNat - 55)
  else none

def bytesOf (c : Char) : List UInt8 :=
  (String.singleton c).toUTF8.toList

def escapeChar (c : Char) : List Char :=
  (bytesOf c).flatMap fun b => ['%', hexDigit (b.toNat / 16), hexDigit (b.toNat % 16)]

/-- The characters, those of a set in percent encoding. -/
def escape (special : List Char) (cs : List Char) : List Char :=
  cs.flatMap fun c =>
    if c.toNat < 32 ∨ 127 ≤ c.toNat ∨ c ∈ special then escapeChar c else [c]

/-- The bytes that a text in percent encoding stands for. -/
def unescape : List Char → List UInt8
  | [] => []
  | '%' :: a :: b :: cs =>
    match hexDigitValue? a, hexDigitValue? b with
    | some x, some y => UInt8.ofNat (16 * x + y) :: unescape cs
    | _, _ => '%'.toUInt8 :: unescape (a :: b :: cs)
  | c :: cs => bytesOf c ++ unescape cs

/-- The characters that a text in percent encoding stands for, if its bytes are those of a text. -/
def unescapeText? (cs : List Char) : Option (List Char) :=
  (String.fromUTF8? ⟨(unescape cs).toArray⟩).map String.toList

def fragmentSet : List Char := [' ', '"', '<', '>', '\x60']

def pathSet : List Char := fragmentSet ++ ['#', '?', '\x7b', '\x7d']

/-- The set of a user's name and password. -/
def userSet : List Char := pathSet ++ ['/', ':', ';', '=', '@', '[', '\\', ']', '^', '|']

def querySet : List Char := [' ', '"', '#', '<', '>']

/-- The set of the query of an address with a well-known scheme. -/
def knownQuerySet : List Char := querySet ++ ['\x27']

end FlowGraph.Url
