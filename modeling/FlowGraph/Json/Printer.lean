import FlowGraph.Decimal.Layout
import FlowGraph.Json.Basic
import FlowGraph.Text.Quoted

/-!
JSON text. The compact form has no blanks; the indented form puts every item and field on a line of
its own, two spaces deeper than its container, and writes empty containers without a line break.
Both list fields in the order in which the value holds them. A text escapes quotes, backslashes and
the controls below the space, and nothing else.
-/

namespace FlowGraph.Json

def escape (c : Char) : List Char :=
  if c = '"' then ['\\', '"']
  else if c = '\\' then ['\\', '\\']
  else if c = '\x08' then ['\\', 'b']
  else if c = '\x0c' then ['\\', 'f']
  else if c = '\n' then ['\\', 'n']
  else if c = '\r' then ['\\', 'r']
  else if c = '\t' then ['\\', 't']
  else if c.toNat < 16 then ['\\', 'u', '0', '0', '0'] ++ Text.hexDigits c.toNat
  else if c.toNat < 32 then ['\\', 'u', '0', '0'] ++ Text.hexDigits c.toNat
  else [c]

def stringChars (s : String) : List Char :=
  '"' :: s.toList.flatMap escape ++ ['"']

def numberChars : Number → List Char
  | .int n _ => (Decimal.intText n).toList
  | .float x _ => (Decimal.jsonLayout.floatText x).toList

mutual

def compactChars : Json → List Char
  | .null => ['n', 'u', 'l', 'l']
  | .bool true => ['t', 'r', 'u', 'e']
  | .bool false => ['f', 'a', 'l', 's', 'e']
  | .number n => numberChars n
  | .string s => stringChars s
  | .array [] => ['[', ']']
  | .array (j :: js) => '[' :: compactChars j ++ compactItems js
  | .object [] => ['\x7b', '\x7d']
  | .object ((k, j) :: fs) => '\x7b' :: stringChars k ++ ':' :: compactChars j ++ compactFields fs

/-- The items after the first one, and the closing bracket. -/
def compactItems : List Json → List Char
  | [] => [']']
  | j :: js => ',' :: compactChars j ++ compactItems js

/-- The fields after the first one, and the closing brace. -/
def compactFields : List (String × Json) → List Char
  | [] => ['\x7d']
  | (k, j) :: fs => ',' :: stringChars k ++ ':' :: compactChars j ++ compactFields fs

end

/-- A line break and the indentation of the next line. -/
def lineBreak (level : Nat) : List Char :=
  '\n' :: List.replicate (2 * level) ' '

mutual

/-- The value with one item or field a line; `level` containers are open around it. -/
def prettyChars (level : Nat) : Json → List Char
  | .null => ['n', 'u', 'l', 'l']
  | .bool true => ['t', 'r', 'u', 'e']
  | .bool false => ['f', 'a', 'l', 's', 'e']
  | .number n => numberChars n
  | .string s => stringChars s
  | .array [] => ['[', ']']
  | .array (j :: js) =>
    '[' :: lineBreak (level + 1) ++ prettyChars (level + 1) j ++ prettyItems level js
  | .object [] => ['\x7b', '\x7d']
  | .object ((k, j) :: fs) =>
    '\x7b' :: lineBreak (level + 1) ++ stringChars k ++ ':' :: ' ' :: prettyChars (level + 1) j ++
      prettyFields level fs

/-- The items after the first one, and the closing bracket on a line of its own. -/
def prettyItems (level : Nat) : List Json → List Char
  | [] => lineBreak level ++ [']']
  | j :: js => ',' :: lineBreak (level + 1) ++ prettyChars (level + 1) j ++ prettyItems level js

/-- The fields after the first one, and the closing brace on a line of its own. -/
def prettyFields (level : Nat) : List (String × Json) → List Char
  | [] => lineBreak level ++ ['\x7d']
  | (k, j) :: fs =>
    ',' :: lineBreak (level + 1) ++ stringChars k ++ ':' :: ' ' :: prettyChars (level + 1) j ++
      prettyFields level fs

end

def compact (j : Json) : String :=
  String.ofList (compactChars j)

def pretty (j : Json) : String :=
  String.ofList (prettyChars 0 j)

end FlowGraph.Json
