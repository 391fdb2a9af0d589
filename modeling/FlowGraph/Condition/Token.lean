import FlowGraph.Decimal.Reading
import FlowGraph.Text.Blank

/-!
The tokens of condition expressions.

Blanks and comments stand between tokens. A comment runs from `//` to the end of its line, or from
`/*` to the `*/` that belongs to it; comments of the second kind nest, and one that is not closed runs
to the end of the text. A minus sign right before a digit belongs to the number where an operand may
stand.
-/

namespace FlowGraph.Condition

inductive Token where
  | int (n : Int)
  | float (x : Float)
  | text (s : String)
  | char (c : Char)
  | name (s : String)
  | word (s : String)
  | symbol (s : String)

/-- The digits of a run of digits and underscores at the head of a text, and what follows the run. -/
def digitRun (isDigit : Char → Bool) (cs : List Char) : List Char × List Char :=
  let inRun := fun c => isDigit c || c == '_'
  ((cs.takeWhile inRun).filter isDigit, cs.dropWhile inRun)

def hexValue? (c : Char) : Option Nat :=
  if c.isDigit then some (c.toNat - 48)
  else if 'a' ≤ c ∧ c ≤ 'f' then some (c.toNat - 87)
  else if 'A' ≤ c ∧ c ≤ 'F' then some (c.toNat - 55)
  else none

/-- The letter after a zero that makes the digits hexadecimal, octal or binary. -/
def radixOf? (c : Char) : Option Nat :=
  if c = 'x' ∨ c = 'X' then some 16
  else if c = 'o' ∨ c = 'O' then some 8
  else if c = 'b' ∨ c = 'B' then some 2
  else none

/-- The number that digits stand for, unless one of them is too great for the radix or there is
none. -/
def digitsIn? (radix : Nat) : List Char → Option Nat
  | [] => none
  | cs => cs.foldl (fun n c => do
      let n ← n
      let d ← hexValue? c
      if d < radix then some (radix * n + d) else none) (some 0)

/-- The integer whose 64 bits are the binary digits of a number. -/
def ofWord? (n : Nat) : Option Int :=
  if n < 0x8000000000000000 then some n
  else if n < 0x10000000000000000 then some ((n : Int) - 0x10000000000000000)
  else none

/-- The digits after the point of a number, and what follows them. A point belongs to the number when
a digit follows it, or something that cannot begin a name. -/
def fractionOf : List Char → Option (List Char) × List Char
  | '.' :: c :: cs =>
    if c.isDigit then
      let (digits, rest) := digitRun Char.isDigit (c :: cs)
      (some digits, rest)
    else if c.isAlpha ∨ c = '_' ∨ c = '.' then (none, '.' :: c :: cs)
    else (some [], c :: cs)
  | cs => (none, cs)

/-- The sign and the digits of an exponent, and what follows it. The letter belongs to the number when
a digit or a sign follows it. -/
def exponentOf : List Char → Option (Bool × List Char × List Char)
  | 'e' :: c :: cs =>
    if c.isDigit then some (false, digitRun Char.isDigit (c :: cs))
    else if c = '-' ∨ c = '+' then some (c == '-', digitRun Char.isDigit cs)
    else none
  | _ => none

/-- The floating-point number closest to a decimal. -/
def decimalNumber (negative : Bool) (whole fraction : List Char) (exponent : Int) : Float :=
  let x := Decimal.nearest (Decimal.digitsValue (whole ++ fraction)) (exponent - fraction.length)
  if negative then -x else x

/-- The number whose digits begin a text, and the rest. Too great an integer is a floating-point
number. Digits in another radix stand for the bits of an integer, and take no sign. -/
def number (negative : Bool) (cs : List Char) : Option (Token × List Char) :=
  let (whole, rest) := digitRun Char.isDigit cs
  match rest.head?.bind radixOf?, whole with
  | some radix, ['0'] => do
    let (digits, rest) :=
      digitRun (if radix = 16 then fun c => (hexValue? c).isSome else Char.isDigit) rest.tail
    let n ← (digitsIn? radix digits).bind ofWord?
    if negative then none else return (.int n, rest)
  | _, _ =>
    let (fraction, rest) := fractionOf rest
    match exponentOf rest with
    | some (_, [], _) => none
    | some (below, digits, rest) =>
      let size : Int := Decimal.digitsValue digits
      let exponent := if below then -size else size
      some (.float (decimalNumber negative whole (fraction.getD []) exponent), rest)
    | none =>
      let size : Int := Decimal.digitsValue whole
      let n := if negative then -size else size
      if fraction.isNone ∧ -0x8000000000000000 ≤ n ∧ n < 0x8000000000000000 then
        some (.int n, rest)
      else some (.float (decimalNumber negative whole (fraction.getD []) 0), rest)

/-- Where the reading of a quoted text stands. -/
inductive QuoteState where
  /-- Among the characters; so many more blanks are skipped. -/
  | plain (skip : Nat)
  /-- After a backslash. -/
  | escaped
  /-- Within the number of a character, with so many digits to come and the value so far. -/
  | numbered (left value : Nat)

/-- The character that a letter after a backslash stands for. -/
def namedEscape? (close c : Char) : Option Char :=
  if c = '\\' ∨ c = close then some c
  else if c = 'n' then some '\n'
  else if c = 'r' then some '\r'
  else if c = 't' then some '\t'
  else none

/-- How many digits follow a letter after a backslash. -/
def escapeDigits? (c : Char) : Option Nat :=
  if c = 'x' then some 2 else if c = 'u' then some 4 else if c = 'U' then some 8 else none

/-- The characters up to a closing quote, and the rest. A closing quote written twice is one of the
characters. A line may be broken after a backslash if there is an `indent`; then so many blanks at
the start of the next line do not count. -/
def quoted (close : Char) (indent : Option Nat) :
    QuoteState → List Char → Option (List Char × List Char)
  | _, [] => none
  | .plain skip, c :: cs =>
    if c = close then
      match cs with
      | d :: ds =>
        if d = close then (quoted close indent (.plain 0) ds).map fun r => (close :: r.1, r.2)
        else some ([], d :: ds)
      | [] => some ([], [])
    else if c = '\\' then quoted close indent .escaped cs
    else if c = '\r' ∧ cs.head? = some '\n' then quoted close indent (.plain skip) cs
    else if c = '\n' then none
    else if 0 < skip ∧ Text.isBlank c then quoted close indent (.plain (skip - 1)) cs
    else (quoted close indent (.plain 0) cs).map fun r => (c :: r.1, r.2)
  | .escaped, c :: cs =>
    match namedEscape? close c, escapeDigits? c with
    | some d, _ => (quoted close indent (.plain 0) cs).map fun r => (d :: r.1, r.2)
    | _, some count => quoted close indent (.numbered count 0) cs
    | none, none =>
      if c = '\r' ∧ cs.head? = some '\n' then quoted close indent .escaped cs
      else
        match c, indent with
        | '\n', some skip => quoted close indent (.plain skip) cs
        | _, _ => none
  | .numbered left value, c :: cs =>
    match hexValue? c with
    | none => none
    | some d =>
      let value := 16 * value + d
      if 1 < left then quoted close indent (.numbered (left - 1) value) cs
      else if value.isValidChar then
        (quoted close indent (.plain 0) cs).map fun r => (Char.ofNat value :: r.1, r.2)
      else none

def isNameStart (c : Char) : Bool :=
  c.isAlpha || c == '_'

def isNameRest (c : Char) : Bool :=
  c.isAlphanum || c == '_'

/-- Words that name no variable and no property, although a function with that name can be called. -/
def callableWords : List String :=
  ["print", "debug", "type_of", "eval", "Fn", "call", "curry", "is_shared", "is_def_var",
    "is_def_fn"]

/-- Those of the callable words that can be called with a dot. -/
def methodWords : List String :=
  ["type_of", "call", "curry", "is_shared"]

def reservedWords : List String :=
  ["true", "false", "let", "const", "if", "else", "switch", "do", "while", "until", "loop", "for",
    "in", "continue", "break", "return", "throw", "try", "catch", "import", "export", "as", "fn",
    "private", "this", "is", "var", "static", "shared", "with", "goto", "match", "case", "default",
    "public", "protected", "new", "use", "module", "package", "super", "thread", "spawn", "go",
    "sync", "async", "await", "yield", "void", "null", "nil"]

/-- The token of a word. The first character of a name that is not an underscore is a letter. -/
def wordToken (cs : List Char) : Option Token :=
  let s := String.ofList cs
  if reservedWords.contains s || callableWords.contains s then some (.word s)
  else if (cs.find? (· != '_')).any Char.isAlpha then some (.name s)
  else none

/-- Characters that stand for nothing together, although the first of them does alone. -/
def straySymbols : List String :=
  ["===", "!==", "...", "**=", "<<=", ">>=", "(*", "*)", "++", "--", "->", "<-", "<|", "|>", "!.",
    "+=", "-=", "*=", "/=", "%=", "|=", "&=", "^=", "::", ":=", ":;"]

/-- The symbols, longer ones before their beginnings. -/
def symbols : List String :=
  ["..=", "()", "==", "!=", "<=", ">=", "&&", "||", "**", "<<", ">>", "..", "??", "?.", "?[",
    "#\x7b", "\x7b", "\x7d", "(", ")", "[", "]", "+", "-", "*", "/", "%", "<", ">", "!", "&", "|", "^",
    ",", ".", ":"]

/-- Whether a text begins with another one. -/
def startsWith (cs : List Char) (s : String) : Bool :=
  s.toList.isPrefixOf cs

/-- The symbol at the head of a text, and the rest. -/
def symbolToken (cs : List Char) : Option (Token × List Char) :=
  if straySymbols.any (startsWith cs) then none
  else (symbols.find? (startsWith cs)).map fun s => (.symbol s, cs.drop s.length)

/-- Whether an operand may follow the token. -/
def Token.awaitsOperand : Token → Bool
  | symbol s => !([")", "]", "\x7d", "()", ".", "?."].contains s)
  | word s => s == "in" || s == "!in" || s == "if"
  | _ => false

/-- The token at the head of a text that does not begin with a blank, and the rest. `operand` tells
whether an operand may stand there, and `column` how many characters are before it on its line. -/
def token (operand : Bool) (column : Nat) (cs : List Char) : Option (Token × List Char) :=
  match cs with
  | [] => none
  | c :: rest =>
    if c.isDigit then number false cs
    else if c = '-' ∧ operand ∧ rest.head?.any Char.isDigit then number true rest
    else if isNameStart c then
      (wordToken (cs.takeWhile isNameRest)).map fun t => (t, cs.dropWhile isNameRest)
    else if c = '"' then
      (quoted '"' (some (column + 1)) (.plain 0) rest).map fun r => (.text (String.ofList r.1), r.2)
    else if c = '\x27' then
      match quoted '\x27' none (.plain 0) rest with
      | some ([d], rest) => some (.char d, rest)
      | _ => none
    else if startsWith cs "!in" ∧ !(cs.drop 3).head?.any isNameRest then
      some (.word "!in", cs.drop 3)
    else symbolToken cs

/-- Drops a comment of so many levels, up to its end. -/
def dropComment : Nat → List Char → List Char
  | _, [] => []
  | 0, cs => cs
  | level + 1, '*' :: '/' :: cs => dropComment level cs
  | level + 1, '/' :: '*' :: cs => dropComment (level + 2) cs
  | level + 1, _ :: cs => dropComment (level + 1) cs

/-- Drops blanks and comments; the fuel is the length of the text. -/
def dropBlank : Nat → List Char → List Char
  | _, [] => []
  | 0, cs => cs
  | fuel + 1, c :: cs =>
    if Text.isBlank c then dropBlank fuel cs
    else if startsWith (c :: cs) "//" then
      dropBlank fuel (cs.dropWhile fun d => d != '\n' && d != '\r')
    else if startsWith (c :: cs) "/*" then dropBlank fuel (dropComment 1 cs.tail)
    else c :: cs

/-- How many characters stand before the end of a text on its line, when so many stand before its
start. -/
def columnAfter (column : Nat) (cs : List Char) : Nat :=
  cs.foldl (fun n c => if c = '\n' then 0 else n + 1) column

/-- The tokens of a text, unless something in it is no token; the fuel is greater than the length of
the text. -/
def tokens : (fuel : Nat) → (operand : Bool) → (column : Nat) → List Char → Option (List Token)
  | 0, _, _, _ => none
  | fuel + 1, operand, column, cs =>
    match dropBlank cs.length cs with
    | [] => some []
    | head => do
      let column := columnAfter column (cs.take (cs.length - head.length))
      let (t, rest) ← token operand column head
      let column := columnAfter column (head.take (head.length - rest.length))
      let ts ← tokens fuel t.awaitsOperand column rest
      return t :: ts

end FlowGraph.Condition
