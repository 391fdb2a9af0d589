/-!
Why a JSON text, or a value in place of a record of the library, cannot be read.
-/

namespace FlowGraph

/-- Why a JSON text or value cannot be read. -/
inductive ReadError where
  /-- The text ends where a value, a text, an array or an object goes on. -/
  | endInValue
  | endInString
  | endInArray
  | endInObject
  /-- Something else stands where the text needs a colon, a separator or closing mark, a word or a
  value. -/
  | expectedColon
  | expectedItemEnd
  | expectedFieldEnd
  | expectedWord
  | expectedValue
  | invalidEscape
  | invalidNumber
  | numberTooLarge
  | controlCharacter
  | keyNotString
  /-- A surrogate that is not the first half of a pair, or whose second half is no surrogate. -/
  | loneSurrogate
  /-- The first half of a surrogate pair that no second escape follows. -/
  | unfinishedSurrogate
  | trailingComma
  | trailingCharacters
  /-- More than 127 containers are open at once. -/
  | tooDeep
  /-- The value is of another type than the record asks for. -/
  | invalidType
  /-- The value is of the right type, but not one that the record admits. -/
  | invalidValue
  | missingField (name : String)
  | duplicateField (name : String)
  | unknownVariant (name : String) (known : List String)
  /-- A record given as an array of its fields has too few or too many of them. -/
  | invalidLength (found : Nat) (expected : String)
  /-- The value fits no kind of a type whose kinds bear no names. -/
  | noVariant (type : String)
deriving DecidableEq, Repr, Inhabited

namespace ReadError

def ticked (name : String) : String :=
  "\x60" ++ name ++ "\x60"

/-- The known variants, as a message lists them. -/
def listVariants : List String → String
  | [] => "there are no variants"
  | [a] => "expected " ++ ticked a
  | [a, b] => "expected " ++ ticked a ++ " or " ++ ticked b
  | names => "expected one of " ++ ", ".intercalate (names.map ticked)

def message : ReadError → String
  | endInValue => "EOF while parsing a value"
  | endInString => "EOF while parsing a string"
  | endInArray => "EOF while parsing a list"
  | endInObject => "EOF while parsing an object"
  | expectedColon => "expected " ++ ticked ":"
  | expectedItemEnd => "expected " ++ ticked "," ++ " or " ++ ticked "]"
  | expectedFieldEnd => "expected " ++ ticked "," ++ " or " ++ ticked "\x7d"
  | expectedWord => "expected ident"
  | expectedValue => "expected value"
  | invalidEscape => "invalid escape"
  | invalidNumber => "invalid number"
  | numberTooLarge => "number out of range"
  | controlCharacter => "control character (\\u0000-\\u001F) found while parsing a string"
  | keyNotString => "key must be a string"
  | loneSurrogate => "lone leading surrogate in hex escape"
  | unfinishedSurrogate => "unexpected end of hex escape"
  | trailingComma => "trailing comma"
  | trailingCharacters => "trailing characters"
  | tooDeep => "recursion limit exceeded"
  | invalidType => "invalid type"
  | invalidValue => "invalid value"
  | missingField name => "missing field " ++ ticked name
  | duplicateField name => "duplicate field " ++ ticked name
  | unknownVariant name known =>
    "unknown variant " ++ ticked name ++ ", " ++ listVariants known
  | invalidLength found expected =>
    "invalid length " ++ toString found ++ ", expected " ++ expected
  | noVariant type => "data did not match any variant of untagged enum " ++ type

end ReadError

end FlowGraph
