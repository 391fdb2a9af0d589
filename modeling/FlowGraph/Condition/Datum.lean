import FlowGraph.Value

/-!
The values that condition expressions compute with, and the reasons why an expression has no value.

Integers have 64 bits; the numbers of the values that flow between nodes are floating-point numbers.
Only expressions make integers, characters, ranges and functions.
-/

namespace FlowGraph.Condition

/-- A value of a condition expression. -/
inductive Datum where
  | unit
  | bool (b : Bool)
  | int (n : Int)
  | float (x : Float)
  | char (c : Char)
  | text (s : String)
  | array (items : List Datum)
  | map (fields : List (String × Datum))
  | range (first last : Int) (closed : Bool)
  | function
deriving Inhabited

inductive EvalError where
  | outputType
  | dataType
  | variableNotFound
  | functionNotFound
  | unknownProperty
  | indexerUnavailable
  | arrayIndex (index : Int)
  | stringIndex (index : Int)
  | bitIndex (index : Int)
  | divisionByZero
  | divisionOverflow
  | modulo
  | additionOverflow
  | subtractionOverflow
  | multiplicationOverflow
  | negationOverflow
  | powerOverflow
  | negativePower
deriving DecidableEq, Repr

def EvalError.message : EvalError → String
  | outputType => "Output type incorrect"
  | dataType => "Data type incorrect"
  | variableNotFound => "Variable not found"
  | functionNotFound => "Function not found"
  | unknownProperty => "Unknown property"
  | indexerUnavailable => "Indexer unavailable"
  | arrayIndex i => s!"Array index {i} out of bounds"
  | stringIndex i => s!"String index {i} out of bounds"
  | bitIndex i => s!"Bit-field index {i} out of bounds"
  | divisionByZero => "Division by zero"
  | divisionOverflow => "Division overflow"
  | modulo => "Modulo division by zero or overflow"
  | additionOverflow => "Addition overflow"
  | subtractionOverflow => "Subtraction overflow"
  | multiplicationOverflow => "Multiplication overflow"
  | negationOverflow => "Negation overflow"
  | powerOverflow => "Exponential overflow"
  | negativePower => "Integer raised to a negative power"

namespace Datum

mutual

/-- The datum of a value that flows between nodes; all its numbers are floating-point numbers. -/
def ofValue : Value → Datum
  | .null => .unit
  | .bool b => .bool b
  | .number x => .float x
  | .text s => .text s
  | .array items => .array (ofValueItems items)
  | .object fields => .map (ofValueFields fields)

def ofValueItems : List Value → List Datum
  | [] => []
  | v :: vs => ofValue v :: ofValueItems vs

def ofValueFields : List (String × Value) → List (String × Datum)
  | [] => []
  | (k, v) :: fs => (k, ofValue v) :: ofValueFields fs

end

def typeName : Datum → String
  | unit => "()"
  | bool _ => "bool"
  | int _ => "i64"
  | float _ => "f64"
  | char _ => "char"
  | text _ => "string"
  | array _ => "array"
  | map _ => "map"
  | range _ _ closed => if closed then "range=" else "range"
  | function => "Fn"

/-- The number as a floating-point number, if the datum is a number. -/
def float? : Datum → Option Float
  | int n => some (Number.intToFloat n)
  | float x => some x
  | _ => none

/-- The characters, if the datum is a text or a character. -/
def chars? : Datum → Option (List Char)
  | char c => some [c]
  | text s => some s.toList
  | _ => none

end Datum

end FlowGraph.Condition
