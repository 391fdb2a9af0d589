import FlowGraph.Decimal.Layout
import FlowGraph.Decimal.Remainder
import FlowGraph.Node.Basic

/-!
The node type `math`: arithmetic on two numbers. A result that is infinite or no number at all is an
error, because no JSON number stands for it.
-/

namespace FlowGraph.Standard

inductive MathOperation where
  | add
  | subtract
  | multiply
  | divide
  | modulo
  | power
  | min
  | max
deriving DecidableEq, Repr

namespace MathOperation

/-- The operations by the names that data uses. -/
def byName : List (String × MathOperation) :=
  [("add", add), ("subtract", subtract), ("multiply", multiply), ("divide", divide),
    ("modulo", modulo), ("power", power), ("min", min), ("max", max)]

def parse (name : String) : Option MathOperation :=
  byName.lookup name

/-- The operation as messages name it. -/
def label : MathOperation → String
  | add => "Add"
  | subtract => "Subtract"
  | multiply => "Multiply"
  | divide => "Divide"
  | modulo => "Modulo"
  | power => "Power"
  | min => "Min"
  | max => "Max"

/-- The lesser of two numbers; what is no number counts only if both are none. -/
def lesser (a b : Float) : Float :=
  if a.isNaN then b else if b.isNaN then a else if a < b then a else b

/-- The greater of two numbers; what is no number counts only if both are none. -/
def greater (a b : Float) : Float :=
  if a.isNaN then b else if b.isNaN then a else if b < a then a else b

/-- The result of the operation before it is checked; nothing for a division by zero. -/
def compute (op : MathOperation) (a b : Float) : Option Float :=
  match op with
  | add => some (a + b)
  | subtract => some (a - b)
  | multiply => some (a * b)
  | divide => if b == 0.0 then none else some (a / b)
  | modulo => if b == 0.0 then none else some (Decimal.remainder a b)
  | power => some (Float.pow a b)
  | min => some (lesser a b)
  | max => some (greater a b)

def apply (op : MathOperation) (a b : Float) : Except NodeError Float :=
  match op.compute a b with
  | none => .error (.executionFailed "division by zero")
  | some x =>
    if x.isFinite then .ok x
    else
      let left := Decimal.plainLayout.floatText a
      let right := Decimal.plainLayout.floatText b
      .error (.executionFailed s!"non-finite result of {op.label}({left}, {right})")

end MathOperation

def validateMath (payload : Dict Json) : Except FieldIssue Unit :=
  let name := ((Dict.get? payload "operation").bind Json.string?).getD ""
  match MathOperation.parse name with
  | some _ => .ok ()
  | none => .error ⟨"operation", s!"unknown operation '{name}'"⟩

def calculate (op : MathOperation) (ctx : Context) : Except NodeError Value := do
  let a ← ctx.requireNumber "a"
  let b ← ctx.requireNumber "b"
  let x ← op.apply a b
  return .number x

/-- Arithmetic on `a` and `b`, where `b` has a default in the data. -/
def math : NodeType where
  name := "math"
  metadata := ⟨"Math", "transform", "Arithmetic on two numbers"⟩
  schema :=
    ((Schema.plain.field "operation" .string (.string "add")).field "b" .number
      (.ofUInt32 0)).checkedBy validateMath
  handles := fun data =>
    let b := ((data.field? "b").bind Json.float?).getD 0.0
    { inputs := [.required "a" .number,
        { Handle.optional "b" .number with default := some (.number b) }]
      outputs := [.unnamedOutput .number] }
  create := fun data => do
    let name ← textField data "operation"
    match MathOperation.parse name with
    | none => .error (.invalidData "operation" s!"unknown operation '{name}'")
    | some op => return ⟨"math", fun ctx => .ofValue ctx (calculate op ctx)⟩

end FlowGraph.Standard
