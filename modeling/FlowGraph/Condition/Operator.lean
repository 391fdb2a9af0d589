import FlowGraph.Condition.Shown
import FlowGraph.Decimal.Remainder

/-!
The operators of condition expressions.

Integers and floating-point numbers mix freely. Integers do not wrap: a result out of range is an
error. Floating-point numbers that differ by no more than the gap between 1 and the next number,
measured against the greater of the two if that is beyond 1, count as equal, and then neither is
greater; an infinity is neither equal to nor greater than any number. Two data of different types are
unequal and neither is less than the other, except that a character counts as a text of one
character.

Most pairs of data have their operators from `BinaryOp.basic?`; what joins texts, arrays and maps or
compares arrays and maps is in `BinaryOp.apply`.
-/

namespace FlowGraph.Condition

/-- A binary operator that evaluates both its operands. -/
inductive BinaryOp where
  | eq
  | ne
  | lt
  | le
  | gt
  | ge
  | add
  | sub
  | mul
  | div
  | mod
  | pow
  | shiftLeft
  | shiftRight
  | both
  | either
  | exclusive
  | upTo
  | through
deriving DecidableEq, Repr

inductive UnaryOp where
  | neg
  | plus
  | not
deriving DecidableEq, Repr

/-- The gap between 1 and the next floating-point number. -/
def epsilon : Float := Float.ofBits 0x3CB0000000000000

/-- How far the first number is above the second, in units of the greater of the two; numbers up to 1
are measured in units of 1. It is no number if one of the two is infinite. -/
def excess (x y : Float) : Float :=
  let greater := if x.abs < y.abs then y.abs else x.abs
  (x - y) / (if greater < 1.0 then 1.0 else greater)

/-- A comparison of floating-point numbers. -/
def BinaryOp.compareFloats? (x y : Float) : BinaryOp → Option Bool
  | eq => some ((excess x y).abs ≤ epsilon)
  | ne => some (epsilon < (excess x y).abs)
  | gt => some (epsilon < excess x y)
  | ge => some (-epsilon < excess x y)
  | lt => some (epsilon < excess y x)
  | le => some (-epsilon < excess y x)
  | _ => none

/-- A comparison of two data of an ordered type. -/
def BinaryOp.ofOrdering? (o : Ordering) : BinaryOp → Option Bool
  | eq => some (o == .eq)
  | ne => some (o != .eq)
  | gt => some (o == .gt)
  | ge => some (o != .lt)
  | lt => some (o == .lt)
  | le => some (o != .gt)
  | _ => none

/-- A comparison of two data whose types have nothing in common. -/
def BinaryOp.compareUnlike? : BinaryOp → Option Bool
  | eq | lt | le | gt | ge => some false
  | ne => some true
  | _ => none

/-- Which of two lists of characters comes first. -/
def orderOf (s t : List Char) : Ordering :=
  if s < t then .lt else if s = t then .eq else .gt

/-- An integer has 64 bits. -/
def fits (n : Int) : Bool :=
  -0x8000000000000000 ≤ n && n < 0x8000000000000000

def checked (error : EvalError) (n : Int) : Except EvalError Datum :=
  if fits n then .ok (.int n) else .error error

/-- Division of integers, towards zero. -/
def divInts (a b : Int) : Except EvalError Datum :=
  if b = 0 then .error .divisionByZero else checked .divisionOverflow (a.tdiv b)

/-- The remainder of the division of integers. -/
def modInts (a b : Int) : Except EvalError Datum :=
  if b = 0 ∨ (b = -1 ∧ a = -0x8000000000000000) then .error .modulo else .ok (.int (a.tmod b))

/-- A power of integers. Powers of 0, 1 and -1 repeat, and any other base is out of range from the
64th power on. -/
def powInts (a b : Int) : Except EvalError Datum :=
  if b < 0 then .error .negativePower
  else if b < 64 then checked .powerOverflow (.pow a b.toNat)
  else if 0xFFFFFFFF < b then .error .powerOverflow
  else if a.natAbs < 2 then .ok (.int (if a = -1 ∧ b.tmod 2 = 0 then 1 else a))
  else .error .powerOverflow

def toBits (n : Int) : BitVec 64 := .ofInt 64 n

/-- The bits shifted to the left, or to the right if the distance is negative. -/
def shiftInts (a b : Int) : Int :=
  if 64 ≤ b then 0
  else if 0 ≤ b then ((toBits a) <<< b.toNat).toInt
  else a >>> (min 64 b.natAbs)

def BinaryOp.onInts? (a b : Int) : BinaryOp → Option (Except EvalError Datum)
  | add => some (checked .additionOverflow (a + b))
  | sub => some (checked .subtractionOverflow (a - b))
  | mul => some (checked .multiplicationOverflow (a * b))
  | div => some (divInts a b)
  | mod => some (modInts a b)
  | pow => some (powInts a b)
  | shiftLeft => some (.ok (.int (shiftInts a b)))
  | shiftRight => some (.ok (.int (shiftInts a (-b))))
  | both => some (.ok (.int (toBits a &&& toBits b).toInt))
  | either => some (.ok (.int (toBits a ||| toBits b).toInt))
  | exclusive => some (.ok (.int (toBits a ^^^ toBits b).toInt))
  | upTo => some (.ok (.range a b false))
  | through => some (.ok (.range a b true))
  | op => (op.ofOrdering? (compare a b)).map fun r => .ok (.bool r)

/-- An operator on two numbers that are not both integers. -/
def BinaryOp.onFloats? (x y : Float) : BinaryOp → Option (Except EvalError Datum)
  | add => some (.ok (.float (x + y)))
  | sub => some (.ok (.float (x - y)))
  | mul => some (.ok (.float (x * y)))
  | div => some (.ok (.float (x / y)))
  | mod => some (.ok (.float (Decimal.remainder x y)))
  | pow => some (.ok (.float (x.pow y)))
  | op => (op.compareFloats? x y).map fun r => .ok (.bool r)

def BinaryOp.onBools? (a b : Bool) : BinaryOp → Option (Except EvalError Datum)
  | both => some (.ok (.bool (a && b)))
  | either => some (.ok (.bool (a || b)))
  | exclusive => some (.ok (.bool (a != b)))
  | op => (op.ofOrdering? (compare a.toNat b.toNat)).map fun r => .ok (.bool r)

/-- The characters without those of the second list, from left to right wherever it occurs. -/
def removeInfix (part : List Char) : Nat → List Char → List Char
  | _, [] => []
  | 0, c :: cs =>
    if part.isPrefixOf (c :: cs) then removeInfix part (part.length - 1) cs
    else c :: removeInfix part 0 cs
  | skip + 1, _ :: cs => removeInfix part skip cs

/-- A text without every occurrence of another one. If one of the two is empty the other remains. -/
def withoutText (s t : List Char) : List Char :=
  if t.isEmpty then s else if s.isEmpty then t else removeInfix t 0 s

/-- An operator on two texts or characters. -/
def BinaryOp.onTexts? (a b : Datum) (s t : List Char) :
    BinaryOp → Option (Except EvalError Datum)
  | add => some (.ok (.text (String.ofList (s ++ t))))
  | sub =>
    match a, b with
    | .text _, .text _ => some (.ok (.text (String.ofList (withoutText s t))))
    | .text _, .char c => some (.ok (.text (String.ofList (s.filter (· != c)))))
    | _, _ => none
  | op => (op.ofOrdering? (orderOf s t)).map fun r => .ok (.bool r)

/-- The value of an operator on two data that are not both arrays, maps or functions, if it is one
of those that need no more than the two data. -/
def BinaryOp.basic? (op : BinaryOp) (a b : Datum) : Option (Except EvalError Datum) :=
  match a, b with
  | .int m, .int n => op.onInts? m n
  | .bool x, .bool y => op.onBools? x y
  | .unit, .unit => if op = eq then some (.ok (.bool true)) else
    (op.compareUnlike?).map fun _ => .ok (.bool false)
  | .array _, .array _ | .map _, .map _ | .function, .function => none
  | .range f l c, .range g m d =>
    if op = eq then some (.ok (.bool (f == g && l == m && c == d)))
    else if op = ne then some (.ok (.bool !(f == g && l == m && c == d)))
    else none
  | a, b =>
    match a.float?, b.float? with
    | some x, some y => op.onFloats? x y
    | _, _ =>
      match a.chars?, b.chars? with
      | some s, some t => op.onTexts? a b s t
      | _, _ => op.compareUnlike?.map fun r => .ok (.bool r)

namespace Datum

mutual

def beq : Datum → Datum → Bool
  | .array as, .array bs => beqItems as bs
  | .map as, .map bs => as.length == bs.length && beqFields as bs
  | a, b =>
    match BinaryOp.eq.basic? a b with
    | some (.ok (.bool r)) => r
    | _ => false

def beqItems : List Datum → List Datum → Bool
  | [], [] => true
  | a :: as, b :: bs => beq a b && beqItems as bs
  | _, _ => false

/-- Whether the second map has an equal value under every key of the first. -/
def beqFields : List (String × Datum) → List (String × Datum) → Bool
  | [], _ => true
  | (k, a) :: as, bs =>
    (match Dict.get? bs k with
      | some b => beq a b
      | none => false) && beqFields as bs

end

def isText : Datum → Bool
  | .text _ => true
  | _ => false

/-- Joins a text and another datum, two arrays or two maps; a field of the second map replaces one of
the first. -/
def join (a b : Datum) : Except EvalError Datum :=
  match a, b with
  | .array xs, .array ys => .ok (.array (xs ++ ys))
  | .map fs, .map gs => .ok (.map (gs.foldl (fun m g => Dict.insert m g.1 g.2) fs))
  | a, b =>
    if a.isText || b.isText then .ok (.text (a.shown ++ b.shown))
    else .error .functionNotFound

end Datum

def BinaryOp.apply (op : BinaryOp) (a b : Datum) : Except EvalError Datum :=
  match op.basic? a b with
  | some result => result
  | none =>
    match op, a, b with
    | add, a, b => a.join b
    | eq, .array _, .array _ | eq, .map _, .map _ => .ok (.bool (a.beq b))
    | ne, .array _, .array _ | ne, .map _, .map _ => .ok (.bool !(a.beq b))
    | _, _, _ => .error .functionNotFound

def UnaryOp.apply : UnaryOp → Datum → Except EvalError Datum
  | neg, .int n => checked .negationOverflow (-n)
  | neg, .float x => .ok (.float (-x))
  | plus, .int n => .ok (.int n)
  | plus, .float x => .ok (.float x)
  | not, .bool b => .ok (.bool !b)
  | _, _ => .error .functionNotFound

end FlowGraph.Condition
