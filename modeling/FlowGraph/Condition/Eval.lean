import FlowGraph.Condition.Simplify

/-!
The value of a condition expression in a scope of two variables, `value` and `variables`.

An expression may change its scope: a method that takes something away from its receiver takes it
from the variable that the receiver is part of. So evaluation gives the scope after it along with the
value, and operands are evaluated one after the other, each in the scope that the one before left.
-/

namespace FlowGraph.Condition

/-- The variables that an expression can see. -/
structure Scope where
  value : Datum
  store : Datum

namespace Scope

/-- The scope of an input value and the variables of a run. -/
def ofRun (input : Value) (store : Dict Value) : Scope :=
  ⟨.ofValue input, .ofValue (.object store)⟩

def get? (s : Scope) (name : String) : Option Datum :=
  if name = "value" then some s.value
  else if name = "variables" then some s.store
  else none

/-- The scope with a variable changed. -/
def set (s : Scope) (name : String) (d : Datum) : Scope :=
  if name = "value" then { s with value := d }
  else if name = "variables" then { s with store := d }
  else s

end Scope

/-- Whether the second list occurs within the first. -/
def hasInfix (cs part : List Char) : Bool :=
  (List.range (cs.length + 1)).any fun i => part.isPrefixOf (cs.drop i)

/-- Whether a container holds a datum: an array an item, a text a part, a map a key, a range an
integer. -/
def holds (container item : Datum) : Except EvalError Bool :=
  match container, item with
  | .array items, item => .ok (items.any (·.beq item))
  | .text s, .text part => .ok (hasInfix s.toList part.toList)
  | .text s, .char c => .ok (s.toList.contains c)
  | .map fields, .text key => .ok (Dict.contains fields key)
  | .range first last closed, .int n =>
    .ok (decide (first ≤ n) && decide (n < last) || closed && n == last && decide (first ≤ n))
  | _, _ => .error .functionNotFound

/-- The number of items, characters or fields. -/
def size? : Datum → Option Nat
  | .text s => some s.length
  | .array items => some items.length
  | .map fields => some fields.length
  | _ => none

/-- Whether there is nothing in a container; a range holds something from its first integer on. -/
def isEmpty? : Datum → Option Bool
  | .range first last closed => some (if closed then decide (last < first) else decide (last ≤ first))
  | d => (size? d).map (· == 0)

/-- Takes the last item or character away: the part taken, and what is left. -/
def pop? : Datum → Option (Datum × Datum)
  | .array items =>
    match items.getLast? with
    | some d => some (d, .array items.dropLast)
    | none => some (.unit, .array [])
  | .text s =>
    match s.toList.getLast? with
    | some c => some (.char c, .text (String.ofList s.toList.dropLast))
    | none => some (.unit, .text "")
  | _ => none

/-- Calls a function on its receiver: the result, and the receiver after the call. -/
def callOn (name : String) (receiver : Datum) (args : List Datum) :
    Except EvalError (Datum × Datum) :=
  match name, args with
  | "len", [] =>
    match size? receiver with
    | some n => .ok (.int n, receiver)
    | none => .error .functionNotFound
  | "is_empty", [] =>
    match isEmpty? receiver with
    | some b => .ok (.bool b, receiver)
    | none => .error .functionNotFound
  | "type_of", [] => .ok (.text receiver.typeName, receiver)
  | "pop", [] =>
    match pop? receiver with
    | some (taken, left) => .ok (taken, left)
    | none => .error .functionNotFound
  | "contains", [item] => do
    let found ← holds receiver item
    return (.bool found, receiver)
  | "starts_with", [part] =>
    match receiver, part.chars? with
    | .text s, some part => .ok (.bool (part.isPrefixOf s.toList), receiver)
    | _, _ => .error .functionNotFound
  | "ends_with", [part] =>
    match receiver, part.chars? with
    | .text s, some part => .ok (.bool (part.isSuffixOf s.toList), receiver)
    | _, _ => .error .functionNotFound
  | _, _ => .error .functionNotFound

/-- A link whose arguments have been evaluated. -/
inductive Step where
  | property (guarded : Bool) (name : String)
  | index (guarded : Bool) (i : Datum)
  | method (guarded : Bool) (name : String) (args : List Datum)

/-- The property of a datum that is no map. -/
def propertyOf (d : Datum) (name : String) : Except EvalError Datum :=
  match d with
  | .text _ | .array _ | .range _ _ _ =>
    if name = "len" ∨ name = "is_empty" then
      match callOn name d [] with
      | .ok (result, _) => .ok result
      | .error _ => .error .unknownProperty
    else .error .unknownProperty
  | _ => .error .unknownProperty

/-- Follows the links from a datum: the datum at their end, and the first datum after that. -/
def follow : Datum → List Step → Except EvalError (Datum × Datum)
  | d, [] => .ok (d, d)
  | d, step :: steps =>
    match d, step with
    | .unit, .property true _ | .unit, .index true _ | .unit, .method true _ _ => .ok (.unit, .unit)
    | .map fields, .property _ name | .map fields, .index _ (.text name) =>
      match Dict.get? fields name with
      | some inner => do
        let (result, inner) ← follow inner steps
        return (result, .map (Dict.insert fields name inner))
      | none => do
        let (result, _) ← follow .unit steps
        return (result, d)
    | d, .property _ name => do
      let inner ← propertyOf d name
      let (result, _) ← follow inner steps
      return (result, d)
    | .array items, .index _ (.int n) =>
      match placeOf items.length n with
      | some place => do
        let (result, inner) ← follow (items.getD place .unit) steps
        return (result, .array (items.set place inner))
      | none => .error (.arrayIndex n)
    | .text s, .index _ (.int n) =>
      match placeOf s.length n with
      | some place => do
        let (result, _) ← follow (.char (s.toList.getD place ' ')) steps
        return (result, d)
      | none => .error (.stringIndex n)
    | .int bits, .index _ (.int n) =>
      match placeOf 64 n with
      | some place => do
        let (result, _) ← follow (.bool (bitOf bits place)) steps
        return (result, d)
      | none => .error (.bitIndex n)
    | .array _, .index _ _ | .map _, .index _ _ | .text _, .index _ _ | .int _, .index _ _ =>
      .error .dataType
    | _, .index _ _ => .error .indexerUnavailable
    | d, .method _ name args => do
      let (value, d) ← callOn name d args
      let (result, _) ← follow value steps
      return (result, d)

/-- The truth value of a datum, or an error if it has none. -/
def truth (error : EvalError) : Datum → Except EvalError Bool
  | .bool b => .ok b
  | _ => .error error

namespace Expr

mutual

/-- The value of an expression in a scope, and the scope after it. A call takes its first argument
last if that is a variable, because the call may change it. -/
def eval : Expr → Scope → Except EvalError (Datum × Scope)
  | literal d, s => .ok (d, s)
  | array items, s => do
    let (ds, s) ← evalItems items s
    return (.array ds, s)
  | map fields, s => do
    let (fs, s) ← evalFields fields s
    return (.map (fs.foldl (fun m f => Dict.insert m f.1 f.2) []), s)
  | .variable name, s =>
    match s.get? name with
    | some d => .ok (d, s)
    | none => .error .variableNotFound
  | function captured, s =>
    if captured.all fun name => (s.get? name).isSome then .ok (.function, s)
    else .error .variableNotFound
  | call name (.variable v :: args), s => do
    let (ds, s) ← evalItems args s
    match s.get? v with
    | none => .error .variableNotFound
    | some receiver =>
      let (result, receiver) ← callOn name receiver ds
      return (result, s.set v receiver)
  | call name args, s => do
    let (ds, s) ← evalItems args s
    match ds with
    | [] => .error .functionNotFound
    | receiver :: ds =>
      let (result, _) ← callOn name receiver ds
      return (result, s)
  | unary op e, s => do
    let (d, s) ← e.eval s
    let result ← op.apply d
    return (result, s)
  | binary op a b, s => do
    let (x, s) ← a.eval s
    let (y, s) ← b.eval s
    let result ← op.apply x y
    return (result, s)
  | and a b, s => do
    let (x, s) ← a.eval s
    if ← truth .dataType x then
      let (y, s) ← b.eval s
      let result ← truth .dataType y
      return (.bool result, s)
    else return (.bool false, s)
  | or a b, s => do
    let (x, s) ← a.eval s
    if ← truth .dataType x then return (.bool true, s)
    else
      let (y, s) ← b.eval s
      let result ← truth .dataType y
      return (.bool result, s)
  | orElse a b, s => do
    let (x, s) ← a.eval s
    match x with
    | .unit => b.eval s
    | x => return (x, s)
  | choice test yes no, s => do
    let (x, s) ← test.eval s
    if ← truth .dataType x then yes.eval s else no.eval s
  | chain (.variable v) links, s => do
    let (steps, s) ← evalLinks links s
    match s.get? v with
    | none => .error .variableNotFound
    | some d =>
      let (result, d) ← follow d steps
      return (result, s.set v d)
  | chain root links, s => do
    let (steps, s) ← evalLinks links s
    let (d, s) ← root.eval s
    let (result, _) ← follow d steps
    return (result, s)

def evalItems : List Expr → Scope → Except EvalError (List Datum × Scope)
  | [], s => .ok ([], s)
  | e :: es, s => do
    let (d, s) ← e.eval s
    let (ds, s) ← evalItems es s
    return (d :: ds, s)

def evalFields : List (String × Expr) → Scope → Except EvalError (List (String × Datum) × Scope)
  | [], s => .ok ([], s)
  | (k, e) :: fs, s => do
    let (d, s) ← e.eval s
    let (ds, s) ← evalFields fs s
    return ((k, d) :: ds, s)

def evalLinks : List Link → Scope → Except EvalError (List Step × Scope)
  | [], s => .ok ([], s)
  | .property guarded name :: ls, s => do
    let (steps, s) ← evalLinks ls s
    return (.property guarded name :: steps, s)
  | .index guarded e :: ls, s => do
    let (d, s) ← e.eval s
    let (steps, s) ← evalLinks ls s
    return (.index guarded d :: steps, s)
  | .method guarded name args :: ls, s => do
    let (ds, s) ← evalItems args s
    let (steps, s) ← evalLinks ls s
    return (.method guarded name ds :: steps, s)

end

/-- Whether a condition holds, and the scope after it. -/
def holds (e : Expr) (s : Scope) : Except EvalError (Bool × Scope) := do
  let (d, s) ← e.eval s
  let b ← truth .outputType d
  return (b, s)

end Expr

end FlowGraph.Condition
