import FlowGraph.Condition.Expr

/-!
Expressions with their constant parts worked out.

A part that needs no variable is replaced by its value, unless working it out fails; and `&&` and `||`
drop an operand that does not matter. So `true && e` is `e` even if `e` has no truth value, and an item
that is taken out of an array that is written out saves the other items from being looked at.
-/

namespace FlowGraph.Condition

/-- The place of an index in a list; a negative one counts from the end. -/
def placeOf (length : Nat) (i : Int) : Option Nat :=
  let place := if i < 0 then (length : Int) + i else i
  if 0 ≤ place ∧ place < length then some place.toNat else none

def bitOf (n : Int) (place : Nat) : Bool :=
  (toBits n).getLsbD place

namespace Expr

/-- The value of an expression that is written out. -/
def literal? : Expr → Option Datum
  | literal d => some d
  | _ => none

/-- Whether an expression has no effect and is cheap to drop. -/
def isPlain : Expr → Bool
  | literal _ | .variable _ => true
  | _ => false

def ofItems (items : List Expr) : Expr :=
  match items.mapM literal? with
  | some ds => literal (.array ds)
  | none => array items

def ofFields (fields : List (String × Expr)) : Expr :=
  match fields.mapM fun f => f.2.literal?.map (f.1, ·) with
  | some ds => literal (.map (ds.foldl (fun m f => Dict.insert m f.1 f.2) []))
  | none => map fields

/-- A binary operator whose operands have been simplified. -/
def ofOperands (op : BinaryOp) (a b : Expr) : Expr :=
  match a, b with
  | literal x, literal y =>
    match op.basic? x y with
    | some (.ok d) => literal d
    | _ => binary op a b
  | a, b => binary op a b

/-- A conjunction whose operands have been simplified. -/
def ofAnd : Expr → Expr → Expr
  | literal (.bool true), b => b
  | literal (.bool false), _ => literal (.bool false)
  | a, literal (.bool true) => a
  | a, b => and a b

/-- A disjunction whose operands have been simplified. -/
def ofOr : Expr → Expr → Expr
  | literal (.bool false), b => b
  | literal (.bool true), _ => literal (.bool true)
  | a, literal (.bool false) => a
  | a, b => or a b

/-- A call whose arguments have been simplified. -/
def ofCall : String → List Expr → Expr
  | "type_of", [literal d] => literal (.text d.typeName)
  | name, args => call name args

/-- The item, character or bit of an expression that is written out. -/
def itemAt? (root : Expr) (i : Int) : Option Expr :=
  match root with
  | array items =>
    if items.all isPlain then (placeOf items.length i).bind fun place => items[place]? else none
  | literal (.array items) =>
    (placeOf items.length i).bind fun place => (items[place]?).map literal
  | literal (.text s) =>
    (placeOf s.length i).bind fun place => (s.toList[place]?).map fun c => literal (.char c)
  | literal (.int n) => (placeOf 64 i).map fun place => literal (.bool (bitOf n place))
  | _ => none

def ofLinks (root : Expr) (links : List Link) : Expr :=
  match links with
  | [.index _ (literal (.int i))] => (root.itemAt? i).getD (chain root links)
  | [.method _ "type_of" []] =>
    match root with
    | literal d => literal (.text d.typeName)
    | root => chain root links
  | links => chain root links

mutual

/-- The expression with its constant parts worked out. -/
def simplify : Expr → Expr
  | literal d => literal d
  | array items => ofItems (simplifyItems items)
  | map fields => ofFields (simplifyFields fields)
  | .variable name => .variable name
  | function captured => function captured
  | call name args => ofCall name (simplifyItems args)
  | unary op e => unary op e.simplify
  | binary op a b => ofOperands op a.simplify b.simplify
  | and a b => ofAnd a.simplify b.simplify
  | or a b => ofOr a.simplify b.simplify
  | orElse a b => orElse a.simplify b.simplify
  | choice test yes no => choice test.simplify yes.simplify no.simplify
  | chain root links => ofLinks root.simplify (simplifyLinks links)

def simplifyItems : List Expr → List Expr
  | [] => []
  | e :: es => e.simplify :: simplifyItems es

def simplifyFields : List (String × Expr) → List (String × Expr)
  | [] => []
  | (k, e) :: fs => (k, e.simplify) :: simplifyFields fs

def simplifyLinks : List Link → List Link
  | [] => []
  | .property guarded name :: ls => .property guarded name :: simplifyLinks ls
  | .index guarded e :: ls => .index guarded e.simplify :: simplifyLinks ls
  | .method guarded name args :: ls =>
    .method guarded name (simplifyItems args) :: simplifyLinks ls

end

end Expr

end FlowGraph.Condition
