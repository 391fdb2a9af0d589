import FlowGraph.Condition.Operator
import FlowGraph.Condition.Token

/-!
Condition expressions, and how they are read from tokens.

The binary operators are, from the loosest to the tightest: `||`, `|` and `^`; `&&` and `&`; the
equalities; `in` and `!in`; the comparisons; `??`; the ranges; addition; multiplication; `**`; the
shifts. All but `**` group to the left. The unary operators bind tighter, and what follows a value
with a dot or in brackets tighter still.

The nesting of an expression is limited. Every expression within another one, every parenthesis,
every operator and everything that follows a value with a dot or in brackets takes levels of the
`room` that is left. An operator takes its level from the operators after it only, and a dot from all
that comes after it.
-/

namespace FlowGraph.Condition

mutual

inductive Expr where
  | literal (d : Datum)
  | array (items : List Expr)
  | map (fields : List (String × Expr))
  | variable (name : String)
  /-- A function, of which only the variables matter that it takes from its surroundings. -/
  | function (captured : List String)
  | call (name : String) (args : List Expr)
  | unary (op : UnaryOp) (e : Expr)
  | binary (op : BinaryOp) (a b : Expr)
  | and (a b : Expr)
  | or (a b : Expr)
  /-- The first expression unless it has no value, else the second one. -/
  | orElse (a b : Expr)
  | choice (test yes no : Expr)
  | chain (root : Expr) (links : List Link)

/-- What follows a value with a dot or in brackets. A `guarded` link and all links after it give
nothing when there is nothing for it to follow. -/
inductive Link where
  | property (guarded : Bool) (name : String)
  | index (guarded : Bool) (e : Expr)
  | method (guarded : Bool) (name : String) (args : List Expr)

end

instance : Inhabited Expr := ⟨.literal .unit⟩

namespace Expr

mutual

/-- The variables that an expression mentions. -/
def names : Expr → List String
  | literal _ => []
  | array items => namesOfItems items
  | map fields => namesOfFields fields
  | .variable name => [name]
  | function captured => captured
  | call _ args => namesOfItems args
  | unary _ e => e.names
  | binary _ a b | and a b | or a b | orElse a b => a.names ++ b.names
  | choice test yes no => test.names ++ yes.names ++ no.names
  | chain root links => root.names ++ namesOfLinks links

def namesOfItems : List Expr → List String
  | [] => []
  | e :: es => e.names ++ namesOfItems es

def namesOfFields : List (String × Expr) → List String
  | [] => []
  | (_, e) :: fs => e.names ++ namesOfFields fs

def namesOfLinks : List Link → List String
  | [] => []
  | .property _ _ :: ls => namesOfLinks ls
  | .index _ e :: ls => e.names ++ namesOfLinks ls
  | .method _ _ args :: ls => namesOfItems args ++ namesOfLinks ls

end

/-- Whether an expression may be an operand of `&&` and `||`: one that clearly is no truth value may
not. -/
def mayBeTruth : Expr → Bool
  | literal (.bool _) => true
  | literal _ | array _ | map _ => false
  | function captured => !captured.isEmpty
  | _ => true

/-- Whether an expression may be the first index of another one, which is checked only for arrays,
maps, texts and integers that are written out. -/
def mayIndex (root index : Expr) : Bool :=
  let isText := match index with
    | literal (.text _) => true
    | _ => false
  let isInt := match index with
    | literal (.int _) => true
    | _ => false
  let isNeither := match index with
    | literal (.text _) | literal (.int _) => false
    | literal _ | and _ _ | or _ _ => true
    | _ => false
  match root with
  | array _ | literal (.text _) | literal (.int _) => !isText && !isNeither
  | map _ => !isInt && !isNeither
  | _ => true

/-- The negative of an operand; that of a number is a number. -/
def negative : Expr → Expr
  | literal (.int n) =>
    if fits (-n) then literal (.int (-n)) else literal (.float (-(Number.intToFloat n)))
  | literal (.float x) => literal (.float (-x))
  | e => unary .neg e

/-- An operand with a plus sign; a number stays as it is. -/
def positive : Expr → Expr
  | literal (.int n) => literal (.int n)
  | literal (.float x) => literal (.float x)
  | e => unary .plus e

/-- An expression with the links that follow it. -/
def linked (root : Expr) (links : List Link) : Expr :=
  if links.isEmpty then root else chain root links

/-- The expressions of which a call does not change the first one, even if that is a variable. -/
def detached : List Expr → List Expr
  | .variable name :: es => chain (.variable name) [] :: es
  | es => es

end Expr

/-- What a binary operator builds of its operands. -/
inductive Joint where
  | apply (op : BinaryOp)
  | and
  | or
  | orElse
  | member (negated : Bool)

/-- How tightly a binary operator binds, and what it builds. -/
def binaryOperator? : Token → Option (Nat × Joint)
  | .symbol "||" => some (30, .or)
  | .symbol "|" => some (30, .apply .either)
  | .symbol "^" => some (30, .apply .exclusive)
  | .symbol "&&" => some (60, .and)
  | .symbol "&" => some (60, .apply .both)
  | .symbol "==" => some (90, .apply .eq)
  | .symbol "!=" => some (90, .apply .ne)
  | .word "in" => some (110, .member false)
  | .word "!in" => some (110, .member true)
  | .symbol "<" => some (130, .apply .lt)
  | .symbol "<=" => some (130, .apply .le)
  | .symbol ">" => some (130, .apply .gt)
  | .symbol ">=" => some (130, .apply .ge)
  | .symbol "??" => some (135, .orElse)
  | .symbol ".." => some (140, .apply .upTo)
  | .symbol "..=" => some (140, .apply .through)
  | .symbol "+" => some (150, .apply .add)
  | .symbol "-" => some (150, .apply .sub)
  | .symbol "*" => some (180, .apply .mul)
  | .symbol "/" => some (180, .apply .div)
  | .symbol "%" => some (180, .apply .mod)
  | .symbol "**" => some (190, .apply .pow)
  | .symbol "<<" => some (210, .apply .shiftLeft)
  | .symbol ">>" => some (210, .apply .shiftRight)
  | _ => none

/-- How tightly the operator at the head of the tokens binds; zero if there is none. -/
def bindingOf (ts : List Token) : Nat :=
  ((ts.head?.bind binaryOperator?).map (·.1)).getD 0

/-- Whether an operator that binds so tightly groups to the right. -/
def groupsRight (binding : Nat) : Bool :=
  binding == 190

/-- The tree of an operator and its operands, if these may be its operands. Membership is a call with
the container first. -/
def Joint.build? : Joint → Expr → Expr → Option Expr
  | apply op, a, b => some (.binary op a b)
  | and, a, b => if a.mayBeTruth && b.mayBeTruth then some (.and a b) else none
  | or, a, b => if a.mayBeTruth && b.mayBeTruth then some (.or a b) else none
  | orElse, a, b => some (.orElse a b)
  | member negated, a, b =>
    let found := .call "contains" [b, a]
    some (if negated then .unary .not found else found)

/-! ### From tokens to a tree -/

/-- The room one level deeper. -/
def deeper : Nat → Option Nat
  | 0 => none
  | room + 1 => some room

/-- The name that may follow a dot, and whether it has to be called. -/
def memberName? : Token → Option (String × Bool)
  | .name s => some (s, false)
  | .word s => if methodWords.contains s then some (s, true) else none
  | _ => none

/-- The tokens after a symbol, if they begin with it. -/
def after? (s : String) : List Token → Option (List Token)
  | .symbol t :: ts => if t = s then some ts else none
  | _ => none

/-- The parameters of a function, which are all different, and the tokens after them. The opening
bar has been read. -/
def parseParams : List String → List Token → Option (List String × List Token)
  | seen, .symbol "|" :: ts => some (seen, ts)
  | seen, .name s :: .symbol "," :: ts =>
    if seen.contains s then none else parseParams (s :: seen) ts
  | seen, .name s :: .symbol "|" :: ts => if seen.contains s then none else some (s :: seen, ts)
  | _, _ => none

/-- How deeply the body of a function may nest. -/
def bodyLimit : Nat := 32

mutual

/-- Reads an expression. `room` is how many levels of nesting are left, and `fuel` bounds the number
of calls. -/
def parseExpr : (fuel room : Nat) → List Token → Option (Expr × List Token)
  | 0, _, _ => none
  | fuel + 1, room, ts => do
    let room ← deeper room
    let (a, ts) ← parseUnary fuel room ts
    parseBinary fuel room 1 a ts

/-- Reads the operators that bind more tightly than `least`, and their right operands. -/
def parseBinary : (fuel room least : Nat) → Expr → List Token → Option (Expr × List Token)
  | 0, _, _, _, _ => none
  | _, _, _, a, [] => some (a, [])
  | fuel + 1, room, least, a, t :: rest =>
    match binaryOperator? t with
    | none => some (a, t :: rest)
    | some (binding, joint) =>
      if binding < least ∨ (binding = least ∧ !groupsRight binding) then some (a, t :: rest)
      else do
        let (b, rest) ← parseUnary fuel room rest
        let next := bindingOf rest
        let (b, rest) ←
          if binding < next ∨ (binding = next ∧ groupsRight binding) then
            parseBinary fuel room binding b rest
          else some (b, rest)
        let room ← deeper room
        let e ← joint.build? a b
        parseBinary fuel room least e rest

/-- Reads an operand with its unary operators. -/
def parseUnary : (fuel room : Nat) → List Token → Option (Expr × List Token)
  | 0, _, _ => none
  | fuel + 1, room, ts =>
    match ts with
    | .symbol "-" :: ts => do
      let (e, ts) ← parseUnary fuel (← deeper room) ts
      return (e.negative, ts)
    | .symbol "+" :: ts => do
      let (e, ts) ← parseUnary fuel (← deeper room) ts
      return (e.positive, ts)
    | .symbol "!" :: ts => do
      let (e, ts) ← parseUnary fuel (← deeper room) ts
      return (.unary .not e, ts)
    | ts => parsePrimary fuel room ts

/-- Reads an operand with the links that follow it. -/
def parsePrimary : (fuel room : Nat) → List Token → Option (Expr × List Token)
  | 0, _, _ | _, _, [] => none
  | fuel + 1, room, t :: ts =>
    match t with
    | .int n => parseLinks fuel room (.literal (.int n)) [] ts
    | .float x => parseLinks fuel room (.literal (.float x)) [] ts
    | .text s => parseLinks fuel room (.literal (.text s)) [] ts
    | .char c => parseLinks fuel room (.literal (.char c)) [] ts
    | .name s => parseLinks fuel room (.variable s) [] ts
    | .word "true" => parseLinks fuel room (.literal (.bool true)) [] ts
    | .word "false" => parseLinks fuel room (.literal (.bool false)) [] ts
    | .word "if" => do
      let (e, ts) ← parseChoice fuel (← deeper room) ts
      parseLinks fuel room e [] ts
    | .word s =>
      if callableWords.contains s ∧ ((after? "(" ts).isSome ∨ (after? "()" ts).isSome) then
        parseLinks fuel room (.variable s) [] ts
      else none
    | .symbol "()" => parseLinks fuel room (.literal .unit) [] ts
    | .symbol "(" =>
      match after? ")" ts with
      | some ts => parseLinks fuel room (.literal .unit) [] ts
      | none => do
        let (e, ts) ← parseExpr fuel (← deeper room) ts
        parseLinks fuel room e [] (← after? ")" ts)
    | .symbol "[" => do
      let (items, ts) ← parseList fuel (← deeper room) "]" ts
      parseLinks fuel room (.array items) [] ts
    | .symbol "#\x7b" => do
      let (fields, ts) ← parseFields fuel (← deeper room) [] ts
      parseLinks fuel room (.map fields) [] ts
    | .symbol "||" => do
      let (body, ts) ← parseExpr fuel bodyLimit ts
      parseLinks fuel room (.function body.names) [] ts
    | .symbol "|" => do
      let (params, ts) ← parseParams [] ts
      let (body, ts) ← parseExpr fuel bodyLimit ts
      parseLinks fuel room (.function (body.names.filter fun s => !params.contains s)) [] ts
    | .symbol _ => none

/-- Reads what follows the word `if`: a test, and blocks that hold one expression each. -/
def parseChoice : (fuel room : Nat) → List Token → Option (Expr × List Token)
  | 0, _, _ => none
  | fuel + 1, room, ts => do
    let room ← deeper room
    let (test, ts) ← parseExpr fuel room ts
    let (yes, ts) ← parseBlock fuel room ts
    if !test.mayBeTruth then none
    else
      match ts with
      | .word "else" :: .word "if" :: ts => do
        let (no, ts) ← parseChoice fuel room ts
        return (.choice test yes no, ts)
      | .word "else" :: ts => do
        let (no, ts) ← parseBlock fuel room ts
        return (.choice test yes no, ts)
      | ts => return (.choice test yes (.literal .unit), ts)

def parseBlock : (fuel room : Nat) → List Token → Option (Expr × List Token)
  | 0, _, _ => none
  | fuel + 1, room, ts => do
    let (e, ts) ← parseExpr fuel (← deeper room) (← after? "\x7b" ts)
    return (e, ← after? "\x7d" ts)

/-- Reads the links that follow a value, of which some have been read. -/
def parseLinks : (fuel room : Nat) → Expr → List Link → List Token → Option (Expr × List Token)
  | 0, _, _, _, _ => none
  | fuel + 1, room, root, links, ts =>
    match root, links, ts with
    | .variable f, [], .symbol "(" :: ts => do
      let (args, ts) ← parseList fuel room ")" ts
      parseLinks fuel room (.call f args) [] ts
    | .variable f, [], .symbol "()" :: ts => parseLinks fuel room (.call f []) [] ts
    | .variable f, [], .symbol "!" :: .symbol "(" :: ts => do
      let (args, ts) ← parseList fuel room ")" ts
      parseLinks fuel room (.call f (Expr.detached args)) [] ts
    | .variable f, [], .symbol "!" :: .symbol "()" :: ts => parseLinks fuel room (.call f []) [] ts
    | root, links, .symbol "." :: ts => parseMember fuel room root links false ts
    | root, links, .symbol "?." :: ts => parseMember fuel room root links true ts
    | root, links, .symbol "[" :: ts => do
      let (indices, ts) ← parseIndices fuel (← deeper room) false ts
      if links.isEmpty ∧ !(indices.head?.all fun i => root.mayIndex i.2) then none
      else parseLinks fuel room root (links ++ indices.map fun i => .index i.1 i.2) ts
    | root, links, .symbol "?[" :: ts => do
      let (indices, ts) ← parseIndices fuel (← deeper room) true ts
      if links.isEmpty ∧ !(indices.head?.all fun i => root.mayIndex i.2) then none
      else parseLinks fuel room root (links ++ indices.map fun i => .index i.1 i.2) ts
    | root, links, ts => some (root.linked links, ts)

/-- Reads the name after a dot, its arguments if it is called, and the links that follow. -/
def parseMember : (fuel room : Nat) → Expr → List Link → (guarded : Bool) → List Token →
    Option (Expr × List Token)
  | 0, _, _, _, _, _ | _, _, _, _, _, [] => none
  | fuel + 1, room, root, links, guarded, t :: ts => do
    let room ← deeper room
    let (name, called) ← memberName? t
    match ts with
    | .symbol "()" :: ts => parseLinks fuel room root (links ++ [.method guarded name []]) ts
    | .symbol "(" :: ts => do
      let (args, ts) ← parseList fuel room ")" ts
      parseLinks fuel room root (links ++ [.method guarded name args]) ts
    | ts =>
      if called then none else parseLinks fuel room root (links ++ [.property guarded name]) ts

/-- Reads indices in brackets that follow one another. The first opening bracket has been read. -/
def parseIndices : (fuel room : Nat) → (guarded : Bool) → List Token →
    Option (List (Bool × Expr) × List Token)
  | 0, _, _, _ => none
  | fuel + 1, room, guarded, ts => do
    let room ← deeper room
    let (i, ts) ← parseExpr fuel room ts
    match ← after? "]" ts with
    | .symbol "[" :: ts => do
      let (indices, ts) ← parseIndices fuel room false ts
      return ((guarded, i) :: indices, ts)
    | .symbol "?[" :: ts => do
      let (indices, ts) ← parseIndices fuel room true ts
      return ((guarded, i) :: indices, ts)
    | ts => return ([(guarded, i)], ts)

/-- Reads expressions between commas up to a closing symbol. There may be a comma before that. -/
def parseList : (fuel room : Nat) → (close : String) → List Token →
    Option (List Expr × List Token)
  | 0, _, _, _ => none
  | fuel + 1, room, close, ts =>
    match after? close ts with
    | some ts => some ([], ts)
    | none => do parseItems fuel (← deeper room) close ts

def parseItems : (fuel room : Nat) → (close : String) → List Token →
    Option (List Expr × List Token)
  | 0, _, _, _ => none
  | fuel + 1, room, close, ts => do
    let (e, ts) ← parseExpr fuel room ts
    match after? close ts with
    | some ts => return ([e], ts)
    | none =>
      let ts ← after? "," ts
      match after? close ts with
      | some ts => return ([e], ts)
      | none => do
        let (es, ts) ← parseItems fuel room close ts
        return (e :: es, ts)

/-- Reads the fields of a map; no two may have the same key. -/
def parseFields : (fuel room : Nat) → (seen : List String) → List Token →
    Option (List (String × Expr) × List Token)
  | 0, _, _, _ => none
  | _, _, _, .symbol "\x7d" :: ts => some ([], ts)
  | fuel + 1, room, seen, t :: ts => do
    let key ← match t with
      | .name s | .text s => some s
      | _ => none
    if seen.contains key then none
    else
      let (e, ts) ← parseExpr fuel (← deeper room) (← after? ":" ts)
      match after? "\x7d" ts with
      | some ts => return ([(key, e)], ts)
      | none => do
        let (fields, ts) ← parseFields fuel room (key :: seen) (← after? "," ts)
        return ((key, e) :: fields, ts)
  | _, _, _, [] => none

end

/-- How deeply an expression may nest. -/
def nestingLimit : Nat := 64

def Expr.parse (text : String) : Option Expr := do
  let cs := text.toList
  let ts ← tokens (cs.length + 1) true 0 cs
  let (e, rest) ← parseExpr (8 * ts.length + 16) nestingLimit ts
  if rest.isEmpty then return e else none

end FlowGraph.Condition
