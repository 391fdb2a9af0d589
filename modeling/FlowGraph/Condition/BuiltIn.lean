import FlowGraph.Condition.Eval
import FlowGraph.Condition.Language

/-!
The language of conditions that comes with the library. It stands in for a scripting language: it has
the expressions that conditions are commonly written with, and of the functions only a few.
-/

namespace FlowGraph.Condition

/-- Expressions of two variables, the input value and the variables of the run. -/
def builtIn : Language where
  Expr := Expr
  Scope := Scope
  parse text :=
    match Expr.parse text with
    | some e => .ok e.simplify
    | none => .error "syntax error"
  scope input store := .ok (.ofRun input store)
  holds e s :=
    match e.holds s with
    | .ok (b, s') => (.ok b, s')
    | .error e => (.error e.message, s)

end FlowGraph.Condition
