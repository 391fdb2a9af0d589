import FlowGraph.Value

/-!
What an `if` node needs of the language in which its conditions are written. The language itself is
given from outside: nothing is known of its expressions but that whether one holds follows from the
scope that it is evaluated in, and that it may change this scope.
-/

namespace FlowGraph.Condition

/-- A language of conditions. -/
structure Language where
  /-- An expression that has been read. -/
  Expr : Type
  /-- What the conditions of one visit see, and may change. -/
  Scope : Type
  /-- Reads an expression, or says why the text is none. -/
  parse : String → Except String Expr
  /-- The scope of an input value and the variables of a run, or why they have none. -/
  scope : Value → Dict Value → Except String Scope
  /-- Whether an expression holds, or why it has no truth value; and the scope after it. -/
  holds : Expr → Scope → Except String Bool × Scope

end FlowGraph.Condition
