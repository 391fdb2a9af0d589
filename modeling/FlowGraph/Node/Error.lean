/-!
Why a visit of a node fails.
-/

namespace FlowGraph

/-- Why a visit of a node fails, or an executor cannot be made. -/
inductive NodeError where
  | missingInput (name : String)
  | invalidInputType (field expected actual : String)
  | invalidData (field reason : String)
  | configuration (reason : String)
  | evaluation (reason : String)
  | executionFailed (reason : String)
  | timeout (millis : Nat)
  | cancelled
deriving DecidableEq, Repr

def NodeError.message : NodeError → String
  | missingInput name => s!"Missing required input: {name}"
  | invalidInputType field expected actual =>
    s!"Invalid input type for '{field}': expected {expected}, got {actual}"
  | invalidData field reason => s!"Invalid data field '{field}': {reason}"
  | configuration reason => s!"Configuration error: {reason}"
  | evaluation reason => s!"Condition evaluation failed: {reason}"
  | executionFailed reason => s!"Execution failed: {reason}"
  | timeout millis => s!"Timeout after {millis}ms"
  | cancelled => "Cancelled"

end FlowGraph
