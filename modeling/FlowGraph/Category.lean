/-!
The categories of values that handles carry.
-/

namespace FlowGraph

/-- What kind of value a handle carries. -/
inductive Category where
  | any
  | text
  | number
  | boolean
  | object
  | array
deriving DecidableEq, Repr, Inhabited

namespace Category

def name : Category → String
  | any => "any"
  | text => "text"
  | number => "number"
  | boolean => "boolean"
  | object => "object"
  | array => "array"

def all : List Category := [any, text, number, boolean, object, array]

/-- Whether an edge may join two handles: `any` goes with everything, every other category only with
itself. -/
def isCompatible (a b : Category) : Bool :=
  a == any || b == any || a == b

end Category

end FlowGraph
