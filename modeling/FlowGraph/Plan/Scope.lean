import FlowGraph.Plan.Members

/-!
How loops nest. Of two loops, either one lies in the body of the other together with its whole body,
or their bodies have nothing in common. Then the loops around a node form a chain, and the outer ones
are those with the larger bodies.
-/

namespace FlowGraph.TypedFlow

/-- Whether two loops overlap without the second one lying properly inside the first. -/
def improper (outer inner : LoopBody) : Bool :=
  if inner.id ∈ outer.body then
    outer.id ∈ inner.body || inner.body.any (· ∉ outer.body)
  else
    outer.body.any (· ∈ inner.body) && !(outer.id ∈ inner.body)

/-- All pairs of two loops, the first one varying last. -/
def loopPairs (loops : List LoopBody) : List (LoopBody × LoopBody) :=
  loops.flatMap fun outer => (loops.filter (·.id ≠ outer.id)).map fun inner => (outer, inner)

def checkNesting (loops : List LoopBody) : Except GraphError Unit :=
  match (loopPairs loops).find? fun p => improper p.1 p.2 with
  | some (outer, inner) => .error (.improperLoopNesting outer.id inner.id)
  | none => .ok ()

/-- Whether a loop comes before another one in a scope: loops with larger bodies come first, and of
two equally large ones the one with the lesser id. -/
def outerFirst (a b : LoopBody) : Bool :=
  b.body.length < a.body.length || (a.body.length == b.body.length && a.id ≤ b.id)

/-- Puts a loop into its place in a sorted list. -/
def insertLoop (l : LoopBody) : List LoopBody → List LoopBody
  | [] => [l]
  | m :: ms => if outerFirst l m then l :: m :: ms else m :: insertLoop l ms

/-- The loops, the outer ones first. -/
def sortLoops (loops : List LoopBody) : List LoopBody :=
  loops.foldr insertLoop []

/-- The loops around a node, the outermost one first. -/
def scopeOf (loops : List LoopBody) (id : String) : List String :=
  (sortLoops (loops.filter (id ∈ ·.body))).map (·.id)

/-- Checks that every back edge into a loop comes from a node for which the loop is the nearest one
around it. -/
def checkBackEdges (f : TypedFlow) (members : List String) (loops : List LoopBody) :
    Except GraphError Unit :=
  let backEdges := loops.flatMap fun l => (f.incoming l.id).filter f.isBackEdge
  let stray := backEdges.find? fun e =>
    !(e.source ∈ members && (scopeOf loops e.source).getLast? == some e.target)
  match stray with
  | some e =>
    .error (.invalidLoopEdge e.id
      s!"back edge into loop '{e.target}' must come from its own body")
  | none => .ok ()

/-- Checks that the nodes that end a loop or an iteration lie in the body of a loop. -/
def checkLoopControls (members : List TypedNode) (loops : List LoopBody) :
    Except GraphError Unit :=
  match members.find? fun n => n.kind = .loopControl ∧ scopeOf loops n.id = [] with
  | some n => .error (.loopControlOutsideLoop n.id)
  | none => .ok ()

end FlowGraph.TypedFlow
