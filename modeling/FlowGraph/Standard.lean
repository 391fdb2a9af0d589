import FlowGraph.Condition.BuiltIn
import FlowGraph.Http.Offline
import FlowGraph.Registry
import FlowGraph.Standard.Arithmetic
import FlowGraph.Standard.Branching
import FlowGraph.Standard.Control
import FlowGraph.Standard.Effects
import FlowGraph.Standard.Values

/-!
The standard node types, in the order in which they are registered, and the registry of all of them. Two
of them rest on something from outside: the language of conditions, and the client that sends requests.
-/

namespace FlowGraph.Standard

/-- What the standard nodes take from outside. -/
structure Libraries where
  language : Condition.Language
  client : Http.Client

/-- What they take where nothing else is there. -/
def Libraries.builtIn : Libraries := ⟨Condition.builtIn, .offline⟩

/-- The standard node types over given libraries. -/
def typesWith (lib : Libraries) : List NodeType :=
  [start, ifElse lib.language, forEach, breakLoop, continueLoop, finish, group, note, constantString,
    constantNumber, constantBoolean, constantJson, jsonParse, jsonStringify, math, merge,
    getVariable, setVariable, log, delay, httpRequest lib.client]

/-- The registry of the standard node types over given libraries. -/
def registryWith (lib : Libraries) : Registry :=
  (Registry.registerAll {} (typesWith lib)).1

def all : List NodeType := typesWith .builtIn

/-- The registry of the standard node types. -/
def registry : Registry := registryWith .builtIn

end FlowGraph.Standard
