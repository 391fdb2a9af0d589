import FlowGraph.Json.Decode

/-!
Notices, the messages of a run for its user, and the filter that decides which of them are shown.
-/

namespace FlowGraph

/-- How grave a notice is, from the least to the gravest. -/
inductive Level where
  | info
  | success
  | warning
  | error
deriving DecidableEq, Repr, Inhabited

namespace Level

def name : Level → String
  | info => "info"
  | success => "success"
  | warning => "warning"
  | error => "error"

def all : List Level := [info, success, warning, error]

/-- The place of the level among all levels. -/
def rank : Level → Nat
  | info => 0
  | success => 1
  | warning => 2
  | error => 3

def reader : Reader Level := .variant (all.map fun l => (l.name, l))

end Level

structure Notice where
  level : Level
  category : String
  message : String
deriving DecidableEq, Repr, Inhabited

namespace Notice

def toJson (n : Notice) : Json :=
  .object [("level", .string n.level.name), ("category", .string n.category),
    ("message", .string n.message)]

def record : Record Notice where
  name := "Notice"
  fields := [
    .needed "level" Level.reader fun level n => { n with level },
    .needed "category" .string fun category n => { n with category },
    .needed "message" .string fun message n => { n with message }]
  initial := ⟨.info, "", ""⟩

end Notice

/-- Which notices are shown: those of at least some level whose category is not suppressed. The
suppressed categories stand in order, each once. -/
structure NoticeFilter where
  minLevel : Level := .info
  suppressed : List String := []
deriving DecidableEq, Repr, Inhabited

namespace NoticeFilter

/-- Whether a notice is shown. -/
def allows (f : NoticeFilter) (n : Notice) : Bool :=
  f.minLevel.rank ≤ n.level.rank && !f.suppressed.contains n.category

def toJson (f : NoticeFilter) : Json :=
  .object [("min_level", .string f.minLevel.name),
    ("suppressed_categories", .array (f.suppressed.map .string))]

def record : Record NoticeFilter where
  name := "NoticeFilterConfig"
  fields := [
    .withDefault "min_level" Level.reader fun minLevel f => { f with minLevel },
    .withDefault "suppressed_categories" (.list .string) fun categories f =>
      { f with suppressed := Dict.distinct categories }]
  initial := {}

end NoticeFilter

end FlowGraph
