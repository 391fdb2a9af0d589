import FlowGraph.Condition.Language
import FlowGraph.Node.Basic
import FlowGraph.Flow
import FlowGraph.Text.Quoted

/-!
The node type `if`. Its data lists conditions, each with an id and an expression. A node evaluates
them in their order and branches on the first one that holds, to the output with the id of that
condition; the output `false` is taken when none holds. The input value goes out as it came in.

All conditions of one visit share a scope, so what one of them takes away from a variable the next
ones do not see.
-/

namespace FlowGraph.Standard

open Condition

/-- The output that is taken when no condition holds. -/
def falseHandle : String := "false"

def ifType : String := "if"

def conditionsField : String := "conditions"

structure Authored where
  id : String
  expression : String
deriving DecidableEq, Repr

/-- A condition of the data, if it has an id and an expression. -/
def Authored.ofJson? (j : Json) : Option Authored := do
  let id ← (j.field? "id").bind Json.string?
  let expression ← (j.field? "expression").bind Json.string?
  return ⟨id, expression⟩

def Authored.toJson (c : Authored) : Json :=
  .object [("expression", .string c.expression), ("id", .string c.id)]

def conditionsOf (data : Json) : List Authored :=
  match (data.field? conditionsField).bind Json.items? with
  | some items => items.filterMap Authored.ofJson?
  | none => []

/-- Version 1 had one expression in the field `condition`, with the outputs `true` and `false`. -/
def migrateSingleCondition (payload : Dict Json) : Except String (Dict Json) :=
  let rest := Dict.erase payload "condition"
  match Dict.get? payload "condition" with
  | none | some .null => .ok (Dict.insert rest conditionsField (.array []))
  | some (.string expression) =>
    .ok (Dict.insert rest conditionsField (.array [Authored.toJson ⟨"true", expression⟩]))
  | some j => .error s!"condition must be a string, found {j.compact}"

/-- Every condition needs an id of its own that is neither empty nor the output for no condition;
`seen` are the ids of the conditions before. -/
def checkConditions (seen : List String) : List Json → Except FieldIssue Unit
  | [] => .ok ()
  | j :: js =>
    match Authored.ofJson? j with
    | none => .error ⟨conditionsField, "every condition needs a string id and expression"⟩
    | some c =>
      if c.id = "" ∨ c.id = falseHandle then
        .error ⟨conditionsField, s!"condition id {Text.quote c.id} is reserved"⟩
      else if c.id ∈ seen then
        .error ⟨conditionsField, s!"duplicate condition id '{c.id}'"⟩
      else checkConditions (c.id :: seen) js

def validateConditions (payload : Dict Json) : Except FieldIssue Unit :=
  match Dict.get? payload conditionsField with
  | some (.array items) => checkConditions [] items
  | _ => .error ⟨conditionsField, "expected an array"⟩

/-- The schema of the data of an `if` node. -/
def ifSchema : Schema :=
  (((Schema.ofVersion 2).field conditionsField .array (.array [])).migration 1
    migrateSingleCondition).checkedBy validateConditions

/-- A condition ready to be evaluated. -/
structure Compiled (language : Language) where
  id : String
  expression : language.Expr

/-- Reads the expressions of the conditions. -/
def compile (language : Language) : List Authored → Except NodeError (List (Compiled language))
  | [] => .ok []
  | c :: cs =>
    match language.parse c.expression with
    | .error e => .error (.invalidData conditionsField s!"condition '{c.id}' does not parse: {e}")
    | .ok expression => do
      let rest ← compile language cs
      return ⟨c.id, expression⟩ :: rest

variable {language : Language}

/-- The first condition that holds, if one does before one has no truth value. Each condition is
evaluated in the scope that the ones before left. -/
def firstHolding : List (Compiled language) → language.Scope → Except NodeError (Option String)
  | [], _ => .ok none
  | c :: cs, scope =>
    match language.holds c.expression scope with
    | (.error e, _) => .error (.evaluation s!"condition '{c.id}': {e}")
    | (.ok true, _) => .ok (some c.id)
    | (.ok false, scope) => firstHolding cs scope

/-- What an `if` node with the given conditions does. -/
def branchOn (conditions : List (Compiled language)) (ctx : Context) : Activity :=
  let value := ctx.mainOrNull
  match language.scope value ctx.store with
  | .error e => .ofResult ctx (.error (.evaluation e))
  | .ok scope =>
    match firstHolding conditions scope with
    | .error e => .ofResult ctx (.error e)
    | .ok chosen =>
      let handle := chosen.getD falseHandle
      .ofResult ctx (.ok (.branch handle [(handle, value)]))

/-- The handles of an `if` node: one output per condition, and the one for no condition. -/
def ifHandles (data : Json) : Handles where
  inputs := [.unnamed .any .optional]
  outputs := (conditionsOf data).map (fun c =>
      { Handle.output c.id .any with label := some c.expression }) ++
    [.output falseHandle .any]

/-- Branches on the first of its conditions that holds. -/
def ifElse (language : Language) : NodeType where
  name := ifType
  metadata := ⟨"If", "control", "Branch on the first condition that holds"⟩
  schema := ifSchema
  handles := ifHandles
  create := fun data => do
    let conditions ← compile language (conditionsOf data)
    return ⟨ifType, branchOn conditions⟩

/-- The conditions of a node while they are edited, with the source of their ids. -/
structure ConditionList where
  ids : IdSequence
  conditions : List Authored := []

namespace ConditionList

/-- The conditions of the data of a node. -/
def ofData (ids : IdSequence) (data : Json) : ConditionList :=
  ⟨ids, conditionsOf data⟩

/-- Adds a condition at the end: the id of its output, and the conditions after. -/
def add (l : ConditionList) (expression : String) : String × ConditionList :=
  let (id, ids) := l.ids.next
  (id, ⟨ids, l.conditions ++ [⟨id, expression⟩]⟩)

/-- Removes the conditions with an id: whether there was one, and the conditions after. -/
def remove (l : ConditionList) (id : String) : Bool × ConditionList :=
  let rest := l.conditions.filter (·.id ≠ id)
  (rest.length != l.conditions.length, { l with conditions := rest })

/-- The data of a node with these conditions, at the current version. -/
def toData (l : ConditionList) : Json :=
  .object [(versionField, Schema.versionJson 2),
    (conditionsField, .array (l.conditions.map Authored.toJson))]

end ConditionList

end FlowGraph.Standard
