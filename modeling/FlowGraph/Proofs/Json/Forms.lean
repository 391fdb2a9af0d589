import FlowGraph.Json.Serializer
import Mathlib.Data.List.Flatten

/-!
The forms of values and the text of JSON values. A printer writes the parts of a container one after the
other, each after a comma except the first one; a form puts commas between what has become of the parts.
-/

namespace FlowGraph

theorem Number.ofFloat?_of_isFinite {x : Float} (h : x.isFinite = true) :
    Number.ofFloat? x = some (.float x h) :=
  dif_pos h

theorem Number.ofFloat?_eq_none {x : Float} (h : ¬ x.isFinite = true) : Number.ofFloat? x = none :=
  dif_neg h

namespace Json

theorem ofFloat_of_isFinite {x : Float} (h : x.isFinite = true) : ofFloat x = .number (.float x h) := by
  rw [ofFloat, Number.ofFloat?_of_isFinite h]

theorem ofFloat_eq_null {x : Float} (h : ¬ x.isFinite = true) : ofFloat x = .null := by
  rw [ofFloat, Number.ofFloat?_eq_none h]

theorem intercalate_comma_cons (part : List Char) (parts : List (List Char)) :
    [','].intercalate (part :: parts) = part ++ parts.flatMap (',' :: ·) := by
  induction parts generalizing part with
  | nil => rw [List.intercalate_singleton, List.flatMap_nil, List.append_nil]
  | cons next parts ih =>
      rw [List.intercalate_cons_cons, ih, List.flatMap_cons, List.append_assoc, List.singleton_append,
        List.cons_append]

theorem compactItems_eq (js : List Json) :
    compactItems js = (js.map compactChars).flatMap (',' :: ·) ++ [']'] := by
  induction js with
  | nil => rfl
  | cons j js ih => rw [compactItems, ih, List.map_cons, List.flatMap_cons, List.append_assoc]

def compactField (f : String × List Char) : List Char :=
  stringChars f.1 ++ ':' :: f.2

theorem compactFields_eq (fs : List (String × Json)) :
    compactFields fs =
      (fs.map fun f => compactField (f.1, compactChars f.2)).flatMap (',' :: ·) ++ ['\x7d'] := by
  induction fs with
  | nil => rfl
  | cons f fs ih =>
      rw [compactFields, ih, List.map_cons, List.flatMap_cons, List.append_assoc, compactField]
      simp only [List.cons_append, List.append_assoc]

def prettyField (f : String × List Char) : List Char :=
  stringChars f.1 ++ ':' :: ' ' :: f.2

theorem prettyItems_eq (level : Nat) (js : List Json) :
    prettyItems level js = (js.map fun j => lineBreak (level + 1) ++ prettyChars (level + 1) j).flatMap
      (',' :: ·) ++ (lineBreak level ++ [']']) := by
  induction js with
  | nil => rfl
  | cons j js ih =>
      rw [prettyItems, ih, List.map_cons, List.flatMap_cons]
      simp only [List.cons_append, List.append_assoc]

theorem prettyFields_eq (level : Nat) (fs : List (String × Json)) :
    prettyFields level fs =
      (fs.map fun f => lineBreak (level + 1) ++ prettyField (f.1, prettyChars (level + 1) f.2)).flatMap
        (',' :: ·) ++ (lineBreak level ++ ['\x7d']) := by
  induction fs with
  | nil => rfl
  | cons f fs ih =>
      rw [prettyFields, ih, List.map_cons, List.flatMap_cons, List.append_assoc, prettyField]
      simp only [List.cons_append, List.append_assoc]

end Json

namespace Serializer

open Json

/-- Whether a form makes of every value what a function makes of its JSON value: the function does with each
kind what the form does. -/
structure Follows {β : Type} (form : Serializer β) (f : Json → β) : Prop where
  null : f .null = form.null
  bool (b : Bool) : f (.bool b) = form.bool b
  float (x : Float) : f (Json.ofFloat x) = form.float x
  text (s : String) : f (.string s) = form.text s
  array (items : List Json) : f (.array items) = form.array (items.map f)
  object (fields : List (String × Json)) :
    f (.object fields) = form.object (fields.map fun e => (e.1, f e.2))

theorem floatChars_eq {text : Json → List Char} (hnull : text .null = ['n', 'u', 'l', 'l'])
    (hnumber : ∀ n, text (.number n) = numberChars n) (x : Float) :
    text (Json.ofFloat x) = floatChars x := by
  by_cases h : x.isFinite = true
  · rw [floatChars, if_pos h, ofFloat_of_isFinite h]
    exact hnumber _
  · rw [floatChars, if_neg h, ofFloat_eq_null h]
    exact hnull

/-- The compact form is the text without blanks. -/
theorem compact_follows : compact.Follows compactChars where
  null := rfl
  bool b := by cases b <;> rfl
  float := floatChars_eq rfl fun _ => rfl
  text _ := rfl
  array items := by
    cases items with
    | nil => rfl
    | cons j js =>
        show _ = '[' :: [','].intercalate (compactChars j :: js.map compactChars) ++ [']']
        rw [compactChars, compactItems_eq, intercalate_comma_cons]
        simp only [List.cons_append, List.append_assoc]
  object fields := by
    cases fields with
    | nil => rfl
    | cons f fs =>
        show _ = '\x7b' :: [','].intercalate (compactField (f.1, compactChars f.2) ::
          (fs.map fun f => (f.1, compactChars f.2)).map compactField) ++ ['\x7d']
        rw [compactChars, compactFields_eq, intercalate_comma_cons, List.map_map, compactField]
        simp only [List.cons_append, List.append_assoc, Function.comp_def]

/-- The indented form is the indented text, at every level. -/
theorem pretty_follows : pretty.Follows fun j level => j.prettyChars level where
  null := rfl
  bool b := by
    funext level
    cases b <;> rfl
  float x := by
    funext level
    exact floatChars_eq rfl (fun _ => rfl) x
  text _ := rfl
  array items := by
    funext level
    cases items with
    | nil => rfl
    | cons j js =>
        show _ = '[' :: [','].intercalate ((lineBreak (level + 1) ++ prettyChars (level + 1) j) ::
          ((js.map fun j level => prettyChars level j).map fun item => item (level + 1)).map
            (lineBreak (level + 1) ++ ·)) ++ lineBreak level ++ [']']
        rw [prettyChars, prettyItems_eq, intercalate_comma_cons, List.map_map, List.map_map]
        simp only [List.cons_append, List.append_assoc, Function.comp_def]
  object fields := by
    funext level
    cases fields with
    | nil => rfl
    | cons f fs =>
        show _ = '\x7b' :: [','].intercalate
          ((lineBreak (level + 1) ++ prettyField (f.1, prettyChars (level + 1) f.2)) ::
            ((fs.map fun f => (f.1, fun level => prettyChars level f.2)).map
              fun f => prettyField (f.1, f.2 (level + 1))).map (lineBreak (level + 1) ++ ·)) ++
            lineBreak level ++ ['\x7d']
        rw [prettyChars, prettyFields_eq, intercalate_comma_cons, List.map_map, List.map_map, prettyField]
        simp only [List.cons_append, List.append_assoc, Function.comp_def]

end Serializer

end FlowGraph
