import FlowGraph.Proofs.Json.Numbers

/-!
The text of a value, taken apart again. The indented form of a value, followed by anything that does
not go on with a number, is read as the tree of the value; what its numbers have to do with this is
that each of them is read from its written form.
-/

namespace FlowGraph

namespace Json

mutual

def numbers : Json → List Number
  | .number n => [n]
  | .array items => numbersOfItems items
  | .object fields => numbersOfFields fields
  | _ => []

def numbersOfItems : List Json → List Number
  | [] => []
  | j :: js => numbers j ++ numbersOfItems js

def numbersOfFields : List (String × Json) → List Number
  | [] => []
  | (_, j) :: fs => numbers j ++ numbersOfFields fs

end

end Json

namespace Raw

variable {fuel : Nat} {cs rest left : List Char}

theorem skipBlank_cons {c : Char} (hc : isBlank c = false) (cs : List Char) :
    skipBlank (c :: cs) = c :: cs := by
  simp [skipBlank, hc]

theorem skipBlank_lineBreak (level : Nat) (cs : List Char) :
    skipBlank (Json.lineBreak level ++ cs) = skipBlank cs := by
  have hindent : ∀ n, skipBlank (List.replicate n ' ' ++ cs) = skipBlank cs := by
    intro n
    induction n with
    | zero => rfl
    | succ n ih => exact ih
  exact hindent (2 * level)

theorem parseValue_skipBlank (fuel : Nat) (cs : List Char) :
    parseValue fuel (' ' :: cs) = parseValue fuel cs := by
  cases fuel with
  | zero => rfl
  | succ fuel => rfl

/-- A text that begins neither with a blank nor with the end of an array. -/
def BeginsItem (cs : List Char) : Prop :=
  ∃ c rest, cs = c :: rest ∧ isBlank c = false ∧ c ≠ ']'

theorem BeginsItem.append (h : BeginsItem cs) (rest : List Char) : BeginsItem (cs ++ rest) := by
  obtain ⟨c, cs, rfl, hblank, hend⟩ := h
  exact ⟨c, cs ++ rest, rfl, hblank, hend⟩

theorem head_of_scanNumber {t : NumberText} (h : scanNumber cs = .read t left) :
    ∃ c rest, cs = c :: rest ∧ (c = '-' ∨ Decimal.isDigit c = true) := by
  cases cs with
  | nil => exact absurd h (by simp [scanNumber, scanMagnitude])
  | cons c cs =>
      refine ⟨c, cs, rfl, ?_⟩
      by_cases hminus : c = '-'
      · exact Or.inl hminus
      · refine Or.inr (Bool.not_eq_false _ ▸ fun hdigit => ?_)
        rw [scanNumber_cons hminus] at h
        simp [scanMagnitude, hdigit] at h

theorem beginsItem_prettyChars (level : Nat) {j : Json} (hj : ∀ n ∈ j.numbers, n.Scans) :
    BeginsItem (Json.prettyChars level j) := by
  cases j with
  | null => exact ⟨_, _, rfl, by decide⟩
  | bool b => cases b <;> exact ⟨_, _, rfl, by decide⟩
  | number n =>
      obtain ⟨t, hscan, -⟩ := hj n List.mem_cons_self
      obtain ⟨c, rest, hcs, hc⟩ := head_of_scanNumber hscan
      refine ⟨c, rest, hcs, ?_⟩
      rcases hc with rfl | hdigit
      · decide
      · exact ⟨Decimal.not_isBlank_of_isDigit hdigit, fun hend => absurd (hend ▸ hdigit) (by decide)⟩
  | string s => exact ⟨_, _, rfl, by decide⟩
  | array items => cases items <;> exact ⟨_, _, rfl, by decide⟩
  | object fields => cases fields <;> exact ⟨_, _, rfl, by decide⟩

theorem endsNumber_prettyItems (level : Nat) (js : List Json) (rest : List Char) :
    EndsNumber (Json.prettyItems level js ++ rest) := by
  cases js with
  | nil => exact fun c hc => Option.some.inj hc ▸ by decide
  | cons j js => exact fun c hc => Option.some.inj hc ▸ by decide

theorem endsNumber_prettyFields (level : Nat) (fs : List (String × Json)) (rest : List Char) :
    EndsNumber (Json.prettyFields level fs ++ rest) := by
  cases fs with
  | nil => exact fun c hc => Option.some.inj hc ▸ by decide
  | cons f fs => exact fun c hc => Option.some.inj hc ▸ by decide

theorem BeginsItem.skipBlank (h : BeginsItem cs) : Raw.skipBlank cs = cs := by
  obtain ⟨c, rest, rfl, hblank, -⟩ := h
  exact skipBlank_cons hblank rest

theorem parseItems_end (first : Bool) (h : skipBlank cs = ']' :: rest) :
    parseItems (fuel + 1) first cs = (([], none), some rest) := by
  unfold parseItems
  simp only [h]

theorem parseItems_first (hskip : skipBlank cs = rest) (h : BeginsItem rest) :
    parseItems (fuel + 1) true cs = parseItem fuel rest := by
  obtain ⟨c, rest, rfl, -, hc⟩ := h
  unfold parseItems
  rw [hskip]
  split
  next heq => cases heq
  next heq => exact absurd (List.cons.inj heq).1 hc
  next heq => rw [if_pos rfl, heq]

theorem parseItems_next (hskip : skipBlank cs = rest) (h : BeginsItem rest) :
    parseItems (fuel + 1) false (',' :: cs) = parseItem fuel rest := by
  obtain ⟨c, rest, rfl, -, hc⟩ := h
  unfold parseItems
  rw [skipBlank_cons (by decide)]
  split
  next heq => cases heq
  next heq => exact absurd (List.cons.inj heq).1 (by decide)
  next heq =>
    obtain ⟨rfl, rfl⟩ := List.cons.inj heq
    rw [if_neg Bool.false_ne_true, if_pos rfl, hskip]
    split
    next heq => exact absurd (List.cons.inj heq).1 hc
    next => rfl

theorem parseItem_eq {item : Raw} {items : List Raw} (hitem : parseValue fuel cs = (item, some rest))
    (hitems : parseItems fuel false rest = ((items, none), some left)) :
    parseItem (fuel + 1) cs = ((item :: items, none), some left) := by
  unfold parseItem
  simp only [hitem, hitems]

theorem parseMembers_end (first : Bool) (h : skipBlank cs = '\x7d' :: rest) :
    parseMembers (fuel + 1) first cs = (([], none), some rest) := by
  unfold parseMembers
  simp only [h]

theorem parseMembers_first (h : skipBlank cs = '"' :: rest) :
    parseMembers (fuel + 1) true cs = parseMember fuel rest := by
  unfold parseMembers
  rw [h]
  rfl

section

variable {members : List (Except ReadError String × Raw)}

theorem parseMembers_next (h : skipBlank cs = '"' :: rest)
    (hmember : parseMember fuel rest = ((members, none), some left)) :
    parseMembers (fuel + 1) false (',' :: cs) = ((members, none), some left) := by
  unfold parseMembers
  rw [skipBlank_cons (by decide)]
  split
  next heq => cases heq
  next heq => exact absurd (List.cons.inj heq).1 (by decide)
  next heq =>
    obtain ⟨rfl, rfl⟩ := List.cons.inj heq
    rw [if_neg Bool.false_ne_true, if_pos rfl, h]
    split
    next heq => cases heq
    next heq =>
      obtain ⟨-, rfl⟩ := List.cons.inj heq
      rw [hmember]
      rfl
    next heq => exact absurd (List.cons.inj heq).1 (by decide)
    next hkey _ => exact (hkey _ rfl).elim

theorem parseMember_eq (key : String) {value : Raw} (hvalue : parseValue fuel cs = (value, some rest))
    (hmembers : parseMembers fuel false rest = ((members, none), some left)) :
    parseMember (fuel + 1) (key.toList.flatMap Json.escape ++ '"' :: ':' :: ' ' :: cs) =
      (((.ok key, value) :: members, none), some left) := by
  unfold parseMember
  rw [scanString_stringChars]
  dsimp only
  rw [skipBlank_cons (by decide)]
  simp only [parseValue_skipBlank, hvalue, hmembers]

end

theorem parseValue_array {items : List Raw} (h : parseItems fuel true cs = ((items, none), some rest)) :
    parseValue (fuel + 1) ('[' :: cs) = (.array items none, some rest) := by
  unfold parseValue
  rw [skipBlank_cons (by decide)]
  simp [h, Decimal.isDigit]

theorem parseValue_object {members : List (Except ReadError String × Raw)}
    (h : parseMembers fuel true cs = ((members, none), some rest)) :
    parseValue (fuel + 1) ('\x7b' :: cs) = (.object members none, some rest) := by
  unfold parseValue
  rw [skipBlank_cons (by decide)]
  simp [h, Decimal.isDigit]

theorem parseValue_number {n : Number} (hn : n.Scans) (hrest : EndsNumber rest) :
    parseValue (fuel + 1) (Json.numberChars n ++ rest) = (.number (.ok n), some rest) := by
  obtain ⟨t, hscan, hvalue⟩ := hn
  obtain ⟨c, cs, hcs, hc⟩ := head_of_scanNumber hscan
  have hread := scanNumber_append hrest hscan
  rw [hcs, List.cons_append] at hread ⊢
  have hne : ∀ d, d ≠ '-' → Decimal.isDigit d = false → c ≠ d := by
    rintro d hminus hdigit rfl
    exact hc.elim hminus (Bool.eq_false_iff.mp hdigit)
  have hblank : isBlank c = false := by
    rcases hc with rfl | hdigit
    · decide
    · exact Decimal.not_isBlank_of_isDigit hdigit
  unfold parseValue
  rw [skipBlank_cons hblank]
  dsimp only
  rw [if_neg (hne 'n' (by decide) (by decide)), if_neg (hne 't' (by decide) (by decide)),
    if_neg (hne 'f' (by decide) (by decide)), if_neg (hne '"' (by decide) (by decide)), if_pos hc, hread,
    leaf, hvalue]
  rfl

theorem length_lineBreak (level : Nat) : (Json.lineBreak level).length = 2 * level + 1 := by
  simp [Json.lineBreak]

/-- An item on a line of its own, as the first one and as a later one. -/
theorem parseItems_line (level : Nat) {j : Json} {items : List Raw} (hj : ∀ n ∈ j.numbers, n.Scans)
    (hitem : parseValue fuel (Json.prettyChars (level + 1) j ++ rest) = (ofJson j, some rest))
    (hitems : parseItems fuel false rest = ((items, none), some left)) :
    parseItems (fuel + 2) true
        (Json.lineBreak (level + 1) ++ (Json.prettyChars (level + 1) j ++ rest)) =
      ((ofJson j :: items, none), some left) ∧
    parseItems (fuel + 2) false
        (',' :: (Json.lineBreak (level + 1) ++ (Json.prettyChars (level + 1) j ++ rest))) =
      ((ofJson j :: items, none), some left) := by
  have hbegins := (beginsItem_prettyChars (level + 1) hj).append rest
  have hskip := (skipBlank_lineBreak (level + 1) _).trans hbegins.skipBlank
  have hparse := parseItem_eq hitem hitems
  exact ⟨(parseItems_first hskip hbegins).trans hparse, (parseItems_next hskip hbegins).trans hparse⟩

/-- A field on a line of its own, as the first one and as a later one. -/
theorem parseMembers_line (level : Nat) (k : String) {j : Json}
    {members : List (Except ReadError String × Raw)}
    (hvalue : parseValue fuel (Json.prettyChars (level + 1) j ++ rest) = (ofJson j, some rest))
    (hmembers : parseMembers fuel false rest = ((members, none), some left)) :
    parseMembers (fuel + 2) true (Json.lineBreak (level + 1) ++
        (Json.stringChars k ++ ':' :: ' ' :: (Json.prettyChars (level + 1) j ++ rest))) =
      (((.ok k, ofJson j) :: members, none), some left) ∧
    parseMembers (fuel + 2) false (',' :: (Json.lineBreak (level + 1) ++
        (Json.stringChars k ++ ':' :: ' ' :: (Json.prettyChars (level + 1) j ++ rest)))) =
      (((.ok k, ofJson j) :: members, none), some left) := by
  have hskip : skipBlank (Json.lineBreak (level + 1) ++
      (Json.stringChars k ++ ':' :: ' ' :: (Json.prettyChars (level + 1) j ++ rest))) =
        '"' :: (k.toList.flatMap Json.escape ++ '"' :: ':' :: ' ' ::
          (Json.prettyChars (level + 1) j ++ rest)) := by
    rw [skipBlank_lineBreak, Json.stringChars, List.append_assoc]
    exact skipBlank_cons (by decide) _
  have hparse := parseMember_eq k hvalue hmembers
  exact ⟨(parseMembers_first hskip).trans hparse, parseMembers_next hskip hparse⟩

mutual

/-- A value is read from its indented form as its tree. -/
theorem parseValue_prettyChars : ∀ (j : Json) (level fuel : Nat) (rest : List Char),
    (∀ n ∈ j.numbers, n.Scans) → EndsNumber rest → 2 * (Json.prettyChars level j).length ≤ fuel →
      parseValue fuel (Json.prettyChars level j ++ rest) = (ofJson j, some rest)
  | .null, _, fuel, _, _, _, hfuel => by
      obtain ⟨fuel, rfl⟩ := Nat.exists_eq_add_of_le' hfuel
      rfl
  | .bool true, _, fuel, _, _, _, hfuel => by
      obtain ⟨fuel, rfl⟩ := Nat.exists_eq_add_of_le' hfuel
      rfl
  | .bool false, _, fuel, _, _, _, hfuel => by
      obtain ⟨fuel, rfl⟩ := Nat.exists_eq_add_of_le' hfuel
      rfl
  | .number n, level, fuel, rest, hj, hrest, hfuel => by
      obtain ⟨c, cs, hcs, -⟩ := beginsItem_prettyChars level hj
      rw [hcs, List.length_cons] at hfuel
      obtain ⟨fuel, rfl⟩ := Nat.exists_eq_add_of_le' (show 1 ≤ fuel by omega)
      exact parseValue_number (hj n List.mem_cons_self) hrest
  | .string s, level, fuel, rest, _, _, hfuel => by
      have htext : Json.prettyChars level (.string s) ++ rest =
          '"' :: (s.toList.flatMap Json.escape ++ '"' :: rest) := by
        simp [Json.prettyChars, Json.stringChars]
      rw [Json.prettyChars, Json.stringChars, List.length_append, List.length_cons] at hfuel
      obtain ⟨fuel, rfl⟩ := Nat.exists_eq_add_of_le' (show 1 ≤ fuel by omega)
      rw [htext]
      unfold parseValue
      rw [skipBlank_cons (by decide)]
      simp [scanString_stringChars, leaf, ofJson]
  | .array [], _, fuel, _, _, _, hfuel => by
      obtain ⟨fuel, rfl⟩ := Nat.exists_eq_add_of_le' hfuel
      rfl
  | .array (j :: js), level, fuel, rest, hj, hrest, hfuel => by
      rw [Json.prettyChars] at hfuel ⊢
      simp only [List.length_cons, List.length_append, length_lineBreak, List.cons_append,
        List.append_assoc] at hfuel ⊢
      obtain ⟨fuel, rfl⟩ := Nat.exists_eq_add_of_le' (show 3 ≤ fuel by omega)
      have hj' : ∀ n ∈ j.numbers, n.Scans := fun n hn => hj n (List.mem_append_left _ hn)
      have hitem := parseValue_prettyChars j (level + 1) fuel (Json.prettyItems level js ++ rest) hj'
        (endsNumber_prettyItems level js rest) (by omega)
      have hitems := parseItems_prettyItems js level fuel rest
        (fun n hn => hj n (List.mem_append_right _ hn)) (by omega)
      exact parseValue_array (parseItems_line level hj' hitem hitems).1
  | .object [], _, fuel, _, _, _, hfuel => by
      obtain ⟨fuel, rfl⟩ := Nat.exists_eq_add_of_le' hfuel
      rfl
  | .object ((k, j) :: fs), level, fuel, rest, hj, hrest, hfuel => by
      rw [Json.prettyChars] at hfuel ⊢
      simp only [List.length_cons, List.length_append, length_lineBreak, List.cons_append,
        List.append_assoc] at hfuel ⊢
      obtain ⟨fuel, rfl⟩ := Nat.exists_eq_add_of_le' (show 3 ≤ fuel by omega)
      have hvalue := parseValue_prettyChars j (level + 1) fuel (Json.prettyFields level fs ++ rest)
        (fun n hn => hj n (List.mem_append_left _ hn)) (endsNumber_prettyFields level fs rest) (by omega)
      have hmembers := parseMembers_prettyFields fs level fuel rest
        (fun n hn => hj n (List.mem_append_right _ hn)) (by omega)
      exact parseValue_object (parseMembers_line level k hvalue hmembers).1

theorem parseItems_prettyItems : ∀ (js : List Json) (level fuel : Nat) (rest : List Char),
    (∀ n ∈ Json.numbersOfItems js, n.Scans) → 2 * (Json.prettyItems level js).length ≤ fuel →
      parseItems fuel false (Json.prettyItems level js ++ rest) = ((ofJsonItems js, none), some rest)
  | [], level, fuel, rest, _, hfuel => by
      rw [Json.prettyItems] at hfuel ⊢
      rw [List.length_append, List.length_singleton] at hfuel
      obtain ⟨fuel, rfl⟩ := Nat.exists_eq_add_of_le' (show 1 ≤ fuel by omega)
      refine parseItems_end false ?_
      rw [List.append_assoc, skipBlank_lineBreak]
      rfl
  | j :: js, level, fuel, rest, hjs, hfuel => by
      rw [Json.prettyItems] at hfuel ⊢
      simp only [List.length_cons, List.length_append, length_lineBreak, List.cons_append,
        List.append_assoc] at hfuel ⊢
      obtain ⟨fuel, rfl⟩ := Nat.exists_eq_add_of_le' (show 2 ≤ fuel by omega)
      have hj : ∀ n ∈ j.numbers, n.Scans := fun n hn => hjs n (List.mem_append_left _ hn)
      have hitem := parseValue_prettyChars j (level + 1) fuel (Json.prettyItems level js ++ rest) hj
        (endsNumber_prettyItems level js rest) (by omega)
      have hitems := parseItems_prettyItems js level fuel rest
        (fun n hn => hjs n (List.mem_append_right _ hn)) (by omega)
      exact (parseItems_line level hj hitem hitems).2

theorem parseMembers_prettyFields : ∀ (fs : List (String × Json)) (level fuel : Nat) (rest : List Char),
    (∀ n ∈ Json.numbersOfFields fs, n.Scans) → 2 * (Json.prettyFields level fs).length ≤ fuel →
      parseMembers fuel false (Json.prettyFields level fs ++ rest) = ((ofJsonFields fs, none), some rest)
  | [], level, fuel, rest, _, hfuel => by
      rw [Json.prettyFields] at hfuel ⊢
      rw [List.length_append, List.length_singleton] at hfuel
      obtain ⟨fuel, rfl⟩ := Nat.exists_eq_add_of_le' (show 1 ≤ fuel by omega)
      refine parseMembers_end false ?_
      rw [List.append_assoc, skipBlank_lineBreak]
      rfl
  | (k, j) :: fs, level, fuel, rest, hfs, hfuel => by
      rw [Json.prettyFields] at hfuel ⊢
      simp only [List.length_cons, List.length_append, length_lineBreak, List.cons_append,
        List.append_assoc] at hfuel ⊢
      obtain ⟨fuel, rfl⟩ := Nat.exists_eq_add_of_le' (show 2 ≤ fuel by omega)
      have hvalue := parseValue_prettyChars j (level + 1) fuel (Json.prettyFields level fs ++ rest)
        (fun n hn => hfs n (List.mem_append_left _ hn)) (endsNumber_prettyFields level fs rest) (by omega)
      have hmembers := parseMembers_prettyFields fs level fuel rest
        (fun n hn => hfs n (List.mem_append_right _ hn)) (by omega)
      exact (parseMembers_line level k hvalue hmembers).2

end

/-- The text of a value holds its tree, and nothing after it. -/
theorem ofText_pretty {j : Json} (hj : ∀ n ∈ j.numbers, n.Scans) :
    ofText j.pretty = ⟨ofJson j, none⟩ := by
  have htext : j.pretty.toList = Json.prettyChars 0 j := String.toList_ofList
  have hread := parseValue_prettyChars j 0 (3 * (Json.prettyChars 0 j).length + 3) [] hj endsNumber_nil
    (by omega)
  rw [List.append_nil] at hread
  unfold ofText
  rw [htext]
  simp only [hread]
  rfl

end Raw

end FlowGraph
