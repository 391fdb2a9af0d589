import FlowGraph.Json.Decode
import FlowGraph.Proofs.Dict
import FlowGraph.Proofs.Except

/-!
Readers over the trees of values. A value that was written is read back wherever there is room for the
containers in it, and is too deep everywhere else; and whatever is read, from any tree, has its objects in
order and fits into the room that there was.
-/

namespace FlowGraph

namespace Reading

variable {reading inner : Reading}

/-- What a reader gives where as many containers have to be opened: the value if there is room. -/
def within {α : Type} (reading : Reading) (depth : Nat) (a : α) : Except ReadError α :=
  if depth ≤ reading.room then .ok a else .error .tooDeep

theorem within_zero {α : Type} (reading : Reading) (a : α) : reading.within 0 a = .ok a :=
  if_pos (Nat.zero_le _)

theorem map_within {α β : Type} (reading : Reading) (depth : Nat) (a : α) (f : α → β) :
    (reading.within depth a).map f = reading.within depth (f a) := by
  unfold within
  split <;> rfl

theorem within_bind {α β : Type} {d e : Nat} {a : α} {b : β} {next : α → Except ReadError β}
    (h : next a = reading.within e b) : (reading.within d a >>= next) = reading.within (max d e) b := by
  unfold within at h ⊢
  by_cases hd : d ≤ reading.room
  · rw [if_pos hd, ok_bind, h]
    by_cases he : e ≤ reading.room
    · rw [if_pos he, if_pos (max_le hd he)]
    · rw [if_neg he, if_neg fun hmax => he (le_trans (le_max_right d e) hmax)]
  · rw [if_neg hd, if_neg fun hmax => hd (le_trans (le_max_left d e) hmax)]
    rfl

theorem within_bind_ok {α β : Type} {d : Nat} {a : α} {b : β} {next : α → Except ReadError β}
    (h : next a = .ok b) : (reading.within d a >>= next) = reading.within d b := by
  rw [within_bind (h.trans (reading.within_zero b).symm), Nat.max_zero]

theorem enter_bind {α : Type} {depth : Nat} {a : α} {next : Reading → Except ReadError α}
    (h : ∀ inner, next inner = inner.within depth a) :
    (reading.enter >>= next) = reading.within (depth + 1) a := by
  obtain ⟨room, isText⟩ := reading
  cases room with
  | zero => rfl
  | succ room =>
      refine (h ⟨room, isText⟩).trans ?_
      simp [within]

theorem room_of_enter (h : reading.enter = .ok inner) : reading.room = inner.room + 1 := by
  obtain ⟨room, isText⟩ := reading
  cases room with
  | zero => cases h
  | succ room => exact congrArg (fun r : Reading => r.room + 1) (Except.ok.inj h)

end Reading

/-! ### What was written is read back -/

namespace Raw

mutual

/-- A value in order is read back from its tree. -/
theorem toJson_ofJson : ∀ (j : Json) (reading : Reading), j.Ordered →
    toJson reading (ofJson j) = reading.within j.depth j
  | .null, reading, _ => (reading.within_zero _).symm
  | .bool _, reading, _ => (reading.within_zero _).symm
  | .number _, reading, _ => (reading.within_zero _).symm
  | .string _, reading, _ => (reading.within_zero _).symm
  | .array items, reading, h => by
      refine Reading.enter_bind fun inner => ?_
      rw [toJsonItems_ofJsonItems items inner h]
      exact Reading.within_bind_ok rfl
  | .object fields, reading, h => by
      refine Reading.enter_bind fun inner => ?_
      rw [toJsonMembers_ofJsonFields fields [] inner h.1 h.2]
      exact Reading.within_bind_ok rfl

theorem toJsonItems_ofJsonItems : ∀ (js : List Json) (reading : Reading), Json.OrderedItems js →
    toJsonItems reading (ofJsonItems js) = reading.within (Json.depthItems js) js
  | [], reading, _ => (reading.within_zero _).symm
  | j :: js, reading, h => by
      rw [ofJsonItems, toJsonItems, toJson_ofJson j reading h.1]
      refine Reading.within_bind ?_
      rw [toJsonItems_ofJsonItems js reading h.2]
      exact Reading.within_bind_ok rfl

theorem toJsonMembers_ofJsonFields : ∀ (fs : List (String × Json)) (sofar : Dict Json)
    (reading : Reading), Dict.Sorted (sofar ++ fs) → Json.OrderedFields fs →
      toJsonMembers reading sofar (ofJsonFields fs) = reading.within (Json.depthFields fs) (sofar ++ fs)
  | [], sofar, reading, _, _ => by
      rw [List.append_nil]
      exact (reading.within_zero _).symm
  | (k, j) :: fs, sofar, reading, hsorted, h => by
      have hlast : ∀ e ∈ sofar, e.1 < k := fun e he =>
        (List.pairwise_append.mp hsorted).2.2 e he (k, j) List.mem_cons_self
      have hnext : sofar ++ (k, j) :: fs = Dict.insert sofar k j ++ fs := by
        rw [Dict.insert_of_keys_lt j hlast, List.append_assoc, List.singleton_append]
      rw [hnext] at hsorted ⊢
      rw [ofJsonFields, toJsonMembers, ok_bind, toJson_ofJson j reading h.1]
      exact Reading.within_bind (toJsonMembers_ofJsonFields fs _ reading hsorted h.2)

end

end Raw

/-- Whether a reader reads a value as something, wherever there is room for it. -/
def Reader.Reads {α : Type} (reader : Reader α) (j : Json) (a : α) : Prop :=
  ∀ reading, reader reading (Raw.ofJson j) = reading.within j.depth a

namespace Reader

variable {α : Type} {reader : Reader α}

theorem reads_json {j : Json} (h : j.Ordered) : Reader.json.Reads j j := fun reading =>
  Raw.toJson_ofJson j reading h

theorem reads_string (s : String) : Reader.string.Reads (.string s) s := fun reading =>
  (reading.within_zero s).symm

theorem reads_list {print : α → Json} (as : List α) (h : ∀ a ∈ as, reader.Reads (print a) a) :
    reader.list.Reads (.array (as.map print)) as := by
  have hitems : ∀ reading, Reader.items reader reading (Raw.ofJsonItems (as.map print)) =
      reading.within (Json.depthItems (as.map print)) as := by
    intro reading
    induction as with
    | nil => exact (reading.within_zero _).symm
    | cons a as ih =>
        rw [List.map_cons, Raw.ofJsonItems, Reader.items, h a List.mem_cons_self reading]
        refine Reading.within_bind ?_
        rw [ih fun a ha => h a (List.mem_cons_of_mem _ ha)]
        exact Reading.within_bind_ok rfl
  intro reading
  refine Reading.enter_bind fun inner => ?_
  rw [hitems]
  exact Reading.within_bind_ok rfl

end Reader

namespace Record

variable {σ : Type} {r : Record σ}

/-- Whether a field is read into a record as another record, wherever there is room for it. -/
def Sets (field : RecordField σ) (j : Json) (s s' : σ) : Prop :=
  ∀ reading, field.read reading (Raw.ofJson j) s = reading.within j.depth s'

theorem sets_of_reads {α : Type} {field : RecordField σ} {reader : Reader α} {set : α → σ → σ}
    (hfield : ∀ reading raw s, field.read reading raw s = (reader reading raw).map (set · s)) {j : Json}
    {a : α} (h : reader.Reads j a) (s : σ) : Sets field j s (set a s) := by
  intro reading
  rw [hfield, h reading, Reading.map_within]

theorem sets_needed {α : Type} {name : String} {reader : Reader α} {set : α → σ → σ} {j : Json} {a : α}
    (h : reader.Reads j a) (s : σ) : Sets (.needed name reader set) j s (set a s) :=
  sets_of_reads (fun _ _ _ => rfl) h s

theorem sets_withDefault {α : Type} {name : String} {reader : Reader α} {set : α → σ → σ} {j : Json}
    {a : α} (h : reader.Reads j a) (s : σ) : Sets (.withDefault name reader set) j s (set a s) :=
  sets_of_reads (fun _ _ _ => rfl) h s

/-- Whether fields, read by their names into a record, make another record of it; `seen` and `seen'`
are the names that were read before and after. -/
def Fills (r : Record σ) (s : σ) (seen : List String) (fs : List (String × Json)) (s' : σ)
    (seen' : List String) : Prop :=
  ∀ reading, r.readMembers reading s seen (Raw.ofJsonFields fs) =
    reading.within (Json.depthFields fs) (s', seen')

theorem fills_nil (s : σ) (seen : List String) : r.Fills s seen [] s seen := fun reading =>
  (reading.within_zero _).symm

theorem Fills.cons {s s' s'' : σ} {seen seen' : List String} {key : String} {j : Json}
    {fs : List (String × Json)} {field : RecordField σ}
    (hfind : r.fields.find? (·.name = key) = some field) (hseen : key ∉ seen) (hsets : Sets field j s s')
    (h : r.Fills s' (key :: seen) fs s'' seen') : r.Fills s seen ((key, j) :: fs) s'' seen' := by
  intro reading
  rw [Raw.ofJsonFields, Record.readMembers, ok_bind]
  simp only [hfind]
  rw [if_neg hseen, hsets reading]
  exact Reading.within_bind (h reading)

theorem Fills.reads {fs : List (String × Json)} {s : σ} {seen : List String}
    (h : r.Fills r.initial [] fs s seen)
    (hneeded : r.fields.find? (fun f => f.neededByName && !seen.contains f.name) = none) :
    r.read.Reads (.object fs) s := by
  intro reading
  refine Reading.enter_bind fun inner => ?_
  rw [h inner]
  refine Reading.within_bind_ok ?_
  dsimp only [Raw.close]
  rw [ok_bind, hneeded]

end Record

/-! ### What was read -/

theorem Reader.of_ofText {α : Type} {reader : Reader α} {text : String} {a : α}
    (h : reader.ofText text = .ok a) :
    reader .text (Raw.ofText text).root = .ok a ∧ (Raw.ofText text).trailing = none := by
  obtain ⟨b, hread, h⟩ := bind_eq_ok h
  split at h
  · cases h
  next htrailing =>
    obtain rfl := Except.ok.inj h
    exact ⟨hread, htrailing⟩

theorem Json.orderedFields_iff {fs : List (String × Json)} :
    Json.OrderedFields fs ↔ ∀ e ∈ fs, e.2.Ordered := by
  induction fs with
  | nil => simp [Json.OrderedFields]
  | cons e fs ih => simp [Json.OrderedFields, ih]

theorem Json.depthItems_le_iff {js : List Json} {n : Nat} :
    Json.depthItems js ≤ n ↔ ∀ j ∈ js, j.depth ≤ n := by
  induction js with
  | nil => simp [Json.depthItems]
  | cons j js ih => simp [Json.depthItems, ih]

theorem Json.depthFields_le_iff {fs : List (String × Json)} {n : Nat} :
    Json.depthFields fs ≤ n ↔ ∀ e ∈ fs, e.2.depth ≤ n := by
  induction fs with
  | nil => simp [Json.depthFields]
  | cons e fs ih => simp [Json.depthFields, ih]

namespace Raw

mutual

/-- A value that was read has its objects in order and fits into the room that there was. -/
theorem ordered_of_toJson : ∀ (raw : Raw) {reading : Reading} {j : Json},
    toJson reading raw = .ok j → j.Ordered ∧ j.depth ≤ reading.room
  | .null, _, _, h => by
      obtain rfl := Except.ok.inj h
      exact ⟨trivial, Nat.zero_le _⟩
  | .bool _, _, _, h => by
      obtain rfl := Except.ok.inj h
      exact ⟨trivial, Nat.zero_le _⟩
  | .number value, _, _, h => by
      cases value with
      | error e => cases h
      | ok n =>
          obtain rfl := Except.ok.inj h
          exact ⟨trivial, Nat.zero_le _⟩
  | .string value, _, _, h => by
      cases value with
      | error e => cases h
      | ok s =>
          obtain rfl := Except.ok.inj h
          exact ⟨trivial, Nat.zero_le _⟩
  | .array items fault, reading, _, h => by
      obtain ⟨inner, henter, h⟩ := bind_eq_ok h
      obtain ⟨js, hjs, h⟩ := bind_eq_ok h
      obtain ⟨_, -, h⟩ := bind_eq_ok h
      obtain rfl := Except.ok.inj h
      obtain ⟨hordered, hdepth⟩ := ordered_of_toJsonItems items hjs
      rw [Reading.room_of_enter henter]
      exact ⟨hordered, Nat.succ_le_succ hdepth⟩
  | .object members fault, reading, _, h => by
      obtain ⟨inner, henter, h⟩ := bind_eq_ok h
      obtain ⟨fs, hfs, h⟩ := bind_eq_ok h
      obtain ⟨_, -, h⟩ := bind_eq_ok h
      obtain rfl := Except.ok.inj h
      obtain ⟨hsorted, hvalues⟩ := ordered_of_toJsonMembers members hfs List.Pairwise.nil
        (fun _ he => absurd he List.not_mem_nil)
      rw [Reading.room_of_enter henter]
      exact ⟨⟨hsorted, Json.orderedFields_iff.mpr fun e he => (hvalues e he).1⟩,
        Nat.succ_le_succ (Json.depthFields_le_iff.mpr fun e he => (hvalues e he).2)⟩
  | .broken _, _, _, h => by cases h

theorem ordered_of_toJsonItems : ∀ (items : List Raw) {reading : Reading} {js : List Json},
    toJsonItems reading items = .ok js → Json.OrderedItems js ∧ Json.depthItems js ≤ reading.room
  | [], _, _, h => by
      obtain rfl := Except.ok.inj h
      exact ⟨trivial, Nat.zero_le _⟩
  | item :: items, reading, _, h => by
      obtain ⟨j, hj, h⟩ := bind_eq_ok h
      obtain ⟨js, hjs, h⟩ := bind_eq_ok h
      obtain rfl := Except.ok.inj h
      obtain ⟨hordered, hdepth⟩ := ordered_of_toJson item hj
      obtain ⟨hordereds, hdepths⟩ := ordered_of_toJsonItems items hjs
      exact ⟨⟨hordered, hordereds⟩, max_le hdepth hdepths⟩

theorem ordered_of_toJsonMembers : ∀ (members : List (Except ReadError String × Raw))
    {reading : Reading} {sofar fs : Dict Json}, toJsonMembers reading sofar members = .ok fs →
      Dict.Sorted sofar → (∀ e ∈ sofar, e.2.Ordered ∧ e.2.depth ≤ reading.room) →
        Dict.Sorted fs ∧ ∀ e ∈ fs, e.2.Ordered ∧ e.2.depth ≤ reading.room
  | [], _, _, _, h, hsorted, hvalues => by
      obtain rfl := Except.ok.inj h
      exact ⟨hsorted, hvalues⟩
  | (key, item) :: members, reading, sofar, _, h, hsorted, hvalues => by
      obtain ⟨k, -, h⟩ := bind_eq_ok h
      obtain ⟨j, hj, h⟩ := bind_eq_ok h
      refine ordered_of_toJsonMembers members h (hsorted.insert j) fun e he => ?_
      rcases Dict.mem_insert he with rfl | he
      · exact ordered_of_toJson item hj
      · exact hvalues e he

end

end Raw

theorem Reader.exists_of_items {α : Type} {reader : Reader α} {reading : Reading} {items : List Raw}
    {as : List α} (h : Reader.items reader reading items = .ok as) :
    ∀ a ∈ as, ∃ raw, reader reading raw = .ok a := by
  induction items generalizing as with
  | nil =>
      obtain rfl := Except.ok.inj h
      exact fun a ha => absurd ha List.not_mem_nil
  | cons item items ih =>
      obtain ⟨b, hb, h⟩ := bind_eq_ok h
      obtain ⟨bs, hbs, h⟩ := bind_eq_ok h
      obtain rfl := Except.ok.inj h
      intro a ha
      rcases List.mem_cons.mp ha with rfl | ha
      · exact ⟨item, hb⟩
      · exact ih hbs a ha

theorem Reader.exists_of_list {α : Type} {reader : Reader α} {reading : Reading} {raw : Raw} {as : List α}
    (h : reader.list reading raw = .ok as) :
    ∃ inner, reading.enter = .ok inner ∧ ∀ a ∈ as, ∃ raw, reader inner raw = .ok a := by
  cases raw with
  | array items fault =>
      obtain ⟨inner, henter, h⟩ := bind_eq_ok h
      obtain ⟨as', has, h⟩ := bind_eq_ok h
      obtain ⟨_, -, h⟩ := bind_eq_ok h
      obtain rfl := Except.ok.inj h
      exact ⟨inner, henter, Reader.exists_of_items has⟩
  | _ => cases h

namespace Record

variable {σ : Type} {r : Record σ} {P : σ → Prop} {inner : Reading}

/-- Whether reading a field, from whatever tree, keeps what is known of a record. -/
def Keeps (P : σ → Prop) (inner : Reading) (field : RecordField σ) : Prop :=
  ∀ raw s s', field.read inner raw s = .ok s' → P s → P s'

theorem keeps_of_reader {α : Type} {field : RecordField σ} {reader : Reader α} {set : α → σ → σ}
    (hfield : ∀ raw s, field.read inner raw s = (reader inner raw).map (set · s))
    (h : ∀ raw a s, reader inner raw = .ok a → P s → P (set a s)) : Keeps P inner field := by
  intro raw s s' hread hs
  rw [hfield] at hread
  cases hvalue : reader inner raw with
  | error e =>
      rw [hvalue] at hread
      cases hread
  | ok a =>
      rw [hvalue] at hread
      exact Except.ok.inj hread ▸ h raw a s hvalue hs

theorem holds_of_readMembers (hkeeps : ∀ field ∈ r.fields, Keeps P inner field)
    {members : List (Except ReadError String × Raw)} {s s' : σ} {seen seen' : List String}
    (h : r.readMembers inner s seen members = .ok (s', seen')) (hs : P s) : P s' := by
  induction members generalizing s seen with
  | nil =>
      obtain ⟨rfl, -⟩ := Prod.mk.inj (Except.ok.inj h)
      exact hs
  | cons e members ih =>
      obtain ⟨key, item⟩ := e
      obtain ⟨k, -, h⟩ := bind_eq_ok h
      split at h
      next =>
        obtain ⟨_, -, h⟩ := bind_eq_ok h
        exact ih h hs
      next field hfind =>
        split at h
        · cases h
        · obtain ⟨s'', hread, h⟩ := bind_eq_ok h
          exact ih h (hkeeps field (List.mem_of_find?_eq_some hfind) item s s'' hread hs)

theorem holds_of_readPlaces {fields missing : List (RecordField σ)} {items extra : List Raw} {s s' : σ}
    (hkeeps : ∀ field ∈ fields, Keeps P inner field)
    (h : readPlaces inner s fields items = .ok (s', missing, extra)) (hs : P s) : P s' := by
  induction fields generalizing s items with
  | nil =>
      obtain ⟨rfl, -⟩ := Prod.mk.inj (Except.ok.inj h)
      exact hs
  | cons field fields ih =>
      cases items with
      | nil =>
          obtain ⟨rfl, -⟩ := Prod.mk.inj (Except.ok.inj h)
          exact hs
      | cons item items =>
          obtain ⟨s'', hread, h⟩ := bind_eq_ok h
          exact ih (fun f hf => hkeeps f (List.mem_cons_of_mem _ hf)) h
            (hkeeps field List.mem_cons_self item s s'' hread hs)

/-- What holds of the record before any field is read, and is kept by every field, holds of every
record that is read. -/
theorem holds_of_read {reading : Reading} {raw : Raw} {s : σ} (h : r.read reading raw = .ok s)
    (hholds : ∀ inner, reading.enter = .ok inner → P r.initial ∧ ∀ field ∈ r.fields, Keeps P inner field) :
    P s := by
  cases raw with
  | object members fault =>
      obtain ⟨inner, henter, h⟩ := bind_eq_ok h
      obtain ⟨hinitial, hkeeps⟩ := hholds inner henter
      obtain ⟨⟨s', seen⟩, hread, h⟩ := bind_eq_ok h
      obtain ⟨_, -, h⟩ := bind_eq_ok h
      have hs' := holds_of_readMembers hkeeps hread hinitial
      split at h
      · cases h
      · obtain rfl := Except.ok.inj h
        exact hs'
  | array items fault =>
      obtain ⟨inner, henter, h⟩ := bind_eq_ok h
      obtain ⟨hinitial, hkeeps⟩ := hholds inner henter
      obtain ⟨⟨s', missing, extra⟩, hread, h⟩ := bind_eq_ok h
      have hs' := holds_of_readPlaces hkeeps hread hinitial
      have heq : s' = s := by
        dsimp only at h
        split at h
        · split at h
          · split at h
            · cases h
            · exact Except.ok.inj h
          · obtain ⟨_, -, h⟩ := bind_eq_ok h
            split at h
            · cases h
            · exact Except.ok.inj h
        · split at h <;> cases h
      exact heq ▸ hs'
  | _ => cases h

end Record

end FlowGraph
