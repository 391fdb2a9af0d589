import FlowGraph.Dict
import Mathlib.Data.String.Basic
import Mathlib.Order.Basic

/-!
The keys of maps. Putting a value under a key keeps the entries in order, so a map that is made up by
`Dict.insert` lists every key once; and putting it a second time changes nothing.
-/

namespace FlowGraph.Dict

variable {α : Type} {d : Dict α} {key : String}

theorem mem_of_get?_eq_some {value : α} (h : get? d key = some value) : (key, value) ∈ d := by
  induction d with
  | nil => exact absurd h (by simp)
  | cons e d ih =>
      obtain ⟨k, v⟩ := e
      rw [get?_cons] at h
      split_ifs at h with hk
      · obtain rfl := Option.some.inj h
        exact hk ▸ List.mem_cons_self
      · exact List.mem_cons_of_mem _ (ih h)

theorem mem_keys_iff : key ∈ keys d ↔ (get? d key).isSome = true := by
  induction d with
  | nil => simp [keys]
  | cons e d ih =>
      obtain ⟨k, v⟩ := e
      rw [get?_cons]
      by_cases hk : k = key
      · simp [keys, hk]
      · rw [if_neg hk, ← ih]
        simp [keys, Ne.symm hk]

/-- Of two values put under one key the later one counts. -/
theorem insert_insert (d : Dict α) (key : String) (first later : α) :
    Dict.insert (Dict.insert d key first) key later = Dict.insert d key later := by
  induction d with
  | nil => simp [Dict.insert]
  | cons e d ih =>
      obtain ⟨k, v⟩ := e
      by_cases hk : k = key
      · simp [Dict.insert, hk]
      · by_cases hlt : key < k
        · simp [Dict.insert, hk, hlt]
        · simp [Dict.insert, hk, hlt, ih]

theorem mem_insert {value : α} {e : String × α} (h : e ∈ Dict.insert d key value) :
    e = (key, value) ∨ e ∈ d := by
  induction d with
  | nil => exact Or.inl (List.mem_singleton.mp h)
  | cons e' d ih =>
      obtain ⟨k, v⟩ := e'
      rw [Dict.insert] at h
      split_ifs at h
      · exact (List.mem_cons.mp h).imp_right (List.mem_cons_of_mem _)
      · exact List.mem_cons.mp h
      · rcases List.mem_cons.mp h with rfl | h
        · exact Or.inr List.mem_cons_self
        · exact (ih h).imp_right (List.mem_cons_of_mem _)

theorem mem_keys_insert {value : α} {other : String} (h : other ∈ keys (insert d key value)) :
    other = key ∨ other ∈ keys d := by
  obtain ⟨e, he, rfl⟩ := List.mem_map.mp h
  exact (mem_insert he).imp (congrArg Prod.fst) List.mem_map_of_mem

/-- What belongs behind all entries is put there. -/
theorem insert_of_keys_lt (value : α) (h : ∀ e ∈ d, e.1 < key) :
    Dict.insert d key value = d ++ [(key, value)] := by
  induction d with
  | nil => rfl
  | cons e d ih =>
      obtain ⟨k, v⟩ := e
      have hlt : k < key := h _ List.mem_cons_self
      rw [Dict.insert, if_neg (ne_of_lt hlt), if_neg (lt_asymm hlt),
        ih fun e he => h e (List.mem_cons_of_mem _ he), List.cons_append]

/-- Entries in order, put into a map one after the other, stand there as they came. -/
theorem union_of_sorted {e : Dict α} (h : Sorted (d ++ e)) : union d e = d ++ e := by
  induction e generalizing d with
  | nil => exact (List.append_nil d).symm
  | cons entry e ih =>
      have hlast : ∀ f ∈ d, f.1 < entry.1 := fun f hf =>
        (List.pairwise_append.mp h).2.2 f hf entry List.mem_cons_self
      have hnext : Dict.insert d entry.1 entry.2 ++ e = d ++ entry :: e := by
        rw [insert_of_keys_lt entry.2 hlast, List.append_assoc, List.singleton_append]
      rw [← hnext] at h ⊢
      exact ih h

theorem Sorted.insert (h : Sorted d) (value : α) : Sorted (Dict.insert d key value) := by
  induction d with
  | nil => exact List.pairwise_singleton _ _
  | cons e d ih =>
      obtain ⟨k, v⟩ := e
      obtain ⟨hk, hd⟩ := List.pairwise_cons.mp h
      rw [Dict.insert]
      split_ifs with heq hlt
      · subst heq
        exact List.pairwise_cons.mpr ⟨hk, hd⟩
      · refine List.pairwise_cons.mpr ⟨fun e he => ?_, h⟩
        rcases List.mem_cons.mp he with rfl | he
        · exact hlt
        · exact lt_trans hlt (hk e he)
      · refine List.pairwise_cons.mpr ⟨fun e he => ?_, ih hd⟩
        have hkey : e.1 ∈ keys (Dict.insert d key value) := List.mem_map_of_mem he
        rcases mem_keys_insert hkey with heq' | hmem
        · rw [heq']
          exact lt_of_le_of_ne (not_lt.mp hlt) heq
        · obtain ⟨e', he', heq'⟩ := List.mem_map.mp hmem
          exact heq' ▸ hk e' he'

theorem Sorted.nodup_keys (h : Sorted d) : (keys d).Nodup :=
  List.pairwise_map.mpr (h.imp fun hlt => ne_of_lt hlt)

theorem Sorted.get?_eq_some (h : Sorted d) {value : α} (hmem : (key, value) ∈ d) :
    get? d key = some value := by
  induction d with
  | nil => exact absurd hmem List.not_mem_nil
  | cons e d ih =>
      obtain ⟨k, v⟩ := e
      obtain ⟨hk, hd⟩ := List.pairwise_cons.mp h
      rw [get?_cons]
      rcases List.mem_cons.mp hmem with heq | hmem
      · obtain ⟨rfl, rfl⟩ := Prod.mk.inj heq
        exact if_pos rfl
      · rw [if_neg (ne_of_lt (hk _ hmem)), ih hd hmem]

/-- Maps in order are the same if they hold the same. -/
theorem Sorted.eq_of_get?_eq {e : Dict α} (h : Sorted d) (h' : Sorted e)
    (heq : ∀ key, get? d key = get? e key) : d = e := by
  have hnodup : ∀ {d : Dict α}, Sorted d → d.Nodup := fun hd =>
    hd.imp fun hlt heq => absurd (congrArg Prod.fst heq) (ne_of_lt hlt)
  have hmem : ∀ entry, entry ∈ d ↔ entry ∈ e := by
    rintro ⟨key, value⟩
    constructor
    · exact fun hentry => mem_of_get?_eq_some ((heq key).symm.trans (h.get?_eq_some hentry))
    · exact fun hentry => mem_of_get?_eq_some ((heq key).trans (h'.get?_eq_some hentry))
  have hperm := (List.perm_ext_iff_of_nodup (hnodup h) (hnodup h')).mpr hmem
  exact List.Perm.eq_of_pairwise (fun _ _ _ _ hlt hgt => absurd hgt (lt_asymm hlt)) h h' hperm

/-- A value that is there under a key, at the place where it would be put: putting it again changes
nothing. In a map in order this is any value that is there. -/
def Settled (d : Dict α) (key : String) (value : α) : Prop :=
  insert d key value = d

theorem settled_cons {k : String} {v value : α} (h : key ≠ k) (hnot : ¬ key < k) :
    Settled ((k, v) :: d) key value ↔ Settled d key value := by
  rw [Settled, insert, if_neg (Ne.symm h), if_neg hnot, List.cons.injEq, Settled]
  exact and_iff_right rfl

theorem Settled.get? {value : α} (h : Settled d key value) : Dict.get? d key = some value :=
  (congrArg (Dict.get? · key) h).symm.trans (get?_insert_self d key value)

theorem Sorted.settled (h : Sorted d) {value : α} (hget : Dict.get? d key = some value) :
    Settled d key value := by
  induction d with
  | nil => exact absurd hget (by simp)
  | cons e d ih =>
      obtain ⟨k, v⟩ := e
      obtain ⟨hk, hd⟩ := List.pairwise_cons.mp h
      rw [get?_cons] at hget
      split_ifs at hget with heq
      · subst heq
        obtain rfl := Option.some.inj hget
        rw [Settled, Dict.insert, if_pos rfl]
      · have hlt : k < key := hk _ (mem_of_get?_eq_some hget)
        exact (settled_cons (Ne.symm heq) (lt_asymm hlt)).mpr (ih hd hget)

theorem settled_insert (d : Dict α) (key : String) (value : α) :
    Settled (Dict.insert d key value) key value := by
  induction d with
  | nil => simp [Settled, Dict.insert]
  | cons e d ih =>
      obtain ⟨k, v⟩ := e
      rw [Dict.insert]
      split_ifs with heq hlt
      · simp [Settled, Dict.insert]
      · simp [Settled, Dict.insert]
      · exact (settled_cons (Ne.symm heq) hlt).mpr ih

/-- A value stays in its place when another key is given a value. -/
theorem Settled.insert {value : α} (h : Settled d key value) {other : String} (hother : other ≠ key)
    (w : α) : Settled (Dict.insert d other w) key value := by
  induction d with
  | nil => exact absurd h (by simp [Settled, Dict.insert])
  | cons e d ih =>
      obtain ⟨k, v⟩ := e
      rw [Dict.insert]
      by_cases heq : k = key
      · -- The value is the first one, and whatever goes before it has a lesser key.
        subst heq
        obtain rfl : value = v := by simpa [Settled, Dict.insert] using h
        rw [if_neg (Ne.symm hother)]
        split_ifs with hlt
        · exact (settled_cons (Ne.symm hother) (lt_asymm hlt)).mpr h
        · simp [Settled, Dict.insert]
      · have hnot : ¬ key < k := fun hlt => by
          have hhead := congrArg List.head? h
          rw [Dict.insert, if_neg heq, if_pos hlt] at hhead
          exact heq (congrArg Prod.fst (Option.some.inj hhead)).symm
        have hrest := (settled_cons (Ne.symm heq) hnot).mp h
        split_ifs with hkey hlt
        · exact (settled_cons (Ne.symm hother) (hkey ▸ hnot)).mpr hrest
        · exact (settled_cons (Ne.symm hother) fun hgt => hnot (lt_trans hgt hlt)).mpr h
        · exact (settled_cons (Ne.symm heq) hnot).mpr (ih hrest)

end FlowGraph.Dict
