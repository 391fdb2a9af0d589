/-!
Maps from strings, kept as lists of entries in increasing order of their keys. Strings compare by
code point, which is also the order of their UTF-8 bytes, so a map built by `Dict.insert` has one
listing, whatever the order in which its entries arrived.

The main statements say what `Dict.get?` reads after `Dict.insert` and `Dict.erase`; they hold for
every list of entries, in order or not.
-/

namespace FlowGraph

universe u

/-- A map from strings: its entries in increasing order of their keys. -/
abbrev Dict (α : Type u) : Type u := List (String × α)

namespace Dict

variable {α : Type u}

def empty : Dict α := []

/-- The value under a key, the first one if the key occurs twice. -/
def get? : Dict α → String → Option α
  | [], _ => none
  | (k, v) :: d, key => if k = key then some v else get? d key

def contains (d : Dict α) (key : String) : Bool :=
  (get? d key).isSome

/-- Puts a value under a key, in the place of the value that was there. -/
def insert : Dict α → String → α → Dict α
  | [], key, value => [(key, value)]
  | (k, v) :: d, key, value =>
    if k = key then (key, value) :: d
    else if key < k then (key, value) :: (k, v) :: d
    else (k, v) :: insert d key value

def erase (d : Dict α) (key : String) : Dict α :=
  d.filter fun e => e.1 ≠ key

def keys (d : Dict α) : List String :=
  d.map (·.1)

/-- The entries of `e`, then those of `d` under the other keys. -/
def union (d e : Dict α) : Dict α :=
  e.foldl (fun acc entry => insert acc entry.1 entry.2) d

/-- The map with the given entries; of two entries with one key the later one counts. -/
def ofList (entries : List (String × α)) : Dict α :=
  union empty entries

/-- Texts in order, each once. -/
def distinct (texts : List String) : List String :=
  keys (ofList (texts.map fun s => (s, ())))

/-- The keys increase strictly from entry to entry. -/
def Sorted (d : Dict α) : Prop :=
  d.Pairwise fun a b => a.1 < b.1

@[simp] theorem get?_nil (key : String) : get? ([] : Dict α) key = none := rfl

theorem get?_cons (k : String) (v : α) (d : Dict α) (key : String) :
    get? ((k, v) :: d) key = if k = key then some v else get? d key := rfl

@[simp] theorem get?_insert_self (d : Dict α) (key : String) (value : α) :
    get? (insert d key value) key = some value := by
  induction d with
  | nil => simp [insert, get?]
  | cons e d ih =>
    obtain ⟨k, v⟩ := e
    by_cases hk : k = key
    · simp [insert, get?, hk]
    · by_cases hl : key < k <;> simp [insert, get?, hk, hl, ih]

theorem get?_insert_of_ne (d : Dict α) {key other : String} (value : α) (h : other ≠ key) :
    get? (insert d key value) other = get? d other := by
  have h' : ¬ key = other := fun e => h e.symm
  induction d with
  | nil => simp [insert, get?, h']
  | cons e d ih =>
    obtain ⟨k, v⟩ := e
    by_cases hk : k = key
    · subst hk
      simp [insert, get?, h']
    · by_cases hl : key < k <;> simp [insert, get?, hk, hl, h', ih]

@[simp] theorem get?_erase_self (d : Dict α) (key : String) : get? (erase d key) key = none := by
  induction d with
  | nil => rfl
  | cons e d ih =>
    obtain ⟨k, v⟩ := e
    by_cases hk : k = key
    · simpa [erase, hk] using ih
    · simpa [erase, hk, get?] using ih

end Dict

end FlowGraph
