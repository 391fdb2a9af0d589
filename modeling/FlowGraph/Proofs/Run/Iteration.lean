import FlowGraph.Proofs.Run.Journal
import FlowGraph.Proofs.Run.Machine

/-!
The order of iterations. An iteration is told by the indices of the elements of the loops around it;
one comes before another if it has the smaller index in the first place where they differ. Of two
iterations in this order neither lies inside the other, so that what is known to come before an
iteration has no part in it.
-/

namespace FlowGraph

/-- Whether one iteration is over before another one begins. -/
def Precedes : List Nat → List Nat → Prop
  | i :: v, j :: w => i < j ∨ i = j ∧ Precedes v w
  | _, _ => False

namespace Precedes

variable {v w : List Nat}

theorem irrefl (v : List Nat) : ¬ Precedes v v := by
  induction v with
  | nil => exact id
  | cons i v ih =>
      rintro (h | ⟨-, h⟩)
      · exact Nat.lt_irrefl i h
      · exact ih h

theorem ne (h : Precedes v w) : v ≠ w := by
  rintro rfl
  exact irrefl v h

theorem append (h : Precedes v w) (x y : List Nat) : Precedes (v ++ x) (w ++ y) := by
  induction v generalizing w with
  | nil => exact h.elim
  | cons i v ih =>
      cases w with
      | nil => exact h.elim
      | cons j w =>
          rcases h with h | ⟨heq, h⟩
          · exact Or.inl h
          · exact Or.inr ⟨heq, ih h⟩

/-- An iteration does not come before one that it lies in. -/
theorem not_prefix_left (h : Precedes v w) : ¬ v <+: w := by
  rintro ⟨x, rfl⟩
  exact irrefl _ (List.append_nil (v ++ x) ▸ h.append x [])

theorem not_prefix_right (h : Precedes v w) : ¬ w <+: v := by
  rintro ⟨x, rfl⟩
  exact irrefl _ (List.append_nil (w ++ x) ▸ h.append [] x)

theorem next (v : List Nat) (i : Nat) (x : List Nat) : Precedes (v ++ [i] ++ x) (v ++ [i + 1]) := by
  induction v with
  | nil => exact Or.inl (Nat.lt_succ_self i)
  | cons j v ih => exact Or.inr ⟨rfl, ih⟩

theorem succ {i : Nat} (h : Precedes v (w ++ [i])) : Precedes v (w ++ [i + 1]) := by
  induction v generalizing w with
  | nil => exact h.elim
  | cons j v ih =>
      cases w with
      | nil =>
          rcases h with h | ⟨-, h⟩
          · exact Or.inl (by omega)
          · cases v <;> exact h.elim
      | cons k w =>
          rcases h with h | ⟨heq, h⟩
          · exact Or.inl h
          · exact Or.inr ⟨heq, ih h⟩

end Precedes

/-- Whether a journal has the nodes in question at work only before an iteration. -/
def AllPrecede (journal : List Entry) (nodeIds : String → Prop) (iteration : List Nat) : Prop :=
  ∀ e ∈ journal, ∀ id it, e.located? = some (id, it) → nodeIds id → Precedes it iteration

namespace AllPrecede

variable {journal : List Entry} {nodeIds : String → Prop} {iteration : List Nat}

theorem extend (h : AllPrecede journal nodeIds iteration) {added : List Entry}
    (hadded : ∀ e ∈ added, ∀ id it, e.located? = some (id, it) → nodeIds id →
      Precedes it iteration) : AllPrecede (added ++ journal) nodeIds iteration := by
  intro e he
  rcases List.mem_append.mp he with he | he
  · exact hadded e he
  · exact h e he

theorem mono (h : AllPrecede journal nodeIds iteration) {nodeIds' : String → Prop}
    (hsub : ∀ id, nodeIds' id → nodeIds id) : AllPrecede journal nodeIds' iteration :=
  fun e he id it hlocated hid => h e he id it hlocated (hsub id hid)

theorem append (h : AllPrecede journal nodeIds iteration) (x : List Nat) :
    AllPrecede journal nodeIds (iteration ++ x) := by
  intro e he id it hlocated hid
  have hprecedes := (h e he id it hlocated hid).append [] x
  rwa [List.append_nil] at hprecedes

theorem visited (h : AllPrecede journal nodeIds iteration) {v : Visit}
    (hv : Entry.visited v ∈ journal) (hid : nodeIds v.nodeId) : Precedes v.iteration iteration :=
  h _ hv _ _ rfl hid

theorem not_completedIn (h : AllPrecede journal nodeIds iteration) {id : String}
    (hid : nodeIds id) (c : Completed) : ¬ CompletedIn journal id iteration c := by
  intro hc
  obtain ⟨_, _, -, hmem⟩ := hc.visited_mem
  exact (h.visited hmem hid).ne rfl

end AllPrecede

end FlowGraph
