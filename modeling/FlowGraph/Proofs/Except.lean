import Mathlib.Tactic.Common

/-!
Computations that may end with an error: what it takes for one to have a value, what it takes for one to
have an error, and when two of them end alike.
-/

namespace FlowGraph

theorem bind_eq_ok {ε α β : Type} {x : Except ε α} {next : α → Except ε β} {b : β}
    (h : (x >>= next) = .ok b) : ∃ a, x = .ok a ∧ next a = .ok b := by
  cases x with
  | error e => exact absurd h (by simp [bind, Except.bind])
  | ok a => exact ⟨a, rfl, h⟩

theorem ok_bind {ε α β : Type} (a : α) (next : α → Except ε β) :
    ((.ok a : Except ε α) >>= next) = next a := rfl

theorem mapError_ok {ε δ α : Type} (f : ε → δ) (a : α) :
    (.ok a : Except ε α).mapError f = .ok a := rfl

theorem mapError_eq_ok {ε δ α : Type} {x : Except ε α} {f : ε → δ} {a : α}
    (h : x.mapError f = .ok a) : x = .ok a := by
  cases x with
  | error e => exact absurd h (by simp [Except.mapError])
  | ok b => simpa [Except.mapError] using h

theorem eq_ok_of_toOption_eq_some {ε α : Type} {x : Except ε α} {a : α}
    (h : x.toOption = some a) : x = .ok a := by
  cases x with
  | error e => exact absurd h (by simp [Except.toOption])
  | ok b => simpa [Except.toOption] using h

def errorOf {ε α : Type} : Except ε α → Option ε
  | .ok _ => none
  | .error e => some e

theorem eq_error_of_errorOf {ε α : Type} {x : Except ε α} {e : ε} (h : errorOf x = some e) :
    x = .error e := by
  cases x with
  | ok a => exact absurd h (by simp [errorOf])
  | error e' => exact congrArg Except.error (Option.some.inj h)

theorem bind_eq_error {ε α β : Type} {x : Except ε α} {next : α → Except ε β} {e : ε}
    (h : (x >>= next) = .error e) : x = .error e ∨ ∃ a, x = .ok a ∧ next a = .error e := by
  cases x with
  | error e' =>
      obtain rfl : e' = e := Except.error.inj h
      exact Or.inl rfl
  | ok a => exact Or.inr ⟨a, rfl, h⟩

/-- Whether two computations end alike: with the same error, or with values that belong together. -/
inductive Alike {ε α β : Type} (R : α → β → Prop) : Except ε α → Except ε β → Prop
  | error (e : ε) : Alike R (.error e) (.error e)
  | ok {a : α} {b : β} (h : R a b) : Alike R (.ok a) (.ok b)

namespace Alike

variable {ε α β γ δ : Type} {R : α → β → Prop} {S : γ → δ → Prop} {x : Except ε α} {y : Except ε β}

theorem bind (h : Alike R x y) {next : α → Except ε γ} {next' : β → Except ε δ}
    (hnext : ∀ a b, R a b → Alike S (next a) (next' b)) : Alike S (x >>= next) (y >>= next') := by
  cases h with
  | error e => exact .error e
  | ok h => exact hnext _ _ h

/-- Two computations that begin with the same one. -/
theorem bind_same (z : Except ε α) {next : α → Except ε γ} {next' : α → Except ε δ}
    (hnext : ∀ a, Alike S (next a) (next' a)) : Alike S (z >>= next) (z >>= next') := by
  cases z with
  | error e => exact .error e
  | ok a => exact hnext a

theorem map_left {T : γ → β → Prop} (h : Alike R x y) {f : α → γ} (hf : ∀ a b, R a b → T (f a) b) :
    Alike T (x >>= fun a => .ok (f a)) y := by
  cases h with
  | error e => exact .error e
  | ok h => exact .ok (hf _ _ h)

/-- Computations that are the same but for what a function does not tell apart. -/
theorem of_map_eq {x y : Except ε α} {f : α → β} (h : x.map f = y.map f) :
    Alike (fun a b => f a = f b) x y := by
  cases x with
  | error e =>
      cases y with
      | error e' =>
          obtain rfl := Except.error.inj h
          exact .error e
      | ok b => exact absurd h (by simp [Except.map])
  | ok a =>
      cases y with
      | error e' => exact absurd h (by simp [Except.map])
      | ok b => exact .ok (Except.ok.inj h)

end Alike

end FlowGraph
