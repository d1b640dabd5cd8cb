import Mathlib.Tactic.Common

/-!
# Outcomes

What can go wrong is an outcome, a value or an error. A chain of steps gives a value exactly if each
of its steps does.

* **`bind_eq_ok_iff`**: the value of a chain comes from a value of its first step.
* `mapError_eq_ok_iff`: other errors make no other values.
* `Outcome.Alike`: chains with the same errors, and with values that belong together.
-/

namespace GuestShare

namespace Outcome

universe u

variable {ε ε' : Type u} {α β : Type u} {x : Except ε α} {f : α → Except ε β}

@[simp] theorem ok_bind (a : α) : ((.ok a : Except ε α) >>= f) = f a := rfl

@[simp] theorem error_bind (e : ε) : ((.error e : Except ε α) >>= f) = .error e := rfl

@[simp] theorem pure_eq_ok (a : α) : (pure a : Except ε α) = .ok a := rfl

@[simp] theorem throw_eq_error (e : ε) : (throw e : Except ε α) = .error e := rfl

/-- **A chain gives a value exactly if its steps do.** -/
theorem bind_eq_ok_iff {b : β} : (x >>= f) = .ok b ↔ ∃ a, x = .ok a ∧ f a = .ok b := by
  cases x with
  | error e => simp
  | ok a => simp

theorem bind_eq_bind {g : α → Except ε β} (hf : ∀ a, x = .ok a → f a = g a) :
    (x >>= f) = (x >>= g) := by
  cases x with
  | error e => rfl
  | ok a => exact hf a rfl

theorem mapError_eq_ok_iff {g : ε → ε'} {a : α} : x.mapError g = .ok a ↔ x = .ok a := by
  cases x <;> simp [Except.mapError]

theorem map_eq_ok_iff {g : α → β} {b : β} : g <$> x = .ok b ↔ ∃ a, x = .ok a ∧ g a = b := by
  cases x <;> simp [Functor.map, Except.map]

theorem exists_of_mapM_eq_ok {γ : Type u} {g : γ → Except ε α} {cs : List γ} {as : List α}
    {c : γ} (hm : cs.mapM g = .ok as) (hc : c ∈ cs) : ∃ a, g c = .ok a := by
  induction cs generalizing as with
  | nil => cases hc
  | cons c' cs ih =>
    rw [List.mapM_cons] at hm
    obtain ⟨a, ha, hm⟩ := bind_eq_ok_iff.mp hm
    obtain ⟨as', has, -⟩ := bind_eq_ok_iff.mp hm
    rcases List.mem_cons.mp hc with rfl | hc
    · exact ⟨a, ha⟩
    · exact ih has hc

/-- The same error, or two values that belong together. -/
inductive Alike (R : α → α → Prop) : Except ε α → Except ε α → Prop
  | error (e : ε) : Alike R (.error e) (.error e)
  | ok {a b : α} : R a b → Alike R (.ok a) (.ok b)

theorem Alike.bind {R : β → β → Prop} {g : α → Except ε β}
    (hf : ∀ a, x = .ok a → Alike R (f a) (g a)) : Alike R (x >>= f) (x >>= g) := by
  cases x with
  | error e => exact .error e
  | ok a => exact hf a rfl

theorem Alike.andThen {Q : α → α → Prop} {R : β → β → Prop} {y : Except ε α}
    {g : α → Except ε β} (hxy : Alike Q x y) (hf : ∀ a b, Q a b → Alike R (f a) (g b)) :
    Alike R (x >>= f) (y >>= g) := by
  cases hxy with
  | error e => exact .error e
  | ok hab => exact hf _ _ hab

end Outcome

end GuestShare
