import Mathlib.Data.Option.Basic

/-!
# Values that are set once

A latch is an optional value that several tasks may set and only the first does. Between two states
of a run it is related by `Latched`: what the earlier state has, the later one has too.
-/

variable {α : Type*}

/-- What is set stays as it is. -/
def Latched (a b : Option α) : Prop := ∀ x, a = some x → b = some x

theorem Latched.refl (a : Option α) : Latched a a := fun _ h => h

theorem Latched.trans {a b c : Option α} (h : Latched a b) (h' : Latched b c) : Latched a c :=
  fun x hx => h' x (h x hx)

/-- `get_or_insert`. -/
theorem latched_or (a b : Option α) : Latched a (a.or b) := by
  intro x hx
  rw [hx, Option.some_or]

/-- What is not set yet may become anything. -/
theorem latched_none {a : Option α} (h : a = none) (b : Option α) : Latched a b := by
  intro x hx
  rw [h] at hx
  cases hx

theorem Latched.isSome {a b : Option α} (h : Latched a b) (ha : a.isSome = true) :
    b.isSome = true := by
  obtain ⟨x, hx⟩ := Option.isSome_iff_exists.mp ha
  rw [h x hx]
  rfl
