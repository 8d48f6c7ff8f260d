import Mathlib.Logic.Function.Basic

/-!
# Parties of a concurrent program

The parties of a program are a partial map from their numbers, and a step of one of them updates one
entry. `forall_update` is the rule for a property of every party, `update_agree` the one for two
maps that agree at an entry.
-/

namespace Parties

variable {ι α : Type*} [DecidableEq ι] {f g : ι → Option α} {i j : ι}

/-- **The update rule.** What holds of the new entry, and of the old ones elsewhere, holds of all.
-/
theorem forall_update {o : Option α} {P : ι → α → Prop} (now : ∀ x, o = some x → P i x)
    (others : ∀ j x, j ≠ i → f j = some x → P j x) :
    ∀ j x, Function.update f i o j = some x → P j x := by
  intro j x h
  by_cases heq : j = i
  · subst heq
    rw [Function.update_self] at h
    exact now x h
  · rw [Function.update_of_ne heq] at h
    exact others j x heq h

/-- The rule for an entry that is there. -/
theorem forall_update_some {a : α} {P : ι → α → Prop} (now : P i a)
    (others : ∀ j x, j ≠ i → f j = some x → P j x) :
    ∀ j x, Function.update f i (some a) j = some x → P j x := by
  apply forall_update _ others
  intro x h
  rw [← Option.some.inj h]
  exact now

/-- Two maps that agree at an entry agree there after the same update. -/
theorem update_agree {o o' : Option α} (now : o = o') (h : j ≠ i → f j = g j) :
    Function.update f i o j = Function.update g i o' j := by
  by_cases heq : j = i
  · subst heq
    rw [Function.update_self, Function.update_self, now]
  · rw [Function.update_of_ne heq, Function.update_of_ne heq]
    exact h heq

end Parties
