import Mathlib.Data.List.Induction

/-!
# Logs whose entries are justified by their past

A safety property of a log is often that every entry was permitted by the entries before it:
nothing after a failure, a second step only after a first, no repetition. `Justified J` is that
property for a relation `J` between a past and an entry. It grows by one entry at a time, so a
machine that appends to its log proves `J` once for each append.
-/

namespace Log

variable {α : Type*} {J : List α → α → Prop}

/-- Every entry is permitted by the entries before it. -/
def Justified (J : List α → α → Prop) (log : List α) : Prop :=
  ∀ past entry rest, log = past ++ entry :: rest → J past entry

theorem justified_nil : Justified J ([] : List α) := by
  intro past entry rest h
  exact absurd h (by simp)

theorem Justified.snoc {log : List α} {entry : α} (h : Justified J log) (now : J log entry) :
    Justified J (log ++ [entry]) := by
  intro past x rest heq
  rcases List.eq_nil_or_concat rest with rfl | ⟨rest', y, rfl⟩
  · obtain ⟨rfl, hx⟩ := List.append_inj' heq rfl
    cases hx
    exact now
  · rw [List.concat_eq_append, ← List.cons_append, ← List.append_assoc] at heq
    obtain ⟨rfl, _⟩ := List.append_inj' heq rfl
    exact h past x rest' rfl

/-- An entry whose kind may not occur before it occurs at most once. -/
theorem Justified.countP_le_one {p : α → Bool} {log : List α}
    (h : Justified (fun past entry => p entry = true → ∀ x ∈ past, p x = false) log) :
    log.countP p ≤ 1 := by
  induction log using List.reverseRecOn with
  | nil => exact Nat.zero_le _
  | append_singleton log entry ih =>
    have before : Justified (fun past entry => p entry = true → ∀ x ∈ past, p x = false) log := by
      rintro past x rest rfl
      exact h past x (rest ++ [entry]) (by simp only [List.append_assoc, List.cons_append])
    have now := h log entry [] rfl
    rw [List.countP_append, List.countP_singleton]
    cases hp : p entry with
    | false => simpa using ih before
    | true =>
      have hzero : log.countP p = 0 :=
        List.countP_eq_zero.mpr fun x hx => by rw [now hp x hx]; exact Bool.false_ne_true
      rw [hzero]
      exact Nat.le_refl _

theorem Justified.mono {J' : List α → α → Prop} {log : List α}
    (weaker : ∀ past entry, J past entry → J' past entry) (h : Justified J log) :
    Justified J' log :=
  fun past entry rest heq => weaker past entry (h past entry rest heq)

end Log
