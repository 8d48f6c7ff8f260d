import Mathlib.Logic.Relation

/-!
# Loops with early exits

A `while` loop whose body goes round again, breaks, or leaves the function around the loop with an
error, as a guard and a body over a state. A loop carries the measure that its turns shrink, so
running it is total.

`run` is the state after the loop, or the error. `run_eq_iff` reads a run as the turns it takes and
the way its last state leaves the loop, and `Turns.invariant` is the induction over the turns.
-/

/-- A body yields the state to go round with, or is done with the state after a `break`. -/
structure Loop (ε σ : Type*) where
  guard : σ → Bool
  body : σ → Except ε (ForInStep σ)
  size : σ → Nat
  shrinks {s t : σ} : guard s = true → body s = .ok (.yield t) → size t < size s

namespace Loop

variable {ε σ : Type*} (l : Loop ε σ)

def run (s : σ) : Except ε σ :=
  if _guarded : l.guard s = true then
    match _turn : l.body s with
    | .error e => .error e
    | .ok (.done t) => .ok t
    | .ok (.yield t) => run t
  else
    .ok s
termination_by l.size s
decreasing_by exact l.shrinks _guarded _turn

/-- One turn that goes round. -/
def Turn (s t : σ) : Prop :=
  l.guard s = true ∧ l.body s = .ok (.yield t)

/-- Any number of turns. -/
abbrev Turns (s t : σ) : Prop :=
  Relation.ReflTransGen l.Turn s t

/-- How a state leaves the loop: its guard fails, or its body breaks or returns. -/
inductive Leaves : σ → Except ε σ → Prop
  | ended {s : σ} : l.guard s = false → Leaves s (.ok s)
  | done {s t : σ} : l.guard s = true → l.body s = .ok (.done t) → Leaves s (.ok t)
  | error {s : σ} {e : ε} : l.guard s = true → l.body s = .error e → Leaves s (.error e)

variable {l}

theorem run_leaves {s : σ} {r : Except ε σ} (h : l.Leaves s r) : l.run s = r := by
  cases h with
  | ended hguard => rw [run, dif_neg (by rw [hguard]; exact Bool.false_ne_true)]
  | done hguard hbody =>
    rw [run, dif_pos hguard]
    split <;> simp_all
  | error hguard hbody =>
    rw [run, dif_pos hguard]
    split <;> simp_all

theorem run_turn {s t : σ} (h : l.Turn s t) : l.run s = l.run t := by
  rw [run, dif_pos h.1]
  have := h.2
  split <;> simp_all

theorem run_turns {s t : σ} (h : l.Turns s t) : l.run s = l.run t := by
  induction h with
  | refl => rfl
  | tail _ hturn ih => exact ih.trans (run_turn hturn)

/-- Every run is turns up to a state that leaves. -/
theorem exists_leaves (s : σ) : ∃ t, l.Turns s t ∧ l.Leaves t (l.run s) := by
  induction hsize : l.size s using Nat.strongRecOn generalizing s with
  | _ size ih =>
    cases hguard : l.guard s with
    | false => exact ⟨s, .refl, by rw [run_leaves (.ended hguard)]; exact .ended hguard⟩
    | true =>
      cases hbody : l.body s with
      | error e =>
        exact ⟨s, .refl, by rw [run_leaves (.error hguard hbody)]; exact .error hguard hbody⟩
      | ok step =>
        cases step with
        | done t =>
          exact ⟨s, .refl, by rw [run_leaves (.done hguard hbody)]; exact .done hguard hbody⟩
        | yield t =>
          have smaller := l.shrinks hguard hbody
          obtain ⟨last, turns, leaves⟩ := ih (l.size t) (hsize ▸ smaller) t rfl
          have hturn : l.Turn s t := ⟨hguard, hbody⟩
          exact ⟨last, .head hturn turns, by rw [run_turn hturn]; exact leaves⟩

theorem run_eq_iff {s : σ} {r : Except ε σ} :
    l.run s = r ↔ ∃ t, l.Turns s t ∧ l.Leaves t r := by
  constructor
  · rintro rfl
    exact exists_leaves s
  · rintro ⟨t, turns, leaves⟩
    exact (run_turns turns).trans (run_leaves leaves)

/-- What holds at first and survives a turn holds wherever the turns lead. -/
theorem Turns.invariant {P : σ → Prop} {s t : σ} (h : l.Turns s t) (first : P s)
    (turn : ∀ s t, P s → l.guard s = true → l.body s = .ok (.yield t) → P t) : P t := by
  induction h with
  | refl => exact first
  | tail _ hturn ih => exact turn _ _ ih hturn.1 hturn.2

end Loop
