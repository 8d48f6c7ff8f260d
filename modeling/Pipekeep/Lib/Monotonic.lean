import Mathlib.Algebra.Group.Int.Defs
import Mathlib.Algebra.Group.Nat.Defs

/-!
# Instants of a monotonic clock

An instant has its seconds in a signed 64-bit integer and nanoseconds below a second, a duration its
seconds in an unsigned one. Adding a duration is checked; where the sum has no place, there is none.

`ticks` counts nanoseconds, of an instant from the earliest one on. Checked addition is the addition
of ticks, as far as there are instants.
-/

namespace Monotonic

/-- The nanoseconds of a second. -/
def second : Nat := 1000000000

def maxSecs : Int := 2 ^ 63 - 1

structure Instant where
  secs : Int
  nanos : Nat
  bounds : -2 ^ 63 ≤ secs ∧ secs ≤ maxSecs
  nanos_lt : nanos < second
  deriving DecidableEq

structure Duration where
  secs : Nat
  nanos : Nat
  secs_lt : secs < 2 ^ 64
  nanos_lt : nanos < second
  deriving DecidableEq

/-- `from_secs`. -/
def Duration.ofSecs (secs : Nat) (h : secs < 2 ^ 64) : Duration where
  secs := secs
  nanos := 0
  secs_lt := h
  nanos_lt := by decide

namespace Instant

/-- The instant of later seconds, if there is one. -/
def later (t : Instant) (secs nanos : Nat) (h : nanos < second) : Option Instant :=
  if fits : t.secs + secs ≤ maxSecs then
    some ⟨t.secs + secs, nanos, ⟨by have := t.bounds.1; omega, fits⟩, h⟩
  else
    none

/-- Checked addition: the nanoseconds may carry a second. -/
def checkedAdd (t : Instant) (d : Duration) : Option Instant :=
  if h : t.nanos + d.nanos < second then
    t.later d.secs (t.nanos + d.nanos) h
  else
    t.later (d.secs + 1) (t.nanos + d.nanos - second) (by
      have := t.nanos_lt
      have := d.nanos_lt
      omega)

def ticks (t : Instant) : Nat := (t.secs + 2 ^ 63).toNat * second + t.nanos

end Instant

def Duration.ticks (d : Duration) : Nat := d.secs * second + d.nanos

theorem Duration.ticks_ofSecs (secs : Nat) (h : secs < 2 ^ 64) :
    (Duration.ofSecs secs h).ticks = secs * second := by
  rw [Duration.ticks, Duration.ofSecs]
  exact Nat.add_zero _

variable {t u : Instant} {d : Duration}

theorem Instant.later_ticks {secs nanos : Nat} {h : nanos < second}
    (hsome : t.later secs nanos h = some u) :
    u.ticks = (t.secs + 2 ^ 63).toNat * second + secs * second + nanos := by
  have := t.bounds
  unfold later at hsome
  split at hsome
  · cases hsome
    unfold ticks second
    dsimp only
    omega
  · cases hsome

/-- **A checked sum is exact.** -/
theorem Instant.checkedAdd_ticks (h : t.checkedAdd d = some u) : u.ticks = t.ticks + d.ticks := by
  unfold checkedAdd at h
  split at h
  · rw [later_ticks h, ticks, Duration.ticks]
    omega
  next hcarry =>
    rw [later_ticks h, ticks, Duration.ticks]
    unfold second at hcarry ⊢
    omega

/-- Whole seconds have a sum as long as its seconds fit. -/
theorem Instant.checkedAdd_ofSecs {secs : Nat} {h : secs < 2 ^ 64} :
    (t.checkedAdd (.ofSecs secs h)).isSome ↔ t.secs + secs ≤ maxSecs := by
  have small : t.nanos + (Duration.ofSecs secs h).nanos < second := t.nanos_lt
  rw [checkedAdd, dif_pos small, later]
  split
  next fits => exact iff_of_true rfl fits
  next fits => exact iff_of_false (by decide) fits

theorem Instant.checkedAdd_secs {secs : Nat} {h : secs < 2 ^ 64}
    (hsome : t.checkedAdd (.ofSecs secs h) = some u) : u.secs = t.secs + secs := by
  have small : t.nanos + (Duration.ofSecs secs h).nanos < second := t.nanos_lt
  rw [checkedAdd, dif_pos small, later] at hsome
  split at hsome
  · cases hsome
    rfl
  · cases hsome

end Monotonic
