import Pipekeep.Deadlines

/-!
# Which deadlines there are

The deadlines of an opted-in session stay within a day and a day of the clock, so that every clock a
host has leaves room for them, and they are the deadlines of the operation's model. The deadline of
an ordinary cancellation is as far off as its variable says.
-/

namespace Pipekeep.Deadlines

open Monotonic

variable {env : Environment} {c : Cancellation} {now : Instant} {grace settlement : Duration}
  {term kill : Except String Bool} {remains signaled : Bool} {looks : List Look}

/-- Where the sums have their places, the operation starts as its model does. -/
theorem start_eq {s : Bool × Cancellation} (h : start c now grace settlement = some s) :
    s = c.start now.ticks grace.ticks settlement.ticks := by
  unfold start at h
  unfold Cancellation.start
  split at h
  next hphase =>
    cases h
    rw [if_pos hphase]
  next hphase =>
    rw [if_neg hphase]
    cases hgrace : now.checkedAdd grace with
    | none =>
      rw [hgrace] at h
      cases h
    | some graceDeadline =>
      rw [hgrace] at h
      cases hfinish : graceDeadline.checkedAdd settlement with
      | none =>
        simp [hfinish] at h
      | some finishDeadline =>
        simp only [Option.bind_eq_bind, Option.bind_some, hfinish, Option.pure_def,
          Option.some.injEq] at h
        rw [← h, Instant.checkedAdd_ticks hfinish, Instant.checkedAdd_ticks hgrace]

/-- What an opted-in session adds, in seconds. -/
def hardenedSecs (env : Environment) : Nat :=
  env.hardenedGrace.secs + env.hardenedSettlement.secs

theorem hardenedSecs_le (env : Environment) : hardenedSecs env ≤ 172800 := by
  have hgrace := envSeconds_le env.cancelGraceSecs 3
  have hsettle := envSeconds_le env.cancelSettleSecs 30
  unfold hardenedSecs Environment.hardenedGrace Environment.hardenedSettlement Duration.ofSecs
  dsimp only
  omega

/-- A ready operation starts where both of its sums have their places. -/
theorem start_ready (hphase : c.phase = .ready) : (start c now grace settlement).isSome ↔
    ((now.checkedAdd grace).bind fun t => t.checkedAdd settlement).isSome := by
  unfold start
  rw [if_neg (by simp [hphase])]
  cases hgrace : now.checkedAdd grace with
  | none => exact Iff.rfl
  | some graceDeadline => cases hfinish : graceDeadline.checkedAdd settlement <;> simp [hfinish]

theorem start_joined (hphase : c.phase ≠ .ready) : (start c now grace settlement).isSome := by
  unfold start
  rw [if_pos hphase]
  rfl

theorem two_sums {a b : Nat} {ha : a < 2 ^ 64} {hb : b < 2 ^ 64} :
    ((now.checkedAdd (.ofSecs a ha)).bind fun t => t.checkedAdd (.ofSecs b hb)).isSome ↔
      now.secs + (a + b : Nat) ≤ maxSecs := by
  cases hsum : now.checkedAdd (.ofSecs a ha) with
  | none =>
    have sum := Instant.checkedAdd_ofSecs (t := now) (h := ha)
    rw [hsum] at sum
    have : ¬ now.secs + a ≤ maxSecs := fun h => by cases sum.mpr h
    refine iff_of_false (by simp) ?_
    omega
  | some t =>
    rw [Option.bind_some, Instant.checkedAdd_ofSecs, Instant.checkedAdd_secs hsum]
    push_cast
    rw [Int.add_assoc]

theorem startHardened_isSome :
    (∀ c, (startHardened env c now).isSome) ↔ now.secs + hardenedSecs env ≤ maxSecs := by
  constructor
  · intro h
    have ready : (Cancellation.verifyAcquired (.ok ()) (.ok true)).phase = .ready := rfl
    exact two_sums.mp ((start_ready ready).mp (h _))
  · intro h c
    by_cases hphase : c.phase = .ready
    · exact (start_ready hphase).mpr (two_sums.mpr h)
    · exact start_joined hphase

/-! ## Ordinary cancellation -/

theorem escalate_ne_panicked {deadline : Instant} :
    (escalate deadline kill remains signaled looks).ending ≠ .panicked := by
  induction looks with
  | nil => simp [escalate]
  | cons look looks ih =>
    unfold escalate
    split
    · exact ih
    · split
      · split <;> simp
      · simp

/-- A group that outlives the deadline gets its second signal. -/
theorem escalate_kills {deadline : Instant}
    (late : ∃ look ∈ looks, deadline.ticks ≤ look.now.ticks) :
    (escalate deadline kill true signaled looks).signals = [.term, .kill] := by
  induction looks with
  | nil =>
    obtain ⟨_, h, _⟩ := late
    cases h
  | cons look looks ih =>
    unfold escalate
    split
    next early =>
      have early : look.now.ticks < deadline.ticks :=
        of_decide_eq_true (Bool.and_eq_true_iff.mp early).2
      obtain ⟨_, h, hlate⟩ := late
      rcases List.mem_cons.mp h with rfl | h
      · omega
      · exact ih ⟨_, h, hlate⟩
    · cases kill <;> rfl

/-- A panic comes after the SIGTERM, and instead of the wait and the second signal. -/
theorem panicked_iff : (cancelProcessGroup env term kill now remains looks).ending = .panicked ↔
    (∃ signaled, term = .ok signaled) ∧ now.checkedAdd env.grace = none := by
  unfold cancelProcessGroup
  cases term with
  | error e => simp
  | ok signaled =>
    cases hsum : now.checkedAdd env.grace with
    | none => simp
    | some deadline => simp [escalate_ne_panicked]

/-- An ordinary cancellation that has its deadline escalates. -/
theorem cancelProcessGroup_kills (fits : now.secs + seconds env.cancelGraceSecs 3 ≤ maxSecs)
    (late : ∃ look ∈ looks, now.ticks + env.grace.ticks ≤ look.now.ticks) :
    (cancelProcessGroup env (.ok signaled) kill now true looks).signals = [.term, .kill] := by
  obtain ⟨deadline, hsum⟩ := Option.isSome_iff_exists.mp (Instant.checkedAdd_ofSecs.mpr fits)
  have hgrace : now.checkedAdd env.grace = some deadline := hsum
  rw [← Instant.checkedAdd_ticks hgrace] at late
  simp only [cancelProcessGroup, hgrace]
  exact escalate_kills late

/-- Whatever its variable says, an idle session ends after a day. -/
theorem hardenedExpired_day {since : Instant}
    (day : since.ticks + 86400 * second ≤ now.ticks) :
    (hardenedExpired env (some since) now false true).2 = true := by
  have ttl : env.hardenedTtl.ticks ≤ 86400 * second := by
    rw [Environment.hardenedTtl, Duration.ticks_ofSecs]
    exact Nat.mul_le_mul_right _ (envSeconds_le _ _)
  simp only [hardenedExpired, Hardened.hardenedExpired, Option.map_some, Option.getD_some]
  exact decide_eq_true (by omega)

/-! ## Every deadline -/

/-- No cancellation that starts now aborts for want of a deadline. -/
def InRange (env : Environment) (now : Instant) : Prop :=
  (∀ c, (startHardened env c now).isSome) ∧
    ∀ term kill remains looks,
      (cancelProcessGroup env term kill now remains looks).ending ≠ .panicked

/-- **Which deadlines are in range**: those of an opted-in session that add up to an instant, a day
and a day at most, and those of an ordinary one whose grace does. -/
theorem deadlines_inRange : InRange env now ↔
    now.secs + seconds env.cancelGraceSecs 3 ≤ maxSecs ∧
      now.secs + hardenedSecs env ≤ maxSecs := by
  unfold InRange
  rw [startHardened_isSome, and_comm]
  apply and_congr_left'
  have sum : (now.checkedAdd env.grace).isSome ↔
      now.secs + seconds env.cancelGraceSecs 3 ≤ maxSecs := Instant.checkedAdd_ofSecs
  rw [← sum]
  constructor
  · intro h
    rw [Option.isSome_iff_ne_none]
    exact fun none => h (.ok true) (.ok true) true [] (panicked_iff.mpr ⟨⟨true, rfl⟩, none⟩)
  · intro fits _ _ _ _ hpanic
    rw [(panicked_iff.mp hpanic).2] at fits
    cases fits

/-- A clock with room for two days decides by the grace alone. -/
theorem deadlines_inRange_room (room : now.secs + 172800 ≤ maxSecs) : InRange env now ↔
    now.secs + seconds env.cancelGraceSecs 3 ≤ maxSecs := by
  have := hardenedSecs_le env
  rw [deadlines_inRange]
  exact and_iff_left (by omega)

/-- The largest grace, a second after the clock's start. -/
theorem deadlines_inRange_unclamped : ¬ ∀ env now, InRange env now := by
  intro h
  have inRange := (h ⟨some "18446744073709551615", none, none⟩ ⟨1, 0, by decide, by decide⟩).2
  exact inRange (.ok true) (.ok true) true [] (by decide +kernel)

end Pipekeep.Deadlines
