import Pipekeep.Protocol
import Pipekeep.Stream

/-!
# What the broker's tasks share

`Meta` is the retained stream state behind the metadata lock, `AttachmentState` the lease state
behind the attachment lock. A lease is a generation number; the generation of the current slot is
the only one with authority. The cancel flag of a generation is a watch channel whose sender
lives in the slot: `cancelled` lists the generations whose flag has been set.
-/

namespace Pipekeep

/-- `CHUNK_SIZE`. -/
def chunkSize : Nat := 32 * 1024

/-- The broker's retained stream state. `ends` is `stdout_end` and `stderr_end`, `closed` is
`stdout_closed` and `stderr_closed`. -/
structure Meta where
  stdinPosition : Nat := 0
  stdinEof : Bool := false
  stdinEofAt : Option Nat := none
  ends : PerStream Nat := .both 0
  closed : PerStream Bool := .both false
  status : Option ExitResult := none
  failure : Option String := none
  deriving DecidableEq, Repr

/-- The condition `announce_if_terminal` tests. -/
def Meta.terminal (m : Meta) : Bool :=
  m.status.isSome && m.closed.stdout && m.closed.stderr

structure AttachmentState where
  nextGeneration : Nat := 1
  current : Option Nat := none
  cancelled : List Nat := []
  deriving DecidableEq, Repr

namespace AttachmentState

/-- `attachment_is_current_locked`. -/
def isCurrent (a : AttachmentState) (generation : Nat) : Bool :=
  a.current == some generation

/-- `install_attachment`: a fresh generation takes the slot and cancels the one it displaces. -/
def install (a : AttachmentState) (force : Bool) : Except Unit (Nat × AttachmentState) :=
  if a.current.isSome && !force then
    .error ()
  else if a.nextGeneration + 1 ≤ u64Max then
    .ok (a.nextGeneration,
      { nextGeneration := a.nextGeneration + 1
        current := some a.nextGeneration
        cancelled := a.current.toList ++ a.cancelled })
  else
    .error ()

/-- `compare_clear_attachment`: only the generation in the slot can empty it. -/
def compareClear (a : AttachmentState) (generation : Nat) : AttachmentState :=
  if a.current = some generation then { a with current := none } else a

/-- A newer generation than `generation` has been installed. -/
def superseded (a : AttachmentState) (generation : Nat) : Bool :=
  decide (generation + 1 < a.nextGeneration)

theorem isCurrent_iff {a : AttachmentState} {generation : Nat} :
    a.isCurrent generation = true ↔ a.current = some generation := by
  unfold isCurrent
  exact beq_iff_eq

theorem install_eq_ok {a : AttachmentState} {force : Bool} {generation : Nat}
    {a' : AttachmentState} (h : a.install force = .ok (generation, a')) :
    (a.current = none ∨ force = true) ∧ generation = a.nextGeneration ∧
      a'.nextGeneration = a.nextGeneration + 1 ∧ a'.current = some a.nextGeneration ∧
      a'.cancelled = a.current.toList ++ a.cancelled := by
  unfold install at h
  split at h
  · cases h
  · rename_i free
    split at h
    · cases h
      refine ⟨?_, rfl, rfl, rfl, rfl⟩
      cases hc : a.current with
      | none => exact .inl rfl
      | some g => exact .inr (by simpa [hc] using free)
    · cases h

/-- Clearing by a generation that is not in the slot changes nothing. -/
theorem compareClear_of_not_current {a : AttachmentState} {generation : Nat}
    (h : a.current ≠ some generation) : a.compareClear generation = a := by
  rw [compareClear, if_neg h]

theorem compareClear_nextGeneration (a : AttachmentState) (generation : Nat) :
    (a.compareClear generation).nextGeneration = a.nextGeneration := by
  unfold compareClear
  split <;> rfl

theorem compareClear_cancelled (a : AttachmentState) (generation : Nat) :
    (a.compareClear generation).cancelled = a.cancelled := by
  unfold compareClear
  split <;> rfl

theorem compareClear_current (a : AttachmentState) (generation : Nat) :
    (a.compareClear generation).current = none ∨
      (a.compareClear generation).current = a.current := by
  unfold compareClear
  split
  · exact .inl rfl
  · exact .inr rfl

/-- **What can happen to the leases.** -/
inductive Moved (a : AttachmentState) : AttachmentState → Prop
  | kept : Moved a a
  | installed {force : Bool} {generation : Nat} {a' : AttachmentState} :
      a.install force = .ok (generation, a') → Moved a a'
  | cleared (generation : Nat) : Moved a (a.compareClear generation)

theorem Moved.nextGeneration_le {a a' : AttachmentState} (h : Moved a a') :
    a.nextGeneration ≤ a'.nextGeneration := by
  cases h with
  | kept => exact Nat.le_refl _
  | installed hi =>
    rw [(install_eq_ok hi).2.2.1]
    exact Nat.le_succ _
  | cleared g => exact Nat.le_of_eq (compareClear_nextGeneration a g).symm

/-- A lease that is held was held before every move since its generation was drawn. -/
theorem Moved.isCurrent {a a' : AttachmentState} (h : Moved a a') {generation : Nat}
    (drawn : generation < a.nextGeneration) (held : a'.isCurrent generation = true) :
    a.isCurrent generation = true := by
  rw [isCurrent_iff] at held ⊢
  cases h with
  | kept => exact held
  | installed hi =>
    rw [(install_eq_ok hi).2.2.2.1] at held
    cases held
    exact absurd drawn (Nat.lt_irrefl _)
  | cleared g =>
    rcases compareClear_current a g with hc | hc
    · rw [hc] at held
      cases held
    · exact hc ▸ held

/-- The slot only ever holds a generation that was drawn. -/
theorem Moved.drawn {a a' : AttachmentState} (h : Moved a a')
    (ha : ∀ g, a.current = some g → g < a.nextGeneration) :
    ∀ g, a'.current = some g → g < a'.nextGeneration := by
  intro generation held
  cases h with
  | kept => exact ha generation held
  | installed hi =>
    obtain ⟨_, _, hnext, hcur, _⟩ := install_eq_ok hi
    rw [hcur] at held
    cases held
    rw [hnext]
    exact Nat.lt_succ_self _
  | cleared g =>
    rw [compareClear_nextGeneration]
    rcases compareClear_current a g with hc | hc
    · rw [hc] at held
      cases held
    · exact ha generation (hc ▸ held)

end AttachmentState

end Pipekeep
