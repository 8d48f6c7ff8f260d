import Mathlib.Data.Nat.Notation

/-!
# Positions and exits on the wire

Absolute positions are `u64`: a position is a `Nat`, and every addition the source checks is
checked here against `u64Max`. Exits are `i32` codes or signals, so `Int`.
-/

namespace Pipekeep

/-- `u64::MAX`. -/
def u64Max : Nat := UInt64.size - 1

/-- `i64::MAX`, which a limit must not exceed. -/
def i64Max : Nat := 9223372036854775807

/-- `checked_end`: the position after `length` bytes at `offset`. -/
def checkedEnd (offset length : Nat) : Except String Nat :=
  if offset + length ≤ u64Max then .ok (offset + length) else .error "frame position overflowed"

theorem checkedEnd_eq_ok {offset length e : Nat} :
    checkedEnd offset length = .ok e ↔ offset + length ≤ u64Max ∧ e = offset + length := by
  unfold checkedEnd
  split
  · rename_i h
    simp only [Except.ok.injEq, h, true_and, eq_comm]
  · rename_i h
    simp only [reduceCtorEq, h, false_and]

/-- What a fallible computation returns comes through each of its parts. -/
theorem bind_eq_ok {ε α β : Type} {x : Except ε α} {f : α → Except ε β} {b : β} :
    (x >>= f) = .ok b ↔ ∃ a, x = .ok a ∧ f a = .ok b := by
  cases x with
  | error e => simp only [bind, Except.bind, reduceCtorEq, false_and, exists_false]
  | ok a => simp only [bind, Except.bind, Except.ok.injEq, exists_eq_left']

theorem map_eq_ok {ε α β : Type} {x : Except ε α} {f : α → β} {b : β} :
    x.map f = .ok b ↔ ∃ a, x = .ok a ∧ f a = b := by
  cases x with
  | error e => simp only [Except.map, reduceCtorEq, false_and, exists_false]
  | ok a => simp only [Except.map, Except.ok.injEq, exists_eq_left']

theorem checkedEnd_map_eq_ok {α : Type} {offset length : Nat} {f : Nat → α} {b : α} :
    (checkedEnd offset length).map f = .ok b ↔
      offset + length ≤ u64Max ∧ f (offset + length) = b := by
  simp only [map_eq_ok, checkedEnd_eq_ok, and_assoc, exists_and_left, exists_eq_left]

/-- How a command ended. -/
structure ExitResult where
  code : Option Int
  signal : Option Int
  deriving DecidableEq, Repr

namespace ExitResult

/-- One actual code or one actual signal. -/
def validate (e : ExitResult) : Except String Unit :=
  match e.code, e.signal with
  | some c, none =>
    if 0 ≤ c ∧ c ≤ 255 then .ok () else .error "exit frame must contain one actual code or signal"
  | none, some s =>
    if 1 ≤ s ∧ s ≤ 127 then .ok () else .error "exit frame must contain one actual code or signal"
  | _, _ => .error "exit frame must contain one actual code or signal"

theorem validate_eq_ok {e : ExitResult} : e.validate = .ok () ↔
    (∃ code, e = ⟨some code, none⟩ ∧ 0 ≤ code ∧ code ≤ 255) ∨
      ∃ signal, e = ⟨none, some signal⟩ ∧ 1 ≤ signal ∧ signal ≤ 127 := by
  rcases e with ⟨_ | code, _ | signal⟩
  · simp [validate]
  · simp [validate]
  · simp [validate]
  · simp [validate]

/-- The shell's reading of an exit. -/
def processCode (e : ExitResult) : Int :=
  e.code.getD (128 + e.signal.getD 1)

end ExitResult

/-- `CancelWon` means that at least one TERM or KILL syscall succeeded. -/
inductive CancelOutcome
  | alreadyExited
  | cancelWon
  deriving DecidableEq, Repr

end Pipekeep
