/-!
# The two output streams

The source keeps a field for stdout and one for stderr and picks between them with a `match` on
`Stream`. `PerStream` is that pair of fields with the `match` as its two operations.
-/

namespace Pipekeep

inductive Stream
  | stdout
  | stderr
  deriving DecidableEq, Repr

/-- One field for each output stream. -/
@[ext] structure PerStream (α : Type) where
  stdout : α
  stderr : α
  deriving DecidableEq, Repr

namespace PerStream

variable {α : Type}

/-- The same value for both streams. -/
def both (a : α) : PerStream α := ⟨a, a⟩

def get (p : PerStream α) : Stream → α
  | .stdout => p.stdout
  | .stderr => p.stderr

def set (p : PerStream α) (st : Stream) (a : α) : PerStream α :=
  match st with
  | .stdout => { p with stdout := a }
  | .stderr => { p with stderr := a }

@[simp] theorem get_both (a : α) (st : Stream) : (both a).get st = a := by
  cases st <;> rfl

@[simp] theorem get_stdout (p : PerStream α) : p.get .stdout = p.stdout := rfl

@[simp] theorem get_stderr (p : PerStream α) : p.get .stderr = p.stderr := rfl

@[simp] theorem get_set_self (p : PerStream α) (st : Stream) (a : α) : (p.set st a).get st = a := by
  cases st <;> rfl

theorem get_set_ne (p : PerStream α) {st st' : Stream} (h : st' ≠ st) (a : α) :
    (p.set st a).get st' = p.get st' := by
  cases st <;> cases st' <;> first | rfl | exact absurd rfl h

theorem get_set (p : PerStream α) (st st' : Stream) (a : α) :
    (p.set st a).get st' = if st' = st then a else p.get st' := by
  by_cases h : st' = st
  · subst h
    rw [get_set_self, if_pos rfl]
  · rw [get_set_ne p h, if_neg h]

/-- What holds of the new value, and of the old one of the other stream, holds of both. -/
theorem forall_set {P : Stream → α → Prop} {p : PerStream α} {st : Stream} {a : α} (now : P st a)
    (others : ∀ st', st' ≠ st → P st' (p.get st')) : ∀ st', P st' ((p.set st a).get st') := by
  intro st'
  by_cases h : st' = st
  · subst h
    rw [get_set_self]
    exact now
  · rw [get_set_ne p h]
    exact others st' h

end PerStream

end Pipekeep
