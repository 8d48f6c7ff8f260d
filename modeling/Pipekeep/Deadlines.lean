import Pipekeep.Hardened
import Pipekeep.Lib.Decimal
import Pipekeep.Lib.Monotonic

/-!
# Deadlines and the environment

What the broker reads of its environment's seconds, and the deadlines that a cancellation adds them
up to. An opted-in session bounds what it reads by a day. An ordinary cancellation does not, and its
deadline comes after its SIGTERM.

The time to live of a session is not added to an instant: an ordinary session sleeps it, and an
opted-in one compares it with the time that it has been idle.

`none` is a panic: the sum of an instant and a duration has no place.
-/

namespace Pipekeep.Deadlines

open Monotonic

/-- The broker's variables, where they are set to a text. -/
structure Environment where
  cancelGraceSecs : Option String
  cancelSettleSecs : Option String
  sessionTtlSecs : Option String

/-- A variable that parses as a `u64`, or else a default. -/
def seconds (setting : Option String) (default : Nat) : Nat :=
  match setting with
  | none => default
  | some value => ((Decimal.parse u64Max value.toList).toOption).getD default

/-- `env_seconds`. -/
def envSeconds (setting : Option String) (default : Nat) : Nat :=
  min (seconds setting default) 86400

theorem seconds_lt {setting : Option String} {default : Nat} (h : default < 2 ^ 64) :
    seconds setting default < 2 ^ 64 := by
  unfold seconds
  split
  · exact h
  next value =>
    cases hparse : Decimal.parse u64Max value.toList with
    | error e => exact h
    | ok n => exact Nat.lt_of_le_of_lt (Decimal.parse_le hparse) (by decide)

theorem envSeconds_le (setting : Option String) (default : Nat) :
    envSeconds setting default ≤ 86400 :=
  Nat.min_le_right _ _

namespace Environment

variable (env : Environment)

/-- The grace of an ordinary cancellation. -/
def grace : Duration := .ofSecs (seconds env.cancelGraceSecs 3) (seconds_lt (by decide))

/-- The grace and the settlement of an opted-in session. -/
def hardenedGrace : Duration :=
  .ofSecs (envSeconds env.cancelGraceSecs 3) (Nat.lt_of_le_of_lt (envSeconds_le _ _) (by decide))

def hardenedSettlement : Duration :=
  .ofSecs (max (envSeconds env.cancelSettleSecs 30) 1) (by
    have := envSeconds_le env.cancelSettleSecs 30
    omega)

/-- The time to live of an opted-in session. -/
def hardenedTtl : Duration :=
  .ofSecs (envSeconds env.sessionTtlSecs 300) (Nat.lt_of_le_of_lt (envSeconds_le _ _) (by decide))

end Environment

/-- `hardened_expired` at a tick of the accept loop; `duration_since` is never negative. -/
def hardenedExpired (env : Environment) (idleSince : Option Instant) (now : Instant)
    (busy eligible : Bool) : Option Nat × Bool :=
  Hardened.hardenedExpired (idleSince.map Instant.ticks) now.ticks env.hardenedTtl.ticks busy
    eligible

/-- `Cancellation::start`, with its two sums. -/
def start (c : Cancellation) (now : Instant) (grace settlement : Duration) :
    Option (Bool × Cancellation) :=
  if c.phase ≠ .ready then some (false, c)
  else do
    let graceDeadline ← now.checkedAdd grace
    let finishDeadline ← (← now.checkedAdd grace).checkedAdd settlement
    return (true, { c with
      phase := .term
      graceDeadline := some graceDeadline.ticks
      finishDeadline := some finishDeadline.ticks })

/-- `start_hardened`, up to the spawn. -/
def startHardened (env : Environment) (c : Cancellation) (now : Instant) :
    Option (Bool × Cancellation) :=
  start c now env.hardenedGrace env.hardenedSettlement

/-! ## Ordinary cancellation -/

/-- What a turn of the wait finds: whether there is a group, and the time. -/
structure Look where
  present : Bool
  now : Instant

inductive Ending
  | error (error : String)
  | panicked
  /-- The wait goes on. -/
  | waiting
  /-- The group has gone, or got its second signal. -/
  | escalated (signaled : Bool)
  deriving DecidableEq, Repr

/-- An ordinary cancellation: the signals that it attempted, and how it goes on. -/
structure Ordinary where
  signals : List Signal
  ending : Ending
  deriving DecidableEq, Repr

/-- The wait for the group or the deadline, and then the SIGKILL for a group that `remains`. -/
def escalate (deadline : Instant) (kill : Except String Bool) (remains signaled : Bool) :
    List Look → Ordinary
  | [] => ⟨[.term], .waiting⟩
  | look :: looks =>
    if look.present && decide (look.now.ticks < deadline.ticks) then
      escalate deadline kill remains signaled looks
    else if remains then
      match kill with
      | .ok sent => ⟨[.term, .kill], .escalated (signaled || sent)⟩
      | .error error => ⟨[.term, .kill], .error error⟩
    else
      ⟨[.term], .escalated signaled⟩

/-- `cancel_process_group`, up to its second signal, with the kernel's answers to the two. -/
def cancelProcessGroup (env : Environment) (term kill : Except String Bool) (now : Instant)
    (remains : Bool) (looks : List Look) : Ordinary :=
  match term with
  | .error error => ⟨[.term], .error error⟩
  | .ok signaled =>
    match now.checkedAdd env.grace with
    | none => ⟨[.term], .panicked⟩
    | some deadline => escalate deadline kill remains signaled looks

end Pipekeep.Deadlines
