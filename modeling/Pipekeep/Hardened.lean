import Pipekeep.Bounds

/-!
# An opted-in session and its cancel requests

What an opted-in session shares, with or without finite output: the leader's wait, the readers of
its outputs, the operation with its spawned loop, the stops that start it, and any number of cancel
requests. A step is one section under a lock, or one turn of a task.

A request is `cancel_hardened`: it starts the operation or joins it, and then enables its wakeup,
looks for the result and waits, until there is one. `notify_waiters` wakes whoever has enabled.

The readers, the collector and the workers appear by what they do to the shared state: they close a
stream, record a failure, change the policy, start the operation and notify.
-/

namespace Pipekeep.Hardened

open Bounds (Clock Loop)

/-- Where the loop of `cancel_hardened` stands. -/
inductive RequestStage
  | enabling
  | checking
  | waiting
  | done
  deriving DecidableEq, Repr

/-- `notified` is whether the wakeup has been notified since it was enabled. -/
structure Request where
  first : Bool
  stage : RequestStage := .enabling
  notified : Bool := false
  deriving DecidableEq, Repr

structure Reply where
  request : Nat
  result : Completion

/-- `output` is the policy of a session with finite output. `starts` logs who started the operation,
a request or a stop, and `replies` what the requests returned. -/
structure State where
  metadata : Meta := {}
  waited : Bool := false
  terminal : Bool := false
  output : Option OutputFact := none
  activeAttachments : Nat := 0
  operation : Operation
  loop : Loop := .read
  requests : Nat → Option Request := fun _ => none
  starts : List (Option Nat) := []
  replies : List Reply := []

inductive Act
  /-- The leader's wait completes. -/
  | wait (result : Except String ExitResult)
  /-- A stream has reached its end, or cannot be read. -/
  | close (st : Stream)
  | failure (error : String)
  /-- The policy of a finite output changes. -/
  | policy (p : OutputFact)
  | accept
  | release
  | notify
  /-- `stop` or `storage_fault` starts the operation. -/
  | stop (clock : Clock)
  /-- The operation's loop: it reads the metadata, steps and notifies. -/
  | operationRead
  | operationStep (now : Nat) (kernel : Kernel)
  | operationNotify
  /-- A cancel request starts the operation or joins it. -/
  | request (i : Nat) (clock : Clock)
  | enable (i : Nat)
  | check (i : Nat)
  | wake (i : Nat)
  /-- The handler of a request is gone. -/
  | drop (i : Nat)

/-- An enabled wakeup. -/
def Request.notify (r : Request) : Request :=
  match r.stage with
  | .checking | .waiting => { r with notified := true }
  | .enabling | .done => r

/-- What a request returns of a result: only the starter has its outcome. -/
def Request.answer (r : Request) (result : Completion) : Completion :=
  result.map fun (outcome, exit) => (if r.first then outcome else .alreadyExited, exit)

namespace State

/-- `announce_if_terminal`. -/
def announce (s : State) : State :=
  { s with terminal := s.terminal || s.metadata.terminal }

/-- The wait task of an opted-in session. A failed wait is a failure, never an exit. -/
def wait (s : State) (result : Except String ExitResult) : State :=
  match result with
  | .ok status =>
    { s with metadata := { s.metadata with status := some status }, waited := true }.announce
  | .error error =>
    let failure := s!"command wait failed; actual exit and group settlement unverified: {error}"
    { s with metadata := { s.metadata with failure := some failure }, waited := true }.announce

/-- A reader sees the end of its stream. -/
def close (s : State) (st : Stream) : State :=
  { s with metadata := { s.metadata with closed := s.metadata.closed.set st true } }.announce

/-- `start_hardened`, by a request or a stop. -/
def start (s : State) (clock : Clock) (starter : Option Nat) : State :=
  let (first, _) := s.operation.cancellation.start clock.now clock.grace clock.settlement
  { s with
    operation := s.operation.start clock.now clock.grace clock.settlement
    starts := if first then s.starts ++ [starter] else s.starts }

def setRequest (s : State) (i : Nat) (r : Request) : State :=
  { s with requests := Function.update s.requests i (some r) }

/-- `notify_waiters`. -/
def notify (s : State) : State :=
  { s with requests := fun i => (s.requests i).map Request.notify }

/-- `cancel_hardened` up to its loop. -/
def request (s : State) (i : Nat) (clock : Clock) : State :=
  let (first, _) := s.operation.cancellation.start clock.now clock.grace clock.settlement
  (s.start clock (some i)).setRequest i { first := first }

/-- The request looks for the result. -/
def check (s : State) (i : Nat) (r : Request) : State :=
  match s.operation.cancellation.result with
  | some result =>
    { s.setRequest i { r with stage := .done } with
      replies := s.replies ++ [⟨i, r.answer result⟩] }
  | none => s.setRequest i { r with stage := .waiting }

/-- `hardened_lifetime_state`: busy, and eligible for idle expiry. -/
def hardenedLifetimeState (s : State) : Bool × Bool :=
  let cancel := s.operation.cancellation
  let policyBusy := s.output.any fun p => p.ioInflight != 0 || !p.collected
  (s.activeAttachments != 0 || cancel.active || policyBusy, s.terminal || cancel.finished)

end State

/-- `hardened_expired`: the idle clock it leaves, and whether the broker ends. -/
def hardenedExpired (idleSince : Option Nat) (now ttl : Nat) (busy eligible : Bool) :
    Option Nat × Bool :=
  if busy || !eligible then (none, false)
  else (some (idleSince.getD now), decide (ttl ≤ now - idleSince.getD now))

def step (s : State) : Act → Option State
  | .wait result => if s.waited then none else some (s.wait result)
  | .close st => some (s.close st)
  | .failure error => some { s with metadata := { s.metadata with failure := some error } }
  | .policy p => s.output.map fun _ => { s with output := some p }
  | .accept => some { s with activeAttachments := s.activeAttachments + 1 }
  | .release =>
    if s.activeAttachments = 0 then none
    else some { s with activeAttachments := s.activeAttachments - 1 }
  | .notify => some s.notify
  | .stop clock => s.output.map fun _ => s.start clock none
  | .operationRead =>
    if s.operation.task.isSome = true ∧ s.loop = .read ∧
        s.operation.cancellation.finished = false then
      some { s with loop := .step s.metadata }
    else
      none
  | .operationStep now kernel =>
    match s.loop with
    | .step m =>
      (s.operation.turn now m kernel).map fun operation =>
        { s with operation := operation, loop := .notify }
    | _ => none
  | .operationNotify =>
    match s.loop with
    | .notify => some { s.notify with loop := .read }
    | _ => none
  | .request i clock =>
    match s.requests i with
    | none => some (s.request i clock)
    | some _ => none
  | .enable i =>
    (s.requests i).bind fun r =>
      if r.stage = .enabling then
        some (s.setRequest i { r with stage := .checking, notified := false })
      else
        none
  | .check i =>
    (s.requests i).bind fun r => if r.stage = .checking then some (s.check i r) else none
  | .wake i =>
    (s.requests i).bind fun r =>
      if r.stage = .waiting ∧ r.notified = true then
        some (s.setRequest i { r with stage := .enabling })
      else
        none
  | .drop i =>
    (s.requests i).bind fun r =>
      if r.stage = .done then none else some (s.setRequest i { r with stage := .done })

/-- The session after its launch. A failed setup of a pipe is retained here, or, with finite output,
stops the session. -/
def initial (handle : Except String Unit) (probe : Except String Bool) (limit : Option Nat)
    (setupFailure : Option String) : State where
  metadata := { failure := if limit.isNone then setupFailure else none }
  output := limit.map OutputFact.new
  operation := { cancellation := .verifyAcquired handle probe }

/-- The sessions whose handle was acquired, and verified, with these answers. -/
def machine (handle : Except String Unit) (probe : Except String Bool) : Machine State Act where
  init s := ∃ limit setupFailure, s = initial handle probe limit setupFailure
  step := step

end Pipekeep.Hardened
