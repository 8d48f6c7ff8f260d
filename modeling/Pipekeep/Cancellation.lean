import Pipekeep.Broker
import Pipekeep.Lib.Machine
import Pipekeep.Output

/-!
# The cancellation operation

One operation, owned by the broker: a request only joins it. It sends signals through a handle on
the original process group, in phases: TERM once, KILL once after the grace deadline, none after
the group is known to be gone, and none after any failure.

The kernel's answer to a signal call is an input: `true` is success (zombie-only groups included),
`false` is `ESRCH` and an error is any other errno. A step makes each call at most once, so its
answers are a function of the signal. The calls a step attempts are part of its result.

`none` is a panic: one of the source's `expect`s failed.
-/

namespace Pipekeep

inductive Phase
  | ready
  | term
  | kill
  | noSignal
  | complete
  | failed
  deriving DecidableEq, Repr

/-- The signals the operation sends: zero, `SIGTERM` and `SIGKILL`. -/
inductive Signal
  | zero
  | term
  | kill
  deriving DecidableEq, Repr

/-- `GroupSignal::signal` during one step. -/
abbrev Kernel := Signal → Except String Bool

/-- An attempted signal call, its time and the kernel's answer. -/
structure Call where
  signal : Signal
  now : Nat
  answer : Except String Bool

/-- A TERM or KILL call that succeeded. -/
def Call.won (c : Call) : Bool :=
  match c.signal, c.answer with
  | .zero, _ => false
  | _, .ok sent => sent
  | _, .error _ => false

def groupPidfdCapability : String := "group-pidfd-cancel-v1"

/-- The `fact` a session publishes of its control. -/
structure SessionFact where
  capabilities : List String
  workloadStarted : Bool
  cancelState : String
  cancelError : Option String
  deriving DecidableEq, Repr

abbrev Completion := Except String (CancelOutcome × ExitResult)

/-- `handle` says whether the handle on the group is still held. -/
structure Cancellation where
  handle : Bool
  verified : Bool
  phase : Phase
  graceDeadline : Option Nat := none
  finishDeadline : Option Nat := none
  signaled : Bool := false
  groupAbsent : Bool := false
  fault : Option ControlFault := none
  result : Option Completion := none

namespace Cancellation

/-- A failed operation keeps what authority it has and never retries. -/
def fail (c : Cancellation) (error : String) : Cancellation :=
  { c with phase := .failed, result := some (.error error) }

def new (handle : Except String Unit) : Cancellation :=
  match handle with
  | .ok () => { handle := true, verified := true, phase := .ready }
  | .error e =>
    { handle := false, verified := false, phase := .failed
      fault := some .unavailable, result := some (.error e) }

/-- `verify_acquired`, with the answer of the verifying zero-probe. -/
def verifyAcquired (handle : Except String Unit) (probe : Except String Bool) : Cancellation :=
  let state := new handle
  match state.handle, probe with
  | true, .error e =>
    { state with verified := false, fault := some .unavailable }.fail
      (s!"workload started; group pidfd acquisition/verification failed: {e}; session retained; " ++
        "cancellation unavailable; do not retry creation")
  | _, _ => state

def outputControl (c : Cancellation) : GroupControl :=
  match c.phase with
  | .ready => .ready
  | .term | .kill | .noSignal => .running
  | .complete => .settled
  | .failed => .unconfirmed (c.fault.getD .unavailable)

def fact (c : Cancellation) : SessionFact where
  capabilities := if c.verified then [groupPidfdCapability] else []
  workloadStarted := true
  cancelState :=
    match c.phase with
    | .ready => "ready"
    | .term | .kill => "running"
    | .noSignal => "group_settled"
    | .complete => "settled"
    | .failed => "failed"
  cancelError :=
    match c.result with
    | some (.error e) => some e
    | _ => none

/-- The first start admits the operation and fixes both deadlines. -/
def start (c : Cancellation) (now grace settlement : Nat) : Bool × Cancellation :=
  if c.phase ≠ .ready then (false, c)
  else (true, { c with
    phase := .term
    graceDeadline := some (now + grace)
    finishDeadline := some (now + grace + settlement) })

def active (c : Cancellation) : Bool :=
  match c.phase with
  | .term | .kill | .noSignal => true
  | _ => false

def finished (c : Cancellation) : Bool :=
  c.result.isSome

/-! ## Advancing the group -/

/-- What a part of `advance_group` did: the state it leaves, the calls it attempted, and the error
that ends the rest. -/
structure Advance where
  state : Cancellation
  calls : List Call
  error : Option String

/-- `?`: the rest runs only if there was no error. -/
def Advance.andThen (a : Advance) (rest : Cancellation → Option Advance) : Option Advance :=
  match a.error with
  | some _ => some a
  | none => (rest a.state).map fun b => { b with calls := a.calls ++ b.calls }

/-- Absence is permanent: the phase says no signal before the handle is released. -/
def retire (c : Cancellation) : Cancellation :=
  { c with groupAbsent := true, phase := .noSignal, handle := false }

/-- The first step's TERM. -/
def sendTerm (c : Cancellation) (kernel : Kernel) (now : Nat) (first : Bool) : Advance :=
  if first then
    let call : Call := ⟨.term, now, kernel .term⟩
    match kernel .term with
    | .error e => ⟨c, [call], some e⟩
    | .ok sent => ⟨{ c with signaled := c.signaled || sent }, [call], none⟩
  else
    ⟨c, [], none⟩

/-- KILL, once and only from the grace deadline on. -/
def sendKill (c : Cancellation) (kernel : Kernel) (now : Nat) : Option Advance :=
  if c.phase = .term then
    match c.graceDeadline with
    | none => none
    | some grace =>
      if now ≥ grace then
        let call : Call := ⟨.kill, now, kernel .kill⟩
        match kernel .kill with
        | .error e => some ⟨c, [call], some e⟩
        | .ok sent => some ⟨{ c with signaled := c.signaled || sent, phase := .kill }, [call], none⟩
      else
        some ⟨c, [], none⟩
  else
    some ⟨c, [], none⟩

/-- `advance_group`: only an absent group whose leader was reaped is absent for good; a living
leader can leave and recreate it. -/
def advanceGroup (c : Cancellation) (kernel : Kernel) (now : Nat) (reaped first : Bool) :
    Option Advance :=
  if c.handle then
    let call : Call := ⟨.zero, now, kernel .zero⟩
    match kernel .zero with
    | .error e => some ⟨c, [call], some e⟩
    | .ok present =>
      if !present && reaped then
        some ⟨c.retire, [call], none⟩
      else
        Advance.andThen ⟨c, [call], none⟩ fun c =>
          (c.sendTerm kernel now first).andThen fun c => c.sendKill kernel now
  else
    none

/-- The last lines of `step`: a group without members settles once both outputs are closed. -/
def settle (c : Cancellation) (exit : Option ExitResult) (terminal : Bool) : Option Cancellation :=
  if c.phase = .noSignal ∧ terminal = true then
    match exit with
    | none => none
    | some exit =>
      some { c with
        phase := .complete
        result := some (.ok (if c.signaled then .cancelWon else .alreadyExited, exit)) }
  else
    some c

/-- `step`, under the cancellation mutex, with the calls it attempts. -/
def step (c : Cancellation) (kernel : Kernel) (now : Nat) (exit : Option ExitResult)
    (terminal : Bool) (failure : Option String) (first : Bool) :
    Option (Cancellation × List Call) :=
  if !c.active then some (c, [])
  else
    match failure with
    | some error => some ({ c with fault := some .wait }.fail error, [])
    | none =>
      match c.finishDeadline with
      | none => none
      | some finish =>
        if now ≥ finish then
          some ({ c with fault := some .deadline }.fail
            ("cancellation unresolved: settlement deadline expired; no further signals will be " ++
              "attempted"), [])
        else if c.phase ≠ .noSignal then
          match c.advanceGroup kernel now exit.isSome first with
          | none => none
          | some a =>
            match a.error with
            | some e =>
              some ({ a.state with fault := some .signal }.fail
                (s!"cancellation unresolved: group pidfd syscall failed: {e}; no further signals " ++
                  "will be attempted"), a.calls)
            | none => (a.state.settle exit terminal).map fun c => (c, a.calls)
        else
          (c.settle exit terminal).map fun c => (c, [])

end Cancellation

/-! ## The operation and its task -/

/-- The operation as `start_hardened_with` runs it. `calls` logs the signals attempted so far;
`task` is the state of the spawned loop, with its `first_step`. -/
structure Operation where
  cancellation : Cancellation
  calls : List Call := []
  task : Option Bool := none

namespace Operation

inductive Act
  /-- A request, a stop or a fault starts the operation, or joins it. -/
  | start (now grace settlement : Nat)
  /-- One turn of the loop: what it reads under the metadata lock, and the step. -/
  | turn (now : Nat) (metadata : Meta) (kernel : Kernel)

/-- `start_hardened_with` up to the spawn. -/
def start (s : Operation) (now grace settlement : Nat) : Operation :=
  let (first, c) := s.cancellation.start now grace settlement
  { s with cancellation := c, task := if first then some true else s.task }

/-- One turn of the spawned loop. -/
def turn (s : Operation) (now : Nat) (m : Meta) (kernel : Kernel) : Option Operation :=
  match s.task with
  | none => none
  | some firstStep =>
    (s.cancellation.step kernel now m.status m.terminal m.failure firstStep).map fun p =>
      { cancellation := p.1, calls := s.calls ++ p.2, task := some false }

def step (s : Operation) : Act → Option Operation
  | .start now grace settlement => some (s.start now grace settlement)
  | .turn now m kernel => s.turn now m kernel

/-- The operations of a broker: the handle was acquired or not, and verified or not. The source's
loop ends with the first finished step; a turn after it changes nothing. -/
def machine : Machine Operation Act where
  init s := ∃ handle probe, s = { cancellation := .verifyAcquired handle probe }
  step := step

end Operation

end Pipekeep
