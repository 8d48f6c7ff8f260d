import Mathlib.Data.Finset.Card
import Mathlib.Logic.Function.Basic
import Pipekeep.Cancellation

/-!
# An ordinary session: its cancellations, and its end

The accept loop of `run` without an opt-in, its cleanup task, and `cancel_process_group` of any
number of requests at once, over the clock and the three facts that make a session terminal. The
kernel's answers are the labels': a signal that is sent, finds no group or fails, and a look for the
group that finds one or none. The group is a number, so nothing says that an answer agrees with the
one before it.

A connection that does not cancel is open until its handler returns. Its request is modelled
elsewhere.
-/

namespace Pipekeep.Ordinary

/-! ## Cancelling -/

/-- Where `cancel_process_group` stands: its deadline is to be computed, its two loops with the look
and the signal between them, and the wait for the session's terminal result. -/
inductive CancelStage
  | sent
  | grace
  | second
  | killing
  | going
  | waiting
  | replied (outcome : CancelOutcome) (status : ExitResult)
  | failed (error : String)
  deriving DecidableEq, Repr

/-- `calls` logs the signals, `vanished` that a look before the last loop found no group, and
`absent` the time of the look that ended the last loop. -/
structure Cancel where
  stage : CancelStage
  deadline : Nat := 0
  signaled : Bool := false
  calls : List Call := []
  vanished : Bool := false
  absent : Option Nat := none

namespace Cancel

/-- The SIGTERM. -/
def begin (now : Nat) (answer : Except String Bool) : Cancel :=
  let calls := [⟨.term, now, answer⟩]
  match answer with
  | .ok sent => { stage := .sent, signaled := sent, calls := calls }
  | .error error => { stage := .failed error, calls := calls }

/-- The SIGKILL. -/
def kill (c : Cancel) (now : Nat) (answer : Except String Bool) : Cancel :=
  let calls := c.calls ++ [⟨.kill, now, answer⟩]
  match answer with
  | .ok sent => { c with stage := .going, signaled := c.signaled || sent, calls := calls }
  | .error error => { c with stage := .failed error, calls := calls }

/-- `group_exists`, where the source looks. -/
def look (c : Cancel) (now : Nat) (present : Bool) : Option Cancel :=
  match c.stage with
  | .grace =>
    if present && decide (now < c.deadline) then some c
    else some { c with stage := .second, vanished := c.vanished || !present }
  | .second =>
    if present then some { c with stage := .killing }
    else some { c with stage := .going, vanished := true }
  | .going =>
    if present then some c else some { c with stage := .waiting, absent := some now }
  | _ => none

/-- The end of `cancel_process_group`. -/
def reply (c : Cancel) (m : Meta) : Cancel :=
  match m.status with
  | none => { c with stage := .failed "command has no terminal result" }
  | some status =>
    let outcome := if c.signaled then .cancelWon else .alreadyExited
    { c with stage := .replied outcome status }

/-- The operation has returned. -/
def isOver (c : Cancel) : Bool :=
  match c.stage with
  | .replied _ _ | .failed _ => true
  | _ => false

end Cancel

/-! ## The session -/

/-- A connection: its handler does something else, cancels, or has returned. -/
inductive Connection
  | serving
  | cancelling (cancel : Cancel)
  | returned (cancel : Option Cancel)

/-- The cancellation of a connection. -/
def Connection.cancel : Connection → Option Cancel
  | .serving => none
  | .cancelling cancel => some cancel
  | .returned cancel => cancel

/-- The handler has not returned. -/
def Connection.isOpen : Connection → Bool
  | .serving => true
  | .cancelling _ => true
  | .returned _ => false

/-- Where the cleanup task stands. Its two loops are polls of `active_attachments`, the sleep
between them goes on from the first one's last. -/
inductive Cleanup
  | terminal
  | attached
  | sleeping (since : Nat)
  | last (since : Nat)
  | sent
  deriving DecidableEq, Repr

/-- How the accept loop ends. -/
inductive Ending
  | expired
  | acceptFailed
  deriving DecidableEq, Repr

/-- What a poll of the cleanup task comes upon. -/
structure Poll where
  now : Nat
  terminal : Bool
  alive : Finset Nat

/-- `terminal` is the watch channel. `alive` are the connections whose guard has not been dropped,
and `polls` logs the polls at which the cleanup task has gone on. -/
structure State where
  now : Nat := 0
  metadata : Meta := {}
  terminal : Bool := false
  accepted : Nat := 0
  activeAttachments : Nat := 0
  connections : Nat → Option Connection := fun _ => none
  cleanup : Cleanup := .terminal
  ending : Option Ending := none
  alive : Finset Nat := ∅
  polls : List Poll := []

namespace State

/-- `announce_if_terminal`. -/
def announceIfTerminal (s : State) : State :=
  if s.metadata.terminal then { s with terminal := true } else s

def setConnection (s : State) (i : Nat) (c : Connection) : State :=
  { s with connections := Function.update s.connections i (some c) }

/-- A connection is admitted, and counted before its handler starts. -/
def accept (s : State) : State :=
  { s.setConnection s.accepted .serving with
    accepted := s.accepted + 1
    activeAttachments := s.activeAttachments + 1
    alive := insert s.accepted s.alive }

/-- The handler returns, and drops its guard. -/
def returns (s : State) (i : Nat) (c : Connection) : State :=
  { s.setConnection i (.returned c.cancel) with
    activeAttachments := s.activeAttachments - 1
    alive := s.alive.erase i }

/-- A poll that finds nobody. -/
def poll (s : State) (next : Cleanup) : State :=
  if s.activeAttachments = 0 then
    { s with cleanup := next, polls := s.polls ++ [⟨s.now, s.terminal, s.alive⟩] }
  else
    s

end State

inductive CancelAct
  | deadline
  | look (present : Bool)
  | kill (answer : Except String Bool)
  | reply

inductive Act
  | elapse (time : Nat)
  /-- The leader's wait completes, and a stream's drain closes it. -/
  | waited (status : ExitResult)
  | closed (st : Stream)
  | accept
  | acceptError
  /-- A connection's request is to cancel; the answer is SIGTERM's. -/
  | request (connection : Nat) (answer : Except String Bool)
  | cancel (connection : Nat) (act : CancelAct)
  | returns (connection : Nat)
  /-- The next turn of the cleanup task. -/
  | cleanup
  /-- The accept loop takes the shutdown. -/
  | shutdown

/-- A step of a cancellation. -/
def cancelStep (grace : Nat) (s : State) (c : Cancel) : CancelAct → Option Cancel
  | .deadline =>
    if c.stage = .sent then some { c with stage := .grace, deadline := s.now + grace } else none
  | .look present => c.look s.now present
  | .kill answer => if c.stage = .killing then some (c.kill s.now answer) else none
  | .reply => if c.stage = .waiting ∧ s.terminal = true then some (c.reply s.metadata) else none

def cleanupStep (ttl : Nat) (s : State) : Option State :=
  match s.cleanup with
  | .terminal => if s.terminal then some { s with cleanup := .attached } else none
  | .attached => some (s.poll (.sleeping s.now))
  | .sleeping since => if since + ttl ≤ s.now then some { s with cleanup := .last since } else none
  | .last _ => some (s.poll .sent)
  | .sent => none

/-- A step of a broker that has not ended. -/
def runningStep (grace ttl : Nat) (s : State) : Act → Option State
  | .elapse time => some { s with now := s.now + time }
  | .waited status =>
    if s.metadata.status = none then
      some { s with metadata := { s.metadata with status := some status } }.announceIfTerminal
    else
      none
  | .closed st =>
    some { s with
      metadata := { s.metadata with closed := s.metadata.closed.set st true } }.announceIfTerminal
  | .accept => some s.accept
  | .acceptError => some { s with ending := some .acceptFailed }
  | .request i answer =>
    match s.connections i with
    | some .serving => some (s.setConnection i (.cancelling (.begin s.now answer)))
    | _ => none
  | .cancel i act =>
    match s.connections i with
    | some (.cancelling c) =>
      (cancelStep grace s c act).map fun c => s.setConnection i (.cancelling c)
    | _ => none
  | .returns i =>
    match s.connections i with
    | some .serving => some (s.returns i .serving)
    | some (.cancelling c) => if c.isOver then some (s.returns i (.cancelling c)) else none
    | _ => none
  | .cleanup => cleanupStep ttl s
  | .shutdown => if s.cleanup = .sent then some { s with ending := some .expired } else none

def step (grace ttl : Nat) (s : State) (act : Act) : Option State :=
  match s.ending with
  | some _ => none
  | none => runningStep grace ttl s act

/-- A broker that has just started its session, at any time. -/
def machine (grace ttl : Nat) : Machine State Act where
  init s := ∃ now, s = { now := now }
  step := step grace ttl

end Pipekeep.Ordinary
