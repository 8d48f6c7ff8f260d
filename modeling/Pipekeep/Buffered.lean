import Mathlib.Logic.Function.Basic
import Pipekeep.Drain
import Pipekeep.Frame
import Pipekeep.Lib.Machine

/-!
# Buffered output: replaying the spool

`send_buffered_output` of any number of attachments over one buffered session. A sender shares
nothing with the drains but the spool files and the positions in the metadata. Each of its turns
takes one snapshot of both, reads at most one chunk and writes at most one data frame, alternating
streams when both have bytes.

A sender is asked for nothing between two of its steps, so any other task may run there, and it may
stop for good at any of them: its socket failed, or its attachment was displaced and its future
dropped.
-/

namespace Pipekeep.Buffered

/-- Where `send_buffered_output` stands in its turn. -/
inductive Stage
  | top
  | receipt (position : Nat)
  | look
  | reading (st : Stream) (stop : Nat)
  | emit (st : Stream) (data : List UInt8)
  | exit (status : ExitResult)
  | waiting
  | done
  deriving DecidableEq, Repr

/-- One attachment's sender: the offsets of its opening, how far it has sent, and its frames. -/
structure Sender where
  opening : PerStream Nat
  position : PerStream Nat
  preferStdout : Bool := true
  stage : Stage := .top
  frames : List Frame := []
  deriving DecidableEq, Repr

structure State where
  session : Session
  senders : Nat → Option Sender := fun _ => none

/-- What a turn does with its snapshot. -/
def serve (s : Sender) (ends : PerStream Nat) (terminal : Option ExitResult) : Stage :=
  let stdoutReady := s.position.stdout < ends.stdout
  let stderrReady := s.position.stderr < ends.stderr
  if stdoutReady ∧ (s.preferStdout = true ∨ ¬stderrReady) then .reading .stdout ends.stdout
  else if stderrReady then .reading .stderr ends.stderr
  else
    match terminal with
    | some status => .exit status
    | none => .waiting

/-- The snapshot's `terminal`: the status, once both streams are closed. -/
def terminalStatus (m : Meta) : Option ExitResult :=
  m.status.filter fun _ => m.closed.stdout && m.closed.stderr

/-- `read_at`, of a kernel that returns `read` bytes of what it is asked for. -/
def readAt (file : List UInt8) (offset stop read : Nat) : Option (List UInt8) :=
  if read ≤ min (stop - offset) chunkSize ∧ read ≤ file.length - offset then
    some ((file.drop offset).take read)
  else
    none

inductive SenderAct
  /-- The authority check of a new turn; a receipt may be due. -/
  | turn (receipt : Option Nat)
  | receipt
  | look
  /-- The file read returns so many bytes; none is an error. -/
  | read (count : Nat)
  /-- The authority check before a frame, and the frame. -/
  | emit
  | wake
  /-- The socket fails, or the future is dropped. -/
  | stop
  deriving DecidableEq, Repr

/-- One step of the sender of `generation`. -/
def senderStep (session : Session) (generation : Nat) (s : Sender) (act : SenderAct) :
    Option Sender :=
  let current := session.attachment.isCurrent generation
  match s.stage, act with
  | .top, .turn receipt =>
    if current then
      match receipt with
      | some position => some { s with stage := .receipt position }
      | none => some { s with stage := .look }
    else
      some { s with stage := .done }
  | .receipt position, .receipt =>
    if current then
      some { s with stage := .look, frames := s.frames ++ [.stdinPosition position] }
    else
      some { s with stage := .done }
  | .look, .look =>
    some { s with
      stage := serve s session.metadata.ends (terminalStatus session.metadata) }
  | .reading st stop, .read count =>
    match readAt (session.files.get st) (s.position.get st) stop count with
    | none => none
    | some [] => some { s with stage := .done }
    | some data => some { s with stage := .emit st data }
  | .emit st data, .emit =>
    if current then
      let position := s.position.get st
      some { s with
        stage := .top
        position := s.position.set st (position + data.length)
        preferStdout := st == .stderr
        frames := s.frames ++ [.outputData st position data] }
    else
      some { s with stage := .done }
  | .exit status, .emit =>
    if current then some { s with stage := .done, frames := s.frames ++ [.exit status] }
    else some { s with stage := .done }
  | .waiting, .wake => some { s with stage := .top }
  | .done, _ => none
  | _, .stop => some { s with stage := .done }
  | _, _ => none

inductive Act
  | session (act : Session.Act)
  /-- `attach` accepts the offsets of an opening and starts its sender. -/
  | attach (generation : Nat) (offsets : PerStream Nat)
  | sender (generation : Nat) (act : SenderAct)

/-- `output_offsets_are_ahead`. -/
def offsetsAreAhead (m : Meta) (offsets : PerStream Nat) : Bool :=
  decide (offsets.stdout > m.ends.stdout) || decide (offsets.stderr > m.ends.stderr)

def State.setSender (s : State) (generation : Nat) (sender : Sender) : State :=
  { s with senders := Function.update s.senders generation (some sender) }

def step (hardened : Bool) (s : State) : Act → Option State
  | .session act =>
    (s.session.step false hardened act).map fun p => { s with session := p.1 }
  | .attach generation offsets =>
    if s.session.attachment.isCurrent generation = true ∧ s.senders generation = none ∧
        offsetsAreAhead s.session.metadata offsets = false then
      some (s.setSender generation { opening := offsets, position := offsets })
    else
      none
  | .sender generation act =>
    match s.senders generation with
    | none => none
    | some sender =>
      (senderStep s.session generation sender act).map fun sender => s.setSender generation sender

def machine (hardened : Bool) : Machine State Act where
  init s := s.session.Initial ∧ s.senders = fun _ => none
  step := step hardened

end Pipekeep.Buffered
