import Mathlib.Logic.Function.Basic
import Pipekeep.Buffered
import Pipekeep.Lib.Broadcast

/-!
# Live output: following the channels

`send_live_output` of any number of attachments over one no-buffer session. A sender subscribes to
both live channels before the snapshot that becomes its opening, so it knows every chunk from there
on, until it falls behind. Its turn tries the preferred channel, then stdout, then stderr, and reads
the terminal flags only when all three tries came back without a chunk.

The drains and the wait run between any two of these steps.
-/

namespace Pipekeep.Live

open Broadcast

/-- The capacity of the live channels. -/
def liveCapacity : Nat := 64

/-- Where `send_live_output` stands in its turn. `preferred`, `stdout` and `stderr` are its three
tries; `sending` has a chunk in hand, with the preference of the turn after it. -/
inductive Stage
  | subscribed
  | top
  | receipt (position : Nat)
  | preferred
  | stdout
  | stderr
  | look
  | sending (st : Stream) (chunk : OutputChunk) (preferStdout : Bool)
  | exit (status : ExitResult)
  | waiting
  | done
  deriving DecidableEq, Repr

/-- One attachment's sender. `opening` is the hello's output offsets. -/
structure Sender where
  live : PerStream (Receiver OutputChunk) := .both {}
  opening : PerStream Nat := .both 0
  position : PerStream Nat := .both 0
  preferStdout : Bool := true
  stage : Stage := .subscribed
  frames : List Frame := []
  deriving DecidableEq, Repr

structure State where
  session : Session
  senders : Nat → Option Sender := fun _ => none

/-- A try of one channel: a chunk goes to `send_live_chunk`, anything else to the next try. -/
def Sender.attempt (s : Sender) (st : Stream) (next : Stage) : Sender :=
  let (received, live) := (s.live.get st).tryRecv
  let s := { s with live := s.live.set st live }
  match received with
  | .message chunk => { s with stage := .sending st chunk (st == .stderr) }
  | _ => { s with stage := next }

/-- `recv` of the select: it waits for a chunk or the news of having lagged. -/
def Sender.recv (s : Sender) (st : Stream) : Option Sender :=
  let (received, live) := (s.live.get st).tryRecv
  let s := { s with live := s.live.set st live }
  match received with
  | .empty => none
  | .lagged => some { s with stage := .top }
  | .message chunk => some { s with stage := .sending st chunk s.preferStdout }

/-- `send_live_chunk`: the bytes before the position were sent, or lost, before. -/
def Sender.sendLiveChunk (s : Sender) (current : Bool) (st : Stream) (chunk : OutputChunk)
    (preferStdout : Bool) : Sender :=
  let skip := s.position.get st - chunk.offset
  if skip ≥ chunk.data.length then { s with stage := .top, preferStdout := preferStdout }
  else
    let offset := chunk.offset + skip
    let data := chunk.data.drop skip
    if current then
      { s with
        stage := .top
        preferStdout := preferStdout
        position := s.position.set st (offset + data.length)
        frames := s.frames ++ [.outputData st offset data] }
    else
      { s with
        stage := .top, preferStdout := preferStdout, position := s.position.set st offset }

inductive SenderAct
  /-- The snapshot of the opening. -/
  | hello
  /-- The authority check of a new turn; a receipt may be due. -/
  | turn (receipt : Option Nat)
  | receipt
  /-- The next try of the turn. -/
  | tryRecv
  /-- The snapshot of the terminal flags. -/
  | look
  /-- The authority check before a frame, and the frame. -/
  | emit
  /-- The select ends with a chunk of a channel, or for another reason. -/
  | recv (st : Stream)
  | wake
  /-- The socket fails, or the future is dropped. -/
  | stop
  deriving DecidableEq, Repr

/-- One step of the sender of `generation`. -/
def senderStep (session : Session) (generation : Nat) (s : Sender) (act : SenderAct) :
    Option Sender :=
  let current := session.attachment.isCurrent generation
  match s.stage, act with
  | .subscribed, .hello =>
    if current then
      let ends := session.metadata.ends
      some { s with stage := .top, opening := ends, position := ends }
    else
      some { s with stage := .done }
  | .top, .turn receipt =>
    if current then
      match receipt with
      | some position => some { s with stage := .receipt position }
      | none => some { s with stage := .preferred }
    else
      some { s with stage := .done }
  | .receipt position, .receipt =>
    if current then
      some { s with stage := .preferred, frames := s.frames ++ [.stdinPosition position] }
    else
      some { s with stage := .done }
  | .preferred, .tryRecv => some (s.attempt (if s.preferStdout then .stdout else .stderr) .stdout)
  | .stdout, .tryRecv => some (s.attempt .stdout .stderr)
  | .stderr, .tryRecv => some (s.attempt .stderr .look)
  | .sending st chunk preferStdout, .emit => some (s.sendLiveChunk current st chunk preferStdout)
  | .look, .look =>
    match Buffered.terminalStatus session.metadata with
    | some status => some { s with stage := .exit status }
    | none => some { s with stage := .waiting }
  | .exit status, .emit =>
    if current then some { s with stage := .done, frames := s.frames ++ [.exit status] }
    else some { s with stage := .done }
  | .waiting, .recv st => s.recv st
  | .waiting, .wake => some { s with stage := .top }
  | .done, _ => none
  | _, .stop => some { s with stage := .done }
  | _, _ => none

inductive Act
  | session (act : Session.Act)
  /-- `attach` subscribes to both channels. -/
  | subscribe (generation : Nat)
  | sender (generation : Nat) (act : SenderAct)

/-- A chunk reaches the receiver of every sender that is still there. -/
def Sender.push (s : Sender) (st : Stream) (chunk : OutputChunk) : Sender :=
  if s.stage = .done then s
  else { s with live := s.live.set st ((s.live.get st).push liveCapacity chunk) }

def State.push (s : State) (sent : Option (Stream × OutputChunk)) : State :=
  match sent with
  | none => s
  | some (st, chunk) =>
    { s with senders := fun generation => (s.senders generation).map (·.push st chunk) }

def State.setSender (s : State) (generation : Nat) (sender : Sender) : State :=
  { s with senders := Function.update s.senders generation (some sender) }

def step (hardened : Bool) (s : State) : Act → Option State
  | .session act =>
    (s.session.step true hardened act).map fun p => { s with session := p.1 }.push p.2
  | .subscribe generation =>
    if s.session.attachment.isCurrent generation = true ∧ s.senders generation = none then
      some (s.setSender generation {})
    else
      none
  | .sender generation act =>
    match s.senders generation with
    | none => none
    | some sender =>
      (senderStep s.session generation sender act).map fun sender => s.setSender generation sender

def machine (hardened : Bool) : Machine State Act where
  init s := s.session.Initial ∧ s.senders = fun _ => none
  step := step hardened

end Pipekeep.Live
