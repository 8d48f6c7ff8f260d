import Pipekeep.Attempts

/-!
# The run loop of the outer wrapper, with any remote side

The run loop and its attempts as they are, against a remote side and a transport that may do
anything between two of their steps: any broker, any replies, any bytes. So the results of the
attempts come in any sequence. A first line that is no reply ends the run.
-/

namespace Pipekeep.Attempts.Retries

inductive Act
  | world (broker : Buffered.State) (presence : Presence) (remotes : Nat → Option Remote)
  /-- The line is not JSON, or holds neither an error nor a handshake. -/
  | invalid (error : String)
  | outer (act : OuterAct)

def step (s : State) : Act → Option State
  | .world broker presence remotes =>
    some { s with broker := broker, presence := presence, remotes := remotes }
  | .invalid error =>
    match s.stage with
    | .opening => some { s with stage := .failed (some error) }
    | _ => none
  | .outer act => outerStep s act

def machine : Machine State Act where
  init s := ∃ broker, s = { broker := broker }
  step := step

/-- What the run loop asks for, and what its attempts return to it. `asked none` asks for a new
session; `delivered` is a chunk that was written and counted. -/
inductive Event
  | asked (offsets : Option (PerStream Nat))
  | opened (offsets : PerStream Nat)
  | delivered (st : Stream) (count : Nat)
  | disconnected (opened : Bool)
  | refused (error : String)
  deriving DecidableEq, Repr

/-- The offsets of the hello that the current attempt has sent. -/
def requested (s : State) : List Event :=
  ((s.remotes s.attempt).map fun r => .asked r.offsets).toList

def outerEvents (s : State) (act : OuterAct) : List Event :=
  match s.stage, act with
  | .idle, .start => requested s.start
  | .opening, .lost => [.disconnected false]
  | .opening, .line =>
    match (s.remotes s.attempt).bind Remote.reply with
    | some (.error error) => [.refused error]
    | some (.hello hello) => [.opened hello.offsets]
    | none => []
  | .copying o, .copy st .count =>
    match o.tasks.get st with
    | .counting count => [.delivered st count]
    | _ => []
  | .copying o, .finish waitFailed =>
    match (s.finish o waitFailed).stage with
    | .idle => [.disconnected true]
    | _ => []
  | _, _ => []

def events (s : State) : Act → List Event
  | .outer act => outerEvents s act
  | _ => []

/-- The positions that the log's attempts have left: the opening's offsets, and what was counted
since. -/
def Event.deliver (position : PerStream Nat) : Event → PerStream Nat
  | .opened offsets => offsets
  | .delivered st count => position.set st (position.get st + count)
  | _ => position

def deliveredBy (log : List Event) : PerStream Nat :=
  log.foldl Event.deliver (.both 0)

/-- A missing-session reply. -/
def Event.Missing : Event → Prop
  | .refused error => State.contains error "session does not exist" = true
  | _ => False

end Pipekeep.Attempts.Retries
