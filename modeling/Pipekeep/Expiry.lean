import Pipekeep.Hardened

/-!
# The accept loop of an opted-in session

The loop of `run` admits connections, reports refused ones, and takes the ticks of `expiry_tick`,
one at a time. A tick reads the lifetime state first and the clock after it, so the other tasks, and
the time, move in between; an admission does not.

The clock only moves forward. Nothing bounds the time between two ticks: an interval of 25 ms is one
of the runs.
-/

namespace Pipekeep.Expiry

/-- Where the loop stands: it selects, a tick has read the session, or it has broken. -/
inductive Loop
  | select
  | tick (read : Hardened.State)
  | broken

structure State where
  session : Hardened.State
  now : Nat := 0
  idleSince : Option Nat := none
  acceptErrorReported : Bool := false
  loop : Loop := .select

inductive Act
  | elapse (time : Nat)
  /-- A step of another task: the end of a connection, of a cancel, of an operation's I/O. -/
  | other (act : Hardened.Act)
  | accepted
  | acceptError
  /-- A tick reads `hardened_lifetime_state`, and then steps the idle clock. -/
  | lifetime
  | expired

/-- Admission is the loop's own. -/
def other (s : Hardened.State) : Hardened.Act → Option Hardened.State
  | .accept => none
  | act => Hardened.step s act

namespace State

/-- The idle clock of a tick that has read this session, and whether the loop breaks. -/
def expired (s : State) (ttl : Nat) (read : Hardened.State) : Option Nat × Bool :=
  let (busy, eligible) := read.hardenedLifetimeState
  Hardened.hardenedExpired s.idleSince s.now ttl busy eligible

/-- A connection is admitted. -/
def accepted (s : State) (session : Hardened.State) : State :=
  { s with session := session, idleSince := none, acceptErrorReported := false }

end State

def step (ttl : Nat) (s : State) : Act → Option State
  | .elapse time => some { s with now := s.now + time }
  | .other act => (other s.session act).map fun session => { s with session := session }
  | .accepted =>
    match s.loop with
    | .select => (Hardened.step s.session .accept).map s.accepted
    | _ => none
  | .acceptError =>
    match s.loop with
    | .select => some { s with acceptErrorReported := true }
    | _ => none
  | .lifetime =>
    match s.loop with
    | .select => some { s with loop := .tick s.session }
    | _ => none
  | .expired =>
    match s.loop with
    | .tick read =>
      let (idleSince, breaks) := s.expired ttl read
      some { s with idleSince := idleSince, loop := if breaks then .broken else .select }
    | _ => none

/-- The broker of a session that was launched with these answers. -/
def machine (handle : Except String Unit) (probe : Except String Bool) (ttl : Nat) :
    Machine State Act where
  init s := ∃ session now, (Hardened.machine handle probe).init session ∧
    s = { session := session, now := now }
  step := step ttl

/-- What the loop has done: a connection admitted, or a tick, with what it has read. -/
inductive Event
  | admitted (now : Nat)
  | tick (read : Hardened.State) (now : Nat) (breaks : Bool)

def Event.time : Event → Nat
  | .admitted now => now
  | .tick _ now _ => now

def events (ttl : Nat) (s : State) : Act → List Event
  | .accepted => [.admitted s.now]
  | .expired =>
    match s.loop with
    | .tick read => [.tick read s.now (s.expired ttl read).2]
    | _ => []
  | _ => []

end Pipekeep.Expiry
