import Pipekeep.Buffered
import Pipekeep.Relay
import Pipekeep.Requests

/-!
# The output of the outer wrapper

`run` and `attempt` of the outer `pipekeep`, with all that its output passes through: the buffered
session's drains and senders, the relay of each attempt's remote proxy, and the transport's two
pipes. Three programs count: the sender from the offsets of its opening, the relay from those of the
reply, and the outer process from the reply's on what it has written.

The remote side of an attempt goes on after the outer process has given the attempt up. A transport
hands over what the proxy has written, in order, and may end after any byte; what it says of the
input, and the waits of the run loop, are left to other modules.
-/

namespace Pipekeep.Attempts

open Buffered (offsetsAreAhead)
open Requests (ServerHello)

/-! ## The remote side of an attempt -/

/-- Whether the session's broker runs. There is one session: its name is not taken again. -/
inductive Presence
  | absent
  | live
  | gone
  deriving DecidableEq, Repr

/-- The first line of the remote proxy. -/
inductive Reply
  | error (text : String)
  | hello (hello : ServerHello)
  deriving DecidableEq, Repr

/-- Where the attempt stands between the client's hello and the end of the proxy: it connects, the
broker's `attach` opens it, and the proxy relays. -/
inductive RemoteStage
  | connecting
  | attaching
  | checking (generation : Nat)
  | applying (generation : Nat)
  | greeting (generation : Nat)
  | answering (generation : Nat) (hello : ServerHello)
  | relaying (generation : Nat)
  | ended
  deriving DecidableEq, Repr

/-- The remote proxy of an attempt. No `offsets` ask for a new session; `read` counts the frames
that it has taken from the broker. -/
structure Remote where
  offsets : Option (PerStream Nat)
  stage : RemoteStage := .connecting
  reply : Option Reply := none
  relay : Relay := { positions := ⟨0, .both 0⟩ }
  read : Nat := 0
  deriving DecidableEq, Repr

namespace Remote

/-- The offsets of its attach request. -/
def requested (r : Remote) : PerStream Nat := r.offsets.getD (.both 0)

/-- `write_error_line`, and the end. -/
def refuse (r : Remote) (error : String) : Remote :=
  { r with stage := .ended, reply := some (.error error) }

/-- The opening is written, and the relay starts from its numbers. -/
def accept (r : Remote) (generation : Nat) (hello : ServerHello) : Remote :=
  { r with
    stage := .relaying generation
    reply := some (.hello hello)
    relay := { positions := ⟨hello.stdin, hello.offsets⟩ }
    read := 0 }

end Remote

inductive RemoteAct
  /-- `start_broker` or `connect_existing`, and its failures beside the session's presence. -/
  | connect
  | refuse (error : String)
  /-- The sections of `attach`: the lease, the offsets, the opening's stdin with its error, the
  reply's snapshot, and the last authority check. -/
  | install
  | check
  | stdin (error : Option String)
  | snapshot
  | answer
  /-- The output loop takes a frame. -/
  | frame
  /-- The transport ends, the proxy is killed, or its input ends. -/
  | stop
  deriving DecidableEq, Repr

/-- The broker takes part in the act. -/
def RemoteAct.served : RemoteAct → Bool
  | .install | .check | .stdin _ | .snapshot | .answer => true
  | _ => false

/-- The mode of a relay that is not framed. -/
def raw : RelayMode := ⟨false, false, none⟩

/-- The opening's reply of an ordinary attach. -/
def hello (b : Buffered.State) (offsets : PerStream Nat) : ServerHello :=
  Requests.State.hello
    { metadata := b.session.metadata, attachment := b.session.attachment, commandPid := 0 }
    offsets false

/-- A proxy that connects; `id` is the session's name as the source quotes it. -/
def connect (id : String) (presence : Presence) (r : Remote) : Option (Presence × Remote) :=
  match r.offsets, presence with
  | none, .absent => some (.live, { r with stage := .attaching })
  | none, .live => some (.live, r.refuse s!"session {id} already exists")
  | none, .gone => none
  | some _, .live => some (.live, { r with stage := .attaching })
  | some _, presence => some (presence, r.refuse "session does not exist")

section

variable (S : Serde) (hardened : Bool)

/-- `fail_opening`. -/
def failOpening (b : Buffered.State) (r : Remote) (generation : Nat) (error : String) :
    Option (Buffered.State × Remote) :=
  (Buffered.step hardened b (.session (.clear generation))).map fun b => (b, r.refuse error)

/-- A section that needs the lease. -/
def whileCurrent (b : Buffered.State) (r : Remote) (generation : Nat)
    (next : Option (Buffered.State × Remote)) : Option (Buffered.State × Remote) :=
  if b.session.attachment.isCurrent generation then next
  else some (b, r.refuse "attachment superseded")

/-- One step of an attempt's remote side, beside its connecting. -/
def remoteStep (b : Buffered.State) (r : Remote) (act : RemoteAct) :
    Option (Buffered.State × Remote) :=
  match r.stage, act with
  | .connecting, .refuse error => some (b, r.refuse error)
  | .attaching, .install =>
    match b.session.attachment.install false with
    | .error () => some (b, r.refuse "session already has an attached client")
    | .ok (generation, _) =>
      (Buffered.step hardened b (.session (.install false))).map
        fun b => (b, { r with stage := .checking generation })
  | .checking generation, .check =>
    if offsetsAreAhead b.session.metadata r.requested then
      failOpening hardened b r generation "requested output offset is ahead of the stream"
    else
      whileCurrent b r generation (some (b, { r with stage := .applying generation }))
  | .applying generation, .stdin (some error) => failOpening hardened b r generation error
  | .applying generation, .stdin none =>
    whileCurrent b r generation (some (b, { r with stage := .greeting generation }))
  | .greeting generation, .snapshot =>
    some (b, { r with stage := .answering generation (hello b r.requested) })
  | .answering generation hello, .answer =>
    whileCurrent b r generation
      ((Buffered.step hardened b (.attach generation hello.offsets)).map
        fun b => (b, r.accept generation hello))
  | .relaying generation, .frame =>
    (b.senders generation).bind fun sender => (sender.frames[r.read]?).map fun f =>
      let (relay, result) := r.relay.frame S raw f
      let stage : RemoteStage :=
        match result with
        | .ok none => .relaying generation
        | _ => .ended
      (b, { r with stage := stage, relay := relay, read := r.read + 1 })
  | .ended, _ => none
  | _, .stop => some (b, { r with stage := .ended })
  | _, _ => none

end

/-! ## The outer process -/

/-- Where `copy_raw_output` stands: with a chunk to write, or to count. -/
inductive CopyStage
  | reading
  | writing (data : List UInt8)
  | counting (count : Nat)
  | returned
  | failed
  deriving DecidableEq, Repr

inductive CopyAct
  /-- A read of the transport's pipe takes so many bytes, finds its end, or fails. -/
  | read (count : Nat)
  | eof
  | readError
  /-- `write_all` and `flush`, which may fail after so many bytes. -/
  | write
  | writeError (count : Nat)
  | count
  deriving DecidableEq, Repr

/-- An opened attempt. `received` counts what the transport has handed over of each stream. -/
structure Opened where
  hello : ServerHello
  position : PerStream Nat
  tasks : PerStream CopyStage := .both .reading
  received : PerStream Nat := .both 0
  deriving DecidableEq, Repr

/-- Where `run` stands. A failure without a text is the system's. -/
inductive Stage
  | idle
  | opening
  | copying (opened : Opened)
  | exited (code : Int)
  | failed (error : Option String)
  deriving DecidableEq, Repr

/-- `remotes` are the remote sides of the attempts by number, `written` logs local stdout and
stderr. -/
structure State where
  broker : Buffered.State
  presence : Presence := .absent
  remotes : Nat → Option Remote := fun _ => none
  attempt : Nat := 0
  delivered : PerStream Nat := .both 0
  create : Bool := true
  established : Bool := false
  stage : Stage := .idle
  written : PerStream (List UInt8) := .both []

namespace State

def setRemote (s : State) (i : Nat) (r : Remote) : State :=
  { s with remotes := Function.update s.remotes i (some r) }

/-- A new attempt: its transport is started, and takes the client's hello. -/
def start (s : State) : State :=
  { s.setRemote (s.attempt + 1)
      { offsets := if s.create then none else some s.delivered } with
    attempt := s.attempt + 1
    stage := .opening }

/-- `AttemptResult::Disconnected` in `run`. -/
def disconnected (s : State) (opened : Bool) : State :=
  { s with create := false, established := s.established || opened, stage := .idle }

/-- `str::contains`. -/
def contains (text part : String) : Bool :=
  (List.range (text.length + 1)).any fun i => part.toList.isPrefixOf (text.toList.drop i)

/-- `AttemptResult::ServerError` in `run`. -/
def serverError (s : State) (error : String) : State :=
  if contains error "session already has an attached client" then { s with stage := .idle }
  else if s.create = false ∧ s.established = false ∧
      contains error "session does not exist" = true then
    { s with create := true, stage := .idle }
  else
    { s with stage := .failed (some s!"remote pipekeep: {error}") }

/-- The checks of the opening. -/
def accept (s : State) (hello : ServerHello) : State :=
  if hello.offsets.stdout < s.delivered.stdout ∨ hello.offsets.stderr < s.delivered.stderr then
    { s with stage := .failed (some "server moved an output position backwards") }
  else if hello.nobuffer = false ∧ (hello.offsets.stdout ≠ s.delivered.stdout ∨
      hello.offsets.stderr ≠ s.delivered.stderr) then
    { s with
      stage := .failed (some "buffered server cannot provide the requested output positions") }
  else
    { s with
      delivered := hello.offsets
      stage := .copying { hello := hello, position := hello.offsets } }

/-- One step of `copy_raw_output` for a stream of which the proxy has written `sent`. -/
def copyStep (s : State) (o : Opened) (sent : List UInt8) (st : Stream) (act : CopyAct) :
    Option State :=
  let goto (task : CopyStage) : Opened := { o with tasks := o.tasks.set st task }
  match o.tasks.get st, act with
  | .reading, .read count =>
    let received := o.received.get st
    if 0 < count ∧ count ≤ chunkSize ∧ received + count ≤ sent.length then
      some { s with
        stage := .copying { goto (.writing ((sent.drop received).take count)) with
          received := o.received.set st (received + count) } }
    else
      none
  | .reading, .eof => some { s with stage := .copying (goto .returned) }
  | .reading, .readError => some { s with stage := .copying (goto .failed) }
  | .writing data, .write =>
    some { s with
      written := s.written.set st (s.written.get st ++ data)
      stage := .copying (goto (.counting data.length)) }
  | .writing data, .writeError count =>
    some { s with
      written := s.written.set st (s.written.get st ++ data.take count)
      stage := .copying (goto .failed) }
  | .counting count, .count =>
    some { s with
      stage := .copying { goto .reading with
        position := o.position.set st (o.position.get st + count) } }
  | _, _ => none

/-- The task of a stream is over. -/
def taskOver (o : Opened) (st : Stream) : Bool :=
  o.tasks.get st == .returned || o.tasks.get st == .failed

/-- The stream is complete: its recorded end is known, and all of it is delivered. -/
def complete (o : Opened) (st : Stream) : Bool :=
  (o.hello.eofs.get st).any fun stop => decide (o.position.get st ≥ stop)

/-- The end of an attempt whose two tasks are over. -/
def finish (s : State) (o : Opened) (waitFailed : Bool) : State :=
  let s := { s with delivered := o.position }
  if waitFailed || o.tasks.stdout == .failed || o.tasks.stderr == .failed then
    { s with stage := .failed none }
  else
    match o.hello.exit with
    | some exit =>
      if complete o .stdout && complete o .stderr then
        { s with stage := .exited exit.processCode }
      else
        s.disconnected true
    | none => s.disconnected true

end State

inductive OuterAct
  /-- The run loop starts an attempt, or cannot. -/
  | start
  | startError
  /-- The hello cannot be written, or the reply is cut. -/
  | lost
  | line
  | copy (st : Stream) (act : CopyAct)
  /-- An EOF control writes to its stderr, which is forwarded untracked. -/
  | control (diagnostics : List UInt8)
  /-- The attempt ends; waiting for the transport may have failed. -/
  | finish (waitFailed : Bool)
  deriving DecidableEq, Repr

def outerStep (s : State) (act : OuterAct) : Option State :=
  match s.stage, act with
  | .idle, .start => some s.start
  | .idle, .startError => some { s with stage := .failed none }
  | .opening, .lost => some (s.disconnected false)
  | .opening, .line =>
    (s.remotes s.attempt).bind fun r => r.reply.map fun
      | .error error => s.serverError error
      | .hello hello => s.accept hello
  | .copying o, .copy st act =>
    (s.remotes s.attempt).bind fun r => s.copyStep o (r.relay.written.get st) st act
  | .copying o, .finish waitFailed =>
    if State.taskOver o .stdout && State.taskOver o .stderr then some (s.finish o waitFailed)
    else none
  | _, .control diagnostics =>
    some { s with written := s.written.set .stderr (s.written.stderr ++ diagnostics) }
  | _, _ => none

/-! ## The machine -/

inductive Act
  /-- A task of the broker beside the attempts' own, another client's attachments among them. -/
  | broker (act : Buffered.Act)
  /-- The broker ends: streams and status are recorded, and nobody is attached. -/
  | expire
  | remote (attempt : Nat) (act : RemoteAct)
  | outer (act : OuterAct)

variable (S : Serde) (hardened : Bool) (id : String)

def step (s : State) : Act → Option State
  | .broker act =>
    if s.presence = .live then
      (Buffered.step hardened s.broker act).map fun b => { s with broker := b }
    else
      none
  | .expire =>
    if s.presence = .live ∧ s.broker.session.metadata.terminal = true ∧
        s.broker.session.attachment.current = none then
      some { s with presence := .gone }
    else
      none
  | .remote i act =>
    (s.remotes i).bind fun r =>
      if act = .connect then
        if r.stage = .connecting then
          (connect id s.presence r).map fun p => { s.setRemote i p.2 with presence := p.1 }
        else
          none
      else if act.served = true ∧ s.presence ≠ .live then none
      else
        (remoteStep S hardened s.broker r act).map fun p => { s.setRemote i p.2 with broker := p.1 }
  | .outer act => outerStep s act

def machine : Machine State Act where
  init s := ∃ broker, (Buffered.machine hardened).init broker ∧ s = { broker := broker }
  step := step S hardened id

end Pipekeep.Attempts
