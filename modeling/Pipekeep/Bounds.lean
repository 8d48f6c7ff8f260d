import Pipekeep.Buffered
import Pipekeep.Policy
import Pipekeep.Stdin

/-!
# A finite-output session

One collector, a blocking write worker for each stream, one serialized replay, the cancellation
operation, the leader's wait and any number of senders, over one retained fact. All of them run
concurrently; a step of this machine is one section under a lock, one system call or one `await` of
one of them. So a task's stage says what it has done and what it holds: a read in hand, a
reservation not yet written, a snapshot taken earlier.

`stop` and `storage_fault` are three sections with other tasks between them: latch, start the
operation, notify (`Call`).

`read`, `admissions` and `ends` are logs: the bytes read from each pipe, each admission of a normal
read with what was retained of it, and each replay end with the operation's result and the leader's
exit at the time.
-/

namespace Pipekeep.Bounds

/-- A call of `stop` or `storage_fault`, or a bare notification, by what it has still to do. -/
inductive Call
  | stop (reason : StopReason)
  | storageFault (st : Stream) (fault : StorageFault)
  | start
  | notify
  deriving DecidableEq, Repr

/-- The durations and the clock of one `start_hardened`. -/
structure Clock where
  now : Nat
  grace : Nat
  settlement : Nat
  deriving DecidableEq, Repr

/-! ## The collector -/

/-- What a pipe answers a read: no bytes is its end. -/
inductive ReadResult
  | bytes (data : List UInt8)
  | error
  deriving DecidableEq, Repr

/-- What a turn of the collector has decided before it waits. -/
structure Turn where
  available : Nat
  tail : Bool
  readSize : Nat
  enabled : PerStream Bool
  deadline : Option Nat
  deriving DecidableEq, Repr

/-- Where `collect` stands. -/
inductive Collector
  | calling (call : Call) (next : Collector)
  | setup (st : Stream)
  | top
  | snapshot
  | clock (p : OutputFact)
  | closing (cause : CollectionCause)
  | select (turn : Turn)
  | observing (st : Stream) (result : ReadResult) (tail : Bool)
  | admitting (st : Stream) (data : List UInt8)
  | spawning (st : Stream)
  | returned
  deriving DecidableEq, Repr

/-! ## The write workers -/

/-- Where `write_prefix` stands. -/
inductive WriterStage
  | queued
  | writing
  | recording (count : Nat)
  | notifying
  | settling (fault : Option StorageFault)
  | calling (call : Call)
  | unpinning
  | finishing
  | finished
  deriving DecidableEq, Repr

/-- An admitted write. `recorded` of its bytes are in the retained count; a lost worker does
nothing more. -/
structure Writer where
  data : List UInt8
  recorded : Nat := 0
  stage : WriterStage := .queued
  lost : Bool := false
  deriving DecidableEq, Repr

/-! ## The replay -/

/-- Where the blocking part of `replay` stands. -/
inductive ReplayStage
  | reading
  | calling (call : Call) (fault : StorageFault)
  | unpinning (result : Except StorageFault (List UInt8))
  | finishing (result : Except StorageFault (List UInt8))
  deriving DecidableEq

/-- The replay that holds the gate, for the sender of `generation`. -/
structure Replay where
  generation : Nat
  st : Stream
  offset : Nat
  stop : Nat
  stage : ReplayStage := .reading
  deriving DecidableEq

/-! ## The senders -/

/-- Where `send_output` stands in its turn. -/
inductive SenderStage
  | top
  | snapshot
  | report (p : OutputFact)
  | receipt (p : OutputFact)
  | choose (p : OutputFact)
  | gate (st : Stream) (stop : Nat)
  | replaying (st : Stream)
  | replayed (st : Stream) (result : Except StorageFault (List UInt8))
  | ending (p : OutputFact)
  | emitting (p : OutputFact)
  | waiting
  | done
  deriving DecidableEq

/-- One attachment's sender. `hello` is the fact of its opening, `acknowledgements` its receipt
channel. `missedExit` and `missedAbsence` record that the leader's exit, or the group's absence, has
become known since the snapshot of the turn. -/
structure Sender where
  opening : PerStream Nat
  hello : OutputFact
  position : PerStream Nat
  acknowledgements : Stdin.Receipts
  last : Option OutputFact := none
  preferStdout : Bool := true
  stage : SenderStage := .top
  frames : List Frame := []
  missedExit : Bool := false
  missedAbsence : Bool := false
  deriving DecidableEq

/-! ## The session -/

/-- Where the operation's spawned loop stands; `step` has read the metadata. -/
inductive Loop
  | read
  | step (m : Meta)
  | notify
  deriving DecidableEq, Repr

/-- One admission of a normal read. -/
structure Admission where
  st : Stream
  read : Nat
  retained : Nat
  deriving DecidableEq, Repr

/-- One replay end, with what was known when it was emitted. -/
structure ReplayEnd where
  fact : OutputFact
  result : Option Completion
  status : Option ExitResult

/-- `writes` and `held` are the collector's `writes` and `files`: which streams have a write task to
join, and which files it has in hand. -/
structure State where
  metadata : Meta := {}
  policy : OutputFact
  operation : Operation
  loop : Loop := .read
  attachment : AttachmentState := {}
  pipes : PerStream Bool
  collector : Collector
  notified : Bool := false
  tailDeadline : Option Nat := none
  writes : PerStream Bool := .both false
  held : PerStream Bool := .both true
  writers : PerStream (Option Writer) := .both none
  replay : Option Replay := none
  senders : Nat → Option Sender := fun _ => none
  files : PerStream (List UInt8) := .both []
  waited : Bool := false
  waitNotify : Bool := false
  terminal : Bool := false
  read : PerStream (List UInt8) := .both []
  admissions : List Admission := []
  ends : List ReplayEnd := []

namespace State

/-- `snapshot`. -/
def fact (s : State) : OutputFact :=
  s.policy.fact s.metadata s.operation.cancellation

/-- `announce_if_terminal`. -/
def announce (s : State) : State :=
  { s with terminal := s.terminal || s.metadata.terminal }

/-- The next part of a call, and what is left of it. -/
def call (s : State) (c : Call) (clock : Clock) : State × Option Call :=
  match c with
  | .stop reason => ({ s with policy := s.policy.latch reason }, some .start)
  | .storageFault st fault => ({ s with policy := s.policy.storageFault st fault }, some .start)
  | .start =>
    ({ s with operation := s.operation.start clock.now clock.grace clock.settlement },
      some .notify)
  | .notify => ({ s with notified := true }, none)

def setWriter (s : State) (st : Stream) (w : Option Writer) : State :=
  { s with writers := s.writers.set st w }

def setSender (s : State) (generation : Nat) (sender : Sender) : State :=
  { s with senders := Function.update s.senders generation (some sender) }

/-- A change of every sender. -/
def mapSenders (s : State) (f : Sender → Sender) : State :=
  { s with senders := fun g => (s.senders g).map f }

end State

/-! ## Steps of the collector -/

inductive CollectorAct
  | call (clock : Clock)
  | setup
  | enable
  | snapshot
  /-- The clock, the cancellation's flags, and all that follows from them. -/
  | look (now : Nat)
  | close
  | joined (st : Stream)
  | wake
  | read (st : Stream) (result : ReadResult)
  | observe
  | admitRead
  | spawn
  deriving DecidableEq, Repr

/-- The rest of the setup loop. -/
def Collector.afterSetup : Stream → Collector
  | .stdout => .setup .stderr
  | .stderr => .top

/-- The tail's deadline: set once, when the group is gone and no write is outstanding. -/
def State.tailDeadlineAt (s : State) (p : OutputFact) (now : Nat) : Option Nat :=
  let c := s.operation.cancellation
  let writing := s.writes.stdout || s.writes.stderr
  if p.firstStop.isSome && c.groupAbsent && !writing && s.tailDeadline.isNone then
    some (min (now + tailMillis) (c.finishDeadline.getD now))
  else
    s.tailDeadline

/-- What a turn may read, and from which pipes. -/
def State.turn (s : State) (p : OutputFact) (tail : Bool) (available : Nat) : Turn :=
  let reading := p.firstStop.isNone || tail
  let enabled (st : Stream) : Bool := reading && (p.streams.get st).collection == .reading &&
    (!s.writes.get st || (!tail && available == 0))
  let size := if tail then tailBytes - p.tailRead else available + 1
  { available := available
    tail := tail
    readSize := min size readSize
    enabled := ⟨enabled .stdout, enabled .stderr⟩
    deadline := s.tailDeadline.or s.operation.cancellation.finishDeadline }

/-- What a turn does with its snapshot and the cancellation's flags. -/
def State.look (s : State) (p : OutputFact) (now : Nat) : Option State :=
  let c := s.operation.cancellation
  if c.finishDeadline.any fun stop => decide (stop ≤ now) then
    let cause := if p.ioInflight ≠ 0 then .storagePending else .operationDeadline
    some { s with collector := .closing cause }
  else if c.finished && !c.groupAbsent && (p.firstStop.isSome || c.finishDeadline.isSome) then
    some { s with collector := .closing .groupUnconfirmed }
  else
    let s := { s with tailDeadline := s.tailDeadlineAt p now }
    let tail := p.firstStop.isSome && s.tailDeadline.isSome
    if tail && s.tailDeadline.any fun stop => decide (stop ≤ now) then
      some { s with collector := .closing .tailTime }
    else if tail && p.tailRead == tailBytes then
      some { s with collector := .closing .tailBytes }
    else
      p.available.map fun available => { s with collector := .select (s.turn p tail available) }

/-- The section of `observed`, and what follows it. -/
def State.observe (s : State) (st : Stream) (result : ReadResult) (tail : Bool) : State :=
  match result with
  | .bytes [] =>
    { s with
      policy := s.policy.observeEof st
      metadata := { s.metadata with closed := s.metadata.closed.set st true }
      collector := .calling .notify .top }.announce
  | .bytes data =>
    if tail then { s with policy := s.policy.observeTail st data.length, collector := .top }
    else { s with collector := .admitting st data }
  | .error =>
    { s with
      policy := s.policy.observeError st
      collector := .calling (.stop .outputReadFault) .top }

/-- Where an admission goes on. -/
def Collector.admitted (st : Stream) (read retained : Nat) : Collector :=
  let next : Collector := if retained ≠ 0 then .spawning st else .top
  if retained ≠ read then .calling (.stop .outputLimit) next else next

/-- The admission of a normal read. -/
def State.admitRead (s : State) (st : Stream) (data : List UInt8) : Option State :=
  (s.policy.admitRead st data.length).map fun (p, retained) =>
    { s with
      policy := p
      writers :=
        if retained ≠ 0 then s.writers.set st (some { data := data.take retained })
        else s.writers
      admissions := s.admissions ++ [⟨st, data.length, retained⟩]
      collector := .admitted st data.length retained }

/-- A joined write task gives its file back, or was lost with it. -/
def State.joined (s : State) (st : Stream) : Option State :=
  match s.writes.get st, s.writers.get st with
  | true, some w =>
    if w.lost then
      some { s with
        writes := s.writes.set st false
        collector := .calling (.storageFault st .workerLost) .top }
    else if w.stage = .finished then
      some { s with
        writes := s.writes.set st false
        held := s.held.set st true
        writers := s.writers.set st none
        collector := .top }
    else
      none
  | _, _ => none

/-- The admitted write is spawned with its stream's file. -/
def State.spawn (s : State) (st : Stream) : Option State :=
  match s.held.get st, s.writers.get st with
  | true, some w =>
    some { s with
      held := s.held.set st false
      writes := s.writes.set st true
      writers := s.writers.set st (some { w with stage := .writing })
      collector := .top }
  | _, _ => none

def collectorStep (s : State) (act : CollectorAct) : Option State :=
  match s.collector, act with
  | .calling call next, .call clock =>
    match s.call call clock with
    | (s, some rest) => some { s with collector := .calling rest next }
    | (s, none) => some { s with collector := next }
  | .setup st, .setup =>
    if s.pipes.get st then some { s with collector := .afterSetup st }
    else
      some { s with
        policy := s.policy.missingPipe st
        collector := .calling (.stop .pipeSetupFault) (.afterSetup st) }
  | .top, .enable => some { s with notified := false, collector := .snapshot }
  | .snapshot, .snapshot =>
    if s.fact.collected && !s.writes.stdout && !s.writes.stderr then
      some { s with collector := .returned }
    else
      some { s with collector := .clock s.fact }
  | .clock p, .look now => s.look p now
  | .closing cause, .close =>
    some { s with
      policy := s.policy.closeCollection cause
      collector := .calling .notify .returned }
  | .select _, .joined st => s.joined st
  | .select turn, .wake =>
    if s.notified || turn.deadline.isSome then some { s with collector := .top } else none
  | .select turn, .read st result =>
    if turn.enabled.get st then
      match result with
      | .bytes data =>
        if data.length ≤ turn.readSize then
          some { s with
            read := s.read.set st (s.read.get st ++ data)
            collector := .observing st result turn.tail }
        else
          none
      | .error => some { s with collector := .observing st result turn.tail }
    else
      none
  | .observing st result tail, .observe => some (s.observe st result tail)
  | .admitting st data, .admitRead => s.admitRead st data
  | .spawning st, .spawn => s.spawn st
  | _, _ => none

/-! ## Steps of a write worker -/

inductive WriterAct
  /-- `write` returns a count, or an error after some bytes of whatever reached the file. -/
  | write (count : Nat)
  | writeError (added : List UInt8)
  | record
  | notify
  | flush (ok : Bool)
  | settle
  | call (clock : Clock)
  | unpin
  /-- The worker panics or is dropped. -/
  | lose
  deriving DecidableEq, Repr

/-- The fault of a write that failed after `written` bytes. -/
def writeFault (written : Nat) : StorageFault :=
  if written = 0 then .write else .partialWrite

def writerStep (s : State) (st : Stream) (w : Writer) (act : WriterAct) : Option State :=
  let goto (s : State) (stage : WriterStage) : State :=
    s.setWriter st (some { w with stage := stage })
  let unwritten := w.data.length - w.recorded
  if w.lost then none
  else
    match w.stage, act with
    | .writing, .write count =>
      if unwritten = 0 then none
      else if count = 0 then some (goto s (.settling (some (writeFault w.recorded))))
      else if count ≤ unwritten then
        let added := (w.data.drop w.recorded).take count
        some (goto { s with files := s.files.set st (s.files.get st ++ added) } (.recording count))
      else
        none
    | .writing, .writeError added =>
      if unwritten = 0 then none
      else
        some (goto { s with files := s.files.set st (s.files.get st ++ added) }
          (.settling (some (writeFault w.recorded))))
    | .recording count, .record =>
      (s.policy.recordWrite st count).map fun p =>
        { s with
          policy := p
          metadata := { s.metadata with
            ends := s.metadata.ends.set st (p.streams.get st).retained }
          writers := s.writers.set st
            (some { w with recorded := w.recorded + count, stage := .notifying }) }
    | .notifying, .notify => some (goto { s with notified := true } .writing)
    | .writing, .flush ok =>
      if unwritten = 0 then some (goto s (.settling (if ok then none else some .flush)))
      else none
    | .settling fault, .settle =>
      (s.policy.settleWrite st unwritten fault.isSome).map fun p =>
        goto { s with policy := p }
          (match fault with
          | some fault => .calling (.storageFault st fault)
          | none => .unpinning)
    | .calling call, .call clock =>
      match s.call call clock with
      | (s, some rest) => some (goto s (.calling rest))
      | (s, none) => some (goto s .unpinning)
    | .unpinning, .unpin => s.policy.unpin.map fun p => goto { s with policy := p } .finishing
    | .finishing, .notify => some (goto { s with notified := true } .finished)
    | .queued, _ => none
    | .finished, _ => none
    | _, .lose => some (s.setWriter st (some { w with lost := true }))
    | _, _ => none

/-! ## Steps of the replay -/

inductive ReplayAct
  | openError
  /-- The file read returns so many bytes; none is an error. -/
  | read (count : Nat)
  | call (clock : Clock)
  | unpin
  | finish
  deriving DecidableEq, Repr

/-- A finished replay reaches its sender, if the sender is still there. -/
def Sender.deliver (sender : Sender) (result : Except StorageFault (List UInt8)) : Sender :=
  match sender.stage with
  | .replaying st => { sender with stage := .replayed st result }
  | _ => sender

def replayStep (s : State) (r : Replay) (act : ReplayAct) : Option State :=
  let goto (s : State) (stage : ReplayStage) : State :=
    { s with replay := some { r with stage := stage } }
  match r.stage, act with
  | .reading, .openError =>
    some (goto s (.calling (.storageFault r.st .replayOpen) .replayOpen))
  | .reading, .read count =>
    match Buffered.readAt (s.files.get r.st) r.offset r.stop count with
    | none => none
    | some [] => some (goto s (.calling (.storageFault r.st .replayRead) .replayRead))
    | some data => some (goto s (.unpinning (.ok data)))
  | .calling call fault, .call clock =>
    match s.call call clock with
    | (s, some rest) => some (goto s (.calling rest fault))
    | (s, none) => some (goto s (.unpinning (.error fault)))
  | .unpinning result, .unpin =>
    s.policy.unpin.map fun p => goto { s with policy := p } (.finishing result)
  | .finishing result, .finish =>
    some { s with
      notified := true
      replay := none
      senders := Function.update s.senders r.generation
        ((s.senders r.generation).map (·.deliver result)) }
  | _, _ => none

/-! ## Steps of a sender -/

inductive SenderAct
  /-- The authority check of a new turn. -/
  | turn
  | snapshot
  /-- The coalesced progress frame, if the fact has changed. -/
  | report
  /-- The coalesced receipt, if there is one. -/
  | receipt
  | choose
  /-- The replay takes the gate and its pin. -/
  | replay
  /-- The authority check before a data frame, and the frame. -/
  | emit
  /-- The check of the end condition, with the cancellation's flag. -/
  | finish
  /-- The replay end. -/
  | replayEnd
  | wake
  /-- The socket fails, or the future is dropped. -/
  | stop
  deriving DecidableEq, Repr

/-- The stream a turn replays, if either has bytes. -/
def Sender.stream (s : Sender) (p : OutputFact) : Option Stream :=
  let out := p.streams.stdout.retained
  let err := p.streams.stderr.retained
  if s.position.stdout < out ∧ (s.preferStdout = true ∨ s.position.stderr = err) then some .stdout
  else if s.position.stderr < err then some .stderr
  else none

/-- The end condition, over the turn's snapshot and the flag read after it. -/
def ended (p : OutputFact) (cancelFinished : Bool) : Bool :=
  p.collected && p.ioInflight == 0 && (p.leaderExit.isSome || cancelFinished) &&
    (p.firstStop.isNone || p.originalGroupAbsent || cancelFinished)

def senderStep (s : State) (generation : Nat) (sender : Sender) (act : SenderAct) :
    Option State :=
  let current := s.attachment.isCurrent generation
  let goto (sender : Sender) (stage : SenderStage) : State :=
    s.setSender generation { sender with stage := stage }
  match sender.stage, act with
  | .top, .turn => some (goto sender (if current then .snapshot else .done))
  | .snapshot, .snapshot =>
    some (goto { sender with missedExit := false, missedAbsence := false } (.report s.fact))
  | .report p, .report =>
    if sender.last = some p then some (goto sender (.receipt p))
    else
      some (goto { sender with
        last := some p, frames := sender.frames ++ [.outputState p] } (.receipt p))
  | .receipt p, .receipt =>
    if sender.acknowledgements.changed then
      some (goto { sender with
        acknowledgements := sender.acknowledgements.take
        frames := sender.frames ++ [.stdinPosition sender.acknowledgements.latest] } (.choose p))
    else
      some (goto sender (.choose p))
  | .choose p, .choose =>
    match sender.stream p with
    | some st => some (goto sender (.gate st (p.streams.get st).retained))
    | none => some (goto sender (.ending p))
  | .gate st stop, .replay =>
    match s.replay with
    | some _ => none
    | none =>
      some { goto sender (.replaying st) with
        policy := s.policy.pin
        replay := some { generation, st, offset := sender.position.get st, stop } }
  | .replayed _ (.error _), .emit => some (goto sender .done)
  | .replayed st (.ok data), .emit =>
    if current then
      let position := sender.position.get st
      some (goto { sender with
        position := sender.position.set st (position + data.length)
        preferStdout := st == .stderr
        frames := sender.frames ++ [.outputData st position data] } .top)
    else
      some (goto sender .done)
  | .ending p, .finish =>
    if ended p s.operation.cancellation.finished then some (goto sender (.emitting p))
    else some (goto sender .waiting)
  | .emitting p, .replayEnd =>
    some { goto { sender with frames := sender.frames ++ [.outputEnd p] } .done with
      ends := s.ends ++ [⟨p, s.operation.cancellation.result, s.metadata.status⟩] }
  | .waiting, .wake => some (goto sender .top)
  | .done, _ => none
  | _, .stop => some (goto sender .done)
  | _, _ => none

/-! ## The machine -/

inductive Act
  | install (force : Bool)
  | clear (generation : Nat)
  /-- The leader's wait completes, and its notification. -/
  | wait (result : Except String ExitResult)
  | waitNotify
  /-- A cancel request starts the operation or joins it. -/
  | cancel (clock : Clock)
  /-- The operation's loop: it reads the metadata, steps and notifies. -/
  | operationRead
  | operationStep (now : Nat) (kernel : Kernel)
  | operationNotify
  | collector (act : CollectorAct)
  | writer (st : Stream) (act : WriterAct)
  | replay (act : ReplayAct)
  /-- `attach` accepts the offsets of an opening, announces a stdin position and starts a sender. -/
  | attach (generation : Nat) (offsets : PerStream Nat) (stdin : Nat)
  /-- `publish_receipt` on an attachment's channel. -/
  | publish (generation position : Nat)
  | sender (generation : Nat) (act : SenderAct)

/-- The wait task. A failed wait is a failure, never an exit. -/
def State.wait (s : State) (result : Except String ExitResult) : State :=
  match result with
  | .ok status =>
    ({ s with
      metadata := { s.metadata with status := some status }
      waited := true
      waitNotify := true }.mapSenders fun sender => { sender with missedExit := true }).announce
  | .error error =>
    let failure := s!"command wait failed; actual exit and group settlement unverified: {error}"
    { s with
      metadata := { s.metadata with failure := some failure }
      waited := true
      waitNotify := true }.announce

/-- One step of the operation, under the cancellation mutex. -/
def State.operationStep (s : State) (m : Meta) (now : Nat) (kernel : Kernel) : Option State :=
  (s.operation.turn now m kernel).map fun operation =>
    let latched := operation.cancellation.groupAbsent && !s.operation.cancellation.groupAbsent
    let s := if latched then s.mapSenders fun sender => { sender with missedAbsence := true } else s
    { s with operation := operation, loop := .notify }

def State.attach (s : State) (generation : Nat) (offsets : PerStream Nat) (stdin : Nat) : State :=
  s.setSender generation
    { opening := offsets, hello := s.fact, position := offsets
      acknowledgements := .ofOpening stdin }

def step (s : State) : Act → Option State
  | .install force =>
    match s.attachment.install force with
    | .ok (_, a) => some { s with attachment := a }
    | .error () => some s
  | .clear generation => some { s with attachment := s.attachment.compareClear generation }
  | .wait result => if s.waited then none else some (s.wait result)
  | .waitNotify =>
    if s.waitNotify then some { s with notified := true, waitNotify := false } else none
  | .cancel clock =>
    some { s with operation := s.operation.start clock.now clock.grace clock.settlement }
  | .operationRead =>
    if s.operation.task.isSome = true ∧ s.loop = .read ∧
        s.operation.cancellation.finished = false then
      some { s with loop := .step s.metadata }
    else
      none
  | .operationStep now kernel =>
    match s.loop with
    | .step m => s.operationStep m now kernel
    | _ => none
  | .operationNotify =>
    match s.loop with
    | .notify => some { s with notified := true, loop := .read }
    | _ => none
  | .collector act => collectorStep s act
  | .writer st act =>
    match s.writers.get st with
    | some w => writerStep s st w act
    | none => none
  | .replay act =>
    match s.replay with
    | some r => replayStep s r act
    | none => none
  | .attach generation offsets stdin =>
    if s.attachment.isCurrent generation = true ∧ s.senders generation = none ∧
        Buffered.offsetsAreAhead s.metadata offsets = false then
      some (s.attach generation offsets stdin)
    else
      none
  | .publish generation position =>
    match s.senders generation with
    | some sender =>
      some (s.setSender generation
        { sender with acknowledgements := sender.acknowledgements.publish position })
    | none => none
  | .sender generation act =>
    match s.senders generation with
    | some sender => senderStep s generation sender act
    | none => none

/-- The session at the start of `collect`. Setting up a pipe may have failed: then `run` calls
`stop` first, and the pipes of the output streams may be missing. -/
def initial (limit : Nat) (operation : Operation) (setupFailed : Bool) (pipes : PerStream Bool) :
    State where
  policy := .new limit
  operation := operation
  pipes := pipes
  collector :=
    if setupFailed then .calling (.stop .pipeSetupFault) (.setup .stdout) else .setup .stdout

def machine (limit : Nat) : Machine State Act where
  init s := ∃ operation setupFailed pipes, Operation.machine.init operation ∧
    (setupFailed = false → pipes = .both true) ∧ s = initial limit operation setupFailed pipes
  step := step

end Pipekeep.Bounds
