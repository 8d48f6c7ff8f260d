import Mathlib.Logic.Function.Basic
import Pipekeep.Broker
import Pipekeep.Lib.Machine

/-!
# The input of the outer wrapper

The outer `pipekeep` reads local stdin in the background into its `InputBuffer`: all of it into an
unlinked file, or a rolling window without buffering. Each attempt starts a transport, opens the
remote session through it and writes raw bytes from the position that the remote broker returned;
the remote proxy counts the bytes that arrive from the same position. Nothing else is on that wire.

Positions are `u64` in the source and cannot wrap within what a process can read.
-/

namespace Pipekeep.Outer

/-- `LIVE_STDIN_CAPACITY`. -/
def liveStdinCapacity : Nat := 64 * 1024

/-! ## The input buffer -/

/-- `stop` is `end`. -/
structure InputMeta where
  stop : Nat := 0
  eof : Bool := false
  liveBase : Nat := 0
  live : List UInt8 := []
  deriving DecidableEq, Repr

/-- The loop of `retain_live_tail`: the oldest byte goes while there are too many. -/
def trimLive : List UInt8 → Nat → List UInt8 × Nat
  | [], base => ([], base)
  | b :: live, base =>
    if (b :: live).length > liveStdinCapacity then trimLive live (base + 1) else (b :: live, base)

def InputMeta.retainLiveTail (m : InputMeta) (data : List UInt8) : InputMeta :=
  let (live, base) := trimLive (m.live ++ data) m.liveBase
  { m with live := live, liveBase := base }

/-- `file` is the content of the spool; without buffering there is none. -/
structure InputBuffer where
  metadata : InputMeta := {}
  file : Option (List UInt8)
  deriving DecidableEq, Repr

structure InputState where
  start : Nat
  eof : Option Nat
  deriving DecidableEq, Repr

inductive InputPart
  | data (offset : Nat) (data : List UInt8)
  | eof (offset : Nat)
  | wait
  deriving DecidableEq, Repr

namespace InputBuffer

def attachmentState (b : InputBuffer) : InputState where
  start := if b.file.isSome then 0 else b.metadata.liveBase
  eof := if b.metadata.eof then some b.metadata.stop else none

/-- `next`; a positional read of the file returns at most `read` bytes. -/
def next (b : InputBuffer) (position read : Nat) : InputPart :=
  let m := b.metadata
  let rest : InputPart := if m.eof then .eof m.stop else .wait
  match b.file with
  | some file =>
    if position < m.stop then
      let count := min (m.stop - position) chunkSize
      .data position ((file.drop position).take (min read count))
    else rest
  | none =>
    let offset := max position m.liveBase
    if offset < m.stop then
      let start := offset - m.liveBase
      let count := min (m.stop - offset) chunkSize
      .data offset ((m.live.drop start).take count)
    else rest

end InputBuffer

/-! ## Parties -/

/-- Where `read_local_stdin` stands: with a chunk to spool, or to count. -/
inductive ReaderStage
  | reading
  | spooling (data : List UInt8)
  | counting (data : List UInt8)
  | returned
  deriving DecidableEq, Repr

/-- `send_raw_stdin`: it sends, waits forever, has asked for a new attachment, or has failed. -/
inductive SenderStage
  | sending
  | pending
  | reattach
  | failed
  deriving DecidableEq, Repr

structure Sender where
  position : Nat
  declaredEof : Option Nat
  stage : SenderStage
  deriving DecidableEq, Repr

/-- `forward_raw_stdin`, of the remote proxy: it forwards, waits forever, or has returned. -/
inductive ProxyStage
  | forwarding
  | pending
  | returned
  deriving DecidableEq, Repr

/-- `forwarded` are the offsets and the data of its frames to the broker. -/
structure Proxy where
  position : Nat
  eof : Option Nat
  stage : ProxyStage
  forwarded : List (Nat × List UInt8) := []
  deriving DecidableEq, Repr

/-- One opened attempt: the stdin position of its opening, and the raw bytes written to its
transport, of which those in `pipe` have not been read by the proxy. -/
structure Attempt where
  start : Nat
  sender : Sender
  proxy : Proxy
  written : List UInt8 := []
  pipe : List UInt8 := []
  deriving DecidableEq, Repr

def Sender.new (position : Nat) (declaredEof : Option Nat) (serverEof : Bool) : Sender where
  position := position
  declaredEof := declaredEof
  stage := if serverEof then .pending else .sending

/-- A turn of `send_raw_stdin`: the sender, what it writes, and the EOF it has declared. -/
def Sender.send (s : Sender) : InputPart → Sender × List UInt8 × Option Nat
  | .data offset data =>
    if offset ≠ s.position then ({ s with stage := .reattach }, [], none)
    else ({ s with position := s.position + data.length }, data, none)
  | .eof offset =>
    if offset ≠ s.position then ({ s with stage := .failed }, [], none)
    else
      match s.declaredEof with
      | some declared =>
        if declared ≠ offset then ({ s with stage := .failed }, [], none)
        else ({ s with stage := .pending }, [], none)
      | none => ({ s with stage := .pending }, [], some offset)
  | .wait => (s, [], none)

/-- The entry of `forward_raw_stdin`. -/
def Proxy.new (position : Nat) (eof : Option Nat) (alreadyEof : Bool) : Proxy where
  position := position
  eof := eof
  stage :=
    if alreadyEof then .pending
    else if eof.any fun stop => decide (position > stop) then .returned
    else .forwarding

/-- How much a turn may read. -/
def Proxy.limit (p : Proxy) : Nat :=
  (p.eof.map fun stop => min (stop - p.position) chunkSize).getD chunkSize

/-- A turn of `forward_raw_stdin` that has read `data`. -/
def Proxy.forward (p : Proxy) (data : List UInt8) : Proxy :=
  match checkedEnd p.position data.length with
  | .error _ => { p with stage := .returned }
  | .ok position =>
    { p with position := position, forwarded := p.forwarded ++ [(p.position, data)] }

/-! ## The machine -/

/-- `attempts` are the opened ones by number, `opening` is the input state that the current attempt
has taken and not opened with yet. `input` logs the bytes that local stdin gave, `ended` its end,
`failed` an error of it or of the spool, and `reports` the EOFs that were reported to the broker. -/
structure State where
  buffer : InputBuffer
  reader : ReaderStage := .reading
  attempt : Nat := 0
  opening : Option InputState := none
  attempts : Nat → Option Attempt := fun _ => none
  input : List UInt8 := []
  ended : Bool := false
  failed : Bool := false
  reports : List Nat := []

inductive ReaderAct
  /-- `read` returns bytes, none at the end, or fails. -/
  | read (result : Option (List UInt8))
  /-- `write_all` of the spool succeeds, or fails after some bytes of whatever reached the file. -/
  | spool (failed : Option (List UInt8))
  | count
  deriving DecidableEq, Repr

inductive Act
  | reader (act : ReaderAct)
  /-- The run loop starts an attempt: the old sender is aborted, and the input state is taken. -/
  | attempt
  /-- The opening returns the broker's stdin position and whether it has reached EOF. -/
  | opened (position : Nat) (serverEof : Bool)
  /-- A turn of the current sender, which may also fail. -/
  | send (read : Nat)
  | fail
  /-- The proxy of an attempt reads so many bytes of its transport, none at its end. -/
  | forward (attempt count : Nat)
  deriving DecidableEq, Repr

/-- EOF is set under the lock, and the reader returns. -/
def State.setEof (s : State) : State :=
  { s with
    buffer := { s.buffer with metadata := { s.buffer.metadata with eof := true } }
    reader := .returned }

/-- A chunk is counted, and without buffering retained. -/
def State.count (s : State) (data : List UInt8) : State :=
  let m := { s.buffer.metadata with stop := s.buffer.metadata.stop + data.length }
  { s with
    buffer := { s.buffer with
      metadata := if s.buffer.file.isNone then m.retainLiveTail data else m }
    reader := .reading }

def readerStep (s : State) (act : ReaderAct) : Option State :=
  match s.reader, act with
  | .reading, .read none => some { s.setEof with failed := true }
  | .reading, .read (some []) => some { s.setEof with ended := true }
  | .reading, .read (some data) =>
    if data.length ≤ chunkSize then
      some { s with
        input := s.input ++ data
        reader := if s.buffer.file.isSome then .spooling data else .counting data }
    else
      none
  | .spooling data, .spool none =>
    some { s with
      buffer := { s.buffer with file := s.buffer.file.map (· ++ data) }
      reader := .counting data }
  | .spooling _, .spool (some added) =>
    let s := { s with buffer := { s.buffer with file := s.buffer.file.map (· ++ added) } }
    some { s.setEof with failed := true }
  | .counting data, .count => some (s.count data)
  | _, _ => none

def State.setAttempt (s : State) (i : Nat) (a : Attempt) : State :=
  { s with attempts := Function.update s.attempts i (some a) }

/-- The input state of a new attempt is what its opening tells the broker. -/
def State.begin (s : State) : State :=
  let state := s.buffer.attachmentState
  { s with
    attempt := s.attempt + 1
    opening := some state
    reports := s.reports ++ state.eof.toList }

/-- Both ends start from the opening's numbers. -/
def Attempt.new (state : InputState) (position : Nat) (serverEof : Bool) : Attempt where
  start := position
  sender := .new position state.eof serverEof
  proxy := .new position state.eof serverEof

def step (s : State) : Act → Option State
  | .reader act => readerStep s act
  | .attempt => some s.begin
  | .opened position serverEof =>
    s.opening.map fun state =>
      { s.setAttempt s.attempt (.new state position serverEof) with opening := none }
  | .send read =>
    match s.attempts s.attempt with
    | some a =>
      if a.sender.stage = .sending then
        let (sender, data, eof) := a.sender.send (s.buffer.next a.sender.position read)
        some { s.setAttempt s.attempt { a with
            sender := sender, written := a.written ++ data, pipe := a.pipe ++ data } with
          reports := s.reports ++ eof.toList }
      else
        none
    | none => none
  | .fail =>
    match s.attempts s.attempt with
    | some a =>
      if a.sender.stage = .sending then
        some (s.setAttempt s.attempt { a with sender := { a.sender with stage := .failed } })
      else
        none
    | none => none
  | .forward i count =>
    match s.attempts i with
    | some a =>
      if a.proxy.stage = .forwarding ∧ a.proxy.eof ≠ some a.proxy.position ∧
          count ≤ a.proxy.limit ∧ count ≤ a.pipe.length then
        if count = 0 then
          some (s.setAttempt i { a with proxy := { a.proxy with stage := .returned } })
        else
          some (s.setAttempt i { a with
            proxy := a.proxy.forward (a.pipe.take count), pipe := a.pipe.drop count })
      else
        none
    | none => none

/-- The wrapper before it has read anything. -/
def initial (nobuffer : Bool) : State where
  buffer := { file := if nobuffer then none else some [] }

/-- The wrapper with or without buffering. -/
def machine : Machine State Act where
  init s := ∃ nobuffer, s = initial nobuffer
  step := step

end Pipekeep.Outer
