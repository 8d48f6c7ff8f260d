import Pipekeep.Bounds

/-!
# What the broker does with a request

`handle_connection`, for a request that no other task interrupts: up to its reply, or, where it goes
on with other tasks, up to the point where it waits for them. An attachment is handled up to its
opening; what it sends and receives after that is modelled elsewhere.

`signals` logs the attempts to signal the numeric process group. `clock` is what `start_hardened`
reads, and `killpg` the kernel's answer to the first signal of an ordinary cancellation.
-/

namespace Pipekeep.Requests

open Bounds (Clock)
open Buffered (offsetsAreAhead)

/-- `output::CAPABILITY`, `output::ATTACHMENT` and `FRAMED_ATTACHMENT_V1`. -/
def outputCapability : String := "finite-output-v1"

def outputAttachment : String := "framed-output-v1"

def framedAttachmentV1 : String := "framed-v1"

/-- The fields of an attach request. -/
structure Opening where
  offsets : PerStream Nat := .both 0
  stdinStart : Nat := 0
  stdinEof : Option Nat := none
  force : Bool := false
  deriving DecidableEq, Repr

inductive BrokerRequest
  | attach (opening : Opening)
  | attachOutputV1 (opening : Opening)
  | cancelOutputV1
  | attachFramedV1 (opening : Opening)
  | stdinEof (offset : Nat)
  | pid
  | cancel
  | cancelGroupPidfd
  | session
  deriving DecidableEq, Repr

/-- The opening's reply. `offsets` is `stdout` and `stderr` of its offsets, `stdin` the third. -/
structure ServerHello where
  output : Option OutputFact
  attachment : Option String
  stdinEofAt : Option Nat
  session : Option SessionFact
  stdin : Nat
  offsets : PerStream Nat
  nobuffer : Bool
  stdinEof : Bool
  eofs : PerStream (Option Nat)
  exit : Option ExitResult
  deriving DecidableEq, Repr

/-- What a request comes to. -/
inductive Outcome
  /-- `write_error_line`. -/
  | error (text : String)
  /-- The two errors that come with facts. -/
  | unverified (text : String) (output : Option OutputFact)
  | cancelError (text : String) (session : Option SessionFact) (output : Option OutputFact)
  | pid (pid : Int)
  | session (pid : Int) (session : Option SessionFact) (leaderExit : Option ExitResult)
      (closed : PerStream Bool) (failure : Option String) (output : Option OutputFact)
  | stdinEof (stdin : Nat) (stdinEof : Bool) (stdinEofAt : Option Nat)
  /-- The attachment is open, with its generation. -/
  | attached (generation : Nat) (hello : ServerHello)
  /-- The request waits for the operation, which it has started or joined. -/
  | joined (first : Bool)
  /-- The request waits for the group to go, and has or has not signaled it. -/
  | signaled (sent : Bool)
  deriving DecidableEq, Repr

/-- The reply is an error. -/
def Outcome.isError : Outcome → Bool
  | .error _ | .unverified _ _ | .cancelError _ _ _ => true
  | _ => false

/-- `output` is the policy of a finite output, `operation` that of an opted-in session. -/
structure State where
  metadata : Meta := {}
  output : Option OutputFact := none
  outputBounded : Bool := false
  attachment : AttachmentState := {}
  childStdin : Bool := true
  operation : Option Operation := none
  nobuffer : Bool := false
  commandPid : Int
  signals : List Signal := []

namespace State

/-- `session_fact`. -/
def sessionFact (s : State) : Option SessionFact :=
  s.operation.map fun operation =>
    let fact := operation.cancellation.fact
    if s.outputBounded && !fact.capabilities.isEmpty then
      { fact with capabilities := fact.capabilities ++ [outputCapability] }
    else
      fact

/-- `bounds::fact`. -/
def outputFact (s : State) : Option OutputFact := do
  let p ← s.output
  let operation ← s.operation
  return p.fact s.metadata operation.cancellation

/-- The finite output of the session can be controlled. -/
def controlVerified (s : State) : Bool :=
  s.sessionFact.any fun fact => fact.capabilities.contains outputCapability

/-! ## Attachments -/

/-- `fail_opening`; the guard of the attachment clears once more. -/
def failOpening (s : State) (generation : Nat) (error : String) : State × Outcome :=
  ({ s with attachment := s.attachment.compareClear generation }, .error error)

/-- `apply_opening_stdin`, with the state that it leaves, also if it fails. -/
def applyOpeningStdin (s : State) (generation stdinStart : Nat) (stdinEof : Option Nat) :
    Except String Unit × State :=
  if s.attachment.isCurrent generation = false then (.ok (), s)
  else
    let locked := (Stdin.applyOpeningLocked s.nobuffer stdinStart stdinEof).on s.metadata
    let s := { s with metadata := locked.2 }
    match locked.1 with
    | .error error => (.error error, s)
    | .ok shouldClose => (.ok (), { s with childStdin := s.childStdin && !shouldClose })

/-- The opening's reply, taken under the metadata lock. -/
def hello (s : State) (offsets : PerStream Nat) (framed : Bool) : ServerHello :=
  let m := s.metadata
  let bounded := s.output.isSome
  let eof (st : Stream) := if m.closed.get st && !bounded then some (m.ends.get st) else none
  { output := s.outputFact
    attachment :=
      if framed then some (if bounded then outputAttachment else framedAttachmentV1) else none
    stdinEofAt := if framed then m.stdinEofAt else none
    session := s.sessionFact
    stdin := m.stdinPosition
    offsets := if s.nobuffer then m.ends else offsets
    nobuffer := s.nobuffer
    stdinEof := m.stdinEof
    eofs := ⟨eof .stdout, eof .stderr⟩
    exit := if m.closed.stdout && m.closed.stderr && !bounded then m.status else none }

/-- `attach`, up to its opening. -/
def attach (s : State) (o : Opening) (framed : Bool) : State × Outcome :=
  match s.attachment.install o.force with
  | .error () => (s, .error "session already has an attached client")
  | .ok (generation, attachment) =>
    let s := { s with attachment := attachment }
    if offsetsAreAhead s.metadata o.offsets then
      s.failOpening generation "requested output offset is ahead of the stream"
    else if s.attachment.isCurrent generation = false then
      s.failOpening generation "attachment superseded"
    else
      match s.applyOpeningStdin generation o.stdinStart o.stdinEof with
      | (.error error, s) => s.failOpening generation error
      | (.ok (), s) =>
        if s.attachment.isCurrent generation = false then
          s.failOpening generation "attachment superseded"
        else
          (s, .attached generation (s.hello o.offsets framed))

/-! ## Controls -/

/-- `declare_stdin_eof` and its response. -/
def declareStdinEof (s : State) (offset : Nat) : State × Outcome :=
  let locked := (Stdin.declareStdinEofLocked offset).on s.metadata
  let s := { s with metadata := locked.2 }
  match locked.1 with
  | .error error => (s, .error error)
  | .ok shouldClose =>
    ({ s with childStdin := s.childStdin && !shouldClose },
      .stdinEof s.metadata.stdinPosition s.metadata.stdinEof s.metadata.stdinEofAt)

/-- `cancel_hardened`, up to its loop. -/
def cancelHardened (s : State) (operation : Operation) (clock : Clock) : State × Outcome :=
  let (first, _) := operation.cancellation.start clock.now clock.grace clock.settlement
  ({ s with operation := some (operation.start clock.now clock.grace clock.settlement) },
    .joined first)

/-- `cancel_process_group`, up to its first wait. -/
def cancelProcessGroup (s : State) (killpg : Except String Bool) : State × Outcome :=
  ({ s with signals := s.signals ++ [.term] },
    match killpg with
    | .ok sent => .signaled sent
    | .error error => .cancelError error s.sessionFact s.outputFact)

/-- The arm of the three cancel requests. -/
def cancel (s : State) (required : Bool) (clock : Clock) (killpg : Except String Bool) :
    State × Outcome :=
  match s.operation with
  | some operation => s.cancelHardened operation clock
  | none =>
    if required then
      (s, .cancelError "session lacks verified group-pidfd-cancel-v1; no signal attempted"
        s.sessionFact s.outputFact)
    else
      s.cancelProcessGroup killpg

end State

/-- The first fence: a session with finite output takes no request that does not know of it. -/
def BrokerRequest.outputUnaware : BrokerRequest → Bool
  | .attach _ | .attachFramedV1 _ | .stdinEof _ | .cancel | .cancelGroupPidfd => true
  | _ => false

/-- The second fence: only such a session takes one that does. -/
def BrokerRequest.outputAware : BrokerRequest → Bool
  | .attachOutputV1 _ | .cancelOutputV1 => true
  | _ => false

/-- `handle_connection`, from the request on. -/
def handleConnection (s : State) (clock : Clock) (killpg : Except String Bool)
    (request : BrokerRequest) : State × Outcome :=
  let bounded := s.output.isSome
  if bounded && request.outputUnaware then
    (s, .error "finite-output-v1 session requires affirmative output-aware action; no mutation")
  else if !bounded && request.outputAware then
    (s, .error "session did not opt into finite-output-v1; no retrofit or mutation")
  else
    match request with
    | .pid => (s, .pid s.commandPid)
    | .session =>
      (s, .session s.commandPid s.sessionFact s.metadata.status s.metadata.closed
        s.metadata.failure s.outputFact)
    | .cancel => s.cancel false clock killpg
    | .cancelGroupPidfd => s.cancel true clock killpg
    | .cancelOutputV1 => s.cancel false clock killpg
    | .attachOutputV1 opening =>
      if s.controlVerified then s.attach opening true
      else
        (s, .unverified ("workload started; finite output control unverified; session retained; " ++
          "do not retry creation") s.outputFact)
    | .attach opening => s.attach opening false
    | .attachFramedV1 opening =>
      if s.nobuffer then (s, .error "framed-v1 requires a buffered session")
      else s.attach opening true
    | .stdinEof offset => s.declareStdinEof offset

end Pipekeep.Requests
