import Pipekeep.Cli
import Pipekeep.Serde
import Pipekeep.ServerError
import Pipekeep.Lib.Escape

/-!
# Opening lines

`read_line` and `write_json_line`, `run` of the inner server up to the raw streams, and what
`attempt` of the outer wrapper makes of the line. The reader has a bound, the writer none.

The bytes of an error line are spelled out here. What serde makes of a header, and of a line that is
read, is a parameter, `LineSerde`. The proxy of an EOF control has a conversation of its own.
-/

namespace Pipekeep

open Json (newline quoted)

/-- `MAX_JSON_LINE`. -/
def maxJsonLine : Nat := 64 * 1024

def readLineFrom (line : List UInt8) :
    List UInt8 → Except String (Option (List UInt8 × List UInt8))
  | [] =>
    if line.isEmpty then .ok none else .error "connection ended in the opening JSON message"
  | byte :: rest =>
    if byte = newline then .ok (some (line, rest))
    else if (line ++ [byte]).length > maxJsonLine then
      .error "opening JSON message is too large"
    else
      readLineFrom (line ++ [byte]) rest

/-- `read_line`: the line and what is left behind its newline, or a clean end. -/
def readLine (input : List UInt8) : Except String (Option (List UInt8 × List UInt8)) :=
  readLineFrom [] input

/-- The bytes of a text. -/
def utf8 (s : String) : List UInt8 := s.toList.flatMap String.utf8EncodeChar

namespace OpeningLine

open Cli (Server)
open Requests (Opening BrokerRequest ServerHello outputCapability outputAttachment
  framedAttachmentV1)

/-- The value of an opening line. One error of the broker comes with its fact. -/
inductive Line
  | error (text : String)
  | unverified (text : String) (output : Option OutputFact)
  | hello (hello : ServerHello)
  deriving DecidableEq, Repr

/-- `serde_json`'s `to_vec` of a header and `from_slice` of a line. -/
structure LineSerde where
  helloToVec : ServerHello → List UInt8
  fromSlice : List UInt8 → Except String Line

namespace LineSerde

variable (S : LineSerde)

/-- `to_vec`. -/
def lineToVec : Line → List UInt8
  | .error text => toVec "\x7b\"error\":".toList ++ quoted (utf8 text) ++ toVec "\x7d".toList
  | .unverified text output =>
    toVec "\x7b\"error\":".toList ++ quoted (utf8 text) ++ toVec ",\"output\":".toList ++
      toVec (Json.optional OutputFact.toJson output) ++ toVec "\x7d".toList
  | .hello hello => S.helloToVec hello

/-- `write_json_line`. -/
def writeJsonLine (value : Line) : List UInt8 := S.lineToVec value ++ [newline]

end LineSerde

/-! ## The server -/

inductive ClientAction
  | stdinEof
  deriving DecidableEq, Repr

structure ClientHello where
  action : Option ClientAction := none
  offsets : Option (PerStream Nat) := none
  stdinStart : Nat := 0
  stdinEof : Option Nat := none
  force : Bool := false
  deriving DecidableEq, Repr

/-- The errors of `start_broker` for a name. -/
def Starting (id : String) : ServerError → Prop
  | .alreadyExists name => name = id
  | .unsupported _ | .system _ | .noExecutable | .readinessUnknown | .notReady | .waitFailed _
  | .exitedAfterDispatch _ | .exitedDuringStartup _ | .brokerFailed _ => True
  | _ => False

/-- What a server finds on its host. `startBroker` is what that comes to, and `connects` whether a
session that is there is reached before the deadline. `answer` is the broker's line, or none where
its connection ends before it. -/
structure Host (id : String) where
  rootDir : Except String Unit := .ok ()
  startBroker : Except ServerError Unit
  starting : ∀ e, startBroker = .error e → Starting id e
  isDir : Bool
  connects : Bool
  answer : BrokerRequest → Option Line

variable (printable : Char → Bool) (S : LineSerde)

/-- `session_dir`, which the name stands for. -/
def sessionDir {id : String} (host : Host id) : Except String String := do
  let id ← sessionId id
  host.rootDir
  return id

/-- `connect_existing`. -/
def connectExisting {id : String} (host : Host id) : Except ServerError Unit :=
  if host.isDir = false then .error .missing
  else if host.connects then .ok ()
  else .error .cannotConnect

/-- The checks of `run` before the session: the offset of an EOF control, or none for an opening
that goes on. -/
def check (server : Server) (hello : ClientHello) : Except ServerError (Option Nat) :=
  let force := server.force || hello.force
  if server.outputBounded && (hello.action.isSome ||
      (hello.offsets.isNone && server.outputLimit.isNone)) then
    .error .boundedCreation
  else if server.outputLimit.isSome && hello.offsets.isSome then .error .outputLimitRetrofit
  else if server.groupPidfd && (hello.offsets.isSome || hello.action.isSome) then
    .error .groupPidfdRetrofit
  else if server.framed && hello.action.isSome then .error .framedAction
  else
    match hello.action with
    | some .stdinEof =>
      if force then .error .forcedEof
      else
        match hello.stdinEof with
        | none => .error .eofWithoutOffset
        | some offset => .ok (some offset)
    | none =>
      if hello.offsets.isNone && force then .error .forcedCreation
      else if !force && hello.stdinEof.any (· < hello.stdinStart) then .error .eofBeforeStart
      else .ok none

/-- The request of `proxy_attachment`. -/
def request (server : Server) (hello : ClientHello) : BrokerRequest :=
  let opening : Opening :=
    { offsets := hello.offsets.getD (.both 0)
      stdinStart := hello.stdinStart
      stdinEof := hello.stdinEof
      force := server.force || hello.force }
  if server.outputBounded then .attachOutputV1 opening
  else if server.framed then .attachFramedV1 opening
  else .attach opening

/-- The header's checks in `proxy_attachment`. -/
def checkHeader (server : Server) (hello : ServerHello) : Except String Unit := do
  let expected := if server.outputBounded then outputAttachment else framedAttachmentV1
  if server.framed && (hello.attachment != some expected || hello.nobuffer ||
      server.outputBounded != hello.output.isSome) then
    .error ("broker did not confirm buffered framed-v1 attachment; no fallback; " ++
      "session retained")
  else
    if server.outputBounded then
      if hello.exit.isSome || hello.eofs.stdout.isSome || hello.eofs.stderr.isSome then
        .error "bounded attachment header contains legacy terminal facts"
      else
        let output ← hello.output.elim (.error "missing finite output policy") .ok
        output.validate false
        if hello.session.any fun s => s.capabilities.contains outputCapability then .ok ()
        else
          .error ("workload may have started; finite output control unverified; " ++
            "session retained; do not recreate")
    if server.framed then hello.exit.elim (.ok ()) ExitResult.validate else .ok ()

/-- `proxy_attachment`, up to its line: the value and the text. An error is passed on as it came. -/
def proxyAttachment (server : Server) (host : Host server.id) (hello : ClientHello) :
    Except String (Line × List UInt8) := do
  let answer ← (host.answer (request server hello)).elim
    (.error "broker closed before the opening response") .ok
  let (response, _) ← (← readLine (S.writeJsonLine answer)).elim
    (.error "broker closed before the opening response") .ok
  match S.fromSlice response with
  | .error _ => .error "broker returned an invalid attachment header"
  | .ok (.hello header) =>
    checkHeader server header
    return (.hello header, S.lineToVec (.hello header))
  | .ok value => return (value, response)

/-- What `run` comes to before the raw streams: its line, an error that it returns without one, or
the conversation of an EOF control. -/
inductive Opened
  | line (value : Line) (text : List UInt8)
  | failed (error : String)
  | control (offset : Nat)
  deriving DecidableEq, Repr

/-- `write_error_line`. -/
def refuse (e : ServerError) : Opened :=
  let value := Line.error (e.text printable)
  .line value (S.lineToVec value)

/-- `run`, from the client's line on as serde reads it. -/
def run (server : Server) (host : Host server.id) : Except String ClientHello → Opened
  | .error error => refuse printable S (.invalidOpening error)
  | .ok hello =>
    match check server hello with
    | .error e => refuse printable S e
    | .ok (some offset) => .control offset
    | .ok none =>
      match sessionDir host with
      | .error error => .failed error
      | .ok _ =>
        match if hello.offsets.isNone then host.startBroker else connectExisting host with
        | .error e => refuse printable S e
        | .ok () =>
          match proxyAttachment S server host hello with
          | .error error => .failed error
          | .ok (value, text) => .line value text

/-- What a client receives of a server whose raw streams have these bytes. A server that fails has
written none. -/
def Opened.sent (raw : List UInt8) : Opened → List UInt8
  | .line _ text => text ++ newline :: raw
  | .failed _ | .control _ => []

/-! ## The client -/

/-- What an attempt gets for an opening, before it looks at the offsets: `invalid` is an error that
ends the run. -/
inductive Response
  | disconnected
  | invalid (error : String)
  | serverError (error : String)
  | opened (hello : ServerHello) (raw : List UInt8)
  deriving DecidableEq, Repr

/-- The part of `attempt` between its hello and the offsets. -/
def attempt (received : List UInt8) : Response :=
  match readLine received with
  | .error _ | .ok none => .disconnected
  | .ok (some (line, raw)) =>
    match S.fromSlice line with
    | .error error => .invalid error
    | .ok (.error error) | .ok (.unverified error _) => .serverError error
    | .ok (.hello hello) => .opened hello raw

/-- What the run loop does with it. -/
def Response.settle (s : Attempts.State) : Response → Attempts.State
  | .disconnected => s.disconnected false
  | .invalid error => { s with stage := .failed (some error) }
  | .serverError error => s.serverError error
  | .opened hello _ => s.accept hello

end OpeningLine

end Pipekeep
