import Pipekeep.Attempts

/-!
# The error lines of the inner server

One constructor for each cause, with the text that `write_error_line` gets for it: from the checks
of `run`, from `start_broker` and `connect_existing`, and from the broker's reply to an attach,
which the proxy passes on. A text may embed the session's name, the broker's log, or what the system
or the JSON parser say.

The outer wrapper sees the text only. `byCause` is what it would do if it saw the cause.
-/

namespace Pipekeep

inductive ServerError
  -- `run`, up to the session
  | invalidOpening (error : String)
  | boundedCreation
  | outputLimitRetrofit
  | groupPidfdRetrofit
  | framedAction
  | forcedEof
  | eofWithoutOffset
  | forcedCreation
  | eofBeforeStart
  -- `start_broker`
  | unsupported (error : String)
  | alreadyExists (id : String)
  | system (error : String)
  | noExecutable
  | readinessUnknown
  | notReady
  | waitFailed (error : String)
  | exitedAfterDispatch (status : String)
  | exitedDuringStartup (status : String)
  | brokerFailed (log : String)
  -- `connect_existing`
  | missing
  | cannotConnect
  -- the broker
  | outputUnaware
  | notOptedIn
  | unverified
  | framedNobuffer
  | busy
  | aheadOfStream
  | superseded
  | beyondRecordedEof
  | gap (position : Nat)
  | beyondDeclaredEof
  | eofDeclared (existing : Nat)
  | eofBehind (offset position : Nat)
  deriving DecidableEq, Repr

/-! ## Formatting -/

/-- The six hexadecimal digits of a character, without the leading zeros. -/
def hexDigits (c : Char) : List Char :=
  ([5, 4, 3, 2, 1, 0].map fun i => Nat.digitChar (c.toNat / 16 ^ i % 16)).dropWhile (· == '0')

/-- A character in the `Debug` format of a string. `printable` is the library's table past ASCII:
printable, and no grapheme extender. -/
def escapeDebug (printable : Char → Bool) (c : Char) : List Char :=
  if c = '"' ∨ c = '\\' then ['\\', c]
  else if c = '\x00' then ['\\', '0']
  else if c = '\t' then ['\\', 't']
  else if c = '\n' then ['\\', 'n']
  else if c = '\r' then ['\\', 'r']
  else if 0x20 ≤ c.toNat ∧ c.toNat < 0x7f ∨ 0x7f ≤ c.toNat ∧ printable c = true then [c]
  else ['\\', 'u', '\x7b'] ++ hexDigits c ++ ['\x7d']

/-- `{id:?}`. -/
def debugStr (printable : Char → Bool) (s : String) : String :=
  String.ofList (['"'] ++ s.toList.flatMap (escapeDebug printable) ++ ['"'])

/-- `White_Space`. -/
def isWhitespace (c : Char) : Bool :=
  let n := c.toNat
  (9 ≤ n && n ≤ 13) || n == 0x20 || n == 0x85 || n == 0xa0 || n == 0x1680 ||
    (0x2000 ≤ n && n ≤ 0x200a) || n == 0x2028 || n == 0x2029 || n == 0x202f || n == 0x205f ||
    n == 0x3000

/-- `str::trim`. -/
def trim (s : String) : String :=
  String.ofList ((s.toList.dropWhile isWhitespace).reverse.dropWhile isWhitespace).reverse

/-- The checks of `session_dir`; the rest of it names a directory. -/
def sessionId (id : String) : Except String String :=
  if id.isEmpty then .error "session ID may not be empty"
  else if id.utf8ByteSize > 1024 then .error "session ID is too long"
  else .ok id

namespace ServerError

def text (printable : Char → Bool) : ServerError → String
  | .invalidOpening error => "invalid opening JSON message: " ++ error
  | .boundedCreation =>
    "bounded creation requires --output-limit; bounded EOF uses an attachment frame"
  | .outputLimitRetrofit => "--output-limit is new-session only; no retrofit"
  | .groupPidfdRetrofit =>
    "--group-pidfd is only for new sessions; existing sessions cannot be retrofitted"
  | .framedAction => "--framed is for data attachments; use the ordinary EOF control"
  | .forcedEof => "force is only supported for data attachments"
  | .eofWithoutOffset => "stdin-eof requires stdin_eof"
  | .forcedCreation => "force requires attach-only offsets and cannot create a session"
  | .eofBeforeStart => "stdin_eof is before stdin_start"
  | .unsupported error => "group pidfd unsupported; workload not started: " ++ error
  | .alreadyExists id => "session " ++ debugStr printable id ++ " already exists"
  | .system error => error
  | .noExecutable => "cannot locate the pipekeep executable"
  | .readinessUnknown =>
    "session broker readiness unknown after dispatch; session retained; " ++
      "workload may have started; query the same session, do not retry creation"
  | .notReady => "session broker did not become ready"
  | .waitFailed error =>
    "session broker wait failed after dispatch: " ++ error ++ "; session retained; " ++
      "workload may have started; query the same session, do not retry creation"
  | .exitedAfterDispatch status =>
    "session broker exited after dispatch (" ++ status ++ "); workload may have started; " ++
      "session retained; do not retry creation"
  | .exitedDuringStartup status => "session broker exited during startup (" ++ status ++ ")"
  | .brokerFailed log => "session broker failed: " ++ trim log
  | .missing => "session does not exist"
  | .cannotConnect => "cannot connect to session broker"
  | .outputUnaware =>
    "finite-output-v1 session requires affirmative output-aware action; no mutation"
  | .notOptedIn => "session did not opt into finite-output-v1; no retrofit or mutation"
  | .unverified =>
    "workload started; finite output control unverified; session retained; " ++
      "do not retry creation"
  | .framedNobuffer => "framed-v1 requires a buffered session"
  | .busy => "session already has an attached client"
  | .aheadOfStream => "requested output offset is ahead of the stream"
  | .superseded => "attachment superseded"
  | .beyondRecordedEof => "stdin start is beyond the recorded EOF"
  | .gap position => s!"buffered stdin contains a gap at byte {position}"
  | .beyondDeclaredEof => "stdin start is beyond the declared EOF"
  | .eofDeclared existing => s!"stdin EOF was already declared at byte {existing}"
  | .eofBehind offset position => s!"stdin EOF at byte {offset} is behind accepted byte {position}"

/-- The foreign text that an error line embeds. -/
def embedded : ServerError → Option String
  | .invalidOpening error | .unsupported error | .system error | .waitFailed error => some error
  | .alreadyExists id => some id
  | .exitedAfterDispatch status | .exitedDuringStartup status => some status
  | .brokerFailed log => some log
  | _ => none

end ServerError

namespace Attempts.State

/-- The error line ends the run. -/
def fail (s : State) (error : String) : State :=
  { s with stage := .failed (some s!"remote pipekeep: {error}") }

/-- What the run loop owes to an error: it retries the busy refusal, a missing session that was
never opened may be created again, and every other error ends the run. -/
def byCause (printable : Char → Bool) (s : State) : ServerError → State
  | .busy => { s with stage := .idle }
  | .missing =>
    if s.create = false ∧ s.established = false then { s with create := true, stage := .idle }
    else s.fail (ServerError.missing.text printable)
  | e => s.fail (e.text printable)

end Attempts.State

end Pipekeep
