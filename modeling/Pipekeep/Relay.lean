import Pipekeep.Codec

/-!
# The frontend's relay

The output loop of `relay_streams`: from the broker's transport to the client's standard output and
standard error, framed or raw. The client's streams take what is written to them.
-/

namespace Pipekeep

/-- What the attachment's opening fixes. -/
structure RelayMode where
  framed : Bool
  outputBounded : Bool
  outputLimit : Option Nat
  deriving DecidableEq, Repr

/-- The positions the relay keeps. -/
structure RelayPositions where
  stdin : Nat
  output : PerStream Nat
  deriving DecidableEq, Repr

/-- The relay, with what it has written to the client. -/
structure Relay where
  positions : RelayPositions
  written : PerStream (List UInt8) := .both []
  deriving DecidableEq, Repr

/-! ## Framed -/

namespace RelayPositions

def contiguous (p : RelayPositions) (st : Stream) (offset : Nat) (data : List UInt8) :
    Except String RelayPositions :=
  if offset ≠ p.output.get st then .error "broker output is not contiguous"
  else
    (checkedEnd offset data.length).map fun position =>
      { p with output := p.output.set st position }

def samePolicy (m : RelayMode) (fact : OutputFact) : Except String Unit :=
  if some fact.limit ≠ m.outputLimit then .error "broker changed the finite output policy"
  else .ok ()

/-- The check of a frame in framed mode. -/
def check (m : RelayMode) (p : RelayPositions) : Frame → Except String RelayPositions
  | .stdoutData offset data => p.contiguous .stdout offset data
  | .stderrData offset data => p.contiguous .stderr offset data
  | .stdinPosition offset =>
    if offset < p.stdin then .error "broker stdin receipt regressed"
    else .ok { p with stdin := offset }
  | .outputState fact => (samePolicy m fact).map fun _ => p
  | .outputEnd fact => do
    samePolicy m fact
    if fact.streams.stdout.retained ≠ p.output.stdout ∨
        fact.streams.stderr.retained ≠ p.output.stderr then
      .error "broker replay end does not match delivered output"
    else
      return p
  | _ => .ok p

end RelayPositions

/-- The code that a forwarded frame ends the relay with. -/
def Frame.returns : Frame → Option Int
  | .outputEnd fact => some fact.processCode
  | .exit status => some status.processCode
  | _ => none

namespace Relay

/-! ## Raw -/

/-- `write_raw_output`: what the client has is trimmed, and nothing is written past a gap. -/
def writeRaw (r : Relay) (st : Stream) (offset : Nat) (data : List UInt8) :
    Relay × Except String (Option Int) :=
  let position := r.positions.output.get st
  let skip := position - offset
  if offset > position then (r, .error s!"broker output contains a gap at byte {position}")
  else if skip ≥ data.length then (r, .ok none)
  else
    let r := { r with written := r.written.set st (r.written.get st ++ data.drop skip) }
    match checkedEnd position (data.length - skip) with
    | .error e => (r, .error e)
    | .ok position =>
      ({ r with positions := { r.positions with output := r.positions.output.set st position } },
        .ok none)

/-! ## The loop -/

variable (S : Serde) (m : RelayMode)

/-- One frame: an error, a return or neither. -/
def frame (r : Relay) (f : Frame) : Relay × Except String (Option Int) :=
  if m.framed then
    match r.positions.check m f with
    | .error e => (r, .error e)
    | .ok positions =>
      let r := { r with positions := positions }
      match writeFrame S f with
      | .error e => (r, .error e)
      | .ok bytes =>
        ({ r with written := { r.written with stdout := r.written.stdout ++ bytes } },
          .ok f.returns)
  else
    match f with
    | .stdoutData offset data => r.writeRaw .stdout offset data
    | .stderrData offset data => r.writeRaw .stderr offset data
    | .stdinPosition _ => (r, .ok none)
    | .exit status => (r, .ok (some status.processCode))
    | _ => (r, .error "broker sent a client-to-server frame")

/-- The loop over what the broker sends up to the end of its transport, in at most so many rounds:
an error is a bail, a code a return. -/
def run : Nat → Relay → List UInt8 → Option (Relay × Except String Int)
  | 0, _, _ => none
  | rounds + 1, r, input =>
    match readFrame S (if m.outputBounded then .boundedOutput else .output) input with
    | .error e => some (r, .error e)
    | .ok none => some (r, .ok (if m.framed then 1 else 0))
    | .ok (some (f, rest)) =>
      match r.frame S m f with
      | (r, .error e) => some (r, .error e)
      | (r, .ok (some code)) => some (r, .ok code)
      | (r, .ok none) => run rounds r rest

end Relay

end Pipekeep
