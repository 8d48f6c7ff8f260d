import Pipekeep.Frame
import Pipekeep.Lib.BigEndian

/-!
# The frame codec

A frame is a kind, the length of its payload in four bytes and the payload. The writer and the
reader check sizes and positions separately, with constants of their own. What serde makes of an
exit and of a fact is a parameter, `Serde`.

A reader's input is the bytes up to the end of its transport: what is read comes off the front, and
no bytes at all are a clean end.
-/

namespace Pipekeep

open BigEndian

/-- `MAX_FRAME`. -/
def maxFrame : Nat := 16 * 1024 * 1024

/-- `serde_json`'s `to_vec` and `from_slice`, of an exit and of a fact. -/
structure Serde where
  exitToVec : ExitResult → List UInt8
  exitFromSlice : List UInt8 → Except String ExitResult
  factToVec : OutputFact → List UInt8
  factFromSlice : List UInt8 → Except String OutputFact

inductive Direction
  | input
  | output
  | boundedOutput
  deriving DecidableEq, Repr

namespace Direction

/-- The kinds of a direction. -/
def allows : Direction → Nat → Bool
  | .input, kind => kind == 1 || kind == 2
  | .output, kind => 3 ≤ kind && kind ≤ 6
  | .boundedOutput, kind => (3 ≤ kind && kind ≤ 5) || kind == 7 || kind == 8

end Direction

/-! ## Writing -/

/-- `offset_payload`. -/
def offsetPayload (offset : Nat) (data : List UInt8) : Except String (List UInt8) :=
  if data.length > maxFrame - 8 then .error "frame is too large"
  else (checkedEnd offset data.length).map fun _ => toBytes 8 offset ++ data

namespace Frame

def kind : Frame → Nat
  | .stdinData _ _ => 1
  | .stdinEof _ => 2
  | .stdoutData _ _ => 3
  | .stderrData _ _ => 4
  | .stdinPosition _ => 5
  | .exit _ => 6
  | .outputState _ => 7
  | .outputEnd _ => 8

end Frame

variable (S : Serde)

def framePayload : Frame → Except String (List UInt8)
  | .stdinData offset data => offsetPayload offset data
  | .stdinEof offset => .ok (toBytes 8 offset)
  | .stdoutData offset data => offsetPayload offset data
  | .stderrData offset data => offsetPayload offset data
  | .stdinPosition offset => .ok (toBytes 8 offset)
  | .exit status => .ok (S.exitToVec status)
  | .outputState fact => .ok (S.factToVec fact)
  | .outputEnd fact => .ok (S.factToVec fact)

/-- The bytes of `write_frame`. -/
def writeFrame (f : Frame) : Except String (List UInt8) := do
  let payload ← framePayload S f
  if payload.length > maxFrame then .error "frame is too large"
  else return UInt8.ofNat f.kind :: (toBytes 4 payload.length ++ payload)

/-- One frame after the other. -/
def writeFrames : List Frame → Except String (List UInt8)
  | [] => .ok []
  | f :: fs => do
    let bytes ← writeFrame S f
    let rest ← writeFrames fs
    return bytes ++ rest

/-! ## Reading -/

def validateHeader (kind length : Nat) (d : Direction) : Except String Unit :=
  if d.allows kind = false then .error "frame has invalid direction or type"
  else
    let valid :=
      match kind with
      | 1 | 3 | 4 => 8 ≤ length && length ≤ maxFrame
      | 2 | 5 => length == 8
      | 6 => 1 ≤ length && length ≤ 256
      | 7 | 8 => 1 ≤ length && length ≤ 4096
      | _ => false
    if valid then .ok () else .error "frame has invalid length or exceeds the size limit"

/-- `only_offset`. -/
def onlyOffset (payload : List UInt8) : Except String Nat :=
  if payload.length ≠ 8 then .error "offset frame has an invalid length" else .ok (ofBytes payload)

/-- `split_offset`. -/
def splitOffset (payload : List UInt8) : Except String (Nat × List UInt8) :=
  if payload.length < 8 then .error "data frame has an invalid length"
  else
    let offset := ofBytes (payload.take 8)
    (checkedEnd offset (payload.length - 8)).map fun _ => (offset, payload.drop 8)

/-- The frame of a payload. -/
def parseFrame (kind : Nat) (payload : List UInt8) : Except String Frame :=
  match kind with
  | 1 => (splitOffset payload).map fun p => .stdinData p.1 p.2
  | 2 => (onlyOffset payload).map .stdinEof
  | 3 => (splitOffset payload).map fun p => .stdoutData p.1 p.2
  | 4 => (splitOffset payload).map fun p => .stderrData p.1 p.2
  | 5 => (onlyOffset payload).map .stdinPosition
  | 6 => do
    let status ← (S.exitFromSlice payload).mapError fun _ => "invalid exit frame payload"
    status.validate
    return .exit status
  | 7 => do
    let fact ← S.factFromSlice payload
    fact.validate false
    return .outputState fact
  | 8 => do
    let fact ← S.factFromSlice payload
    fact.validate true
    return .outputEnd fact
  | other => .error s!"unknown frame type {other}"

/-- `read_exact`: so many bytes, or the end is early. -/
def readExact (count : Nat) (input : List UInt8) : Except String (List UInt8 × List UInt8) :=
  if count ≤ input.length then .ok (input.take count, input.drop count) else .error "early eof"

/-- `read_frame`, with what is left of the input. -/
def readFrame (d : Direction) : List UInt8 → Except String (Option (Frame × List UInt8))
  | [] => .ok none
  | kind :: input => do
    let (length, input) ← readExact 4 input
    validateHeader kind.toNat (ofBytes length) d
    let (payload, input) ← readExact (ofBytes length) input
    let frame ← parseFrame S kind.toNat payload
    return some (frame, input)

end Pipekeep
