import Pipekeep.Protocol
import Pipekeep.Stream

/-!
# The fact a finite-output session retains

`OutputFact` is what the broker accounts for when output is bounded, what it puts on the wire and
what the frontend checks. An `expect` that fails is `none`, a check that bails is an error with the
source's text.
-/

namespace Pipekeep

/-- `READ_SIZE`. -/
def readSize : Nat := 4096

/-- `TAIL_BYTES`. -/
def tailBytes : Nat := 256 * 1024

/-- `TAIL_MILLIS`. -/
def tailMillis : Nat := 200

inductive StopReason
  | outputLimit
  | storageFault
  | outputReadFault
  | pipeSetupFault
  deriving DecidableEq, Repr

inductive StorageFault
  | write
  | partialWrite
  | flush
  | replayOpen
  | replayRead
  | workerLost
  deriving DecidableEq, Repr

inductive CollectionCause
  | tailBytes
  | tailTime
  | operationDeadline
  | groupUnconfirmed
  | storagePending
  | outputRead
  | pipeSetup
  deriving DecidableEq, Repr

inductive Collection
  | reading
  | eof
  | unconfirmed (cause : CollectionCause)
  deriving DecidableEq, Repr

structure StreamFact where
  retained : Nat := 0
  reserved : Nat := 0
  discarded : Nat := 0
  storageFault : Option StorageFault := none
  collection : Collection := .reading
  prefixComplete : Bool := true
  deriving DecidableEq, Repr

inductive ControlFault
  | unavailable
  | wait
  | signal
  | deadline
  deriving DecidableEq, Repr

inductive GroupControl
  | ready
  | running
  | settled
  | unconfirmed (cause : ControlFault)
  deriving DecidableEq, Repr

/-- `streams` is `stdout` and `stderr`. -/
structure OutputFact where
  limit : Nat
  firstStop : Option StopReason := none
  streams : PerStream StreamFact := .both {}
  ioInflight : Nat := 0
  sealed : Bool := false
  tailRead : Nat := 0
  leaderExit : Option ExitResult := none
  originalGroupAbsent : Bool := false
  groupControl : GroupControl := .ready
  deriving DecidableEq, Repr

namespace OutputFact

/-- `OutputFact::new`. -/
def new (limit : Nat) : OutputFact := { limit }

/-- `checked_add`. -/
def checkedAdd (a b : Nat) : Option Nat :=
  if a + b ≤ u64Max then some (a + b) else none

/-- The bytes the limit pays for: retained and reserved, each sum checked. -/
def charged (p : OutputFact) : Option Nat := do
  let v ← checkedAdd p.streams.stdout.retained p.streams.stderr.retained
  let v ← checkedAdd v p.streams.stdout.reserved
  checkedAdd v p.streams.stderr.reserved

def available (p : OutputFact) : Option Nat := do
  let charged ← p.charged
  if charged ≤ p.limit then some (p.limit - charged) else none

def collected (p : OutputFact) : Bool :=
  p.streams.stdout.collection != .reading && p.streams.stderr.collection != .reading

def complete (p : OutputFact) : Bool :=
  p.firstStop.isNone && p.ioInflight == 0 && p.streams.stdout.prefixComplete &&
    p.streams.stderr.prefixComplete && p.streams.stdout.collection == .eof &&
    p.streams.stderr.collection == .eof

/-- A stream may only be called complete when nothing about it is open. -/
def validateStream (p : OutputFact) (s : StreamFact) : Except String Unit :=
  if s.prefixComplete && (s.collection != .eof || s.reserved != 0 || p.ioInflight != 0 ||
      s.discarded != 0 || s.storageFault.isSome) then
    .error "invalid output completeness fact"
  else
    .ok ()

def validate (p : OutputFact) (terminal : Bool) : Except String Unit := do
  let charged ← p.charged.elim (.error "invalid bounded accounting") .ok
  if p.limit > i64Max || charged > p.limit || p.tailRead > tailBytes || p.ioInflight > 3 then
    .error "invalid finite output fact"
  else
    p.leaderExit.elim (.ok ()) ExitResult.validate
    p.validateStream p.streams.stdout
    p.validateStream p.streams.stderr
    if terminal && (!p.collected || !p.sealed || p.ioInflight != 0 ||
        p.streams.stdout.reserved != 0 || p.streams.stderr.reserved != 0) then
      .error "unconfirmed storage or collection cannot be a replay end"
    else
      .ok ()

def processCode (p : OutputFact) : Int :=
  let code := p.leaderExit.elim 1 ExitResult.processCode
  if code = 0 ∧ p.complete = false then 1 else code

end OutputFact

end Pipekeep
