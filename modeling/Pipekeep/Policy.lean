import Pipekeep.Broker
import Pipekeep.Cancellation
import Pipekeep.Output

/-!
# The sections of a finite-output session

Every change of the retained fact happens in one section under the metadata lock. Each is a
function here, on the fact the lock protects; `none` is a panic, one of the section's `expect`s or
a decrement below zero.
-/

namespace Pipekeep

namespace OutputFact

/-- Change one stream's fact. -/
def onStream (p : OutputFact) (st : Stream) (f : StreamFact → StreamFact) : OutputFact :=
  { p with streams := p.streams.set st (f (p.streams.get st)) }

/-- `first_stop.get_or_insert`. -/
def latch (p : OutputFact) (reason : StopReason) : OutputFact :=
  { p with firstStop := p.firstStop.or (some reason) }

/-- `fact`: the retained fact, with what the other locks know and what follows from both. -/
def fact (p : OutputFact) (m : Meta) (c : Cancellation) : OutputFact :=
  let complete (s : StreamFact) : StreamFact :=
    { s with prefixComplete := s.prefixComplete &&
        (s.collection == .eof && s.reserved == 0 && p.ioInflight == 0) }
  { p with
    streams := ⟨complete p.streams.stdout, complete p.streams.stderr⟩
    sealed := p.ioInflight == 0 && (p.firstStop.isSome || p.collected)
    leaderExit := m.status
    originalGroupAbsent := c.groupAbsent
    groupControl := c.outputControl }

/-- The section of `storage_fault`. -/
def storageFault (p : OutputFact) (st : Stream) (fault : StorageFault) : OutputFact :=
  (p.onStream st fun s =>
    { s with storageFault := s.storageFault.or (some fault), prefixComplete := false }).latch
    .storageFault

/-- The section of `write_prefix` after a write of `count` bytes; the new end of the stream is its
retained count. -/
def recordWrite (p : OutputFact) (st : Stream) (count : Nat) : Option OutputFact := do
  let s := p.streams.get st
  if count ≤ s.reserved then
    let retained ← checkedAdd s.retained count
    let p := p.onStream st fun s =>
      { s with reserved := s.reserved - count, retained := retained }
    let _ ← p.available
    return p
  else
    none

/-- The section of `write_prefix` that releases what was not written. -/
def settleWrite (p : OutputFact) (st : Stream) (unwritten : Nat) (faulted : Bool) :
    Option OutputFact :=
  let s := p.streams.get st
  if unwritten ≤ s.reserved then
    let p := p.onStream st fun s => { s with reserved := s.reserved - unwritten }
    let p := if unwritten ≠ 0 then
        p.onStream st fun s =>
          { s with discarded := s.discarded + unwritten, prefixComplete := false }
      else p
    some (if faulted then p.latch .storageFault else p)
  else
    none

/-- `io_inflight += 1`. -/
def pin (p : OutputFact) : OutputFact :=
  { p with ioInflight := p.ioInflight + 1 }

/-- `io_inflight -= 1`. -/
def unpin (p : OutputFact) : Option OutputFact :=
  if p.ioInflight = 0 then none else some { p with ioInflight := p.ioInflight - 1 }

/-- `close_collection`. -/
def closeCollection (p : OutputFact) (cause : CollectionCause) : OutputFact :=
  let close (s : StreamFact) : StreamFact :=
    if s.collection = .reading then { s with collection := .unconfirmed cause } else s
  { p with streams := ⟨close p.streams.stdout, close p.streams.stderr⟩ }

/-- `observed`, of the end of a pipe. -/
def observeEof (p : OutputFact) (st : Stream) : OutputFact :=
  p.onStream st fun s => { s with collection := .eof }

/-- `observed`, of bytes read in the tail. -/
def observeTail (p : OutputFact) (st : Stream) (count : Nat) : OutputFact :=
  { p.onStream st fun s =>
      { s with discarded := s.discarded + count, prefixComplete := false } with
    tailRead := p.tailRead + count }

/-- `observed`, of a failed read, up to the call of `stop`. -/
def observeError (p : OutputFact) (st : Stream) : OutputFact :=
  (p.onStream st fun s =>
    { s with collection := .unconfirmed .outputRead, prefixComplete := false }).latch
    .outputReadFault

/-- The pipe of `st` is missing. -/
def missingPipe (p : OutputFact) (st : Stream) : OutputFact :=
  p.onStream st fun s => { s with collection := .unconfirmed .pipeSetup }

/-- How much of a read the section retains: a stop latched since the read was selected leaves
nothing. -/
def retainable (p : OutputFact) (n : Nat) : Option Nat :=
  if p.firstStop.isSome then some 0 else p.available.map (min n)

/-- A read of `n` bytes with its reservation: the rest is discarded, and that is a stop. -/
def reserve (p : OutputFact) (st : Stream) (n retained : Nat) : OutputFact :=
  let p := p.onStream st fun s =>
    { s with
      reserved := s.reserved + retained
      discarded := s.discarded + (n - retained)
      prefixComplete := s.prefixComplete && n == retained }
  let p := if n ≠ retained then p.latch .outputLimit else p
  if retained ≠ 0 then p.pin else p

/-- The admission of a normal read of `n` bytes, with how many of them are retained. -/
def admitRead (p : OutputFact) (st : Stream) (n : Nat) : Option (OutputFact × Nat) := do
  let retained ← p.retainable n
  let p := p.reserve st n retained
  let _ ← p.available
  return (p, retained)

end OutputFact

end Pipekeep
