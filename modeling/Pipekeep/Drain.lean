import Pipekeep.Broker

/-!
# An unlimited session: the drains and the wait

What both kinds of sender read: the metadata, the spool files, the leases, and what `drain_output`
and the leader's wait do to them. A drain runs on its own, so where it stands between two of its
steps is part of the state (`Drain`), one constructor for each `await` or lock of the source.

`produced` logs the bytes a drain has read from the command's pipe. Everything a client can be
sent of a stream is measured against it.
-/

namespace Pipekeep

structure OutputChunk where
  offset : Nat
  data : List UInt8
  deriving DecidableEq, Repr

/-- The position after a chunk. -/
def OutputChunk.stop (c : OutputChunk) : Nat := c.offset + c.data.length

/-- Where `drain_output` stands. `writing` has `rest` still to write and `stop` to publish. -/
inductive Drain
  | reading
  | read (data : List UInt8)
  | writing (data rest : List UInt8) (stop : Nat)
  | publishing (data : List UInt8) (stop : Nat)
  | sending (chunk : OutputChunk)
  | done
  deriving DecidableEq, Repr

structure Session where
  metadata : Meta := {}
  attachment : AttachmentState := {}
  drains : PerStream Drain := .both .reading
  files : PerStream (List UInt8) := .both []
  produced : PerStream (List UInt8) := .both []
  waited : Bool := false
  deriving DecidableEq, Repr

namespace Session

def setDrain (s : Session) (st : Stream) (d : Drain) : Session :=
  { s with drains := s.drains.set st d }

def fail (s : Session) (failure : String) : Session :=
  { s with metadata := { s.metadata with failure := some failure } }

inductive DrainAct
  /-- The pipe answers a read with bytes, with its end, or with an error. -/
  | read (data : List UInt8)
  | eof
  | readError (error : String)
  /-- The section that computes the end of what was read. -/
  | count
  /-- The spool file takes some of the bytes, or all of them are flushed, or it fails. -/
  | write (count : Nat)
  | flush
  | writeError
  /-- The section that moves the recorded end. -/
  | publish
  /-- The chunk goes to the live channel. -/
  | send
  deriving DecidableEq, Repr

/-- `Ok(0)`, and a failed read of a session without the opted-in control. -/
def close (s : Session) (st : Stream) : Session :=
  { s with
    metadata := { s.metadata with closed := s.metadata.closed.set st true }
    drains := s.drains.set st .done }

/-- One step of `drain_output`, with the chunk it sends, if it does. -/
def drainStep (nobuffer hardened : Bool) (s : Session) (st : Stream) (act : DrainAct) :
    Option (Session × Option OutputChunk) :=
  match s.drains.get st, act with
  | .reading, .read data =>
    if 0 < data.length ∧ data.length ≤ chunkSize then
      let produced := s.produced.set st (s.produced.get st ++ data)
      some ({ s with drains := s.drains.set st (.read data), produced := produced }, none)
    else
      none
  | .reading, .eof => some (s.close st, none)
  | .reading, .readError error =>
    if hardened then
      let failure := s!"output read failed; terminal output unverified: {error}"
      some ((s.fail failure).setDrain st .done, none)
    else
      some (s.close st, none)
  | .read data, .count =>
    match checkedEnd (s.metadata.ends.get st) data.length with
    | .error e => some ((s.fail e).setDrain st .done, none)
    | .ok stop =>
      if nobuffer then some (s.setDrain st (.publishing data stop), none)
      else some (s.setDrain st (.writing data data stop), none)
  | .writing data rest stop, .write count =>
    if 0 < count ∧ count ≤ rest.length then
      let files := s.files.set st (s.files.get st ++ rest.take count)
      some ({ s with
        drains := s.drains.set st (.writing data (rest.drop count) stop), files := files }, none)
    else
      none
  | .writing data [] stop, .flush => some (s.setDrain st (.publishing data stop), none)
  | .writing _ _ _, .writeError => some (s.setDrain st .done, none)
  | .publishing data stop, .publish =>
    let chunk : OutputChunk := ⟨s.metadata.ends.get st, data⟩
    some ({ s with
      metadata := { s.metadata with ends := s.metadata.ends.set st stop }
      drains := s.drains.set st (if nobuffer then .sending chunk else .reading) }, none)
  | .sending chunk, .send => some (s.setDrain st .reading, some chunk)
  | _, _ => none

inductive Act
  | install (force : Bool)
  | clear (generation : Nat)
  | drain (st : Stream) (act : DrainAct)
  /-- The leader's wait completes, with its status or with an error. -/
  | wait (result : Except String ExitResult)

/-- The wait task of `run`. Without the opted-in control, a failed wait reports exit 1. -/
def wait (hardened : Bool) (s : Session) (result : Except String ExitResult) : Session :=
  match result with
  | .ok status =>
    { s with metadata := { s.metadata with status := some status }, waited := true }
  | .error error =>
    if hardened then
      { s.fail s!"command wait failed; actual exit and group settlement unverified: {error}" with
        waited := true }
    else
      { s with
        metadata := { s.metadata with status := some ⟨some 1, none⟩ }, waited := true }

/-- One step, with the live chunk it sends on a stream. -/
def step (nobuffer hardened : Bool) (s : Session) :
    Act → Option (Session × Option (Stream × OutputChunk))
  | .install force =>
    match s.attachment.install force with
    | .ok (_, a) => some ({ s with attachment := a }, none)
    | .error () => some (s, none)
  | .clear generation =>
    some ({ s with attachment := s.attachment.compareClear generation }, none)
  | .drain st act => (s.drainStep nobuffer hardened st act).map fun p => (p.1, p.2.map (st, ·))
  | .wait result => if s.waited then none else some (s.wait hardened result, none)

/-- A session at its start. Pipe setup may have failed, so a drain may never have been spawned. -/
def Initial (s : Session) : Prop :=
  ∃ drains failure, (∀ st, drains.get st = .reading ∨ drains.get st = .done) ∧
    s = { metadata := { failure := failure }, drains := drains }

end Session

end Pipekeep
