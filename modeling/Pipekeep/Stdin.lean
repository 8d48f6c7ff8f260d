import Mathlib.Logic.Function.Basic
import Pipekeep.Broker
import Pipekeep.Lib.Machine
import Pipekeep.Lib.Slice

/-!
# Standard input: who may write it, and what the child has received

Every operation on the child's stdin takes the `child_stdin` lock, then — when a client's
attachment asks for it — the attachment lock, then the metadata lock. The last two are
synchronous, so a step of this machine is one section under them; the first is held across
sections, so who holds it and where the holder stands is part of the state (`Holder`).

The step names are the source's operations:

* `install` and `clear` are `install_attachment` and `compare_clear_attachment`;
* `hello` is the opening snapshot of `attach`, with the receipt channel made from it;
* `acquire` takes the `child_stdin` lock for one operation (`Op`) and `release` drops the guard:
  the operation returned, or its attachment was dropped between two polls;
* `critical` is the holder's next section; for a data frame that is one poll, and `Poll` is
  what the pipe answered;
* `takeReceipt` is the sender's one coalesced receipt of a turn;
* `waited` records that the leader's wait has completed, after which `reap` drops the pipe.

`received` is not a field of the source: it logs the bytes the pipe accepted, each with the
absolute position the poll computed for it.
-/

namespace Pipekeep.Stdin

/-! ## Under the metadata lock -/

/-- Code that has the metadata lock. What it has changed stays also if it fails. -/
abbrev Locked (α : Type) := ExceptT String (StateM Meta) α

/-- What it comes to, and what it leaves. -/
def Locked.on {α : Type} (x : Locked α) (m : Meta) : Except String α × Meta := (x.run.run m).run

namespace Locked

variable {α β : Type} (m : Meta)

@[simp] theorem on_pure (a : α) : (pure a : Locked α).on m = (.ok a, m) := rfl

@[simp] theorem on_get : (get : Locked Meta).on m = (.ok m, m) := rfl

@[simp] theorem on_modify (f : Meta → Meta) : (modify f : Locked Unit).on m = (.ok (), f m) := rfl

/-- A check does not touch the metadata. -/
@[simp] theorem on_check (check : Except String α) :
    (liftM check : Locked α).on m = (check, m) := by
  cases check <;> rfl

/-- A failure ends it, and leaves the metadata as it is there. -/
@[simp] theorem on_bind (x : Locked α) (f : α → Locked β) :
    (x >>= f).on m =
      match x.on m with
      | (.ok a, m') => (f a).on m'
      | (.error e, m') => (.error e, m') := by
  unfold Locked.on
  simp only [ExceptT.run_bind, StateT.run_bind]
  generalize x.run.run m = result
  obtain ⟨e | a, m'⟩ := result <;> rfl

end Locked

/-- The position an opening moves to: past the accepted one only over a gap that is allowed. -/
def openingPosition (nobuffer : Bool) (m : Meta) (stdinStart : Nat) : Except String Nat :=
  if stdinStart > m.stdinPosition then
    if m.stdinEof then
      .error "stdin start is beyond the recorded EOF"
    else if !nobuffer then
      .error s!"buffered stdin contains a gap at byte {m.stdinPosition}"
    else if m.stdinEofAt.any fun eof => decide (stdinStart > eof) then
      .error "stdin start is beyond the declared EOF"
    else
      .ok stdinStart
  else
    .ok m.stdinPosition

/-- A declaration must repeat one that stands. -/
def checkDeclared (m : Meta) (requested : Nat) : Except String Unit :=
  match m.stdinEofAt with
  | some existing =>
    if existing ≠ requested then .error s!"stdin EOF was already declared at byte {existing}"
    else .ok ()
  | none => .ok ()

/-- A declaration may not lie behind the accepted position. -/
def checkBehind (offset position : Nat) : Except String Unit :=
  if offset < position then
    .error s!"stdin EOF at byte {offset} is behind accepted byte {position}"
  else
    .ok ()

/-- The metadata section of `apply_opening_stdin`, with its `should_close`. -/
def applyOpeningLocked (nobuffer : Bool) (stdinStart : Nat) (stdinEof : Option Nat) :
    Locked Bool := do
  let m ← get
  let newPosition ← openingPosition nobuffer m stdinStart
  stdinEof.forM fun requested => checkDeclared m requested
  let effectiveEof := stdinEof.or m.stdinEofAt
  effectiveEof.forM fun offset => checkBehind offset newPosition
  modify fun m => { m with stdinPosition := newPosition }
  modify fun m => if m.stdinEofAt.isNone then { m with stdinEofAt := stdinEof } else m
  let shouldClose := effectiveEof == some newPosition
  modify fun m => if shouldClose then { m with stdinEof := true } else m
  return shouldClose

/-- `declare_stdin_eof_locked`. -/
def declareStdinEofLocked (offset : Nat) : Locked Bool := do
  let m ← get
  checkBehind offset m.stdinPosition
  match m.stdinEofAt with
  | some _ => checkDeclared m offset
  | none => modify fun m => { m with stdinEofAt := some offset }
  let reached := offset == m.stdinPosition
  modify fun m => if reached then { m with stdinEof := true } else m
  return reached

/-- `stdin_frame_start_locked`: where in the frame the unaccepted bytes start, and the absolute
position of the first of them. -/
def stdinFrameStartLocked (m : Meta) (offset dataLen : Nat) (nobuffer : Bool) :
    Except String (Nat × Nat) :=
  if offset + dataLen > u64Max then
    .error "frame position overflowed"
  else if m.stdinEof then
    .error "stdin data arrived after EOF"
  else if offset > m.stdinPosition && !nobuffer then
    .error s!"stdin contains a gap at offset {m.stdinPosition}"
  else
    let start := min (m.stdinPosition - offset) dataLen
    let logicalPosition := max m.stdinPosition offset
    let frameEnd := logicalPosition + (dataLen - start)
    if frameEnd > u64Max then
      .error "stdin frame position overflowed"
    else if m.stdinEofAt.any fun eof => decide (frameEnd > eof) then
      .error "stdin data extends beyond its declared EOF"
    else
      .ok (start, logicalPosition)

/-! ## The state -/

/-- An operation that needs the `child_stdin` lock. -/
inductive Op
  | opening (generation stdinStart : Nat) (stdinEof : Option Nat)
  | data (generation offset : Nat) (bytes : List UInt8)
  | eof (generation offset : Nat)
  | control (offset : Nat)
  | reap
  deriving DecidableEq, Repr

/-- The attachment an operation acts for; the control declaration and the wait act for none. -/
def Op.generation : Op → Option Nat
  | .opening generation _ _ => some generation
  | .data generation _ _ => some generation
  | .eof generation _ => some generation
  | .control _ => none
  | .reap => none

/-- Where an operation stands between two of its sections. `publish` carries the receipt to
publish and whether the frame polls again after it. -/
inductive Stage
  | start
  | close
  | publish (position : Nat) (again : Bool)
  | done
  | superseded
  | failed (error : String)
  deriving DecidableEq, Repr

structure Holder where
  op : Op
  stage : Stage
  deriving DecidableEq, Repr

/-- A receipt channel of one attachment: the position announced in its opening, the latest
published one, whether it is unseen, and the receipts written so far. -/
structure Receipts where
  opening : Nat
  latest : Nat
  changed : Bool := false
  sent : List Nat := []
  deriving DecidableEq, Repr

/-- `watch::channel` of the opening's position. -/
def Receipts.ofOpening (position : Nat) : Receipts :=
  { opening := position, latest := position }

/-- `send_if_modified`: the channel never goes back. -/
def Receipts.publish (r : Receipts) (position : Nat) : Receipts :=
  if position < r.latest then r else { r with latest := position, changed := true }

/-- The sender's coalesced receipt: the latest position, if it has not been seen. -/
def Receipts.take (r : Receipts) : Receipts :=
  if r.changed then { r with changed := false, sent := r.sent ++ [r.latest] } else r

@[simp] theorem Receipts.take_opening (r : Receipts) : r.take.opening = r.opening := by
  unfold Receipts.take
  split <;> rfl

@[simp] theorem Receipts.take_latest (r : Receipts) : r.take.latest = r.latest := by
  unfold Receipts.take
  split <;> rfl

@[simp] theorem Receipts.publish_opening (r : Receipts) (position : Nat) :
    (r.publish position).opening = r.opening := by
  unfold Receipts.publish
  split <;> rfl

/-- A publication keeps the higher of the two positions. -/
@[simp] theorem Receipts.publish_latest (r : Receipts) (position : Nat) :
    (r.publish position).latest = max r.latest position := by
  unfold Receipts.publish
  split
  · exact (Nat.max_eq_left (Nat.le_of_lt ‹_›)).symm
  · exact (Nat.max_eq_right (Nat.le_of_not_lt ‹_›)).symm

structure State where
  metadata : Meta := {}
  attachment : AttachmentState := {}
  childStdin : Bool
  received : List (Nat × UInt8) := []
  lock : Option Holder := none
  receipts : Nat → Option Receipts := fun _ => none
  waited : Bool := false

/-- Make the receipt channel of an opening that announces the current position. -/
def State.openReceipts (s : State) (generation : Nat) : State :=
  let channel := Receipts.ofOpening s.metadata.stdinPosition
  { s with receipts := Function.update s.receipts generation (some channel) }

/-- Change one attachment's channel, if it has one. -/
def State.mapReceipts (s : State) (generation : Nat) (f : Receipts → Receipts) : State :=
  { s with receipts := Function.update s.receipts generation ((s.receipts generation).map f) }

/-- What the child's pipe answers a poll. -/
inductive Poll
  | pending
  | error
  | wrote (count : Nat)
  deriving DecidableEq, Repr

/-! ## The sections, on the state -/

/-- `apply_opening_stdin` under its three locks. -/
def openingSection (nobuffer : Bool) (s : State) (generation stdinStart : Nat)
    (stdinEof : Option Nat) : State × Stage :=
  if s.attachment.isCurrent generation then
    let locked := (applyOpeningLocked nobuffer stdinStart stdinEof).on s.metadata
    let s := { s with metadata := locked.2 }
    match locked.1 with
    | .error e => (s, .failed e)
    | .ok shouldClose => (s, if shouldClose then .close else .done)
  else
    (s, .superseded)

/-- `accept_stdin` for a frame without data: one section, then its receipt. -/
def emptySection (nobuffer : Bool) (s : State) (generation offset : Nat) : State × Stage :=
  if s.attachment.isCurrent generation then
    match stdinFrameStartLocked s.metadata offset 0 nobuffer with
    | .error e => (s, .failed e)
    | .ok _ =>
      let position :=
        if offset > s.metadata.stdinPosition && nobuffer then offset else s.metadata.stdinPosition
      let shouldClose := s.metadata.stdinEofAt == some position
      ({ s with
        metadata := { s.metadata with
          stdinPosition := position, stdinEof := s.metadata.stdinEof || shouldClose }
        childStdin := s.childStdin && !shouldClose }, .publish position false)
  else
    (s, .superseded)

/-- One poll of `accept_stdin` for a frame with data. The pipe accepts a prefix of what it is
offered, so an answer past the end of the frame is not a step. -/
def pollSection (nobuffer : Bool) (s : State) (generation offset : Nat) (bytes : List UInt8)
    (poll : Poll) : Option (State × Stage) :=
  if s.attachment.isCurrent generation then
    match stdinFrameStartLocked s.metadata offset bytes.length nobuffer with
    | .error e => some (s, .failed e)
    | .ok (start, logicalPosition) =>
      if start ≥ bytes.length then
        some (s, .publish s.metadata.stdinPosition false)
      else if !s.childStdin then
        some (s, .done)
      else
        match poll with
        | .pending => some (s, .start)
        | .error => some (s, .failed "command stdin write failed")
        | .wrote 0 => some (s, .failed "command stdin closed")
        | .wrote count =>
          if count ≤ bytes.length - start then
            let position := logicalPosition + count
            let reachedEof := s.metadata.stdinEofAt == some position
            some ({ s with
              metadata := { s.metadata with
                stdinPosition := position, stdinEof := s.metadata.stdinEof || reachedEof }
              childStdin := !reachedEof
              received := s.received ++ Slice.tag logicalPosition ((bytes.drop start).take count) },
              .publish position (!reachedEof))
          else
            none
  else
    some (s, .superseded)

/-- `accept_stdin_eof` under its three locks. -/
def eofSection (s : State) (generation offset : Nat) : State × Stage :=
  if s.attachment.isCurrent generation then
    let locked := (declareStdinEofLocked offset).on s.metadata
    let s := { s with metadata := locked.2 }
    match locked.1 with
    | .error e => (s, .failed e)
    | .ok shouldClose =>
      ({ s with childStdin := s.childStdin && !shouldClose },
        .publish s.metadata.stdinPosition false)
  else
    (s, .superseded)

/-- `declare_stdin_eof`, the generation-free control: its metadata section. -/
def controlSection (s : State) (offset : Nat) : State × Stage :=
  let locked := (declareStdinEofLocked offset).on s.metadata
  let s := { s with metadata := locked.2 }
  match locked.1 with
  | .error e => (s, .failed e)
  | .ok shouldClose => (s, if shouldClose then .close else .done)

/-- `publish_receipt`: the channel keeps the highest position, and only while its attachment has
authority. -/
def publishReceipt (s : State) (generation position : Nat) : State :=
  if s.attachment.isCurrent generation then s.mapReceipts generation (·.publish position) else s

/-- The holder's next section. -/
def criticalSection (nobuffer : Bool) (s : State) (op : Op) (poll : Poll) :
    Stage → Option (State × Stage)
  | .start =>
    match op with
    | .opening generation stdinStart stdinEof =>
      some (openingSection nobuffer s generation stdinStart stdinEof)
    | .data generation offset [] => some (emptySection nobuffer s generation offset)
    | .data generation offset (b :: bs) => pollSection nobuffer s generation offset (b :: bs) poll
    | .eof generation offset => some (eofSection s generation offset)
    | .control offset => some (controlSection s offset)
    | .reap => some ({ s with childStdin := false }, .done)
  | .close => some ({ s with childStdin := false }, .done)
  | .publish position again =>
    match op.generation with
    | some generation =>
      some (publishReceipt s generation position, if again then .start else .done)
    | none => none
  | .done | .superseded | .failed _ => none

/-! ## The machine -/

inductive Act
  | install (force : Bool)
  | clear (generation : Nat)
  | hello (generation : Nat)
  | takeReceipt (generation : Nat)
  | acquire (op : Op)
  | critical (poll : Poll)
  | release
  | waited
  deriving DecidableEq, Repr

/-- An opening that is about to drop the pipe still holds the attachment lock. -/
def State.attachmentHeld (s : State) : Bool :=
  s.lock.any fun h => h.op.generation.isSome && h.stage == .close

/-- An operation starts for an attachment that was installed, and the wait's only after it. -/
def State.mayAcquire (s : State) (op : Op) : Bool :=
  match op with
  | .reap => s.waited
  | _ => op.generation.all fun g => decide (g < s.attachment.nextGeneration)

def step (nobuffer : Bool) (s : State) : Act → Option State
  | .install force =>
    if s.attachmentHeld then none
    else
      match s.attachment.install force with
      | .ok (_, a) => some { s with attachment := a }
      | .error () => some s
  | .clear generation =>
    if s.attachmentHeld then none
    else some { s with attachment := s.attachment.compareClear generation }
  | .hello generation =>
    if generation < s.attachment.nextGeneration ∧ s.receipts generation = none then
      some (s.openReceipts generation)
    else
      none
  | .takeReceipt generation =>
    if s.attachment.isCurrent generation then some (s.mapReceipts generation Receipts.take)
    else some s
  | .acquire op =>
    if s.lock = none ∧ s.mayAcquire op = true then
      some { s with lock := some ⟨op, .start⟩ }
    else
      none
  | .critical poll =>
    match s.lock with
    | some h =>
      match criticalSection nobuffer s h.op poll h.stage with
      | some (t, stage) => some { t with lock := some ⟨h.op, stage⟩ }
      | none => none
    | none => none
  | .release =>
    match s.lock with
    | some h => if h.stage = .close then none else some { s with lock := none }
    | none => none
  | .waited => if s.waited then none else some { s with waited := true }

/-- The stdin side of a broker. Pipe setup may have failed, so the child's stdin may be absent
from the start. -/
def machine (nobuffer : Bool) : Machine State Act where
  init s := ∃ childStdin, s = { childStdin }
  step := step nobuffer

end Pipekeep.Stdin
