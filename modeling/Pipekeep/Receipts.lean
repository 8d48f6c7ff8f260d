import Pipekeep.Bounds
import Pipekeep.Live

/-!
# Receipts: the input side and the output side of one broker

A receipt crosses three tasks. The section of `accept_stdin` moves the accepted position under the
metadata lock; `publish_receipt` puts it into the attachment's channel later, under the attachment
lock; and the sender takes the channel's latest value at a turn of its own and writes it as a
`StdinPosition` frame. The machines of the input side (`Stdin`) and of the output side (`Buffered`,
`Live` or `Bounds`) run here as one: each of their steps is a step, and the sections that both
describe are taken together (`Side.joins`). These are the lease changes, the end of the leader's
wait, the opening snapshot with its new channel, and the taking of a receipt.

A finite-output sender keeps its channel in its own state, and takes it without an authority check.
There a publication goes to the sender (`Side.publish`).
-/

namespace Pipekeep

/-- The position of a receipt that a stage has in hand. -/
def Buffered.Stage.inHand : Buffered.Stage → Option Nat
  | .receipt position => some position
  | _ => none

def Live.Stage.inHand : Live.Stage → Option Nat
  | .receipt position => some position
  | _ => none

namespace Receipts

/-- The positions of the `StdinPosition` frames. -/
def receiptsOf (frames : List Frame) : List Nat :=
  frames.filterMap fun
    | .stdinPosition offset => some offset
    | _ => none

/-- Where an attachment's receipts stand: its channel, the receipts it was sent, and the one that
its sender has taken and not written yet. -/
structure Standing where
  channel : Option Stdin.Receipts := none
  sent : List Nat := []
  inHand : Option Nat := none
  deriving DecidableEq, Repr

/-- The receipt that a turn of an attachment with authority finds in its channel. -/
def due (stdin : Stdin.State) (generation : Nat) : Option Nat :=
  if stdin.attachment.isCurrent generation then
    (stdin.receipts generation).bind fun r => if r.changed then some r.latest else none
  else
    none

/-! ## The output sides -/

/-- An output side, and how the input side sees it. `joins` says which section of the input side a
step is at once, if any; without an answer, the step does not go with this input side. -/
structure Side (O A : Type) where
  nobuffer : Bool
  machine : Machine O A
  leases : O → AttachmentState
  standing : Stdin.State → O → Nat → Standing
  actor : A → Option Nat
  joins : Stdin.State → A → Option (Option Stdin.Act)
  publish : O → Nat → Nat → O

/-- What a session's step is on the input side. -/
def sessionJoins : Session.Act → Option Stdin.Act
  | .install force => some (.install force)
  | .clear generation => some (.clear generation)
  | .wait _ => some .waited
  | .drain _ _ => none

def sessionActor : Session.Act → Option Nat
  | .clear generation => some generation
  | _ => none

/-- A turn takes the receipt that is due, and no other. -/
def turnJoins (stdin : Stdin.State) (generation : Nat) (receipt : Option Nat) :
    Option (Option Stdin.Act) :=
  if receipt = due stdin generation then
    some (receipt.map fun _ => .takeReceipt generation)
  else
    none

def buffered (hardened : Bool) : Side Buffered.State Buffered.Act where
  nobuffer := false
  machine := Buffered.machine hardened
  leases s := s.session.attachment
  standing stdin s g :=
    { channel := stdin.receipts g
      sent := (s.senders g).elim [] fun sender => receiptsOf sender.frames
      inHand := (s.senders g).bind (·.stage.inHand) }
  actor
    | .session act => sessionActor act
    | .attach g _ | .sender g _ => some g
  joins stdin
    | .session act => some (sessionJoins act)
    | .attach g _ => some (some (.hello g))
    | .sender g (.turn receipt) => turnJoins stdin g receipt
    | .sender _ _ => some none
  publish s _ _ := s

def live (hardened : Bool) : Side Live.State Live.Act where
  nobuffer := true
  machine := Live.machine hardened
  leases s := s.session.attachment
  standing stdin s g :=
    { channel := stdin.receipts g
      sent := (s.senders g).elim [] fun sender => receiptsOf sender.frames
      inHand := (s.senders g).bind (·.stage.inHand) }
  actor
    | .session act => sessionActor act
    | .subscribe g | .sender g _ => some g
  joins stdin
    | .session act => some (sessionJoins act)
    | .subscribe _ => some none
    -- an opening that lost its authority before the snapshot's check makes no channel
    | .sender g .hello => some (if stdin.attachment.isCurrent g then some (.hello g) else none)
    | .sender g (.turn receipt) => turnJoins stdin g receipt
    | .sender _ _ => some none
  publish s _ _ := s

def bounded (limit : Nat) : Side Bounds.State Bounds.Act where
  nobuffer := false
  machine := Bounds.machine limit
  leases s := s.attachment
  standing _ s g :=
    { channel := (s.senders g).map (·.acknowledgements)
      sent := (s.senders g).elim [] fun sender => receiptsOf sender.frames }
  actor
    | .clear g | .attach g _ _ | .publish g _ | .sender g _ => some g
    | _ => none
  joins stdin
    | .install force => some (some (.install force))
    | .clear g => some (some (.clear g))
    | .wait _ => some (some .waited)
    | .attach _ _ position => if position = stdin.metadata.stdinPosition then some none else none
    | .publish _ _ => none
    | _ => some none
  publish s g position := (Bounds.step s (.publish g position)).getD s

/-! ## The machine -/

structure State (O : Type) where
  stdin : Stdin.State
  output : O

inductive Act (A : Type)
  | output (act : A)
  /-- An operation on the child's stdin takes the lock, does its next section, drops the guard. -/
  | acquire (op : Stdin.Op)
  | critical (poll : Stdin.Poll)
  | release

/-- The attachment and the position of the section that comes next, where that is a
`publish_receipt` with authority. -/
def publication (stdin : Stdin.State) : Option (Nat × Nat) :=
  match stdin.lock with
  | some ⟨op, .publish position _⟩ =>
    op.generation.bind fun g => if stdin.attachment.isCurrent g then some (g, position) else none
  | _ => none

namespace Side

variable {O A : Type} (S : Side O A)

/-- A step of the input side that the output side does not take part in. -/
def input (s : State O) (act : Stdin.Act) (output : O) : Option (State O) :=
  (Stdin.step S.nobuffer s.stdin act).map fun stdin => { stdin, output }

def step (s : State O) : Act A → Option (State O)
  | .output act =>
    match S.joins s.stdin act, S.machine.step s.output act with
    | some none, some output => some { s with output := output }
    | some (some joined), some output => S.input s joined output
    | _, _ => none
  | .acquire op => S.input s (.acquire op) s.output
  | .critical poll =>
    S.input s (.critical poll)
      ((publication s.stdin).elim s.output fun p => S.publish s.output p.1 p.2)
  | .release => S.input s .release s.output

/-- The broker at its start. -/
def broker : Machine (State O) (Act A) where
  init s := (Stdin.machine S.nobuffer).init s.stdin ∧ S.machine.init s.output
  step := S.step

/-- The attachment whose task takes a step. -/
def actorOf (s : State O) : Act A → Option Nat
  | .output act => S.actor act
  | .acquire op => op.generation
  | .critical _ | .release => s.stdin.lock.bind (·.op.generation)

def standingOf (s : State O) (g : Nat) : Standing := S.standing s.stdin s.output g

/-- The receipts an attachment was sent. -/
def sent (s : State O) (g : Nat) : List Nat := (S.standingOf s g).sent

/-- The stdin position that an attachment's opening announced. -/
def opening (s : State O) (g : Nat) : Option Nat := (S.standingOf s g).channel.map (·.opening)

/-- The value of an attachment's receipt channel. -/
def receipt (s : State O) (g : Nat) : Option Nat := (S.standingOf s g).channel.map (·.latest)

end Side

/-! ## The broker's modes -/

inductive Mode
  | buffered (hardened : Bool)
  | nobuffer (hardened : Bool)
  | bounded (limit : Nat)

namespace Mode

abbrev Output : Mode → Type
  | .buffered _ => Buffered.State
  | .nobuffer _ => Live.State
  | .bounded _ => Bounds.State

abbrev OutputAct : Mode → Type
  | .buffered _ => Buffered.Act
  | .nobuffer _ => Live.Act
  | .bounded _ => Bounds.Act

def side : (mode : Mode) → Side mode.Output mode.OutputAct
  | .buffered hardened => Receipts.buffered hardened
  | .nobuffer hardened => Receipts.live hardened
  | .bounded limit => Receipts.bounded limit

end Mode

end Receipts

end Pipekeep
