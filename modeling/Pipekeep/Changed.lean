import Pipekeep.Lib.Notify
import Pipekeep.Receipts

/-!
# `changed`: who notifies and who waits

The broker's one `Notify`, beside the two sides of an unlimited session. A drain and the wait task
change the metadata in one section and call `notify_waiters` after it; a no-buffer drain sends its
chunk in between. The tasks of the input side and of a cancellation notify too, whenever they do.

A sender of either kind makes its `Notified` at the `look` of its turn, before it reads the
metadata, and drops it unless the turn ends in the `select`. The select's other sources are its
receipt channel and, in a no-buffer session, the two live channels.
-/

namespace Pipekeep.Changed

open Receipts (Side)

/-- Who calls `notify_waiters`. -/
inductive Task
  | drain (st : Stream)
  | wait
  | other
  deriving DecidableEq, Repr

/-- The section of a drain after which it notifies. A count that overflows is one of them. -/
def drainChanges (s : Session) (st : Stream) : Session.DrainAct → Bool
  | .publish | .eof | .readError _ => true
  | .count =>
    match s.drains.get st with
    | .read data => !(checkedEnd (s.metadata.ends.get st) data.length).isOk
    | _ => false
  | _ => false

def sessionRole (s : Session) : Session.Act → Role Task Nat
  | .drain _ .send => .other
  | .drain st act => .task (.drain st) (drainChanges s st act)
  | .wait _ => .task .wait true
  | .install _ | .clear _ => .other

/-- The receipt channel of an attachment has a new value. -/
def acknowledged (stdin : Stdin.State) (generation : Nat) : Bool :=
  (stdin.receipts generation).any (·.changed)

/-- `send_buffered_output` in the broker. -/
def buffered (hardened : Bool) :
    Watched (Receipts.State Buffered.State) (Receipts.Act Buffered.Act) Task Nat where
  machine := (Receipts.buffered hardened).broker
  role s
    | .output (.session act) => sessionRole s.output.session act
    | .output (.sender g .look) => .look g
    | .output (.sender g .wake) => .wake g (acknowledged s.stdin g)
    | _ => .other
  registers s g := (s.output.senders g).any (·.stage == .look)
  asleep s g := (s.output.senders g).any (·.stage == .waiting)

/-- `send_live_output` in the broker. -/
def live (hardened : Bool) :
    Watched (Receipts.State Live.State) (Receipts.Act Live.Act) Task Nat where
  machine := (Receipts.live hardened).broker
  role s
    | .output (.session act) => sessionRole s.output.session act
    | .output (.sender g .look) => .look g
    | .output (.sender g (.recv _)) => .wake g true
    | .output (.sender g .wake) => .wake g (acknowledged s.stdin g)
    | _ => .other
  registers s g := (s.output.senders g).any (·.stage == .look)
  asleep s g := (s.output.senders g).any (·.stage == .waiting)

/-! ## Who has nothing to do -/

/-- A turn of a buffered sender would find nothing to send. -/
def Idle (s : Receipts.State Buffered.State) (g : Nat) : Prop :=
  ∀ sender, s.output.senders g = some sender →
    Buffered.serve sender s.output.session.metadata.ends
      (Buffered.terminalStatus s.output.session.metadata) = .waiting

/-- The session has not ended for a no-buffer sender. -/
def Unended (s : Receipts.State Live.State) (_ : Nat) : Prop :=
  Buffered.terminalStatus s.output.session.metadata = none

/-! ## A sender's own steps -/

/-- The steps that the task of `generation` takes by itself, while its socket stands and its file
reads return bytes. -/
inductive Own (generation : Nat) : Watched.Act (Receipts.Act Buffered.Act) Task Nat → Prop
  | register : Own generation (.register generation)
  | turn (receipt : Option Nat) : Own generation (.act (.output (.sender generation (.turn receipt))))
  | receipt : Own generation (.act (.output (.sender generation .receipt)))
  | look : Own generation (.act (.output (.sender generation .look)))
  | read {count : Nat} (bytes : 0 < count) :
      Own generation (.act (.output (.sender generation (.read count))))
  | emit : Own generation (.act (.output (.sender generation .emit)))
  | wake : Own generation (.act (.output (.sender generation .wake)))

end Pipekeep.Changed
