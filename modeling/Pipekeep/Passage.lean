import Pipekeep.Outer
import Pipekeep.Stdin

/-!
# From local stdin to the child

The wrapper (`Outer`) and the broker's stdin (`Stdin`), joined by the attempts. An attempt asks the
broker for an attachment with the input state it has taken. The broker may take the request up at
any later time, also when the wrapper has gone on to its next attempt. The opening that the
attachment answers with carries the broker's own position, and the wrapper's attempt and the remote
proxy start from it. The proxy's frames reach the broker in their order and may stop anywhere; an
EOF that the wrapper reported reaches it as a control request of its own, at any later time.

The session belongs to this wrapper: nobody else attaches to it.
-/

namespace Pipekeep.Passage

/-- Where `attach` stands for the request of an attempt. `closed` keeps the generation that its
guard has still to clear. -/
inductive LinkStage
  | asked
  | installed (generation : Nat)
  | applied (generation : Nat)
  | serving (generation : Nat)
  | closed (generation : Option Nat)
  deriving DecidableEq, Repr

def LinkStage.generation : LinkStage → Option Nat
  | .asked => none
  | .installed generation => some generation
  | .applied generation => some generation
  | .serving generation => some generation
  | .closed generation => generation

/-- One attempt as the broker sees it: what it asked for, what its opening said, and how many of the
proxy's frames `receive_input` has read. -/
structure Link where
  asked : Outer.InputState
  stage : LinkStage := .asked
  hello : Option (Nat × Bool) := none
  read : Nat := 0
  deriving DecidableEq, Repr

/-- An operation of the attachment has given the lock back at a stage: `apply_opening_stdin` goes
on to the opening or fails it, and `receive_input` goes on to its next frame or fails. -/
def Link.returned (l : Link) (stage : Stdin.Stage) : Link :=
  match l.stage, stage with
  | .installed generation, .done => { l with stage := .applied generation }
  | .serving generation, .done => { l with stage := .serving generation }
  | .serving generation, .superseded => { l with stage := .serving generation }
  | _, _ => { l with stage := .closed l.stage.generation }

/-- `turn` is the attempt whose operation holds the broker's `child_stdin` lock. -/
structure State where
  outer : Outer.State
  broker : Stdin.State
  links : Nat → Option Link := fun _ => none
  turn : Option Nat := none

inductive Act
  /-- A label of the wrapper other than an opening. -/
  | outer (act : Outer.Act)
  /-- The broker takes up the request of an attempt. -/
  | install (attempt : Nat)
  | opening (attempt : Nat)
  | hello (attempt : Nat)
  /-- The wrapper reads the opening of its current attempt. -/
  | opened
  /-- `receive_input` reads the next frame of an attempt. -/
  | frame (attempt : Nat)
  /-- An EOF control request of the wrapper. -/
  | control (offset : Nat)
  | reap
  | critical (poll : Stdin.Poll)
  | release
  | takeReceipt (generation : Nat)
  /-- The attachment of an attempt ends, and its guard is dropped. -/
  | close (attempt : Nat)
  | clear (attempt : Nat)
  | waited
  deriving DecidableEq, Repr

def State.setLink (s : State) (i : Nat) (l : Link) : State :=
  { s with links := Function.update s.links i (some l) }

/-- A step of the broker alone. -/
def State.stdin (nobuffer : Bool) (s : State) (act : Stdin.Act) : Option State :=
  (Stdin.step nobuffer s.broker act).map fun broker => { s with broker := broker }

/-- An operation takes the lock for an attempt. -/
def State.acquire (nobuffer : Bool) (s : State) (i : Option Nat) (op : Stdin.Op) : Option State :=
  (s.stdin nobuffer (.acquire op)).map fun t => { t with turn := i }

/-- The request of a new attempt. -/
def State.ask (s : State) : State :=
  { s with
    links := Function.update s.links s.outer.attempt
      (s.outer.opening.map fun asked => ({ asked := asked } : Link)) }

/-- The wrapper's own step; the opening of an attempt is the broker's. -/
def State.wrap (s : State) : Outer.Act → Option State
  | .opened _ _ => none
  | .attempt => (Outer.step s.outer .attempt).map fun outer => State.ask { s with outer := outer }
  | act => (Outer.step s.outer act).map fun outer => { s with outer := outer }

/-- `install_attachment` for an attempt, which never forces. -/
def State.install (nobuffer : Bool) (s : State) (i : Nat) (l : Link) : Option State :=
  match s.broker.attachment.install false with
  | .ok (generation, _) =>
    (s.stdin nobuffer (.install false)).map
      (·.setLink i { l with stage := .installed generation })
  | .error () => some (s.setLink i { l with stage := .closed none })

/-- The opening snapshot of a current attachment. -/
def State.hello (nobuffer : Bool) (s : State) (i : Nat) (l : Link) (generation : Nat) :
    Option State :=
  if s.broker.attachment.isCurrent generation then
    (s.stdin nobuffer (.hello generation)).map (·.setLink i { l with
      stage := .serving generation
      hello := some (s.broker.metadata.stdinPosition, s.broker.metadata.stdinEof) })
  else
    none

/-- The frame after those that have been read, if the proxy has forwarded it. -/
def State.nextFrame (s : State) (i : Nat) (l : Link) : Option (Nat × List UInt8) :=
  (s.outer.attempts i).bind fun a => a.proxy.forwarded[l.read]?

def step (nobuffer : Bool) (s : State) : Act → Option State
  | .outer act => s.wrap act
  | .install i =>
    match s.links i with
    | some l => if l.stage = .asked then s.install nobuffer i l else none
    | none => none
  | .opening i =>
    match s.links i with
    | some l =>
      match l.stage with
      | .installed g => s.acquire nobuffer (some i) (.opening g l.asked.start l.asked.eof)
      | _ => none
    | none => none
  | .hello i =>
    match s.links i with
    | some l =>
      match l.stage with
      | .applied g => s.hello nobuffer i l g
      | _ => none
    | none => none
  | .opened =>
    match (s.links s.outer.attempt).bind Link.hello with
    | some (position, eof) =>
      (Outer.step s.outer (.opened position eof)).map fun outer => { s with outer := outer }
    | none => none
  | .frame i =>
    match s.links i with
    | some l =>
      match l.stage, s.nextFrame i l with
      | .serving g, some (offset, data) =>
        (s.acquire nobuffer (some i) (.data g offset data)).map
          (·.setLink i { l with read := l.read + 1 })
      | _, _ => none
    | none => none
  | .control offset =>
    if offset ∈ s.outer.reports then s.acquire nobuffer none (.control offset) else none
  | .reap => s.acquire nobuffer none .reap
  | .critical poll => s.stdin nobuffer (.critical poll)
  | .release =>
    match s.broker.lock with
    | some holder =>
      (s.stdin nobuffer .release).map fun t =>
        { t with
          links := fun i =>
            if s.turn = some i then (t.links i).map (·.returned holder.stage) else t.links i
          turn := none }
    | none => none
  | .takeReceipt g => s.stdin nobuffer (.takeReceipt g)
  | .close i =>
    match s.links i with
    | some l =>
      if s.turn = some i then none
      else some (s.setLink i { l with stage := .closed l.stage.generation })
    | none => none
  | .clear i =>
    match (s.links i).map Link.stage with
    | some (.closed (some g)) => s.stdin nobuffer (.clear g)
    | _ => none
  | .waited => s.stdin nobuffer .waited

/-- A wrapper and a broker of their own kinds, with nothing between them yet. -/
def machine (nobuffer : Bool) : Machine State Act where
  init s := ∃ wrapper childStdin, s = { outer := Outer.initial wrapper, broker := { childStdin } }
  step := step nobuffer

end Pipekeep.Passage
