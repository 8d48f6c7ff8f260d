import Pipekeep.Outer

/-!
# The input buffer and one that asks it

`read_local_stdin` and a reader of `InputBuffer::next`, with nothing else of the outer process: the
chunks are of any size, and asking may come between any two sections of the reader. A chunk reaches
the file before it is counted, and may be cut off there by a failure.

`stream` logs the chunks that were counted. The one that asks goes on after the last byte it was
given: `position` is what it asks for next, `first` the offset of the first part it was given and
`given` the bytes.
-/

namespace Pipekeep.Outer

namespace InputBuffer

/-- `write_all` of the spool. -/
def spool (b : InputBuffer) (data : List UInt8) : InputBuffer :=
  { b with file := b.file.map (· ++ data) }

/-- The section that counts a chunk, and without buffering retains it. -/
def count (b : InputBuffer) (data : List UInt8) : InputBuffer :=
  let m := { b.metadata with stop := b.metadata.stop + data.length }
  { b with metadata := if b.file.isNone then m.retainLiveTail data else m }

def setEof (b : InputBuffer) : InputBuffer :=
  { b with metadata := { b.metadata with eof := true } }

end InputBuffer

namespace Asking

structure State where
  buffer : InputBuffer
  spooled : Option (List UInt8) := none
  stream : List UInt8 := []
  position : Nat
  first : Option Nat := none
  given : List UInt8 := []
  deriving DecidableEq, Repr

inductive Act
  | spool (data : List UInt8)
  | count (data : List UInt8)
  | eof
  | ask (read : Nat)
  deriving DecidableEq, Repr

/-- The one that asks takes a part of the input. -/
def State.take (s : State) : InputPart → State
  | .data offset data =>
    { s with
      position := offset + data.length
      first := s.first.or (some offset)
      given := s.given ++ data }
  | .eof _ | .wait => s

/-- The reader is gone once EOF is set, and in file mode counts what it has spooled. -/
def step (s : State) : Act → Option State
  | .spool data =>
    if s.buffer.metadata.eof = false ∧ s.buffer.file.isSome ∧ s.spooled = none then
      some { s with buffer := s.buffer.spool data, spooled := some data }
    else
      none
  | .count data =>
    if s.buffer.metadata.eof = false ∧ (s.buffer.file.isSome → s.spooled = some data) then
      some { s with
        buffer := s.buffer.count data, spooled := none, stream := s.stream ++ data }
    else
      none
  | .eof => some { s with buffer := s.buffer.setEof }
  | .ask read => some (s.take (s.buffer.next s.position read))

/-- An empty buffer with or without buffering, asked from any position. -/
def machine : Machine State Act where
  init s := ∃ (nobuffer : Bool) (position : Nat),
    s = { buffer := { file := if nobuffer then none else some [] }, position }
  step := step

end Asking

end Pipekeep.Outer
