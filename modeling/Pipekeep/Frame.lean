import Pipekeep.Output

/-!
# Frames

The frames of an attachment, and what a reader of a frame sequence makes of one output stream:
`Frame.follow` moves a position over the data frames of the stream and gets stuck on one that does
not start there, `Frame.bytes` concatenates their data.
-/

namespace Pipekeep

inductive Frame
  | stdinData (offset : Nat) (data : List UInt8)
  | stdinEof (offset : Nat)
  | stdoutData (offset : Nat) (data : List UInt8)
  | stderrData (offset : Nat) (data : List UInt8)
  | stdinPosition (offset : Nat)
  | exit (status : ExitResult)
  | outputState (fact : OutputFact)
  | outputEnd (fact : OutputFact)
  deriving DecidableEq, Repr

namespace Frame

/-- A data frame of an output stream. -/
def outputData : Stream → Nat → List UInt8 → Frame
  | .stdout => .stdoutData
  | .stderr => .stderrData

/-- The stream, offset and data of an output data frame. -/
def output : Frame → Option (Stream × Nat × List UInt8)
  | .stdoutData offset data => some (.stdout, offset, data)
  | .stderrData offset data => some (.stderr, offset, data)
  | _ => none

@[simp] theorem output_outputData (st : Stream) (offset : Nat) (data : List UInt8) :
    (outputData st offset data).output = some (st, offset, data) := by
  cases st <;> rfl

/-- Where one frame leaves a reader of `st` that stands at `position`. -/
def advance (st : Stream) (position : Nat) (f : Frame) : Option Nat :=
  match f.output with
  | some (st', offset, data) =>
    if st' = st then if offset = position then some (position + data.length) else none
    else some position
  | none => some position

/-- Where a frame sequence leaves a reader of `st`, if the stream's frames are contiguous. -/
def follow (st : Stream) : Nat → List Frame → Option Nat
  | position, [] => some position
  | position, f :: fs => (f.advance st position).bind fun position => follow st position fs

/-- What one frame adds to the stream. -/
def payload (st : Stream) (f : Frame) : List UInt8 :=
  match f.output with
  | some (st', _, data) => if st' = st then data else []
  | none => []

/-- The bytes of `st` in a frame sequence. -/
def bytes (st : Stream) (fs : List Frame) : List UInt8 :=
  fs.flatMap (payload st)

theorem follow_append (st : Stream) (position : Nat) (fs gs : List Frame) :
    follow st position (fs ++ gs) = (follow st position fs).bind fun p => follow st p gs := by
  induction fs generalizing position with
  | nil => rfl
  | cons f fs ih =>
    rw [List.cons_append, follow, follow]
    cases f.advance st position with
    | none => rfl
    | some p => exact ih p

/-- A sequence whose reader stands at `p` grows by any frame that its reader can take. -/
theorem follow_snoc {st : Stream} {start p q : Nat} {fs : List Frame} {f : Frame}
    (h : follow st start fs = some p) (hf : f.advance st p = some q) :
    follow st start (fs ++ [f]) = some q := by
  rw [follow_append, h, Option.bind_some, follow, hf]
  rfl

theorem bytes_append (st : Stream) (fs gs : List Frame) :
    bytes st (fs ++ gs) = bytes st fs ++ bytes st gs :=
  List.flatMap_append

@[simp] theorem bytes_singleton (st : Stream) (f : Frame) : bytes st [f] = f.payload st :=
  List.flatMap_singleton _ _

/-- A frame that is not of an output stream leaves every reader where it was. -/
theorem advance_of_output_none {f : Frame} (h : f.output = none) (st : Stream) (p : Nat) :
    f.advance st p = some p := by
  simp only [advance, h]

theorem payload_of_output_none {f : Frame} (h : f.output = none) (st : Stream) :
    f.payload st = [] := by
  simp only [payload, h]

theorem advance_outputData (st st' : Stream) (p : Nat) (data : List UInt8) (q : Nat) :
    (outputData st' q data).advance st p =
      if st' = st then if q = p then some (p + data.length) else none else some p := by
  simp only [advance, output_outputData]

theorem payload_outputData (st st' : Stream) (offset : Nat) (data : List UInt8) :
    (outputData st' offset data).payload st = if st' = st then data else [] := by
  simp only [payload, output_outputData]

theorem output_eq_some {f : Frame} {st : Stream} {offset : Nat} {data : List UInt8}
    (h : f.output = some (st, offset, data)) : f = outputData st offset data := by
  cases f <;> cases h <;> rfl

/-- A reader that takes a frame moves by what the frame adds to its stream. -/
theorem advance_eq {f : Frame} {st : Stream} {p q : Nat} (h : f.advance st p = some q) :
    q = p + (f.payload st).length := by
  cases hf : f.output with
  | none =>
    rw [advance_of_output_none hf] at h
    rw [payload_of_output_none hf]
    exact (Option.some.inj h).symm
  | some out =>
    obtain ⟨st', offset, data⟩ := out
    rw [output_eq_some hf, advance_outputData] at h
    rw [output_eq_some hf, payload_outputData]
    split at h
    · rename_i heq
      split at h
      · rw [if_pos heq]
        exact (Option.some.inj h).symm
      · cases h
    · rename_i hne
      rw [if_neg hne]
      exact (Option.some.inj h).symm

/-- A reader ends where the bytes of its stream end. -/
theorem follow_eq {st : Stream} {p q : Nat} {fs : List Frame} (h : follow st p fs = some q) :
    q = p + (bytes st fs).length := by
  induction fs generalizing p with
  | nil => exact (Option.some.inj h).symm
  | cons f fs ih =>
    obtain ⟨mid, hf, hfs⟩ := Option.bind_eq_some_iff.mp h
    have hmid := advance_eq hf
    have hq := ih hfs
    rw [← List.singleton_append, bytes_append, bytes_singleton, List.length_append]
    omega

/-- The reader of a sequence takes the frame after any part of it. -/
theorem follow_next {st : Stream} {p q : Nat} {fs gs : List Frame} {f : Frame}
    (h : follow st p (fs ++ f :: gs) = some q) :
    f.advance st (p + (bytes st fs).length) =
      some (p + (bytes st fs).length + (f.payload st).length) := by
  rw [follow_append] at h
  obtain ⟨mid, hfs, hrest⟩ := Option.bind_eq_some_iff.mp h
  obtain ⟨next, hf, -⟩ := Option.bind_eq_some_iff.mp hrest
  rw [← follow_eq hfs, hf, advance_eq hf]

/-- The frame carries byte `b` of `st` at position `i`. -/
def Carries (f : Frame) (st : Stream) (i : Nat) (b : UInt8) : Prop :=
  ∃ offset data, f = outputData st offset data ∧ offset ≤ i ∧ data[i - offset]? = some b

end Frame

end Pipekeep
