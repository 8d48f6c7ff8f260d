import Pipekeep.Laws.Relay
import Pipekeep.Laws.Wire
import Pipekeep.Lib.Slice

/-!
# Whatever the broker sends, the relay forwards contiguous streams

Nothing is asked of the broker here: its transport is any bytes, `sentFrames` are the frames they
hold, and the relay takes them one by one up to the first that ends it (`run_cases`). Framed, what
is forwarded has passed the check, so `Forwards` is read off the sequence. Raw, what the client has
stays a stretch of the stream that the frames agree with, because a frame is trimmed below the
relay's position and refused above it.
-/

namespace Pipekeep

open Slice

variable {S : Serde} {m : RelayMode} {d : Direction} {p : RelayPositions} {f : Frame}
  {fs : List Frame} {input rest : List UInt8} {rounds : Nat}

/-! ## What the broker sends -/

/-- The frames that a transport's bytes hold, in at most so many reads. -/
def sentFrames (S : Serde) (d : Direction) : Nat → List UInt8 → List Frame
  | 0, _ => []
  | rounds + 1, input =>
    match readFrame S d input with
    | .ok (some (f, rest)) => f :: sentFrames S d rounds rest
    | _ => []

/-- A frame that is read takes bytes. -/
theorem readFrame_shrinks (h : readFrame S d input = .ok (some (f, rest))) :
    rest.length < input.length := by
  obtain ⟨kind, payload, rfl, -, -⟩ := readFrame_eq_ok h
  rw [List.cons_append, List.length_cons, List.length_append]
  omega

theorem sentFrames_dataEnd (h : f ∈ sentFrames S d rounds input) :
    ∀ stop ∈ f.dataEnd, stop ≤ u64Max := by
  induction rounds generalizing input with
  | zero => cases h
  | succ rounds ih =>
    rw [sentFrames] at h
    split at h
    · rename_i g rest hread
      rcases List.mem_cons.mp h with rfl | h
      · obtain ⟨_, payload, -, hsize, hparse⟩ := readFrame_eq_ok hread
        exact (parseFrame_eq_ok hparse hsize).2.2
      · exact ih h
    · cases h

/-- A written sequence grows by any frame that is written after it. -/
theorem writeFrames_snoc {bytes last : List UInt8} (h : writeFrames S fs = .ok bytes)
    (hf : writeFrame S f = .ok last) : writeFrames S (fs ++ [f]) = .ok (bytes ++ last) := by
  induction fs generalizing bytes with
  | nil =>
    cases h
    exact writeFrames_cons.mpr ⟨last, [], hf, rfl, by rw [List.append_nil, List.nil_append]⟩
  | cons g fs ih =>
    obtain ⟨b, rest, hb, hrest, rfl⟩ := writeFrames_cons.mp h
    exact writeFrames_cons.mpr ⟨b, rest ++ last, hb, ih hrest, by rw [List.append_assoc]⟩

/-! ## The frames a relay takes -/

namespace RelayMode

/-- What the relay reads its frames as. -/
def direction (m : RelayMode) : Direction :=
  if m.outputBounded then .boundedOutput else .output

end RelayMode

namespace Relay

/-- The relay after frames none of which ends it. -/
def through (S : Serde) (m : RelayMode) : Relay → List Frame → Option Relay
  | r, [] => some r
  | r, f :: fs =>
    match r.frame S m f with
    | (r, .ok none) => through S m r fs
    | _ => none

variable {r q r' : Relay} {out : Except String Int}

theorem through_cons : r.through S m (f :: fs) = some q ↔
    ∃ next, r.frame S m f = (next, .ok none) ∧ next.through S m fs = some q := by
  rw [through]
  split
  · rename_i next hf
    exact ⟨fun h => ⟨next, hf, h⟩, fun ⟨_, hnext, h⟩ => by rw [hf] at hnext; cases hnext; exact h⟩
  · rename_i hne
    exact ⟨fun h => (by cases h), fun ⟨next, hf, _⟩ => absurd hf (hne next)⟩

/-- **How a run of the relay ends**: after the frames it took whole, with the transport or with the
frame that ends it. -/
theorem run_cases (h : r.run S m rounds input = some (r', out)) :
    ∃ fs q, r.through S m fs = some q ∧
      ((sentFrames S m.direction rounds input = fs ∧ r' = q) ∨
        ∃ f after, sentFrames S m.direction rounds input = fs ++ f :: after ∧
          ((∃ e, q.frame S m f = (r', .error e) ∧ out = .error e) ∨
            ∃ code, q.frame S m f = (r', .ok (some code)) ∧ out = .ok code)) := by
  induction rounds generalizing r input with
  | zero => cases h
  | succ rounds ih =>
    rw [run] at h
    rw [sentFrames, RelayMode.direction]
    cases hread : readFrame S (if m.outputBounded then .boundedOutput else .output) input with
    | error e =>
      rw [hread] at h
      cases h
      exact ⟨[], _, rfl, .inl ⟨rfl, rfl⟩⟩
    | ok read =>
      rw [hread] at h
      cases read with
      | none =>
        cases h
        exact ⟨[], _, rfl, .inl ⟨rfl, rfl⟩⟩
      | some read =>
        obtain ⟨f, rest⟩ := read
        dsimp only at h ⊢
        split at h
        · rename_i next e hf
          cases h
          exact ⟨[], r, rfl, .inr ⟨f, _, rfl, .inl ⟨e, hf, rfl⟩⟩⟩
        · rename_i next code hf
          cases h
          exact ⟨[], r, rfl, .inr ⟨f, _, rfl, .inr ⟨code, hf, rfl⟩⟩⟩
        · rename_i next hf
          obtain ⟨fs, q, hthrough, hend⟩ := ih h
          refine ⟨f :: fs, q, through_cons.mpr ⟨next, hf, hthrough⟩, ?_⟩
          rw [RelayMode.direction] at hend
          rcases hend with ⟨hsent, rfl⟩ | ⟨g, after, hsent, hend⟩
          · exact .inl ⟨by rw [hsent], rfl⟩
          · exact .inr ⟨g, after, by rw [hsent, List.cons_append], hend⟩

/-- A frame that fails ends the run, whatever follows it. -/
theorem run_failed {before after : List Frame} {e : String}
    (hsent : sentFrames S m.direction rounds input = before ++ f :: after)
    (hbefore : r.through S m before = some q) (hf : q.frame S m f = (r', .error e)) :
    r.run S m rounds input = some (r', .error e) := by
  induction rounds generalizing r input before with
  | zero =>
    rw [sentFrames] at hsent
    exact absurd hsent.symm (List.append_ne_nil_of_right_ne_nil before (List.cons_ne_nil f after))
  | succ rounds ih =>
    rw [sentFrames] at hsent
    split at hsent
    · rename_i g rest hread
      rw [RelayMode.direction] at hread
      rw [run, hread]
      dsimp only
      cases before with
      | nil =>
        cases hbefore
        cases hsent
        rw [hf]
      | cons b before =>
        obtain ⟨next, hnext, hthrough⟩ := through_cons.mp hbefore
        rw [List.cons_append] at hsent
        obtain ⟨rfl, htail⟩ := List.cons.inj hsent
        rw [hnext]
        exact ih htail hthrough
    · exact absurd hsent.symm (List.append_ne_nil_of_right_ne_nil before (List.cons_ne_nil f after))

/-- The loop ends with its transport. -/
theorem run_returns (S : Serde) (m : RelayMode) (r : Relay) (h : input.length < rounds) :
    ∃ r' out, r.run S m rounds input = some (r', out) := by
  induction rounds generalizing r input with
  | zero => cases h
  | succ rounds ih =>
    rw [run]
    cases hread : readFrame S (if m.outputBounded then .boundedOutput else .output) input with
    | error e => exact ⟨_, _, rfl⟩
    | ok read =>
      cases read with
      | none => exact ⟨_, _, rfl⟩
      | some read =>
        have hrest := readFrame_shrinks hread
        dsimp only
        split
        · exact ⟨_, _, rfl⟩
        · exact ⟨_, _, rfl⟩
        · exact ih _ (by omega)

/-! ## Framed -/

/-- A frame that is taken has passed the check, and is written whole. -/
theorem frame_framed (hm : m.framed = true) {code : Option Int}
    (h : r.frame S m f = (q, .ok code)) :
    code = f.returns ∧ r.positions.check m f = .ok q.positions ∧ ∃ bytes,
      writeFrame S f = .ok bytes ∧
        q.written = { r.written with stdout := r.written.stdout ++ bytes } := by
  unfold frame at h
  rw [if_pos hm] at h
  split at h
  · cases h
  · rename_i positions hcheck
    dsimp only at h
    split at h
    · cases h
    · rename_i bytes hbytes
      cases h
      exact ⟨rfl, hcheck, bytes, hbytes, rfl⟩

/-- Nothing is written of a frame that fails. -/
theorem frame_framed_error (hm : m.framed = true) {e : String}
    (h : r.frame S m f = (q, .error e)) : q.written = r.written := by
  unfold frame at h
  rw [if_pos hm] at h
  split at h
  · cases h
    rfl
  · dsimp only at h
    split at h
    · cases h
      rfl
    · cases h

/-- Frames that are taken one by one are checked and written one after the other. -/
theorem through_framed (hm : m.framed = true) (h : r.through S m fs = some q) :
    r.positions.checks m fs = .ok q.positions ∧ ∃ bytes, writeFrames S fs = .ok bytes ∧
      q.written = { r.written with stdout := r.written.stdout ++ bytes } := by
  induction fs generalizing r with
  | nil =>
    cases h
    refine ⟨rfl, [], rfl, ?_⟩
    rw [List.append_nil]
  | cons f fs ih =>
    obtain ⟨next, hf, hfs⟩ := through_cons.mp h
    obtain ⟨-, hcheck, bytes, hbytes, hwritten⟩ := frame_framed hm hf
    obtain ⟨hchecks, rest, hrest, hall⟩ := ih hfs
    refine ⟨RelayPositions.checks_cons.mpr ⟨_, hcheck, hchecks⟩, bytes ++ rest,
      writeFrames_cons.mpr ⟨bytes, rest, hbytes, hrest, rfl⟩, ?_⟩
    rw [hall, hwritten, List.append_assoc]

end Relay

/-- What a client of framed streams may rely on: each stream's data frames are contiguous from the
opening, receipts never fall, facts keep the opening's limit and an end states what was
delivered. -/
structure Forwards (m : RelayMode) (p : RelayPositions) (fs : List Frame) : Prop where
  contiguous : ∀ st, Frame.follow st (p.output.get st) fs =
    some (p.output.get st + (Frame.bytes st fs).length)
  receipts : ∀ before offset after, fs = before ++ .stdinPosition offset :: after →
    p.stdin ≤ offset ∧ ∀ earlier, .stdinPosition earlier ∈ before → earlier ≤ offset
  facts : ∀ fact, .outputState fact ∈ fs ∨ .outputEnd fact ∈ fs → some fact.limit = m.outputLimit
  ends : ∀ before fact after, fs = before ++ .outputEnd fact :: after → ∀ st,
    (fact.streams.get st).retained = p.output.get st + (Frame.bytes st before).length

namespace RelayPositions

variable {q : RelayPositions}

/-- No receipt of a checked sequence is above where the sequence leaves the receipts. -/
theorem checks_receipt_le (h : p.checks m fs = .ok q) {offset : Nat}
    (hmem : .stdinPosition offset ∈ fs) : offset ≤ q.stdin := by
  obtain ⟨before, after, rfl⟩ := List.append_of_mem hmem
  obtain ⟨r, -, h⟩ := checks_append_eq_ok.mp h
  obtain ⟨r', hr', h⟩ := checks_cons.mp h
  obtain ⟨-, rfl⟩ := check_stdinPosition.mp hr'
  exact checks_stdin h

/-- A sequence that passes the check is one that a client may rely on. -/
theorem checks_forwards (h : p.checks m fs = .ok q) : Forwards m p fs where
  contiguous st := by
    have hfollow := checks_follow h st
    rw [hfollow, ← Frame.follow_eq hfollow]
  receipts before offset after heq := by
    subst heq
    obtain ⟨r, hr, h⟩ := checks_append_eq_ok.mp h
    obtain ⟨r', hr', -⟩ := checks_cons.mp h
    obtain ⟨hle, -⟩ := check_stdinPosition.mp hr'
    refine ⟨Nat.le_trans (checks_stdin hr) hle, fun earlier hmem => ?_⟩
    exact Nat.le_trans (checks_receipt_le hr hmem) hle
  facts fact hmem := by
    rcases hmem with hmem | hmem
    · obtain ⟨before, after, rfl⟩ := List.append_of_mem hmem
      obtain ⟨r, r', -, hr'⟩ := checks_mem h
      exact (check_outputState.mp hr').1
    · obtain ⟨before, after, rfl⟩ := List.append_of_mem hmem
      obtain ⟨r, r', -, hr'⟩ := checks_mem h
      exact (check_outputEnd.mp hr').1
  ends before fact after heq st := by
    subst heq
    obtain ⟨r, r', hr, hr'⟩ := checks_mem h
    rw [(check_outputEnd.mp hr').2.1 st, Frame.follow_eq (checks_follow hr st)]

end RelayPositions

/-! ## Raw -/

/-- The frame's data is the stream's at its offset. -/
def Frame.Agrees (O : Stream → Nat → UInt8) (f : Frame) : Prop :=
  ∀ st offset data, f.output = some (st, offset, data) → data = slice (O st) offset data.length

/-- What the client has of a stream is the stream from the opening's position to the relay's. -/
def Relay.Copies (O : Stream → Nat → UInt8) (p : RelayPositions) (r : Relay) : Prop :=
  ∀ st, p.output.get st ≤ r.positions.output.get st ∧
    r.written.get st =
      slice (O st) (p.output.get st) (r.positions.output.get st - p.output.get st)

namespace Relay

variable {O : Stream → Nat → UInt8} {r q : Relay} {st : Stream} {offset : Nat} {data : List UInt8}
  {out : Except String (Option Int)}

theorem copies_start (O : Stream → Nat → UInt8) (p : RelayPositions) : Copies O p ⟨p, .both []⟩ := by
  intro st
  refine ⟨Nat.le_refl _, ?_⟩
  rw [PerStream.get_both, Nat.sub_self, slice_zero]

/-- Past a gap nothing is written. -/
theorem writeRaw_gap (r : Relay) (data : List UInt8) (gap : r.positions.output.get st < offset) :
    r.writeRaw st offset data =
      (r, .error s!"broker output contains a gap at byte {r.positions.output.get st}") := by
  unfold writeRaw
  dsimp only
  rw [if_pos gap]

/-- A piece that agrees with the stream is trimmed to what the client does not have. -/
theorem writeRaw_copies (h : Copies O p r) (agrees : data = slice (O st) offset data.length)
    (hend : offset + data.length ≤ u64Max) : Copies O p (r.writeRaw st offset data).1 := by
  unfold writeRaw
  dsimp only
  split
  · exact h
  rename_i gapless
  split
  · exact h
  rename_i new
  obtain ⟨hle, hwritten⟩ := h st
  have hnext : checkedEnd (r.positions.output.get st)
      (data.length - (r.positions.output.get st - offset)) = .ok (offset + data.length) :=
    checkedEnd_eq_ok.mpr ⟨by omega, by omega⟩
  rw [hnext]
  have hpiece : data.drop (r.positions.output.get st - offset) =
      slice (O st) (r.positions.output.get st)
        (offset + data.length - r.positions.output.get st) := by
    rw [agrees, drop_slice, length_slice]
    congr 1 <;> omega
  intro st'
  dsimp only
  rw [PerStream.get_set, PerStream.get_set]
  by_cases heq : st' = st
  · subst heq
    rw [if_pos rfl, if_pos rfl, hwritten, hpiece]
    refine ⟨by omega, ?_⟩
    have hstart : p.output.get st' + (r.positions.output.get st' - p.output.get st') =
        r.positions.output.get st' := by
      omega
    have hlength : r.positions.output.get st' - p.output.get st' +
        (offset + data.length - r.positions.output.get st') =
          offset + data.length - p.output.get st' := by
      omega
    rw [← hlength, slice_add, hstart]
  · rw [if_neg heq, if_neg heq]
    exact h st'

theorem frame_data (hm : m.framed = false) (hf : f.output = some (st, offset, data)) :
    r.frame S m f = r.writeRaw st offset data := by
  rw [Frame.output_eq_some hf]
  unfold frame
  rw [if_neg (Bool.eq_false_iff.mp hm)]
  cases st <;> rfl

theorem frame_other (hm : m.framed = false) (hf : f.output = none) : (r.frame S m f).1 = r := by
  unfold frame
  rw [if_neg (Bool.eq_false_iff.mp hm)]
  cases f with
  | stdoutData offset data => cases hf
  | stderrData offset data => cases hf
  | _ => rfl

/-- One frame, whatever comes of it. -/
theorem frame_copies (hm : m.framed = false) (h : Copies O p r) (agrees : f.Agrees O)
    (hend : ∀ stop ∈ f.dataEnd, stop ≤ u64Max) : Copies O p (r.frame S m f).1 := by
  cases hf : f.output with
  | none =>
    rw [frame_other hm hf]
    exact h
  | some output =>
    obtain ⟨st, offset, data⟩ := output
    have hstop : offset + data.length ≤ u64Max := by
      rw [Frame.output_eq_some hf] at hend
      cases st with
      | stdout => exact hend _ rfl
      | stderr => exact hend _ rfl
    rw [frame_data hm hf]
    exact writeRaw_copies h (agrees st offset data hf) hstop

theorem through_copies (hm : m.framed = false) (h : Copies O p r)
    (agrees : ∀ f ∈ fs, f.Agrees O) (hend : ∀ f ∈ fs, ∀ stop ∈ f.dataEnd, stop ≤ u64Max)
    (hthrough : r.through S m fs = some q) : Copies O p q := by
  induction fs generalizing r with
  | nil =>
    cases hthrough
    exact h
  | cons f fs ih =>
    obtain ⟨next, hf, hfs⟩ := through_cons.mp hthrough
    have hnext := frame_copies (S := S) hm h (agrees f List.mem_cons_self)
      (hend f List.mem_cons_self)
    rw [hf] at hnext
    exact ih hnext (fun g hg => agrees g (List.mem_cons_of_mem f hg))
      (fun g hg => hend g (List.mem_cons_of_mem f hg)) hfs

end Relay

/-! ## The relay forwards only contiguous streams -/

/-- **The relay forwards only contiguous streams**, from any opening's positions and whatever bytes
the broker sends.

Framed, the client gets the encoding of frames the broker sent, in order from the first: their data
is contiguous from the opening, receipts do not fall below it or below an earlier one, facts keep
the opening's limit, and an end's retained counts are the delivered positions.

Raw, if the data the broker sends agrees with a stream, the client gets exactly that stream from the
opening's position to the relay's. A frame that starts past the relay's position ends the run there
and then, with nothing of it written. -/
theorem relay_forwards_contiguous (S : Serde) (m : RelayMode) (p : RelayPositions)
    {input : List UInt8} {rounds : Nat} (enough : input.length < rounds) :
    ∃ r out, Relay.run S m rounds ⟨p, .both []⟩ input = some (r, out) ∧
      (m.framed = true → ∃ fs bytes, fs <+: sentFrames S m.direction rounds input ∧
        writeFrames S fs = .ok bytes ∧ r.written = ⟨bytes, []⟩ ∧ Forwards m p fs) ∧
      (m.framed = false → ∀ O : Stream → Nat → UInt8,
        (∀ f ∈ sentFrames S m.direction rounds input, f.Agrees O) →
          ∀ st, p.output.get st ≤ r.positions.output.get st ∧
            r.written.get st =
              slice (O st) (p.output.get st) (r.positions.output.get st - p.output.get st)) ∧
      (m.framed = false → ∀ before f after q st offset data,
        sentFrames S m.direction rounds input = before ++ f :: after →
        Relay.through S m ⟨p, .both []⟩ before = some q →
        f.output = some (st, offset, data) → q.positions.output.get st < offset →
          r = q ∧ out =
            .error s!"broker output contains a gap at byte {q.positions.output.get st}") := by
  obtain ⟨r, out, hrun⟩ := Relay.run_returns S m ⟨p, .both []⟩ enough
  obtain ⟨fs, q, hthrough, hend⟩ := Relay.run_cases hrun
  refine ⟨r, out, hrun, fun hm => ?_, fun hm O agrees => ?_, fun hm => ?_⟩
  · obtain ⟨hchecks, bytes, hbytes, hwritten⟩ := Relay.through_framed hm hthrough
    have forwarded : q.written = ⟨bytes, []⟩ := by
      rw [hwritten]
      rfl
    rcases hend with ⟨hsent, rfl⟩ | ⟨f, after, hsent, ⟨e, hf, -⟩ | ⟨code, hf, -⟩⟩
    · exact ⟨fs, bytes, ⟨[], by rw [hsent, List.append_nil]⟩, hbytes, forwarded,
        RelayPositions.checks_forwards hchecks⟩
    · refine ⟨fs, bytes, ⟨f :: after, hsent.symm⟩, hbytes, ?_,
        RelayPositions.checks_forwards hchecks⟩
      rw [Relay.frame_framed_error hm hf, forwarded]
    · obtain ⟨-, hcheck, last, hlast, hmore⟩ := Relay.frame_framed hm hf
      refine ⟨fs ++ [f], bytes ++ last, ⟨after, ?_⟩, writeFrames_snoc hbytes hlast, ?_,
        RelayPositions.checks_forwards (RelayPositions.checks_snoc hchecks hcheck)⟩
      · rw [hsent, List.append_assoc, List.singleton_append]
      · rw [hmore, forwarded]
  · have dataEnd : ∀ f ∈ sentFrames S m.direction rounds input, ∀ stop ∈ f.dataEnd,
        stop ≤ u64Max :=
      fun f hf => sentFrames_dataEnd hf
    have start := Relay.copies_start O p
    show Relay.Copies O p r
    rcases hend with ⟨hsent, rfl⟩ | ⟨f, after, hsent, hlast⟩
    · rw [hsent] at agrees dataEnd
      exact Relay.through_copies hm start agrees dataEnd hthrough
    · rw [hsent] at agrees dataEnd
      have hq := Relay.through_copies hm start
        (fun g hg => agrees g (List.mem_append_left _ hg))
        (fun g hg => dataEnd g (List.mem_append_left _ hg)) hthrough
      have hf : f ∈ fs ++ f :: after := List.mem_append_right fs List.mem_cons_self
      have hnext := Relay.frame_copies (S := S) hm hq (agrees f hf) (dataEnd f hf)
      rcases hlast with ⟨e, he, -⟩ | ⟨code, hcode, -⟩
      · rwa [he] at hnext
      · rwa [hcode] at hnext
  · intro before f after q' st offset data hsent hbefore hf gap
    have hfails := (Relay.frame_data (S := S) hm hf).trans (Relay.writeRaw_gap q' data gap)
    rw [Relay.run_failed hsent hbefore hfails] at hrun
    cases hrun
    exact ⟨rfl, rfl⟩

/-- Two overlapping pieces and a third past a gap, on the raw wire: the client gets the first three
bytes. -/
theorem relay_forwards_contiguous_gap : ∃ r,
    Relay.run (readsExit ⟨some 0, none⟩) ⟨false, false, none⟩ 60 ⟨⟨0, .both 0⟩, .both []⟩
      [3, 0, 0, 0, 10, 0, 0, 0, 0, 0, 0, 0, 0, 1, 2,
        3, 0, 0, 0, 10, 0, 0, 0, 0, 0, 0, 0, 1, 2, 3,
        3, 0, 0, 0, 9, 0, 0, 0, 0, 0, 0, 0, 4, 5] =
      some (r, .error "broker output contains a gap at byte 3") ∧
    r.written = ⟨[1, 2, 3], []⟩ := by
  obtain ⟨r, out, hrun, -, -, hgap⟩ :=
    relay_forwards_contiguous (readsExit ⟨some 0, none⟩) ⟨false, false, none⟩ ⟨0, .both 0⟩
      (show List.length [3, 0, 0, 0, 10, 0, 0, 0, 0, 0, 0, 0, 0, 1, 2,
        3, 0, 0, 0, 10, 0, 0, 0, 0, 0, 0, 0, 1, 2, 3,
        3, 0, 0, 0, 9, 0, 0, 0, 0, 0, 0, 0, 4, 5] < 60 by decide)
  obtain ⟨rfl, rfl⟩ := hgap rfl [.stdoutData 0 [1, 2], .stdoutData 1 [2, 3]]
    (.stdoutData 4 [5]) [] _ .stdout 4 [5] rfl rfl rfl (by decide)
  exact ⟨_, hrun, rfl⟩

end Pipekeep
