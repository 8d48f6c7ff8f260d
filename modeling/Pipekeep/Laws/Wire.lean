import Pipekeep.Laws.Codec
import Pipekeep.Serde

/-!
# The codec is exact

Sequences of frames on a wire, in both directions: what was written is read back up to its end, a
wire that is cut gives the frames before the cut and then its clean end or an error, and what the
reader accepts is what the writer writes of it.

Of serde this asks the texts it writes, and that it reads back the exits and facts at hand.
-/

namespace Pipekeep

open BigEndian

variable {S : Serde} {d : Direction} {f : Frame} {fs : List Frame}
  {payload bytes rest input : List UInt8} {offset kind : Nat}

/-- So many runs of `read_frame`, each of which has to find a frame, and what is left. -/
def readFrames (S : Serde) (d : Direction) :
    Nat → List UInt8 → Except String (List Frame × List UInt8)
  | 0, input => .ok ([], input)
  | count + 1, input => do
    match ← readFrame S d input with
    | none => .error "early eof"
    | some (f, rest) =>
      let (fs, rest) ← readFrames S d count rest
      return (f :: fs, rest)

theorem readFrames_cons {count : Nat} {left : List UInt8}
    (h : readFrame S d input = .ok (some (f, rest)))
    (hrest : readFrames S d count rest = .ok (fs, left)) :
    readFrames S d (count + 1) input = .ok (f :: fs, left) := by
  simp only [readFrames, h, hrest, bind, Except.bind]
  rfl

/-! ## What is written -/

/-- Positions and counts fit their types, and what a frame reports is valid. -/
def Frame.Sound : Frame → Prop
  | .stdinEof offset | .stdinPosition offset => offset ≤ u64Max
  | .exit status => status.validate = .ok ()
  | .outputState fact => fact.Typed ∧ fact.validate false = .ok ()
  | .outputEnd fact => fact.Typed ∧ fact.validate true = .ok ()
  | _ => True

/-- What serde makes of an exit and of a fact, as far as frames go. -/
structure Serde.RoundTrips (S : Serde) (fs : List Frame) : Prop where
  writesExit : ∀ status, S.exitToVec status = toVec status.toJson
  writesFact : ∀ fact, S.factToVec fact = toVec fact.toJson
  exit : ∀ status, .exit status ∈ fs → S.exitFromSlice (S.exitToVec status) = .ok status
  fact : ∀ fact, .outputState fact ∈ fs ∨ .outputEnd fact ∈ fs →
    S.factFromSlice (S.factToVec fact) = .ok fact

theorem Serde.RoundTrips.tail (h : S.RoundTrips (f :: fs)) : S.RoundTrips fs where
  writesExit := h.writesExit
  writesFact := h.writesFact
  exit status hmem := h.exit status (List.mem_cons_of_mem _ hmem)
  fact fact hmem := h.fact fact (hmem.imp (List.mem_cons_of_mem _) (List.mem_cons_of_mem _))

/-- The reader takes sound frames back. -/
theorem Serde.RoundTrips.carries (h : S.RoundTrips fs) (hf : f ∈ fs) (sound : f.Sound) :
    S.Carries f := by
  have lengths : ∀ fact : OutputFact, fact.Typed →
      1 ≤ (S.factToVec fact).length ∧ (S.factToVec fact).length ≤ 4096 := by
    intro fact typed
    rw [h.writesFact, length_toVec]
    exact ⟨length_toJson_pos fact, typed.length_toJson_le⟩
  cases f with
  | stdinData => trivial
  | stdoutData => trivial
  | stderrData => trivial
  | stdinEof => exact sound
  | stdinPosition => exact sound
  | exit status =>
    have hlength := length_exit_le sound
    refine ⟨h.exit status hf, sound, ?_, ?_⟩
    · rw [h.writesExit, length_toVec]
      exact Nat.succ_le_succ (Nat.zero_le _)
    · rw [h.writesExit, length_toVec]
      omega
  | outputState fact => exact ⟨h.fact fact (.inl hf), sound.2, lengths fact sound.1⟩
  | outputEnd fact => exact ⟨h.fact fact (.inr hf), sound.2, lengths fact sound.1⟩

theorem writeFrames_cons_ok (h : writeFrames S (f :: fs) = .ok bytes) : ∃ first rest,
    writeFrame S f = .ok first ∧ writeFrames S fs = .ok rest ∧ bytes = first ++ rest := by
  rw [writeFrames] at h
  obtain ⟨first, hfirst, h⟩ := bind_eq_ok.mp h
  obtain ⟨rest, hrest, h⟩ := bind_eq_ok.mp h
  cases h
  exact ⟨first, rest, hfirst, hrest, rfl⟩

/-- **What is written is read back**, and the reader leaves what follows. -/
theorem readFrames_writeFrames (hserde : S.RoundTrips fs) (sound : ∀ f ∈ fs, f.Sound)
    (allowed : ∀ f ∈ fs, d.allows f.kind = true) (h : writeFrames S fs = .ok bytes)
    (rest : List UInt8) : readFrames S d fs.length (bytes ++ rest) = .ok (fs, rest) := by
  induction fs generalizing bytes with
  | nil =>
    cases h
    rfl
  | cons f fs ih =>
    obtain ⟨first, more, hfirst, hmore, rfl⟩ := writeFrames_cons_ok h
    have hmem : f ∈ f :: fs := List.mem_cons_self
    rw [List.append_assoc]
    apply readFrames_cons
    · exact readFrame_writeFrame (hserde.carries hmem (sound f hmem)) (allowed f hmem) hfirst _
    · apply ih hserde.tail _ _ hmore
      · intro g hg
        exact sound g (List.mem_cons_of_mem _ hg)
      · intro g hg
        exact allowed g (List.mem_cons_of_mem _ hg)

/-! ## What is cut -/

theorem readExact_short {count : Nat} (h : input.length < count) :
    ∃ e, readExact count input = .error e := by
  unfold readExact
  rw [if_neg (by omega)]
  exact ⟨_, rfl⟩

/-- A frame that is cut is an error, unless nothing of it is there. -/
theorem readFrame_cut (h : writeFrame S f = .ok bytes) {cut : Nat} (some : 0 < cut)
    (short : cut < bytes.length) : ∃ e, readFrame S d (bytes.take cut) = .error e := by
  obtain ⟨payload, -, hsize, rfl⟩ := writeFrame_eq_ok.mp h
  obtain ⟨cut, rfl⟩ := Nat.exists_eq_succ_of_ne_zero (Nat.ne_of_gt some)
  have hlength : (toBytes 4 payload.length ++ payload).length = 4 + payload.length := by
    rw [List.length_append, length_toBytes]
  rw [List.length_cons, hlength] at short
  rw [List.take_succ_cons, readFrame]
  by_cases hheader : cut < 4
  · have hshort : ((toBytes 4 payload.length ++ payload).take cut).length < 4 := by
      rw [List.length_take]
      omega
    obtain ⟨e, he⟩ := readExact_short hshort
    rw [he]
    exact ⟨e, rfl⟩
  · have hfour : readExact 4 ((toBytes 4 payload.length ++ payload).take cut) =
        .ok (toBytes 4 payload.length, payload.take (cut - 4)) := by
      have hsplit : (toBytes 4 payload.length ++ payload).take cut =
          toBytes 4 payload.length ++ payload.take (cut - 4) := by
        rw [List.take_append, List.take_of_length_le (by rw [length_toBytes]; omega),
          length_toBytes]
      have hread := readExact_append (toBytes 4 payload.length) (payload.take (cut - 4))
      rwa [length_toBytes, ← hsplit] at hread
    have hcount : ofBytes (toBytes 4 payload.length) = payload.length :=
      ofBytes_toBytes_of_lt (Nat.lt_of_le_of_lt hsize (by decide))
    have hshort : (payload.take (cut - 4)).length < payload.length := by
      rw [List.length_take]
      omega
    obtain ⟨e, he⟩ := readExact_short hshort
    simp only [hfour, hcount, bind, Except.bind, he]
    cases validateHeader (UInt8.ofNat f.kind).toNat payload.length d with
    | error e' => exact ⟨e', rfl⟩
    | ok _ => exact ⟨e, rfl⟩

/-- What a reader makes of a wire of frames `fs` that ends at `cut`: it reads the first `count` of
them, which lie wholly before the cut, and ends there or inside the next one. -/
structure CutRead (S : Serde) (d : Direction) (fs : List Frame) (wire : List UInt8)
    (cut count : Nat) (before left : List UInt8) : Prop where
  written : writeFrames S (fs.take count) = .ok before
  whole : before.length ≤ cut
  next : ∀ f, fs[count]? = some f →
    ∃ bytes, writeFrame S f = .ok bytes ∧ cut < before.length + bytes.length
  read : readFrames S d count (wire.take cut) = .ok (fs.take count, left)
  clean : cut = before.length → readFrame S d left = .ok none
  torn : cut ≠ before.length → ∃ e, readFrame S d left = .error e

/-- **A wire that is cut** anywhere. -/
theorem readFrames_cut (hserde : S.RoundTrips fs) (sound : ∀ f ∈ fs, f.Sound)
    (allowed : ∀ f ∈ fs, d.allows f.kind = true) (h : writeFrames S fs = .ok bytes) {cut : Nat}
    (inside : cut ≤ bytes.length) : ∃ count before left,
      count ≤ fs.length ∧ CutRead S d fs bytes cut count before left := by
  induction fs generalizing bytes cut with
  | nil =>
    cases h
    obtain rfl : cut = 0 := Nat.le_zero.mp inside
    refine ⟨0, [], [], Nat.le_refl 0, rfl, Nat.le_refl 0, ?_, rfl, fun _ => rfl, ?_⟩
    · intro g hg
      cases hg
    · intro hne
      exact absurd rfl hne
  | cons f fs ih =>
    obtain ⟨first, more, hfirst, hmore, rfl⟩ := writeFrames_cons_ok h
    have hmem : f ∈ f :: fs := List.mem_cons_self
    rw [List.length_append] at inside
    by_cases hcut : cut < first.length
    · -- The first frame is torn, or nothing is there.
      refine ⟨0, [], first.take cut, Nat.zero_le _, rfl, Nat.zero_le _, ?_, ?_, ?_, ?_⟩
      · intro g hg
        cases hg
        exact ⟨first, hfirst, by rw [List.length_nil, Nat.zero_add]; exact hcut⟩
      · rw [List.take_append_of_le_length (Nat.le_of_lt hcut)]
        rfl
      · rintro rfl
        rfl
      · intro hne
        exact readFrame_cut hfirst (Nat.pos_of_ne_zero hne) hcut
    · obtain ⟨count, before, left, hcount, hread⟩ := ih hserde.tail
        (fun g hg => sound g (List.mem_cons_of_mem _ hg))
        (fun g hg => allowed g (List.mem_cons_of_mem _ hg)) hmore
        (show cut - first.length ≤ more.length by omega)
      have hwhole := hread.whole
      have hlength : (first ++ before).length = first.length + before.length := List.length_append
      refine ⟨count + 1, first ++ before, left, Nat.succ_le_succ hcount, ?_, ?_, ?_, ?_, ?_, ?_⟩
      · rw [List.take_succ_cons, writeFrames, hfirst, hread.written]
        rfl
      · omega
      · intro g hg
        obtain ⟨bytes, hbytes, hnext⟩ := hread.next g hg
        exact ⟨bytes, hbytes, by omega⟩
      · rw [List.take_append, List.take_of_length_le (Nat.le_of_not_lt hcut), List.take_succ_cons]
        apply readFrames_cons
        · exact readFrame_writeFrame (hserde.carries hmem (sound f hmem)) (allowed f hmem) hfirst _
        · exact hread.read
      · intro heq
        exact hread.clean (by omega)
      · intro hne
        exact hread.torn (by omega)

/-! ## What is accepted -/

theorem readExact_eq_ok {count : Nat} {xs left : List UInt8}
    (h : readExact count input = .ok (xs, left)) : input = xs ++ left ∧ xs.length = count := by
  unfold readExact at h
  split at h
  · cases h
    refine ⟨(List.take_append_drop count input).symm, ?_⟩
    rw [List.length_take]
    omega
  · cases h

/-- A header that passes bounds the payload. -/
theorem validateHeader_size {length : Nat} (h : validateHeader kind length d = .ok ()) :
    length ≤ maxFrame := by
  have passed : ∀ {valid : Bool} {e : String},
      (if valid = true then Except.ok () else .error e) = .ok () → valid = true := by
    intro valid e hok
    cases valid with
    | true => rfl
    | false => cases hok
  have hsmall : 4096 ≤ maxFrame := by decide
  unfold validateHeader at h
  dsimp only at h
  split at h
  · cases h
  · -- The largest length of each kind.
    split at h
    all_goals
      have hvalid := passed h
      simp only [Bool.and_eq_true, decide_eq_true_eq, beq_iff_eq, Bool.false_eq_true] at hvalid
    all_goals omega

/-- An accepted frame is its header and a payload that was parsed. -/
theorem readFrame_eq_ok (h : readFrame S d input = .ok (some (f, rest))) :
    ∃ kind payload, input = kind :: (toBytes 4 payload.length ++ payload) ++ rest ∧
      payload.length ≤ maxFrame ∧ parseFrame S kind.toNat payload = .ok f := by
  cases input with
  | nil => cases h
  | cons kind input =>
    rw [readFrame] at h
    obtain ⟨⟨header, input'⟩, hheader, h⟩ := bind_eq_ok.mp h
    obtain ⟨_, hvalid, h⟩ := bind_eq_ok.mp h
    obtain ⟨⟨payload, left⟩, hread, h⟩ := bind_eq_ok.mp h
    obtain ⟨g, hparse, h⟩ := bind_eq_ok.mp h
    cases h
    obtain ⟨rfl, hfour⟩ := readExact_eq_ok hheader
    obtain ⟨rfl, hcount⟩ := readExact_eq_ok hread
    have hheader : toBytes 4 payload.length = header := by
      rw [hcount, ← hfour, toBytes_ofBytes]
    refine ⟨kind, payload, ?_, ?_, hparse⟩
    · rw [hheader, List.cons_append, List.append_assoc]
    · rw [hcount]
      exact validateHeader_size hvalid

theorem onlyOffset_eq_ok (h : onlyOffset payload = .ok offset) : payload = toBytes 8 offset := by
  unfold onlyOffset at h
  split at h
  · cases h
  · rename_i hlength
    cases h
    rw [← Decidable.not_not.mp hlength, toBytes_ofBytes]

/-- A payload that is split is the one that the writer joins. -/
theorem splitOffset_eq_ok {data : List UInt8} (h : splitOffset payload = .ok (offset, data)) :
    offset + data.length ≤ u64Max ∧ payload = toBytes 8 offset ++ data := by
  unfold splitOffset checkedEnd at h
  dsimp only at h
  split at h
  · cases h
  · rename_i hlength
    split at h
    · rename_i hend
      cases h
      have height : (payload.take 8).length = 8 := by
        rw [List.length_take]
        omega
      have hoffset := toBytes_ofBytes (payload.take 8)
      rw [height] at hoffset
      rw [hoffset, List.take_append_drop, List.length_drop]
      exact ⟨hend, rfl⟩
    · cases h

/-- Where the data of a data frame ends. -/
def Frame.dataEnd : Frame → Option Nat
  | .stdinData offset data | .stdoutData offset data | .stderrData offset data =>
    some (offset + data.length)
  | _ => none

/-- A payload of the first five kinds is the one that the writer makes of its frame, and a data
frame ends within the positions. -/
theorem parseFrame_eq_ok (h : parseFrame S kind payload = .ok f)
    (size : payload.length ≤ maxFrame) :
    f.kind = kind ∧ (kind ≤ 5 → framePayload S f = .ok payload) ∧
      ∀ stop ∈ f.dataEnd, stop ≤ u64Max := by
  have data : ∀ {offset : Nat} {data : List UInt8}, splitOffset payload = .ok (offset, data) →
      offsetPayload offset data = .ok payload ∧
        ∀ stop ∈ some (offset + data.length), stop ≤ u64Max := by
    intro offset data hsplit
    obtain ⟨hend, rfl⟩ := splitOffset_eq_ok hsplit
    rw [List.length_append, length_toBytes] at size
    refine ⟨offsetPayload_eq_ok.mpr ⟨by omega, hend, rfl⟩, fun stop hstop => ?_⟩
    cases hstop
    exact hend
  unfold parseFrame at h
  split at h
  · obtain ⟨p, hsplit, rfl⟩ := map_eq_ok.mp h
    exact ⟨rfl, fun _ => (data hsplit).1, (data hsplit).2⟩
  · obtain ⟨offset, honly, rfl⟩ := map_eq_ok.mp h
    exact ⟨rfl, fun _ => congrArg _ (onlyOffset_eq_ok honly).symm, nofun⟩
  · obtain ⟨p, hsplit, rfl⟩ := map_eq_ok.mp h
    exact ⟨rfl, fun _ => (data hsplit).1, (data hsplit).2⟩
  · obtain ⟨p, hsplit, rfl⟩ := map_eq_ok.mp h
    exact ⟨rfl, fun _ => (data hsplit).1, (data hsplit).2⟩
  · obtain ⟨offset, honly, rfl⟩ := map_eq_ok.mp h
    exact ⟨rfl, fun _ => congrArg _ (onlyOffset_eq_ok honly).symm, nofun⟩
  · obtain ⟨status, -, h⟩ := bind_eq_ok.mp h
    obtain ⟨_, -, h⟩ := bind_eq_ok.mp h
    cases h
    exact ⟨rfl, fun hno => absurd hno (by omega), nofun⟩
  · obtain ⟨fact, -, h⟩ := bind_eq_ok.mp h
    obtain ⟨_, -, h⟩ := bind_eq_ok.mp h
    cases h
    exact ⟨rfl, fun hno => absurd hno (by omega), nofun⟩
  · obtain ⟨fact, -, h⟩ := bind_eq_ok.mp h
    obtain ⟨_, -, h⟩ := bind_eq_ok.mp h
    cases h
    exact ⟨rfl, fun hno => absurd hno (by omega), nofun⟩
  · cases h

/-- **What is accepted is what is written**: an accepted frame of the first five kinds is encoded to
the bytes it was read from. -/
theorem writeFrame_readFrame (h : readFrame S d input = .ok (some (f, rest))) (kind : f.kind ≤ 5) :
    ∃ bytes, writeFrame S f = .ok bytes ∧ input = bytes ++ rest := by
  obtain ⟨head, payload, rfl, hsize, hparse⟩ := readFrame_eq_ok h
  obtain ⟨hkind, hpayload, -⟩ := parseFrame_eq_ok hparse hsize
  have hhead : UInt8.ofNat f.kind = head := by
    rw [hkind, UInt8.ofNat_toNat]
  refine ⟨_, writeFrame_eq_ok.mpr ⟨payload, hpayload (hkind ▸ kind), hsize, rfl⟩, ?_⟩
  rw [hhead]

/-- **The codec is exact.** Frames that their direction allows, that are sound and that the writer
takes are read back, whatever follows; a wire of them that is cut anywhere gives the frames wholly
before the cut, and then its clean end or an error. Whatever bytes the reader accepts as one of the
first five kinds are what the writer makes of the frame, and no data frame it accepts ends past the
last position. -/
theorem codec_exact (hserde : S.RoundTrips fs) (sound : ∀ f ∈ fs, f.Sound)
    (allowed : ∀ f ∈ fs, d.allows f.kind = true) (h : writeFrames S fs = .ok bytes) :
    (∀ rest, readFrames S d fs.length (bytes ++ rest) = .ok (fs, rest)) ∧
    (∀ cut ≤ bytes.length, ∃ count before left,
      count ≤ fs.length ∧ CutRead S d fs bytes cut count before left) ∧
    ∀ d input f rest, readFrame S d input = .ok (some (f, rest)) →
      (f.kind ≤ 5 → ∃ bytes, writeFrame S f = .ok bytes ∧ input = bytes ++ rest) ∧
      ∀ stop ∈ f.dataEnd, stop ≤ u64Max := by
  refine ⟨fun rest => ?_, fun cut hcut => ?_, fun d input f rest hread => ⟨fun hkind => ?_, ?_⟩⟩
  · exact readFrames_writeFrames hserde sound allowed h rest
  · exact readFrames_cut hserde sound allowed h hcut
  · exact writeFrame_readFrame hread hkind
  · obtain ⟨_, payload, -, hsize, hparse⟩ := readFrame_eq_ok hread
    exact (parseFrame_eq_ok hparse hsize).2.2

/-- A serde that reads one exit. -/
def readsExit (status : ExitResult) : Serde where
  exitToVec status := toVec status.toJson
  exitFromSlice bytes := if bytes = toVec status.toJson then .ok status else .error "another exit"
  factToVec fact := toVec fact.toJson
  factFromSlice _ := .error "not an exit"

private theorem readsExit_reads (status : ExitResult) :
    (readsExit status).exitFromSlice ((readsExit status).exitToVec status) = .ok status :=
  if_pos rfl

/-- Two bytes of output and an exit with 0. -/
def shortRun : List Frame := [.stdoutData 5 [1, 2], .exit ⟨some 0, none⟩]

private theorem readsExit_roundTrips : (readsExit ⟨some 0, none⟩).RoundTrips shortRun where
  writesExit _ := rfl
  writesFact _ := rfl
  exit status hmem := by
    simp only [shortRun, List.mem_cons, reduceCtorEq, Frame.exit.injEq, List.not_mem_nil, false_or,
      or_false] at hmem
    subst hmem
    exact readsExit_reads _
  fact fact hmem := by
    simp only [shortRun, List.mem_cons, reduceCtorEq, List.not_mem_nil, or_self] at hmem

theorem codec_exact_exit : ∃ bytes, writeFrames (readsExit ⟨some 0, none⟩) shortRun = .ok bytes ∧
    bytes.length = 30 ∧
    readFrames (readsExit ⟨some 0, none⟩) .output 2 (bytes ++ [9]) = .ok (shortRun, [9]) ∧
    ∃ count before left, count ≤ 2 ∧
      CutRead (readsExit ⟨some 0, none⟩) .output shortRun bytes 17 count before left := by
  have sound : ∀ f ∈ shortRun, f.Sound := by
    simp only [shortRun, List.forall_mem_cons, List.not_mem_nil, IsEmpty.forall_iff, implies_true]
    exact ⟨trivial, rfl, trivial⟩
  have allowed : ∀ f ∈ shortRun, Direction.output.allows f.kind = true := by decide
  obtain ⟨hread, hcut, -⟩ := codec_exact readsExit_roundTrips sound allowed
    (show writeFrames _ shortRun = .ok _ from rfl)
  exact ⟨_, rfl, rfl, hread [9], hcut 17 (by decide)⟩

end Pipekeep
