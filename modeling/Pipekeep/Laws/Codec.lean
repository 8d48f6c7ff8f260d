import Pipekeep.Codec

/-!
# Frames survive the codec

The writer's and the reader's checks agree: a frame that the writer accepts and the direction
allows is read back, and the reader stops where it ends. Of serde this asks only that it reads back
what it wrote, for the frame at hand.
-/

namespace Pipekeep

open BigEndian

variable {S : Serde} {d : Direction} {f : Frame} {payload bytes rest : List UInt8} {offset : Nat}

/-! ## Pieces -/

theorem readExact_append (xs rest : List UInt8) :
    readExact xs.length (xs ++ rest) = .ok (xs, rest) := by
  unfold readExact
  rw [if_pos (by rw [List.length_append]; omega), List.take_left, List.drop_left]

/-- A position is read back. -/
theorem ofBytes_position (h : offset ≤ u64Max) : ofBytes (toBytes 8 offset) = offset :=
  ofBytes_toBytes_of_lt (Nat.lt_of_le_of_lt h (by decide))

theorem onlyOffset_toBytes (h : offset ≤ u64Max) : onlyOffset (toBytes 8 offset) = .ok offset := by
  rw [onlyOffset, if_neg (fun hne => hne (length_toBytes 8 offset)), ofBytes_position h]

theorem offsetPayload_eq_ok {data : List UInt8} :
    offsetPayload offset data = .ok payload ↔ data.length ≤ maxFrame - 8 ∧
      offset + data.length ≤ u64Max ∧ payload = toBytes 8 offset ++ data := by
  unfold offsetPayload
  split
  · simp only [reduceCtorEq, false_iff]
    omega
  · rename_i hsize
    rw [checkedEnd_map_eq_ok]
    constructor
    · rintro ⟨hend, rfl⟩
      exact ⟨Nat.le_of_not_lt hsize, hend, rfl⟩
    · rintro ⟨-, hend, rfl⟩
      exact ⟨hend, rfl⟩

/-- A data payload is split where it was joined. -/
theorem splitOffset_payload {data : List UInt8} (h : offset + data.length ≤ u64Max) :
    splitOffset (toBytes 8 offset ++ data) = .ok (offset, data) := by
  have hlength : (toBytes 8 offset ++ data).length = 8 + data.length := by
    rw [List.length_append, length_toBytes]
  have htake : (toBytes 8 offset ++ data).take 8 = toBytes 8 offset :=
    List.take_left' (length_toBytes 8 offset)
  have hdrop : (toBytes 8 offset ++ data).drop 8 = data :=
    List.drop_left' (length_toBytes 8 offset)
  unfold splitOffset checkedEnd
  dsimp only
  rw [if_neg (by omega), htake, hdrop, ofBytes_position (by omega), hlength,
    if_pos (by omega)]
  rfl

/-! ## What serde is asked for -/

/-- A frame that the reader takes back from its payload: its position is a `u64`, and what serde
writes of its fact is read back, is valid and has a length that the header allows. -/
def Serde.Carries (S : Serde) : Frame → Prop
  | .stdinEof offset | .stdinPosition offset => offset ≤ u64Max
  | .exit status => S.exitFromSlice (S.exitToVec status) = .ok status ∧ status.validate = .ok () ∧
      1 ≤ (S.exitToVec status).length ∧ (S.exitToVec status).length ≤ 256
  | .outputState fact => S.factFromSlice (S.factToVec fact) = .ok fact ∧
      fact.validate false = .ok () ∧
      1 ≤ (S.factToVec fact).length ∧ (S.factToVec fact).length ≤ 4096
  | .outputEnd fact => S.factFromSlice (S.factToVec fact) = .ok fact ∧
      fact.validate true = .ok () ∧
      1 ≤ (S.factToVec fact).length ∧ (S.factToVec fact).length ≤ 4096
  | _ => True

/-- The reader makes the frame of its payload. -/
theorem parse_payload (hf : S.Carries f) (h : framePayload S f = .ok payload) :
    parseFrame S f.kind payload = .ok f := by
  cases f with
  | stdinData offset data =>
    obtain ⟨-, hend, rfl⟩ := offsetPayload_eq_ok.mp h
    rw [Frame.kind, parseFrame, splitOffset_payload hend]
    rfl
  | stdinEof offset =>
    cases h
    rw [Frame.kind, parseFrame, onlyOffset_toBytes hf]
    rfl
  | stdoutData offset data =>
    obtain ⟨-, hend, rfl⟩ := offsetPayload_eq_ok.mp h
    rw [Frame.kind, parseFrame, splitOffset_payload hend]
    rfl
  | stderrData offset data =>
    obtain ⟨-, hend, rfl⟩ := offsetPayload_eq_ok.mp h
    rw [Frame.kind, parseFrame, splitOffset_payload hend]
    rfl
  | stdinPosition offset =>
    cases h
    rw [Frame.kind, parseFrame, onlyOffset_toBytes hf]
    rfl
  | exit status =>
    cases h
    rw [Frame.kind, parseFrame, hf.1]
    show (status.validate).bind _ = _
    rw [hf.2.1]
    rfl
  | outputState fact =>
    cases h
    rw [Frame.kind, parseFrame, hf.1]
    show (fact.validate false).bind _ = _
    rw [hf.2.1]
    rfl
  | outputEnd fact =>
    cases h
    rw [Frame.kind, parseFrame, hf.1]
    show (fact.validate true).bind _ = _
    rw [hf.2.1]
    rfl

/-- The reader lets the header of a frame pass that the writer lets pass. -/
theorem validateHeader_payload (hf : S.Carries f) (hd : d.allows f.kind = true)
    (h : framePayload S f = .ok payload) (hsize : payload.length ≤ maxFrame) :
    validateHeader f.kind payload.length d = .ok () := by
  have data : ∀ {offset : Nat} {data : List UInt8}, offsetPayload offset data = .ok payload →
      (decide (8 ≤ payload.length) && decide (payload.length ≤ maxFrame)) = true := fun hp => by
    obtain ⟨-, -, rfl⟩ := offsetPayload_eq_ok.mp hp
    rw [decide_eq_true hsize, List.length_append, length_toBytes, Bool.and_true]
    exact decide_eq_true (Nat.le_add_right _ _)
  unfold validateHeader
  rw [if_neg (by rw [hd]; decide)]
  dsimp only
  refine if_pos ?_
  cases f with
  | stdinData offset bytes => exact data h
  | stdinEof offset =>
    cases h
    rfl
  | stdoutData offset bytes => exact data h
  | stderrData offset bytes => exact data h
  | stdinPosition offset =>
    cases h
    rfl
  | exit status =>
    cases h
    exact (Bool.and_eq_true _ _).mpr ⟨decide_eq_true hf.2.2.1, decide_eq_true hf.2.2.2⟩
  | outputState fact =>
    cases h
    exact (Bool.and_eq_true _ _).mpr ⟨decide_eq_true hf.2.2.1, decide_eq_true hf.2.2.2⟩
  | outputEnd fact =>
    cases h
    exact (Bool.and_eq_true _ _).mpr ⟨decide_eq_true hf.2.2.1, decide_eq_true hf.2.2.2⟩

theorem writeFrame_eq_ok : writeFrame S f = .ok bytes ↔ ∃ payload,
    framePayload S f = .ok payload ∧ payload.length ≤ maxFrame ∧
      bytes = UInt8.ofNat f.kind :: (toBytes 4 payload.length ++ payload) := by
  unfold writeFrame
  cases framePayload S f with
  | error e =>
    refine ⟨fun h => (by cases h), ?_⟩
    rintro ⟨_, h, -⟩
    cases h
  | ok payload =>
    show (if payload.length > maxFrame then _ else _) = _ ↔ _
    split
    · refine ⟨fun h => (by cases h), ?_⟩
      rintro ⟨_, hp, hle, -⟩
      cases hp
      omega
    · refine ⟨fun h => ?_, ?_⟩
      · cases h
        exact ⟨payload, rfl, by omega, rfl⟩
      · rintro ⟨_, hp, -, rfl⟩
        cases hp
        rfl

theorem kind_toNat (f : Frame) : (UInt8.ofNat f.kind).toNat = f.kind := by
  cases f <;> rfl

/-- **A frame that is written is read back**, up to its end. -/
theorem readFrame_writeFrame (hf : S.Carries f) (hd : d.allows f.kind = true)
    (h : writeFrame S f = .ok bytes) (rest : List UInt8) :
    readFrame S d (bytes ++ rest) = .ok (some (f, rest)) := by
  obtain ⟨payload, hpayload, hsize, rfl⟩ := writeFrame_eq_ok.mp h
  have hlength : ofBytes (toBytes 4 payload.length) = payload.length :=
    ofBytes_toBytes_of_lt (Nat.lt_of_le_of_lt hsize (by decide))
  have hheader : readExact 4 (toBytes 4 payload.length ++ payload ++ rest) =
      .ok (toBytes 4 payload.length, payload ++ rest) := by
    have := readExact_append (toBytes 4 payload.length) (payload ++ rest)
    rwa [length_toBytes, ← List.append_assoc] at this
  simp only [List.cons_append, readFrame, hheader, hlength, kind_toNat, bind, Except.bind,
    validateHeader_payload hf hd hpayload hsize, readExact_append, parse_payload hf hpayload]
  rfl

end Pipekeep
