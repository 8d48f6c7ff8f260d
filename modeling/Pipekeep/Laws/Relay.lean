import Pipekeep.Laws.Codec
import Pipekeep.Relay

/-!
# What the relay forwards

`RelayPositions.checks` is the relay's check over a frame sequence. A sequence that passes it, and
whose frames survive the codec, is forwarded byte for byte (`run_writeFrames`); what the check of a
sequence says of its positions and its receipts is said here once.
-/

namespace Pipekeep

variable {S : Serde} {m : RelayMode} {p q : RelayPositions} {f : Frame} {fs gs : List Frame}
  {bytes : List UInt8}

namespace RelayPositions

/-- The check of a frame sequence. -/
def checks (m : RelayMode) : RelayPositions → List Frame → Except String RelayPositions
  | p, [] => .ok p
  | p, f :: fs => (p.check m f).bind fun p => checks m p fs

theorem checks_append (m : RelayMode) (p : RelayPositions) (fs gs : List Frame) :
    p.checks m (fs ++ gs) = (p.checks m fs).bind fun p => p.checks m gs := by
  induction fs generalizing p with
  | nil => rfl
  | cons f fs ih =>
    rw [List.cons_append, checks, checks]
    cases p.check m f with
    | error e => rfl
    | ok p => exact ih p

theorem checks_append_eq_ok : p.checks m (fs ++ gs) = .ok q ↔
    ∃ r, p.checks m fs = .ok r ∧ r.checks m gs = .ok q := by
  rw [checks_append]
  cases p.checks m fs with
  | error e => exact ⟨fun h => (by cases h), fun ⟨_, h, _⟩ => (by cases h)⟩
  | ok r => exact ⟨fun h => ⟨r, rfl, h⟩, fun ⟨_, hr, h⟩ => by cases hr; exact h⟩

theorem checks_cons : p.checks m (f :: fs) = .ok q ↔
    ∃ r, p.check m f = .ok r ∧ r.checks m fs = .ok q := by
  rw [checks]
  cases p.check m f with
  | error e => exact ⟨fun h => (by cases h), fun ⟨_, h, _⟩ => (by cases h)⟩
  | ok r => exact ⟨fun h => ⟨r, rfl, h⟩, fun ⟨_, hr, h⟩ => by cases hr; exact h⟩

/-- A checked sequence grows by any frame that is checked after it. -/
theorem checks_snoc {r : RelayPositions} (h : p.checks m fs = .ok q) (hf : q.check m f = .ok r) :
    p.checks m (fs ++ [f]) = .ok r :=
  checks_append_eq_ok.mpr ⟨q, h, checks_cons.mpr ⟨r, hf, rfl⟩⟩

/-! ## One frame -/

theorem contiguous_eq_ok {st : Stream} {offset : Nat} {data : List UInt8} :
    p.contiguous st offset data = .ok q ↔ offset = p.output.get st ∧
      offset + data.length ≤ u64Max ∧
        q = { p with output := p.output.set st (offset + data.length) } := by
  unfold contiguous
  split
  · simp only [reduceCtorEq, false_iff]
    omega
  · rename_i hoffset
    rw [checkedEnd_map_eq_ok]
    constructor
    · rintro ⟨hend, rfl⟩
      exact ⟨Decidable.not_not.mp hoffset, hend, rfl⟩
    · rintro ⟨-, hend, rfl⟩
      exact ⟨hend, rfl⟩

/-- The check of a data frame, of either stream. -/
theorem check_outputData (m : RelayMode) (p : RelayPositions) (st : Stream) (offset : Nat)
    (data : List UInt8) :
    p.check m (.outputData st offset data) = p.contiguous st offset data := by
  cases st <;> rfl

theorem samePolicy_eq_ok {fact : OutputFact} {u : Unit} :
    samePolicy m fact = .ok u ↔ some fact.limit = m.outputLimit := by
  unfold samePolicy
  split
  · rename_i hne
    exact ⟨fun h => (by cases h), fun heq => absurd heq hne⟩
  · rename_i heq
    exact ⟨fun _ => Decidable.not_not.mp heq, fun _ => rfl⟩

theorem check_outputState {fact : OutputFact} :
    p.check m (.outputState fact) = .ok q ↔ some fact.limit = m.outputLimit ∧ q = p := by
  rw [check, ← samePolicy_eq_ok (u := ())]
  cases samePolicy m fact with
  | error e => exact ⟨fun h => (by cases h), fun h => (by cases h.1)⟩
  | ok u => exact ⟨fun h => ⟨rfl, by cases h; rfl⟩, fun h => h.2 ▸ rfl⟩

theorem check_outputEnd {fact : OutputFact} :
    p.check m (.outputEnd fact) = .ok q ↔ some fact.limit = m.outputLimit ∧
      (∀ st, (fact.streams.get st).retained = p.output.get st) ∧ q = p := by
  rw [check, ← samePolicy_eq_ok (u := ())]
  cases samePolicy m fact with
  | error e => exact ⟨fun h => (by cases h), fun h => (by cases h.1)⟩
  | ok u =>
    show (if _ then _ else _) = _ ↔ _
    split
    · rename_i hne
      refine ⟨fun h => (by cases h), fun h => ?_⟩
      rcases hne with hne | hne
      · exact absurd (h.2.1 .stdout) hne
      · exact absurd (h.2.1 .stderr) hne
    · rename_i heq
      refine ⟨fun h => ⟨rfl, fun st => ?_, by cases h; rfl⟩, fun h => h.2.2 ▸ rfl⟩
      cases st with
      | stdout => exact Decidable.not_not.mp fun hne => heq (.inl hne)
      | stderr => exact Decidable.not_not.mp fun hne => heq (.inr hne)

theorem check_stdinPosition {offset : Nat} :
    p.check m (.stdinPosition offset) = .ok q ↔
      p.stdin ≤ offset ∧ q = { p with stdin := offset } := by
  rw [check]
  split
  · rename_i hlt
    exact ⟨fun h => (by cases h), fun h => absurd hlt (Nat.not_lt.mpr h.1)⟩
  · rename_i hle
    exact ⟨fun h => ⟨Nat.not_lt.mp hle, by cases h; rfl⟩, fun h => h.2 ▸ rfl⟩

/-- A checked frame moves each position as its reader does, and the receipts forward. -/
theorem check_moves (h : p.check m f = .ok q) :
    (∀ st, f.advance st (p.output.get st) = some (q.output.get st)) ∧ p.stdin ≤ q.stdin := by
  have data : ∀ st offset data, p.contiguous st offset data = .ok q →
      (∀ st', (Frame.outputData st offset data).advance st' (p.output.get st') =
        some (q.output.get st')) ∧ p.stdin ≤ q.stdin := fun st offset data hq => by
    obtain ⟨hoffset, -, rfl⟩ := contiguous_eq_ok.mp hq
    refine ⟨fun st' => ?_, Nat.le_refl _⟩
    rw [Frame.advance_outputData]
    dsimp only
    by_cases heq : st = st'
    · subst heq
      rw [if_pos rfl, if_pos hoffset, PerStream.get_set_self, hoffset]
    · rw [if_neg heq, PerStream.get_set_ne _ (Ne.symm heq)]
  cases f with
  | stdoutData offset bytes => exact data .stdout offset bytes h
  | stderrData offset bytes => exact data .stderr offset bytes h
  | stdinPosition offset =>
    obtain ⟨hle, rfl⟩ := check_stdinPosition.mp h
    exact ⟨fun st => Frame.advance_of_output_none rfl st _, hle⟩
  | outputState fact =>
    obtain ⟨-, rfl⟩ := check_outputState.mp h
    exact ⟨fun st => Frame.advance_of_output_none rfl st _, Nat.le_refl _⟩
  | outputEnd fact =>
    obtain ⟨-, -, rfl⟩ := check_outputEnd.mp h
    exact ⟨fun st => Frame.advance_of_output_none rfl st _, Nat.le_refl _⟩
  | _ =>
    cases h
    exact ⟨fun st => Frame.advance_of_output_none rfl st _, Nat.le_refl _⟩

/-! ## Sequences -/

/-- The positions after a checked sequence are those of its readers. -/
theorem checks_follow (h : p.checks m fs = .ok q) (st : Stream) :
    Frame.follow st (p.output.get st) fs = some (q.output.get st) := by
  induction fs generalizing p with
  | nil =>
    cases h
    rfl
  | cons f fs ih =>
    obtain ⟨r, hr, hq⟩ := checks_cons.mp h
    rw [Frame.follow, (check_moves hr).1 st]
    exact ih hq

theorem checks_stdin (h : p.checks m fs = .ok q) : p.stdin ≤ q.stdin := by
  induction fs generalizing p with
  | nil =>
    cases h
    exact Nat.le_refl _
  | cons f fs ih =>
    obtain ⟨r, hr, hq⟩ := checks_cons.mp h
    exact Nat.le_trans (check_moves hr).2 (ih hq)

/-- Each frame of a checked sequence is checked where the frames before it lead. -/
theorem checks_mem {before after : List Frame} (h : p.checks m (before ++ f :: after) = .ok q) :
    ∃ r r', p.checks m before = .ok r ∧ r.check m f = .ok r' := by
  obtain ⟨r, hr, h⟩ := checks_append_eq_ok.mp h
  obtain ⟨r', hr', -⟩ := checks_cons.mp h
  exact ⟨r, r', hr, hr'⟩

end RelayPositions

/-! ## Forwarding -/

/-- The code of a frame sequence that ends with its transport or with its last frame. -/
def returned (fs : List Frame) : Int := (fs.getLast?.bind Frame.returns).getD 1

/-- Only the last frame of a sequence returns. -/
def ReturnsLast (fs : List Frame) : Prop :=
  ∀ before f after, fs = before ++ f :: after → f.returns.isSome = true → after = []

theorem ReturnsLast.tail (h : ReturnsLast (f :: fs)) : ReturnsLast fs :=
  fun before g after heq hg => h (f :: before) g after (by rw [heq]; rfl) hg

theorem writeFrames_cons : writeFrames S (f :: fs) = .ok bytes ↔
    ∃ b rest, writeFrame S f = .ok b ∧ writeFrames S fs = .ok rest ∧ bytes = b ++ rest := by
  rw [writeFrames]
  cases writeFrame S f with
  | error e => exact ⟨fun h => (by cases h), fun ⟨_, _, h, _⟩ => (by cases h)⟩
  | ok b =>
    cases writeFrames S fs with
    | error e => exact ⟨fun h => (by cases h), fun ⟨_, _, _, h, _⟩ => (by cases h)⟩
    | ok rest =>
      refine ⟨fun h => ⟨b, rest, rfl, rfl, by cases h; rfl⟩, ?_⟩
      rintro ⟨_, _, hb, hrest, rfl⟩
      cases hb
      cases hrest
      rfl

/-- What has a frame has bytes. -/
theorem length_writeFrames_le (h : writeFrames S fs = .ok bytes) : fs.length ≤ bytes.length := by
  induction fs generalizing bytes with
  | nil => exact Nat.zero_le _
  | cons f fs ih =>
    obtain ⟨b, rest, hb, hrest, rfl⟩ := writeFrames_cons.mp h
    obtain ⟨payload, -, -, rfl⟩ := writeFrame_eq_ok.mp hb
    have := ih hrest
    rw [List.length_cons, List.length_append, List.length_cons]
    omega

/-- **A checked sequence is forwarded whole**, and the relay returns. -/
theorem run_writeFrames (hm : m.framed = true) (hcheck : p.checks m fs = .ok q)
    (hcarries : ∀ f ∈ fs, S.Carries f)
    (hallows : ∀ f ∈ fs,
      Direction.allows (if m.outputBounded then .boundedOutput else .output) f.kind = true)
    (hlast : ReturnsLast fs) (hbytes : writeFrames S fs = .ok bytes)
    (w : PerStream (List UInt8)) (rounds : Nat) (hrounds : fs.length < rounds) :
    Relay.run S m rounds ⟨p, w⟩ bytes =
      some (⟨q, { w with stdout := w.stdout ++ bytes }⟩, .ok (returned fs)) := by
  induction fs generalizing p w bytes rounds with
  | nil =>
    cases hcheck
    cases hbytes
    cases rounds with
    | zero => cases hrounds
    | succ rounds =>
      rw [Relay.run, readFrame, List.append_nil]
      dsimp only
      rw [if_pos hm]
      rfl
  | cons f fs ih =>
    obtain ⟨r, hr, hq⟩ := RelayPositions.checks_cons.mp hcheck
    obtain ⟨b, rest, hb, hrest, rfl⟩ := writeFrames_cons.mp hbytes
    cases rounds with
    | zero => cases hrounds
    | succ rounds =>
      have hf := List.mem_cons_self (a := f) (l := fs)
      have hframe : Relay.frame S m ⟨p, w⟩ f =
          (⟨r, { w with stdout := w.stdout ++ b }⟩, .ok f.returns) := by
        unfold Relay.frame
        rw [if_pos hm]
        dsimp only
        rw [hr]
        dsimp only
        rw [hb]
      rw [Relay.run, readFrame_writeFrame (hcarries f hf) (hallows f hf) hb]
      dsimp only
      rw [hframe]
      cases hreturns : f.returns with
      | some code =>
        obtain rfl : fs = [] := hlast [] f fs rfl (by rw [hreturns]; rfl)
        cases hq
        cases hrest
        rw [List.append_nil, returned, List.getLast?_singleton, Option.bind_some, hreturns]
        rfl
      | none =>
        have hnext := ih hq (fun g hg => hcarries g (List.mem_cons_of_mem f hg))
          (fun g hg => hallows g (List.mem_cons_of_mem f hg)) hlast.tail hrest
          { w with stdout := w.stdout ++ b } rounds (Nat.lt_of_succ_lt_succ hrounds)
        dsimp only
        rw [hnext, List.append_assoc]
        have hcode : returned (f :: fs) = returned fs := by
          unfold returned
          cases fs with
          | nil => simp only [List.getLast?_singleton, Option.bind_some, hreturns, List.getLast?_nil,
              Option.bind_none]
          | cons g gs => rw [List.getLast?_cons_cons]
        rw [hcode]

end Pipekeep
