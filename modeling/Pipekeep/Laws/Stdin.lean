import Pipekeep.Stdin

/-!
# The sections of standard input, and what they keep

`Coherent` is the sticky EOF discipline of the metadata: the flag says exactly that the accepted
position is the declared end, and the position never passes the end. `Forward` is what a section
may do to it: the position moves up, a declaration stands, a reached EOF stays reached. The two
sections that can fail do so on the errors of their input and no others, and leave the metadata as
it was (`applyOpeningLocked_spec`, `declareStdinEofLocked_spec`).

`criticalSection_inv` says once what the holder's next section can do (`Critical`), guards
included. The invariants of this module and of the modules over it are case analyses of that
relation; none of them opens a section again.
-/

namespace Pipekeep.Stdin

variable {nobuffer : Bool}

/-! ## The metadata discipline -/

structure Coherent (m : Meta) : Prop where
  eof_iff : m.stdinEof = true ↔ m.stdinEofAt = some m.stdinPosition
  le_eof : ∀ e, m.stdinEofAt = some e → m.stdinPosition ≤ e

structure Forward (m m' : Meta) : Prop where
  position : m.stdinPosition ≤ m'.stdinPosition
  declared : ∀ e, m.stdinEofAt = some e → m'.stdinEofAt = some e
  eof : m.stdinEof = true → m'.stdinEof = true

/-- Metadata that stay go forward. -/
theorem Forward.refl (m : Meta) : Forward m m :=
  ⟨Nat.le_refl _, fun _ h => h, id⟩

/-- Going forward composes. -/
theorem Forward.trans {m m' m'' : Meta} (h : Forward m m') (h' : Forward m' m'') :
    Forward m m'' :=
  ⟨Nat.le_trans h.position h'.position, fun e he => h'.declared e (h.declared e he),
    fun he => h'.eof (h.eof he)⟩

/-- Moving the position up to a declared end, or below it, keeps the discipline when the flag is
set exactly at the end. -/
theorem coherent_moved {m : Meta} {position : Nat} (heof : m.stdinEof = false)
    (le : ∀ e, m.stdinEofAt = some e → position ≤ e) :
    Coherent { m with
      stdinPosition := position
      stdinEof := m.stdinEof || (m.stdinEofAt == some position) } := by
  refine ⟨?_, le⟩
  simp only [heof, Bool.false_or, beq_iff_eq]

/-- A later position goes forward. -/
theorem Forward.moved {m : Meta} {position : Nat} (le : m.stdinPosition ≤ position)
    (flag : Bool) : Forward m { m with stdinPosition := position, stdinEof := m.stdinEof || flag } :=
  ⟨le, fun _ h => h, fun h => by simp only [h, Bool.true_or]⟩

/-- The check passes exactly the ends that are not behind. -/
theorem checkBehind_eq_ok {offset position : Nat} :
    checkBehind offset position = .ok () ↔ position ≤ offset := by
  unfold checkBehind
  split
  · simp only [reduceCtorEq, false_iff]
    omega
  · simp only [true_iff]
    omega

/-- The check passes exactly the ends that agree with a declared one. -/
theorem checkDeclared_eq_ok {m : Meta} {requested : Nat} :
    checkDeclared m requested = .ok () ↔ ∀ e, m.stdinEofAt = some e → e = requested := by
  unfold checkDeclared
  cases m.stdinEofAt with
  | none => simp only [reduceCtorEq, false_implies, implies_true]
  | some existing =>
    by_cases h : existing = requested
    · simp only [ne_eq, h, not_true_eq_false, if_false, Option.some.injEq, true_iff]
      exact fun e he => he.symm
    · simp only [ne_eq, h, not_false_eq_true, if_true, reduceCtorEq, Option.some.injEq, false_iff]
      exact fun all => h (all existing rfl)

/-- An opening that begins past the accepted position, where that is not allowed. -/
def GapRefused (nobuffer : Bool) (m : Meta) (stdinStart : Nat) : Prop :=
  m.stdinPosition < stdinStart ∧
    (m.stdinEof = true ∨ nobuffer = false ∨ ∃ eof, m.stdinEofAt = some eof ∧ eof < stdinStart)

/-- An opening begins at its own start or at the accepted position, whichever is higher. -/
theorem openingPosition_spec (nobuffer : Bool) (m : Meta) (stdinStart : Nat) :
    (GapRefused nobuffer m stdinStart ∧ ∃ e, openingPosition nobuffer m stdinStart = .error e) ∨
    (¬ GapRefused nobuffer m stdinStart ∧
      openingPosition nobuffer m stdinStart = .ok (max m.stdinPosition stdinStart)) := by
  unfold openingPosition GapRefused
  split
  · rename_i ahead
    split
    · exact .inl ⟨⟨ahead, .inl ‹_›⟩, _, rfl⟩
    · rename_i isOpen
      split
      · exact .inl ⟨⟨ahead, .inr (.inl (by simpa using ‹(!nobuffer) = true›))⟩, _, rfl⟩
      · rename_i buffered
        split
        · rename_i beyond
          obtain ⟨eof, hat, hlt⟩ := (Option.any_eq_true _ _).mp beyond
          exact .inl ⟨⟨ahead, .inr (.inr ⟨eof, hat, of_decide_eq_true hlt⟩)⟩, _, rfl⟩
        · rename_i within
          refine .inr ⟨?_, by rw [Nat.max_eq_right (Nat.le_of_lt ahead)]⟩
          rintro ⟨-, heof | hbuffered | ⟨eof, hat, hlt⟩⟩
          · exact isOpen heof
          · exact buffered (by rw [hbuffered]; rfl)
          · exact within (by simpa [hat] using hlt)
  · rename_i behind
    exact .inr ⟨fun refused => behind refused.1,
      by rw [Nat.max_eq_left (Nat.le_of_not_lt behind)]⟩

/-- The checks of an opening, with the position it moves to. -/
def openingChecks (nobuffer : Bool) (m : Meta) (stdinStart : Nat) (stdinEof : Option Nat) :
    Except String Nat := do
  let position ← openingPosition nobuffer m stdinStart
  stdinEof.forM (checkDeclared m)
  (stdinEof.or m.stdinEofAt).forM fun offset => checkBehind offset position
  return position

/-- The protocol errors of an opening: a gap that is not allowed, an end in conflict with the
declaration that stands, or one, declared now or before, behind where the opening moves to. -/
def OpeningRefused (nobuffer : Bool) (m : Meta) (stdinStart : Nat) (stdinEof : Option Nat) : Prop :=
  GapRefused nobuffer m stdinStart ∨
    (∃ requested existing, stdinEof = some requested ∧ m.stdinEofAt = some existing ∧
      existing ≠ requested) ∨
    ∃ eof, stdinEof.or m.stdinEofAt = some eof ∧ eof < max m.stdinPosition stdinStart

/-- A check of an optional position holds if it does of each position there is. -/
theorem forM_eq_ok {o : Option Nat} {check : Nat → Except String Unit} :
    o.forM check = .ok () ↔ ∀ n, o = some n → check n = .ok () := by
  cases o with
  | none => exact ⟨nofun, fun _ => rfl⟩
  | some n =>
    refine ⟨fun h n' hn => ?_, fun h => h n rfl⟩
    cases hn
    exact h

/-- The checks find each of the protocol errors, and no other reason to fail. -/
theorem openingChecks_spec (nobuffer : Bool) (m : Meta) (stdinStart : Nat) (stdinEof : Option Nat) :
    (OpeningRefused nobuffer m stdinStart stdinEof ∧
      ∃ e, openingChecks nobuffer m stdinStart stdinEof = .error e) ∨
    (¬ OpeningRefused nobuffer m stdinStart stdinEof ∧
      openingChecks nobuffer m stdinStart stdinEof = .ok (max m.stdinPosition stdinStart)) := by
  unfold openingChecks
  rcases openingPosition_spec nobuffer m stdinStart with ⟨refused, e, he⟩ | ⟨ungapped, hposition⟩
  · rw [he]
    exact .inl ⟨.inl refused, e, rfl⟩
  rw [hposition]
  cases hdeclared : stdinEof.forM (checkDeclared m) with
  | error e =>
    refine .inl ⟨.inr (.inl (by_contra fun agree => ?_)), e, rfl⟩
    have hok := forM_eq_ok.mpr fun requested hr => checkDeclared_eq_ok.mpr fun existing he =>
      by_contra fun hne => agree ⟨requested, existing, hr, he, hne⟩
    exact nomatch hdeclared.symm.trans hok
  | ok _ =>
    cases hbehind : (stdinEof.or m.stdinEofAt).forM fun offset =>
        checkBehind offset (max m.stdinPosition stdinStart) with
    | error e =>
      refine .inl ⟨.inr (.inr (by_contra fun within => ?_)), e, ?_⟩
      · have hok := forM_eq_ok.mpr fun eof he => checkBehind_eq_ok.mpr
          (Nat.le_of_not_lt fun hlt => within ⟨eof, he, hlt⟩)
        exact nomatch hbehind.symm.trans hok
      · simp only [bind, Except.bind, hbehind]
    | ok _ =>
      refine .inr ⟨?_, ?_⟩
      · rintro (gap | ⟨requested, existing, hr, he, hne⟩ | ⟨eof, he, hlt⟩)
        · exact ungapped gap
        · exact hne (checkDeclared_eq_ok.mp (forM_eq_ok.mp hdeclared requested hr) existing he)
        · exact Nat.not_le_of_lt hlt (checkBehind_eq_ok.mp (forM_eq_ok.mp hbehind eof he))
      · simp only [bind, Except.bind, pure, Except.pure, hbehind]

/-- Checks under the metadata lock change nothing. -/
@[simp] theorem Locked.on_checks (m : Meta) (o : Option Nat) (check : Nat → Except String Unit) :
    (o.forM fun n => (liftM (check n) : Locked Unit)).on m = (o.forM check, m) := by
  cases o with
  | none => rfl
  | some n => exact on_check m (check n)

/-- Before an opening changes anything, all its checks have held. -/
theorem applyOpeningLocked_on (m : Meta) (stdinStart : Nat) (stdinEof : Option Nat) :
    (applyOpeningLocked nobuffer stdinStart stdinEof).on m =
      match openingChecks nobuffer m stdinStart stdinEof with
      | .error e => (.error e, m)
      | .ok position =>
        let shouldClose := stdinEof.or m.stdinEofAt == some position
        (.ok shouldClose,
          { m with
            stdinPosition := position
            stdinEofAt := m.stdinEofAt.or stdinEof
            stdinEof := m.stdinEof || shouldClose }) := by
  unfold applyOpeningLocked openingChecks
  simp only [Locked.on_bind, Locked.on_get, Locked.on_check, Locked.on_checks, Locked.on_modify,
    Locked.on_pure]
  cases openingPosition nobuffer m stdinStart with
  | error e => rfl
  | ok position =>
    cases stdinEof.forM (checkDeclared m) with
    | error e => simp only [bind, Except.bind]
    | ok _ =>
      cases hbehind : (stdinEof.or m.stdinEofAt).forM fun offset => checkBehind offset position with
      | error e => simp only [bind, Except.bind, hbehind]
      | ok _ =>
        simp only [bind, Except.bind, pure, Except.pure, hbehind]
        cases m.stdinEofAt <;> cases (stdinEof.or _ == some position) <;> simp

/-- **An opening's section**: it fails on a protocol error and leaves the metadata as it was, or the
position moves up, and the declaration and the flag are set where they are not yet. -/
theorem applyOpeningLocked_spec (nobuffer : Bool) (m : Meta) (stdinStart : Nat)
    (stdinEof : Option Nat) :
    (OpeningRefused nobuffer m stdinStart stdinEof ∧
      ∃ e, (applyOpeningLocked nobuffer stdinStart stdinEof).on m = (.error e, m)) ∨
    (¬ OpeningRefused nobuffer m stdinStart stdinEof ∧
      (applyOpeningLocked nobuffer stdinStart stdinEof).on m =
        let position := max m.stdinPosition stdinStart
        let shouldClose := stdinEof.or m.stdinEofAt == some position
        (.ok shouldClose,
          { m with
            stdinPosition := position
            stdinEofAt := m.stdinEofAt.or stdinEof
            stdinEof := m.stdinEof || shouldClose })) := by
  rw [applyOpeningLocked_on]
  rcases openingChecks_spec nobuffer m stdinStart stdinEof with ⟨refused, e, he⟩ | ⟨accepted, hok⟩
  · rw [he]
    exact .inl ⟨refused, e, rfl⟩
  · rw [hok]
    exact .inr ⟨accepted, rfl⟩

/-- An opening that fails has changed nothing. -/
theorem applyOpeningLocked_error {m m' : Meta} {stdinStart : Nat} {stdinEof : Option Nat}
    {e : String} (h : (applyOpeningLocked nobuffer stdinStart stdinEof).on m = (.error e, m')) :
    m' = m := by
  rcases applyOpeningLocked_spec nobuffer m stdinStart stdinEof with ⟨_, e', he⟩ | ⟨_, hok⟩
  · cases he.symm.trans h
    rfl
  · cases hok.symm.trans h

/-- What an accepted opening does to the metadata. -/
theorem applyOpeningLocked_eq_ok {m m' : Meta} {stdinStart : Nat} {stdinEof : Option Nat}
    {shouldClose : Bool} (hc : Coherent m)
    (h : (applyOpeningLocked nobuffer stdinStart stdinEof).on m = (.ok shouldClose, m')) :
    Coherent m' ∧ Forward m m' ∧ shouldClose = m'.stdinEof ∧
      (∀ n, stdinEof = some n → m'.stdinEofAt = some n) ∧
      (nobuffer = false → m'.stdinPosition = m.stdinPosition) := by
  rcases applyOpeningLocked_spec nobuffer m stdinStart stdinEof with ⟨_, _, he⟩ | ⟨accepted, hok⟩
  · cases he.symm.trans h
  cases hok.symm.trans h
  have ungapped : ¬ GapRefused nobuffer m stdinStart := fun gap => accepted (.inl gap)
  -- the standing declaration and the requested one never disagree
  have agree : ∀ n, stdinEof = some n → ∀ e, m.stdinEofAt = some e → e = n := fun n hn e he =>
    by_contra fun hne => accepted (.inr (.inl ⟨n, e, hn, he, hne⟩))
  have heffective : m.stdinEofAt.or stdinEof = stdinEof.or m.stdinEofAt := by
    cases hr : stdinEof with
    | none => cases m.stdinEofAt <;> rfl
    | some n =>
      cases he : m.stdinEofAt with
      | none => rfl
      | some e => rw [agree n hr e he]
  have within : ∀ e, stdinEof.or m.stdinEofAt = some e → max m.stdinPosition stdinStart ≤ e :=
    fun e he => Nat.le_of_not_lt fun hlt => accepted (.inr (.inr ⟨e, he, hlt⟩))
  -- an EOF already reached leaves no room for a jump, so it is found reached again
  have reached : m.stdinEof = true →
      (stdinEof.or m.stdinEofAt == some (max m.stdinPosition stdinStart)) = true := by
    intro heof
    have hstay : max m.stdinPosition stdinStart = m.stdinPosition :=
      Nat.max_eq_left (Nat.le_of_not_lt fun ahead => ungapped ⟨ahead, .inl heof⟩)
    rw [← heffective, hc.eof_iff.mp heof, hstay]
    simp only [Option.some_or, beq_self_eq_true]
  have hflag : (m.stdinEof ||
        (stdinEof.or m.stdinEofAt == some (max m.stdinPosition stdinStart))) =
      (stdinEof.or m.stdinEofAt == some (max m.stdinPosition stdinStart)) := by
    cases heof : m.stdinEof with
    | false => rfl
    | true => rw [reached heof]; rfl
  refine ⟨⟨?_, ?_⟩, ⟨Nat.le_max_left _ _, ?_, ?_⟩, ?_, ?_, ?_⟩
  · show (m.stdinEof || (stdinEof.or m.stdinEofAt == some _)) = true ↔
      m.stdinEofAt.or stdinEof = some _
    rw [hflag, heffective, beq_iff_eq]
  · intro e he
    exact within e (heffective ▸ he)
  · intro e he
    show m.stdinEofAt.or stdinEof = some e
    rw [he, Option.some_or]
  · intro heof
    show (m.stdinEof || _) = true
    rw [heof, Bool.true_or]
  · exact hflag.symm
  · intro n hn
    show m.stdinEofAt.or stdinEof = some n
    rw [heffective, hn, Option.some_or]
  · intro hnb
    exact Nat.max_eq_left (Nat.le_of_not_lt fun ahead => ungapped ⟨ahead, .inr (.inl hnb)⟩)

/-- The protocol errors of a declaration: behind the accepted position, or in conflict with a
declaration that stands. -/
def EofRefused (m : Meta) (offset : Nat) : Prop :=
  offset < m.stdinPosition ∨ ∃ eof, m.stdinEofAt = some eof ∧ eof ≠ offset

/-- **A declaration's section**: it fails on a protocol error and leaves the metadata as it was, or
the end is declared, and the flag set if it is reached. -/
theorem declareStdinEofLocked_spec (m : Meta) (offset : Nat) :
    (EofRefused m offset ∧ ∃ e, (declareStdinEofLocked offset).on m = (.error e, m)) ∨
    (¬ EofRefused m offset ∧ (declareStdinEofLocked offset).on m =
      (.ok (decide (offset = m.stdinPosition)),
        { m with
          stdinEofAt := some offset
          stdinEof := m.stdinEof || decide (offset = m.stdinPosition) })) := by
  unfold declareStdinEofLocked EofRefused
  simp only [Locked.on_bind, Locked.on_get, Locked.on_check]
  by_cases behind : offset < m.stdinPosition
  · rw [checkBehind, if_pos behind]
    exact .inl ⟨.inl behind, _, rfl⟩
  rw [checkBehind_eq_ok.mpr (Nat.le_of_not_lt behind)]
  cases hat : m.stdinEofAt with
  | none =>
    refine .inr ⟨fun refused => refused.elim behind nofun, ?_⟩
    simp only [Locked.on_bind, Locked.on_modify, Locked.on_pure, beq_eq_decide]
    cases decide (offset = m.stdinPosition) <;> simp
  | some existing =>
    simp only [Locked.on_bind, Locked.on_check, Locked.on_modify, Locked.on_pure, beq_eq_decide]
    by_cases conflict : existing = offset
    · subst conflict
      rw [checkDeclared_eq_ok.mpr fun e he => Option.some.inj (he.symm.trans hat)]
      refine .inr ⟨?_, ?_⟩
      · rintro (refused | ⟨eof, heq, hne⟩)
        · exact behind refused
        · exact hne (Option.some.inj heq).symm
      · cases decide (existing = m.stdinPosition) <;> simp [← hat]
    · rw [checkDeclared, hat]
      simp only [ne_eq, conflict, not_false_eq_true, if_true]
      exact .inl ⟨.inr ⟨existing, rfl, conflict⟩, _, rfl⟩

/-- A declaration that fails has changed nothing. -/
theorem declareStdinEofLocked_error {m m' : Meta} {offset : Nat} {e : String}
    (h : (declareStdinEofLocked offset).on m = (.error e, m')) : m' = m := by
  rcases declareStdinEofLocked_spec m offset with ⟨_, e', he⟩ | ⟨_, hok⟩
  · cases he.symm.trans h
    rfl
  · cases hok.symm.trans h

/-- What an accepted declaration does to the metadata. -/
theorem declareStdinEofLocked_eq_ok {m m' : Meta} {offset : Nat} {shouldClose : Bool}
    (hc : Coherent m) (h : (declareStdinEofLocked offset).on m = (.ok shouldClose, m')) :
    Coherent m' ∧ Forward m m' ∧ shouldClose = m'.stdinEof ∧
      m'.stdinEofAt = some offset ∧ m'.stdinPosition = m.stdinPosition := by
  rcases declareStdinEofLocked_spec m offset with ⟨_, _, he⟩ | ⟨accepted, hok⟩
  · cases he.symm.trans h
  cases hok.symm.trans h
  have hle : m.stdinPosition ≤ offset := Nat.le_of_not_lt fun behind => accepted (.inl behind)
  have agree : ∀ e, m.stdinEofAt = some e → e = offset := fun e he =>
    by_contra fun hne => accepted (.inr ⟨e, he, hne⟩)
  have hflag : (m.stdinEof || decide (offset = m.stdinPosition)) =
      decide (offset = m.stdinPosition) := by
    cases heof : m.stdinEof with
    | false => rfl
    | true => rw [decide_eq_true (agree _ (hc.eof_iff.mp heof)).symm]; rfl
  refine ⟨⟨?_, ?_⟩, ⟨Nat.le_refl _, fun e he => ?_, fun heof => ?_⟩, hflag.symm, rfl, rfl⟩
  · show (m.stdinEof || _) = true ↔ some offset = some m.stdinPosition
    rw [hflag, decide_eq_true_iff, Option.some.injEq]
  · rintro e he
    cases he
    exact hle
  · show some offset = some e
    rw [agree e he]
  · show (m.stdinEof || _) = true
    rw [heof, Bool.true_or]

/-- What an accepted frame knows about its unaccepted part. -/
structure FrameStart (nobuffer : Bool) (m : Meta) (offset dataLen start logical : Nat) : Prop where
  isOpen : m.stdinEof = false
  start_eq : start = min (m.stdinPosition - offset) dataLen
  logical_eq : logical = max m.stdinPosition offset
  gapless : nobuffer = false → offset ≤ m.stdinPosition
  no_overflow : offset + dataLen ≤ u64Max ∧ logical + (dataLen - start) ≤ u64Max
  within : ∀ e, m.stdinEofAt = some e → logical + (dataLen - start) ≤ e

/-- An accepted frame knows its unaccepted part. -/
theorem stdinFrameStartLocked_eq_ok {m : Meta} {offset dataLen start logical : Nat}
    (h : stdinFrameStartLocked m offset dataLen nobuffer = .ok (start, logical)) :
    FrameStart nobuffer m offset dataLen start logical := by
  unfold stdinFrameStartLocked at h
  split at h
  · cases h
  rename_i hend
  split at h
  · cases h
  rename_i hopen
  split at h
  · cases h
  rename_i hgap
  dsimp only at h
  split at h
  · cases h
  rename_i hover
  split at h
  · cases h
  rename_i hwithin
  cases h
  refine ⟨by simpa using hopen, rfl, rfl, fun hnb => ?_, ⟨by omega, by omega⟩, fun e he => ?_⟩
  · simpa [hnb] using hgap
  · simpa [he] using hwithin

/-! ## What a section can do -/

/-- The EOF an operation declares. -/
def Op.declares : Op → Option Nat
  | .opening _ _ stdinEof => stdinEof
  | .eof _ offset => some offset
  | .control offset => some offset
  | _ => none

/-- The section went through: neither an error nor a loss of authority. -/
def Stage.succeeded : Stage → Bool
  | .superseded => false
  | .failed _ => false
  | _ => true

/-- **What the holder's next section can do**, from the stage it stands at to the next one. -/
inductive Critical (nobuffer : Bool) (s : State) (op : Op) : Stage → State → Stage → Prop
  | superseded {g : Nat} : op.generation = some g → s.attachment.isCurrent g = false →
      Critical nobuffer s op .start s .superseded
  | failed (e : String) : Critical nobuffer s op .start s (.failed e)
  | idle {stage : Stage} : op.declares = none → stage ≠ .close →
      Critical nobuffer s op .start s stage
  /-- The metadata moves without input; an open pipe is dropped at once or in the next section. -/
  | moved {m : Meta} {childStdin : Bool} {stage : Stage} : Coherent m → Forward s.metadata m →
      (nobuffer = false → m.stdinPosition = s.metadata.stdinPosition) →
      (∀ n, op.declares = some n → m.stdinEofAt = some n) →
      (childStdin = s.childStdin ∧ stage = (if m.stdinEof then .close else .done) ∨
        childStdin = (s.childStdin && !m.stdinEof) ∧ stage = .publish m.stdinPosition false) →
      Critical nobuffer s op .start { s with metadata := m, childStdin := childStdin } stage
  /-- The pipe accepts `count` bytes of a frame, from the first one it has not been given. -/
  | wrote {g offset start logical count : Nat} {bytes : List UInt8} {m : Meta} :
      op = .data g offset bytes → s.childStdin = true →
      FrameStart nobuffer s.metadata offset bytes.length start logical →
      0 < count → count ≤ bytes.length - start →
      m.stdinPosition = logical + count → Coherent m → Forward s.metadata m →
      Critical nobuffer s op .start
        { s with
          metadata := m
          childStdin := !m.stdinEof
          received := s.received ++ Slice.tag logical ((bytes.drop start).take count) }
        (.publish (logical + count) (!m.stdinEof))
  | reaped : op = .reap → Critical nobuffer s op .start { s with childStdin := false } .done
  | closed : Critical nobuffer s op .close { s with childStdin := false } .done
  | published {g position : Nat} {again : Bool} : op.generation = some g →
      Critical nobuffer s op (.publish position again) (publishReceipt s g position)
        (if again then .start else .done)

/-- The section of an opening is one of the critical steps. -/
private theorem openingSection_inv {s t : State} {g stdinStart : Nat} {stdinEof : Option Nat}
    {stage : Stage} (hc : Coherent s.metadata)
    (h : openingSection nobuffer s g stdinStart stdinEof = (t, stage)) :
    Critical nobuffer s (.opening g stdinStart stdinEof) .start t stage := by
  unfold openingSection at h
  cases hcur : s.attachment.isCurrent g with
  | false =>
    rw [hcur] at h
    cases h
    exact .superseded rfl hcur
  | true =>
    simp only [hcur, if_true] at h
    rcases hm : (applyOpeningLocked nobuffer stdinStart stdinEof).on s.metadata with
      ⟨e | shouldClose, m⟩
    · rw [hm, applyOpeningLocked_error hm] at h
      cases h
      exact .failed _
    · obtain ⟨hcm, hf, rfl, hdecl, hpos⟩ := applyOpeningLocked_eq_ok hc hm
      rw [hm] at h
      cases h
      show Critical _ _ _ _ { s with metadata := m, childStdin := s.childStdin } _
      exact .moved hcm hf hpos hdecl (.inl ⟨rfl, rfl⟩)

/-- The section of an empty frame is one of the critical steps. -/
private theorem emptySection_inv {s t : State} {g offset : Nat} {stage : Stage}
    (hc : Coherent s.metadata) (h : emptySection nobuffer s g offset = (t, stage)) :
    Critical nobuffer s (.data g offset []) .start t stage := by
  unfold emptySection at h
  cases hcur : s.attachment.isCurrent g with
  | false =>
    rw [hcur] at h
    cases h
    exact .superseded rfl hcur
  | true =>
    simp only [hcur, if_true] at h
    split at h
    · cases h
      exact .failed _
    · rename_i hm
      have hstart := stdinFrameStartLocked_eq_ok hm
      cases h
      have hlogical := hstart.logical_eq
      generalize hp : (if offset > s.metadata.stdinPosition && nobuffer then offset
        else s.metadata.stdinPosition) = position
      have hle : s.metadata.stdinPosition ≤ position := by
        rw [← hp]; split
        · rename_i ahead
          simp only [gt_iff_lt, Bool.and_eq_true, decide_eq_true_eq] at ahead
          omega
        · exact Nat.le_refl _
      have hwithin : ∀ e, s.metadata.stdinEofAt = some e → position ≤ e := by
        intro e he
        have := hstart.within e he
        rw [← hp]; split
        · omega
        · exact hc.le_eof e he
      refine .moved (coherent_moved hstart.isOpen hwithin) (.moved hle _) (fun hnb => ?_) nofun
        (.inr ⟨?_, rfl⟩)
      · show position = _
        rw [← hp, hnb]
        simp only [Bool.and_false, Bool.false_eq_true, if_false]
      · simp only [hstart.isOpen, Bool.false_or]

/-- The section of a polled write is one of the critical steps. -/
private theorem pollSection_inv {s t : State} {g offset : Nat} {bytes : List UInt8} {poll : Poll}
    {stage : Stage} (h : pollSection nobuffer s g offset bytes poll = some (t, stage)) :
    Critical nobuffer s (.data g offset bytes) .start t stage := by
  unfold pollSection at h
  cases hcur : s.attachment.isCurrent g with
  | false =>
    rw [hcur] at h
    cases h
    exact .superseded rfl hcur
  | true =>
    simp only [hcur, if_true] at h
    split at h
    · cases h
      exact .failed _
    · rename_i start logical hm
      have hstart := stdinFrameStartLocked_eq_ok hm
      split at h
      · cases h
        exact .idle rfl nofun
      rename_i hlt
      split at h
      · cases h
        exact .idle rfl nofun
      rename_i hstdin
      have hopen : s.childStdin = true := by simpa using hstdin
      cases poll with
      | pending =>
        cases h
        exact .idle rfl nofun
      | error =>
        cases h
        exact .failed _
      | wrote count =>
        cases count with
        | zero =>
          cases h
          exact .failed _
        | succ count =>
          simp only at h
          split at h
          · rename_i hcount
            cases h
            have hlogical := hstart.logical_eq
            have hwithin : ∀ e, s.metadata.stdinEofAt = some e → logical + (count + 1) ≤ e := by
              intro e he
              have := hstart.within e he
              omega
            have hm' := coherent_moved hstart.isOpen hwithin
            have hw : Critical nobuffer s (.data g offset bytes) .start _ _ :=
              .wrote rfl hopen hstart (Nat.succ_pos count) hcount rfl hm' (.moved (by omega) _)
            simp only [hstart.isOpen, Bool.false_or] at hw ⊢
            exact hw
          · cases h

/-- The section of an EOF frame is one of the critical steps. -/
private theorem eofSection_inv {s t : State} {g offset : Nat} {stage : Stage}
    (hc : Coherent s.metadata) (h : eofSection s g offset = (t, stage)) :
    Critical nobuffer s (.eof g offset) .start t stage := by
  unfold eofSection at h
  cases hcur : s.attachment.isCurrent g with
  | false =>
    rw [hcur] at h
    cases h
    exact .superseded rfl hcur
  | true =>
    simp only [hcur, if_true] at h
    rcases hm : (declareStdinEofLocked offset).on s.metadata with ⟨e | shouldClose, m⟩
    · rw [hm, declareStdinEofLocked_error hm] at h
      cases h
      exact .failed _
    · obtain ⟨hcm, hf, rfl, hat, hpos⟩ := declareStdinEofLocked_eq_ok hc hm
      rw [hm] at h
      cases h
      refine .moved hcm hf (fun _ => hpos) (fun n hn => ?_) (.inr ⟨rfl, rfl⟩)
      cases hn
      exact hat

/-- The section of a control request is one of the critical steps. -/
private theorem controlSection_inv {s t : State} {offset : Nat} {stage : Stage}
    (hc : Coherent s.metadata) (h : controlSection s offset = (t, stage)) :
    Critical nobuffer s (.control offset) .start t stage := by
  unfold controlSection at h
  rcases hm : (declareStdinEofLocked offset).on s.metadata with ⟨e | shouldClose, m⟩
  · rw [hm, declareStdinEofLocked_error hm] at h
    cases h
    exact .failed _
  · obtain ⟨hcm, hf, rfl, hat, hpos⟩ := declareStdinEofLocked_eq_ok hc hm
    rw [hm] at h
    cases h
    show Critical _ _ _ _ { s with metadata := m, childStdin := s.childStdin } _
    refine .moved hcm hf (fun _ => hpos) (fun n hn => ?_) (.inl ⟨rfl, rfl⟩)
    cases hn
    exact hat

/-- The section inversion: every case of the source's five operations, in one relation. -/
theorem criticalSection_inv {s t : State} {op : Op} {poll : Poll} {stage stage' : Stage}
    (hc : Coherent s.metadata)
    (h : criticalSection nobuffer s op poll stage = some (t, stage')) :
    Critical nobuffer s op stage t stage' := by
  cases stage with
  | start =>
    cases op with
    | opening g stdinStart stdinEof => exact openingSection_inv hc (Option.some.inj h)
    | data g offset bytes =>
      cases bytes with
      | nil => exact emptySection_inv hc (Option.some.inj h)
      | cons b bs => exact pollSection_inv h
    | eof g offset => exact eofSection_inv hc (Option.some.inj h)
    | control offset => exact controlSection_inv hc (Option.some.inj h)
    | reap =>
      cases h
      exact .reaped rfl
  | close =>
    cases h
    exact .closed
  | publish position again =>
    simp only [criticalSection] at h
    split at h
    · rename_i g hg
      cases h
      exact .published hg
    · cases h
  | done => cases h
  | superseded => cases h
  | failed e => cases h

end Pipekeep.Stdin
