import Pipekeep.Laws.StdinRuns

/-!
# One stdin frame: refused as a whole, or accepted to its end

A data frame is checked again before each of its polls, on a position its own writes have moved.
`frameStart_spec` puts the check in closed form: `FrameRefused` speaks of the frame's last byte, so
its answer does not change while the frame is being accepted (`Part.not_refused`). From there the
run of one frame is an induction over its sections: `Part` is what it has delivered so far and
`Progress` what each stage knows.

The holder keeps the `child_stdin` lock over the run, so nobody else moves the position, the
declared end or the pipe meanwhile (`step_elsewhere`).
-/

namespace Pipekeep.Stdin

variable {nobuffer : Bool}

/-! ## The check, in closed form -/

/-- The protocol errors of a data frame: an offset overflow, data after a reached end, a gap in a
buffered session, data beyond the declared end. -/
def FrameRefused (nobuffer : Bool) (m : Meta) (offset dataLen : Nat) : Prop :=
  u64Max < max m.stdinPosition (offset + dataLen) ∨
    m.stdinEof = true ∨
    (nobuffer = false ∧ m.stdinPosition < offset) ∨
    ∃ eof, m.stdinEofAt = some eof ∧ eof < max m.stdinPosition (offset + dataLen)

/-- The end the check computes is the frame's, or the position when that is past it. -/
theorem frameEnd_eq (position offset dataLen : Nat) :
    max position offset + (dataLen - min (position - offset) dataLen) =
      max position (offset + dataLen) := by
  omega

/-- **The check.** It refuses a frame exactly for its protocol errors, and else says where the
unaccepted bytes start. -/
theorem frameStart_spec (nobuffer : Bool) (m : Meta) (offset dataLen : Nat) :
    (FrameRefused nobuffer m offset dataLen ∧
      ∃ e, stdinFrameStartLocked m offset dataLen nobuffer = .error e) ∨
    (¬ FrameRefused nobuffer m offset dataLen ∧
      stdinFrameStartLocked m offset dataLen nobuffer =
        .ok (min (m.stdinPosition - offset) dataLen, max m.stdinPosition offset)) := by
  unfold stdinFrameStartLocked FrameRefused
  dsimp only
  rw [frameEnd_eq]
  split
  · rename_i overflow
    exact .inl ⟨.inl (by omega), _, rfl⟩
  split
  · rename_i reached
    exact .inl ⟨.inr (.inl reached), _, rfl⟩
  rename_i unreached
  split
  · rename_i gap
    simp only [gt_iff_lt, Bool.and_eq_true, decide_eq_true_eq, Bool.not_eq_true'] at gap
    exact .inl ⟨.inr (.inr (.inl ⟨gap.2, gap.1⟩)), _, rfl⟩
  rename_i gapless
  split
  · rename_i overflow
    exact .inl ⟨.inl overflow, _, rfl⟩
  rename_i inside
  split
  · rename_i beyond
    obtain ⟨eof, hat, hlt⟩ := Option.any_eq_true .. |>.mp beyond
    exact .inl ⟨.inr (.inr (.inr ⟨eof, hat, by simpa using hlt⟩)), _, rfl⟩
  rename_i within
  refine .inr ⟨?_, rfl⟩
  rintro (overflow | reached | ⟨hnb, gap⟩ | ⟨eof, hat, hlt⟩)
  · exact inside overflow
  · exact unreached reached
  · exact gapless (by simp only [hnb, gt_iff_lt, gap, decide_true, Bool.not_false, Bool.and_self])
  · refine within ?_
    rw [hat]
    simpa only [Option.any_some, gt_iff_lt, decide_eq_true_eq] using hlt

/-- The errors of the pipe itself, which may come after a part of the frame. -/
def pipeErrors : List String := ["command stdin write failed", "command stdin closed"]

/-! ## What a frame has delivered -/

/-- The bytes of a frame above the accepted position. -/
def unaccepted (m : Meta) (offset : Nat) (bytes : List UInt8) : List UInt8 :=
  bytes.drop (m.stdinPosition - offset)

theorem length_unaccepted (m : Meta) (offset : Nat) (bytes : List UInt8) :
    (unaccepted m offset bytes).length = bytes.length - (m.stdinPosition - offset) :=
  List.length_drop ..

/-- The child has the first `k` unaccepted bytes of the frame that started in `s`, and the position
and the pipe say so. -/
structure Part (nobuffer : Bool) (s : State) (offset : Nat) (bytes : List UInt8) (k : Nat)
    (t : State) : Prop where
  le : k ≤ (unaccepted s.metadata offset bytes).length
  received : t.received = s.received ++
    Slice.tag (max s.metadata.stdinPosition offset) ((unaccepted s.metadata offset bytes).take k)
  untouched : k = 0 → t.metadata = s.metadata ∧ t.childStdin = s.childStdin
  moved : 0 < k → ¬ FrameRefused nobuffer s.metadata offset bytes.length ∧
    t.metadata = { s.metadata with
      stdinPosition := max s.metadata.stdinPosition offset + k
      stdinEof := s.metadata.stdinEofAt == some (max s.metadata.stdinPosition offset + k) } ∧
    t.childStdin = !t.metadata.stdinEof

/-- Everything above the old position was written, and the position is past the frame. -/
structure Complete (s : State) (offset : Nat) (bytes : List UInt8) (t : State) : Prop where
  position : t.metadata.stdinPosition = max s.metadata.stdinPosition (offset + bytes.length)
  received : t.received = s.received ++
    Slice.tag (max s.metadata.stdinPosition offset) (unaccepted s.metadata offset bytes)
  declared : t.metadata.stdinEofAt = s.metadata.stdinEofAt

/-- The child, the position and the EOF state are those of `s`. -/
structure Unchanged (s t : State) : Prop where
  metadata : t.metadata = s.metadata
  received : t.received = s.received
  childStdin : t.childStdin = s.childStdin

theorem Part.zero (s : State) (offset : Nat) (bytes : List UInt8) :
    Part nobuffer s offset bytes 0 s :=
  ⟨Nat.zero_le _, by rw [List.take_zero, Slice.tag, List.append_nil], fun _ => ⟨rfl, rfl⟩,
    fun h => absurd h (Nat.lt_irrefl 0)⟩

section

variable {s t : State} {offset k : Nat} {bytes : List UInt8}

theorem Part.unchanged (h : Part nobuffer s offset bytes 0 t) : Unchanged s t := by
  obtain ⟨hm, hc⟩ := h.untouched rfl
  refine ⟨hm, ?_, hc⟩
  rw [h.received, List.take_zero, Slice.tag, List.append_nil]

/-- Where the next poll starts: the declared end is the one of the start, and the position is past
the part. -/
theorem Part.next (h : Part nobuffer s offset bytes k t) :
    t.metadata.stdinEofAt = s.metadata.stdinEofAt ∧
      max t.metadata.stdinPosition offset = max s.metadata.stdinPosition offset + k ∧
      t.metadata.stdinPosition - offset = s.metadata.stdinPosition - offset + k := by
  rcases Nat.eq_zero_or_pos k with rfl | hk
  · rw [(h.untouched rfl).1]
    exact ⟨rfl, rfl, rfl⟩
  · rw [(h.moved hk).2.1]
    exact ⟨rfl, by dsimp only; omega, by dsimp only; omega⟩

/-- **The check survives the loop.** A frame with an accepted part, short of the declared end, is
not refused later. -/
theorem Part.not_refused (h : Part nobuffer s offset bytes k t) (hk : 0 < k)
    (short : t.metadata.stdinEof = false) :
    ¬ FrameRefused nobuffer t.metadata offset bytes.length := by
  obtain ⟨accepted, hm, _⟩ := h.moved hk
  have hle := h.le
  rw [length_unaccepted] at hle
  have hend : max t.metadata.stdinPosition (offset + bytes.length) =
      max s.metadata.stdinPosition (offset + bytes.length) := by
    rw [hm]
    dsimp only
    omega
  rintro (overflow | reached | ⟨_, gap⟩ | ⟨eof, hat, hlt⟩)
  · exact accepted (.inl (hend ▸ overflow))
  · rw [short] at reached
    cases reached
  · rw [hm] at gap
    dsimp only at gap
    omega
  · rw [h.next.1] at hat
    exact accepted (.inr (.inr (.inr ⟨eof, hat, hend ▸ hlt⟩)))

theorem Part.complete (h : Part nobuffer s offset bytes k t) (nonempty : bytes ≠ [])
    (all : (unaccepted s.metadata offset bytes).length ≤ k) : Complete s offset bytes t := by
  have hlen : 0 < bytes.length := List.length_pos_iff.mpr nonempty
  have hle := h.le
  have hlast : (unaccepted s.metadata offset bytes).take k = unaccepted s.metadata offset bytes :=
    List.take_of_length_le all
  refine ⟨?_, hlast ▸ h.received, h.next.1⟩
  rw [length_unaccepted] at all hle
  rcases Nat.eq_zero_or_pos k with rfl | hk
  · rw [(h.untouched rfl).1]
    omega
  · rw [(h.moved hk).2.1]
    dsimp only
    omega

/-- A poll that takes `count` more bytes extends the part. -/
theorem Part.write (h : Part nobuffer s offset bytes k t) {u : State} {count : Nat}
    (accepted : ¬ FrameRefused nobuffer s.metadata offset bytes.length)
    (short : t.metadata.stdinEof = false) (hcount : 0 < count)
    (hle : k + count ≤ (unaccepted s.metadata offset bytes).length)
    (hm : u.metadata = { t.metadata with
      stdinPosition := max s.metadata.stdinPosition offset + (k + count)
      stdinEof := t.metadata.stdinEof ||
        (t.metadata.stdinEofAt == some (max s.metadata.stdinPosition offset + (k + count))) })
    (hr : u.received = t.received ++
      Slice.tag (max s.metadata.stdinPosition offset + k)
        (((unaccepted s.metadata offset bytes).drop k).take count))
    (hc : u.childStdin = !u.metadata.stdinEof) :
    Part nobuffer s offset bytes (k + count) u := by
  have hbase : { t.metadata with
      stdinPosition := s.metadata.stdinPosition, stdinEof := s.metadata.stdinEof } = s.metadata := by
    rcases Nat.eq_zero_or_pos k with rfl | hk
    · rw [(h.untouched rfl).1]
    · rw [(h.moved hk).2.1]
  refine ⟨hle, ?_, fun hzero => by omega, fun _ => ⟨accepted, ?_, hc⟩⟩
  · have htake : ((unaccepted s.metadata offset bytes).take k).length = k := by
      rw [List.length_take]
      omega
    rw [hr, h.received, List.append_assoc, List.take_add, Slice.tag_append, htake]
  · rw [hm, short, Bool.false_or, h.next.1, ← hbase]

end

/-! ## The sections of one frame -/

/-- What each stage of the frame's operation knows of the state it started in. -/
def Progress (nobuffer : Bool) (s : State) (offset : Nat) (bytes : List UInt8) (t : State) :
    Stage → Prop
  | .start | .publish _ true =>
    ∃ k, Part nobuffer s offset bytes k t ∧ (0 < k → t.metadata.stdinEof = false)
  | .publish _ false => Complete s offset bytes t
  | .done => Complete s offset bytes t ∨
      (s.childStdin = false ∧ unaccepted s.metadata offset bytes ≠ [] ∧ Unchanged s t)
  | .failed e =>
    (FrameRefused nobuffer s.metadata offset bytes.length ∧ Unchanged s t) ∨
      (¬ FrameRefused nobuffer s.metadata offset bytes.length ∧ e ∈ pipeErrors)
  | .superseded => True
  | .close => False

variable {s t u : State} {g offset : Nat} {bytes : List UInt8} {stage : Stage}

/-- What a stage knows is about the metadata, the pipe and the child's bytes. -/
theorem Progress.congr (h : Progress nobuffer s offset bytes t stage)
    (same : Unchanged t u) : Progress nobuffer s offset bytes u stage := by
  obtain ⟨hm, hr, hc⟩ := same
  have part : ∀ k, Part nobuffer s offset bytes k t → Part nobuffer s offset bytes k u := by
    rintro k ⟨hle, hrec, hzero, hmoved⟩
    exact ⟨hle, hr ▸ hrec, by rw [hm, hc]; exact hzero, by rw [hm, hc]; exact hmoved⟩
  have complete : Complete s offset bytes t → Complete s offset bytes u := by
    rintro ⟨hpos, hrec, hat⟩
    exact ⟨hm ▸ hpos, hr ▸ hrec, hm ▸ hat⟩
  have unchanged : Unchanged s t → Unchanged s u := by
    rintro ⟨hm', hr', hc'⟩
    exact ⟨hm.trans hm', hr.trans hr', hc.trans hc'⟩
  cases stage with
  | start =>
    obtain ⟨k, hp, short⟩ := h
    exact ⟨k, part k hp, hm ▸ short⟩
  | publish position again =>
    cases again with
    | true =>
      obtain ⟨k, hp, short⟩ := h
      exact ⟨k, part k hp, hm ▸ short⟩
    | false => exact complete h
  | done => exact h.imp complete fun ⟨closed, rest, same⟩ => ⟨closed, rest, unchanged same⟩
  | failed e => exact h.imp (And.imp_right unchanged) id
  | superseded => trivial
  | close => exact h

/-- The frame was accepted from the start. -/
theorem Part.accepted_start {k : Nat} (h : Part nobuffer s offset bytes k t)
    (accepted : ¬ FrameRefused nobuffer t.metadata offset bytes.length) :
    ¬ FrameRefused nobuffer s.metadata offset bytes.length := by
  rcases Nat.eq_zero_or_pos k with rfl | hk
  · exact (h.untouched rfl).1 ▸ accepted
  · exact (h.moved hk).1

/-- A poll that the pipe answers with a count: the frame polls again, unless its last byte has
reached the declared end. -/
theorem Part.wrote {k count : Nat} (h : Part nobuffer s offset bytes k t) (nonempty : bytes ≠ [])
    (accepted : ¬ FrameRefused nobuffer s.metadata offset bytes.length)
    (hopen : t.metadata.stdinEof = false) (positive : 0 < count)
    (fits : count ≤ bytes.length - (s.metadata.stdinPosition - offset + k)) {position : Nat}
    (hposition : position = max s.metadata.stdinPosition offset + k + count) {reached : Bool}
    (hreached : (t.metadata.stdinEofAt == some position) = reached) :
    Progress nobuffer s offset bytes { t with
      metadata := { t.metadata with
        stdinPosition := position, stdinEof := t.metadata.stdinEof || reached }
      childStdin := !reached
      received := t.received ++ Slice.tag (max s.metadata.stdinPosition offset + k)
        ((bytes.drop (s.metadata.stdinPosition - offset + k)).take count) }
      (.publish position (!reached)) := by
  subst hposition
  have hlen := length_unaccepted s.metadata offset bytes
  have hat := h.next.1
  have hpart : Part nobuffer s offset bytes (k + count) { t with
      metadata := { t.metadata with
        stdinPosition := max s.metadata.stdinPosition offset + k + count
        stdinEof := t.metadata.stdinEof || reached }
      childStdin := !reached
      received := t.received ++ Slice.tag (max s.metadata.stdinPosition offset + k)
        ((bytes.drop (s.metadata.stdinPosition - offset + k)).take count) } := by
    apply h.write accepted hopen positive (by omega)
    · rw [← hreached, Nat.add_assoc]
    · rw [unaccepted, List.drop_drop]
    · simp only [hopen, Bool.false_or]
  cases reached with
  | false =>
    refine ⟨_, hpart, fun _ => ?_⟩
    simp only [hopen, Bool.or_false]
  | true =>
    -- the declared end is reached with the frame's last byte
    refine hpart.complete nonempty ?_
    rw [beq_iff_eq, hat] at hreached
    have within : ∀ eof, s.metadata.stdinEofAt = some eof →
        max s.metadata.stdinPosition (offset + bytes.length) ≤ eof := fun eof he =>
      Nat.le_of_not_lt fun hlt => accepted (.inr (.inr (.inr ⟨eof, he, hlt⟩)))
    have hend := within _ hreached
    omega

/-- One poll of a frame with data. -/
theorem poll_progress (nonempty : bytes ≠ []) {poll : Poll}
    (h : Progress nobuffer s offset bytes t .start)
    (hs : pollSection nobuffer t g offset bytes poll = some (u, stage)) :
    Progress nobuffer s offset bytes u stage := by
  obtain ⟨k, hp, short⟩ := h
  unfold pollSection at hs
  split at hs
  · rcases frameStart_spec nobuffer t.metadata offset bytes.length with
      ⟨refused, e, he⟩ | ⟨accepted, hok⟩
    · -- only the first poll can be refused
      rw [he] at hs
      cases hs
      rcases Nat.eq_zero_or_pos k with rfl | hk
      · exact .inl ⟨(hp.untouched rfl).1 ▸ refused, hp.unchanged⟩
      · exact absurd refused (hp.not_refused hk (short hk))
    · obtain ⟨hat, hlogical, hstart⟩ := hp.next
      have hlen := length_unaccepted s.metadata offset bytes
      have hopen : t.metadata.stdinEof = false := by
        rw [← Bool.not_eq_true]
        exact fun reached => accepted (.inr (.inl reached))
      have accepted₀ := hp.accepted_start accepted
      rw [hok] at hs
      dsimp only at hs
      split at hs
      · rename_i past
        cases hs
        exact hp.complete nonempty (by omega)
      rename_i ahead
      split at hs
      · -- the pipe is closed during the frame only at its end
        rename_i closed
        cases hs
        have closed : t.childStdin = false := by simpa using closed
        rcases Nat.eq_zero_or_pos k with rfl | hk
        · refine .inr ⟨(hp.untouched rfl).2 ▸ closed, ?_, hp.unchanged⟩
          exact List.ne_nil_of_length_pos (by omega)
        · rw [(hp.moved hk).2.2, hopen] at closed
          cases closed
      cases poll with
      | pending =>
        cases hs
        exact ⟨k, hp, short⟩
      | error =>
        cases hs
        exact .inr ⟨accepted₀, by simp [pipeErrors]⟩
      | wrote count =>
        cases count with
        | zero =>
          cases hs
          exact .inr ⟨accepted₀, by simp [pipeErrors]⟩
        | succ count =>
          simp only at hs
          split at hs
          · rename_i hcount
            have hmin : min (t.metadata.stdinPosition - offset) bytes.length =
                s.metadata.stdinPosition - offset + k := by
              omega
            rw [hlogical, hmin] at hs
            rw [hmin] at hcount
            cases hs
            exact hp.wrote nonempty accepted₀ hopen (Nat.succ_pos count) hcount rfl rfl
          · cases hs
  · cases hs
    trivial

/-- The one section of a frame without data. -/
theorem empty_progress (h : Progress nobuffer s offset [] t .start)
    (hs : emptySection nobuffer t g offset = (u, stage)) :
    Progress nobuffer s offset [] u stage := by
  obtain ⟨k, hp, -⟩ := h
  obtain rfl : k = 0 :=
    Nat.le_zero.mp (by simpa only [unaccepted, List.drop_nil, List.length_nil] using hp.le)
  obtain ⟨hm, hr, hc⟩ := hp.unchanged
  unfold emptySection at hs
  split at hs
  · rcases frameStart_spec nobuffer t.metadata offset 0 with
      ⟨refused, e, he⟩ | ⟨accepted, hok⟩
    · rw [he] at hs
      cases hs
      exact .inl ⟨hm ▸ refused, hm, hr, hc⟩
    · rw [hok] at hs
      cases hs
      refine ⟨?_, ?_, (congrArg Meta.stdinEofAt hm :)⟩
      · -- a gap that was not refused is one of a no-buffer session
        have gapless : nobuffer = false → offset ≤ t.metadata.stdinPosition := fun hnb =>
          Nat.le_of_not_lt fun gap => accepted (.inr (.inr (.inl ⟨hnb, gap⟩)))
        show (if _ then _ else _) = max s.metadata.stdinPosition (offset + 0)
        rw [← hm]
        cases nobuffer with
        | false =>
          have hle := gapless rfl
          simp only [Bool.and_false, Bool.false_eq_true, if_false]
          omega
        | true =>
          simp only [gt_iff_lt, Bool.and_true, decide_eq_true_eq]
          split <;> omega
      · rw [unaccepted, List.drop_nil, Slice.tag, List.append_nil]
        exact hr
  · cases hs
    trivial

/-- The holder's next section. -/
theorem section_progress {poll : Poll} {stage' : Stage}
    (h : Progress nobuffer s offset bytes t stage)
    (hs : criticalSection nobuffer t (.data g offset bytes) poll stage = some (u, stage')) :
    Progress nobuffer s offset bytes u stage' := by
  cases stage with
  | start =>
    cases bytes with
    | nil => exact empty_progress h (Option.some.inj hs)
    | cons b bs => exact poll_progress (List.cons_ne_nil b bs) h hs
  | publish position again =>
    cases hs
    have quiet := publishReceipt_metadata t g position
    have kept : Progress nobuffer s offset bytes (publishReceipt t g position)
        (.publish position again) :=
      h.congr ⟨quiet.1, quiet.2.2.1, quiet.2.1⟩
    cases again with
    | true => exact kept
    | false => exact .inl kept
  | close => exact h.elim
  | done | superseded | failed _ => cases hs

/-! ## The run of one frame -/

/-- A label of somebody else, while the holder keeps the lock. -/
theorem step_elsewhere {a : Act} {holder : Holder} (held : s.lock = some holder)
    (ha : ∀ poll, a ≠ .critical poll) (kept : a ≠ .release) (h : step nobuffer s a = some t) :
    Unchanged s t ∧ t.lock = some holder := by
  have hq := step_quiet ha h
  refine ⟨⟨hq.metadata, hq.received, hq.childStdin⟩, ?_⟩
  cases a with
  | critical poll => exact absurd rfl (ha poll)
  | release => exact absurd rfl kept
  | acquire op =>
    simp only [step, held, reduceCtorEq, false_and, if_false] at h
  | install force =>
    simp only [step] at h
    split at h
    · cases h
    · split at h <;> cases h <;> exact held
  | clear g =>
    simp only [step] at h
    split at h
    · cases h
    · cases h
      exact held
  | hello g =>
    simp only [step] at h
    split at h
    · cases h
      exact held
    · cases h
  | takeReceipt g =>
    simp only [step] at h
    split at h <;> cases h <;> exact held
  | waited =>
    simp only [step] at h
    split at h
    · cases h
    · cases h
      exact held

/-- A section of the holder. -/
theorem step_holder {op : Op} {poll : Poll} (held : s.lock = some ⟨op, stage⟩)
    (h : step nobuffer s (.critical poll) = some t) :
    ∃ u stage', criticalSection nobuffer s op poll stage = some (u, stage') ∧
      t = { u with lock := some ⟨op, stage'⟩ } := by
  simp only [step, held] at h
  split at h
  · rename_i u stage' hs
    cases h
    exact ⟨u, stage', hs, rfl⟩
  · cases h

/-- The frame's progress survives every label but the one that drops its guard. -/
theorem step_progress {a : Act} (held : t.lock = some ⟨.data g offset bytes, stage⟩)
    (h : Progress nobuffer s offset bytes t stage) (kept : a ≠ .release)
    (hs : step nobuffer t a = some u) :
    ∃ stage', u.lock = some ⟨.data g offset bytes, stage'⟩ ∧
      Progress nobuffer s offset bytes u stage' := by
  by_cases ha : ∃ poll, a = .critical poll
  · obtain ⟨poll, rfl⟩ := ha
    obtain ⟨u', stage', hsec, rfl⟩ := step_holder held hs
    exact ⟨stage', rfl, (section_progress h hsec).congr ⟨rfl, rfl, rfl⟩⟩
  · obtain ⟨same, hl⟩ := step_elsewhere held (fun poll he => ha ⟨poll, he⟩) kept hs
    exact ⟨stage, hl, h.congr same⟩

/-- From the frame's start, as long as its operation holds the lock. -/
theorem run_progress {as : List Act} (kept : .release ∉ as)
    (held : t.lock = some ⟨.data g offset bytes, stage⟩)
    (h : Progress nobuffer s offset bytes t stage)
    (hr : (machine nobuffer).run t as = some u) :
    ∃ stage', u.lock = some ⟨.data g offset bytes, stage'⟩ ∧
      Progress nobuffer s offset bytes u stage' := by
  induction as generalizing t stage with
  | nil =>
    cases hr
    exact ⟨stage, held, h⟩
  | cons a as ih =>
    rw [Machine.run_cons] at hr
    obtain ⟨m, hm, hr⟩ := Option.bind_eq_some_iff.mp hr
    rw [List.mem_cons, not_or] at kept
    obtain ⟨stage', hl, hp⟩ := step_progress held h (fun ha => kept.1 ha.symm) hm
    exact ih kept.2 hl hp hr

/-! ## An EOF frame -/

/-- A refused EOF frame does nothing but fail. -/
theorem eof_refused {poll : Poll} (held : s.lock = some ⟨.eof g offset, .start⟩)
    (current : s.attachment.isCurrent g = true) (h : step nobuffer s (.critical poll) = some t)
    (refused : EofRefused s.metadata offset) :
    ∃ e, t = { s with lock := some ⟨.eof g offset, .failed e⟩ } := by
  obtain ⟨u, stage', hs, rfl⟩ := step_holder held h
  rcases declareStdinEofLocked_spec s.metadata offset with ⟨_, e, he⟩ | ⟨accepted, _⟩
  · simp only [criticalSection, eofSection, current, if_true, he, Option.some.injEq,
      Prod.mk.injEq] at hs
    obtain ⟨rfl, rfl⟩ := hs
    exact ⟨e, rfl⟩
  · exact absurd refused accepted

/-- An accepted EOF frame declares its end, and closes the pipe when the end is reached. -/
theorem eof_accepted {poll : Poll} (held : s.lock = some ⟨.eof g offset, .start⟩)
    (current : s.attachment.isCurrent g = true) (h : step nobuffer s (.critical poll) = some t)
    (accepted : ¬ EofRefused s.metadata offset) :
    t = { s with
      metadata := { s.metadata with
        stdinEofAt := some offset
        stdinEof := s.metadata.stdinEof || decide (offset = s.metadata.stdinPosition) }
      childStdin := s.childStdin && !decide (offset = s.metadata.stdinPosition)
      lock := some ⟨.eof g offset, .publish s.metadata.stdinPosition false⟩ } := by
  obtain ⟨u, stage', hs, rfl⟩ := step_holder held h
  rcases declareStdinEofLocked_spec s.metadata offset with ⟨refused, _⟩ | ⟨_, hok⟩
  · exact absurd refused accepted
  · simp only [criticalSection, eofSection, current, if_true, hok, Option.some.injEq,
      Prod.mk.injEq] at hs
    obtain ⟨rfl, rfl⟩ := hs
    rfl

/-- A declaration that stands is repeated without effect. -/
theorem eof_repeated {poll : Poll} (hi : Inv s) (held : s.lock = some ⟨.eof g offset, .start⟩)
    (current : s.attachment.isCurrent g = true) (h : step nobuffer s (.critical poll) = some t)
    (declared : s.metadata.stdinEofAt = some offset) :
    t = { s with lock := some ⟨.eof g offset, .publish s.metadata.stdinPosition false⟩ } := by
  have accepted : ¬ EofRefused s.metadata offset := by
    rintro (behind | ⟨eof, hat, hne⟩)
    · exact absurd (hi.coherent.le_eof offset declared) (Nat.not_le_of_lt behind)
    · rw [declared] at hat
      exact hne (Option.some.inj hat).symm
  -- an end that is reached was reached before, and has closed the pipe
  have reached : (s.metadata.stdinEof || decide (offset = s.metadata.stdinPosition)) =
      s.metadata.stdinEof := by
    cases heof : s.metadata.stdinEof with
    | true => rfl
    | false =>
      have hne : offset ≠ s.metadata.stdinPosition := by
        rintro rfl
        rw [hi.coherent.eof_iff.mpr declared] at heof
        cases heof
      simp only [hne, decide_false, Bool.or_self]
  have closed : (s.childStdin && !decide (offset = s.metadata.stdinPosition)) = s.childStdin := by
    by_cases heq : offset = s.metadata.stdinPosition
    · have heof := hi.coherent.eof_iff.mpr (heq ▸ declared)
      rcases hi.closed heof with hc | ⟨op, hop⟩
      · rw [hc, Bool.false_and]
      · rw [held] at hop
        cases hop
    · simp only [heq, decide_false, Bool.not_false, Bool.and_true]
  rw [eof_accepted held current h accepted, reached, closed, ← declared]

/-! ## All or nothing -/

/-- **Stdin frames are all or nothing**, for a frame that takes the lock in any state and any run
of labels that does not drop its guard.

A data frame that fails either was refused for a protocol error of the frame as a whole, and then
the child's bytes, the position and the EOF state are those of its start; or the pipe itself failed.
A data frame that succeeds has moved the position to `max (old position) (offset + length)` and has
given the child exactly the bytes above the old position, unless the pipe was closed when it had
bytes to write, and then it changed nothing.

An EOF frame is refused exactly when it lies behind the accepted position or conflicts with a
declaration, and then changes nothing; repeating the declaration that stands changes nothing
either, and only acknowledges the accepted position again. -/
theorem stdin_frame_all_or_nothing (nobuffer : Bool) (s : State) :
    (∀ g offset bytes as t, s.lock = some ⟨.data g offset bytes, .start⟩ → .release ∉ as →
      (machine nobuffer).run s as = some t →
        (∀ e, t.lock = some ⟨.data g offset bytes, .failed e⟩ →
          (FrameRefused nobuffer s.metadata offset bytes.length ∧ Unchanged s t) ∨
            (¬ FrameRefused nobuffer s.metadata offset bytes.length ∧ e ∈ pipeErrors)) ∧
        (t.lock = some ⟨.data g offset bytes, .done⟩ →
          Complete s offset bytes t ∨
            (s.childStdin = false ∧ unaccepted s.metadata offset bytes ≠ [] ∧
              Unchanged s t))) ∧
    ∀ g offset poll t, s.lock = some ⟨.eof g offset, .start⟩ → s.attachment.isCurrent g = true →
      step nobuffer s (.critical poll) = some t →
        ((∃ e, t.lock = some ⟨.eof g offset, .failed e⟩) ↔ EofRefused s.metadata offset) ∧
        (EofRefused s.metadata offset →
          ∃ e, t = { s with lock := some ⟨.eof g offset, .failed e⟩ }) ∧
        ((machine nobuffer).Reachable s → s.metadata.stdinEofAt = some offset →
          t = { s with
            lock := some ⟨.eof g offset, .publish s.metadata.stdinPosition false⟩ }) := by
  refine ⟨fun g offset bytes as t held kept hr => ?_, fun g offset poll t held current hs => ?_⟩
  · have start : Progress nobuffer s offset bytes s .start :=
      ⟨0, .zero s offset bytes, fun h => absurd h (Nat.lt_irrefl 0)⟩
    obtain ⟨stage, hl, hp⟩ := run_progress kept held start hr
    constructor
    · intro e he
      rw [hl] at he
      cases he
      exact hp
    · intro hdone
      rw [hl] at hdone
      cases hdone
      exact hp
  · refine ⟨⟨fun ⟨e, he⟩ => ?_, fun refused => ?_⟩, eof_refused held current hs,
      fun reached declared => eof_repeated (reachable_inv reached) held current hs declared⟩
    · by_contra accepted
      rw [eof_accepted held current hs accepted] at he
      cases he
    · obtain ⟨e, rfl⟩ := eof_refused held current hs refused
      exact ⟨e, rfl⟩

/-- A frame that overlaps the accepted bytes, written in two parts. -/
theorem stdin_frame_all_or_nothing_overlap :
    ∃ s t, (machine false).Reachable s ∧ s.metadata.stdinPosition = 2 ∧
      Complete s 0 [1, 2, 3, 4, 5] t ∧ t.metadata.stdinPosition = 5 := by
  have start : (machine false).Reachable { childStdin := true } := .init ⟨true, rfl⟩
  obtain ⟨s, t, reached, held, hopen, hpos, hr, hdone, hend⟩ :
      ∃ s t, (machine false).Reachable s ∧ s.lock = some ⟨.data 1 0 [1, 2, 3, 4, 5], .start⟩ ∧
        s.childStdin = true ∧ s.metadata.stdinPosition = 2 ∧
        (machine false).run s [.critical (.wrote 1), .critical .pending, .critical (.wrote 2),
          .critical .pending, .critical .pending, .critical .pending] = some t ∧
        t.lock = some ⟨.data 1 0 [1, 2, 3, 4, 5], .done⟩ ∧ t.metadata.stdinPosition = 5 :=
    ⟨_, _, start.run
      [.install false, .acquire (.data 1 0 [1, 2]), .critical (.wrote 2), .critical .pending,
        .critical .pending, .critical .pending, .release,
        .acquire (.data 1 0 [1, 2, 3, 4, 5])] rfl, rfl, rfl, rfl, rfl, rfl, rfl⟩
  refine ⟨s, t, reached, hpos, ?_, hend⟩
  have outcome := ((stdin_frame_all_or_nothing false s).1 _ _ _ _ t held (by decide) hr).2 hdone
  exact outcome.resolve_right fun ⟨closed, _⟩ => absurd (closed.symm.trans hopen) (by decide)

end Pipekeep.Stdin
