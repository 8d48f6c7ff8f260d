import Pipekeep.Laws.Stdin

/-!
# Runs of the stdin machine: exactly once, and a sticky end

Two invariants over every interleaving. `Delivered` is the exactly-once law of the input: what
the pipe accepted is a log of the input stream, strictly increasing, below the recorded position,
and gap-free in a buffered session. `Inv` is the sticky EOF: the flag, the declaration and the
position agree, and an end that was reached leaves the pipe open only while the operation that
reached it holds the lock and has the closing still to do.

Both are carried by `Critical`, the one relation of what a section can do; the other labels leave
the input alone (`step_quiet`).
-/

namespace Pipekeep.Stdin

variable {nobuffer : Bool}

/-! ## One step -/

/-- A section step: the holder, and what its section did. -/
theorem critical_inv {s t : State} {poll : Poll} (hc : Coherent s.metadata)
    (h : step nobuffer s (.critical poll) = some t) :
    ∃ op stage t' stage', s.lock = some ⟨op, stage⟩ ∧
      Critical nobuffer s op stage t' stage' ∧ t = { t' with lock := some ⟨op, stage'⟩ } := by
  simp only [step] at h
  split at h
  · rename_i holder hl
    split at h
    · rename_i t' stage' hs
      cases h
      exact ⟨holder.op, holder.stage, t', stage', hl, criticalSection_inv hc hs, rfl⟩
    · cases h
  · cases h

/-- What a label that is not a section leaves alone. -/
structure Quiet (s : State) (a : Act) (t : State) : Prop where
  metadata : t.metadata = s.metadata
  childStdin : t.childStdin = s.childStdin
  received : t.received = s.received
  waited : s.waited = true → t.waited = true
  lock : t.lock = s.lock ∨ (t.lock = none ∧ ∀ op, s.lock ≠ some ⟨op, .close⟩) ∨
    ∃ op, a = .acquire op ∧ s.lock = none ∧ s.mayAcquire op = true ∧ t.lock = some ⟨op, .start⟩

/-- The holder after the step was there before it, or has just taken the lock. -/
theorem Quiet.held {s t : State} {a : Act} (h : Quiet s a t) {op : Op} {stage : Stage}
    (hl : t.lock = some ⟨op, stage⟩) :
    s.lock = some ⟨op, stage⟩ ∨ a = .acquire op ∧ s.mayAcquire op = true ∧ stage = .start := by
  rcases h.lock with heq | ⟨hnone, _⟩ | ⟨op', ha, _, hmay, hstart⟩
  · exact .inl (heq ▸ hl)
  · rw [hnone] at hl
    cases hl
  · rw [hstart] at hl
    cases hl
    exact .inr ⟨ha, hmay, rfl⟩

theorem step_quiet {s t : State} {a : Act} (ha : ∀ poll, a ≠ .critical poll)
    (h : step nobuffer s a = some t) : Quiet s a t := by
  cases a with
  | critical poll => exact absurd rfl (ha poll)
  | install force =>
    simp only [step] at h
    split at h
    · cases h
    · split at h <;> cases h <;> exact ⟨rfl, rfl, rfl, id, .inl rfl⟩
  | clear g =>
    simp only [step] at h
    split at h
    · cases h
    · cases h
      exact ⟨rfl, rfl, rfl, id, .inl rfl⟩
  | hello g =>
    simp only [step] at h
    split at h
    · cases h
      exact ⟨rfl, rfl, rfl, id, .inl rfl⟩
    · cases h
  | takeReceipt g =>
    simp only [step] at h
    split at h <;> cases h <;> exact ⟨rfl, rfl, rfl, id, .inl rfl⟩
  | acquire op =>
    simp only [step] at h
    split at h
    · rename_i free
      cases h
      exact ⟨rfl, rfl, rfl, id, .inr (.inr ⟨op, rfl, free.1, free.2, rfl⟩)⟩
    · cases h
  | release =>
    simp only [step] at h
    split at h
    · rename_i holder hl
      split at h
      · cases h
      · rename_i hstage
        cases h
        refine ⟨rfl, rfl, rfl, id, .inr (.inl ⟨rfl, fun op hop => ?_⟩)⟩
        rw [hl] at hop
        cases hop
        exact hstage rfl
    · cases h
  | waited =>
    simp only [step] at h
    split at h
    · cases h
    · cases h
      exact ⟨rfl, rfl, rfl, fun _ => rfl, .inl rfl⟩

/-! ## The sticky end -/

structure Inv (s : State) : Prop where
  coherent : Coherent s.metadata
  closed : s.metadata.stdinEof = true →
    s.childStdin = false ∨ ∃ op, s.lock = some ⟨op, .close⟩
  closing : ∀ op, s.lock = some ⟨op, .close⟩ → s.metadata.stdinEof = true
  reaping : ∀ stage, s.lock = some ⟨.reap, stage⟩ → s.waited = true

theorem inv_init {s : State} (h : (machine nobuffer).init s) : Inv s := by
  obtain ⟨childStdin, rfl⟩ := h
  exact ⟨⟨by simp, nofun⟩, nofun, nofun, nofun⟩

theorem publishReceipt_metadata (s : State) (g position : Nat) :
    (publishReceipt s g position).metadata = s.metadata ∧
      (publishReceipt s g position).childStdin = s.childStdin ∧
      (publishReceipt s g position).received = s.received ∧
      (publishReceipt s g position).waited = s.waited := by
  unfold publishReceipt
  split <;> exact ⟨rfl, rfl, rfl, rfl⟩

/-- A section keeps the sticky end. -/
theorem inv_critical {s t : State} {op : Op} {stage stage' : Stage} (hi : Inv s)
    (hl : s.lock = some ⟨op, stage⟩) (h : Critical nobuffer s op stage t stage') :
    Inv { t with lock := some ⟨op, stage'⟩ } := by
  have reaping : ∀ st, (some ⟨op, stage'⟩ : Option Holder) = some ⟨.reap, st⟩ →
      s.waited = true := fun st he => by
    cases he
    exact hi.reaping stage hl
  -- away from `close`, a reached end has already closed the pipe
  have closed : stage ≠ .close → s.metadata.stdinEof = true → s.childStdin = false := by
    intro hne heof
    rcases hi.closed heof with h | ⟨op', hop⟩
    · exact h
    · rw [hl] at hop
      cases hop
      exact absurd rfl hne
  cases h with
  | superseded _ _ =>
    exact ⟨hi.coherent, fun he => .inl (closed nofun he), nofun, reaping⟩
  | failed e => exact ⟨hi.coherent, fun he => .inl (closed nofun he), nofun, reaping⟩
  | idle _ hstage =>
    refine ⟨hi.coherent, fun he => .inl (closed nofun he), fun op' he => ?_, reaping⟩
    cases he
    exact absurd rfl hstage
  | @moved m childStdin _ hcm hf _ _ hclose =>
    rcases hclose with ⟨rfl, rfl⟩ | ⟨rfl, rfl⟩
    · refine ⟨hcm, fun he => ?_, fun op' he => ?_, reaping⟩
      · have he : m.stdinEof = true := he
        exact .inr ⟨op, by simp only [he, if_true]⟩
      · show m.stdinEof = true
        cases hm : m.stdinEof with
        | true => rfl
        | false =>
          simp only [hm, Bool.false_eq_true, if_false, Option.some.injEq, Holder.mk.injEq,
            reduceCtorEq, and_false] at he
    · refine ⟨hcm, fun he => .inl ?_, nofun, reaping⟩
      have he : m.stdinEof = true := he
      simp only [he, Bool.not_true, Bool.and_false]
  | wrote _ _ _ _ _ _ hcm _ =>
    refine ⟨hcm, fun he => .inl ?_, nofun, reaping⟩
    simp only at he
    simp only [he, Bool.not_true]
  | reaped _ => exact ⟨hi.coherent, fun _ => .inl rfl, nofun, reaping⟩
  | closed => exact ⟨hi.coherent, fun _ => .inl rfl, nofun, reaping⟩
  | @published g position again _ =>
    obtain ⟨hm, hcs, _, hw⟩ := publishReceipt_metadata s g position
    refine ⟨hm ▸ hi.coherent, fun he => .inl ?_, fun op' he => ?_, fun st he => ?_⟩
    · rw [hm] at he
      exact hcs.trans (closed nofun he)
    · cases again <;> cases he
    · exact hw.trans (reaping st he)

theorem inv_step {s t : State} {a : Act} (hi : Inv s) (h : step nobuffer s a = some t) :
    Inv t := by
  by_cases ha : ∃ poll, a = .critical poll
  · obtain ⟨poll, rfl⟩ := ha
    obtain ⟨op, stage, t', stage', hl, hcrit, rfl⟩ := critical_inv hi.coherent h
    exact inv_critical hi hl hcrit
  · have hq := step_quiet (fun poll he => ha ⟨poll, he⟩) h
    refine ⟨hq.metadata ▸ hi.coherent, fun he => ?_, fun op hop => ?_, fun stage hs => ?_⟩
    · rw [hq.metadata] at he
      rw [hq.childStdin]
      rcases hi.closed he with hc | ⟨op, hop⟩
      · exact .inl hc
      · rcases hq.lock with hl | ⟨_, hne⟩ | ⟨_, _, hfree, _, _⟩
        · exact .inr ⟨op, hl ▸ hop⟩
        · exact absurd hop (hne op)
        · rw [hfree] at hop
          cases hop
    · rw [hq.metadata]
      rcases hq.held hop with hl | ⟨_, _, hstart⟩
      · exact hi.closing op hl
      · cases hstart
    · rcases hq.held hs with hl | ⟨_, hmay, _⟩
      · exact hq.waited (hi.reaping stage hl)
      · exact hq.waited hmay

theorem reachable_inv {s : State} (h : (machine nobuffer).Reachable s) : Inv s :=
  h.invariant (fun _ => inv_init) fun _ _ _ _ hi _ hs => inv_step hi hs

/-- Every label moves the metadata forward only. -/
theorem step_forward {s t : State} {a : Act} (hi : Inv s) (h : step nobuffer s a = some t) :
    Forward s.metadata t.metadata := by
  by_cases ha : ∃ poll, a = .critical poll
  · obtain ⟨poll, rfl⟩ := ha
    obtain ⟨op, stage, t', stage', _, hcrit, rfl⟩ := critical_inv hi.coherent h
    show Forward s.metadata t'.metadata
    cases hcrit with
    | moved _ hf _ _ _ => exact hf
    | wrote _ _ _ _ _ _ _ hf => exact hf
    | @published g position _ _ =>
      rw [(publishReceipt_metadata s g position).1]
      exact .refl _
    | _ => exact .refl _
  · rw [(step_quiet (fun poll he => ha ⟨poll, he⟩) h).metadata]
    exact .refl _

/-- An open pipe is dropped only at the declared end, or by the wait's own operation. -/
theorem step_closes {s t : State} {a : Act} (hi : Inv s) (h : step nobuffer s a = some t)
    (hopen : s.childStdin = true) (hclosed : t.childStdin = false) :
    t.metadata.stdinEof = true ∨ t.waited = true := by
  by_cases ha : ∃ poll, a = .critical poll
  · obtain ⟨poll, rfl⟩ := ha
    obtain ⟨op, stage, t', stage', hl, hcrit, rfl⟩ := critical_inv hi.coherent h
    cases hcrit with
    | @moved m childStdin _ _ _ _ _ hclose =>
      have hclosed : childStdin = false := hclosed
      rcases hclose with ⟨rfl, _⟩ | ⟨rfl, _⟩
      · rw [hopen] at hclosed
        cases hclosed
      · left
        simpa only [hopen, Bool.true_and, Bool.not_eq_false'] using hclosed
    | wrote _ _ _ _ _ _ _ _ =>
      left
      simpa only [Bool.not_eq_false'] using hclosed
    | reaped hop =>
      subst hop
      exact .inr (hi.reaping _ hl)
    | closed => exact .inl (hi.closing op hl)
    | @published g position _ _ =>
      have hcs := (publishReceipt_metadata s g position).2.1
      exact absurd ((hcs.trans hopen).symm.trans hclosed) (by simp)
    | _ => exact absurd (hopen.symm.trans hclosed) (by simp)
  · have hq := step_quiet (fun poll he => ha ⟨poll, he⟩) h
    rw [hq.childStdin, hopen] at hclosed
    cases hclosed

/-- A step by which an operation declares the EOF at `offset`, under authority and without an
error. -/
def Declares (s : State) (a : Act) (t : State) (offset : Nat) : Prop :=
  ∃ op poll stage, a = .critical poll ∧ s.lock = some ⟨op, .start⟩ ∧
    op.declares = some offset ∧ t.lock = some ⟨op, stage⟩ ∧ stage.succeeded = true

theorem step_declares {s t : State} {a : Act} {offset : Nat} (hi : Inv s)
    (h : step nobuffer s a = some t) (hd : Declares s a t offset) :
    t.metadata.stdinEofAt = some offset := by
  obtain ⟨op, poll, stage, rfl, hl, hdecl, hl', hok⟩ := hd
  obtain ⟨op', stage', t', stage'', hl₁, hcrit, rfl⟩ := critical_inv hi.coherent h
  rw [hl] at hl₁
  cases hl₁
  cases hl'
  cases hcrit with
  | superseded _ _ => cases hok
  | failed _ => cases hok
  | idle hnone _ =>
    rw [hnone] at hdecl
    cases hdecl
  | moved _ _ _ hall _ => exact hall offset hdecl
  | wrote hop _ _ _ _ _ _ _ =>
    subst hop
    cases hdecl
  | reaped hop =>
    subst hop
    cases hdecl

/-- **The sticky stdin EOF**, over every interleaving: in every reachable state the flag says
exactly that the position is the declared end, the position is not past it, and a free lock means
that a reached end has closed the pipe; along every step the position does not decrease, a
declaration stands, a reached end stays reached, an open pipe is dropped only at the declared end
or after the leader's wait, and a declaration that succeeds at `offset` leaves it declared
there. -/
theorem stdin_eof_sticky (nobuffer : Bool) {s : State} (h : (machine nobuffer).Reachable s) :
    ((s.metadata.stdinEof = true ↔ s.metadata.stdinEofAt = some s.metadata.stdinPosition) ∧
      (∀ e, s.metadata.stdinEofAt = some e → s.metadata.stdinPosition ≤ e) ∧
      (s.lock = none → s.metadata.stdinEof = true → s.childStdin = false)) ∧
    ∀ a t, step nobuffer s a = some t →
      s.metadata.stdinPosition ≤ t.metadata.stdinPosition ∧
      (∀ e, s.metadata.stdinEofAt = some e → t.metadata.stdinEofAt = some e) ∧
      (s.metadata.stdinEof = true → t.metadata.stdinEof = true) ∧
      (s.childStdin = true → t.childStdin = false →
        t.metadata.stdinEofAt = some t.metadata.stdinPosition ∨ t.waited = true) ∧
      ∀ offset, Declares s a t offset → t.metadata.stdinEofAt = some offset := by
  have hi := reachable_inv h
  refine ⟨⟨hi.coherent.eof_iff, hi.coherent.le_eof, fun hfree heof => ?_⟩, fun a t hs => ?_⟩
  · rcases hi.closed heof with hc | ⟨op, hop⟩
    · exact hc
    · rw [hfree] at hop
      cases hop
  · have hf := step_forward hi hs
    refine ⟨hf.position, hf.declared, hf.eof, fun hopen hclosed => ?_,
      fun offset hd => step_declares hi hs hd⟩
    rcases step_closes hi hs hopen hclosed with he | hw
    · exact .inl ((inv_step hi hs).coherent.eof_iff.mp he)
    · exact .inr hw

/-- An empty no-buffer frame that jumps to an end declared by a control reaches it: the pipe is
closed when the lock is free again. -/
theorem stdin_eof_sticky_jump :
    ∃ s, (machine true).Reachable s ∧ s.lock = none ∧ s.metadata.stdinEof = true ∧
      s.childStdin = false := by
  have start : (machine true).Reachable { childStdin := true } := .init ⟨true, rfl⟩
  have reached := start.run
    [.install false, .acquire (.control 5), .critical .pending, .release,
      .acquire (.data 1 5 []), .critical .pending, .release] rfl
  exact ⟨_, reached, rfl, rfl, (stdin_eof_sticky true reached).1.2.2 rfl rfl⟩

/-! ## Exactly once -/

/-- Every data frame that any attachment sends agrees with the input stream. -/
def FramesAgree (S : Nat → UInt8) (_ : State) (a : Act) : Prop :=
  ∀ g offset bytes, a = .acquire (.data g offset bytes) →
    bytes = Slice.slice S offset bytes.length

structure Delivered (nobuffer : Bool) (S : Nat → UInt8) (s : State) : Prop where
  tagged : Slice.Tagged S s.received s.metadata.stdinPosition
  full : nobuffer = false →
    s.received = Slice.tag 0 (Slice.slice S 0 s.metadata.stdinPosition)
  frame : ∀ g offset bytes stage, s.lock = some ⟨.data g offset bytes, stage⟩ →
    bytes = Slice.slice S offset bytes.length

/-- The bytes a poll offers from an agreeing frame are the stream's from the logical position. -/
theorem FrameStart.offered {S : Nat → UInt8} {m : Meta} {offset start logical count : Nat}
    {bytes : List UInt8} (h : FrameStart nobuffer m offset bytes.length start logical)
    (hb : bytes = Slice.slice S offset bytes.length) (hpos : 0 < count)
    (hcount : count ≤ bytes.length - start) :
    (bytes.drop start).take count = Slice.slice S logical count := by
  have hlogical : offset + start = logical := by
    have := h.start_eq
    have := h.logical_eq
    omega
  rw [hb, Slice.drop_slice, Slice.take_slice S _ hcount, hlogical]

theorem delivered_step {S : Nat → UInt8} {s t : State} {a : Act} (hi : Inv s)
    (hd : Delivered nobuffer S s) (ha : FramesAgree S s a) (h : step nobuffer s a = some t) :
    Delivered nobuffer S t := by
  by_cases hcr : ∃ poll, a = .critical poll
  · obtain ⟨poll, rfl⟩ := hcr
    obtain ⟨op, stage, t', stage', hl, hcrit, rfl⟩ := critical_inv hi.coherent h
    have frame : ∀ g offset bytes st, (some ⟨op, stage'⟩ : Option Holder) =
        some ⟨.data g offset bytes, st⟩ → bytes = Slice.slice S offset bytes.length := by
      intro g offset bytes st he
      cases he
      exact hd.frame g offset bytes stage hl
    cases hcrit with
    | moved _ hf hpos _ _ =>
      refine ⟨hd.tagged.mono hf.position, fun hnb => ?_, frame⟩
      rw [hpos hnb]
      exact hd.full hnb
    | @wrote g offset start logical count bytes m hop _ hstart hpos hcount hm _ _ =>
      subst hop
      have hb := hd.frame g offset bytes _ hl
      have hle : s.metadata.stdinPosition ≤ logical := by
        rw [hstart.logical_eq]
        exact Nat.le_max_left _ _
      rw [hstart.offered hb hpos hcount]
      refine ⟨?_, fun hnb => ?_, frame⟩
      · rw [hm]
        exact hd.tagged.snoc hle count
      · -- in a buffered session the frame starts at or below the position
        have hlogical : logical = s.metadata.stdinPosition := by
          rw [hstart.logical_eq]
          exact Nat.max_eq_left (hstart.gapless hnb)
        rw [hm, hlogical, hd.full hnb, Slice.full_snoc]
    | @published g position _ _ =>
      obtain ⟨hm, _, hr, _⟩ := publishReceipt_metadata s g position
      refine ⟨?_, fun hnb => ?_, frame⟩
      · rw [hm, hr]
        exact hd.tagged
      · rw [hm, hr]
        exact hd.full hnb
    | _ => exact ⟨hd.tagged, hd.full, frame⟩
  · have hq := step_quiet (fun poll he => hcr ⟨poll, he⟩) h
    refine ⟨?_, fun hnb => ?_, fun g offset bytes stage hl => ?_⟩
    · rw [hq.metadata, hq.received]
      exact hd.tagged
    · rw [hq.metadata, hq.received]
      exact hd.full hnb
    · rcases hq.held hl with hl | ⟨rfl, _, _⟩
      · exact hd.frame g offset bytes stage hl
      · exact ha g offset bytes rfl

theorem delivered_init {S : Nat → UInt8} {s : State} (h : (machine nobuffer).init s) :
    Delivered nobuffer S s := by
  obtain ⟨childStdin, rfl⟩ := h
  exact ⟨Slice.tagged_nil S 0, fun _ => rfl, nofun⟩

/-- **Exactly-once stdin.** When every data frame agrees with the input stream `S`, then in every
state that any interleaving reaches, the bytes handed to the child have strictly increasing
offsets, are `S`'s at their offsets, and lie below the recorded position; in a buffered session
the child has received exactly `S[0 .. stdin_position)`. -/
theorem stdin_exactly_once (nobuffer : Bool) (S : Nat → UInt8) {s : State}
    (h : (machine nobuffer).Reach (FramesAgree S) s) :
    (s.received.Pairwise fun x y => x.1 < y.1) ∧
      (∀ x ∈ s.received, x.2 = S x.1 ∧ x.1 < s.metadata.stdinPosition) ∧
      (nobuffer = false →
        s.received = Slice.tag 0 (Slice.slice S 0 s.metadata.stdinPosition) ∧
          s.received.map Prod.snd = Slice.slice S 0 s.metadata.stdinPosition) := by
  have hd : Delivered nobuffer S s :=
    h.invariant (fun _ => delivered_init) fun _ _ _ hr hd ha hs =>
      delivered_step (reachable_inv hr.reachable) hd ha hs
  refine ⟨hd.tagged.increasing, fun x hx => ⟨hd.tagged.agrees x hx, hd.tagged.below x hx⟩,
    fun hnb => ⟨hd.full hnb, ?_⟩⟩
  rw [hd.full hnb, Slice.map_snd_tag]

/-- A frame half written when a takeover drops it, and its successor's overlapping one: the child
has each byte once. -/
theorem stdin_exactly_once_takeover :
    ∃ s, (machine false).Reach (FramesAgree UInt8.ofNat) s ∧
      s.received = [(0, 0), (1, 1), (2, 2), (3, 3)] ∧
      s.received.map Prod.snd = Slice.slice UInt8.ofNat 0 s.metadata.stdinPosition := by
  have start : (machine false).Reach (FramesAgree UInt8.ofNat) { childStdin := true } :=
    .init ⟨true, rfl⟩
  have meets : (machine false).Meets (FramesAgree UInt8.ofNat) { childStdin := true }
      [.install false, .hello 1, .acquire (.data 1 0 [0, 1, 2]), .critical (.wrote 2),
        .install true, .release, .acquire (.data 2 1 [1, 2, 3]), .critical (.wrote 2)] :=
    Machine.meets_of_forall (by
      rintro a ha s g offset bytes rfl
      simp only [List.mem_cons, reduceCtorEq, Act.acquire.injEq, Op.data.injEq, List.not_mem_nil,
        false_or, or_false] at ha
      rcases ha with ⟨-, rfl, rfl⟩ | ⟨-, rfl, rfl⟩ <;> rfl)
  have reached := start.run _ meets rfl
  exact ⟨_, reached, rfl, ((stdin_exactly_once false UInt8.ofNat reached).2.2 rfl).2⟩

end Pipekeep.Stdin
