import Pipekeep.Laws.Collector

/-!
# The budget of a finite-output session

The write workers, the replay and the senders keep the books too, so they are in order in every
reachable state, and no section of the session can panic.
-/

namespace Pipekeep.Bounds

open OutputFact

variable {limit : Nat} {s t : State} {p q : OutputFact}

/-! ## The write workers -/

/-- A worker moves on. -/
theorem inv_writerTo (hi : Inv limit s) {st : Stream} {w w' : Writer}
    (hw : s.writers.get st = some w) (same : SameWriter (some w) (some w'))
    (hpins : w'.pins = w.pins) {p : OutputFact} (hp : Quiet s.policy p) :
    Inv limit { s with policy := p, writers := s.writers.set st (some w') } := by
  refine hi.other hp rfl rfl rfl (fun st' => ?_) (fun st' => ?_) rfl rfl rfl rfl
  · by_cases heq : st' = st
    · subst heq
      rw [hw]
      exact (PerStream.get_set_self s.writers st' _).symm ▸ same
    · exact (PerStream.get_set_ne s.writers heq _).symm ▸ .refl _
  · by_cases heq : st' = st
    · subst heq
      rw [hw]
      show writerPins ((s.writers.set st' _).get st') = w.pins
      rw [PerStream.get_set_self]
      exact hpins
    · exact congrArg writerPins (PerStream.get_set_ne s.writers heq _)

/-- A worker that works is one the collector waits for. -/
theorem account_worker (hi : Inv limit s) {st : Stream} {w : Writer}
    (hw : s.writers.get st = some w) : w.Ok ∧
      (s.policy.streams.get st).reserved = w.rest.length ∧
      (s.read.get st).length = (s.policy.streams.get st).retained +
        (s.policy.streams.get st).reserved + (s.policy.streams.get st).discarded +
          (s.collector.hand st).length := by
  have ha := hi.accounts st
  refine ⟨ha.writer w hw, ha.reserved.trans ?_, ha.read⟩
  show outstanding (s.writers.get st) = _
  rw [hw]
  rfl

/-- One worker's stream changes; its pins are `pins` more or less than before. -/
theorem pins_writer (hi : Inv limit s) {st : Stream} {w : Writer}
    (hw : s.writers.get st = some w) (w' : Writer) :
    s.policy.ioInflight + w'.pins =
      total (fun st' => writerPins ((s.writers.set st (some w')).get st')) +
        replayPins s.replay + w.pins := by
  have htotal := total_pins s.writers st (some w')
  rw [hw] at htotal
  have hpins := hi.pins
  have hold : writerPins (some w) = w.pins := rfl
  have hnew : writerPins (some w') = w'.pins := rfl
  omega

theorem inv_record (hi : Inv limit s) {st : Stream} {w : Writer} {count : Nat} {p : OutputFact}
    (hw : s.writers.get st = some w) (hstage : w.stage = .recording count)
    (hp : s.policy.recordWrite st count = some p) :
    Inv limit { s with
      policy := p
      metadata := { s.metadata with
        ends := s.metadata.ends.set st (p.streams.get st).retained }
      writers := s.writers.set st
        (some { w with recorded := w.recorded + count, stage := .notifying }) } := by
  obtain ⟨hle, rfl⟩ := recordWrite_eq_some hp
  obtain ⟨hok, hreserved, hread⟩ := account_worker hi hw
  have hrest : w.rest = w.data.drop w.recorded := by rw [Writer.rest, hstage]
  have hself := onStream_get_self s.policy st (recorded · count)
  have hcharge := recorded_charge hle
  have hsteady : Steady s.policy (s.policy.onStream st (recorded · count)) :=
    ⟨rfl, rfl, id, Nat.le_of_eq hcharge, fun _ => hcharge⟩
  refine hi.steady hsteady (fun st' => ?_) ?_ (hi.knows.steady hsteady) rfl rfl fun _ => rfl
  · by_cases heq : st' = st
    · subst heq
      have ha := hi.accounts st'
      refine { ha with
        reserved := ?_, read := ?_, stop := ?_, writer := ?_, marks := ?_, spared := ?_
        slot := ?_ }
      · show ((s.policy.onStream st' _).streams.get st').reserved =
          outstanding ((s.writers.set st' _).get st')
        rw [hself, PerStream.get_set_self]
        show (s.policy.streams.get st').reserved - count = (w.data.drop (w.recorded + count)).length
        rw [hreserved, hrest, List.length_drop, List.length_drop]
        omega
      · show (s.read.get st').length = ((s.policy.onStream st' _).streams.get st').retained +
          ((s.policy.onStream st' _).streams.get st').reserved +
          ((s.policy.onStream st' _).streams.get st').discarded + _
        rw [hself, hread, recorded]
        dsimp only
        show _ = _ + (s.collector.hand st').length
        omega
      · exact PerStream.get_set_self _ _ _
      · intro w' hsome
        have : (s.writers.set st' _).get st' = some w' := hsome
        rw [PerStream.get_set_self] at this
        cases this
        exact Writer.ok_of_promises rfl
      · show ((s.policy.onStream st' _).streams.get st').prefixComplete = true → _
        rw [hself]
        exact fun hpc => by
          show ((s.policy.onStream st' _).streams.get st').discarded = 0 ∧
            ((s.policy.onStream st' _).streams.get st').storageFault = none
          rw [hself]
          exact ha.marks hpc
      · show _ → ((s.policy.onStream st' _).streams.get st').discarded = 0
        rw [hself]
        exact ha.spared
      · refine ha.slot.moved ?_ rfl rfl rfl id .inl
        show SamePlace (s.writers.get st') ((s.writers.set st' _).get st')
        rw [PerStream.get_set_self, hw]
        exact .some (by simp only [hstage, reduceCtorEq]) id
    · exact (hi.accounts st').quiet (account_untouched (onStream_get_ne _ heq _) id
        (PerStream.get_set_ne _ heq _) rfl rfl (PerStream.get_set_ne _ heq _) rfl rfl rfl .inl)
  · have hpins := pins_writer hi hw
      { w with recorded := w.recorded + count, stage := .notifying }
    have hold : w.pins = 1 := by rw [Writer.pins, hstage]
    have hnew : ({ w with recorded := w.recorded + count, stage := .notifying } : Writer).pins = 1 :=
      rfl
    show s.policy.ioInflight = total (fun st' => writerPins ((s.writers.set st _).get st')) +
      replayPins s.replay
    omega

/-- A returned write releases what it did not write. -/
theorem inv_settle (hi : Inv limit s) {st : Stream} {w : Writer} {fault : Option StorageFault}
    {p : OutputFact} (hw : s.writers.get st = some w) (hstage : w.stage = .settling fault)
    (hp : s.policy.settleWrite st (w.data.length - w.recorded) fault.isSome = some p)
    {stage : WriterStage} (hnext : ({ w with stage := stage } : Writer).rest = [])
    (hpin : ({ w with stage := stage } : Writer).pins = 1) (hqueued : stage ≠ .queued)
    (hok : ({ w with stage := stage } : Writer).Ok) :
    Inv limit { s with
      policy := p
      writers := s.writers.set st (some { w with stage := stage }) } := by
  obtain ⟨hle, hq⟩ := settleWrite_eq_some hp
  obtain ⟨hwok, hreserved, hread⟩ := account_worker hi hw
  have hrest : w.rest = w.data.drop w.recorded := by rw [Writer.rest, hstage]
  have hunwritten : w.data.length - w.recorded = w.rest.length := by rw [hrest, List.length_drop]
  rw [hunwritten] at hq hle
  have hcharge := hq.charge hle
  have hstopped : s.policy.firstStop.isSome = true → p.firstStop.isSome = true := fun hs => by
    rw [hq.firstStop]
    cases fault with
    | none => exact hs
    | some f =>
      show (s.policy.firstStop.or _).isSome = true
      rw [Option.isSome_or, hs, Bool.true_or]
  -- Only a fault, which is a stop, leaves anything unwritten.
  have hspared : p.firstStop = none → w.rest = [] := fun hno => by
    cases fault with
    | none => exact hwok.settling hstage
    | some f =>
      have hor : p.firstStop = s.policy.firstStop.or (some .storageFault) := hq.firstStop
      rw [hno] at hor
      cases hs : s.policy.firstStop <;> rw [hs] at hor <;> cases hor
  have hsteady : Steady s.policy p :=
    ⟨hq.limit, hq.tailRead, hstopped, by omega, fun hno => by
      rw [hspared hno] at hcharge
      exact hcharge⟩
  refine hi.steady hsteady (fun st' => ?_) ?_ (hi.knows.steady hsteady) rfl rfl fun _ => rfl
  · by_cases heq : st' = st
    · subst heq
      have ha := hi.accounts st'
      refine { ha with
        reserved := ?_, read := ?_, stop := ?_, writer := ?_, marks := ?_, spared := ?_
        slot := ?_ }
      · show (p.streams.get st').reserved = outstanding ((s.writers.set st' _).get st')
        rw [hq.self, PerStream.get_set_self]
        show (s.policy.streams.get st').reserved - w.rest.length =
          ({ w with stage := stage } : Writer).rest.length
        rw [hnext, hreserved]
        exact Nat.sub_self _
      · show (s.read.get st').length = (p.streams.get st').retained + (p.streams.get st').reserved +
          (p.streams.get st').discarded + (s.collector.hand st').length
        rw [hq.self, hread, settled]
        dsimp only
        omega
      · show s.metadata.ends.get st' = (p.streams.get st').retained
        rw [hq.self]
        exact ha.stop
      · intro w' hsome
        have : (s.writers.set st' _).get st' = some w' := hsome
        rw [PerStream.get_set_self] at this
        cases this
        exact hok
      · show (p.streams.get st').prefixComplete = true → (p.streams.get st').discarded = 0 ∧
          (p.streams.get st').storageFault = none
        rw [hq.self, settled]
        intro hpc
        obtain ⟨hpc, hzero⟩ := (Bool.and_eq_true _ _ ▸ hpc : _ ∧ _)
        obtain ⟨hdiscarded, hnone⟩ := ha.marks hpc
        exact ⟨by rw [beq_iff_eq.mp hzero]; exact hdiscarded, hnone⟩
      · intro hno
        have hnone : p.firstStop = none := Option.not_isSome_iff_eq_none.mp (by
          rw [show p.firstStop.isSome = false from hno]
          exact Bool.false_ne_true)
        show (p.streams.get st').discarded = 0
        rw [hq.self, settled, hspared hnone]
        exact ha.spared (by
          show s.policy.firstStop.isSome = false
          rw [hsteady.firstStop hnone]
          rfl)
      · refine ha.slot.moved ?_ rfl rfl rfl hstopped .inl
        show SamePlace (s.writers.get st') ((s.writers.set st' _).get st')
        rw [PerStream.get_set_self, hw]
        exact .some (by simp only [hqueued, hstage, reduceCtorEq]) id
    · exact (hi.accounts st').quiet (account_untouched (hq.other st' heq) hstopped rfl rfl rfl
        (PerStream.get_set_ne _ heq _) rfl rfl rfl .inl)
  · have hpins := pins_writer hi hw { w with stage := stage }
    have hold : w.pins = 1 := by rw [Writer.pins, hstage]
    show p.ioInflight = total (fun st' => writerPins ((s.writers.set st _).get st')) +
      replayPins s.replay
    rw [hq.ioInflight]
    omega

/-- A section that only changes the pins. -/
theorem steady_pins (p : OutputFact) (n : Nat) : Steady p { p with ioInflight := n } :=
  ⟨rfl, rfl, id, Nat.le_refl _, fun _ => rfl⟩

theorem unpin_eq_some (h : p.unpin = some q) :
    q = { p with ioInflight := p.ioInflight - 1 } ∧ p.ioInflight ≠ 0 := by
  unfold unpin at h
  split at h
  · cases h
  · rename_i hne
    exact ⟨(Option.some.inj h).symm, hne⟩

/-- A worker releases its pin last. -/
theorem inv_unpin (hi : Inv limit s) {st : Stream} {w : Writer}
    (hw : s.writers.get st = some w) (hstage : w.stage = .unpinning) {p : OutputFact}
    (hp : s.policy.unpin = some p) :
    Inv limit { s with
      policy := p
      writers := s.writers.set st (some { w with stage := .finishing }) } := by
  obtain ⟨rfl, hne⟩ := unpin_eq_some hp
  have hsteady := steady_pins s.policy (s.policy.ioInflight - 1)
  refine hi.steady hsteady (fun st' => (hi.accounts st').quiet ?_) ?_ (hi.knows.steady hsteady) rfl
    rfl fun _ => rfl
  · refine ⟨rfl, rfl, rfl, fun h => ⟨h, rfl⟩, id, rfl, rfl, rfl, ?_, rfl, rfl, rfl, .inl⟩
    show SameWriter (s.writers.get st') ((s.writers.set st _).get st')
    by_cases heq : st' = st
    · subst heq
      rw [PerStream.get_set_self, hw]
      exact .some (by simp only [Writer.rest, hstage]) (fun _ => Writer.ok_of_promises rfl)
        (by simp only [hstage, reduceCtorEq]) id
    · rw [PerStream.get_set_ne _ heq]
      exact .refl _
  · have hpins := pins_writer hi hw { w with stage := .finishing }
    have hold : w.pins = 1 := by rw [Writer.pins, hstage]
    have hnew : ({ w with stage := .finishing } : Writer).pins = 0 := rfl
    show s.policy.ioInflight - 1 =
      total (fun st' => writerPins ((s.writers.set st _).get st')) + replayPins s.replay
    omega

/-- A worker moves between two stages that hold the same, without touching the fact. -/
theorem inv_writerGoto (hi : Inv limit s) {st : Stream} {w : Writer}
    (hw : s.writers.get st = some w) (stage : WriterStage)
    (hrest : ({ w with stage := stage } : Writer).rest = w.rest)
    (hpins : ({ w with stage := stage } : Writer).pins = w.pins)
    (hqueued : stage = .queued ↔ w.stage = .queued)
    (hok : w.Ok → ({ w with stage := stage } : Writer).Ok) :
    Inv limit (s.setWriter st (some { w with stage := stage })) :=
  inv_writerTo hi hw (.some hrest hok hqueued id) hpins (.refl _)

/-- A call of a worker that has released its reservation. -/
theorem inv_writerCall (hi : Inv limit s) {st : Stream} {w : Writer} {call : Call} (clock : Clock)
    (hw : s.writers.get st = some w) (hstage : w.stage = .calling call) :
    Inv limit ((s.call call clock).1.setWriter st (some { w with
      stage := ((s.call call clock).2.map WriterStage.calling).getD .unpinning })) := by
  have move : ∀ stage : WriterStage, ({ w with stage := stage } : Writer).rest = [] →
      ({ w with stage := stage } : Writer).pins = 1 → stage ≠ .queued →
      ({ w with stage := stage } : Writer).Ok → ∀ p, Quiet s.policy p →
      Inv limit { s with policy := p, writers := s.writers.set st (some { w with stage := stage }) } :=
    fun stage hrest hpins hqueued hok p hp => inv_writerTo hi hw
      (.some (by rw [hrest, Writer.rest, hstage]) (fun _ => hok)
        (by simp only [hstage, hqueued, reduceCtorEq]) id)
      (by rw [hpins, Writer.pins, hstage]) hp
  have calling := fun rest => move (.calling rest) rfl rfl (by cases ·) (Writer.ok_of_promises rfl)
  cases call with
  | stop reason => exact calling .start _ (quiet_latch _ _)
  | storageFault st' fault => exact calling .start _ (quiet_storageFault _ _ _)
  | start =>
    exact (calling .notify _ (.refl _)).same ⟨rfl, rfl, rfl, rfl, rfl, rfl, rfl, rfl, rfl⟩
  | notify =>
    exact (move .unpinning rfl rfl (by cases ·) (Writer.ok_of_promises rfl) _ (.refl _)).same
      ⟨rfl, rfl, rfl, rfl, rfl, rfl, rfl, rfl, rfl⟩

/-- A write worker keeps the books in order. -/
theorem inv_writerMoved (hi : Inv limit s) {st : Stream} {w : Writer}
    (hw : s.writers.get st = some w) {act : WriterAct} (h : WriterMoved s st w act t) :
    Inv limit t := by
  -- Most stages keep the rest, the pin and the file, and promise nothing.
  have goto : ∀ stage : WriterStage, ({ w with stage := stage } : Writer).rest = w.rest →
      ({ w with stage := stage } : Writer).pins = w.pins → (stage = .queued ↔ w.stage = .queued) →
      (w.Ok → ({ w with stage := stage } : Writer).Ok) → ∀ {t : State},
      SameBooks (s.setWriter st (some { w with stage := stage })) t → Inv limit t :=
    fun stage hrest hpins hqueued hok _ same =>
      (inv_writerGoto hi hw stage hrest hpins hqueued hok).same same
  cases h with
  | @wrote count stage positive fits =>
    refine goto (.recording count) (by simp only [Writer.rest, stage])
      (by simp only [Writer.pins, stage]) (by simp only [stage, reduceCtorEq])
      (fun _ => ⟨fun n hn => ?_, (by cases ·), (by cases ·)⟩)
      ⟨rfl, rfl, rfl, rfl, rfl, rfl, rfl, rfl, rfl⟩
    cases hn
    refine ⟨Nat.pos_of_ne_zero positive, ?_⟩
    show count ≤ (w.data.drop w.recorded).length
    rw [List.length_drop]
    exact fits
  | refused stage more =>
    exact goto (.settling (some (writeFault w.recorded))) (by simp only [Writer.rest, stage])
      (by simp only [Writer.pins, stage]) (by simp only [stage, reduceCtorEq])
      (fun _ => Writer.ok_of_promises rfl) ⟨rfl, rfl, rfl, rfl, rfl, rfl, rfl, rfl, rfl⟩
  | failed stage more =>
    exact goto (.settling (some (writeFault w.recorded))) (by simp only [Writer.rest, stage])
      (by simp only [Writer.pins, stage]) (by simp only [stage, reduceCtorEq])
      (fun _ => Writer.ok_of_promises rfl) ⟨rfl, rfl, rfl, rfl, rfl, rfl, rfl, rfl, rfl⟩
  | recorded stage accepted => exact inv_record hi hw stage accepted
  | notified stage =>
    exact goto .writing (by simp only [Writer.rest, stage]) (by simp only [Writer.pins, stage])
      (by simp only [stage, reduceCtorEq]) (fun _ => Writer.ok_of_promises rfl)
      ⟨rfl, rfl, rfl, rfl, rfl, rfl, rfl, rfl, rfl⟩
  | flushed stage all =>
    refine goto (.settling _) (by simp only [Writer.rest, stage])
      (by simp only [Writer.pins, stage]) (by simp only [stage, reduceCtorEq])
      (fun _ => ⟨fun _ hn => (by cases hn), fun _ => ?_, (by cases ·)⟩)
      ⟨rfl, rfl, rfl, rfl, rfl, rfl, rfl, rfl, rfl⟩
    have hle : w.data.length ≤ w.recorded := Nat.le_of_sub_eq_zero all
    exact List.drop_eq_nil_of_le hle
  | settled stage accepted =>
    exact inv_settle hi hw stage accepted rfl rfl (by cases ·) (Writer.ok_of_promises rfl)
  | faulted stage accepted =>
    exact inv_settle hi hw stage accepted rfl rfl (by cases ·) (Writer.ok_of_promises rfl)
  | called stage => exact inv_writerCall hi _ hw stage
  | unpinned stage accepted => exact inv_unpin hi hw stage accepted
  | finished stage =>
    exact goto .finished (by simp only [Writer.rest, stage]) (by simp only [Writer.pins, stage])
      (by simp only [stage, reduceCtorEq]) (fun _ => Writer.ok_of_promises rfl)
      ⟨rfl, rfl, rfl, rfl, rfl, rfl, rfl, rfl, rfl⟩
  | lost spawned unfinished =>
    have same : SameWriter (some w) (some { w with lost := true }) :=
      .some rfl (fun hok => ⟨hok.recording, hok.settling, fun hq => absurd hq spawned⟩) Iff.rfl
        fun _ => rfl
    exact inv_writerTo hi hw same rfl (.refl _)

/-! ## The replay and the senders -/

/-- The replay moves on with its pin. -/
theorem inv_replayTo (hi : Inv limit s) {r : Option Replay} {p : OutputFact}
    (hp : Quiet s.policy p) (hpins : replayPins r = replayPins s.replay) :
    Inv limit { s with policy := p, replay := r } :=
  hi.other hp rfl rfl rfl (fun _ => .refl _) (fun _ => rfl) hpins rfl rfl rfl

/-- A replay takes its pin first and releases it last. -/
theorem inv_replayPins (hi : Inv limit s) {r : Option Replay} {n : Nat}
    (h : n + replayPins s.replay = s.policy.ioInflight + replayPins r) :
    Inv limit { s with policy := { s.policy with ioInflight := n }, replay := r } := by
  have hsteady := steady_pins s.policy n
  refine hi.steady hsteady (fun st => (hi.accounts st).quiet ?_) ?_ (hi.knows.steady hsteady) rfl
    rfl fun _ => rfl
  · exact ⟨rfl, rfl, rfl, fun h => ⟨h, rfl⟩, id, rfl, rfl, rfl, .refl _, rfl, rfl, rfl, .inl⟩
  · have hpins := hi.pins
    show n = total (fun st => writerPins (s.writers.get st)) + replayPins r
    omega

/-- A replay keeps the books in order. -/
theorem inv_replayMoved (hi : Inv limit s) {r : Replay} (hr : s.replay = some r) {act : ReplayAct}
    (h : ReplayMoved s r act t) : Inv limit t := by
  have held : ∀ stage : ReplayStage, r.pins = 1 → ({ r with stage := stage } : Replay).pins = 1 →
      replayPins (some { r with stage := stage }) = replayPins s.replay := fun stage hold hnew => by
    rw [hr]
    exact hnew.trans hold.symm
  cases h with
  | openFailed stage => exact inv_replayTo hi (.refl _) (held _ (by rw [Replay.pins, stage]) rfl)
  | readFailed stage answer =>
    exact inv_replayTo hi (.refl _) (held _ (by rw [Replay.pins, stage]) rfl)
  | read stage nonempty answer =>
    exact inv_replayTo hi (.refl _) (held _ (by rw [Replay.pins, stage]) rfl)
  | @called call fault clock stage =>
    have hold : r.pins = 1 := by rw [Replay.pins, stage]
    cases call with
    | stop reason => exact inv_replayTo hi (quiet_latch _ _) (held _ hold rfl)
    | storageFault st fault => exact inv_replayTo hi (quiet_storageFault _ _ _) (held _ hold rfl)
    | start =>
      exact (inv_replayTo hi (.refl _) (held (.calling .notify fault) hold rfl)).same
        ⟨rfl, rfl, rfl, rfl, rfl, rfl, rfl, rfl, rfl⟩
    | notify =>
      exact (inv_replayTo hi (.refl _) (held (.unpinning (.error fault)) hold rfl)).same
        ⟨rfl, rfl, rfl, rfl, rfl, rfl, rfl, rfl, rfl⟩
  | @unpinned result p stage accepted =>
    obtain ⟨rfl, hne⟩ := unpin_eq_some accepted
    refine inv_replayPins hi ?_
    have hold : replayPins s.replay = 1 := by
      rw [hr]
      show r.pins = 1
      rw [Replay.pins, stage]
    have hnew : replayPins (some { r with stage := .finishing result }) = 0 := rfl
    omega
  | finished stage =>
    refine (inv_replayTo hi (r := none) (.refl _) ?_).same
      ⟨rfl, rfl, rfl, rfl, rfl, rfl, rfl, rfl, rfl⟩
    rw [hr]
    show 0 = r.pins
    rw [Replay.pins, stage]

/-- A sender touches the books only to start a replay. -/
theorem inv_senderMoved (hi : Inv limit s) {g : Nat} {sender : Sender} {act : SenderAct}
    (h : SenderMoved s g sender act t) : Inv limit t := by
  cases h with
  | @replaying st stop stage free =>
    refine (inv_replayPins hi (r := some ⟨g, st, sender.position.get st, stop, .reading⟩)
      (n := s.policy.ioInflight + 1) ?_).same ⟨rfl, rfl, rfl, rfl, rfl, rfl, rfl, rfl, rfl⟩
    rw [free]
    rfl
  | _ => exact hi.same ⟨rfl, rfl, rfl, rfl, rfl, rfl, rfl, rfl, rfl⟩

/-! ## Every run -/

theorem wait_books (s : State) (result : Except String ExitResult) : SameBooks s (s.wait result) := by
  cases result <;> exact ⟨rfl, rfl, rfl, rfl, rfl, rfl, rfl, rfl, rfl⟩

theorem operationStep_books {m : Meta} {now : Nat} {kernel : Kernel}
    (h : s.operationStep m now kernel = some t) : SameBooks s t := by
  obtain ⟨operation, _, rfl⟩ := Option.map_eq_some_iff.mp h
  dsimp only
  split <;> exact ⟨rfl, rfl, rfl, rfl, rfl, rfl, rfl, rfl, rfl⟩

/-- **The books stay in order.** -/
theorem inv_step (hlimit : limit ≤ u64Max) (hi : Inv limit s) {a : Act} (h : step s a = some t) :
    Inv limit t := by
  cases step_moved h with
  | collector h => exact inv_collectorMoved hlimit hi h
  | writer worker live h => exact inv_writerMoved hi worker h
  | replay gate h => exact inv_replayMoved hi gate h
  | sender attached h => exact inv_senderMoved hi h
  | waited first => exact hi.same (wait_books s _)
  | operationStep read h => exact hi.same (operationStep_books h)
  | refused rejected => exact hi
  | _ => exact hi.same ⟨rfl, rfl, rfl, rfl, rfl, rfl, rfl, rfl, rfl⟩

theorem inv_init (h : (machine limit).init s) : Inv limit s := by
  obtain ⟨operation, setupFailed, pipes, -, -, rfl⟩ := h
  exact inv_initial _ _ _ _

theorem reachable_inv (hlimit : limit ≤ u64Max) (h : (machine limit).Reachable s) : Inv limit s :=
  h.invariant (fun _ => inv_init) fun _ _ _ _ hi _ hs => inv_step hlimit hi hs

/-! ## Within the budget -/

/-- The collector is handling a read. -/
def Collector.handling : Collector → Bool
  | .observing _ (.bytes _) _ => true
  | .admitting _ _ => true
  | .calling _ next => next.handling
  | _ => false

theorem hand_of_not_handling {c : Collector} (h : c.handling = false) (st : Stream) :
    c.hand st = [] := by
  induction c with
  | calling call next ih => exact ih h
  | observing st' result tail =>
    cases result with
    | bytes data => cases h
    | error => rfl
  | admitting st' data => cases h
  | _ => rfl

/-- **The accounting of a session**: what is retained and reserved fits the limit, what was read is
retained, reserved or discarded, and reservations and pins are those of the writes and the replay
that are under way. -/
structure Accounted (limit : Nat) (s : State) : Prop where
  charge : s.policy.streams.stdout.retained + s.policy.streams.stderr.retained +
    s.policy.streams.stdout.reserved + s.policy.streams.stderr.reserved ≤ limit
  read : s.collector.handling = false → ∀ st, (s.read.get st).length =
    (s.policy.streams.get st).retained + (s.policy.streams.get st).reserved +
      (s.policy.streams.get st).discarded
  reserved : ∀ st, (s.policy.streams.get st).reserved = outstanding (s.writers.get st)
  pins : s.policy.ioInflight =
    total (fun st => writerPins (s.writers.get st)) + replayPins s.replay
  ioInflight : s.policy.ioInflight ≤ 3
  tailRead : s.policy.tailRead ≤ tailBytes
  ends : ∀ st, s.metadata.ends.get st = (s.policy.streams.get st).retained

/-- Wherever a section can panic, it does not. -/
structure Unpanicked (s : State) : Prop where
  look : ∀ p now, s.collector = .clock p → ∃ t, s.look p now = some t
  admitRead : ∀ st data, s.collector = .admitting st data → ∃ t, s.admitRead st data = some t
  spawn : ∀ st, s.collector = .spawning st → ∃ t, s.spawn st = some t
  record : ∀ st w count, s.writers.get st = some w → w.stage = .recording count →
    ∃ p, s.policy.recordWrite st count = some p
  settle : ∀ st w fault, s.writers.get st = some w → w.stage = .settling fault →
    ∃ p, s.policy.settleWrite st (w.data.length - w.recorded) fault.isSome = some p
  unpin : ∀ st w, s.writers.get st = some w → w.stage = .unpinning → ∃ p, s.policy.unpin = some p
  replay : ∀ r result, s.replay = some r → r.stage = .unpinning result →
    ∃ p, s.policy.unpin = some p

theorem writer_pins_le (w : Option Writer) : writerPins w ≤ 1 := by
  cases w with
  | none => exact Nat.zero_le _
  | some w =>
    show w.pins ≤ 1
    unfold Writer.pins
    split <;> omega

theorem replay_pins_le (r : Option Replay) : replayPins r ≤ 1 := by
  cases r with
  | none => exact Nat.zero_le _
  | some r =>
    show r.pins ≤ 1
    unfold Replay.pins
    split <;> omega

theorem Inv.accounted (hi : Inv limit s) : Accounted limit s where
  charge := by
    have := hi.charge
    simp only [OutputFact.charge, total, paid, PerStream.get_stdout, PerStream.get_stderr] at this
    omega
  read hno st := by
    have := (hi.accounts st).read
    rw [show (s.account st).hand = [] from hand_of_not_handling hno st] at this
    exact this
  reserved st := (hi.accounts st).reserved
  pins := hi.pins
  ioInflight := by
    have hpins := hi.pins
    have := writer_pins_le (s.writers.get .stdout)
    have := writer_pins_le (s.writers.get .stderr)
    have := replay_pins_le s.replay
    rw [hpins, total]
    omega
  tailRead := hi.tailRead
  ends st := (hi.accounts st).stop

/-- What holds a pin keeps the count from zero. -/
theorem unpin_isSome (h : p.ioInflight ≠ 0) : ∃ q, p.unpin = some q := ⟨_, if_neg h⟩

theorem Inv.unpanicked (hlimit : limit ≤ u64Max) (hi : Inv limit s) : Unpanicked s where
  look p now hc := by
    have hp : Snapshot s.policy s.admissions p := by
      have := hi.knows
      rw [hc] at this
      exact this
    unfold State.look
    dsimp only
    repeat' split
    all_goals try exact ⟨_, rfl⟩
    rw [available_eq hp.charge (by rw [hp.limit, hi.limited]; exact hlimit)]
    exact ⟨_, rfl⟩
  admitRead st data hc := by
    obtain ⟨retained, _, hadm⟩ := admit_eq (p := s.policy) (hi.limited.symm ▸ hi.charge)
      (hi.limited.symm ▸ hlimit) st data.length
    unfold State.admitRead
    rw [hadm]
    exact ⟨_, rfl⟩
  spawn st hc := by
    obtain ⟨w, hw, _, hheld⟩ := spawning_queued hi hc
    unfold State.spawn
    rw [hheld, hw]
    exact ⟨_, rfl⟩
  record st w count hw hstage := by
    obtain ⟨hok, hreserved, _⟩ := account_worker hi hw
    exact recordWrite_isSome (hi.limited.symm ▸ hi.charge) (hi.limited.symm ▸ hlimit)
      (hreserved.symm ▸ (hok.recording count hstage).2)
  settle st w fault hw hstage := by
    obtain ⟨_, hreserved, _⟩ := account_worker hi hw
    refine settleWrite_isSome ?_
    rw [hreserved, Writer.rest, hstage]
    exact Nat.le_of_eq List.length_drop.symm
  unpin st w hw hstage := by
    have hpin : writerPins (s.writers.get st) = 1 := by
      rw [hw]
      show w.pins = 1
      rw [Writer.pins, hstage]
    have hle := le_total (fun st => writerPins (s.writers.get st)) st
    have hpins := hi.pins
    exact unpin_isSome (by omega)
  replay r result hr hstage := by
    have hpin : replayPins s.replay = 1 := by
      rw [hr]
      show r.pins = 1
      rw [Replay.pins, hstage]
    have hpins := hi.pins
    exact unpin_isSome (by omega)

/-- **The budget is kept.** In every reachable state of a session with a `u64` limit the accounts
add up, and none of the checked sums, differences and decrements of its sections can fail. -/
theorem budget_kept (hlimit : limit ≤ u64Max) (h : (machine limit).Reachable s) :
    Accounted limit s ∧ Unpanicked s :=
  have hi := reachable_inv hlimit h
  ⟨hi.accounted, hi.unpanicked hlimit⟩

/-- Three bytes of a limit of two: a partial write is recorded while the stop is being called. -/
theorem budget_kept_partial : ∃ s, (machine 2).Reachable s ∧
    s.policy.streams.stdout.retained = 1 ∧ s.policy.streams.stdout.reserved = 1 ∧
      s.policy.streams.stdout.discarded = 1 ∧ s.policy.ioInflight = 1 ∧ Accounted 2 s := by
  let labels : List Act := [.collector .setup, .collector .setup, .collector .enable,
    .collector .snapshot, .collector (.look 0), .collector (.read .stdout (.bytes [1, 2, 3])),
    .collector .observe, .collector .admitRead, .collector (.call ⟨0, 5, 5⟩),
    .collector (.call ⟨0, 5, 5⟩), .collector (.call ⟨0, 5, 5⟩), .collector .spawn,
    .writer .stdout (.write 1), .writer .stdout .record]
  have start : (machine 2).Reachable
      (initial 2 { cancellation := .verifyAcquired (.ok ()) (.ok true) } false (.both true)) :=
    .init ⟨_, false, _, ⟨.ok (), .ok true, rfl⟩, fun _ => rfl, rfl⟩
  have reached := Machine.Reachable.run start labels rfl
  exact ⟨_, reached, rfl, rfl, rfl, rfl, (budget_kept (by decide) reached).1⟩

end Pipekeep.Bounds
