import Pipekeep.Laws.Tail

/-!
# What wakes the collector

A turn of the collector waits in its `select` for a pipe, a write, a deadline or a notification.
`Watchful` says that none of its decisions leaves it without any of them: a stop that was latched
has started the operation or is about to (`Begun`), and a stop that the turn has not seen is being
announced (`Alerted`). An operation that could never start has failed at once, and then the turn
does not wait.
-/

namespace Pipekeep

namespace Operation

variable {s t : Operation}

/-- An operation that has started stays started. -/
theorem step_started {act : Act} (h : machine.Reachable s) (hs : step s act = some t)
    (started : s.cancellation.phase ≠ .ready) : t.cancellation.phase ≠ .ready := by
  cases act with
  | start now grace settlement =>
    cases hs
    rcases start_cases s now grace settlement with ⟨_, he⟩ | ⟨hp, _⟩
    · rw [he]
      exact started
    · exact absurd hp started
  | turn now m kernel =>
    have hi := inv_step (reachable_inv h) hs
    obtain ⟨_, _, _, _, _, rfl⟩ := turn_inv hs
    exact (hi.running (Option.some_ne_none _)).1

/-- An operation past its start has its deadline, or it had failed before it could start. -/
theorem started_cases (h : machine.Reachable s) (started : s.cancellation.phase ≠ .ready) :
    s.cancellation.finishDeadline.isSome = true ∨
      s.cancellation.finished = true ∧ s.cancellation.groupAbsent = false := by
  have hi := reachable_inv h
  cases htask : s.task with
  | some first => exact .inl (hi.running (by rw [htask]; exact Option.some_ne_none _)).2.2
  | none =>
    obtain ⟨hphase, -, -, hnone⟩ := hi.idle htask
    obtain ⟨e, he⟩ := hi.failed (hphase.resolve_left started)
    refine .inr ⟨by rw [Cancellation.finished, he]; rfl, ?_⟩
    cases habsent : s.cancellation.groupAbsent with
    | false => rfl
    | true =>
      have := absent_deadline h habsent
      rw [hnone] at this
      cases this

end Operation

namespace Bounds

open OutputFact

variable {limit : Nat} {s t : State}

/-- A call of `stop` or `storage_fault` that has latched its stop and has not returned. -/
def Call.latched : Call → Bool
  | .start | .notify => true
  | .stop _ | .storageFault _ _ => false

/-- A call is under way in another task: the replay's, or that of a write worker, whose failed write
has latched the stop before it calls. -/
inductive State.Calling (s : State) : Prop
  | replay {r : Replay} {c : Call} {fault : StorageFault} (gate : s.replay = some r)
      (stage : r.stage = .calling c fault) (latched : c.latched = true) : Calling s
  | writer {st : Stream} {w : Writer} {c : Call} (worker : s.writers.get st = some w)
      (live : w.lost = false) (stage : w.stage = .calling c) : Calling s

/-- What ends the turn's wait, whatever its pipes and its writes do: its deadline, a notification
since the turn began, one that a call has still to send, or a lost write to join. -/
inductive Roused (s : State) (turn : Turn) : Prop
  | deadline (armed : turn.deadline.isSome = true)
  | notified (sent : s.notified = true)
  | calling (call : s.Calling)
  | lost {st : Stream} {w : Writer} (joins : s.writes.get st = true)
      (worker : s.writers.get st = some w) (lost : w.lost = true)

/-- A waiting turn has a wakeup, and after a stop one that comes of itself. -/
structure Watched (s : State) (turn : Turn) : Prop where
  source : (∃ st, s.writes.get st = true) ∨ (∃ st, turn.enabled.get st = true) ∨ Roused s turn
  stopped : s.policy.firstStop.isSome = true → Roused s turn

/-! ## Stops that have been latched -/

/-- A stop is announced, or will be by the call that has latched it. -/
inductive Alerted (s : State) : Prop
  | notified (sent : s.notified = true)
  | replay {r : Replay} {c : Call} {fault : StorageFault} (gate : s.replay = some r)
      (stage : r.stage = .calling c fault) (latched : c.latched = true)
  | writer {st : Stream} {w : Writer} {c : Call} (joins : s.writes.get st = true)
      (worker : s.writers.get st = some w) (stage : w.stage = .calling c)

/-- The collector is in a call that starts the operation. -/
def Collector.starts : Collector → Bool
  | .calling .notify _ => false
  | .calling _ _ => true
  | _ => false

/-- The operation has been started, or will be by the call that has latched the stop; a worker that
was lost in its call leaves it to the collector, which has still to join it. -/
inductive Begun (s : State) : Prop
  | started (h : s.operation.cancellation.phase ≠ .ready)
  | collector (h : s.collector.starts = true)
  | replay {r : Replay} {fault : StorageFault} (gate : s.replay = some r)
      (stage : r.stage = .calling .start fault)
  | writer {st : Stream} {w : Writer} {c : Call} (joins : s.writes.get st = true)
      (worker : s.writers.get st = some w) (stage : w.stage = .calling c) (pending : c ≠ .notify)

/-- No turn has begun. -/
def Collector.between : Collector → Bool
  | .calling _ next => next.between
  | .clock _ | .select _ => false
  | _ => true

/-- What a turn relies on where the collector stands. -/
def State.Watches (s : State) : Collector → Prop
  | .calling _ next => next.between = true
  | .clock p => (p.collected = true → ∃ st, s.writes.get st = true) ∧
      (s.policy.firstStop.isSome = true → p.firstStop.isSome = true ∨ Alerted s)
  | .select turn =>
      ((∃ st, s.writes.get st = true) ∨ (∃ st, turn.enabled.get st = true) ∨
        turn.deadline.isSome = true ∨ Alerted s) ∧
      (s.policy.firstStop.isSome = true → turn.deadline.isSome = true ∨ Alerted s)
  | _ => True

/-- **Every latched stop is followed up.** -/
structure Watchful (s : State) : Prop where
  begun : s.policy.firstStop.isSome = true → Begun s
  stage : s.Watches s.collector

/-! ## The other tasks -/

/-- A step of another task than the collector that moves no call. -/
structure Unrung (s t : State) : Prop where
  notified : s.notified = true → t.notified = true
  started : s.operation.cancellation.phase ≠ .ready → t.operation.cancellation.phase ≠ .ready
  firstStop : t.policy.firstStop = s.policy.firstStop
  collector : t.collector = s.collector
  writes : t.writes = s.writes
  replay : ∀ r c fault, s.replay = some r → r.stage = .calling c fault → t.replay = some r
  writers : ∀ st w c, s.writers.get st = some w → w.stage = .calling c →
    ∃ w', t.writers.get st = some w' ∧ w'.stage = .calling c

/-- Whoever is about to notify is still there. -/
theorem Alerted.keep (h : Alerted s) (notified : s.notified = true → t.notified = true)
    (writes : t.writes = s.writes)
    (replay : ∀ r c fault, s.replay = some r → r.stage = .calling c fault → t.replay = some r)
    (writers : ∀ st w c, s.writers.get st = some w → w.stage = .calling c →
      ∃ w', t.writers.get st = some w' ∧ w'.stage = .calling c) : Alerted t := by
  cases h with
  | notified sent => exact .notified (notified sent)
  | replay gate stage latched => exact .replay (replay _ _ _ gate stage) stage latched
  | writer joins worker stage =>
    obtain ⟨w', hw', hstage⟩ := writers _ _ _ worker stage
    exact .writer (writes ▸ joins) hw' hstage

/-- A step without anything to notify of keeps the watch. -/
theorem Watchful.unrung (hw : Watchful s) (h : Unrung s t) : Watchful t := by
  have halerted : Alerted s → Alerted t := fun ha => ha.keep h.notified h.writes h.replay h.writers
  constructor
  · intro hstop
    rw [h.firstStop] at hstop
    cases hw.begun hstop with
    | started hs => exact .started (h.started hs)
    | collector hc => exact .collector (h.collector ▸ hc)
    | replay gate stage => exact .replay (h.replay _ _ _ gate stage) stage
    | writer joins worker stage pending =>
      obtain ⟨w', hw', hstage⟩ := h.writers _ _ _ worker stage
      exact .writer (h.writes ▸ joins) hw' hstage pending
  · have hstage := hw.stage
    rw [h.collector]
    cases hc : s.collector with
    | clock p =>
      rw [hc] at hstage
      refine ⟨h.writes ▸ hstage.1, fun hstop => ?_⟩
      exact (hstage.2 (h.firstStop ▸ hstop)).imp_right halerted
    | select turn =>
      rw [hc] at hstage
      refine ⟨?_, fun hstop => ?_⟩
      · rw [h.writes]
        exact hstage.1.imp_right (Or.imp_right (Or.imp_right halerted))
      · exact (hstage.2 (h.firstStop ▸ hstop)).imp_right halerted
    | calling call next =>
      rw [hc] at hstage
      exact hstage
    | _ => trivial

/-- A step of another task that leaves its stop announced and followed up. -/
theorem Watchful.rung (hw : Watchful s) (collector : t.collector = s.collector)
    (writes : t.writes = s.writes) (begun : t.policy.firstStop.isSome = true → Begun t)
    (alerted : Alerted t) : Watchful t := by
  refine ⟨begun, ?_⟩
  have hstage := hw.stage
  rw [collector]
  cases hc : s.collector with
  | clock p =>
    rw [hc] at hstage
    exact ⟨writes ▸ hstage.1, fun _ => .inr alerted⟩
  | select turn => exact ⟨.inr (.inr (.inr alerted)), fun _ => .inr alerted⟩
  | calling call next =>
    rw [hc] at hstage
    exact hstage
  | _ => trivial

/-- After a start the operation is past its first phase. -/
theorem start_started (o : Operation) (now grace settlement : Nat) :
    (o.start now grace settlement).cancellation.phase ≠ .ready := by
  rcases Operation.start_cases o now grace settlement with ⟨hp, he⟩ | ⟨_, he⟩
  · rw [he]
    exact hp
  · rw [he]
    exact nofun

/-- The collector waits for a spawned worker that has not been lost. -/
theorem joins_of_live (hi : Inv limit s) {st : Stream} {w : Writer}
    (worker : s.writers.get st = some w) (live : w.lost = false) (spawned : w.stage ≠ .queued) :
    s.writes.get st = true := by
  cases (hi.accounts st).slot with
  | idle hnone =>
    have : s.writers.get st = none := hnone
    rw [worker] at this
    cases this
  | queued hsome hqueued =>
    have : s.writers.get st = some _ := hsome
    rw [worker] at this
    cases this
    exact absurd hqueued spawned
  | running _ _ hjoins => exact hjoins
  | lost hsome _ hlost =>
    have : s.writers.get st = some _ := hsome
    rw [worker] at this
    cases this
    rw [live] at hlost
    cases hlost

/-- A worker that takes a step has been spawned. -/
theorem WriterMoved.spawned {st : Stream} {w : Writer} {act : WriterAct}
    (h : WriterMoved s st w act t) : w.stage ≠ .queued := by
  intro hqueued
  cases h with
  | lost spawned unfinished => exact spawned hqueued
  | _ stage => rw [hqueued] at stage; cases stage

/-- A worker that is not in a call moves to any other place. -/
theorem Watchful.worker (hw : Watchful s) {st : Stream} {w : Writer} {x : Option Writer}
    (worker : s.writers.get st = some w) (idle : ∀ c, w.stage ≠ .calling c)
    (notified : s.notified = true → t.notified = true) (operation : t.operation = s.operation)
    (firstStop : t.policy.firstStop = s.policy.firstStop) (collector : t.collector = s.collector)
    (writes : t.writes = s.writes) (replay : t.replay = s.replay)
    (writers : t.writers = s.writers.set st x) : Watchful t := by
  refine hw.unrung ⟨notified, operation ▸ id, firstStop, collector, writes,
    fun r c fault hr _ => replay.trans hr, fun st' w' c worker' stage => ?_⟩
  have hne : st' ≠ st := by
    rintro rfl
    rw [worker] at worker'
    cases worker'
    exact idle c stage
  rw [writers, PerStream.get_set_ne _ hne]
  exact ⟨w', worker', stage⟩

/-- A worker notifies after what it changes. -/
theorem watchful_writer (hi : Inv limit s) (hw : Watchful s) {st : Stream} {w : Writer}
    {act : WriterAct} (worker : s.writers.get st = some w) (live : w.lost = false)
    (h : WriterMoved s st w act t) : Watchful t := by
  have joins := joins_of_live hi worker live h.spawned
  have self : ∀ x : Writer, (s.writers.set st (some x)).get st = some x := fun x =>
    PerStream.get_set_self _ _ _
  cases h with
  | wrote stage positive fits =>
    exact hw.worker worker (by rw [stage]; exact nofun) id rfl rfl rfl rfl rfl rfl
  | refused stage more =>
    exact hw.worker worker (by rw [stage]; exact nofun) id rfl rfl rfl rfl rfl rfl
  | failed stage more =>
    exact hw.worker worker (by rw [stage]; exact nofun) id rfl rfl rfl rfl rfl rfl
  | recorded stage accepted =>
    obtain ⟨_, rfl⟩ := recordWrite_eq_some accepted
    exact hw.worker worker (by rw [stage]; exact nofun) id rfl rfl rfl rfl rfl rfl
  | notified stage =>
    exact hw.worker worker (by rw [stage]; exact nofun) (fun _ => rfl) rfl rfl rfl rfl rfl rfl
  | flushed stage all =>
    exact hw.worker worker (by rw [stage]; exact nofun) id rfl rfl rfl rfl rfl rfl
  | settled stage accepted =>
    obtain ⟨_, hp⟩ := settleWrite_eq_some accepted
    exact hw.worker worker (by rw [stage]; exact nofun) id rfl hp.firstStop rfl rfl rfl rfl
  | faulted stage accepted =>
    exact hw.rung rfl rfl (fun _ => .writer joins (self _) rfl nofun) (.writer joins (self _) rfl)
  | @called call clock stage =>
    cases call with
    | stop reason =>
      exact hw.rung rfl rfl (fun _ => .writer joins (self _) rfl nofun) (.writer joins (self _) rfl)
    | storageFault st' fault =>
      exact hw.rung rfl rfl (fun _ => .writer joins (self _) rfl nofun) (.writer joins (self _) rfl)
    | start =>
      exact hw.rung rfl rfl (fun _ => .started (start_started _ _ _ _)) (.writer joins (self _) rfl)
    | notify =>
      refine hw.rung rfl rfl (fun hstop => ?_) (.notified rfl)
      cases hw.begun hstop with
      | started hs => exact .started hs
      | collector hc => exact .collector hc
      | replay gate stage => exact .replay gate stage
      | @writer st' w' c joins' worker' stage' pending =>
        have hne : st' ≠ st := by
          rintro rfl
          rw [worker] at worker'
          cases worker'
          rw [stage] at stage'
          cases stage'
          exact pending rfl
        exact .writer joins' ((PerStream.get_set_ne _ hne _).trans worker') stage' pending
  | unpinned stage accepted =>
    obtain ⟨rfl, _⟩ := unpin_eq_some accepted
    exact hw.worker worker (by rw [stage]; exact nofun) id rfl rfl rfl rfl rfl rfl
  | finished stage =>
    exact hw.worker worker (by rw [stage]; exact nofun) (fun _ => rfl) rfl rfl rfl rfl rfl rfl
  | lost spawned unfinished =>
    refine hw.unrung ⟨id, id, rfl, rfl, rfl, fun _ _ _ hr _ => hr, fun st' w' c hw' hstage => ?_⟩
    by_cases heq : st' = st
    · subst heq
      rw [worker] at hw'
      cases hw'
      exact ⟨_, self _, hstage⟩
    · exact ⟨w', (PerStream.get_set_ne _ heq _).trans hw', hstage⟩

/-- A replay notifies with its last step. -/
theorem watchful_replay (hw : Watchful s) {r : Replay} {act : ReplayAct}
    (gate : s.replay = some r) (h : ReplayMoved s r act t) : Watchful t := by
  have idle : (∀ c fault, r.stage ≠ .calling c fault) → ∀ u : State, ∀ r' c fault,
      s.replay = some r' → r'.stage = .calling c fault → u.replay = some r' := by
    intro hidle u r' c fault hr hstage
    rw [gate] at hr
    cases hr
    exact absurd hstage (hidle c fault)
  have same : ∀ st w c, s.writers.get st = some w → w.stage = .calling c →
      ∃ w', s.writers.get st = some w' ∧ w'.stage = .calling c :=
    fun st w c worker stage => ⟨w, worker, stage⟩
  cases h with
  | openFailed stage =>
    exact hw.unrung ⟨id, id, rfl, rfl, rfl, idle (by rw [stage]; exact nofun) _, same⟩
  | readFailed stage answer =>
    exact hw.unrung ⟨id, id, rfl, rfl, rfl, idle (by rw [stage]; exact nofun) _, same⟩
  | read stage nonempty answer =>
    exact hw.unrung ⟨id, id, rfl, rfl, rfl, idle (by rw [stage]; exact nofun) _, same⟩
  | @called call fault clock stage =>
    cases call with
    | stop reason => exact hw.rung rfl rfl (fun _ => .replay rfl rfl) (.replay rfl rfl rfl)
    | storageFault st fault' =>
      exact hw.rung rfl rfl (fun _ => .replay rfl rfl) (.replay rfl rfl rfl)
    | start =>
      exact hw.rung rfl rfl (fun _ => .started (start_started _ _ _ _)) (.replay rfl rfl rfl)
    | notify =>
      refine hw.rung rfl rfl (fun hstop => ?_) (.notified rfl)
      cases hw.begun hstop with
      | started hs => exact .started hs
      | collector hc => exact .collector hc
      | replay gate' stage' =>
        rw [gate] at gate'
        cases gate'
        rw [stage] at stage'
        cases stage'
      | writer joins worker stage' pending => exact .writer joins worker stage' pending
  | unpinned stage accepted =>
    obtain ⟨rfl, _⟩ := unpin_eq_some accepted
    exact hw.unrung ⟨id, id, rfl, rfl, rfl, idle (by rw [stage]; exact nofun) _, same⟩
  | finished stage =>
    exact hw.unrung ⟨fun _ => rfl, id, rfl, rfl, rfl, idle (by rw [stage]; exact nofun) _, same⟩

/-- The tasks that call neither `stop` nor `storage_fault`. -/
theorem Watchful.aside (hw : Watchful s) (notified : s.notified = true → t.notified = true)
    (started : s.operation.cancellation.phase ≠ .ready → t.operation.cancellation.phase ≠ .ready)
    (policy : t.policy = s.policy) (collector : t.collector = s.collector)
    (writes : t.writes = s.writes) (writers : t.writers = s.writers)
    (replay : t.replay = s.replay) : Watchful t :=
  hw.unrung ⟨notified, started, by rw [policy], collector, writes, fun _ _ _ hr _ =>
    replay.trans hr, fun _ w _ worker stage => ⟨w, by rw [writers]; exact worker, stage⟩⟩

/-- A sender changes nothing that the collector waits for. -/
theorem watchful_sender (hw : Watchful s) {g : Nat} {sender : Sender} {act : SenderAct}
    (h : SenderMoved s g sender act t) : Watchful t := by
  cases h with
  | replaying stage free =>
    refine hw.unrung ⟨id, id, rfl, rfl, rfl, fun r c fault hr _ => ?_, fun _ w _ worker stage =>
      ⟨w, worker, stage⟩⟩
    rw [free] at hr
    cases hr
  | _ => exact hw.aside id id rfl rfl rfl rfl rfl

/-! ## The collector -/

/-- Between two selects there is nothing to watch. -/
theorem watches_between {c : Collector} (h : c.between = true) : s.Watches c := by
  cases c with
  | calling call next => exact h
  | clock p => cases h
  | select turn => cases h
  | _ => trivial

/-- A step of the collector outside its calls. -/
theorem Begun.past (h : Begun s) (outside : s.collector.starts = false)
    (operation : t.operation = s.operation) (replay : t.replay = s.replay)
    (writers : ∀ st w c, s.writes.get st = true → s.writers.get st = some w →
      w.stage = .calling c → t.writes.get st = true ∧ t.writers.get st = some w) : Begun t := by
  cases h with
  | started hs => exact .started (operation ▸ hs)
  | collector hc =>
    rw [outside] at hc
    cases hc
  | replay gate stage => exact .replay (replay.trans gate) stage
  | writer joins worker stage pending =>
    obtain ⟨hjoins, hworker⟩ := writers _ _ _ joins worker stage
    exact .writer hjoins hworker stage pending

/-- A collector that has left its select watches nothing but what its stage says. -/
theorem Watchful.past (hw : Watchful s) (outside : s.collector.starts = false)
    (firstStop : t.policy.firstStop = s.policy.firstStop) (operation : t.operation = s.operation)
    (replay : t.replay = s.replay) (writes : t.writes = s.writes) (writers : t.writers = s.writers)
    (stage : t.Watches t.collector) : Watchful t := by
  refine ⟨fun hstop => ?_, stage⟩
  rw [firstStop] at hstop
  exact (hw.begun hstop).past outside operation replay fun st w c hjoins hworker _ =>
    ⟨writes ▸ hjoins, writers ▸ hworker⟩

/-- A turn that waits has not found an operation that failed to start. -/
theorem look_open {p : OutputFact} {now : Nat} {turn : Turn} (h : s.look p now = some t)
    (waits : t.collector = .select turn) (finished : s.operation.cancellation.finished = true)
    (present : s.operation.cancellation.groupAbsent = false) : p.firstStop = none := by
  unfold State.look at h
  dsimp only at h
  split at h
  · cases h
    cases waits
  split at h
  · cases h
    cases waits
  · rename_i hopen
    simp only [finished, present, Bool.not_false, Bool.and_self, Bool.true_and, Bool.or_eq_true,
      not_or, Bool.not_eq_true, Option.isSome_eq_false_iff, Option.isNone_iff_eq_none] at hopen
    exact hopen.1

/-- What is not collected is still being read, on one stream at least. -/
theorem reading_of_not_collected {p : OutputFact} (h : p.collected = false) :
    ∃ st, (p.streams.get st).collection = .reading := by
  unfold OutputFact.collected at h
  rcases Bool.and_eq_false_iff.mp h with hout | herr
  · exact ⟨.stdout, by simpa using hout⟩
  · exact ⟨.stderr, by simpa using herr⟩

/-- Before a stop every open stream is read, or its last read is still being written. -/
theorem turn_reads (s : State) {p : OutputFact} (running : p.firstStop = none) (available : Nat)
    {st : Stream} (opened : (p.streams.get st).collection = .reading)
    (free : s.writes.get st = false) : (s.turn p false available).enabled.get st = true := by
  cases st with
  | stdout =>
    have hopen : p.streams.stdout.collection = .reading := opened
    have hfree : s.writes.stdout = false := free
    simp [State.turn, running, hopen, hfree]
  | stderr =>
    have hopen : p.streams.stderr.collection = .reading := opened
    have hfree : s.writes.stderr = false := free
    simp [State.turn, running, hopen, hfree]

/-- A look that goes on to a turn enables what may still come. -/
theorem watchful_looked (hi : Inv limit s) (hop : Operation.machine.Reachable s.operation)
    (hw : Watchful s) {p : OutputFact} {now : Nat} (stage : s.collector = .clock p)
    (h : s.look p now = some t) : Watchful t := by
  have outside : s.collector.starts = false := by rw [stage]; rfl
  have hclock := hw.stage
  rw [stage] at hclock
  cases look_looked h with
  | finished late => exact hw.past outside rfl rfl rfl rfl rfl trivial
  | unconfirmed finished present started => exact hw.past outside rfl rfl rfl rfl rfl trivial
  | tailTime stopped late => exact hw.past outside rfl rfl rfl rfl rfl trivial
  | tailBytes stopped started spent => exact hw.past outside rfl rfl rfl rfl rfl trivial
  | @select tail available early phase running unspent left =>
    have hfailed := look_open h rfl
    have halerted : ∀ d c, Alerted s → Alerted { s with tailDeadline := d, collector := c } :=
      fun d c ha => ha.keep id rfl (fun _ _ _ hr _ => hr) fun _ w _ hworker hs => ⟨w, hworker, hs⟩
    have hstopped : s.policy.firstStop.isSome = true →
        ((s.tailDeadlineAt p now).or s.operation.cancellation.finishDeadline).isSome = true ∨
          Alerted s := by
      intro hstop
      rcases hclock.2 hstop with hp | ha
      · cases hw.begun hstop with
        | started hs =>
          rcases Operation.started_cases hop hs with hfinish | ⟨hfinished, hpresent⟩
          · exact .inl (by rw [Option.isSome_or, hfinish, Bool.or_true])
          · rw [hfailed hfinished hpresent] at hp
            cases hp
        | collector hc =>
          rw [outside] at hc
          cases hc
        | replay gate hs => exact .inr (.replay gate hs rfl)
        | writer joins worker hs _ => exact .inr (.writer joins worker hs)
      · exact .inr ha
    refine hw.past outside rfl rfl rfl rfl rfl ⟨?_, fun hstop =>
      (hstopped hstop).imp_right (halerted _ _)⟩
    cases hp : p.firstStop with
    | some reason =>
      have hstop := clock_stopped hi stage (by rw [hp]; rfl)
      exact .inr (.inr ((hstopped hstop).imp_right (halerted _ _)))
    | none =>
      have htail : tail = false := by
        rw [phase, hp]
        rfl
      subst htail
      cases hcollected : p.collected with
      | true => exact .inl (hclock.1 hcollected)
      | false =>
        obtain ⟨st, hreading⟩ := reading_of_not_collected hcollected
        cases hfree : s.writes.get st with
        | true => exact .inl ⟨st, hfree⟩
        | false => exact .inr (.inl ⟨st, turn_reads _ hp available hreading hfree⟩)

/-- A step that leaves the collector in a call that starts the operation. -/
theorem watchful_calling {c : Call} {next : Collector} (stage : t.collector = .calling c next)
    (starts : c ≠ .notify) (between : next.between = true) : Watchful t := by
  refine ⟨fun _ => .collector ?_, ?_⟩
  · rw [stage]
    cases c with
    | notify => exact absurd rfl starts
    | _ => rfl
  · rw [stage]
    exact between

/-- A call of the collector itself is not waited for. -/
theorem watchful_called (hw : Watchful s) {call : Call} {next : Collector} {clock : Clock}
    (stage : s.collector = .calling call next) : Watchful { (s.call call clock).1 with
      collector := ((s.call call clock).2.map (Collector.calling · next)).getD next } := by
  have hbetween := hw.stage
  rw [stage] at hbetween
  cases call with
  | stop reason => exact watchful_calling rfl nofun hbetween
  | storageFault st fault => exact watchful_calling rfl nofun hbetween
  | start => exact ⟨fun _ => .started (start_started _ _ _ _), hbetween⟩
  | notify =>
    exact hw.past (by rw [stage]; rfl) rfl rfl rfl rfl rfl (watches_between hbetween)

/-- The account of a read leads away from the select. -/
theorem watchful_observed (hw : Watchful s) {st : Stream} {result : ReadResult} {tail : Bool}
    (stage : s.collector = .observing st result tail) :
    Watchful (s.observe st result tail) := by
  have outside : s.collector.starts = false := by rw [stage]; rfl
  cases result with
  | error => exact watchful_calling rfl nofun rfl
  | bytes data =>
    cases data with
    | nil => exact hw.past outside rfl rfl rfl rfl rfl rfl
    | cons b bs => cases tail <;> exact hw.past outside rfl rfl rfl rfl rfl trivial

/-- After a stop nothing is retained. -/
theorem admitRead_stopped {p q : OutputFact} {st : Stream} {n retained : Nat}
    (h : p.admitRead st n = some (q, retained)) (stopped : p.firstStop.isSome = true) :
    retained = 0 := by
  unfold OutputFact.admitRead OutputFact.retainable at h
  rw [if_pos stopped] at h
  simp only [Option.bind_eq_bind, Option.bind_some, Option.bind_eq_some_iff] at h
  obtain ⟨_, _, heq⟩ := h
  cases heq
  rfl

/-- An admission that retains all of its read latches no stop. -/
theorem reserve_firstStop (p : OutputFact) (st : Stream) (n : Nat) :
    (p.reserve st n n).firstStop = p.firstStop := by
  unfold OutputFact.reserve
  simp only [ne_eq, not_true_eq_false, if_false]
  split <;> rfl

/-- An admission leads to a stage between two selects. -/
theorem admitted_between (st : Stream) (n retained : Nat) :
    (Collector.admitted st n retained).between = true := by
  apply Collector.admitted_cases (P := fun c => c.between = true)
  · rfl
  · rfl
  · intro _ hnext
    exact hnext

/-- An admission leads away from the select. -/
theorem watchful_admitted (hw : Watchful s) {st : Stream} {data : List UInt8} {p : OutputFact}
    {retained : Nat} (stage : s.collector = .admitting st data)
    (accepted : s.policy.admitRead st data.length = some (p, retained)) : Watchful { s with
      policy := p
      writers :=
        if retained ≠ 0 then s.writers.set st (some { data := data.take retained })
        else s.writers
      admissions := s.admissions ++ [⟨st, data.length, retained⟩]
      collector := .admitted st data.length retained } := by
  refine ⟨fun hstop => ?_, watches_between (admitted_between _ _ _)⟩
  by_cases hall : retained = data.length
  · have hp := admit_reserve accepted
    rw [hall] at hp
    have hstopped : s.policy.firstStop.isSome = true := by
      rw [← reserve_firstStop s.policy st data.length, ← hp]
      exact hstop
    have hzero := admitRead_stopped accepted hstopped
    refine (hw.begun hstopped).past (by rw [stage]; rfl) rfl rfl fun _ w _ hjoins hworker _ => ?_
    exact ⟨hjoins, (if_neg fun hne : retained ≠ 0 => hne hzero).symm ▸ hworker⟩
  · refine .collector ?_
    show (Collector.admitted st data.length retained).starts = true
    unfold Collector.admitted
    rw [if_pos hall]
    rfl

/-- **A step of the collector keeps the watch.** -/
theorem watchful_collector (hi : Inv limit s) (hop : Operation.machine.Reachable s.operation)
    (hw : Watchful s) {act : CollectorAct} (h : collectorStep s act = some t) : Watchful t := by
  cases collectorStep_moved h with
  | called stage => exact watchful_called hw stage
  | @present st stage pipe =>
    refine hw.past (by rw [stage]; rfl) rfl rfl rfl rfl rfl (watches_between ?_)
    cases st <;> rfl
  | @missing st stage pipe =>
    refine watchful_calling rfl nofun ?_
    cases st <;> rfl
  | enabled stage => exact hw.past (by rw [stage]; rfl) rfl rfl rfl rfl rfl trivial
  | returned stage collected joined => exact hw.past (by rw [stage]; rfl) rfl rfl rfl rfl rfl trivial
  | snapshot stage opened =>
    exact hw.past (by rw [stage]; rfl) rfl rfl rfl rfl rfl ⟨opened, fun hstop => .inl hstop⟩
  | looked stage _ =>
    unfold collectorStep at h
    rw [stage] at h
    exact watchful_looked hi hop hw stage h
  | closed stage => exact hw.past (by rw [stage]; rfl) rfl rfl rfl rfl rfl rfl
  | lost stage joins worker lost => exact watchful_calling rfl nofun rfl
  | @joined turn st w stage joins worker live finished =>
    refine ⟨fun hstop => (hw.begun hstop).past (by rw [stage]; rfl) rfl rfl
      fun st' w' c hjoins hworker hstage => ?_, trivial⟩
    have hne : st' ≠ st := by
      rintro rfl
      rw [worker] at hworker
      cases hworker
      rw [finished] at hstage
      cases hstage
    exact ⟨(PerStream.get_set_ne _ hne _).trans hjoins,
      (PerStream.get_set_ne _ hne _).trans hworker⟩
  | woken stage source => exact hw.past (by rw [stage]; rfl) rfl rfl rfl rfl rfl trivial
  | read stage enabled fits => exact hw.past (by rw [stage]; rfl) rfl rfl rfl rfl rfl trivial
  | readError stage enabled => exact hw.past (by rw [stage]; rfl) rfl rfl rfl rfl rfl trivial
  | observed stage => exact watchful_observed hw stage
  | admitted stage accepted => exact watchful_admitted hw stage accepted
  | @spawned st w stage file worker =>
    obtain ⟨w', hw', hqueued, -⟩ := spawning_queued hi stage
    rw [worker] at hw'
    cases hw'
    refine ⟨fun hstop => (hw.begun hstop).past (by rw [stage]; rfl) rfl rfl
      fun st' w' c hjoins hworker hstage => ?_, trivial⟩
    have hne : st' ≠ st := by
      rintro rfl
      rw [worker] at hworker
      cases hworker
      rw [hqueued] at hstage
      cases hstage
    exact ⟨(PerStream.get_set_ne _ hne _).trans hjoins,
      (PerStream.get_set_ne _ hne _).trans hworker⟩

/-! ## The machine -/

/-- **One step keeps the watch.** -/
theorem watchful_step (hi : Inv limit s) (hk : Known s) (hw : Watchful s) {a : Act}
    (h : step s a = some t) : Watchful t := by
  have hstarted : s.operation.cancellation.phase ≠ .ready →
      t.operation.cancellation.phase ≠ .ready := by
    intro hs
    rcases (step_published hk h).2 with he | ⟨act, hact⟩
    · rw [he]
      exact hs
    · exact Operation.step_started hk.operation hact hs
  cases step_moved h with
  | collector _ => exact watchful_collector hi hk.operation hw h
  | writer worker live h => exact watchful_writer hi hw worker live h
  | replay gate h => exact watchful_replay hw gate h
  | sender attached h => exact watchful_sender hw h
  | @waited result first =>
    cases result <;> exact hw.aside id hstarted rfl rfl rfl rfl rfl
  | waitNotified pending => exact hw.aside (fun _ => rfl) hstarted rfl rfl rfl rfl rfl
  | operationNotified stepped => exact hw.aside (fun _ => rfl) hstarted rfl rfl rfl rfl rfl
  | operationStep read h =>
    obtain ⟨operation, _, rfl⟩ := Option.map_eq_some_iff.mp h
    dsimp only at hstarted ⊢
    split <;> exact hw.aside id hstarted rfl rfl rfl rfl rfl
  | _ => exact hw.aside id hstarted rfl rfl rfl rfl rfl

/-- The collector does not start with a select. -/
theorem watchful_init (h : (machine limit).init s) : Watchful s := by
  obtain ⟨operation, setupFailed, pipes, -, -, rfl⟩ := h
  cases setupFailed with
  | true => exact watchful_calling rfl nofun rfl
  | false => exact ⟨nofun, trivial⟩

/-- In every reachable state the collector is watched over. -/
theorem reachable_watchful (hlimit : limit ≤ u64Max) (h : (machine limit).Reachable s) :
    Watchful s :=
  h.invariant (fun _ => watchful_init) fun _ _ _ hr hw _ hs =>
    watchful_step (reachable_inv hlimit hr) (reachable_known hr) hw hs

/-- Whoever is about to notify rouses the collector. -/
theorem Alerted.roused (h : Alerted s) (turn : Turn) : Roused s turn := by
  cases h with
  | notified sent => exact .notified sent
  | replay gate stage latched => exact .calling (.replay gate stage latched)
  | @writer st w c joins worker stage =>
    cases hlost : w.lost with
    | false => exact .calling (.writer worker hlost stage)
    | true => exact .lost joins worker hlost

/-- **The collector is never stranded.** In every reachable state in which it waits in its `select`
there is a wakeup, and after a stop one that needs no answer of a pipe or of a write. -/
theorem never_stranded (hlimit : limit ≤ u64Max) (h : (machine limit).Reachable s) {turn : Turn}
    (waits : s.collector = .select turn) : Watched s turn := by
  have hstage := (reachable_watchful hlimit h).stage
  rw [waits] at hstage
  obtain ⟨hsource, hstopped⟩ := hstage
  have hroused : turn.deadline.isSome = true ∨ Alerted s → Roused s turn := fun h =>
    h.elim .deadline fun ha => ha.roused turn
  exact ⟨hsource.imp_right (Or.imp_right hroused), fun hstop => hroused (hstopped hstop)⟩

/-- After an over-long read whose write is done, no pipe is read and the operation's deadline is
what the collector waits for. -/
theorem never_stranded_paused : ∃ (s : State) (turn : Turn), s.collector = .select turn ∧
    s.policy.firstStop = some .outputLimit ∧ turn.enabled = .both false ∧ s.writes = .both false ∧
      s.notified = false ∧ turn.deadline = some 1000 ∧ Watched s turn := by
  let acts : List Act := [.collector .setup, .collector .setup, .collector .enable,
    .collector .snapshot, .collector (.look 0), .collector (.read .stdout (.bytes [1, 2, 3])),
    .collector .observe, .collector .admitRead, .collector (.call ⟨0, 500, 500⟩),
    .collector (.call ⟨0, 500, 500⟩), .collector (.call ⟨0, 500, 500⟩), .collector .spawn,
    .writer .stdout (.write 2), .writer .stdout .record, .writer .stdout .notify,
    .writer .stdout (.flush true), .writer .stdout .settle, .writer .stdout .unpin,
    .writer .stdout .notify, .collector .enable, .collector .snapshot, .collector (.look 1),
    .collector (.joined .stdout), .collector .enable, .collector .snapshot, .collector (.look 2)]
  have start : (machine 2).Reachable
      (initial 2 { cancellation := .verifyAcquired (.ok ()) (.ok true) } false (.both true)) :=
    .init ⟨_, false, _, ⟨.ok (), .ok true, rfl⟩, fun _ => rfl, rfl⟩
  have reached := Machine.Reachable.run start acts rfl
  exact ⟨_, _, rfl, rfl, rfl, rfl, rfl, rfl, never_stranded (by decide) reached rfl⟩

end Bounds

end Pipekeep
