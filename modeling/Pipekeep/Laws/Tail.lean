import Pipekeep.Laws.Budget
import Pipekeep.Laws.Forward

/-!
# What is read after a stop

Once a turn has seen a stop the collector reads only in its tail, and the tail starts when the group
is gone and no write is outstanding. `Halted` is where the collector may then stand, in any run
(`halted_step`); `Tailing` says what a fixed tail deadline means, in every reachable state. From
then on nothing is written, so what is retained stays and what is read is discarded.
-/

namespace Pipekeep

namespace Operation

/-- A group is only known to be gone after the operation has its deadlines. -/
theorem absent_deadline {s : Operation} (h : machine.Reachable s) :
    s.cancellation.groupAbsent = true → s.cancellation.finishDeadline.isSome = true := by
  induction h with
  | init hinit =>
    obtain ⟨handle, probe, rfl⟩ := hinit
    intro habsent
    have hno : (Cancellation.verifyAcquired handle probe).groupAbsent = false := by
      cases handle with
      | error e => rfl
      | ok u => cases probe <;> rfl
    cases habsent.symm.trans hno
  | @step s t act hr _ hs ih =>
    have hsafe := (cancellation_safe hr).2 act t hs
    intro habsent
    have hold : s.cancellation.finishDeadline.isSome = true := by
      cases hb : s.cancellation.groupAbsent with
      | true => exact ih hb
      | false =>
        obtain ⟨now, m, kernel, exit, rfl, -⟩ := hsafe.latch hb habsent
        obtain ⟨first, c, calls, htask, -⟩ := turn_inv hs
        exact ((reachable_inv hr).running (by rw [htask]; exact Option.some_ne_none _)).2.2
    exact Latched.isSome hsafe.finishFixed hold

end Operation

namespace Bounds

open OutputFact

variable {limit : Nat} {s t : State}

/-- A step keeps the group's absence and the operation's deadline. -/
theorem step_operation (hk : Known s) {a : Act} (h : step s a = some t) :
    (s.operation.cancellation.groupAbsent = true → t.operation.cancellation.groupAbsent = true) ∧
      Latched s.operation.cancellation.finishDeadline t.operation.cancellation.finishDeadline := by
  rcases (step_published hk h).2 with he | ⟨act, hact⟩
  · rw [he]
    exact ⟨id, .refl _⟩
  · have hsafe := (Operation.cancellation_safe hk.operation).2 act _ hact
    exact ⟨hsafe.absent, hsafe.finishFixed⟩

/-! ## The collector after a stop -/

/-- Where the collector stands once a turn has seen the stop: it reads only in the tail. -/
def Collector.Halts : Collector → Prop
  | .calling _ next => next.Halts
  | .clock p => p.firstStop.isSome = true
  | .select turn => turn.tail = false → ∀ st, turn.enabled.get st = false
  | .observing _ _ tail => tail = true
  | .setup _ | .admitting _ _ | .spawning _ => False
  | _ => True

/-- A turn has seen the stop. -/
structure Halted (s : State) : Prop where
  stopped : s.policy.firstStop.isSome = true
  stage : s.collector.Halts

/-- What the collector knows of the tail where it stands. -/
def Collector.Tails (started : Bool) (tailRead : Nat) : Collector → Prop
  | .calling _ next => next.Tails started tailRead
  | .select turn => turn.readSize ≤ readSize ∧
      (turn.tail = true → started = true ∧ tailRead < tailBytes)
  | .observing _ _ tail => tail = true → started = true ∧ tailRead < tailBytes
  | _ => True

/-- **What a tail deadline means.** -/
structure Tailing (s : State) : Prop where
  gone : s.tailDeadline.isSome = true → s.operation.cancellation.groupAbsent = true ∧
    (∀ st, s.writes.get st = false) ∧ Halted s
  spent : s.policy.tailRead ≠ 0 → s.tailDeadline.isSome = true
  bounded : ∀ d, s.tailDeadline = some d →
    ∃ finish, s.operation.cancellation.finishDeadline = some finish ∧ d ≤ finish
  stage : s.collector.Tails s.tailDeadline.isSome s.policy.tailRead

/-- The stages of setting up read no tail. -/
theorem afterSetup_tails (st : Stream) (started : Bool) (n : Nat) :
    (Collector.afterSetup st).Tails started n := by
  cases st <;> trivial

/-- What follows an admission reads no tail. -/
theorem admitted_tails (st : Stream) (n retained : Nat) (started : Bool) (m : Nat) :
    (Collector.admitted st n retained).Tails started m := by
  apply Collector.admitted_cases (P := fun c => c.Tails started m)
  · trivial
  · trivial
  · intro _ hnext
    exact hnext

/-- The tail's deadline stays as it is, or it is set by a turn that has seen the stop and found the
group gone and no write outstanding. -/
theorem tailDeadlineAt_cases (s : State) (p : OutputFact) (now : Nat) :
    s.tailDeadlineAt p now = s.tailDeadline ∨
      (s.tailDeadline = none ∧ p.firstStop.isSome = true ∧
        s.operation.cancellation.groupAbsent = true ∧ (∀ st, s.writes.get st = false) ∧
        s.tailDeadlineAt p now = some (min (now + tailMillis)
          (s.operation.cancellation.finishDeadline.getD now))) := by
  unfold State.tailDeadlineAt
  dsimp only
  split
  · rename_i hstart
    simp only [Bool.and_eq_true, Bool.not_eq_true', Bool.or_eq_false_iff,
      Option.isNone_iff_eq_none] at hstart
    obtain ⟨⟨⟨hstopped, habsent⟩, hout, herr⟩, hnone⟩ := hstart
    refine .inr ⟨hnone, hstopped, habsent, fun st => ?_, rfl⟩
    cases st with
    | stdout => exact hout
    | stderr => exact herr
  · exact .inl rfl

/-- Where a look leads: the tail's deadline moves on as it says, and the collector closes, or
selects a turn that keeps to the phase. -/
theorem looked_tails {p : OutputFact} {now : Nat} (h : Looked s p now t) :
    t.policy = s.policy ∧ t.operation = s.operation ∧ t.writes = s.writes ∧ t.read = s.read ∧
      t.admissions = s.admissions ∧
      (t.tailDeadline = s.tailDeadline ∨ t.tailDeadline = s.tailDeadlineAt p now) ∧
      ((∃ cause, t.collector = .closing cause) ∨
        t.tailDeadline = s.tailDeadlineAt p now ∧ ∃ turn, t.collector = .select turn ∧
          turn.readSize ≤ readSize ∧
          turn.tail = (p.firstStop.isSome && t.tailDeadline.isSome) ∧
          (turn.tail = true → p.tailRead ≠ tailBytes) ∧
          (p.firstStop.isSome = true → turn.tail = false →
            ∀ st, turn.enabled.get st = false)) := by
  cases h with
  | finished late => exact ⟨rfl, rfl, rfl, rfl, rfl, .inl rfl, .inl ⟨_, rfl⟩⟩
  | unconfirmed finished present started => exact ⟨rfl, rfl, rfl, rfl, rfl, .inl rfl, .inl ⟨_, rfl⟩⟩
  | tailTime stopped late => exact ⟨rfl, rfl, rfl, rfl, rfl, .inr rfl, .inl ⟨_, rfl⟩⟩
  | tailBytes stopped started spent => exact ⟨rfl, rfl, rfl, rfl, rfl, .inr rfl, .inl ⟨_, rfl⟩⟩
  | @select tail available early phase running unspent left =>
    refine ⟨rfl, rfl, rfl, rfl, rfl, .inr rfl, .inr ⟨rfl, _, rfl, ?_, phase, unspent,
      fun hstopped htail st => ?_⟩⟩
    · exact Nat.min_le_right _ _
    · have hpaused : (p.firstStop.isNone || tail) = false := by
        rw [Option.isNone_eq_false_iff.mpr hstopped, show tail = false from htail]
        rfl
      cases st <;> simp only [State.turn, PerStream.get, hpaused, Bool.false_and]

/-- The snapshot of a turn has seen no stop that is not there. -/
theorem clock_stopped (hi : Inv limit s) {p : OutputFact} (hc : s.collector = .clock p)
    (hstop : p.firstStop.isSome = true) : s.policy.firstStop.isSome = true := by
  have hp : Snapshot s.policy s.admissions p := by
    have := hi.knows
    rw [hc] at this
    exact this
  cases hq : s.policy.firstStop with
  | some reason => rfl
  | none =>
    rw [(hp.spared hq).1] at hstop
    cases hstop

/-- A turn whose snapshot has seen the stop is halted before it looks at the clock. -/
theorem halted_clock (hi : Inv limit s) {p : OutputFact} (hc : s.collector = .clock p)
    (hstop : p.firstStop.isSome = true) : Halted s :=
  ⟨clock_stopped hi hc hstop, by rw [hc]; exact hstop⟩

/-- A read of the tail goes on to a notice, a stop or the next turn. -/
theorem observe_halts {st : Stream} {result : ReadResult} :
    (s.observe st result true).collector.Halts := by
  cases result with
  | error => trivial
  | bytes data => cases data <;> trivial

/-- **Once a turn has seen the stop**, the collector stays in its pause or its tail. -/
theorem halted_collector (ho : s.collector.Opens s.policy) (hh : Halted s) {act : CollectorAct}
    (h : CollectorMoved s act t) : Halted t := by
  refine ⟨Latched.isSome (collector_kept ho h).1.firstStop hh.stopped, ?_⟩
  have hstage := hh.stage
  cases h with
  | @called call next clock stage =>
    rw [stage] at hstage
    dsimp only
    cases (s.call call clock).2 <;> exact hstage
  | present stage pipe =>
    rw [stage] at hstage
    exact hstage.elim
  | missing stage pipe =>
    rw [stage] at hstage
    exact hstage.elim
  | snapshot stage opened => exact hh.stopped
  | looked stage hlooked =>
    rw [stage] at hstage
    obtain ⟨-, -, -, -, -, -, ⟨cause, hc⟩ | ⟨-, turn, hc, -, -, -, hpaused⟩⟩ := looked_tails hlooked
    · rw [hc]
      trivial
    · rw [hc]
      exact hpaused hstage
  | @read turn st data stage enabled fits =>
    rw [stage] at hstage
    by_contra hno
    cases (hstage (Bool.eq_false_iff.mpr hno) st).symm.trans enabled
  | @readError turn st stage enabled =>
    rw [stage] at hstage
    by_contra hno
    cases (hstage (Bool.eq_false_iff.mpr hno) st).symm.trans enabled
  | observed stage =>
    rw [stage] at hstage
    obtain rfl : _ = true := hstage
    exact observe_halts
  | admitted stage accepted =>
    rw [stage] at hstage
    exact hstage.elim
  | spawned stage file worker => trivial
  | _ => trivial

/-- No other task takes a halted collector out of its pause or its tail. -/
theorem halted_step (ho : s.collector.Opens s.policy) (hh : Halted s) {a : Act}
    (h : step s a = some t) : Halted t := by
  rcases step_beside h with ⟨act, _, hmoved⟩ | hb
  · exact halted_collector ho hh hmoved
  · exact ⟨Latched.isSome hb.kept.firstStop hh.stopped, by rw [hb.collector]; exact hh.stage⟩

/-! ## The tail -/

/-- A step that leaves the tail's deadline and its count alone. -/
theorem Tailing.keep (ht : Tailing s) (tailDeadline : t.tailDeadline = s.tailDeadline)
    (tailRead : t.policy.tailRead = s.policy.tailRead)
    (absent : s.operation.cancellation.groupAbsent = true →
      t.operation.cancellation.groupAbsent = true)
    (finish : Latched s.operation.cancellation.finishDeadline
      t.operation.cancellation.finishDeadline)
    (halted : Halted s → Halted t)
    (writes : Halted s → (∀ st, s.writes.get st = false) → ∀ st, t.writes.get st = false)
    (stage : t.collector.Tails s.tailDeadline.isSome s.policy.tailRead) : Tailing t where
  gone hset := by
    rw [tailDeadline] at hset
    obtain ⟨habsent, hwrites, hh⟩ := ht.gone hset
    exact ⟨absent habsent, writes hh hwrites, halted hh⟩
  spent hspent := by
    rw [tailRead] at hspent
    rw [tailDeadline]
    exact ht.spent hspent
  bounded d hd := by
    rw [tailDeadline] at hd
    obtain ⟨f, hf, hle⟩ := ht.bounded d hd
    exact ⟨f, finish f hf, hle⟩
  stage := by
    rw [tailDeadline, tailRead]
    exact stage

/-- **A look at the clock** sets the tail's deadline only with the group gone and no write out. -/
theorem tailing_looked (hi : Inv limit s) (ho : s.collector.Opens s.policy)
    (hreach : Operation.machine.Reachable s.operation) (ht : Tailing s) {p : OutputFact} {now : Nat}
    (hc : s.collector = .clock p) (h : Looked s p now t) : Tailing t := by
  have hmoved : CollectorMoved s (.look now) t := .looked hc h
  obtain ⟨hpolicy, hoperation, hwrites, -, -, hdeadline, hstage⟩ := looked_tails h
  have hsnapshot : p.tailRead = s.policy.tailRead := by
    have := hi.knows
    rw [hc] at this
    exact Snapshot.tailRead this
  have hle := hi.tailRead
  have hcases := tailDeadlineAt_cases s p now
  -- A deadline that is fixed here is fixed by a turn that has seen the stop.
  have hgone : t.tailDeadline.isSome = true → s.operation.cancellation.groupAbsent = true ∧
      (∀ st, s.writes.get st = false) ∧ Halted s := by
    intro hset
    by_cases hsame : t.tailDeadline = s.tailDeadline
    · rw [hsame] at hset
      exact ht.gone hset
    · have hat := hdeadline.resolve_left hsame
      rcases hcases with he | ⟨-, hstop, habsent, hfree, -⟩
      · exact absurd (hat.trans he) hsame
      · exact ⟨habsent, hfree, halted_clock hi hc hstop⟩
  have hset : s.tailDeadline.isSome = true → t.tailDeadline.isSome = true := by
    intro hset
    rcases hdeadline with he | he
    · rw [he]
      exact hset
    · rcases hcases with he' | ⟨hnone, -⟩
      · rw [he, he']
        exact hset
      · rw [hnone] at hset
        cases hset
  constructor
  · intro hset'
    obtain ⟨habsent, hfree, hh⟩ := hgone hset'
    rw [hoperation, hwrites]
    exact ⟨habsent, hfree, halted_collector ho hh hmoved⟩
  · intro hspent
    rw [hpolicy] at hspent
    exact hset (ht.spent hspent)
  · intro d hd
    rw [hoperation]
    by_cases hsame : t.tailDeadline = s.tailDeadline
    · rw [hsame] at hd
      exact ht.bounded d hd
    · have hat := hdeadline.resolve_left hsame
      rcases hcases with he | ⟨-, -, habsent, -, hmin⟩
      · exact absurd (hat.trans he) hsame
      · obtain ⟨f, hf⟩ := Option.isSome_iff_exists.mp (Operation.absent_deadline hreach habsent)
        rw [hat, hmin, hf] at hd
        cases hd
        exact ⟨f, hf, Nat.min_le_right _ _⟩
  · rw [hpolicy]
    rcases hstage with ⟨cause, hc'⟩ | ⟨-, turn, hc', hsize, hphase, hunspent, -⟩
    · rw [hc']
      trivial
    · rw [hc']
      refine ⟨hsize, fun htail => ?_⟩
      rw [htail] at hphase
      have hne := hunspent htail
      exact ⟨((Bool.and_eq_true _ _).mp hphase.symm).2, by omega⟩

/-- A tail read is counted. -/
theorem tailing_observed (ho : s.collector.Opens s.policy) (ht : Tailing s) {st : Stream}
    {result : ReadResult} {tail : Bool} (hc : s.collector = .observing st result tail) :
    Tailing (s.observe st result tail) := by
  have hmoved : CollectorMoved s .observe (s.observe st result tail) := .observed hc
  have hhalted : Halted s → Halted (s.observe st result tail) :=
    fun hh => halted_collector ho hh hmoved
  have hstage := ht.stage
  rw [hc] at hstage
  cases result with
  | error =>
    exact ht.keep rfl rfl id (.refl _) hhalted (fun _ h => h) trivial
  | bytes data =>
    cases data with
    | nil => exact ht.keep rfl rfl id (.refl _) hhalted (fun _ h => h) trivial
    | cons b bs =>
      cases tail with
      | false => exact ht.keep rfl rfl id (.refl _) hhalted (fun _ h => h) trivial
      | true =>
        refine ⟨fun hset => ?_, fun _ => (hstage rfl).1, ht.bounded, trivial⟩
        obtain ⟨habsent, hfree, hh⟩ := ht.gone hset
        exact ⟨habsent, hfree, hhalted hh⟩

/-- The collector's own turn keeps what a tail deadline means. -/
theorem tailing_collector (hi : Inv limit s) (ho : s.collector.Opens s.policy)
    (hreach : Operation.machine.Reachable s.operation) (ht : Tailing s) {act : CollectorAct}
    (absent : s.operation.cancellation.groupAbsent = true →
      t.operation.cancellation.groupAbsent = true)
    (finish : Latched s.operation.cancellation.finishDeadline
      t.operation.cancellation.finishDeadline)
    (h : CollectorMoved s act t) : Tailing t := by
  have hhalted : Halted s → Halted t := fun hh => halted_collector ho hh h
  have freed : ∀ (st : Stream), (∀ st', s.writes.get st' = false) →
      ∀ st', (s.writes.set st false).get st' = false := by
    intro st hfree st'
    rw [PerStream.get_set]
    split
    · rfl
    · exact hfree st'
  have hstage := ht.stage
  cases h with
  | @called call next clock stage =>
    rw [stage] at hstage
    have hb := beside_call s call clock
    refine ht.keep hb.tailDeadline hb.tailRead absent finish hhalted
      (fun _ h => by rw [show (State.writes _) = _ from hb.writes]; exact h) ?_
    dsimp only
    cases (s.call call clock).2 <;> exact hstage
  | present stage pipe =>
    exact ht.keep rfl rfl absent finish hhalted (fun _ h => h) (afterSetup_tails _ _ _)
  | missing stage pipe =>
    exact ht.keep rfl rfl absent finish hhalted (fun _ h => h) (afterSetup_tails _ _ _)
  | looked stage h => exact tailing_looked hi ho hreach ht stage h
  | @lost turn st w stage joins worker lost =>
    exact ht.keep rfl rfl absent finish hhalted (fun _ => freed st) trivial
  | @joined turn st w stage joins worker live finished =>
    exact ht.keep rfl rfl absent finish hhalted (fun _ => freed st) trivial
  | read stage enabled fits =>
    rw [stage] at hstage
    exact ht.keep rfl rfl absent finish hhalted (fun _ h => h) hstage.2
  | readError stage enabled =>
    rw [stage] at hstage
    exact ht.keep rfl rfl absent finish hhalted (fun _ h => h) hstage.2
  | observed stage => exact tailing_observed ho ht stage
  | admitted stage accepted =>
    obtain rfl := admit_reserve accepted
    exact ht.keep rfl (reserve_reserved _ _ _ _).tailRead absent finish hhalted (fun _ h => h)
      (admitted_tails _ _ _ _ _)
  | spawned stage file worker =>
    refine ht.keep rfl rfl absent finish hhalted (fun hh => ?_) trivial
    have := hh.stage
    rw [stage] at this
    exact this.elim
  | _ => exact ht.keep rfl rfl absent finish hhalted (fun _ h => h) trivial

/-- Every step of the session keeps what a tail deadline means. -/
theorem tailing_step (hlimit : limit ≤ u64Max) (hr : (machine limit).Reachable s) (ht : Tailing s)
    {a : Act} (h : step s a = some t) : Tailing t := by
  have hk := reachable_known hr
  have ho := reachable_opens hr
  obtain ⟨absent, finish⟩ := step_operation hk h
  rcases step_beside h with ⟨act, _, hmoved⟩ | hb
  · exact tailing_collector (reachable_inv hlimit hr) ho hk.operation ht absent finish hmoved
  · refine ht.keep hb.tailDeadline hb.tailRead absent finish (fun hh => halted_step ho hh h)
      (fun _ hfree => by rw [hb.writes]; exact hfree) ?_
    rw [hb.collector]
    exact ht.stage

/-- A session starts without a tail. -/
theorem tailing_init (h : (machine limit).init s) : Tailing s := by
  obtain ⟨operation, setupFailed, pipes, -, -, rfl⟩ := h
  constructor
  · intro hset
    cases hset
  · intro hspent
    exact absurd rfl hspent
  · intro d hd
    cases hd
  · cases setupFailed <;> trivial

/-- In every reachable state a tail deadline means what it says. -/
theorem reachable_tailing (hlimit : limit ≤ u64Max) (h : (machine limit).Reachable s) : Tailing s :=
  h.invariant (fun _ => tailing_init) fun _ _ _ hr ht _ hs => tailing_step hlimit hr ht hs

/-! ### Nothing is retained in the tail -/

/-- A call of the collector's at most latches a stop or a storage fault. -/
theorem call_quiet (s : State) (c : Call) (clock : Clock) :
    Quiet s.policy (s.call c clock).1.policy := by
  cases c with
  | stop reason => exact quiet_latch _ _
  | storageFault st fault => exact quiet_storageFault _ _ _
  | start => exact .refl _
  | notify => exact .refl _

/-- In the tail no worker is left but one that was lost. -/
theorem tail_worker (hi : Inv limit s) (ht : Tailing s) (hset : s.tailDeadline.isSome = true)
    {st : Stream} {w : Writer} (hw : s.writers.get st = some w) : w.lost = true := by
  obtain ⟨-, hfree, hh⟩ := ht.gone hset
  have spawns : ∀ c : Collector, c.Halts → c.spawns st = false := by
    intro c hc
    induction c with
    | calling call next ih => exact ih hc
    | spawning st' => exact hc.elim
    | _ => rfl
  cases (hi.accounts st).slot with
  | idle hnone =>
    have hnone : s.writers.get st = none := hnone
    rw [hw] at hnone
    cases hnone
  | queued _ _ _ _ hspawns =>
    have hspawns : s.collector.spawns st = true := hspawns
    rw [spawns _ hh.stage] at hspawns
    cases hspawns
  | running _ _ hwrites =>
    have hwrites : s.writes.get st = true := hwrites
    rw [hfree st] at hwrites
    cases hwrites
  | lost hsome _ hlost =>
    have hsome : s.writers.get st = some _ := hsome
    rw [hw] at hsome
    cases hsome
    exact hlost

/-- What is paid for, stream by stream, is as it was. -/
def SameAmounts (p q : OutputFact) : Prop :=
  ∀ st, (q.streams.get st).retained = (p.streams.get st).retained ∧
    (q.streams.get st).reserved = (p.streams.get st).reserved

/-- A change that spends nothing leaves the amounts alone. -/
theorem amounts_quiet {p q : OutputFact} (h : Quiet p q) : SameAmounts p q :=
  fun st => ⟨h.retained st, h.reserved st⟩

theorem SameAmounts.refl (p : OutputFact) : SameAmounts p p := fun _ => ⟨rfl, rfl⟩

/-- Unpinning a stream's metadata pays for no byte. -/
theorem amounts_unpin {p q : OutputFact} (h : p.unpin = some q) : SameAmounts p q := by
  unfold unpin at h
  split at h
  · cases h
  · cases h
    exact fun _ => ⟨rfl, rfl⟩

/-- What is read counts as observed, not as paid for. -/
theorem amounts_observed {st : Stream} {result : ReadResult} {tail : Bool} :
    SameAmounts s.policy (s.observe st result tail).policy := by
  cases result with
  | error => exact amounts_quiet (quiet_observeError _ _)
  | bytes data =>
    cases data with
    | nil => exact amounts_quiet (quiet_observeEof _ _)
    | cons b bs =>
      cases tail with
      | false => exact .refl _
      | true =>
        intro st'
        show ((s.policy.observeTail st _).streams.get st').retained = _ ∧
          ((s.policy.observeTail st _).streams.get st').reserved = _
        by_cases heq : st' = st
        · subst heq
          rw [observeTail_get_self]
          exact ⟨rfl, rfl⟩
        · rw [observeTail_get_ne _ heq]
          exact ⟨rfl, rfl⟩

/-- **In the tail nothing is admitted and nothing is written.** -/
theorem tail_amounts (hi : Inv limit s) (ht : Tailing s) (hset : s.tailDeadline.isSome = true)
    {a : Act} (h : step s a = some t) : SameAmounts s.policy t.policy := by
  obtain ⟨-, -, hh⟩ := ht.gone hset
  have hstage := hh.stage
  cases step_moved h with
  | collector h =>
    cases h with
    | called stage => exact amounts_quiet (call_quiet _ _ _)
    | missing stage pipe => exact amounts_quiet (quiet_missingPipe _ _)
    | looked stage h =>
      rw [(looked_tails h).1]
      exact .refl _
    | closed stage => exact amounts_quiet (quiet_closeCollection _ _)
    | observed stage => exact amounts_observed
    | admitted stage accepted =>
      rw [stage] at hstage
      exact hstage.elim
    | _ => exact .refl _
  | writer worker live h =>
    rw [tail_worker hi ht hset worker] at live
    cases live
  | replay gate h =>
    cases h with
    | called stage => exact amounts_quiet (call_quiet _ _ _)
    | unpinned stage accepted => exact amounts_unpin accepted
    | _ => exact .refl _
  | sender attached h => cases h <;> exact fun _ => ⟨rfl, rfl⟩
  | @waited result first => cases result <;> exact .refl _
  | operationStep read h =>
    obtain ⟨operation, _, rfl⟩ := Option.map_eq_some_iff.mp h
    dsimp only
    split <;> exact .refl _
  | _ => exact .refl _

/-! ### What is read in the tail -/

/-- After a stop no read is admitted. -/
theorem halted_admissions (hh : Halted s) {a : Act} (h : step s a = some t) :
    t.admissions = s.admissions := by
  have hstage := hh.stage
  rcases step_beside h with ⟨act, _, hmoved⟩ | hb
  · cases hmoved with
    | called stage => exact (beside_call s _ _).admissions
    | looked stage h => exact (looked_tails h).2.2.2.2.1
    | observed stage =>
      unfold State.observe
      split
      · rfl
      · split <;> rfl
      · rfl
    | admitted stage accepted =>
      rw [stage] at hstage
      exact hstage.elim
    | _ => rfl
  · exact hb.admissions

/-- What is read in the tail stays within its cap, also before it is counted. -/
theorem halted_hand {p : OutputFact} {writes : PerStream Bool} {admissions : List Admission}
    {c : Collector} (hc : c.Halts) (hk : Knows p writes admissions c)
    (hle : p.tailRead ≤ tailBytes) :
    p.tailRead + total (fun st => (c.hand st).length) ≤ tailBytes := by
  induction c with
  | calling call next ih => exact ih hc hk
  | observing st result tail =>
    cases result with
    | error => exact hle
    | bytes data =>
      have hsize := (hk.1 hc).size
      have hhands : total (fun st' => ((Collector.observing st (.bytes data) tail).hand st').length) =
          data.length := by
        cases st
        · exact Nat.add_zero _
        · exact Nat.zero_add _
      rw [hhands]
      exact hsize
  | admitting st data => exact hc.elim
  | _ => exact hle

/-! ### The byte cap -/

/-- Once the cap is reached no end of a pipe is observed any more. -/
theorem capped_step (ht : Tailing s) (hcap : s.policy.tailRead = tailBytes) {a : Act}
    (h : step s a = some t) : t.policy.tailRead = tailBytes ∧
      ∀ st, (s.policy.streams.get st).collection ≠ .eof →
        (t.policy.streams.get st).collection ≠ .eof := by
  have hset : s.tailDeadline.isSome = true := ht.spent (by rw [hcap]; decide)
  obtain ⟨-, -, hh⟩ := ht.gone hset
  have hstage := hh.stage
  have htails := ht.stage
  have same : ∀ {p : OutputFact}, p.tailRead = s.policy.tailRead → SameCollections s.policy p →
      p.tailRead = tailBytes ∧ ∀ st, (s.policy.streams.get st).collection ≠ .eof →
        (p.streams.get st).collection ≠ .eof := by
    intro p htail hsame
    refine ⟨htail.trans hcap, fun st hopen => ?_⟩
    rw [hsame st]
    exact hopen
  rcases step_beside h with ⟨act, _, hmoved⟩ | hb
  · cases hmoved with
    | called stage =>
      have hb := beside_call s
      exact same (hb _ _).tailRead (hb _ _).collections
    | missing stage pipe =>
      rw [stage] at hstage
      exact hstage.elim
    | looked stage h =>
      rw [(looked_tails h).1]
      exact same rfl fun _ => rfl
    | @closed cause stage =>
      refine ⟨hcap, fun st hopen => ?_⟩
      show ((s.policy.closeCollection cause).streams.get st).collection ≠ .eof
      rw [closeCollection_get]
      split
      · exact Collection.noConfusion
      · exact hopen
    | observed stage =>
      rw [stage] at hstage htails
      have := (htails hstage).2
      omega
    | admitted stage accepted =>
      rw [stage] at hstage
      exact hstage.elim
    | _ => exact same rfl fun _ => rfl
  · exact same hb.tailRead hb.collections

/-- A collector that returns leaves no stream open. -/
def Collector.Over (policy : OutputFact) : Collector → Prop
  | .calling _ next => next.Over policy
  | .returned => ∀ st, (policy.streams.get st).collection ≠ .reading
  | _ => True

theorem Collector.Over.steady {p q : OutputFact} {c : Collector} (h : c.Over p)
    (same : SameCollections p q) : c.Over q := by
  induction c with
  | calling call next ih => exact ih h
  | returned =>
    intro st
    rw [same]
    exact h st
  | _ => trivial

/-- Every step keeps the streams of a returned collector closed. -/
theorem over_step (ho : s.collector.Over s.policy) {a : Act} (h : step s a = some t) :
    t.collector.Over t.policy := by
  rcases step_beside h with ⟨act, _, hmoved⟩ | hb
  · cases hmoved with
    | @called call next clock stage =>
      rw [stage] at ho
      have hb := beside_call s call clock
      dsimp only
      cases (s.call call clock).2 <;> exact Collector.Over.steady ho hb.collections
    | @present st stage pipe => cases st <;> trivial
    | @missing st stage pipe => cases st <;> trivial
    | returned stage collected joined =>
      intro st hreading
      have hboth : s.policy.collected = true := collected
      rw [OutputFact.collected, Bool.and_eq_true, bne_iff_ne, bne_iff_ne] at hboth
      cases st with
      | stdout => exact hboth.1 hreading
      | stderr => exact hboth.2 hreading
    | looked stage h =>
      obtain ⟨-, -, -, -, -, -, ⟨cause, hc⟩ | ⟨-, turn, hc, -⟩⟩ := looked_tails h <;> rw [hc] <;>
        trivial
    | @closed cause stage =>
      intro st
      show ((s.policy.closeCollection cause).streams.get st).collection ≠ .reading
      rw [closeCollection_get]
      split
      · exact Collection.noConfusion
      · rename_i hover
        exact hover
    | observed stage =>
      unfold State.observe
      split
      · trivial
      · split <;> trivial
      · trivial
    | @admitted st data p retained stage accepted =>
      apply Collector.admitted_cases (P := fun c => c.Over p)
      · trivial
      · trivial
      · intro _ hnext
        exact hnext
    | _ => trivial
  · rw [hb.collector]
    exact ho.steady hb.collections

/-- Whenever the collector has returned, no stream is still being read. -/
theorem reachable_over (h : (machine limit).Reachable s) : s.collector.Over s.policy := by
  refine h.invariant (P := fun s => s.collector.Over s.policy) (fun s hinit => ?_)
    fun _ _ _ _ ho _ hs => over_step ho hs
  obtain ⟨operation, setupFailed, pipes, -, -, rfl⟩ := hinit
  cases setupFailed <;> trivial

/-! ## Every run -/

/-- What a run keeps of the tail, from any reachable state: the deadline is fixed once, within its
bounds, from then on nothing is retained and what is read is discarded, and a stream that is open
when the cap is reached does not end. -/
structure TailKept (s t : State) : Prop where
  fixed : Latched s.tailDeadline t.tailDeadline
  start : ∀ a u, step t a = some u → t.tailDeadline = none → ∀ d, u.tailDeadline = some d →
    ∃ now, a = .collector (.look now) ∧ d ≤ now + tailMillis
  finish : ∀ d, t.tailDeadline = some d →
    ∃ finish, t.operation.cancellation.finishDeadline = some finish ∧ d ≤ finish
  original : Latched s.operation.cancellation.finishDeadline
    t.operation.cancellation.finishDeadline
  retained : s.tailDeadline.isSome = true → SameAmounts s.policy t.policy
  discarded : s.tailDeadline.isSome = true → ∀ st,
    (t.read.get st).length + (s.policy.streams.get st).discarded + (s.collector.hand st).length =
      (s.read.get st).length + (t.policy.streams.get st).discarded + (t.collector.hand st).length
  capped : s.policy.tailRead = tailBytes → ∀ st, (s.policy.streams.get st).collection = .reading →
    (t.policy.streams.get st).collection ≠ .eof ∧ (t.collector = .returned →
      ∃ cause, (t.policy.streams.get st).collection = .unconfirmed cause)

/-- What a run does after a turn that has seen a stop. -/
structure AfterStop (s t : State) : Prop where
  read : ∀ st result u, step t (.collector (.read st result)) = some u →
    t.operation.cancellation.groupAbsent = true ∧ (∀ st, t.writes.get st = false) ∧
      t.tailDeadline.isSome = true ∧ ∀ data, result = .bytes data → data.length ≤ readSize
  admissions : t.admissions = s.admissions
  total : (t.read.get .stdout).length + (t.read.get .stderr).length ≤
    (s.read.get .stdout).length + (s.read.get .stderr).length + tailBytes

/-- What a step keeps of the tail. -/
theorem tail_step {a : Act} (h : step s a = some t) : Latched s.tailDeadline t.tailDeadline ∧
      (s.tailDeadline = none → ∀ d, t.tailDeadline = some d →
        ∃ now, a = .collector (.look now) ∧ d ≤ now + tailMillis) := by
  have same : t.tailDeadline = s.tailDeadline → Latched s.tailDeadline t.tailDeadline ∧
      (s.tailDeadline = none → ∀ d, t.tailDeadline = some d →
        ∃ now, a = .collector (.look now) ∧ d ≤ now + tailMillis) := by
    intro hsame
    rw [hsame]
    refine ⟨.refl _, fun hnone d hd => ?_⟩
    rw [hnone] at hd
    cases hd
  rcases step_beside h with ⟨act, rfl, hmoved⟩ | hb
  · cases hmoved with
    | called stage => exact same (beside_call s _ _).tailDeadline
    | @looked p now _ stage h =>
      obtain ⟨-, -, -, -, -, hdeadline, -⟩ := looked_tails h
      rcases hdeadline with he | he
      · exact same he
      rcases tailDeadlineAt_cases s p now with he' | ⟨hnone, -, -, -, hmin⟩
      · exact same (he.trans he')
      · refine ⟨latched_none hnone _, fun _ d hd => ⟨now, rfl, ?_⟩⟩
        rw [he, hmin] at hd
        cases hd
        exact Nat.min_le_left _ _
    | observed stage =>
      refine same ?_
      unfold State.observe
      split
      · rfl
      · split <;> rfl
      · rfl
    | _ => exact same rfl
  · exact same hb.tailDeadline

/-- **The tail is bounded** over every run between two reachable states. -/
theorem tail_kept (hlimit : limit ≤ u64Max) (hr : (machine limit).Reachable s) {as : List Act}
    (hrun : (machine limit).run s as = some t) : TailKept s t := by
  have hrt := hr.run as hrun
  have hi := reachable_inv hlimit hr
  have hit := reachable_inv hlimit hrt
  have hretained : s.tailDeadline.isSome = true → SameAmounts s.policy t.policy := by
    intro hset
    refine (Machine.Reachable.bounded_while (P := fun s => s.tailDeadline.isSome = true)
      (R := fun s t => SameAmounts s.policy t.policy) ?_ ?_ ?_ hr hset hrun).2
    · intro s
      exact .refl _
    · intro s t u hsame hsame' st
      exact ⟨(hsame' st).1.trans (hsame st).1, (hsame' st).2.trans (hsame st).2⟩
    · intro s a t h hset hs
      exact ⟨(tail_step hs).1.isSome hset,
        tail_amounts (reachable_inv hlimit h) (reachable_tailing hlimit h) hset hs⟩
  refine ⟨?_, fun a u hs => (tail_step hs).2, (reachable_tailing hlimit hrt).bounded, ?_,
    hretained, fun hset st => ?_, fun hcap st hopen => ?_⟩
  · refine Machine.Reachable.bounded
      (R := fun s t => Latched s.tailDeadline t.tailDeadline) ?_ ?_ ?_ hr hrun
    · exact fun s => .refl _
    · exact fun h h' => h.trans h'
    · exact fun s a t _ hs => (tail_step hs).1
  · refine Machine.Reachable.bounded (R := fun s t =>
      Latched s.operation.cancellation.finishDeadline t.operation.cancellation.finishDeadline)
      ?_ ?_ ?_ hr hrun
    · exact fun s => .refl _
    · exact fun h h' => h.trans h'
    · exact fun s a t h hs => (step_operation (reachable_known h) hs).2
  · obtain ⟨hkept, hreserved⟩ := hretained hset st
    have hread : (s.read.get st).length = _ := (hi.accounts st).read
    have hread' : (t.read.get st).length = _ := (hit.accounts st).read
    simp only [State.account] at hread hread'
    omega
  · have hnever : (t.policy.streams.get st).collection ≠ .eof := by
      have hends : (s.policy.streams.get st).collection ≠ .eof := by
        rw [hopen]
        exact Collection.noConfusion
      refine (Machine.Reachable.bounded_while (P := fun s => s.policy.tailRead = tailBytes)
        (R := fun s t => (s.policy.streams.get st).collection ≠ .eof →
          (t.policy.streams.get st).collection ≠ .eof) ?_ ?_ ?_ hr hcap hrun).2 hends
      · intro s ho
        exact ho
      · intro s t u hkeeps hkeeps' ho
        exact hkeeps' (hkeeps ho)
      · intro s a t h hcap hs
        obtain ⟨hcap', hkeeps⟩ := capped_step (reachable_tailing hlimit h) hcap hs
        exact ⟨hcap', hkeeps st⟩
    refine ⟨hnever, fun hreturned => ?_⟩
    have hover := reachable_over hrt
    rw [hreturned] at hover
    cases hc : (t.policy.streams.get st).collection with
    | reading => exact absurd hc (hover st)
    | eof => exact absurd hc hnever
    | unconfirmed cause => exact ⟨cause, rfl⟩

/-- **After the stop** nothing more is retained, over every run from a turn that has seen it. -/
theorem after_stop (hlimit : limit ≤ u64Max) (hr : (machine limit).Reachable s) {as : List Act}
    (hrun : (machine limit).run s as = some t) {p : OutputFact} (hc : s.collector = .clock p)
    (hstop : p.firstStop.isSome = true) : AfterStop s t := by
  have hi := reachable_inv hlimit hr
  have hrt := hr.run as hrun
  have hit := reachable_inv hlimit hrt
  obtain ⟨hh, hadmissions⟩ : Halted t ∧ t.admissions = s.admissions := by
    refine Machine.Reachable.bounded_while (P := Halted)
      (R := fun s t => t.admissions = s.admissions) ?_ ?_ ?_ hr (halted_clock hi hc hstop) hrun
    · intro s
      rfl
    · intro s t u h h'
      exact h'.trans h
    · intro s a t h hh hs
      exact ⟨halted_step (reachable_opens h) hh hs, halted_admissions hh hs⟩
  refine ⟨fun st result u hs => ?_, hadmissions, ?_⟩
  · have ht := reachable_tailing hlimit hrt
    have hstage := hh.stage
    have htails := ht.stage
    have selected : ∀ turn : Turn, t.collector = .select turn → turn.enabled.get st = true →
        turn.readSize ≤ readSize ∧ t.tailDeadline.isSome = true := by
      intro turn hturn henabled
      rw [hturn] at hstage htails
      refine ⟨htails.1, (htails.2 ?_).1⟩
      by_contra hno
      cases (hstage (Bool.eq_false_iff.mpr hno) st).symm.trans henabled
    cases step_moved hs with
    | collector h =>
      cases h with
      | read stage enabled fits =>
        obtain ⟨hsize, hset⟩ := selected _ stage enabled
        obtain ⟨habsent, hfree, -⟩ := ht.gone hset
        refine ⟨habsent, hfree, hset, fun data hdata => ?_⟩
        cases hdata
        exact Nat.le_trans fits hsize
      | readError stage enabled =>
        obtain ⟨-, hset⟩ := selected _ stage enabled
        obtain ⟨habsent, hfree, -⟩ := ht.gone hset
        exact ⟨habsent, hfree, hset, fun data hdata => by cases hdata⟩
  · have hbefore := hi.admitted.read
    have hafter := hit.admitted.read
    have hcap := halted_hand hh.stage hit.knows hit.tailRead
    have hnone : total (fun st => (s.collector.hand st).length) = 0 := by
      rw [hc]
      rfl
    rw [hadmissions] at hafter
    simp only [total] at hbefore hafter hcap hnone
    omega

/-- **After a stop reads pause until the group is gone, and the tail is bounded.** In every run of a
session with a `u64` limit, whatever stopped it and whenever the operation moves. -/
theorem tail_bounded (hlimit : limit ≤ u64Max) (hr : (machine limit).Reachable s) {as : List Act}
    (hrun : (machine limit).run s as = some t) : TailKept s t ∧
      ∀ p, s.collector = .clock p → p.firstStop.isSome = true → AfterStop s t :=
  ⟨tail_kept hlimit hr hrun, fun _ hc hstop => after_stop hlimit hr hrun hc hstop⟩

/-- A turn sees the stop of an over-long read; after its write is joined and the group is gone, the
tail reads a byte and discards it. -/
theorem tail_bounded_read : ∃ s t : State, s.tailDeadline = none ∧ t.tailDeadline = some 202 ∧
    t.read.stderr = [9] ∧ t.policy.streams.stderr.discarded = 1 ∧ t.policy.tailRead = 1 ∧
      TailKept s t ∧ AfterStop s t := by
  let stopping : List Act := [.collector .setup, .collector .setup, .collector .enable,
    .collector .snapshot, .collector (.look 0), .collector (.read .stdout (.bytes [1, 2, 3])),
    .collector .observe, .collector .admitRead, .collector (.call ⟨0, 500, 500⟩),
    .collector (.call ⟨0, 500, 500⟩), .collector (.call ⟨0, 500, 500⟩), .collector .spawn,
    .collector .enable, .collector .snapshot]
  let gone : List Act := [.writer .stdout (.write 2), .writer .stdout .record,
    .writer .stdout .notify, .writer .stdout (.flush true), .writer .stdout .settle,
    .writer .stdout .unpin, .writer .stdout .notify, .wait (.ok ⟨none, some 15⟩), .operationRead,
    .operationStep 1 fun _ => .ok false]
  let draining : List Act := [.collector (.look 1), .collector (.joined .stdout),
    .collector .enable, .collector .snapshot, .collector (.look 2),
    .collector (.read .stderr (.bytes [9])), .collector .observe]
  have start : (machine 2).Reachable
      (initial 2 { cancellation := .verifyAcquired (.ok ()) (.ok true) } false (.both true)) :=
    .init ⟨_, false, _, ⟨.ok (), .ok true, rfl⟩, fun _ => rfl, rfl⟩
  have reached := Machine.Reachable.run start stopping rfl
  obtain ⟨hkept, hafter⟩ := tail_bounded (by decide) reached
    (show (machine 2).run _ (gone ++ draining) = some _ from rfl)
  exact ⟨_, _, rfl, rfl, rfl, rfl, rfl, hkept, hafter _ rfl rfl⟩

end Bounds

end Pipekeep
