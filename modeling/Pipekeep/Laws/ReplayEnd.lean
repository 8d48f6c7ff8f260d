import Pipekeep.Laws.View
import Pipekeep.Lib.Parties

/-!
# What a replay end carries

A sender decides to end from the snapshot at the top of its turn and from the cancellation's flag,
which it reads later, after its frames were written. What becomes known in between is not in the
snapshot. `Tracks` says what a snapshot still says of the exit and the absence, `Known` that a
settled operation's exit has been recorded before; so the end carries the settled result exactly
when nothing has been missed (`Timely`).
-/

namespace Pipekeep.Bounds

variable {limit : Nat} {s t : State}

/-! ## What an end should carry -/

/-- The end of a settled operation carries the exit and the absence it settled on, and the
frontend's process code is the exit's; an end without an exit is one of a failed operation. -/
def Carried (e : ReplayEnd) : Prop :=
  (∀ outcome exit, e.result = some (.ok (outcome, exit)) →
    e.fact.leaderExit = some exit ∧ e.fact.originalGroupAbsent = true ∧
      e.fact.processCode =
        if exit.processCode = 0 ∧ e.fact.complete = false then 1 else exit.processCode) ∧
  (e.fact.leaderExit = none → (∃ error, e.result = some (.error error)) ∧ e.status = none)

/-- Nothing that the end should carry has become known since the turn's snapshot. -/
def Timely (s : State) (sender : Sender) : Prop :=
  sender.missedExit = false ∧
    ∀ r, s.operation.cancellation.result = some (.ok r) → sender.missedAbsence = false

/-- Every replay end is timely. -/
def TimelyEnds (s : State) : Act → Prop
  | .sender generation .replayEnd => ∀ sender, s.senders generation = some sender → Timely s sender
  | _ => True

/-! ## What is known -/

/-- What the sender's snapshot still says. -/
structure Tracks (status : Option ExitResult) (absent : Bool) (result : Option Completion)
    (sender : Sender) : Prop where
  exit : ∀ p, sender.snapshot = some p →
    if sender.missedExit then p.leaderExit = none ∧ status.isSome = true
    else p.leaderExit = status
  absence : ∀ p, sender.snapshot = some p →
    if sender.missedAbsence then p.originalGroupAbsent = false ∧ absent = true
    else p.originalGroupAbsent = absent
  ended : ∀ p, sender.stage = .emitting p → p.leaderExit = none → result.isSome = true

/-- What the session knows of the exit, the operation and the senders' snapshots. -/
structure Known (s : State) : Prop where
  operation : Operation.machine.Reachable s.operation
  waited : s.waited = false → s.metadata.status = none
  loop : ∀ m exit, s.loop = .step m → m.status = some exit → s.metadata.status = some exit
  settled : ∀ outcome exit, s.operation.cancellation.result = some (.ok (outcome, exit)) →
    s.metadata.status = some exit
  senders : ∀ g sender, s.senders g = some sender →
    Tracks s.metadata.status s.operation.cancellation.groupAbsent s.operation.cancellation.result
      sender

theorem Known.view (hk : Known s) (h : SameView s t)
    (senders : ∀ g sender, t.senders g = some sender → Tracks s.metadata.status
      s.operation.cancellation.groupAbsent s.operation.cancellation.result sender) : Known t where
  operation := h.reachable hk.operation
  waited := by
    rw [h.waited, h.status]
    exact hk.waited
  loop := by
    rw [h.loop, h.status]
    exact hk.loop
  settled := by
    rw [h.settlement.2, h.status]
    exact hk.settled
  senders := by
    rw [h.settlement.1, h.settlement.2, h.status]
    exact senders

/-! ## The senders -/

section Senders

variable {status : Option ExitResult} {absent : Bool} {result : Option Completion}
  {sender sender' : Sender}

/-- A stage without a snapshot. -/
theorem tracks_none (h : sender.snapshot = none) : Tracks status absent result sender where
  exit p hp := by
    rw [h] at hp
    cases hp
  absence p hp := by
    rw [h] at hp
    cases hp
  ended p hp := by
    rw [Sender.snapshot, hp] at h
    cases h

/-- The next stage of a turn, with the same snapshot. -/
theorem Tracks.next (ht : Tracks status absent result sender)
    (snapshot : sender'.snapshot = sender.snapshot)
    (missedExit : sender'.missedExit = sender.missedExit)
    (missedAbsence : sender'.missedAbsence = sender.missedAbsence)
    (ended : ∀ p, sender'.stage = .emitting p → p.leaderExit = none → result.isSome = true) :
    Tracks status absent result sender' where
  exit := by
    rw [snapshot, missedExit]
    exact ht.exit
  absence := by
    rw [snapshot, missedAbsence]
    exact ht.absence
  ended := ended

/-- A new snapshot says what is known, and nothing has been missed. -/
theorem tracks_fact (s : State) (sender : Sender) :
    Tracks s.metadata.status s.operation.cancellation.groupAbsent result
      { sender with missedExit := false, missedAbsence := false, stage := .report s.fact } where
  exit p hp := by
    cases hp
    rfl
  absence p hp := by
    cases hp
    rfl
  ended _ hp := by cases hp

/-- The operation's result is kept once it is there. -/
theorem Tracks.settle {result' : Option Completion} (ht : Tracks status absent result sender)
    (hresult : result.isSome = true → result'.isSome = true) :
    Tracks status absent result' sender :=
  ⟨ht.exit, ht.absence, fun p hp hnone => hresult (ht.ended p hp hnone)⟩

/-- An exit that is recorded is missed. -/
theorem Tracks.missExit (ht : Tracks none absent result sender) (exit : ExitResult) :
    Tracks (some exit) absent result { sender with missedExit := true } where
  exit p hp := by
    rw [if_pos rfl]
    refine ⟨?_, rfl⟩
    have := ht.exit p hp
    split at this
    · exact this.1
    · exact this
  absence := ht.absence
  ended := ht.ended

/-- An absence that is latched is missed. -/
theorem Tracks.missAbsence (ht : Tracks status false result sender) :
    Tracks status true result { sender with missedAbsence := true } where
  exit := ht.exit
  absence p hp := by
    rw [if_pos rfl]
    refine ⟨?_, rfl⟩
    have := ht.absence p hp
    split at this
    · exact this.1
    · exact this
  ended := ht.ended

theorem snapshot_deliver (sender : Sender) (r : Except StorageFault (List UInt8)) :
    (sender.deliver r = sender) ∨ (sender.deliver r).snapshot = none := by
  unfold Sender.deliver
  split
  · exact .inr rfl
  · exact .inl rfl

end Senders

/-- One sender changes. -/
theorem Known.setSender (hk : Known s) {g : Nat} {sender : Sender} (h : SameView s t)
    (senders : t.senders = Function.update s.senders g (some sender))
    (tracks : Tracks s.metadata.status s.operation.cancellation.groupAbsent
      s.operation.cancellation.result sender) : Known t := by
  refine hk.view h ?_
  rw [senders]
  apply Parties.forall_update_some
  · exact tracks
  · intro g' sender' _ hg
    exact hk.senders g' sender' hg

/-- The end condition, with no exit in the snapshot, is the operation's. -/
theorem ended_finished {p : OutputFact} {finished : Bool} (h : ended p finished = true)
    (hnone : p.leaderExit = none) : finished = true := by
  simp only [ended, hnone, Option.isSome_none, Bool.false_or, Bool.and_eq_true] at h
  exact h.1.2

/-- A sender's step, which emits an end only from `emitting`. -/
theorem known_senderMoved (hk : Known s) {g : Nat} {sender : Sender} {act : SenderAct}
    (hg : s.senders g = some sender) (h : SenderMoved s g sender act t) :
    Known t ∧ (t.ends = s.ends ∨ ∃ p, act = .replayEnd ∧ sender.stage = .emitting p ∧
      t.ends = s.ends ++ [⟨p, s.operation.cancellation.result, s.metadata.status⟩]) := by
  have ht := hk.senders g sender hg
  have goto : ∀ sender' : Sender, Tracks s.metadata.status
      s.operation.cancellation.groupAbsent s.operation.cancellation.result sender' →
      Known (s.setSender g sender') ∧ ((s.setSender g sender').ends = s.ends ∨ ∃ p,
        act = .replayEnd ∧ sender.stage = .emitting p ∧ (s.setSender g sender').ends =
          s.ends ++ [⟨p, s.operation.cancellation.result, s.metadata.status⟩]) :=
    fun sender' htracks =>
      ⟨hk.setSender ((SameView.refl s).same rfl rfl rfl rfl rfl) rfl htracks, .inl rfl⟩
  have hold : ∀ {stage p}, sender.stage = stage →
      ({ sender with stage := stage } : Sender).snapshot = some p → sender.snapshot = some p :=
    fun hstage hp => by
      rw [← hp, Sender.snapshot, hstage]
      rfl
  cases h with
  | snapshot stage => exact goto _ (tracks_fact s sender)
  | @unchanged p stage same =>
    exact goto _ (ht.next (hold stage rfl).symm rfl rfl fun _ hq => by cases hq)
  | @reported p stage changed =>
    exact goto _ (ht.next (hold stage rfl).symm rfl rfl fun _ hq => by cases hq)
  | @receipt p stage changed =>
    exact goto _ (ht.next (hold stage rfl).symm rfl rfl fun _ hq => by cases hq)
  | @noReceipt p stage seen =>
    exact goto _ (ht.next (hold stage rfl).symm rfl rfl fun _ hq => by cases hq)
  | @drained p stage stream =>
    exact goto _ (ht.next (hold stage rfl).symm rfl rfl fun _ hq => by cases hq)
  | @replaying st stop stage free =>
    exact ⟨hk.setSender ((SameView.refl s).same rfl rfl rfl rfl rfl) rfl (tracks_none rfl), .inl rfl⟩
  | @ending p stage hended =>
    refine goto _ (ht.next (hold stage rfl).symm rfl rfl fun q hq hnone => ?_)
    cases hq
    exact ended_finished hended hnone
  | @replayEnd p stage =>
    have hdone := (goto { sender with frames := sender.frames ++ [.outputEnd p], stage := .done }
      (tracks_none rfl)).1
    exact ⟨⟨hdone.operation, hdone.waited, hdone.loop, hdone.settled, hdone.senders⟩,
      .inr ⟨p, rfl, stage, rfl⟩⟩
  | _ => exact goto _ (tracks_none rfl)

/-! ## The other tasks -/

theorem known_wait (hk : Known s) (hwaited : s.waited = false) (result : Except String ExitResult) :
    Known (s.wait result) := by
  have hnone := hk.waited hwaited
  cases result with
  | error error =>
    refine ⟨hk.operation, nofun, fun m exit hm hs => ?_, hk.settled, hk.senders⟩
    have := hk.loop m exit hm hs
    rw [hnone] at this
    cases this
  | ok exit =>
    refine ⟨hk.operation, nofun, fun m exit' hm hs => ?_, fun outcome exit' hr => ?_,
      fun g sender hg => ?_⟩
    · have := hk.loop m exit' hm hs
      rw [hnone] at this
      cases this
    · have := hk.settled outcome exit' hr
      rw [hnone] at this
      cases this
    · obtain ⟨sender', hg', rfl⟩ := Option.map_eq_some_iff.mp hg
      have ht := hk.senders g sender' hg'
      rw [hnone] at ht
      exact ht.missExit exit

/-- A step of the operation settles on the exit that was recorded. -/
theorem known_operationStep (hk : Known s) {m : Meta} (hm : s.loop = .step m) {now : Nat}
    {kernel : Kernel} (h : s.operationStep m now kernel = some t) :
    Known t ∧ t.ends = s.ends := by
  obtain ⟨operation, hturn, rfl⟩ := Option.map_eq_some_iff.mp h
  have hsafe := Operation.safeStep_turn (Operation.reachable_inv hk.operation) hturn
  have hreach : Operation.machine.Reachable operation :=
    .step (a := .turn now m kernel) hk.operation trivial hturn
  have hsettled : ∀ outcome exit, operation.cancellation.result = some (.ok (outcome, exit)) →
      s.metadata.status = some exit := fun outcome exit hr => by
    cases hold : s.operation.cancellation.result with
    | none =>
      obtain ⟨_, m', _, hact, _, hstatus⟩ := hsafe.settles hold outcome exit hr
      cases hact
      exact hk.loop m exit hm hstatus
    | some r =>
      have := hsafe.result r hold
      rw [hr] at this
      cases this
      exact hk.settled outcome exit hold
  have hresult : s.operation.cancellation.result.isSome = true →
      operation.cancellation.result.isSome = true := fun hs => by
    obtain ⟨r, hr⟩ := Option.isSome_iff_exists.mp hs
    rw [hsafe.result r hr]
    rfl
  have hidle : ∀ m exit, Loop.notify = .step m → m.status = some exit →
      s.metadata.status = some exit := fun _ _ hm => by cases hm
  dsimp only
  cases hold : s.operation.cancellation.groupAbsent with
  | true =>
    rw [hsafe.absent hold]
    refine ⟨⟨hreach, hk.waited, hidle, hsettled, fun g sender hg => ?_⟩, rfl⟩
    have ht := (hk.senders g sender hg).settle hresult
    rw [hold] at ht
    show Tracks _ operation.cancellation.groupAbsent _ _
    rw [hsafe.absent hold]
    exact ht
  | false =>
    cases hnew : operation.cancellation.groupAbsent with
    | true =>
      refine ⟨⟨hreach, hk.waited, hidle, hsettled, fun g sender hg => ?_⟩, rfl⟩
      obtain ⟨sender', hg', rfl⟩ := Option.map_eq_some_iff.mp hg
      have ht := (hk.senders g sender' hg').settle hresult
      rw [hold] at ht
      show Tracks _ operation.cancellation.groupAbsent _ _
      rw [hnew]
      exact ht.missAbsence
    | false =>
      refine ⟨⟨hreach, hk.waited, hidle, hsettled, fun g sender hg => ?_⟩, rfl⟩
      have ht := (hk.senders g sender hg).settle hresult
      rw [hold] at ht
      show Tracks _ operation.cancellation.groupAbsent _ _
      rw [hnew]
      exact ht

/-- Every step keeps what is known, and only a sender's emission adds an end. -/
theorem known_step (hk : Known s) {a : Act} (h : step s a = some t) :
    Known t ∧ (t.ends = s.ends ∨ ∃ g sender p, a = .sender g .replayEnd ∧
      s.senders g = some sender ∧ sender.stage = .emitting p ∧
      t.ends = s.ends ++ [⟨p, s.operation.cancellation.result, s.metadata.status⟩]) := by
  have view : SameView s t → t.senders = s.senders → Known t ∧ t.ends = s.ends :=
    fun hv hs => ⟨hk.view hv (by rw [hs]; exact hk.senders), hv.ends⟩
  have quiet : Known t ∧ t.ends = s.ends → Known t ∧ (t.ends = s.ends ∨ ∃ g sender p,
      a = .sender g .replayEnd ∧ s.senders g = some sender ∧ sender.stage = .emitting p ∧
      t.ends = s.ends ++ [⟨p, s.operation.cancellation.result, s.metadata.status⟩]) :=
    fun hq => ⟨hq.1, .inl hq.2⟩
  have refl := SameView.refl s
  cases step_moved h with
  | collector h => exact quiet (view (collector_view h).toSameView (collector_view h).senders)
  | writer worker live h => exact quiet (view (writer_view h).toSameView (writer_view h).senders)
  | @replay r act _ gate h =>
    obtain ⟨hv, ⟨_, _, hs, _⟩ | ⟨result, _, _, hs⟩⟩ := replay_view h
    · exact quiet (view hv hs)
    · refine quiet ⟨hk.view hv ?_, hv.ends⟩
      rw [hs]
      apply Parties.forall_update
      · intro sender hg
        obtain ⟨sender', hg', rfl⟩ := Option.map_eq_some_iff.mp hg
        rcases snapshot_deliver sender' result with he | hn
        · rw [he]
          exact hk.senders _ sender' hg'
        · exact tracks_none hn
      · intro g' sender _ hg
        exact hk.senders g' sender hg
  | @sender g sender act _ attached h =>
    obtain ⟨hkt, he | ⟨p, rfl, hstage, he⟩⟩ := known_senderMoved hk attached h
    · exact ⟨hkt, .inl he⟩
    · exact ⟨hkt, .inr ⟨g, sender, p, rfl, attached, hstage, he⟩⟩
  | @waited result first =>
    refine quiet ⟨known_wait hk first result, ?_⟩
    cases result <;> rfl
  | operationStep read h => exact quiet (known_operationStep hk read h)
  | operationRead spawned idle unfinished =>
    refine quiet ⟨⟨hk.operation, hk.waited, fun m exit hm hs => ?_, hk.settled, hk.senders⟩, rfl⟩
    cases hm
    exact hs
  | operationNotified stepped =>
    refine quiet ⟨⟨hk.operation, hk.waited, fun _ _ hm => ?_, hk.settled, hk.senders⟩, rfl⟩
    cases hm
  | cancelled => exact quiet (view ⟨rfl, rfl, rfl, rfl, .inr ⟨_, _, _, rfl⟩, .inl rfl⟩ rfl)
  | attached current fresh behind =>
    exact quiet ⟨hk.setSender (refl.same rfl rfl rfl rfl rfl) rfl (tracks_none rfl), rfl⟩
  | @published g position sender attached =>
    have ht := hk.senders g sender attached
    exact quiet ⟨hk.setSender (refl.same rfl rfl rfl rfl rfl) rfl (ht.next rfl rfl rfl ht.ended), rfl⟩
  | _ => exact quiet (view (refl.same rfl rfl rfl rfl rfl) rfl)

/-- An operation that was only acquired has not settled. -/
theorem acquired_unsettled (handle : Except String Unit) (probe : Except String Bool)
    (r : CancelOutcome × ExitResult) :
    (Cancellation.verifyAcquired handle probe).result ≠ some (.ok r) := by
  unfold Cancellation.verifyAcquired
  cases handle with
  | error e => simp [Cancellation.new]
  | ok u => cases probe <;> simp [Cancellation.new, Cancellation.fail]

theorem known_init (h : (machine limit).init s) : Known s := by
  obtain ⟨operation, setupFailed, pipes, hop, -, rfl⟩ := h
  refine ⟨.init hop, fun _ => rfl, ?_, fun outcome exit hr => ?_, ?_⟩
  · intro m exit hm
    cases hm
  · obtain ⟨handle, probe, rfl⟩ := hop
    exact absurd hr (acquired_unsettled handle probe _)
  · intro g sender hg
    cases hg

theorem reachable_known (h : (machine limit).Reachable s) : Known s :=
  h.invariant (fun _ => known_init) fun _ _ _ _ hk _ hs => (known_step hk hs).1

/-! ## Timely ends -/

/-- **An end carries the settled result if and only if it is timely.** -/
theorem carried_iff (hk : Known s) {g : Nat} {sender : Sender} (hg : s.senders g = some sender)
    {p : OutputFact} (hstage : sender.stage = .emitting p) :
    Carried ⟨p, s.operation.cancellation.result, s.metadata.status⟩ ↔ Timely s sender := by
  have ht := hk.senders g sender hg
  have hp : sender.snapshot = some p := by rw [Sender.snapshot, hstage]
  have hexit := ht.exit p hp
  have habsence := ht.absence p hp
  constructor
  · rintro ⟨hok, hnone⟩
    constructor
    · by_contra hmissed
      rw [if_pos (by simpa using hmissed)] at hexit
      obtain ⟨hno, hsome⟩ := hexit
      have hstatus : s.metadata.status = none := (hnone hno).2
      rw [hstatus] at hsome
      cases hsome
    · rintro ⟨outcome, exit⟩ hr
      by_contra hmissed
      rw [if_pos (by simpa using hmissed)] at habsence
      have := (hok outcome exit hr).2.1
      rw [habsence.1] at this
      cases this
  · rintro ⟨hmissed, hmissed'⟩
    rw [hmissed, if_neg Bool.false_ne_true] at hexit
    refine ⟨fun outcome exit hr => ?_, fun hno => ?_⟩
    · have hstatus := hk.settled outcome exit hr
      have hleader : p.leaderExit = some exit := hexit.trans hstatus
      rw [hmissed' _ hr, if_neg Bool.false_ne_true] at habsence
      refine ⟨hleader, habsence.trans ((Operation.safe_of_reachable hk.operation).settled
        outcome exit hr).1, ?_⟩
      simp only [OutputFact.processCode, hleader, Option.elim]
    · have hstatus : s.metadata.status = none := hexit.symm.trans hno
      obtain ⟨r, hr⟩ := Option.isSome_iff_exists.mp (ht.ended p hstage hno)
      refine ⟨?_, hstatus⟩
      cases r with
      | error e => exact ⟨e, hr⟩
      | ok r =>
        have := hk.settled r.1 r.2 hr
        rw [hstatus] at this
        cases this

/-- **A replay end carries the settled result**, in the runs whose ends are timely; and of any run,
exactly the timely ends do. -/
theorem replay_end_settled (limit : Nat) :
    (∀ s, (machine limit).Reach TimelyEnds s → ∀ e ∈ s.ends, Carried e) ∧
      ∀ s, (machine limit).Reachable s → ∀ g sender p, s.senders g = some sender →
        sender.stage = .emitting p →
        (Carried ⟨p, s.operation.cancellation.result, s.metadata.status⟩ ↔ Timely s sender) := by
  refine ⟨fun s h => ?_, fun s h g sender p hg hstage => carried_iff (reachable_known h) hg hstage⟩
  refine h.invariant (P := fun s => ∀ e ∈ s.ends, Carried e) ?_ ?_
  · rintro s ⟨operation, setupFailed, pipes, -, -, rfl⟩ e he
    cases he
  · intro s a t hr hi hok hs e he
    rcases (known_step (reachable_known hr.reachable) hs).2 with
      hsame | ⟨g, sender, p, rfl, hg, hstage, hends⟩
    · exact hi e (hsame ▸ he)
    · rw [hends] at he
      rcases List.mem_append.mp he with he | he
      · exact hi e he
      · rw [List.mem_singleton.mp he]
        exact (carried_iff (reachable_known hr.reachable) hg hstage).mpr (hok sender hg)

/-- Both outputs have been closed and a sender has announced itself at generation 1. -/
private def closedOutputs : List Act :=
  let eof (st : Stream) : List Act := [.collector .enable, .collector .snapshot,
    .collector (.look 0), .collector (.read st (.bytes [])), .collector .observe,
    .collector (.call ⟨0, 5, 5⟩)]
  [.install false, .collector .setup, .collector .setup] ++ eof .stdout ++ eof .stderr ++
    [.attach 1 (.both 0) 0, .sender 1 .turn]

/-- A cancelled command exits on its TERM, and the operation settles. -/
private def cancelled : List Act :=
  [.cancel ⟨0, 5, 5⟩, .operationRead, .operationStep 0 fun _ => .ok true, .operationNotify,
    .wait (.ok ⟨none, some 15⟩), .operationRead, .operationStep 1 fun _ => .ok false,
    .operationNotify]

/-- A turn without output to send, up to its end condition. -/
private def endingTurn : List Act :=
  [.sender 1 .report, .sender 1 .receipt, .sender 1 .choose, .sender 1 .finish]

private theorem reachable_start : (machine 4).Reachable
    (initial 4 { cancellation := .verifyAcquired (.ok ()) (.ok true) } false (.both true)) :=
  .init ⟨_, false, _, ⟨.ok (), .ok true, rfl⟩, fun _ => rfl, rfl⟩

/-- The command is cancelled and settles while a slow client is still taking the progress frame of
the turn: the end of that turn has neither the exit nor the absence, and the frontend would report
1. -/
theorem replay_end_stale : ∃ s, (machine 4).Reachable s ∧ ∃ e ∈ s.ends,
    e.result = some (.ok (.cancelWon, ⟨none, some 15⟩)) ∧ e.fact.leaderExit = none ∧
      e.fact.originalGroupAbsent = false ∧ e.fact.processCode = 1 ∧ ¬Carried e := by
  have reached := Machine.Reachable.run reachable_start
    (closedOutputs ++ [.sender 1 .snapshot] ++ cancelled ++ endingTurn ++
      [.sender 1 .replayEnd]) rfl
  refine ⟨_, reached, _, List.mem_singleton.mpr rfl, rfl, rfl, rfl, rfl, fun hc => ?_⟩
  have := (hc.1 .cancelWon ⟨none, some 15⟩ rfl).1
  cases this

/-- The same cancellation, seen by the snapshot. -/
theorem replay_end_settled_seen : ∃ s, (machine 4).Reach TimelyEnds s ∧ ∃ e ∈ s.ends,
    e.fact.leaderExit = some ⟨none, some 15⟩ ∧ e.fact.processCode = 143 ∧ Carried e := by
  have reached : (machine 4).Reach TimelyEnds _ := Machine.Reach.run
    (.init ⟨{ cancellation := .verifyAcquired (.ok ()) (.ok true) }, false, .both true,
      ⟨.ok (), .ok true, rfl⟩, fun _ => rfl, rfl⟩)
    (closedOutputs ++ cancelled ++ [.sender 1 .snapshot] ++ endingTurn)
    (Machine.meets_of_forall (by simp [closedOutputs, cancelled, endingTurn, TimelyEnds])) rfl
  have ended : (machine 4).Reach TimelyEnds _ := .step reached (a := .sender 1 .replayEnd)
    (fun sender hg => by
      cases hg
      exact ⟨rfl, fun _ _ => rfl⟩) rfl
  exact ⟨_, ended, _, List.mem_singleton.mpr rfl, rfl, rfl,
    (replay_end_settled 4).1 _ ended _ (List.mem_singleton.mpr rfl)⟩

end Pipekeep.Bounds
