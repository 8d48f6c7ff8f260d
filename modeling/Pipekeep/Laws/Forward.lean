import Pipekeep.Laws.Collector
import Pipekeep.Laws.ReplayEnd
import Pipekeep.Lib.Latch

/-!
# Output facts only move forward

The latches of the retained fact are set by every task of the session, each in a section of its
own. `Kept` says what any section leaves of the retained fact and `Onward` what any step leaves of
the published one. Most sections are `Kept` wherever they run; the ones that end a stream's
collection are so only while the stream is still being read, and they belong to the collector. What
the collector knows of that where it stands is `Collector.Opens`, and `Beside` says that no other
task can take it away.
-/

namespace Pipekeep

/-! ## Facts -/

/-- What may become of a stream's fact. -/
structure StreamFact.Onward (a b : StreamFact) : Prop where
  retained : a.retained ≤ b.retained
  discarded : a.discarded ≤ b.discarded
  storageFault : Latched a.storageFault b.storageFault
  collection : a.collection ≠ .reading → b.collection = a.collection

/-- A control starts once and ends once, settled or unconfirmed. -/
inductive GroupControl.Onward : GroupControl → GroupControl → Prop
  | same (g : GroupControl) : Onward g g
  | started (g : GroupControl) : Onward .ready g
  | settled : Onward .running .settled
  | unconfirmed (cause : ControlFault) : Onward .running (.unconfirmed cause)

namespace OutputFact

/-- What a section leaves of the retained fact. -/
structure Kept (p q : OutputFact) : Prop where
  limit : q.limit = p.limit
  firstStop : Latched p.firstStop q.firstStop
  tailRead : p.tailRead ≤ q.tailRead
  streams : ∀ st, (p.streams.get st).Onward (q.streams.get st)

/-- What a run leaves of the published fact. -/
structure Onward (p q : OutputFact) : Prop extends Kept p q where
  leaderExit : Latched p.leaderExit q.leaderExit
  originalGroupAbsent : p.originalGroupAbsent = true → q.originalGroupAbsent = true
  groupControl : p.groupControl.Onward q.groupControl

end OutputFact

/-- A stream's fact may stay. -/
theorem StreamFact.Onward.refl (a : StreamFact) : a.Onward a :=
  ⟨Nat.le_refl _, Nat.le_refl _, .refl _, fun _ => rfl⟩

/-- Moves onward of a stream's fact follow one another. -/
theorem StreamFact.Onward.trans {a b c : StreamFact} (h : a.Onward b) (h' : b.Onward c) :
    a.Onward c where
  retained := Nat.le_trans h.retained h'.retained
  discarded := Nat.le_trans h.discarded h'.discarded
  storageFault := h.storageFault.trans h'.storageFault
  collection hr := by
    have hb := h.collection hr
    rw [h'.collection (hb.symm ▸ hr), hb]

/-- A settled or unconfirmed control stands, so moves onward follow one another. -/
theorem GroupControl.Onward.trans {a b c : GroupControl} (h : a.Onward b) (h' : b.Onward c) :
    a.Onward c := by
  cases h with
  | same => exact h'
  | started => exact .started _
  | settled =>
    cases h' with
    | same => exact .settled
  | unconfirmed cause =>
    cases h' with
    | same => exact .unconfirmed cause

namespace OutputFact

/-- The retained fact may stay. -/
theorem Kept.refl (p : OutputFact) : Kept p p :=
  ⟨rfl, .refl _, Nat.le_refl _, fun _ => .refl _⟩

/-- What a section keeps and the next one keeps, both keep. -/
theorem Kept.trans {p q r : OutputFact} (h : Kept p q) (h' : Kept q r) : Kept p r where
  limit := h'.limit.trans h.limit
  firstStop := h.firstStop.trans h'.firstStop
  tailRead := Nat.le_trans h.tailRead h'.tailRead
  streams st := (h.streams st).trans (h'.streams st)

/-- A snapshot is onward of itself. -/
theorem Onward.refl (p : OutputFact) : Onward p p := ⟨.refl p, .refl _, id, .same _⟩

/-- Snapshots onward of one another follow one another. -/
theorem Onward.trans {p q r : OutputFact} (h : Onward p q) (h' : Onward q r) : Onward p r where
  toKept := h.toKept.trans h'.toKept
  leaderExit := h.leaderExit.trans h'.leaderExit
  originalGroupAbsent ha := h'.originalGroupAbsent (h.originalGroupAbsent ha)
  groupControl := h.groupControl.trans h'.groupControl

/-! ## Sections -/

/-- One stream moves on, and with it at most a stop and the tail's count. -/
theorem kept_stream {p q : OutputFact} {st : Stream} (limit : q.limit = p.limit)
    (firstStop : Latched p.firstStop q.firstStop) (tailRead : p.tailRead ≤ q.tailRead)
    (self : (p.streams.get st).Onward (q.streams.get st))
    (other : ∀ st', st' ≠ st → q.streams.get st' = p.streams.get st') : Kept p q := by
  refine ⟨limit, firstStop, tailRead, fun st' => ?_⟩
  by_cases heq : st' = st
  · subst heq
    exact self
  · rw [other st' heq]
    exact .refl _

/-- A change of one stream's fact keeps the fact if that stream's moves onward. -/
theorem kept_onStream (p : OutputFact) (st : Stream) {f : StreamFact → StreamFact}
    (h : (p.streams.get st).Onward (f (p.streams.get st))) : Kept p (p.onStream st f) :=
  kept_stream rfl (.refl _) (Nat.le_refl _) (by rw [onStream_get_self]; exact h)
    fun _ hne => onStream_get_ne p hne f

/-- A stop is latched once. -/
theorem kept_latch (p : OutputFact) (reason : StopReason) : Kept p (p.latch reason) :=
  ⟨rfl, latched_or _ _, Nat.le_refl _, fun _ => .refl _⟩

/-- A storage fault is latched once, and the prefix stays incomplete. -/
theorem kept_storageFault (p : OutputFact) (st : Stream) (fault : StorageFault) :
    Kept p (p.storageFault st fault) :=
  (kept_onStream p st (f := fun s =>
    { s with storageFault := s.storageFault.or (some fault), prefixComplete := false })
    ⟨Nat.le_refl _, Nat.le_refl _, latched_or _ _, fun _ => rfl⟩).trans (kept_latch _ _)

/-- A recorded write only adds to what is retained. -/
theorem kept_recordWrite {p q : OutputFact} {st : Stream} {count : Nat}
    (h : p.recordWrite st count = some q) : Kept p q := by
  obtain ⟨_, rfl⟩ := recordWrite_eq_some h
  exact kept_onStream p st ⟨Nat.le_add_right _ _, Nat.le_refl _, .refl _, fun _ => rfl⟩

/-- What a settled write has not written is discarded. -/
theorem kept_settleWrite {p q : OutputFact} {st : Stream} {unwritten : Nat} {faulted : Bool}
    (h : p.settleWrite st unwritten faulted = some q) : Kept p q := by
  obtain ⟨_, hq⟩ := settleWrite_eq_some h
  refine kept_stream hq.limit ?_ (Nat.le_of_eq hq.tailRead.symm) ?_ hq.other
  · rw [hq.firstStop]
    split
    · exact latched_or _ _
    · exact .refl _
  · rw [hq.self]
    exact ⟨Nat.le_refl _, Nat.le_add_right _ _, .refl _, fun _ => rfl⟩

/-- A pin that is given back changes only the count of the work in flight. -/
theorem kept_unpin {p q : OutputFact} (h : p.unpin = some q) : Kept p q := by
  unfold unpin at h
  split at h
  · cases h
  · cases h
    exact ⟨rfl, .refl _, Nat.le_refl _, fun _ => .refl _⟩

/-- An admission is the reservation of what it retains. -/
theorem admit_reserve {p q : OutputFact} {st : Stream} {n retained : Nat}
    (h : p.admitRead st n = some (q, retained)) : q = p.reserve st n retained := by
  unfold admitRead at h
  simp only [Option.bind_eq_bind, Option.bind_eq_some_iff] at h
  obtain ⟨_, _, _, _, heq⟩ := h
  cases heq
  rfl

/-- What an admission does not retain is discarded. -/
theorem kept_admission {p q : OutputFact} {st : Stream} {n retained : Nat}
    (h : p.admitRead st n = some (q, retained)) : Kept p q := by
  rw [admit_reserve h]
  have hq := reserve_reserved p st n retained
  refine kept_stream hq.limit ?_ (Nat.le_of_eq hq.tailRead.symm) ?_ hq.other
  · rw [hq.firstStop]
    split
    · exact latched_or _ _
    · exact .refl _
  · rw [hq.self]
    exact ⟨Nat.le_refl _, Nat.le_add_right _ _, .refl _, fun _ => rfl⟩

/-- A read after the stop only adds to the discarded bytes. -/
theorem kept_observeTail (p : OutputFact) (st : Stream) (n : Nat) :
    Kept p (p.observeTail st n) := by
  refine kept_stream rfl (.refl _) (Nat.le_add_right _ _) ?_ fun _ hne => observeTail_get_ne p hne n
  rw [observeTail_get_self]
  exact ⟨Nat.le_refl _, Nat.le_add_right _ _, .refl _, fun _ => rfl⟩

/-- Closing ends the collections that are still being read, and no other. -/
theorem closeCollection_get (p : OutputFact) (cause : CollectionCause) (st : Stream) :
    (p.closeCollection cause).streams.get st =
      if (p.streams.get st).collection = .reading then
        { p.streams.get st with collection := .unconfirmed cause }
      else p.streams.get st := by
  cases st <;> rfl

/-- A collection that is over is not closed again. -/
theorem kept_closeCollection (p : OutputFact) (cause : CollectionCause) :
    Kept p (p.closeCollection cause) := by
  refine ⟨rfl, .refl _, Nat.le_refl _, fun st => ?_⟩
  rw [closeCollection_get]
  split
  · rename_i hreading
    exact ⟨Nat.le_refl _, Nat.le_refl _, .refl _, fun hover => absurd hreading hover⟩
  · exact .refl _

/-- The collection of a stream that is still read may end. -/
theorem kept_ended (p : OutputFact) {st : Stream} {f : StreamFact → StreamFact}
    (reading : (p.streams.get st).collection = .reading)
    (h : ∀ s, (f s).retained = s.retained ∧ (f s).discarded = s.discarded ∧
      (f s).storageFault = s.storageFault) : Kept p (p.onStream st f) := by
  obtain ⟨hretained, hdiscarded, hfault⟩ := h (p.streams.get st)
  refine kept_onStream p st ⟨Nat.le_of_eq hretained.symm, Nat.le_of_eq hdiscarded.symm, ?_,
    fun hover => absurd reading hover⟩
  rw [hfault]
  exact .refl _

/-- The end of a pipe ends a collection that was being read. -/
theorem kept_observeEof (p : OutputFact) {st : Stream}
    (reading : (p.streams.get st).collection = .reading) : Kept p (p.observeEof st) :=
  kept_ended p (f := fun s => { s with collection := .eof }) reading fun _ => ⟨rfl, rfl, rfl⟩

/-- A pipe that was never there ends a collection, too. -/
theorem kept_missingPipe (p : OutputFact) {st : Stream}
    (reading : (p.streams.get st).collection = .reading) : Kept p (p.missingPipe st) :=
  kept_ended p (f := fun s => { s with collection := .unconfirmed .pipeSetup }) reading
    fun _ => ⟨rfl, rfl, rfl⟩

/-- A failed read ends a collection, too. -/
theorem kept_observeError (p : OutputFact) {st : Stream}
    (reading : (p.streams.get st).collection = .reading) : Kept p (p.observeError st) :=
  (kept_ended p (f := fun s =>
    { s with collection := .unconfirmed .outputRead, prefixComplete := false }) reading
    fun _ => ⟨rfl, rfl, rfl⟩).trans (kept_latch _ _)

end OutputFact

/-! ## The operation -/

namespace Cancellation

/-- The control of an operation that is under way is running. -/
theorem control_active {c : Cancellation} (h : c.active = true) : c.outputControl = .running := by
  unfold active at h
  unfold outputControl
  cases hp : c.phase <;> rw [hp] at h <;> first | rfl | cases h

/-- An advance leaves the operation at work. -/
theorem advanced_active {c : Cancellation} {kernel : Kernel} {now : Nat} {reaped first : Bool}
    {a : Advance} (h : c.Advanced kernel now reaped first a) (hactive : c.active = true) :
    a.state.active = true := by
  cases h with
  | retired => rfl
  | killed => rfl
  | _ => exact hactive

/-- A step of the operation moves its control onward. -/
theorem stepped_control {c c' : Cancellation} {kernel : Kernel} {now : Nat}
    {exit : Option ExitResult} {terminal first : Bool} {calls : List Call}
    (h : c.Stepped kernel now exit terminal first c' calls) :
    c.outputControl.Onward c'.outputControl := by
  cases h with
  | idle => exact .same _
  | waited => exact .same _
  | gaveUp hactive =>
    rw [control_active hactive]
    exact .unconfirmed _
  | broke hactive _ _ hadv _ =>
    rw [control_active hactive]
    exact .unconfirmed _
  | advanced hactive _ _ hadv _ =>
    rw [control_active hactive, control_active (advanced_active hadv hactive)]
    exact .same _
  | settled hactive =>
    rw [control_active hactive]
    exact .settled

end Cancellation

namespace Operation

/-- A start, or joining one, moves the control onward. -/
theorem start_control (s : Operation) (now grace settlement : Nat) :
    s.cancellation.outputControl.Onward
      (s.start now grace settlement).cancellation.outputControl := by
  rcases start_cases s now grace settlement with ⟨_, he⟩ | ⟨hp, he⟩
  · rw [he]
    exact .same _
  · rw [show s.cancellation.outputControl = .ready by rw [Cancellation.outputControl, hp]]
    exact .started _

/-- A step of the operation keeps the absence and moves its control on. -/
theorem step_control {s t : Operation} {act : Act} (h : machine.Reachable s)
    (hs : step s act = some t) :
    (s.cancellation.groupAbsent = true → t.cancellation.groupAbsent = true) ∧
      s.cancellation.outputControl.Onward t.cancellation.outputControl := by
  refine ⟨((cancellation_safe h).2 act t hs).absent, ?_⟩
  cases act with
  | start now grace settlement =>
    cases hs
    exact start_control s now grace settlement
  | turn now m kernel =>
    obtain ⟨first, c, calls, _, hstep, rfl⟩ := turn_inv hs
    exact Cancellation.stepped_control hstep

end Operation

namespace Bounds

open OutputFact

variable {limit : Nat} {s t : State}

/-! ## The other tasks -/

/-- The collections stand as they did. -/
def SameCollections (p q : OutputFact) : Prop :=
  ∀ st, (q.streams.get st).collection = (p.streams.get st).collection

/-- A step of another task than the collector, for the collector: its own state is as it was, and
the retained fact was kept without ending a collection or counting a tail read. -/
structure Beside (s t : State) : Prop where
  collector : t.collector = s.collector
  tailDeadline : t.tailDeadline = s.tailDeadline
  writes : t.writes = s.writes
  held : t.held = s.held
  read : t.read = s.read
  admissions : t.admissions = s.admissions
  tailRead : t.policy.tailRead = s.policy.tailRead
  kept : Kept s.policy t.policy
  collections : SameCollections s.policy t.policy

/-- A step that changes nothing is beside the collector. -/
theorem Beside.refl (s : State) : Beside s s :=
  ⟨rfl, rfl, rfl, rfl, rfl, rfl, rfl, .refl _, fun _ => rfl⟩

/-- What the step changes of the rest is not looked at. -/
theorem Beside.same {u : State} (h : Beside s t) (policy : u.policy = t.policy)
    (collector : u.collector = t.collector) (tailDeadline : u.tailDeadline = t.tailDeadline)
    (writes : u.writes = t.writes) (held : u.held = t.held) (read : u.read = t.read)
    (admissions : u.admissions = t.admissions) : Beside s u where
  collector := collector.trans h.collector
  tailDeadline := tailDeadline.trans h.tailDeadline
  writes := writes.trans h.writes
  held := held.trans h.held
  read := read.trans h.read
  admissions := admissions.trans h.admissions
  tailRead := by rw [policy, h.tailRead]
  kept := by
    rw [policy]
    exact h.kept
  collections := by
    rw [policy]
    exact h.collections

/-- A section that leaves the collections alone. -/
theorem beside_policy {p : OutputFact} (tailRead : p.tailRead = s.policy.tailRead)
    (kept : Kept s.policy p) (collections : SameCollections s.policy p) :
    Beside s { s with policy := p } :=
  ⟨rfl, rfl, rfl, rfl, rfl, rfl, tailRead, kept, collections⟩

/-- A change of a stream's fact that keeps its collection keeps all collections. -/
theorem collections_onStream (p : OutputFact) (st : Stream) {f : StreamFact → StreamFact}
    (h : ∀ s, (f s).collection = s.collection) : SameCollections p (p.onStream st f) := by
  intro st'
  by_cases heq : st' = st
  · subst heq
    rw [onStream_get_self, h]
  · rw [onStream_get_ne p heq]

/-- The calls that any task may make, to stop or to report a fault, are beside the collector. -/
theorem beside_call (s : State) (c : Call) (clock : Clock) : Beside s (s.call c clock).1 := by
  cases c with
  | stop reason => exact beside_policy rfl (kept_latch _ _) fun _ => rfl
  | storageFault st fault =>
    exact beside_policy rfl (kept_storageFault _ st fault)
      (collections_onStream s.policy st (f := fun s =>
        { s with storageFault := s.storageFault.or (some fault), prefixComplete := false })
        fun _ => rfl)
  | start => exact (Beside.refl s).same rfl rfl rfl rfl rfl rfl rfl
  | notify => exact (Beside.refl s).same rfl rfl rfl rfl rfl rfl rfl

/-- A pin that is given back is beside the collector. -/
theorem beside_unpin {p : OutputFact} (h : s.policy.unpin = some p) :
    Beside s { s with policy := p } := by
  have hkept := kept_unpin h
  unfold unpin at h
  split at h
  · cases h
  · cases h
    exact beside_policy rfl hkept fun _ => rfl

/-- A write that is recorded is beside the collector. -/
theorem beside_record {st : Stream} {count : Nat} {p : OutputFact}
    (h : s.policy.recordWrite st count = some p) : Beside s { s with policy := p } := by
  have hkept := kept_recordWrite h
  obtain ⟨_, rfl⟩ := recordWrite_eq_some h
  exact beside_policy rfl hkept
    (collections_onStream s.policy st (f := (recorded · count)) fun _ => rfl)

/-- A write that is settled is beside the collector. -/
theorem beside_settle {st : Stream} {unwritten : Nat} {faulted : Bool} {p : OutputFact}
    (h : s.policy.settleWrite st unwritten faulted = some p) :
    Beside s { s with policy := p } := by
  obtain ⟨_, hp⟩ := settleWrite_eq_some h
  refine beside_policy hp.tailRead (kept_settleWrite h) fun st' => ?_
  by_cases heq : st' = st
  · subst heq
    rw [hp.self]
    rfl
  · rw [hp.other st' heq]

/-- A worker's steps are beside the collector. -/
theorem beside_writer {st : Stream} {w : Writer} {act : WriterAct} (h : WriterMoved s st w act t) :
    Beside s t := by
  cases h with
  | @recorded count p stage accepted =>
    exact (beside_record accepted).same rfl rfl rfl rfl rfl rfl rfl
  | settled stage accepted => exact (beside_settle accepted).same rfl rfl rfl rfl rfl rfl rfl
  | faulted stage accepted => exact (beside_settle accepted).same rfl rfl rfl rfl rfl rfl rfl
  | called stage => exact (beside_call s _ _).same rfl rfl rfl rfl rfl rfl rfl
  | unpinned stage accepted => exact (beside_unpin accepted).same rfl rfl rfl rfl rfl rfl rfl
  | _ => exact (Beside.refl s).same rfl rfl rfl rfl rfl rfl rfl

/-- A replay's steps are beside the collector. -/
theorem beside_replay {r : Replay} {act : ReplayAct} (h : ReplayMoved s r act t) : Beside s t := by
  cases h with
  | called stage => exact (beside_call s _ _).same rfl rfl rfl rfl rfl rfl rfl
  | unpinned stage accepted => exact (beside_unpin accepted).same rfl rfl rfl rfl rfl rfl rfl
  | _ => exact (Beside.refl s).same rfl rfl rfl rfl rfl rfl rfl

/-- A sender's steps are beside the collector. -/
theorem beside_sender {g : Nat} {sender : Sender} {act : SenderAct}
    (h : SenderMoved s g sender act t) : Beside s t := by
  cases h with
  | replaying stage free =>
    exact (beside_policy (p := s.policy.pin) rfl
      ⟨rfl, .refl _, Nat.le_refl _, fun _ => .refl _⟩ fun _ => rfl).same rfl rfl rfl rfl rfl rfl rfl
  | _ => exact (Beside.refl s).same rfl rfl rfl rfl rfl rfl rfl

/-- Every step is the collector's or one beside it. -/
theorem step_beside {a : Act} (h : step s a = some t) :
    (∃ act, a = .collector act ∧ CollectorMoved s act t) ∨ Beside s t := by
  cases step_moved h with
  | collector h => exact .inl ⟨_, rfl, h⟩
  | writer worker live h => exact .inr (beside_writer h)
  | replay gate h => exact .inr (beside_replay h)
  | sender attached h => exact .inr (beside_sender h)
  | @waited result first =>
    refine .inr ?_
    cases result <;> exact (Beside.refl s).same rfl rfl rfl rfl rfl rfl rfl
  | operationStep read h =>
    obtain ⟨operation, _, rfl⟩ := Option.map_eq_some_iff.mp h
    refine .inr ?_
    dsimp only
    split <;> exact (Beside.refl s).same rfl rfl rfl rfl rfl rfl rfl
  | _ => exact .inr ((Beside.refl s).same rfl rfl rfl rfl rfl rfl rfl)

/-! ## The collector -/

/-- What the collector knows of the collections where it stands: a stream it has still to set up,
has enabled or has read from is being read. -/
def Collector.Opens (policy : OutputFact) : Collector → Prop
  | .calling _ next => next.Opens policy
  | .setup st => ∀ st', st = .stdout ∨ st' = .stderr → (policy.streams.get st').collection = .reading
  | .clock p => SameCollections policy p
  | .select turn => ∀ st, turn.enabled.get st = true → (policy.streams.get st).collection = .reading
  | .observing st _ _ => (policy.streams.get st).collection = .reading
  | _ => True

/-- What the collector knows of the collections holds as long as they stand. -/
theorem Collector.Opens.steady {p q : OutputFact} {c : Collector} (h : c.Opens p)
    (same : SameCollections p q) : c.Opens q := by
  induction c with
  | calling call next ih => exact ih h
  | setup st =>
    intro st' hst
    rw [same]
    exact h st' hst
  | clock snapshot =>
    intro st
    rw [same]
    exact h st
  | select turn =>
    intro st hst
    rw [same]
    exact h st hst
  | observing st result tail =>
    show (q.streams.get st).collection = .reading
    rw [same]
    exact h
  | _ => trivial

/-- After an admission the collector knows nothing of them. -/
theorem opens_admitted (p : OutputFact) (st : Stream) (n retained : Nat) :
    (Collector.admitted st n retained).Opens p := by
  apply Collector.admitted_cases (P := fun c => c.Opens p)
  · trivial
  · trivial
  · intro _ hnext
    exact hnext

/-- A turn enables only streams that its snapshot saw being read. -/
theorem turn_opens {p : OutputFact} (hp : SameCollections s.policy p) (tail : Bool)
    (available : Nat) : (Collector.select (s.turn p tail available)).Opens s.policy := by
  intro st hst
  have hreading : (p.streams.get st).collection == .reading := by
    cases st <;> simp only [State.turn, PerStream.get, Bool.and_eq_true] at hst <;> exact hst.1.2
  rw [← hp st]
  exact beq_iff_eq.mp hreading

/-- A look keeps the fact, and its turn enables what it saw being read. -/
theorem looked_kept {p : OutputFact} {now : Nat} (hc : s.collector = .clock p)
    (ho : s.collector.Opens s.policy) (h : Looked s p now t) :
    Kept s.policy t.policy ∧ t.collector.Opens t.policy := by
  rw [hc] at ho
  cases h with
  | select early phase running unspent left => exact ⟨.refl _, turn_opens ho _ _⟩
  | _ => exact ⟨.refl _, trivial⟩

/-- The account of a read keeps the fact, as its stream was being read. -/
theorem observe_kept {st : Stream} {result : ReadResult} {tail : Bool}
    (hreading : (s.policy.streams.get st).collection = .reading) :
    Kept s.policy (s.observe st result tail).policy ∧
      (s.observe st result tail).collector.Opens (s.observe st result tail).policy := by
  cases result with
  | error =>
    exact ⟨kept_observeError _ hreading, trivial⟩
  | bytes data =>
    cases data with
    | nil => exact ⟨kept_observeEof _ hreading, trivial⟩
    | cons b bs =>
      cases tail with
      | true => exact ⟨kept_observeTail _ _ _, trivial⟩
      | false => exact ⟨.refl _, trivial⟩

/-- A step of the collector keeps the fact, and it ends only collections that it knows are open. -/
theorem collector_kept {act : CollectorAct} (ho : s.collector.Opens s.policy)
    (h : CollectorMoved s act t) : Kept s.policy t.policy ∧ t.collector.Opens t.policy := by
  cases h with
  | @called call next clock stage =>
    rw [stage] at ho
    have hb := beside_call s call clock
    refine ⟨hb.kept, ?_⟩
    cases hrest : (s.call call clock).2 <;> exact Collector.Opens.steady ho hb.collections
  | @present st stage pipe =>
    rw [stage] at ho
    refine ⟨.refl _, ?_⟩
    cases st with
    | stdout => exact fun st' hst => ho st' (.inl rfl)
    | stderr => trivial
  | @missing st stage pipe =>
    rw [stage] at ho
    cases st with
    | stdout =>
      refine ⟨kept_missingPipe _ (ho _ (Or.inl rfl)), fun st' hst => ?_⟩
      obtain rfl : st' = .stderr := hst.resolve_left (by intro h; cases h)
      exact ho .stderr (.inl rfl)
    | stderr => exact ⟨kept_missingPipe _ (ho _ (Or.inr rfl)), trivial⟩
  | enabled stage => exact ⟨.refl _, trivial⟩
  | returned stage collected joined => exact ⟨.refl _, trivial⟩
  | snapshot stage opened => exact ⟨.refl _, fun st => (fact_amounts s.policy _ _ st).2.2.2.1⟩
  | looked stage h => exact looked_kept stage ho h
  | closed stage => exact ⟨kept_closeCollection _ _, trivial⟩
  | lost stage joins worker lost => exact ⟨.refl _, trivial⟩
  | joined stage joins worker live finished => exact ⟨.refl _, trivial⟩
  | woken stage source => exact ⟨.refl _, trivial⟩
  | read stage enabled fits =>
    rw [stage] at ho
    exact ⟨.refl _, ho _ enabled⟩
  | readError stage enabled =>
    rw [stage] at ho
    exact ⟨.refl _, ho _ enabled⟩
  | observed stage =>
    rw [stage] at ho
    exact observe_kept ho
  | admitted stage accepted => exact ⟨kept_admission accepted, opens_admitted _ _ _ _⟩
  | spawned stage file worker => exact ⟨.refl _, trivial⟩

/-- **One step keeps the retained fact**, and what the collector knows of it. -/
theorem kept_step (ho : s.collector.Opens s.policy) {a : Act} (h : step s a = some t) :
    Kept s.policy t.policy ∧ t.collector.Opens t.policy := by
  rcases step_beside h with ⟨act, _, hmoved⟩ | hb
  · exact collector_kept ho hmoved
  · rw [hb.collector]
    exact ⟨hb.kept, ho.steady hb.collections⟩

/-- At the start both streams are being read. -/
theorem opens_init (h : (machine limit).init s) : s.collector.Opens s.policy := by
  obtain ⟨operation, setupFailed, pipes, -, -, rfl⟩ := h
  cases setupFailed <;> exact fun st _ => by cases st <;> rfl

/-- In every reachable state the collector reads only what is being read. -/
theorem reachable_opens (h : (machine limit).Reachable s) : s.collector.Opens s.policy :=
  h.invariant (fun _ => opens_init) fun _ _ _ _ ho _ hs => (kept_step ho hs).2

/-! ## What is published -/

/-- What a step does to the leader's status and to the operation: the status is recorded once, and
the operation takes a step of its own or none. -/
theorem step_published (hk : Known s) {a : Act} (h : step s a = some t) :
    Latched s.metadata.status t.metadata.status ∧
      (t.operation = s.operation ∨ ∃ act, Operation.step s.operation act = some t.operation) := by
  have view : SameView s t → Latched s.metadata.status t.metadata.status ∧
      (t.operation = s.operation ∨ ∃ act, Operation.step s.operation act = some t.operation) := by
    intro hv
    refine ⟨by rw [hv.status]; exact .refl _, ?_⟩
    rcases hv.operation with he | ⟨now, grace, settlement, he⟩
    · exact .inl he
    · exact .inr ⟨.start now grace settlement, by rw [he]; rfl⟩
  cases step_moved h with
  | collector h => exact view (collector_view h).toSameView
  | writer worker live h => exact view (writer_view h).toSameView
  | replay gate h => exact view (replay_view h).1
  | sender attached h => cases h <;> exact ⟨.refl _, .inl rfl⟩
  | @waited result first =>
    cases result with
    | ok status => exact ⟨latched_none (hk.waited first) _, .inl rfl⟩
    | error error => exact ⟨.refl _, .inl rfl⟩
  | @operationStep m now kernel _ read h =>
    obtain ⟨operation, hturn, rfl⟩ := Option.map_eq_some_iff.mp h
    dsimp only
    split <;> exact ⟨.refl _, .inr ⟨.turn now m kernel, hturn⟩⟩
  | @cancelled clock =>
    exact ⟨.refl _, .inr ⟨.start clock.now clock.grace clock.settlement, rfl⟩⟩
  | _ => exact ⟨.refl _, .inl rfl⟩

/-- The published fact follows the retained one, the status and the operation. -/
theorem onward_fact {p q : OutputFact} {m m' : Meta} {c c' : Cancellation} (kept : Kept p q)
    (status : Latched m.status m'.status) (absent : c.groupAbsent = true → c'.groupAbsent = true)
    (control : c.outputControl.Onward c'.outputControl) :
    Onward (p.fact m c) (q.fact m' c') where
  limit := kept.limit
  firstStop := kept.firstStop
  tailRead := kept.tailRead
  streams st := by
    obtain ⟨hretained, -, hdiscarded, hcollection, hfault⟩ := fact_amounts p m c st
    obtain ⟨hretained', -, hdiscarded', hcollection', hfault'⟩ := fact_amounts q m' c' st
    have h := kept.streams st
    exact ⟨by rw [hretained, hretained']; exact h.retained,
      by rw [hdiscarded, hdiscarded']; exact h.discarded,
      by rw [hfault, hfault']; exact h.storageFault,
      by rw [hcollection, hcollection']; exact h.collection⟩
  leaderExit := status
  originalGroupAbsent := absent
  groupControl := control

/-- **One step moves the published fact onward.** -/
theorem onward_step (hr : (machine limit).Reachable s) {a : Act} (h : step s a = some t) :
    Onward s.fact t.fact := by
  have hk := reachable_known hr
  obtain ⟨hstatus, hop⟩ := step_published hk h
  obtain ⟨habsent, hcontrol⟩ : (s.operation.cancellation.groupAbsent = true →
      t.operation.cancellation.groupAbsent = true) ∧
      s.operation.cancellation.outputControl.Onward t.operation.cancellation.outputControl := by
    rcases hop with he | ⟨act, hact⟩
    · rw [he]
      exact ⟨id, .same _⟩
    · exact Operation.step_control hk.operation hact
  exact onward_fact (kept_step (reachable_opens hr) h).1 hstatus habsent hcontrol

/-- **Output facts only move forward.** Of two facts published by one session, the later keeps the
limit and every latch of the earlier, and no count of it is less. -/
theorem facts_onward (hr : (machine limit).Reachable s) {as : List Act}
    (hrun : (machine limit).run s as = some t) : Onward s.fact t.fact := by
  refine Machine.Reachable.bounded (R := fun s t => Onward s.fact t.fact) ?_ ?_ ?_ hr hrun
  · exact fun s => .refl s.fact
  · exact fun h h' => h.trans h'
  · exact fun _ _ _ h hs => onward_step h hs

/-- A read over the limit is admitted and starts the operation; then its write fails and the
operation misses its deadline. -/
theorem facts_onward_faulted : ∃ s t : State, s.fact.firstStop = some .outputLimit ∧
    s.fact.groupControl = .running ∧ t.fact.firstStop = some .outputLimit ∧
      t.fact.streams.stdout.storageFault = some .partialWrite ∧
      t.fact.groupControl = .unconfirmed .deadline ∧ Onward s.fact t.fact := by
  let reading : List Act := [.collector .setup, .collector .setup, .collector .enable,
    .collector .snapshot, .collector (.look 0), .collector (.read .stdout (.bytes [1, 2, 3])),
    .collector .observe, .collector .admitRead, .collector (.call ⟨0, 5, 5⟩),
    .collector (.call ⟨0, 5, 5⟩), .collector (.call ⟨0, 5, 5⟩), .collector .spawn]
  let failing : List Act := [.writer .stdout (.write 1), .writer .stdout .record,
    .writer .stdout .notify, .writer .stdout (.writeError []), .writer .stdout .settle,
    .writer .stdout (.call ⟨0, 5, 5⟩), .operationRead, .operationStep 10 fun _ => .ok true]
  have start : (machine 2).Reachable
      (initial 2 { cancellation := .verifyAcquired (.ok ()) (.ok true) } false (.both true)) :=
    .init ⟨_, false, _, ⟨.ok (), .ok true, rfl⟩, fun _ => rfl, rfl⟩
  have reached := Machine.Reachable.run start reading rfl
  exact ⟨_, _, rfl, rfl, rfl, rfl, rfl,
    facts_onward reached (show (machine 2).run _ failing = some _ from rfl)⟩

end Bounds

end Pipekeep
