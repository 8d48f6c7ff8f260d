import Pipekeep.Laws.Policy
import Pipekeep.Laws.Steps

/-!
# The books of a finite-output session

What each actor holds is a function of where it stands: the collector the bytes in its hand, a
write worker the rest of its data and a pin, a replay a pin. `Account` is what the session knows
about one stream and `Account.Ok` how it adds up; `Inv` adds what holds for both streams together
and what the collector has still to rely on since it last looked.

Most sections are `Quiet` for the fact and change only where their actor stands: `Inv.quiet` covers
those once. The others, which move bytes from one place to another, have a lemma each.
-/

namespace Pipekeep.Bounds

open OutputFact

/-! ## What the actors hold -/

/-- The bytes of a write that a reservation still stands for. -/
def Writer.rest (w : Writer) : List UInt8 :=
  match w.stage with
  | .queued | .writing | .recording _ | .notifying | .settling _ => w.data.drop w.recorded
  | _ => []

def Writer.pins (w : Writer) : Nat :=
  match w.stage with
  | .finishing | .finished => 0
  | _ => 1

def Replay.pins (r : Replay) : Nat :=
  match r.stage with
  | .finishing _ => 0
  | _ => 1

/-- The not yet completed part of a stream's write. -/
def outstanding (w : Option Writer) : Nat := w.elim 0 fun w => w.rest.length

def writerPins (w : Option Writer) : Nat := w.elim 0 Writer.pins

def replayPins (r : Option Replay) : Nat := r.elim 0 Replay.pins

/-- What a worker's stage promises. -/
structure Writer.Ok (w : Writer) : Prop where
  recording : ∀ count, w.stage = .recording count → 0 < count ∧ count ≤ w.rest.length
  settling : w.stage = .settling none → w.rest = []
  queued : w.stage = .queued → w.recorded = 0 ∧ w.lost = false

/-- The stages that promise something. -/
def WriterStage.promises : WriterStage → Bool
  | .recording _ | .settling none | .queued => true
  | _ => false

/-- A worker that has promised nothing owes nothing. -/
theorem Writer.ok_of_promises {w : Writer} (h : w.stage.promises = false) : w.Ok where
  recording count hcount := by
    rw [hcount] at h
    cases h
  settling hsettling := by
    rw [hsettling] at h
    cases h
  queued hqueued := by
    rw [hqueued] at h
    cases h

namespace Collector

/-- The bytes read from a pipe and not yet accounted for. -/
def hand : Collector → Stream → List UInt8
  | .calling _ next, st => next.hand st
  | .observing st' (.bytes data) _, st => if st = st' then data else []
  | .admitting st' data, st => if st = st' then data else []
  | _, _ => []

/-- The collector is about to spawn an admitted write of the stream. -/
def spawns : Collector → Stream → Bool
  | .calling _ next, st => next.spawns st
  | .spawning st', st => st' == st
  | _, _ => false

/-- The collector is about to report a fault of the stream. -/
def reports : Collector → Stream → Bool
  | .calling (.storageFault st' _) _, st => st' == st
  | _, _ => false

/-- The stages that hold nothing. -/
def idle : Collector → Bool
  | .calling (.storageFault _ _) _ => false
  | .calling _ next => next.idle
  | .observing _ (.bytes (_ :: _)) _ => false
  | .admitting _ _ => false
  | .spawning _ => false
  | _ => true

/-- A collector that is idle has nothing in hand and spawns nothing. -/
theorem of_idle {c : Collector} (h : c.idle = true) (st : Stream) :
    c.hand st = [] ∧ c.spawns st = false ∧ c.reports st = false := by
  induction c with
  | calling call next ih =>
    cases call with
    | storageFault st' fault => cases h
    | _ => exact ⟨(ih h).1, (ih h).2.1, rfl⟩
  | observing st' result tail =>
    cases result with
    | error => exact ⟨rfl, rfl, rfl⟩
    | bytes data =>
      cases data with
      | nil => exact ⟨ite_self _, rfl, rfl⟩
      | cons b bs => cases h
  | admitting st' data => cases h
  | spawning st' => cases h
  | _ => exact ⟨rfl, rfl, rfl⟩

end Collector

/-! ## The account of one stream -/

/-- What the session knows about one stream. -/
structure Account where
  fact : StreamFact
  stopped : Bool
  stop : Nat
  writes : Bool
  held : Bool
  writer : Option Writer
  read : List UInt8
  hand : List UInt8
  spawns : Bool
  reports : Bool

def State.account (s : State) (st : Stream) : Account where
  fact := s.policy.streams.get st
  stopped := s.policy.firstStop.isSome
  stop := s.metadata.ends.get st
  writes := s.writes.get st
  held := s.held.get st
  writer := s.writers.get st
  read := s.read.get st
  hand := s.collector.hand st
  spawns := s.collector.spawns st
  reports := s.collector.reports st

namespace Account

/-- Who has the stream's file: the collector, alone or with a write to spawn; a worker the collector
waits for; or a worker that was lost with it, which is a stop. -/
inductive Slot (a : Account) : Prop
  | idle : a.writer = none → a.writes = false → a.held = true → a.spawns = false → Slot a
  | queued {w : Writer} : a.writer = some w → w.stage = .queued → a.writes = false →
      a.held = true → a.spawns = true → Slot a
  | running {w : Writer} : a.writer = some w → w.stage ≠ .queued → a.writes = true →
      a.held = false → a.spawns = false → Slot a
  | lost {w : Writer} : a.writer = some w → w.stage ≠ .queued → w.lost = true →
      a.writes = false → a.held = false → a.spawns = false →
      (a.stopped = true ∨ a.reports = true) → Slot a

/-- **The account adds up.** -/
structure Ok (a : Account) : Prop where
  reserved : a.fact.reserved = outstanding a.writer
  read : a.read.length =
    a.fact.retained + a.fact.reserved + a.fact.discarded + a.hand.length
  hand : a.hand <:+ a.read
  stop : a.stop = a.fact.retained
  writer : ∀ w, a.writer = some w → w.Ok
  marks : a.fact.prefixComplete = true → a.fact.discarded = 0 ∧ a.fact.storageFault = none
  spared : a.stopped = false → a.fact.discarded = 0
  slot : a.Slot

end Account

/-- A worker is still where it was: not spawned, running or lost. -/
inductive SamePlace : Option Writer → Option Writer → Prop
  | none : SamePlace none none
  | some {w w' : Writer} : (w'.stage = .queued ↔ w.stage = .queued) →
      (w.lost = true → w'.lost = true) → SamePlace (some w) (some w')

/-- A worker moves on and the reservation stands for the same bytes. -/
inductive SameWriter : Option Writer → Option Writer → Prop
  | none : SameWriter none none
  | some {w w' : Writer} : w'.rest = w.rest → (w.Ok → w'.Ok) →
      (w'.stage = .queued ↔ w.stage = .queued) → (w.lost = true → w'.lost = true) →
      SameWriter (some w) (some w')

/-- A worker may stay. -/
theorem SameWriter.refl (w : Option Writer) : SameWriter w w := by
  cases w with
  | none => exact .none
  | some w => exact .some rfl id Iff.rfl id

/-- A worker that is the same has the same place. -/
theorem SameWriter.place {w w' : Option Writer} (h : SameWriter w w') : SamePlace w w' := by
  cases h with
  | none => exact .none
  | some _ _ hqueued hlost => exact .some hqueued hlost

/-- A worker may stay at its place. -/
theorem SamePlace.refl (w : Option Writer) : SamePlace w w := (SameWriter.refl w).place

/-- A worker that is the same has the same outstanding bytes. -/
theorem SameWriter.outstanding {w w' : Option Writer} (h : SameWriter w w') :
    outstanding w' = outstanding w := by
  cases h with
  | none => rfl
  | some hrest => exact congrArg List.length hrest

/-- The same account, but for where its worker stands and what has been latched or marked. -/
structure Account.Quiet (a b : Account) : Prop where
  retained : b.fact.retained = a.fact.retained
  reserved : b.fact.reserved = a.fact.reserved
  discarded : b.fact.discarded = a.fact.discarded
  marks : b.fact.prefixComplete = true →
    a.fact.prefixComplete = true ∧ b.fact.storageFault = a.fact.storageFault
  stopped : a.stopped = true → b.stopped = true
  stop : b.stop = a.stop
  writes : b.writes = a.writes
  held : b.held = a.held
  writer : SameWriter a.writer b.writer
  read : b.read = a.read
  hand : b.hand = a.hand
  spawns : b.spawns = a.spawns
  reports : a.reports = true → b.reports = true ∨ b.stopped = true

/-- The file stays where it is while a worker moves on. -/
theorem Account.Slot.moved {a b : Account} (ha : a.Slot) (hw : SamePlace a.writer b.writer)
    (writes : b.writes = a.writes) (held : b.held = a.held) (spawns : b.spawns = a.spawns)
    (stopped : a.stopped = true → b.stopped = true)
    (reports : a.reports = true → b.reports = true ∨ b.stopped = true) : b.Slot := by
  cases ha with
  | idle hnone hwrites hheld hspawns =>
    rw [hnone] at hw
    generalize hb : b.writer = w' at hw
    cases hw with
    | none => exact .idle hb (writes.trans hwrites) (held.trans hheld) (spawns.trans hspawns)
  | queued hsome hstage hwrites hheld hspawns =>
    rw [hsome] at hw
    generalize hb : b.writer = w' at hw
    cases hw with
    | some hqueued =>
      exact .queued hb (hqueued.mpr hstage) (writes.trans hwrites) (held.trans hheld)
        (spawns.trans hspawns)
  | running hsome hstage hwrites hheld hspawns =>
    rw [hsome] at hw
    generalize hb : b.writer = w' at hw
    cases hw with
    | some hqueued =>
      exact .running hb (fun hq => hstage (hqueued.mp hq)) (writes.trans hwrites)
        (held.trans hheld) (spawns.trans hspawns)
  | lost hsome hstage hlost hwrites hheld hspawns hwhy =>
    rw [hsome] at hw
    generalize hb : b.writer = w' at hw
    cases hw with
    | some hqueued hlost' =>
      refine .lost hb (fun hq => hstage (hqueued.mp hq)) (hlost' hlost) (writes.trans hwrites)
        (held.trans hheld) (spawns.trans hspawns) ?_
      rcases hwhy with hs | hr
      · exact .inl (stopped hs)
      · exact (reports hr).symm

/-- Where the collector is about to spawn a write, the write and its file are there. -/
theorem Account.Slot.spawning {a : Account} (ha : a.Slot) (h : a.spawns = true) :
    ∃ w, a.writer = some w ∧ w.stage = .queued ∧ a.held = true := by
  cases ha with
  | queued hsome hstage _ hheld => exact ⟨_, hsome, hstage, hheld⟩
  | idle _ _ _ hno =>
    rw [hno] at h
    cases h
  | running _ _ _ _ hno =>
    rw [hno] at h
    cases h
  | lost _ _ _ _ _ hno =>
    rw [hno] at h
    cases h

/-- A quiet step keeps an account right. -/
theorem Account.Ok.quiet {a b : Account} (ha : a.Ok) (h : a.Quiet b) : b.Ok where
  reserved := by rw [h.reserved, h.writer.outstanding, ha.reserved]
  read := by rw [h.read, h.retained, h.reserved, h.discarded, h.hand, ha.read]
  hand := by
    rw [h.hand, h.read]
    exact ha.hand
  stop := by rw [h.stop, h.retained, ha.stop]
  writer w' hb := by
    have hw := h.writer
    have hok := ha.writer
    rw [hb] at hw
    generalize a.writer = w at hw hok
    cases hw with
    | some _ hk => exact hk (hok _ rfl)
  marks hb := by
    obtain ⟨hp, hs⟩ := h.marks hb
    rw [h.discarded, hs]
    exact ha.marks hp
  spared hb := by
    rw [h.discarded]
    refine ha.spared ?_
    cases hs : a.stopped with
    | false => rfl
    | true => exact absurd (h.stopped hs) (by rw [hb]; exact Bool.false_ne_true)
  slot := ha.slot.moved h.writer.place h.writes h.held h.spawns h.stopped h.reports

/-! ## What the collector relies on -/

/-- Every admission so far retained all it read. -/
def AllFull (admissions : List Admission) : Prop := ∀ a ∈ admissions, a.retained = a.read

/-- A normal read of at most `n` bytes of `st` may be under way. -/
structure Normal (policy : OutputFact) (writes : PerStream Bool) (admissions : List Admission)
    (st : Stream) (n : Nat) : Prop where
  full : AllFull admissions
  size : n ≤ readSize
  spared : policy.firstStop = none → n ≤ policy.limit - policy.charge + 1
  writing : policy.firstStop = none → writes.get st = true → policy.charge = policy.limit

/-- A tail read of at most `n` bytes may be under way. -/
structure Tail (policy : OutputFact) (n : Nat) : Prop where
  stopped : policy.firstStop.isSome = true
  size : policy.tailRead + n ≤ tailBytes

/-- What a snapshot still says about the fact it was taken from. -/
structure Snapshot (policy : OutputFact) (admissions : List Admission) (p : OutputFact) : Prop where
  limit : p.limit = policy.limit
  charge : p.charge ≤ p.limit
  tailRead : p.tailRead = policy.tailRead
  spared : policy.firstStop = none → p.firstStop = none ∧ p.charge = policy.charge
  full : p.firstStop = none → AllFull admissions

/-- What the collector knows where it stands. -/
def Knows (policy : OutputFact) (writes : PerStream Bool) (admissions : List Admission) :
    Collector → Prop
  | .calling _ next => Knows policy writes admissions next
  | .clock p => Snapshot policy admissions p
  | .select turn =>
    (turn.tail = true → Tail policy turn.readSize) ∧
      (turn.tail = false → ∀ st, turn.enabled.get st = true →
        Normal policy writes admissions st turn.readSize)
  | .observing st (.bytes data) tail =>
    (tail = true → Tail policy data.length) ∧
      (tail = false → Normal policy writes admissions st data.length)
  | .admitting st data => data ≠ [] ∧ Normal policy writes admissions st data.length
  | _ => True

/-! ## The invariant -/

/-- What the normal reads of a log brought. -/
def readBytes : List Admission → Nat
  | [] => 0
  | a :: admissions => a.read + readBytes admissions

/-- What was retained of it. -/
def retainedBytes : List Admission → Nat
  | [] => 0
  | a :: admissions => a.retained + retainedBytes admissions

/-- One more admission adds the bytes of its read. -/
@[simp] theorem readBytes_snoc (admissions : List Admission) (a : Admission) :
    readBytes (admissions ++ [a]) = readBytes admissions + a.read := by
  induction admissions with
  | nil => exact Nat.add_comm _ _
  | cons b admissions ih => rw [List.cons_append, readBytes, ih, readBytes, Nat.add_assoc]

/-- One more admission adds the bytes that it retains. -/
@[simp] theorem retainedBytes_snoc (admissions : List Admission) (a : Admission) :
    retainedBytes (admissions ++ [a]) = retainedBytes admissions + a.retained := by
  induction admissions with
  | nil => exact Nat.add_comm _ _
  | cons b admissions ih => rw [List.cons_append, retainedBytes, ih, retainedBytes, Nat.add_assoc]

/-- A log of whole admissions retained what it read. -/
theorem readBytes_of_full {admissions : List Admission} (h : AllFull admissions) :
    readBytes admissions = retainedBytes admissions := by
  induction admissions with
  | nil => rfl
  | cons a admissions ih =>
    rw [readBytes, retainedBytes, h a List.mem_cons_self,
      ih fun b hb => h b (List.mem_cons_of_mem a hb)]

/-- A log in which all admissions but the last are whole misses one read at most. -/
theorem readBytes_le {admissions : List Admission} (hfull : AllFull admissions.dropLast)
    (hsize : ∀ a ∈ admissions, a.read ≤ readSize) :
    readBytes admissions ≤ retainedBytes admissions + readSize := by
  rcases List.eq_nil_or_concat admissions with rfl | ⟨before, a, rfl⟩
  · exact Nat.zero_le _
  · rw [List.concat_eq_append, List.dropLast_concat] at hfull
    rw [List.concat_eq_append] at hsize ⊢
    rw [readBytes_snoc, retainedBytes_snoc, readBytes_of_full hfull]
    have := hsize a (List.mem_append_right _ (List.mem_singleton_self a))
    omega

/-- What the log of admissions says. -/
structure Admitted (limit : Nat) (s : State) : Prop where
  bounded : ∀ a ∈ s.admissions, 0 < a.read ∧ a.read ≤ readSize ∧ a.retained ≤ a.read
  full : AllFull s.admissions.dropLast
  spared : s.policy.firstStop = none →
    AllFull s.admissions ∧ retainedBytes s.admissions = s.policy.charge
  sum : retainedBytes s.admissions ≤ limit
  read : total (fun st => (s.read.get st).length) =
    readBytes s.admissions + s.policy.tailRead +
      total (fun st => (s.collector.hand st).length)

/-- **The books are in order.** -/
structure Inv (limit : Nat) (s : State) : Prop where
  accounts : ∀ st, (s.account st).Ok
  limited : s.policy.limit = limit
  charge : s.policy.charge ≤ limit
  pins : s.policy.ioInflight =
    total (fun st => writerPins (s.writers.get st)) + replayPins s.replay
  tailRead : s.policy.tailRead ≤ tailBytes
  knows : Knows s.policy s.writes s.admissions s.collector
  admitted : Admitted limit s

/-! ## Sections that release, and move nothing else -/

/-- The budget of a fact may grow, but only with a stop. -/
structure Steady (p q : OutputFact) : Prop where
  limit : q.limit = p.limit
  tailRead : q.tailRead = p.tailRead
  stopped : p.firstStop.isSome = true → q.firstStop.isSome = true
  charge : q.charge ≤ p.charge
  spared : q.firstStop = none → q.charge = p.charge

variable {p q : OutputFact}

/-- A section that changes nothing is steady. -/
theorem Steady.refl (p : OutputFact) : Steady p p :=
  ⟨rfl, rfl, id, Nat.le_refl _, fun _ => rfl⟩

/-- A quiet section is steady. -/
theorem steady_of_quiet (h : Quiet p q) : Steady p q :=
  ⟨h.limit, h.tailRead, h.stopped, Nat.le_of_eq h.charge, fun _ => h.charge⟩

/-- Where there is no stop now there was none before. -/
theorem Steady.firstStop (h : Steady p q) (hq : q.firstStop = none) : p.firstStop = none := by
  cases hp : p.firstStop with
  | none => rfl
  | some r =>
    have := h.stopped (by rw [hp]; rfl)
    rw [hq] at this
    cases this

variable {writes : PerStream Bool} {admissions : List Admission}

/-- What a normal read relies on, a steady section keeps. -/
theorem Normal.steady {st : Stream} {n : Nat} (hn : Normal p writes admissions st n)
    (h : Steady p q) : Normal q writes admissions st n where
  full := hn.full
  size := hn.size
  spared hq := by
    rw [h.limit, h.spared hq]
    exact hn.spared (h.firstStop hq)
  writing hq hw := by
    rw [h.limit, h.spared hq]
    exact hn.writing (h.firstStop hq) hw

/-- A shorter read relies on less. -/
theorem Normal.mono {st : Stream} {n m : Nat} (hn : Normal p writes admissions st n) (h : m ≤ n) :
    Normal p writes admissions st m :=
  ⟨hn.full, Nat.le_trans h hn.size, fun hq => Nat.le_trans h (hn.spared hq), hn.writing⟩

/-- A shorter read of the tail relies on less. -/
theorem Tail.mono {n m : Nat} (ht : Tail p n) (h : m ≤ n) : Tail p m :=
  ⟨ht.stopped, Nat.le_trans (Nat.add_le_add_left h _) ht.size⟩

/-- What a read of the tail relies on, a steady section keeps. -/
theorem Tail.steady {n : Nat} (ht : Tail p n) (h : Steady p q) : Tail q n :=
  ⟨h.stopped ht.stopped, h.tailRead ▸ ht.size⟩

/-- A snapshot stays good over a steady section. -/
theorem Snapshot.steady {r : OutputFact} (hs : Snapshot p admissions r) (h : Steady p q) :
    Snapshot q admissions r where
  limit := hs.limit.trans h.limit.symm
  charge := hs.charge
  tailRead := hs.tailRead.trans h.tailRead.symm
  spared hq := by
    rw [h.spared hq]
    exact hs.spared (h.firstStop hq)
  full := hs.full

/-- What the collector knows survives every section of another task. -/
theorem Knows.steady {c : Collector} (hk : Knows p writes admissions c) (h : Steady p q) :
    Knows q writes admissions c := by
  induction c with
  | calling call next ih => exact ih hk
  | clock r => exact Snapshot.steady hk h
  | select turn =>
    exact ⟨fun ht => (hk.1 ht).steady h, fun ht st hst => (hk.2 ht st hst).steady h⟩
  | observing st result tail =>
    cases result with
    | error => trivial
    | bytes data => exact ⟨fun ht => (hk.1 ht).steady h, fun ht => (hk.2 ht).steady h⟩
  | admitting st data => exact ⟨hk.1, hk.2.steady h⟩
  | _ => trivial

variable {limit : Nat} {s t : State}

/-- The admissions stay right over a steady section that reads and admits nothing. -/
theorem Admitted.steady (ha : Admitted limit s) (h : Steady s.policy t.policy)
    (hadm : t.admissions = s.admissions) (hread : t.read = s.read)
    (hhand : ∀ st, t.collector.hand st = s.collector.hand st) : Admitted limit t where
  bounded := by
    rw [hadm]
    exact ha.bounded
  full := by
    rw [hadm]
    exact ha.full
  spared hq := by
    rw [hadm, h.spared hq]
    exact ha.spared (h.firstStop hq)
  sum := by
    rw [hadm]
    exact ha.sum
  read := by
    rw [hread, hadm, h.tailRead, ha.read]
    exact congrArg _ (total_congr fun st => by rw [hhand])

/-- A step that reads nothing and admits nothing. -/
theorem Inv.steady (hi : Inv limit s) (h : Steady s.policy t.policy)
    (accounts : ∀ st, (t.account st).Ok)
    (pins : t.policy.ioInflight =
      total (fun st => writerPins (t.writers.get st)) + replayPins t.replay)
    (knows : Knows t.policy t.writes t.admissions t.collector)
    (hadm : t.admissions = s.admissions) (hread : t.read = s.read)
    (hhand : ∀ st, t.collector.hand st = s.collector.hand st) : Inv limit t where
  accounts := accounts
  limited := h.limit.trans hi.limited
  charge := Nat.le_trans h.charge hi.charge
  pins := pins
  tailRead := h.tailRead ▸ hi.tailRead
  knows := knows
  admitted := hi.admitted.steady h hadm hread hhand

/-- A step that changes nothing of the books but where its actor stands. -/
theorem Inv.quiet (hi : Inv limit s) (h : Quiet s.policy t.policy)
    (stop : t.metadata.ends = s.metadata.ends) (hwrites : t.writes = s.writes)
    (hheld : t.held = s.held)
    (hwriter : ∀ st, SameWriter (s.writers.get st) (t.writers.get st))
    (hpins : ∀ st, writerPins (t.writers.get st) = writerPins (s.writers.get st))
    (hreplay : replayPins t.replay = replayPins s.replay) (hread : t.read = s.read)
    (hadm : t.admissions = s.admissions)
    (hhand : ∀ st, t.collector.hand st = s.collector.hand st)
    (hspawns : ∀ st, t.collector.spawns st = s.collector.spawns st)
    (hreports : ∀ st, s.collector.reports st = true →
      t.collector.reports st = true ∨ t.policy.firstStop.isSome = true)
    (knows : Knows t.policy t.writes t.admissions t.collector) : Inv limit t := by
  refine hi.steady (steady_of_quiet h) (fun st => (hi.accounts st).quiet ?_) ?_ knows hadm hread hhand
  · exact {
      retained := h.retained st
      reserved := h.reserved st
      discarded := h.discarded st
      marks := h.marks st
      stopped := h.stopped
      stop := congrArg (·.get st) stop
      writes := congrArg (·.get st) hwrites
      held := congrArg (·.get st) hheld
      writer := hwriter st
      read := congrArg (·.get st) hread
      hand := hhand st
      spawns := hspawns st
      reports := hreports st }
  · rw [h.ioInflight, hi.pins, hreplay]
    exact congrArg (· + _) (total_congr fun st => (hpins st).symm)

/-- A step of another actor than the collector. -/
theorem Inv.other (hi : Inv limit s) (h : Quiet s.policy t.policy)
    (stop : t.metadata.ends = s.metadata.ends) (hwrites : t.writes = s.writes)
    (hheld : t.held = s.held)
    (hwriter : ∀ st, SameWriter (s.writers.get st) (t.writers.get st))
    (hpins : ∀ st, writerPins (t.writers.get st) = writerPins (s.writers.get st))
    (hreplay : replayPins t.replay = replayPins s.replay) (hread : t.read = s.read)
    (hadm : t.admissions = s.admissions) (hcollector : t.collector = s.collector) :
    Inv limit t := by
  refine hi.quiet h stop hwrites hheld hwriter hpins hreplay hread hadm (fun _ => by rw [hcollector])
    (fun _ => by rw [hcollector]) (fun _ hr => .inl (by rw [hcollector]; exact hr)) ?_
  rw [hwrites, hadm, hcollector]
  exact hi.knows.steady (steady_of_quiet h)

/-- A step of the collector that leaves the workers and the replay alone. -/
theorem Inv.collector (hi : Inv limit s) {p : OutputFact} {c : Collector}
    (h : Quiet s.policy p)
    (hhand : ∀ st, c.hand st = s.collector.hand st)
    (hspawns : ∀ st, c.spawns st = s.collector.spawns st)
    (hreports : ∀ st, s.collector.reports st = true →
      c.reports st = true ∨ p.firstStop.isSome = true)
    (knows : Knows p s.writes s.admissions c) :
    Inv limit { s with policy := p, collector := c } :=
  hi.quiet h rfl rfl rfl (fun _ => .refl _) (fun _ => rfl) rfl rfl rfl hhand hspawns hreports knows

/-- The books do not read the rest of the state. -/
structure SameBooks (s t : State) : Prop where
  policy : t.policy = s.policy
  ends : t.metadata.ends = s.metadata.ends
  collector : t.collector = s.collector
  writes : t.writes = s.writes
  held : t.held = s.held
  writers : t.writers = s.writers
  replay : t.replay = s.replay
  read : t.read = s.read
  admissions : t.admissions = s.admissions

/-- A step that leaves the books alone keeps them right. -/
theorem Inv.same (hi : Inv limit s) (h : SameBooks s t) : Inv limit t :=
  hi.other (h.policy ▸ .refl _) h.ends h.writes h.held (fun st => h.writers ▸ .refl _)
    (fun st => by rw [h.writers]) (by rw [h.replay]) h.read h.admissions h.collector

/-- The books are right at the start. -/
theorem inv_initial (limit : Nat) (operation : Operation) (setupFailed : Bool)
    (pipes : PerStream Bool) : Inv limit (initial limit operation setupFailed pipes) := by
  have hhand : ∀ st, (initial limit operation setupFailed pipes).collector.hand st = [] :=
    fun st => by cases setupFailed <;> rfl
  have hspawns : ∀ st, (initial limit operation setupFailed pipes).collector.spawns st = false :=
    fun st => by cases setupFailed <;> rfl
  refine ⟨fun st => ?_, rfl, Nat.zero_le _, rfl, Nat.zero_le _, ?_, ?_⟩
  · refine ⟨?_, ?_, ?_, ?_, ?_, ?_, ?_, .idle ?_ ?_ ?_ (hspawns st)⟩
    · cases st <;> rfl
    · show ((initial limit operation setupFailed pipes).read.get st).length = _ +
        ((initial limit operation setupFailed pipes).collector.hand st).length
      rw [hhand]
      cases st <;> rfl
    · show (initial limit operation setupFailed pipes).collector.hand st <:+ _
      rw [hhand]
      exact List.nil_suffix
    · cases st <;> rfl
    · cases st <;> exact nofun
    · cases st <;> exact fun _ => ⟨rfl, rfl⟩
    · cases st <;> exact fun _ => rfl
    · cases st <;> rfl
    · cases st <;> rfl
    · cases st <;> rfl
  · cases setupFailed <;> trivial
  · refine ⟨nofun, nofun, fun _ => ⟨nofun, rfl⟩, Nat.zero_le _, ?_⟩
    rw [total_congr (f := fun st => ((initial limit operation setupFailed pipes).collector.hand
      st).length) (g := fun _ => 0) fun st => by rw [hhand]; rfl]
    rfl

/-- A stream that a step does not touch. -/
theorem account_untouched {st : Stream}
    (hfact : t.policy.streams.get st = s.policy.streams.get st)
    (hstopped : s.policy.firstStop.isSome = true → t.policy.firstStop.isSome = true)
    (hends : t.metadata.ends.get st = s.metadata.ends.get st)
    (hwrites : t.writes.get st = s.writes.get st) (hheld : t.held.get st = s.held.get st)
    (hwriter : t.writers.get st = s.writers.get st) (hread : t.read.get st = s.read.get st)
    (hhand : t.collector.hand st = s.collector.hand st)
    (hspawns : t.collector.spawns st = s.collector.spawns st)
    (hreports : s.collector.reports st = true →
      t.collector.reports st = true ∨ t.policy.firstStop.isSome = true) :
    (s.account st).Quiet (t.account st) where
  retained := congrArg StreamFact.retained hfact
  reserved := congrArg StreamFact.reserved hfact
  discarded := congrArg StreamFact.discarded hfact
  marks hp := ⟨(congrArg StreamFact.prefixComplete hfact) ▸ hp,
    congrArg StreamFact.storageFault hfact⟩
  stopped := hstopped
  stop := hends
  writes := hwrites
  held := hheld
  writer := by
    show SameWriter (s.writers.get st) (t.writers.get st)
    rw [hwriter]
    exact .refl _
  read := hread
  hand := hhand
  spawns := hspawns
  reports := hreports

/-- What the workers hold together, when one of them changes. -/
theorem total_pins (writers : PerStream (Option Writer)) (st : Stream) (w : Option Writer) :
    total (fun st' => writerPins ((writers.set st w).get st')) + writerPins (writers.get st) =
      total (fun st' => writerPins (writers.get st')) + writerPins w := by
  have htotal := total_change st (f := fun st' => writerPins ((writers.set st w).get st'))
    (g := fun st' => writerPins (writers.get st')) fun st' hne => by rw [PerStream.get_set_ne _ hne]
  simp only [PerStream.get_set_self] at htotal
  exact htotal

end Pipekeep.Bounds
