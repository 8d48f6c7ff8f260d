import Pipekeep.Laws.Budget
import Pipekeep.Laws.Forward
import Pipekeep.Lib.Slice

/-!
# The collector's write slots

Each stream has one slot for a write task and one file, which is in the collector's hands or with
the task. `SlotEvent` is what a run does with one slot: it issues a write, joins it, or its worker
is lost. `Counted` counts them against the slot, and `Issued` says where in the stream the bytes of
the issued writes come from. Both rest on the books: a read that retains bytes finds its slot empty
(`admitted_free`).
-/

namespace Pipekeep.Bounds

open OutputFact Slice

variable {limit : Nat} {s t : State} {st : Stream}

/-! ## What happens to a slot -/

/-- A write is issued with its bytes, which start at `start` among those read. -/
inductive SlotEvent
  | issued (start : Nat) (data : List UInt8)
  | joined
  | lost
  deriving DecidableEq

/-- The size of the last normal read. -/
def lastRead (admissions : List Admission) : Nat := admissions.getLast?.elim 0 (·.read)

/-- The events of one stream's slot. -/
def slotEvents (st : Stream) (s : State) : Act → List SlotEvent
  | .collector .spawn =>
    match s.collector, s.writers.get st with
    | .spawning st', some w =>
      if st' = st then [.issued ((s.read.get st).length - lastRead s.admissions) w.data] else []
    | _, _ => []
  | .collector (.joined st') => if st' = st then [.joined] else []
  | .writer st' .lose => if st' = st then [.lost] else []
  | _ => []

/-- A spawn issues the queued write, from where the last read began. -/
theorem slotEvents_spawn {w : Writer} (hc : s.collector = .spawning st)
    (hw : s.writers.get st = some w) : slotEvents st s (.collector .spawn) =
      [.issued ((s.read.get st).length - lastRead s.admissions) w.data] := by
  rw [slotEvents, hc, hw]
  exact if_pos rfl

/-- A spawn for the other stream is no event of this one. -/
theorem slotEvents_other {st' : Stream} (hc : s.collector = .spawning st') (hne : st ≠ st') :
    slotEvents st s (.collector .spawn) = [] := by
  rw [slotEvents, hc]
  split
  · rename_i heq _
    cases heq
    exact if_neg (Ne.symm hne)
  · rfl

def SlotEvent.issue : SlotEvent → Option (Nat × List UInt8)
  | .issued start data => some (start, data)
  | _ => none

/-- The issued writes, each with its start. -/
def issues (log : List SlotEvent) : List (Nat × List UInt8) := log.filterMap SlotEvent.issue

/-- **A stream's slot.** Its writes are issued and joined in turn, from an empty slot and with the
file in hand, and their bytes are successive stretches of what was read. -/
structure Slot (s : State) (st : Stream) (log : List SlotEvent) : Prop where
  outstanding : (issues log).length = log.count .joined + (s.writes.get st).toNat
  held : s.held.get st = true ↔ s.writes.get st = false ∧ .lost ∉ log
  admitted : ∀ data p retained, s.collector = .admitting st data →
    s.policy.admitRead st data.length = some (p, retained) → retained ≠ 0 →
    s.held.get st = true ∧ s.writes.get st = false
  spawning : s.collector = .spawning st → s.held.get st = true ∧ s.writes.get st = false ∧
    ∃ t, step s (.collector .spawn) = some t
  order : (issues log).Pairwise fun x y => x.1 + x.2.length ≤ y.1
  content : ∀ x ∈ issues log, x.1 + x.2.length ≤ (s.read.get st).length ∧
    stretch (s.read.get st) x.1 (x.1 + x.2.length) = x.2

/-! ## Counting -/

/-- The events of a slot against its state. -/
structure Counted (st : Stream) (s : State) (log : List SlotEvent) : Prop where
  outstanding : (issues log).length = log.count .joined + (s.writes.get st).toNat
  lost : .lost ∈ log ↔ ∃ w, s.writers.get st = some w ∧ w.lost = true

/-- Nothing happens to the slot. -/
theorem Counted.idle {log : List SlotEvent} (h : Counted st s log)
    (writes : t.writes.get st = s.writes.get st)
    (lost : (∃ w, t.writers.get st = some w ∧ w.lost = true) ↔
      ∃ w, s.writers.get st = some w ∧ w.lost = true) : Counted st t (log ++ []) := by
  rw [List.append_nil]
  refine ⟨?_, h.lost.trans lost.symm⟩
  rw [writes]
  exact h.outstanding

/-- A slot whose worker was not lost. -/
theorem Counted.spared {log : List SlotEvent} (h : Counted st s log)
    (hno : ∀ w, s.writers.get st = some w → w.lost = false) : .lost ∉ log := by
  intro hlost
  obtain ⟨w, hw, hl⟩ := h.lost.mp hlost
  rw [hno w hw] at hl
  cases hl

/-- A write is joined. -/
theorem Counted.join {log : List SlotEvent} (h : Counted st s log)
    (writes : s.writes.get st = true) (writes' : t.writes.get st = false)
    (lost : (∃ w, t.writers.get st = some w ∧ w.lost = true) ↔
      ∃ w, s.writers.get st = some w ∧ w.lost = true) : Counted st t (log ++ [.joined]) := by
  have hout := h.outstanding
  rw [writes] at hout
  constructor
  · rw [issues, List.filterMap_append, List.length_append, List.count_append, writes']
    exact hout
  · rw [List.mem_append, List.mem_singleton, lost, ← h.lost]
    exact ⟨fun hl => hl.resolve_right (by intro hl; cases hl), .inl⟩

/-- A write is issued into an empty slot. -/
theorem Counted.issue {log : List SlotEvent} (h : Counted st s log)
    (writes : s.writes.get st = false) (writes' : t.writes.get st = true)
    (lost : (∃ w, t.writers.get st = some w ∧ w.lost = true) ↔
      ∃ w, s.writers.get st = some w ∧ w.lost = true) (start : Nat) (data : List UInt8) :
    Counted st t (log ++ [.issued start data]) := by
  have hout := h.outstanding
  rw [writes] at hout
  constructor
  · rw [issues, List.filterMap_append, List.length_append, List.count_append, writes']
    show (issues log).length + 1 = log.count .joined + 0 + 1
    rw [hout]
    rfl
  · rw [List.mem_append, List.mem_singleton, lost, ← h.lost]
    exact ⟨fun hl => hl.resolve_right (by intro hl; cases hl), .inl⟩

/-- A lost worker stays in its slot. -/
theorem Counted.lose {log : List SlotEvent} (h : Counted st s log)
    (writes : t.writes.get st = s.writes.get st) {w : Writer}
    (worker : t.writers.get st = some w) (lost : w.lost = true) :
    Counted st t (log ++ [.lost]) := by
  constructor
  · rw [issues, List.filterMap_append, List.length_append, List.count_append, writes]
    exact h.outstanding
  · exact ⟨fun _ => ⟨w, worker, lost⟩, fun _ => List.mem_append_right _ List.mem_cons_self⟩

/-- A queued write has not lost its worker. -/
theorem writer_fresh (hi : Inv limit s) {w : Writer} (hw : s.writers.get st = some w)
    (hqueued : w.stage = .queued) : w.lost = false :=
  (((hi.accounts st).writer w hw).queued hqueued).2

/-- A write about to be spawned finds its slot empty. -/
theorem spawning_free (hi : Inv limit s) (hc : s.collector = .spawning st) :
    s.writes.get st = false := by
  have hspawns : (s.account st).spawns = true := by
    show s.collector.spawns st = true
    rw [hc]
    exact beq_self_eq_true st
  cases (hi.accounts st).slot with
  | idle hnone hwrites => exact hwrites
  | queued hsome hstage hwrites => exact hwrites
  | running hsome hstage hwrites hheld hno =>
    rw [hno] at hspawns
    cases hspawns
  | lost hsome hstage hlost hwrites => exact hwrites

/-- The collector's steps keep the count of a slot. -/
theorem counted_collector (hlimit : limit ≤ u64Max) (hi : Inv limit s) {act : CollectorAct}
    {log : List SlotEvent} (hs : Counted st s log) (h : CollectorMoved s act t) :
    Counted st t (log ++ slotEvents st s (.collector act)) := by
  cases h with
  | @called call next clock stage =>
    have hwriters : (s.call call clock).1.writers = s.writers := by cases call <;> rfl
    refine hs.idle ?_ ?_
    · exact congrArg (PerStream.get · st) (beside_call s call clock).writes
    · show (∃ w, (s.call call clock).1.writers.get st = some w ∧ _) ↔ _
      rw [hwriters]
  | looked stage h => cases h <;> exact hs.idle rfl Iff.rfl
  | @observed st' result tail stage =>
    have hsame : (s.observe st' result tail).writes = s.writes ∧
        (s.observe st' result tail).writers = s.writers := by
      unfold State.observe
      split
      · exact ⟨rfl, rfl⟩
      · split <;> exact ⟨rfl, rfl⟩
      · exact ⟨rfl, rfl⟩
    refine hs.idle (by rw [hsame.1]) ?_
    rw [hsame.2]
  | @lost turn st' w stage joins worker lost =>
    by_cases heq : st' = st
    · subst heq
      rw [slotEvents, if_pos rfl]
      exact hs.join joins (PerStream.get_set_self _ _ _) Iff.rfl
    · rw [slotEvents, if_neg heq]
      exact hs.idle (PerStream.get_set_ne _ (Ne.symm heq) _) Iff.rfl
  | @joined turn st' w stage joins worker live finished =>
    by_cases heq : st' = st
    · subst heq
      rw [slotEvents, if_pos rfl]
      refine hs.join joins (PerStream.get_set_self _ _ _) ?_
      show (∃ w, (s.writers.set st' none).get st' = some w ∧ _) ↔ _
      rw [PerStream.get_set_self, worker]
      constructor
      · rintro ⟨w', hw', _⟩
        cases hw'
      · rintro ⟨w', hw', hlost⟩
        cases hw'
        rw [live] at hlost
        cases hlost
    · rw [slotEvents, if_neg heq]
      refine hs.idle (PerStream.get_set_ne _ (Ne.symm heq) _) ?_
      show (∃ w, (s.writers.set st' none).get st = some w ∧ _) ↔ _
      rw [PerStream.get_set_ne _ (Ne.symm heq)]
  | @admitted st' data p retained stage accepted =>
    refine hs.idle rfl ?_
    by_cases hr : retained = 0
    · simp only [hr, ne_eq, not_true_eq_false, if_false]
    · simp only [ne_eq, hr, not_false_eq_true, if_true]
      by_cases heq : st' = st
      · subst heq
        rw [PerStream.get_set_self, (admitted_free hlimit hi stage accepted hr).2.1]
        constructor
        · rintro ⟨w, hw, hlost⟩
          cases hw
          cases hlost
        · rintro ⟨w, hw, _⟩
          cases hw
      · rw [PerStream.get_set_ne _ (Ne.symm heq)]
  | @spawned st' w stage file worker =>
    obtain ⟨w', hw', hqueued, -⟩ := spawning_queued hi stage
    rw [worker] at hw'
    cases hw'
    have hlive := writer_fresh hi worker hqueued
    by_cases heq : st' = st
    · subst heq
      rw [slotEvents_spawn stage worker]
      refine hs.issue (spawning_free hi stage) (PerStream.get_set_self _ _ _) ?_ _ _
      show (∃ w', (s.writers.set st' _).get st' = some w' ∧ _) ↔ _
      rw [PerStream.get_set_self, worker]
      constructor
      · rintro ⟨w', hw', hlost⟩
        cases hw'
        exact ⟨w, rfl, hlost⟩
      · rintro ⟨w', hw', hlost⟩
        cases hw'
        exact ⟨_, rfl, hlost⟩
    · rw [slotEvents_other stage (Ne.symm heq)]
      refine hs.idle (PerStream.get_set_ne _ (Ne.symm heq) _) ?_
      show (∃ w', (s.writers.set st' _).get st = some w' ∧ _) ↔ _
      rw [PerStream.get_set_ne _ (Ne.symm heq)]
  | _ => exact hs.idle rfl Iff.rfl

/-- What a step of a worker does to its slot. -/
theorem writer_slot {w : Writer} {act : WriterAct} (live : w.lost = false)
    (h : WriterMoved s st w act t) :
    t.writes = s.writes ∧ (∀ st', st' ≠ st → t.writers.get st' = s.writers.get st') ∧
      ∃ w', t.writers.get st = some w' ∧ w'.data = w.data ∧ w'.lost = decide (act = .lose) := by
  have goto : ∀ {u : State} (w' : Writer), u.writes = s.writes → u.writers = s.writers →
      w'.data = w.data → w'.lost = decide (act = .lose) →
      (u.setWriter st (some w')).writes = s.writes ∧
        (∀ st', st' ≠ st → (u.setWriter st (some w')).writers.get st' = s.writers.get st') ∧
        ∃ w'', (u.setWriter st (some w')).writers.get st = some w'' ∧ w''.data = w.data ∧
          w''.lost = decide (act = .lose) := by
    intro u w' hwrites hwriters hdata hlost
    refine ⟨hwrites, fun st' hne => ?_, w', PerStream.get_set_self _ _ _, hdata, hlost⟩
    show (u.writers.set st _).get st' = _
    rw [PerStream.get_set_ne _ hne, hwriters]
  cases h with
  | recorded stage accepted =>
    exact ⟨rfl, fun st' hne => PerStream.get_set_ne _ hne _, _, PerStream.get_set_self _ _ _, rfl,
      live⟩
  | @called call clock stage =>
    exact goto _ (beside_call s call clock).writes (by cases call <;> rfl) rfl live
  | lost spawned unfinished => exact goto _ rfl rfl rfl rfl
  | _ => exact goto _ rfl rfl rfl live

/-- A step of none of the collector and the workers leaves the workers alone. -/
theorem step_workers {a : Act} (h : step s a = some t) :
    (∃ act, a = .collector act ∧ CollectorMoved s act t) ∨
    (∃ st w act, a = .writer st act ∧ s.writers.get st = some w ∧ w.lost = false ∧
      WriterMoved s st w act t) ∨
    (Beside s t ∧ t.writers = s.writers ∧ ∀ st, slotEvents st s a = []) := by
  have hbeside := step_beside h
  cases step_moved h with
  | collector h => exact .inl ⟨_, rfl, h⟩
  | writer worker live h => exact .inr (.inl ⟨_, _, _, rfl, worker, live, h⟩)
  | @replay r act _ gate hmoved =>
    refine .inr (.inr ⟨beside_replay hmoved, ?_, fun _ => rfl⟩)
    cases hmoved with
    | @called call fault clock stage => cases call <;> rfl
    | _ => rfl
  | sender attached hmoved =>
    refine .inr (.inr ⟨beside_sender hmoved, ?_, fun _ => rfl⟩)
    cases hmoved <;> rfl
  | @waited result first =>
    refine .inr (.inr ⟨hbeside.resolve_left (by rintro ⟨_, ha, _⟩; cases ha), ?_, fun _ => rfl⟩)
    cases result <;> rfl
  | operationStep read h =>
    refine .inr (.inr ⟨hbeside.resolve_left (by rintro ⟨_, ha, _⟩; cases ha), ?_, fun _ => rfl⟩)
    obtain ⟨operation, _, rfl⟩ := Option.map_eq_some_iff.mp h
    dsimp only
    split <;> rfl
  | _ =>
    exact .inr (.inr ⟨hbeside.resolve_left (by rintro ⟨_, ha, _⟩; cases ha), rfl, fun _ => rfl⟩)

/-- Every step keeps the count of a slot. -/
theorem counted_step (hlimit : limit ≤ u64Max) (hi : Inv limit s) {a : Act}
    {log : List SlotEvent} (hs : Counted st s log) (h : step s a = some t) :
    Counted st t (log ++ slotEvents st s a) := by
  rcases step_workers h with ⟨act, rfl, hmoved⟩ | ⟨st', w, act, rfl, hw, live, hmoved⟩ |
    ⟨hb, hwriters, hevents⟩
  · exact counted_collector hlimit hi hs hmoved
  · obtain ⟨hwrites, hother, w', hw', -, hlost⟩ := writer_slot live hmoved
    by_cases heq : st' = st
    · subst heq
      by_cases hact : act = .lose
      · subst hact
        rw [slotEvents, if_pos rfl]
        exact hs.lose (by rw [hwrites]) hw' hlost
      · have hevents : slotEvents st' s (.writer st' act) = [] := by
          cases act <;> first | rfl | exact absurd rfl hact
        rw [hevents]
        refine hs.idle (by rw [hwrites]) ?_
        rw [decide_eq_false hact] at hlost
        rw [hw, hw']
        constructor <;> rintro ⟨v, hv, hl⟩ <;> cases hv
        · rw [hlost] at hl
          cases hl
        · rw [live] at hl
          cases hl
    · have hevents : slotEvents st s (.writer st' act) = [] := by
        cases act <;> first | rfl | exact if_neg heq
      rw [hevents]
      refine hs.idle (by rw [hwrites]) ?_
      rw [hother st (Ne.symm heq)]
  · rw [hevents]
    refine hs.idle (by rw [hb.writes]) ?_
    rw [hwriters]

/-! ## The order of the issued bytes -/

/-- The bytes read last that are still to be issued, or to be put down. -/
def State.pending (s : State) (st : Stream) : Nat :=
  if s.collector.spawns st then lastRead s.admissions else (s.collector.hand st).length

/-- Where the next issued bytes start at the earliest. -/
def State.frontier (s : State) (st : Stream) : Nat := (s.read.get st).length - s.pending st

/-- The issued writes against what was read. -/
structure Issued (st : Stream) (s : State) (log : List SlotEvent) : Prop where
  order : (issues log).Pairwise fun x y => x.1 + x.2.length ≤ y.1
  content : ∀ x ∈ issues log, x.1 + x.2.length ≤ s.frontier st ∧
    stretch (s.read.get st) x.1 (x.1 + x.2.length) = x.2
  next : s.collector.spawns st = true → ∃ w, s.writers.get st = some w ∧
    s.frontier st + w.data.length ≤ (s.read.get st).length ∧
    stretch (s.read.get st) (s.frontier st) (s.frontier st + w.data.length) = w.data

/-- The frontier lies within what was read. -/
theorem frontier_le (s : State) (st : Stream) : s.frontier st ≤ (s.read.get st).length :=
  Nat.sub_le _ _

/-- More may have been read, and bytes may have been put down. -/
theorem Issued.idle {log : List SlotEvent} (h : Issued st s log)
    (read : s.read.get st <+: t.read.get st) (frontier : s.frontier st ≤ t.frontier st)
    (next : t.collector.spawns st = true → ∃ w, t.writers.get st = some w ∧
      t.frontier st + w.data.length ≤ (t.read.get st).length ∧
      stretch (t.read.get st) (t.frontier st) (t.frontier st + w.data.length) = w.data) :
    Issued st t (log ++ []) := by
  rw [List.append_nil]
  refine ⟨h.order, fun x hx => ?_, next⟩
  obtain ⟨hle, hcontent⟩ := h.content x hx
  refine ⟨Nat.le_trans hle frontier, ?_⟩
  rw [stretch_of_isPrefix read (Nat.le_trans hle (frontier_le s st))]
  exact hcontent

/-- Nothing is about to be issued. -/
theorem Issued.goto {log : List SlotEvent} (h : Issued st s log) (read : t.read = s.read)
    (hand : (t.collector.hand st).length ≤ s.pending st) (spawns : t.collector.spawns st = false) :
    Issued st t (log ++ []) := by
  refine h.idle (read ▸ List.prefix_refl _) ?_ fun hs => ?_
  · have hpending : t.pending st = (t.collector.hand st).length := by
      rw [State.pending, spawns, if_neg Bool.false_ne_true]
    unfold State.frontier
    rw [read, hpending]
    omega
  · rw [spawns] at hs
    cases hs

/-- The next write is issued. -/
theorem Issued.issue {log : List SlotEvent} (h : Issued st s log)
    (spawns : s.collector.spawns st = true) {w : Writer} (hw : s.writers.get st = some w)
    (read : t.read = s.read) (frontier : t.frontier st = (s.read.get st).length)
    (spawns' : t.collector.spawns st = false) :
    Issued st t (log ++ [.issued (s.frontier st) w.data]) := by
  obtain ⟨w', hw', hle, hdata⟩ := h.next spawns
  rw [hw] at hw'
  cases hw'
  have hissues : issues (log ++ [.issued (s.frontier st) w.data]) =
      issues log ++ [(s.frontier st, w.data)] := List.filterMap_append
  refine ⟨?_, fun x hx => ?_, fun hs => ?_⟩
  · rw [hissues, List.pairwise_append]
    refine ⟨h.order, List.pairwise_singleton _ _, fun x hx y hy => ?_⟩
    rw [List.mem_singleton.mp hy]
    exact (h.content x hx).1
  · rw [hissues] at hx
    rw [frontier, read]
    rcases List.mem_append.mp hx with hx | hx
    · obtain ⟨hbefore, hcontent⟩ := h.content x hx
      exact ⟨Nat.le_trans hbefore (frontier_le s st), hcontent⟩
    · rw [List.mem_singleton.mp hx]
      exact ⟨hle, hdata⟩
  · rw [spawns'] at hs
    cases hs

/-- What `observed` leaves in the collector's hands was there before. -/
theorem observe_pending (st : Stream) {st' : Stream} {result : ReadResult} {tail : Bool}
    (hc : s.collector = .observing st' result tail) :
    (s.observe st' result tail).read = s.read ∧
      ((s.observe st' result tail).collector.hand st).length ≤ s.pending st ∧
      (s.observe st' result tail).collector.spawns st = false := by
  unfold State.pending
  rw [hc]
  cases result with
  | error => exact ⟨rfl, Nat.zero_le _, rfl⟩
  | bytes data =>
    cases data with
    | nil => exact ⟨rfl, Nat.zero_le _, rfl⟩
    | cons b bs =>
      cases tail with
      | true => exact ⟨rfl, Nat.zero_le _, rfl⟩
      | false => exact ⟨rfl, Nat.le_refl _, rfl⟩

/-- A read that was just admitted is what was read last. -/
theorem issued_admitted (hi : Inv limit s) {st' : Stream} {data : List UInt8}
    (hc : s.collector = .admitting st' data) {p : OutputFact} {retained : Nat}
    (hle : retained ≤ data.length) {log : List SlotEvent} (h : Issued st s log) :
    Issued st { s with
      policy := p
      writers :=
        if retained ≠ 0 then s.writers.set st' (some { data := data.take retained })
        else s.writers
      admissions := s.admissions ++ [⟨st', data.length, retained⟩]
      collector := .admitted st' data.length retained } (log ++ []) := by
  have hpending : s.pending st = if st = st' then data.length else 0 := by
    rw [State.pending, hc]
    show (if st = st' then data else []).length = _
    split <;> rfl
  by_cases hspawns : (Collector.admitted st' data.length retained).spawns st = true
  · obtain ⟨hr, heq⟩ : retained ≠ 0 ∧ st' = st := by
      simpa only [spawns_admitted, Bool.and_eq_true, decide_eq_true_eq, beq_iff_eq] using hspawns
    subst heq
    rw [if_pos rfl] at hpending
    have hsuffix : data <:+ s.read.get st' := by
      have := (hi.accounts st').hand
      rw [show (s.account st').hand = data by rw [State.account, hc]; exact if_pos rfl] at this
      exact this
    have hlen := hsuffix.length_le
    have hlast : lastRead (s.admissions ++ [⟨st', data.length, retained⟩]) = data.length := by
      rw [lastRead, List.getLast?_concat]
      rfl
    have hfrontier : State.frontier { s with
        policy := p
        writers :=
          if retained ≠ 0 then s.writers.set st' (some { data := data.take retained })
          else s.writers
        admissions := s.admissions ++ [⟨st', data.length, retained⟩]
        collector := .admitted st' data.length retained } st' =
        (s.read.get st').length - data.length := by
      simp only [State.frontier, State.pending, hspawns, if_true, hlast]
    have htake : (data.take retained).length = retained := by
      rw [List.length_take, Nat.min_eq_left hle]
    refine h.idle (List.prefix_refl _) ?_ fun _ => ⟨{ data := data.take retained }, ?_, ?_, ?_⟩
    · exact Nat.le_of_eq (by rw [hfrontier, State.frontier, hpending])
    · rw [if_pos hr, PerStream.get_set_self]
    · rw [hfrontier, htake]
      show _ ≤ (s.read.get st').length
      omega
    · rw [hfrontier, htake]
      show stretch (s.read.get st') _ _ = _
      rw [stretch, ← List.suffix_iff_eq_drop.mp hsuffix, Nat.add_sub_cancel_left]
  · refine h.goto rfl ?_ (Bool.eq_false_iff.mpr hspawns)
    rw [hand_admitted]
    exact Nat.zero_le _

/-- The collector's steps keep the issued writes in read order. -/
theorem issued_collector (hlimit : limit ≤ u64Max) (hi : Inv limit s) {act : CollectorAct}
    {log : List SlotEvent} (hs : Issued st s log) (h : CollectorMoved s act t) :
    Issued st t (log ++ slotEvents st s (.collector act)) := by
  have nothing : ∀ {c : Collector}, c.idle = true →
      (c.hand st).length ≤ s.pending st ∧ c.spawns st = false := by
    intro c hidle
    obtain ⟨hhand, hspawns, _⟩ := Collector.of_idle hidle st
    exact ⟨by rw [hhand]; exact Nat.zero_le _, hspawns⟩
  have setup : ∀ st', (Collector.afterSetup st').idle = true := by
    intro st'
    cases st' <;> rfl
  have joined : ∀ st', slotEvents st s (.collector (.joined st')) = [] ∨
      slotEvents st s (.collector (.joined st')) = [.joined] := by
    intro st'
    rw [slotEvents]
    split
    · exact .inr rfl
    · exact .inl rfl
  have quiet : ∀ {u : State} {events : List SlotEvent}, Issued st u (log ++ []) →
      events = [] ∨ events = [.joined] → Issued st u (log ++ events) := by
    rintro u events h (rfl | rfl)
    · exact h
    · rw [List.append_nil] at h
      have hissues : issues (log ++ [.joined]) = issues log := by
        rw [issues, List.filterMap_append]
        exact List.append_nil _
      exact ⟨hissues ▸ h.order, hissues ▸ h.content, h.next⟩
  cases h with
  | @called call next clock stage =>
    have hb := beside_call s call clock
    have hwriters : (s.call call clock).1.writers = s.writers := by cases call <;> rfl
    have hnext : ∀ o : Option Call,
        ((o.map (Collector.calling · next)).getD next).spawns st = s.collector.spawns st ∧
          ((o.map (Collector.calling · next)).getD next).hand st = s.collector.hand st := by
      intro o
      rw [stage]
      cases o <;> exact ⟨rfl, rfl⟩
    have hfrontier : State.frontier { (s.call call clock).1 with
        collector := ((s.call call clock).2.map (Collector.calling · next)).getD next } st =
        s.frontier st := by
      simp only [State.frontier, State.pending, hnext, hb.read, hb.admissions]
    refine hs.idle (hb.read ▸ List.prefix_refl _) (Nat.le_of_eq hfrontier.symm) fun hspawns => ?_
    rw [hfrontier]
    dsimp only at hspawns ⊢
    rw [(hnext _).1] at hspawns
    rw [hwriters, hb.read]
    exact hs.next hspawns
  | @present st' stage pipe =>
    exact hs.goto rfl (nothing (setup st')).1 (nothing (setup st')).2
  | @missing st' stage pipe =>
    have hidle : (Collector.calling (.stop .pipeSetupFault) (.afterSetup st')).idle = true :=
      setup st'
    exact hs.goto rfl (nothing hidle).1 (nothing hidle).2
  | looked stage h => cases h <;> exact hs.goto rfl (nothing rfl).1 (nothing rfl).2
  | lost stage joins worker lost =>
    exact quiet (hs.goto rfl (Nat.zero_le _) rfl) (joined _)
  | joined stage joins worker live finished =>
    exact quiet (hs.goto rfl (Nat.zero_le _) rfl) (joined _)
  | @read turn st' data stage enabled fits =>
    have hzero : s.pending st = 0 := by rw [State.pending, stage]; rfl
    have hspawns : (Collector.observing st' (.bytes data) turn.tail).spawns st = false := rfl
    by_cases heq : st' = st
    · subst heq
      refine hs.idle ?_ ?_ fun h => by cases h
      · show _ <+: (s.read.set st' _).get st'
        rw [PerStream.get_set_self]
        exact List.prefix_append _ _
      · unfold State.frontier State.pending
        dsimp only
        rw [hspawns, if_neg Bool.false_ne_true, PerStream.get_set_self, List.length_append]
        show _ ≤ _ - (if st' = st' then data else []).length
        rw [if_pos rfl]
        omega
    · refine hs.idle ?_ ?_ fun h => by cases h
      · have hsame := PerStream.get_set_ne s.read (Ne.symm heq) (s.read.get st' ++ data)
        exact hsame ▸ List.prefix_refl _
      · unfold State.frontier State.pending
        dsimp only
        rw [hspawns, if_neg Bool.false_ne_true, PerStream.get_set_ne _ (Ne.symm heq)]
        show _ ≤ _ - (if st = st' then data else []).length
        rw [if_neg (Ne.symm heq)]
        exact Nat.sub_le _ _
  | observed stage =>
    obtain ⟨hread, hhand, hspawns⟩ := observe_pending st stage
    exact hs.goto hread hhand hspawns
  | admitted stage accepted =>
    obtain ⟨hretained, -⟩ :=
      admit_eq_some (hi.limited.symm ▸ hi.charge) (hi.limited.symm ▸ hlimit) accepted
    refine issued_admitted hi stage ?_ hs
    rw [hretained]
    split
    · exact Nat.zero_le _
    · exact Nat.min_le_left _ _
  | @spawned st' w stage file worker =>
    by_cases heq : st' = st
    · subst heq
      have hspawns : s.collector.spawns st' = true := by
        rw [stage]
        exact beq_self_eq_true st'
      have hfrontier : s.frontier st' = (s.read.get st').length - lastRead s.admissions := by
        rw [State.frontier, State.pending, hspawns, if_pos rfl]
      rw [slotEvents_spawn stage worker, ← hfrontier]
      exact hs.issue hspawns worker rfl rfl rfl
    · rw [slotEvents_other stage (Ne.symm heq)]
      exact hs.goto rfl (Nat.zero_le _) rfl
  | _ => exact hs.goto rfl (nothing rfl).1 (nothing rfl).2

/-- Every step keeps the issued writes in read order. -/
theorem issued_step (hlimit : limit ≤ u64Max) (hi : Inv limit s) {a : Act} {log : List SlotEvent}
    (hs : Issued st s log) (h : step s a = some t) : Issued st t (log ++ slotEvents st s a) := by
  have beside : Beside s t → (∀ w, s.writers.get st = some w →
      ∃ w', t.writers.get st = some w' ∧ w'.data = w.data) → Issued st t (log ++ []) := by
    intro hb hworker
    have hfrontier : t.frontier st = s.frontier st := by
      simp only [State.frontier, State.pending, hb.collector, hb.read, hb.admissions]
    refine hs.idle (hb.read ▸ List.prefix_refl _) (Nat.le_of_eq hfrontier.symm) fun hspawns => ?_
    rw [hb.collector] at hspawns
    obtain ⟨w, hw, hle, hdata⟩ := hs.next hspawns
    obtain ⟨w', hw', hsame⟩ := hworker w hw
    exact ⟨w', hw', by rw [hsame, hfrontier, hb.read]; exact hle,
      by rw [hsame, hfrontier, hb.read]; exact hdata⟩
  rcases step_workers h with ⟨act, rfl, hmoved⟩ | ⟨st', w, act, rfl, hw, live, hmoved⟩ |
    ⟨hb, hwriters, hevents⟩
  · exact issued_collector hlimit hi hs hmoved
  · obtain ⟨-, hother, w', hw', hdata, -⟩ := writer_slot live hmoved
    have hidle := beside (beside_writer hmoved) fun v hv => by
      by_cases heq : st = st'
      · subst heq
        rw [hw] at hv
        cases hv
        exact ⟨w', hw', hdata⟩
      · exact ⟨v, (hother st heq).trans hv, rfl⟩
    have hevents : issues (log ++ slotEvents st s (.writer st' act)) = issues (log ++ []) := by
      simp only [issues, List.filterMap_append]
      cases act with
      | lose =>
        rw [slotEvents]
        split <;> rfl
      | _ => rfl
    exact ⟨hevents ▸ hidle.order, hevents ▸ hidle.content, hidle.next⟩
  · rw [hevents]
    exact beside hb fun w hw => ⟨w, by rw [hwriters]; exact hw, rfl⟩

/-! ## Every run -/

/-- A slot starts empty. -/
theorem counted_init (h : (machine limit).init s) : Counted st s [] := by
  obtain ⟨operation, setupFailed, pipes, -, -, rfl⟩ := h
  constructor
  · cases st <;> rfl
  · constructor
    · intro hlost
      cases hlost
    · rintro ⟨w, hw, _⟩
      cases st <;> cases hw

/-- Nothing is issued at first. -/
theorem issued_init (h : (machine limit).init s) : Issued st s [] := by
  obtain ⟨operation, setupFailed, pipes, -, -, rfl⟩ := h
  constructor
  · exact .nil
  · intro x hx
    cases hx
  · intro hspawns
    cases setupFailed <;> cases hspawns

/-- **The slot** is what the two counts say together. -/
theorem Counted.slot (hlimit : limit ≤ u64Max) (hi : Inv limit s) {log : List SlotEvent}
    (hc : Counted st s log) (ho : Issued st s log) : Slot s st log where
  outstanding := hc.outstanding
  held := by
    rw [hc.lost]
    cases (hi.accounts st).slot with
    | idle hnone hwrites hheld =>
      have hnone : s.writers.get st = none := hnone
      refine ⟨fun _ => ⟨hwrites, ?_⟩, fun _ => hheld⟩
      rintro ⟨w, hw, _⟩
      rw [hnone] at hw
      cases hw
    | @queued w hsome hstage hwrites hheld =>
      have hsome : s.writers.get st = some w := hsome
      refine ⟨fun _ => ⟨hwrites, ?_⟩, fun _ => hheld⟩
      rintro ⟨w', hw', hlost⟩
      rw [hsome] at hw'
      cases hw'
      rw [writer_fresh hi hsome hstage] at hlost
      cases hlost
    | running hsome hstage hwrites hheld =>
      constructor
      · intro h
        cases h.symm.trans hheld
      · rintro ⟨h, _⟩
        cases h.symm.trans hwrites
    | @lost w hsome hstage hlost hwrites hheld =>
      constructor
      · intro h
        cases h.symm.trans hheld
      · exact fun h => absurd ⟨w, hsome, hlost⟩ h.2
  admitted data p retained hstage haccepted hr := by
    obtain ⟨-, -, hwrites, hheld⟩ := admitted_free hlimit hi hstage haccepted hr
    exact ⟨hheld, hwrites⟩
  spawning hstage := by
    obtain ⟨w, hw, -, hheld⟩ := spawning_queued hi hstage
    refine ⟨hheld, spawning_free hi hstage, ?_⟩
    simp only [step, collectorStep, hstage]
    exact (hi.unpanicked hlimit).spawn st hstage
  order := ho.order
  content x hx := by
    obtain ⟨hle, hcontent⟩ := ho.content x hx
    exact ⟨Nat.le_trans hle (frontier_le s st), hcontent⟩

/-- **Each stream has one write at a time**, over its file, and in read order: after every run of a
session with a `u64` limit each slot is as its events say. -/
theorem write_slots (hlimit : limit ≤ u64Max) (hinit : (machine limit).init s) {as : List Act}
    (hrun : (machine limit).run s as = some t) (st : Stream) :
    Slot t st ((machine limit).trace (slotEvents st) s as) := by
  have traced := Machine.Reachable.traced
    (P := fun s log => Inv limit s ∧ Counted st s log ∧ Issued st s log) (f := slotEvents st)
    (fun s a t log _ h hs => ⟨inv_step hlimit h.1 hs, counted_step hlimit h.1 h.2.1 hs,
      issued_step hlimit h.1 h.2.2 hs⟩)
    (.init hinit) ⟨inv_init hinit, counted_init hinit, issued_init hinit⟩ hrun
  exact Counted.slot hlimit traced.1 traced.2.1 traced.2.2

/-- The write of a first read is joined and that of a second is lost with its file. -/
theorem write_slots_lost : ∃ t, Slot t .stdout [.issued 0 [1, 2], .joined, .issued 2 [3], .lost] ∧
    t.held.get .stdout = false := by
  let first : List Act := [.collector .setup, .collector .setup, .collector .enable,
    .collector .snapshot, .collector (.look 0), .collector (.read .stdout (.bytes [1, 2])),
    .collector .observe, .collector .admitRead, .collector .spawn]
  let written : List Act := [.writer .stdout (.write 2), .writer .stdout .record,
    .writer .stdout .notify, .writer .stdout (.flush true), .writer .stdout .settle,
    .writer .stdout .unpin, .writer .stdout .notify, .collector .enable, .collector .snapshot,
    .collector (.look 1), .collector (.joined .stdout)]
  let second : List Act := [.collector .enable, .collector .snapshot, .collector (.look 2),
    .collector (.read .stdout (.bytes [3])), .collector .observe, .collector .admitRead,
    .collector .spawn, .writer .stdout .lose]
  have start : (machine 4).init
      (initial 4 { cancellation := .verifyAcquired (.ok ()) (.ok true) } false (.both true)) :=
    ⟨_, false, _, ⟨.ok (), .ok true, rfl⟩, fun _ => rfl, rfl⟩
  exact ⟨_, write_slots (by decide) start
    (show (machine 4).run _ (first ++ written ++ second) = some _ from rfl) .stdout, rfl⟩

end Pipekeep.Bounds
