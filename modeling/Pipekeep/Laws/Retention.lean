import Mathlib.Data.List.Infix
import Pipekeep.Laws.Budget

/-!
# Retention is an exact prefix, up to the limit

`Content` says where the bytes of one stream are: the file holds a prefix of what was read, one
write ahead of the retained count at most, and a worker's remaining data comes next. It holds in
every run whose failing writes add no bytes (`Clean`).

In a run without faults (`Faultless`) the only stop is the limit's, and `Stop` counts what it took:
one byte more than the limit.
-/

namespace Pipekeep.Bounds

open OutputFact

variable {limit : Nat} {s t : State}

/-! ## Where the bytes are -/

/-- What a worker has written and not yet recorded. -/
def Writer.unrecorded (w : Writer) : Nat :=
  match w.stage with
  | .recording count => count
  | _ => 0

def unrecorded (w : Option Writer) : Nat := w.elim 0 Writer.unrecorded

/-- The file is a prefix of what was read, and the worker's data comes next. -/
structure Content (file read : List UInt8) (retained : Nat) (writer : Option Writer) : Prop where
  file : file = read.take (retained + unrecorded writer)
  rest : ∀ w, writer = some w → w.rest <+: read.drop retained

def State.content (s : State) (st : Stream) : Prop :=
  Content (s.files.get st) (s.read.get st) (s.policy.streams.get st).retained (s.writers.get st)

variable {file read : List UInt8} {retained : Nat}

/-- A worker that has written nothing since it last recorded moves on. -/
theorem Content.goto {w w' : Writer} (h : Content file read retained (some w))
    (hrest : w'.rest = w.rest ∨ w'.rest = []) (hunrecorded : w'.unrecorded = w.unrecorded) :
    Content file read retained (some w') where
  file := by
    show file = read.take (retained + w'.unrecorded)
    rw [hunrecorded]
    exact h.file
  rest w'' hw := by
    cases hw
    rcases hrest with hr | hr <;> rw [hr]
    · exact h.rest w rfl
    · exact List.nil_prefix

/-- A write adds the next bytes of the worker's data. -/
theorem Content.write {w : Writer} {count : Nat} (h : Content file read retained (some w))
    (hstage : w.stage = .writing) (hcount : count ≤ w.data.length - w.recorded) :
    Content (file ++ (w.data.drop w.recorded).take count) read retained
      (some { w with stage := .recording count }) where
  file := by
    have hrest : w.rest = w.data.drop w.recorded := by rw [Writer.rest, hstage]
    obtain ⟨more, hmore⟩ := h.rest w rfl
    have hfile : file = read.take retained := by
      have := h.file
      rw [show unrecorded (some w) = 0 by
        show w.unrecorded = 0
        rw [Writer.unrecorded, hstage]] at this
      exact this
    rw [hrest] at hmore
    show _ = read.take (retained + count)
    rw [List.take_add, ← hfile, ← hmore,
      List.take_append_of_le_length (by rw [List.length_drop]; exact hcount)]
  rest w' hw := by
    cases hw
    refine (?_ : w.data.drop w.recorded <+: _)
    have := h.rest w rfl
    rwa [Writer.rest, hstage] at this

/-- A recorded write is retained. -/
theorem Content.record {w : Writer} {count : Nat} (h : Content file read retained (some w))
    (hstage : w.stage = .recording count) :
    Content file read (retained + count)
      (some { w with recorded := w.recorded + count, stage := .notifying }) where
  file := by
    have := h.file
    rw [show unrecorded (some w) = count by
      show w.unrecorded = count
      rw [Writer.unrecorded, hstage]] at this
    exact this
  rest w' hw := by
    cases hw
    have hrest : w.data.drop w.recorded <+: read.drop retained := by
      have := h.rest w rfl
      rwa [Writer.rest, hstage] at this
    show w.data.drop (w.recorded + count) <+: read.drop (retained + count)
    rw [← List.drop_drop, ← List.drop_drop]
    exact List.IsPrefix.drop hrest count

/-- Reading on leaves what was read where it is. -/
theorem Content.grow {data : List UInt8} {writer : Option Writer}
    (h : Content file read retained writer) (hle : retained + unrecorded writer ≤ read.length) :
    Content file (read ++ data) retained writer where
  file := by
    rw [List.take_append_of_le_length hle]
    exact h.file
  rest w hw := by
    rw [List.drop_append_of_le_length (by omega)]
    exact (h.rest w hw).trans (List.prefix_append _ _)

/-- What is admitted comes next. -/
theorem Content.admitted {data : List UInt8} {n : Nat} (h : Content file read retained none)
    (hsuffix : data <:+ read) (hlength : read.length = retained + data.length) :
    Content file read retained (some { data := data.take n }) where
  file := h.file
  rest w hw := by
    cases hw
    obtain ⟨before, rfl⟩ := hsuffix
    have hbefore : before.length = retained := by
      rw [List.length_append] at hlength
      omega
    rw [← hbefore, List.drop_left]
    exact List.take_prefix _ _

/-- Without a write that is under way, the file ends with what is retained. -/
theorem Content.settled {writer : Option Writer} (h : Content file read retained writer)
    (hwriter : ∀ w, writer = some w → w.Ok) (hnone : outstanding writer = 0) :
    file = read.take retained := by
  have hz : unrecorded writer = 0 := by
    cases writer with
    | none => rfl
    | some w =>
      show w.unrecorded = 0
      unfold Writer.unrecorded
      split
      · rename_i count hstage
        have := ((hwriter w rfl).recording count hstage).2
        have : w.rest.length = 0 := hnone
        omega
      · rfl
  rw [h.file, hz, Nat.add_zero]

/-- In every state a file holds what is retained. -/
theorem Content.kept {writer : Option Writer} (h : Content file read retained writer) :
    file.take retained = read.take retained := by
  rw [h.file, List.take_take, Nat.min_eq_left (Nat.le_add_right _ _)]

/-! ## The steps that leave a stream's bytes alone -/

/-- A step that leaves the files, the pipes, the workers and the retained counts alone. -/
structure SameContent (s t : State) : Prop where
  files : t.files = s.files
  read : t.read = s.read
  writers : t.writers = s.writers
  retained : ∀ st, (t.policy.streams.get st).retained = (s.policy.streams.get st).retained

/-- What the files hold of a stream is not touched by such a step. -/
theorem State.content_same (h : SameContent s t) {st : Stream} (hc : s.content st) :
    t.content st := by
  unfold State.content at hc ⊢
  rw [h.files, h.read, h.writers, h.retained]
  exact hc

/-- A step that changes one stream's bytes. -/
theorem content_update (st : Stream) (hc : ∀ st, s.content st) (hst : t.content st)
    (files : ∀ st', st' ≠ st → t.files.get st' = s.files.get st')
    (read : ∀ st', st' ≠ st → t.read.get st' = s.read.get st')
    (writers : ∀ st', st' ≠ st → t.writers.get st' = s.writers.get st')
    (retained : ∀ st', st' ≠ st →
      (t.policy.streams.get st').retained = (s.policy.streams.get st').retained) :
    ∀ st', t.content st' := by
  intro st'
  by_cases heq : st' = st
  · exact heq ▸ hst
  · have := hc st'
    unfold State.content at this ⊢
    rw [files st' heq, read st' heq, writers st' heq, retained st' heq]
    exact this

/-- The part of a call that a task makes leaves the bytes alone. -/
theorem call_content (s : State) (c : Call) (clock : Clock) :
    SameContent s (s.call c clock).1 := by
  cases c with
  | stop reason => exact ⟨rfl, rfl, rfl, fun _ => rfl⟩
  | storageFault st fault => exact ⟨rfl, rfl, rfl, (quiet_storageFault s.policy st fault).retained⟩
  | start => exact ⟨rfl, rfl, rfl, fun _ => rfl⟩
  | notify => exact ⟨rfl, rfl, rfl, fun _ => rfl⟩

/-! ## Every step -/

/-- A worker that is joined has written its data, so nothing of it is left to come. -/
theorem content_joined {st : Stream} {w : Writer} (hc : ∀ st, s.content st)
    (worker : s.writers.get st = some w) (finished : w.stage = .finished) {c : Collector} :
    ∀ st', ({ s with
      writes := s.writes.set st false
      held := s.held.set st true
      writers := s.writers.set st none
      collector := c } : State).content st' := by
  have hst := hc st
  unfold State.content at hst
  rw [worker] at hst
  refine content_update _ hc ?_ (fun _ _ => rfl) (fun _ _ => rfl)
    (fun st' hne => PerStream.get_set_ne _ hne _) fun _ _ => rfl
  show Content (s.files.get st) (s.read.get st) _ ((s.writers.set st none).get st)
  rw [PerStream.get_set_self]
  refine ⟨?_, nofun⟩
  have hz : unrecorded (some w) = 0 := by
    show w.unrecorded = 0
    rw [Writer.unrecorded, finished]
  have := hst.file
  rw [hz] at this
  exact this

/-- A worker that is spawned has its data before it as it was queued. -/
theorem content_spawned (hi : Inv limit s) {st : Stream} {w : Writer} (hc : ∀ st, s.content st)
    (hspawning : s.collector = .spawning st) (hw : s.writers.get st = some w) {c : Collector} :
    ∀ st', ({ s with
      held := s.held.set st false
      writes := s.writes.set st true
      writers := s.writers.set st (some { w with stage := .writing })
      collector := c } : State).content st' := by
  obtain ⟨w', hw', hqueued, -⟩ := spawning_queued hi hspawning
  rw [hw] at hw'
  cases hw'
  have hst := hc st
  unfold State.content at hst
  rw [hw] at hst
  refine content_update _ hc ?_ (fun _ _ => rfl) (fun _ _ => rfl)
    (fun st' hne => PerStream.get_set_ne _ hne _) fun _ _ => rfl
  show Content (s.files.get st) (s.read.get st) _ ((s.writers.set st _).get st)
  rw [PerStream.get_set_self]
  exact hst.goto (.inl (by simp only [Writer.rest, hqueued]))
    (by simp only [Writer.unrecorded, hqueued])

/-- What a stream's file is ahead by is reserved. -/
theorem unrecorded_le (hi : Inv limit s) (st : Stream) :
    (s.policy.streams.get st).retained + unrecorded (s.writers.get st) ≤
      (s.read.get st).length := by
  have ha := hi.accounts st
  have hread : (s.read.get st).length = (s.policy.streams.get st).retained +
    (s.policy.streams.get st).reserved + (s.policy.streams.get st).discarded +
      (s.collector.hand st).length := ha.read
  have hle : unrecorded (s.writers.get st) ≤ (s.policy.streams.get st).reserved := by
    have hreserved : (s.policy.streams.get st).reserved = outstanding (s.writers.get st) :=
      ha.reserved
    rw [hreserved]
    cases hw : s.writers.get st with
    | none => exact Nat.le_refl _
    | some w =>
      show w.unrecorded ≤ w.rest.length
      unfold Writer.unrecorded
      split
      · rename_i count hstage
        exact ((ha.writer w hw).recording count hstage).2
      · exact Nat.zero_le _
  omega

/-- Bytes that the collector reads come behind those that the files and workers have. -/
theorem content_read (hi : Inv limit s) {st : Stream} {data : List UInt8} {c : Collector}
    (hc : ∀ st, s.content st) : ∀ st', ({ s with
      read := s.read.set st (s.read.get st ++ data)
      collector := c } : State).content st' := by
  refine content_update _ hc ?_ (fun _ _ => rfl) (fun st' hne => PerStream.get_set_ne _ hne _)
    (fun _ _ => rfl) fun _ _ => rfl
  show Content (s.files.get st) ((s.read.set st _).get st) _ (s.writers.get st)
  rw [PerStream.get_set_self]
  exact (hc st).grow (unrecorded_le hi st)

/-- The admitted part of a read is what the stream's next worker is given. -/
theorem content_admitted (hlimit : limit ≤ u64Max) (hi : Inv limit s) {st : Stream}
    {data : List UInt8} (hc : ∀ st, s.content st) (hadmitting : s.collector = .admitting st data)
    {p : OutputFact} {retained : Nat}
    (hadmitted : s.policy.admitRead st data.length = some (p, retained)) {c : Collector} :
    ∀ st', ({ s with
      policy := p
      writers :=
        if retained ≠ 0 then s.writers.set st (some { data := data.take retained })
        else s.writers
      admissions := s.admissions ++ [⟨st, data.length, retained⟩]
      collector := c } : State).content st' := by
  have hfree := admitted_free hlimit hi hadmitting hadmitted
  obtain ⟨-, rfl⟩ :=
    admit_eq_some (hi.limited.symm ▸ hi.charge) (hi.limited.symm ▸ hlimit) hadmitted
  have hp := reserve_reserved s.policy st data.length retained
  have hkeep : ∀ st', ((s.policy.reserve st data.length retained).streams.get st').retained =
      (s.policy.streams.get st').retained := fun st' => by
    by_cases heq : st' = st
    · subst heq
      rw [hp.self]
      rfl
    · rw [hp.other st' heq]
  by_cases hr : retained = 0
  · intro st'
    refine State.content_same (s := s) ?_ (hc st')
    exact ⟨rfl, rfl, if_neg (not_not.mpr hr), hkeep⟩
  · obtain ⟨hrunning, hnone, -⟩ := hfree hr
    have ha := hi.accounts st
    have hhand : (s.account st).hand = data := by
      show s.collector.hand st = data
      rw [hadmitting]
      exact if_pos rfl
    have hlength : (s.read.get st).length = (s.policy.streams.get st).retained + data.length := by
      have hread := ha.read
      have hdiscarded : (s.policy.streams.get st).discarded = 0 := ha.spared (by
        show s.policy.firstStop.isSome = false
        rw [hrunning]
        rfl)
      rw [hhand] at hread
      have hzero : (s.policy.streams.get st).reserved = 0 := by
        refine ha.reserved.trans ?_
        show outstanding (s.writers.get st) = 0
        rw [hnone]
        rfl
      have hread : (s.read.get st).length = (s.policy.streams.get st).retained +
        (s.policy.streams.get st).reserved + (s.policy.streams.get st).discarded +
          data.length := hread
      omega
    have hst := hc st
    unfold State.content at hst
    rw [hnone] at hst
    refine content_update st hc ?_ (fun _ _ => rfl) (fun _ _ => rfl) (fun st' hne => ?_)
      fun st' _ => hkeep st'
    · show Content (s.files.get st) (s.read.get st) _ (PerStream.get (if retained ≠ 0 then _ else _) st)
      rw [if_pos hr, PerStream.get_set_self, hkeep]
      exact hst.admitted (hhand ▸ ha.hand) hlength
    · show PerStream.get (if retained ≠ 0 then _ else _) st' = _
      rw [if_pos hr, PerStream.get_set_ne _ hne]

/-- A failing write adds no bytes. -/
def Clean (_ : State) : Act → Prop
  | .writer _ (.writeError added) => added = []
  | _ => True

/-- The account of a read changes no retained count. -/
theorem observe_content (s : State) (st : Stream) (result : ReadResult) (tail : Bool) :
    SameContent s (s.observe st result tail) := by
  cases result with
  | error => exact ⟨rfl, rfl, rfl, (quiet_observeError s.policy st).retained⟩
  | bytes data =>
    cases data with
    | nil => exact ⟨rfl, rfl, rfl, (quiet_observeEof s.policy st).retained⟩
    | cons b bs =>
      cases tail with
      | false => exact ⟨rfl, rfl, rfl, fun _ => rfl⟩
      | true =>
        refine ⟨rfl, rfl, rfl, fun st' => ?_⟩
        show ((s.policy.observeTail st _).streams.get st').retained = _
        by_cases heq : st' = st
        · subst heq
          rw [observeTail_get_self]
          rfl
        · rw [observeTail_get_ne _ heq]

/-- The collector keeps what the files hold. -/
theorem content_collectorMoved (hlimit : limit ≤ u64Max) (hi : Inv limit s)
    (hc : ∀ st, s.content st) {act : CollectorAct} (h : CollectorMoved s act t) :
    ∀ st, t.content st := by
  have same : SameContent s t → ∀ st, t.content st := fun hs st => State.content_same hs (hc st)
  cases h with
  | @called call next clock stage =>
    have hcall := call_content s call clock
    exact same ⟨hcall.files, hcall.read, hcall.writers, hcall.retained⟩
  | @missing st stage pipe =>
    exact same ⟨rfl, rfl, rfl, (quiet_missingPipe s.policy st).retained⟩
  | looked stage h => cases h <;> exact same ⟨rfl, rfl, rfl, fun _ => rfl⟩
  | @closed cause stage =>
    exact same ⟨rfl, rfl, rfl, (quiet_closeCollection s.policy cause).retained⟩
  | joined stage joins worker live finished => exact content_joined hc worker finished
  | read stage enabled fits => exact content_read hi hc
  | observed stage => exact same (observe_content s _ _ _)
  | admitted stage accepted => exact content_admitted hlimit hi hc stage accepted
  | spawned stage file worker => exact content_spawned hi hc stage worker
  | _ => exact same ⟨rfl, rfl, rfl, fun _ => rfl⟩

/-- A worker changes its own stream. -/
theorem content_worker {st : Stream} {w : Writer} {p : OutputFact} (file : List UInt8)
    (hc : ∀ st, s.content st)
    (retained : ∀ st', st' ≠ st →
      (p.streams.get st').retained = (s.policy.streams.get st').retained)
    (hst : Content file (s.read.get st) (p.streams.get st).retained (some w)) {t : State}
    (files : t.files = s.files.set st file) (read : t.read = s.read)
    (writers : t.writers = s.writers.set st (some w)) (policy : t.policy = p) :
    ∀ st', t.content st' := by
  refine content_update _ hc ?_ (fun st' hne => ?_) (fun _ _ => by rw [read]) (fun st' hne => ?_)
    (policy ▸ retained)
  · unfold State.content
    rw [files, read, writers, policy, PerStream.get_set_self, PerStream.get_set_self]
    exact hst
  · rw [files, PerStream.get_set_ne _ hne]
  · rw [writers, PerStream.get_set_ne _ hne]

/-- Setting an entry to what it is changes nothing. -/
@[simp] theorem PerStream.set_get {α : Type} (p : PerStream α) (st : Stream) :
    p.set st (p.get st) = p := by
  cases st <;> rfl

/-- A worker keeps what its file holds, if a failed write has added nothing to it. -/
theorem content_writerMoved (hc : ∀ st, s.content st) {st : Stream} {w : Writer}
    (hw : s.writers.get st = some w) {act : WriterAct}
    (clean : ∀ added, act = .writeError added → added = []) (h : WriterMoved s st w act t) :
    ∀ st, t.content st := by
  have hst := hc st
  unfold State.content at hst
  rw [hw] at hst
  -- A stage of a worker that has recorded all it wrote.
  have goto : ∀ (stage : WriterStage) (p : OutputFact),
      (({ w with stage := stage } : Writer).rest = w.rest ∨
        ({ w with stage := stage } : Writer).rest = []) →
      ({ w with stage := stage } : Writer).unrecorded = w.unrecorded →
      (∀ st', (p.streams.get st').retained = (s.policy.streams.get st').retained) →
      ∀ {t : State}, t.files = s.files → t.read = s.read →
      t.writers = s.writers.set st (some { w with stage := stage }) → t.policy = p →
      ∀ st', t.content st' := fun stage p hrest hun hp t hfiles hread hwriters hpolicy =>
    content_worker _ hc (fun st' _ => hp st') (hp st ▸ hst.goto hrest hun)
      (by rw [hfiles, PerStream.set_get]) hread hwriters hpolicy
  cases h with
  | wrote stage positive fits =>
    exact content_worker _ hc (fun _ _ => rfl) (hst.write stage fits) rfl rfl rfl rfl
  | refused stage more =>
    exact goto _ s.policy (.inl (by simp only [Writer.rest, stage]))
      (by simp only [Writer.unrecorded, stage]) (fun _ => rfl) rfl rfl rfl rfl
  | @failed added stage more =>
    refine goto _ s.policy (.inl (by simp only [Writer.rest, stage]))
      (by simp only [Writer.unrecorded, stage]) (fun _ => rfl) ?_ rfl rfl rfl
    show s.files.set st (s.files.get st ++ added) = s.files
    rw [clean added rfl, List.append_nil, PerStream.set_get]
  | recorded stage accepted =>
    obtain ⟨_, rfl⟩ := recordWrite_eq_some accepted
    refine content_worker (s.files.get st) hc (fun st' hne => ?_) ?_
      (PerStream.set_get _ _).symm rfl rfl rfl
    · rw [onStream_get_ne _ hne]
    · rw [onStream_get_self]
      exact hst.record stage
  | notified stage =>
    exact goto _ s.policy (.inl (by simp only [Writer.rest, stage]))
      (by simp only [Writer.unrecorded, stage]) (fun _ => rfl) rfl rfl rfl rfl
  | flushed stage all =>
    exact goto _ s.policy (.inl (by simp only [Writer.rest, stage]))
      (by simp only [Writer.unrecorded, stage]) (fun _ => rfl) rfl rfl rfl rfl
  | settled stage accepted =>
    exact goto .unpinning _ (.inr rfl) (by simp only [Writer.unrecorded, stage])
      (settleWrite_eq_some accepted).2.retained rfl rfl rfl rfl
  | @faulted fault p stage accepted =>
    exact goto (.calling (.storageFault st fault)) _ (.inr rfl)
      (by simp only [Writer.unrecorded, stage]) (settleWrite_eq_some accepted).2.retained rfl rfl
      rfl rfl
  | @called call clock stage =>
    have hcall := call_content s call clock
    refine goto (((s.call call clock).2.map WriterStage.calling).getD .unpinning) _ (.inr ?_) ?_
      hcall.retained hcall.files hcall.read ?_ rfl
    · cases (s.call call clock).2 <;> rfl
    · cases (s.call call clock).2 <;> simp only [Writer.unrecorded, stage, Option.map, Option.getD]
    · show (s.call call clock).1.writers.set st _ = _
      rw [hcall.writers]
  | unpinned stage accepted =>
    obtain ⟨rfl, _⟩ := unpin_eq_some accepted
    exact goto .finishing { s.policy with ioInflight := s.policy.ioInflight - 1 } (.inr rfl)
      (by simp only [Writer.unrecorded, stage]) (fun _ => rfl) rfl rfl rfl rfl
  | finished stage =>
    exact goto .finished s.policy (.inr rfl) (by simp only [Writer.unrecorded, stage])
      (fun _ => rfl) rfl rfl rfl rfl
  | lost spawned unfinished =>
    exact content_worker (s.files.get st) hc (fun _ _ => rfl)
      (w := { w with lost := true }) (hst.goto (.inl rfl) rfl) (PerStream.set_get _ _).symm rfl rfl
      rfl

/-- A replay only reads the files. -/
theorem replay_content {r : Replay} {act : ReplayAct} (h : ReplayMoved s r act t) :
    SameContent s t := by
  cases h with
  | @called call fault clock stage =>
    have hcall := call_content s call clock
    exact ⟨hcall.files, hcall.read, hcall.writers, hcall.retained⟩
  | unpinned stage accepted =>
    obtain ⟨rfl, _⟩ := unpin_eq_some accepted
    exact ⟨rfl, rfl, rfl, fun _ => rfl⟩
  | _ => exact ⟨rfl, rfl, rfl, fun _ => rfl⟩

/-- The wait task has nothing to do with the files. -/
theorem wait_content (s : State) (result : Except String ExitResult) :
    SameContent s (s.wait result) := by
  cases result <;> exact ⟨rfl, rfl, rfl, fun _ => rfl⟩

/-- The operation has nothing to do with the files. -/
theorem operationStep_content {m : Meta} {now : Nat} {kernel : Kernel}
    (h : s.operationStep m now kernel = some t) : SameContent s t := by
  obtain ⟨operation, _, rfl⟩ := Option.map_eq_some_iff.mp h
  dsimp only
  split <;> exact ⟨rfl, rfl, rfl, fun _ => rfl⟩

/-- **One step keeps what the files hold**: prefixes of what was read, the workers' data next. -/
theorem content_step (hlimit : limit ≤ u64Max) (hi : Inv limit s) (hc : ∀ st, s.content st)
    {a : Act} (clean : Clean s a) (h : step s a = some t) : ∀ st, t.content st := by
  have same : SameContent s t → ∀ st, t.content st := fun hs st => State.content_same hs (hc st)
  cases step_moved h with
  | collector h => exact content_collectorMoved hlimit hi hc h
  | writer worker live h =>
    refine content_writerMoved hc worker (fun added hact => ?_) h
    subst hact
    exact clean
  | replay gate h => exact same (replay_content h)
  | sender attached h => cases h <;> exact same ⟨rfl, rfl, rfl, fun _ => rfl⟩
  | waited first => exact same (wait_content s _)
  | operationStep read h => exact same (operationStep_content h)
  | refused rejected => exact hc
  | _ => exact same ⟨rfl, rfl, rfl, fun _ => rfl⟩

/-- At the start everything is empty. -/
theorem content_init (h : (machine limit).init s) (st : Stream) : s.content st := by
  obtain ⟨operation, setupFailed, pipes, -, -, rfl⟩ := h
  cases st <;> exact ⟨rfl, nofun⟩

/-- In every run in which failed writes add nothing, the files hold prefixes of what was read. -/
theorem reach_content (hlimit : limit ≤ u64Max) (h : (machine limit).Reach Clean s) :
    ∀ st, s.content st :=
  h.invariant (P := fun s => ∀ st, s.content st) (fun _ h => content_init h)
    fun _ _ _ hr hc hok hs => content_step hlimit (reachable_inv hlimit hr.reachable) hc hok hs

/-! ## Runs without faults -/

/-- No write, flush, read, pipe-setup or replay fault, and no worker is lost. -/
def Faultless (s : State) : Act → Prop
  | .collector (.call _) => ∀ next, s.collector ≠ .calling (.stop .pipeSetupFault) next
  | .collector (.read _ result) => result ≠ .error
  | .writer _ (.write count) => count ≠ 0
  | .writer _ (.writeError _) => False
  | .writer _ (.flush ok) => ok = true
  | .writer _ .lose => False
  | .replay .openError => False
  | .replay (.read count) => count ≠ 0
  | _ => True

/-- A run without faults has no failed writes. -/
theorem clean_of_faultless {a : Act} (h : Faultless s a) : Clean s a := by
  cases a with
  | writer st act =>
    cases act with
    | writeError added => exact h.elim
    | _ => trivial
  | _ => trivial

/-- The only calls of the collector are the limit's, which repeats a stop that is latched, and the
one of a pipe that was not set up. -/
def Sound (stopped : Prop) : Collector → Prop
  | .calling (.stop reason) next =>
    (reason = .outputLimit ∧ stopped ∨ reason = .pipeSetupFault) ∧ Sound stopped next
  | .calling (.storageFault _ _) _ => False
  | .calling _ next => Sound stopped next
  | .observing _ result _ => result ≠ .error
  | _ => True

/-- A worker without a fault. -/
def Writer.Unfaulted (w : Writer) : Prop :=
  w.lost = false ∧ match w.stage with
    | .settling fault => fault = none
    | .calling _ => False
    | _ => True

def Replay.Unfaulted (r : Replay) : Prop :=
  match r.stage with
  | .calling _ _ => False
  | _ => True

/-- The limit's stop: one byte more than the limit has been read, and the limit is spent. -/
def Stop (limit : Nat) (p : OutputFact) (admissions : List Admission) : Prop :=
  p.firstStop = none ∨
    p.firstStop = some .outputLimit ∧ readBytes admissions = limit + 1 ∧ p.charge = limit

structure Unfaulted (limit : Nat) (s : State) : Prop where
  collector : Sound (s.policy.firstStop.isSome = true) s.collector
  writers : ∀ st w, s.writers.get st = some w → w.Unfaulted
  replay : ∀ r, s.replay = some r → r.Unfaulted
  stop : Stop limit s.policy s.admissions

/-- A section that keeps the stop and the budget. -/
theorem Unfaulted.keep (hu : Unfaulted limit s) (hstop : t.policy.firstStop = s.policy.firstStop)
    (hcharge : t.policy.charge = s.policy.charge) (hadm : t.admissions = s.admissions)
    (hcollector : Sound (s.policy.firstStop.isSome = true) t.collector)
    (hwriters : ∀ st w, t.writers.get st = some w → w.Unfaulted)
    (hreplay : ∀ r, t.replay = some r → r.Unfaulted) : Unfaulted limit t where
  collector := by
    rw [hstop]
    exact hcollector
  writers := hwriters
  replay := hreplay
  stop := by
    have := hu.stop
    unfold Stop at this ⊢
    rw [hstop, hcharge, hadm]
    exact this

/-- A change of one worker. -/
theorem unfaulted_writers (hu : Unfaulted limit s) {st : Stream} {o : Option Writer}
    (ho : ∀ w, o = some w → w.Unfaulted) :
    ∀ st' w, (s.writers.set st o).get st' = some w → w.Unfaulted := by
  refine PerStream.forall_set
    (P := fun _ (o : Option Writer) => ∀ w, o = some w → w.Unfaulted) ?_ ?_
  · exact ho
  · intro st' _
    exact hu.writers st'

/-- An admission stops for the limit or not at all, and stops when the limit is spent. -/
theorem unfaulted_admitted (hlimit : limit ≤ u64Max) (hi : Inv limit s) (hu : Unfaulted limit s)
    {st : Stream} {data : List UInt8} (hadmitting : s.collector = .admitting st data)
    {p : OutputFact} {retained : Nat}
    (h : s.policy.admitRead st data.length = some (p, retained)) : Unfaulted limit { s with
      policy := p
      writers :=
        if retained ≠ 0 then s.writers.set st (some { data := data.take retained })
        else s.writers
      admissions := s.admissions ++ [⟨st, data.length, retained⟩]
      collector := .admitted st data.length retained } := by
  have hknows := hi.knows
  rw [hadmitting] at hknows
  obtain ⟨_, hnormal⟩ := hknows
  have hfull := readBytes_of_full hnormal.full
  have hsum := hi.admitted.sum
  -- An excess would be in the log of admissions already.
  have hrunning : s.policy.firstStop = none := by
    rcases hu.stop with hno | ⟨_, hread, _⟩
    · exact hno
    · omega
  have hcharge := (hi.admitted.spared hrunning).2
  obtain ⟨hretained, rfl⟩ :=
    admit_eq_some (hi.limited.symm ▸ hi.charge) (hi.limited.symm ▸ hlimit) h
  rw [hi.limited, hrunning] at hretained
  have hmin : retained = min data.length (limit - s.policy.charge) := hretained
  have hsize := hnormal.spared hrunning
  rw [hi.limited] at hsize
  have hp := reserve_reserved s.policy st data.length retained
  have hle := hi.charge
  have hstop : (s.policy.reserve st data.length retained).firstStop =
      if data.length ≠ retained then some .outputLimit else none := by
    rw [hp.firstStop, hrunning]
    rfl
  refine ⟨?_, fun st' w hw => ?_, hu.replay, ?_⟩
  · show Sound ((s.policy.reserve st data.length retained).firstStop.isSome = true)
      (.admitted st data.length retained)
    rw [hstop]
    have hnext : ∀ stopped, Sound stopped (if retained ≠ 0 then .spawning st else .top) := by
      intro stopped
      split <;> trivial
    unfold Collector.admitted
    dsimp only
    by_cases heq : retained = data.length
    · rw [if_neg (not_not.mpr heq)]
      exact hnext _
    · rw [if_pos heq, if_pos (Ne.symm heq)]
      exact ⟨.inl ⟨rfl, rfl⟩, hnext _⟩
  · dsimp only at hw
    split at hw
    · refine unfaulted_writers hu (fun w hnew => ?_) st' w hw
      cases hnew
      exact ⟨rfl, trivial⟩
    · exact hu.writers st' w hw
  · show Stop limit (s.policy.reserve st data.length retained)
      (s.admissions ++ [⟨st, data.length, retained⟩])
    unfold Stop
    rw [hstop, hp.charge, readBytes_snoc, hfull, hcharge]
    by_cases heq : data.length = retained
    · exact .inl (if_neg (not_not.mpr heq))
    · refine .inr ⟨if_pos heq, ?_, ?_⟩
      · dsimp only
        omega
      · omega

/-- A call of the collector is the limit's, whose stop is latched. -/
theorem unfaulted_call (hu : Unfaulted limit s) {call : Call} {next : Collector} (clock : Clock)
    (hc : s.collector = .calling call next)
    (hok : ∀ next, s.collector ≠ .calling (.stop .pipeSetupFault) next) :
    Unfaulted limit { (s.call call clock).1 with
      collector := ((s.call call clock).2.map (Collector.calling · next)).getD next } := by
  have hsound := hu.collector
  rw [hc] at hsound
  cases call with
  | stop reason =>
    obtain ⟨hreason | hreason, hnext⟩ := hsound
    · obtain ⟨rfl, hstopped⟩ := hreason
      obtain ⟨r, hr⟩ := Option.isSome_iff_exists.mp hstopped
      exact hu.keep ((latch_firstStop hr).trans hr.symm) (quiet_latch _ _).charge rfl hnext
        hu.writers hu.replay
    · exact absurd (hreason ▸ hc) (hok next)
  | storageFault st fault => exact hsound.elim
  | start => exact hu.keep rfl rfl rfl hsound hu.writers hu.replay
  | notify => exact hu.keep rfl rfl rfl hsound hu.writers hu.replay

/-- A worker that is joined leaves the others as they are. -/
theorem unfaulted_joined (hu : Unfaulted limit s) {st : Stream} {c : Collector}
    (hc : Sound (s.policy.firstStop.isSome = true) c) : Unfaulted limit { s with
      writes := s.writes.set st false
      held := s.held.set st true
      writers := s.writers.set st none
      collector := c } := by
  refine hu.keep rfl rfl rfl hc (unfaulted_writers hu fun w hnone => ?_) hu.replay
  cases hnone

/-- The account of bytes that were read is no fault. -/
theorem unfaulted_observe (hu : Unfaulted limit s) {st : Stream} {data : List UInt8} {tail : Bool} :
    Unfaulted limit (s.observe st (.bytes data) tail) := by
  cases data with
  | nil => exact hu.keep rfl (quiet_observeEof _ st).charge rfl trivial hu.writers hu.replay
  | cons b bs =>
    cases tail with
    | true => exact hu.keep rfl (observeTail_charge _ _ _) rfl trivial hu.writers hu.replay
    | false => exact hu.keep rfl rfl rfl trivial hu.writers hu.replay

/-- The collector finds no fault where none was. -/
theorem unfaulted_collectorMoved (hlimit : limit ≤ u64Max) (hi : Inv limit s)
    (hu : Unfaulted limit s) {act : CollectorAct} (hok : Faultless s (.collector act))
    (h : CollectorMoved s act t) : Unfaulted limit t := by
  have hafter : ∀ st stopped, Sound stopped (.afterSetup st) := fun st stopped => by
    cases st <;> trivial
  have goto : ∀ c, Sound (s.policy.firstStop.isSome = true) c →
      Unfaulted limit { s with collector := c } := fun _ hc =>
    hu.keep rfl rfl rfl hc hu.writers hu.replay
  cases h with
  | called stage => exact unfaulted_call hu _ stage hok
  | present stage pipe => exact goto _ (hafter _ _)
  | @missing st stage pipe =>
    exact hu.keep rfl (quiet_missingPipe _ st).charge rfl ⟨.inr rfl, hafter _ _⟩ hu.writers
      hu.replay
  | enabled stage => exact hu.keep rfl rfl rfl trivial hu.writers hu.replay
  | returned stage collected joined => exact goto _ trivial
  | snapshot stage opened => exact goto _ trivial
  | looked stage h => cases h <;> exact hu.keep rfl rfl rfl trivial hu.writers hu.replay
  | @closed cause stage =>
    exact hu.keep rfl (quiet_closeCollection _ cause).charge rfl trivial hu.writers hu.replay
  | lost stage joins worker lost =>
    rw [(hu.writers _ _ worker).1] at lost
    cases lost
  | joined stage joins worker live finished => exact unfaulted_joined hu trivial
  | woken stage source => exact goto _ trivial
  | read stage enabled fits => exact hu.keep rfl rfl rfl nofun hu.writers hu.replay
  | readError stage enabled => exact absurd rfl hok
  | @observed st result tail stage =>
    have hsound := hu.collector
    rw [stage] at hsound
    cases result with
    | error => exact absurd rfl hsound
    | bytes data => exact unfaulted_observe hu
  | admitted stage accepted => exact unfaulted_admitted hlimit hi hu stage accepted
  | spawned stage file worker =>
    exact hu.keep rfl rfl rfl trivial
      (unfaulted_writers hu fun w' hnew => (Option.some.inj hnew) ▸
        ⟨(hu.writers _ _ worker).1, trivial⟩) hu.replay

/-- A worker whose writes and flushes succeed finds no fault. -/
theorem unfaulted_writerMoved (hi : Inv limit s) (hu : Unfaulted limit s) {st : Stream} {w : Writer}
    (hw : s.writers.get st = some w) {act : WriterAct} (hok : Faultless s (.writer st act))
    (h : WriterMoved s st w act t) : Unfaulted limit t := by
  obtain ⟨hlive, hstages⟩ := hu.writers st w hw
  have goto : ∀ {w' : Writer} {t : State}, t.writers = s.writers.set st (some w') →
      w'.Unfaulted → t.policy.firstStop = s.policy.firstStop →
      t.policy.charge = s.policy.charge → t.admissions = s.admissions →
      t.collector = s.collector → t.replay = s.replay → Unfaulted limit t :=
    fun hwriters hw' hstop hcharge hadm hcollector hreplay =>
      hu.keep hstop hcharge hadm (hcollector ▸ hu.collector)
        (hwriters ▸ unfaulted_writers hu fun w'' hnew => (Option.some.inj hnew) ▸ hw')
        (hreplay ▸ hu.replay)
  cases h with
  | wrote stage positive fits => exact goto rfl ⟨hlive, trivial⟩ rfl rfl rfl rfl rfl
  | refused stage more => exact absurd rfl hok
  | failed stage more => exact hok.elim
  | recorded stage accepted =>
    obtain ⟨hle, rfl⟩ := recordWrite_eq_some accepted
    exact goto rfl ⟨hlive, trivial⟩ rfl (recorded_charge hle) rfl rfl rfl
  | notified stage => exact goto rfl ⟨hlive, trivial⟩ rfl rfl rfl rfl rfl
  | @flushed ok stage all =>
    have htrue : ok = true := hok
    subst htrue
    exact goto rfl ⟨hlive, rfl⟩ rfl rfl rfl rfl rfl
  | settled stage accepted =>
    obtain ⟨hle, hq⟩ := settleWrite_eq_some accepted
    have hzero : w.data.length - w.recorded = 0 := by
      have hrest := (account_worker hi hw).1.settling stage
      rw [Writer.rest, stage] at hrest
      have := congrArg List.length hrest
      rwa [List.length_drop] at this
    have hcharge := hq.charge hle
    rw [hzero, Nat.add_zero] at hcharge
    exact goto rfl ⟨hlive, trivial⟩ hq.firstStop hcharge rfl rfl rfl
  | faulted stage accepted =>
    rw [stage] at hstages
    cases hstages
  | called stage =>
    rw [stage] at hstages
    exact hstages.elim
  | unpinned stage accepted =>
    obtain ⟨rfl, _⟩ := unpin_eq_some accepted
    exact goto rfl ⟨hlive, trivial⟩ rfl rfl rfl rfl rfl
  | finished stage => exact goto rfl ⟨hlive, trivial⟩ rfl rfl rfl rfl rfl
  | lost spawned unfinished => exact hok.elim

/-- A read that asks for bytes and finds them returns some. -/
theorem readAt_ne_nil {file : List UInt8} {offset stop count : Nat} (h : count ≠ 0) :
    Buffered.readAt file offset stop count ≠ some [] := by
  unfold Buffered.readAt
  split
  · rename_i hle
    intro hnil
    have hlen := congrArg List.length (Option.some.inj hnil)
    rw [List.length_take, List.length_drop, List.length_nil] at hlen
    omega
  · exact nofun

/-- A replay whose reads succeed finds no fault. -/
theorem unfaulted_replayMoved (hu : Unfaulted limit s) {r : Replay} (hr : s.replay = some r)
    {act : ReplayAct} (hok : Faultless s (.replay act)) (h : ReplayMoved s r act t) :
    Unfaulted limit t := by
  have hsound := hu.replay r hr
  have move : ∀ stage : ReplayStage, ({ r with stage := stage } : Replay).Unfaulted →
      ∀ r', some { r with stage := stage } = some r' → r'.Unfaulted := fun _ hs r' heq => by
    cases heq
    exact hs
  cases h with
  | openFailed stage => exact hok.elim
  | readFailed stage answer => exact absurd answer (readAt_ne_nil hok)
  | read stage nonempty answer =>
    exact hu.keep rfl rfl rfl hu.collector hu.writers (move _ trivial)
  | called stage =>
    rw [Replay.Unfaulted, stage] at hsound
    exact hsound.elim
  | unpinned stage accepted =>
    obtain ⟨rfl, _⟩ := unpin_eq_some accepted
    exact hu.keep rfl rfl rfl hu.collector hu.writers (move _ trivial)
  | finished stage => exact hu.keep rfl rfl rfl hu.collector hu.writers nofun

/-- A sender starts replays that have not failed. -/
theorem unfaulted_senderMoved (hu : Unfaulted limit s) {g : Nat} {sender : Sender}
    {act : SenderAct} (h : SenderMoved s g sender act t) : Unfaulted limit t := by
  cases h with
  | replaying stage free =>
    refine hu.keep rfl rfl rfl hu.collector hu.writers fun r hr => ?_
    cases hr
    trivial
  | _ => exact hu.keep rfl rfl rfl hu.collector hu.writers hu.replay

/-- **One step without a fault** leaves the limit's stop the only one. -/
theorem unfaulted_step (hlimit : limit ≤ u64Max) (hi : Inv limit s) (hu : Unfaulted limit s)
    {a : Act} (hok : Faultless s a) (h : step s a = some t) : Unfaulted limit t := by
  cases step_moved h with
  | collector h => exact unfaulted_collectorMoved hlimit hi hu hok h
  | writer worker live h => exact unfaulted_writerMoved hi hu worker hok h
  | replay gate h => exact unfaulted_replayMoved hu gate hok h
  | sender attached h => exact unfaulted_senderMoved hu h
  | @waited result first =>
    cases result <;> exact hu.keep rfl rfl rfl hu.collector hu.writers hu.replay
  | operationStep read h =>
    obtain ⟨operation, _, rfl⟩ := Option.map_eq_some_iff.mp h
    dsimp only
    split <;> exact hu.keep rfl rfl rfl hu.collector hu.writers hu.replay
  | refused rejected => exact hu
  | _ => exact hu.keep rfl rfl rfl hu.collector hu.writers hu.replay

/-- At the start there is no stop. -/
theorem unfaulted_init (h : (machine limit).init s) : Unfaulted limit s := by
  obtain ⟨operation, setupFailed, pipes, -, -, rfl⟩ := h
  refine ⟨?_, fun st => by cases st <;> exact nofun, nofun, .inl rfl⟩
  cases setupFailed with
  | false => exact trivial
  | true => exact ⟨.inr rfl, trivial⟩

/-- In every run without faults the limit's stop is the only one. -/
theorem reach_unfaulted (hlimit : limit ≤ u64Max) (h : (machine limit).Reach Faultless s) :
    Unfaulted limit s :=
  h.invariant (fun _ => unfaulted_init) fun _ _ _ hr hu hok hs =>
    unfaulted_step hlimit (reachable_inv hlimit hr.reachable) hu hok hs

/-! ## The exact prefix -/

/-- No write is under way or was lost. -/
def Quiescent (s : State) : Prop := ∀ st, outstanding (s.writers.get st) = 0

/-- **Retention**: the files hold the prefixes that are retained, and end with them where no write
is outstanding. Of the normal reads, which were all retained whole but the last, one at most was
cut. -/
structure Retains (s : State) : Prop where
  kept : ∀ st, (s.policy.streams.get st).retained ≤ (s.read.get st).length ∧
    (s.files.get st).take (s.policy.streams.get st).retained =
      (s.read.get st).take (s.policy.streams.get st).retained
  settled : ∀ st, outstanding (s.writers.get st) = 0 →
    (s.files.get st).length = (s.policy.streams.get st).retained
  one : AllFull s.admissions.dropLast ∧ readBytes s.admissions ≤
    retainedBytes s.admissions + readSize
  normal : s.collector.handling = false → (s.read.get .stdout).length + (s.read.get .stderr).length =
    readBytes s.admissions + s.policy.tailRead

/-- **The limit is exact**: the only stop is the limit's, latched exactly when a normal read has
brought a byte beyond it. Then one byte too many was read and the limit ends retained; and until
then everything read is retained. -/
structure Exact (limit : Nat) (s : State) : Prop where
  stop : s.policy.firstStop = some .outputLimit ↔ limit < readBytes s.admissions
  excess : s.policy.firstStop = some .outputLimit → readBytes s.admissions = limit + 1 ∧
    (Quiescent s →
      (s.policy.streams.get .stdout).retained + (s.policy.streams.get .stderr).retained = limit)
  whole : s.policy.firstStop ≠ some .outputLimit → s.policy.firstStop = none ∧
    ∀ st, (s.policy.streams.get st).discarded = 0 ∧
      (s.collector.handling = false → outstanding (s.writers.get st) = 0 →
        (s.policy.streams.get st).retained = (s.read.get st).length)

/-- Files hold what is retained in every run in which failed writes add nothing. -/
theorem retains (hlimit : limit ≤ u64Max) (h : (machine limit).Reach Clean s) : Retains s := by
  have hi := reachable_inv hlimit h.reachable
  have hc := reach_content hlimit h
  refine ⟨fun st => ⟨Nat.le_trans (Nat.le_add_right _ _) (unrecorded_le hi st), (hc st).kept⟩,
    fun st hnone => ?_, ⟨hi.admitted.full,
    readBytes_le hi.admitted.full fun a ha => (hi.admitted.bounded a ha).2.1⟩, fun hno => ?_⟩
  · rw [(hc st).settled (fun w hw => (hi.accounts st).writer w hw) hnone, List.length_take]
    have := unrecorded_le hi st
    omega
  · have htotal := hi.admitted.read
    rw [total_congr (f := fun st => (s.collector.hand st).length) (g := fun _ => 0) fun st => by
      rw [hand_of_not_handling hno]; rfl] at htotal
    exact htotal

/-- The limit is exact in every run without faults. -/
theorem exact_limit (hlimit : limit ≤ u64Max) (h : (machine limit).Reach Faultless s) :
    Exact limit s := by
  have hi := reachable_inv hlimit h.reachable
  have hu := reach_unfaulted hlimit h
  have hsum := hi.admitted.sum
  have hreserved := fun st => (hi.accounts st).reserved
  have hread := hi.accounted.read
  rcases hu.stop with hnone | ⟨hstop, hexcess, hcharge⟩
  · have hfull := readBytes_of_full (hi.admitted.spared hnone).1
    have hdiscarded : ∀ st, (s.policy.streams.get st).discarded = 0 := fun st =>
      (hi.accounts st).spared (by
        show s.policy.firstStop.isSome = false
        rw [hnone]
        rfl)
    refine ⟨⟨fun hq => ?_, fun hlt => by omega⟩, fun hq => ?_, fun _ => ⟨hnone, fun st =>
      ⟨hdiscarded st, fun hno hquiet => ?_⟩⟩⟩
    · rw [hnone] at hq
      cases hq
    · rw [hnone] at hq
      cases hq
    · have hres : (s.policy.streams.get st).reserved = outstanding (s.writers.get st) := hreserved st
      have := hread hno st
      have := hdiscarded st
      omega
  · refine ⟨⟨fun _ => by omega, fun _ => hstop⟩, fun _ => ⟨hexcess, fun hquiet => ?_⟩,
      fun hne => absurd hstop hne⟩
    have hout : (s.policy.streams.get .stdout).reserved = outstanding (s.writers.get .stdout) :=
      hreserved .stdout
    have herr : (s.policy.streams.get .stderr).reserved = outstanding (s.writers.get .stderr) :=
      hreserved .stderr
    have := hquiet .stdout
    have := hquiet .stderr
    simp only [OutputFact.charge, total, paid] at hcharge
    omega

/-- **Bounded retention is an exact shared-budget prefix**: in every run whose failing writes add
no bytes each file holds exactly what is retained of its pipe, and in a run without faults the
limit is exact. -/
theorem retention (hlimit : limit ≤ u64Max) :
    (∀ s, (machine limit).Reach Clean s → Retains s) ∧
      ∀ s, (machine limit).Reach Faultless s → Exact limit s :=
  ⟨fun _ => retains hlimit, fun _ => exact_limit hlimit⟩

/-- Three bytes of a limit of two, in one read: two are kept, the third is the stop. -/
theorem retention_excess : ∃ s, (machine 2).Reach Faultless s ∧ s.files.get .stdout = [1, 2] ∧
    s.policy.firstStop = some .outputLimit ∧ Retains s ∧ Exact 2 s := by
  have start : (machine 2).Reach Faultless
      (initial 2 { cancellation := .verifyAcquired (.ok ()) (.ok true) } false (.both true)) :=
    .init ⟨_, false, _, ⟨.ok (), .ok true, rfl⟩, fun _ => rfl, rfl⟩
  have admitted := start.run [.collector .setup, .collector .setup, .collector .enable,
      .collector .snapshot, .collector (.look 0), .collector (.read .stdout (.bytes [1, 2, 3])),
      .collector .observe, .collector .admitRead]
    (Machine.meets_of_forall (by simp [Faultless])) rfl
  have called : (machine 2).Reach Faultless _ := .step (.step (.step admitted
    (a := .collector (.call ⟨0, 5, 5⟩)) (fun next => nofun) rfl)
    (a := .collector (.call ⟨0, 5, 5⟩)) (fun next => nofun) rfl)
    (a := .collector (.call ⟨0, 5, 5⟩)) (fun next => nofun) rfl
  have written := called.run [.collector .spawn, .writer .stdout (.write 2),
      .writer .stdout .record, .writer .stdout .notify, .writer .stdout (.flush true)]
    (Machine.meets_of_forall (by simp [Faultless])) rfl
  exact ⟨_, written, rfl, rfl,
    (retention (by decide)).1 _ (written.mono fun _ _ => clean_of_faultless),
    (retention (by decide)).2 _ written⟩

end Pipekeep.Bounds
