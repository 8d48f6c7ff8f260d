import Pipekeep.Drain

/-!
# What the drains keep

A session has one lane for each stream: the recorded end, the closed flag, where the drain stands,
the spool file and what was read from the pipe. `Drained` is everything a drain can do to its lane,
and `LaneInv` is what survives it: the recorded end trails what was produced by exactly what the
drain has in hand, the spool file is never behind the recorded end, and a closed stream has
published everything.
-/

namespace Pipekeep

/-- What one stream's drain works on. -/
structure Lane where
  stop : Nat
  closed : Bool
  drain : Drain
  file : List UInt8
  produced : List UInt8

def Session.lane (s : Session) (st : Stream) : Lane where
  stop := s.metadata.ends.get st
  closed := s.metadata.closed.get st
  drain := s.drains.get st
  file := s.files.get st
  produced := s.produced.get st

/-- The bytes a drain has read and not yet counted into the recorded end. -/
def Drain.pending : Drain → List UInt8
  | .read data => data
  | .writing data _ _ => data
  | .publishing data _ => data
  | _ => []

/-- The bytes a drain has read and not yet given to the spool file. -/
def Drain.unwritten : Drain → List UInt8
  | .read data => data
  | .writing _ rest _ => rest
  | _ => []

/-- Where a counted read goes: to the spool file, unless nothing is buffered. -/
def Drain.counted (nobuffer : Bool) (data : List UInt8) (stop : Nat) : Drain :=
  if nobuffer then .publishing data stop else .writing data data stop

/-- Where a published read goes: to the live channel, if nothing is buffered. -/
def Drain.published (nobuffer : Bool) (chunk : OutputChunk) : Drain :=
  if nobuffer then .sending chunk else .reading

/-- **What a drain can do to its lane**, with the chunk it sends. -/
inductive Drained (nobuffer : Bool) (l : Lane) : Lane → Option OutputChunk → Prop
  | read {data : List UInt8} : l.drain = .reading → 0 < data.length →
      Drained nobuffer l { l with drain := .read data, produced := l.produced ++ data } none
  | closed : l.drain = .reading →
      Drained nobuffer l { l with drain := .done, closed := true } none
  /-- A read or write failed, or the position would overflow. -/
  | failed : l.drain ≠ .done → (∀ c, l.drain ≠ .sending c) →
      Drained nobuffer l { l with drain := .done } none
  | counted {data : List UInt8} : l.drain = .read data →
      Drained nobuffer l { l with drain := .counted nobuffer data (l.stop + data.length) } none
  | wrote {data rest : List UInt8} {stop : Nat} (count : Nat) : l.drain = .writing data rest stop →
      Drained nobuffer l { l with
        drain := .writing data (rest.drop count) stop, file := l.file ++ rest.take count } none
  | flushed {data : List UInt8} {stop : Nat} : l.drain = .writing data [] stop →
      Drained nobuffer l { l with drain := .publishing data stop } none
  | published {data : List UInt8} {stop : Nat} : l.drain = .publishing data stop →
      Drained nobuffer l { l with stop := stop, drain := .published nobuffer ⟨l.stop, data⟩ } none
  | sent {chunk : OutputChunk} : l.drain = .sending chunk →
      Drained nobuffer l { l with drain := .reading } (some chunk)

/-- What a step leaves of a session beside its lanes. -/
structure SameTasks (s t : Session) : Prop where
  status : t.metadata.status = s.metadata.status
  waited : t.waited = s.waited

variable {nobuffer hardened : Bool} {s t : Session} {st : Stream}

/-- A step that sets the lane of `st` and nothing else of the lanes. -/
private theorem lane_frame {l : Lane} {sent : Option OutputChunk}
    (hd : Drained nobuffer (s.lane st) l sent) (hl : t.lane st = l)
    (hne : ∀ st', st' ≠ st → t.lane st' = s.lane st') (hs : SameTasks s t)
    (ha : t.attachment = s.attachment) :
    Drained nobuffer (s.lane st) (t.lane st) sent ∧
      (∀ st', st' ≠ st → t.lane st' = s.lane st') ∧ SameTasks s t ∧
      t.attachment = s.attachment :=
  ⟨hl ▸ hd, hne, hs, ha⟩

/-- One step of a drain, inverted. -/
theorem drainStep_inv {act : Session.DrainAct} {sent : Option OutputChunk}
    (h : s.drainStep nobuffer hardened st act = some (t, sent)) :
    Drained nobuffer (s.lane st) (t.lane st) sent ∧
      (∀ st', st' ≠ st → t.lane st' = s.lane st') ∧ SameTasks s t ∧
      t.attachment = s.attachment := by
  have other : ∀ {st'}, st' ≠ st → ∀ d, (s.setDrain st d).lane st' = s.lane st' := fun hne d => by
    simp only [Session.lane, Session.setDrain, PerStream.get_set_ne _ hne]
  have self : ∀ d, (s.setDrain st d).lane st = { s.lane st with drain := d } := fun d => by
    simp only [Session.lane, Session.setDrain, PerStream.get_set_self]
  have closed : s.drains.get st = .reading →
      Drained nobuffer (s.lane st) ((s.close st).lane st) none ∧
        (∀ st', st' ≠ st → (s.close st).lane st' = s.lane st') ∧ SameTasks s (s.close st) ∧
        (s.close st).attachment = s.attachment := fun hd => by
    refine lane_frame (.closed hd) ?_ (fun st' hne => ?_) ⟨rfl, rfl⟩ rfl
    · simp only [Session.lane, Session.close, PerStream.get_set_self]
    · simp only [Session.lane, Session.close, PerStream.get_set_ne _ hne]
  unfold Session.drainStep at h
  split at h
  · rename_i data hd
    split at h <;> cases h
    rename_i hlen
    refine lane_frame (.read hd hlen.1) ?_ (fun st' hne => ?_) ⟨rfl, rfl⟩ rfl
    · simp only [Session.lane, PerStream.get_set_self]
    · simp only [Session.lane, PerStream.get_set_ne _ hne]
  · rename_i hd
    cases h
    exact closed hd
  · rename_i hd
    split at h <;> cases h
    · exact lane_frame (.failed (by rw [Session.lane, hd]; exact nofun)
        (by rw [Session.lane, hd]; exact nofun)) (self _)
        (fun st' hne => other hne _) ⟨rfl, rfl⟩ rfl
    · exact closed hd
  · rename_i data hd
    split at h
    · cases h
      exact lane_frame (.failed (by rw [Session.lane, hd]; exact nofun)
        (by rw [Session.lane, hd]; exact nofun)) (self _)
        (fun st' hne => other hne _) ⟨rfl, rfl⟩ rfl
    · rename_i stop hstop
      obtain ⟨_, rfl⟩ := checkedEnd_eq_ok.mp hstop
      have hto : t = s.setDrain st (.counted nobuffer data (s.metadata.ends.get st + data.length)) ∧
          sent = none := by
        unfold Drain.counted
        split at h <;> cases h
        · rename_i hnb
          exact ⟨by rw [if_pos hnb], rfl⟩
        · rename_i hnb
          exact ⟨by rw [if_neg hnb], rfl⟩
      obtain ⟨rfl, rfl⟩ := hto
      exact lane_frame (.counted hd) (self _) (fun st' hne => other hne _) ⟨rfl, rfl⟩ rfl
  · rename_i data rest stop count hd
    split at h <;> cases h
    refine lane_frame (.wrote count hd) ?_ (fun st' hne => ?_) ⟨rfl, rfl⟩ rfl
    · simp only [Session.lane, PerStream.get_set_self]
    · simp only [Session.lane, PerStream.get_set_ne _ hne]
  · rename_i data stop hd
    cases h
    exact lane_frame (.flushed hd) (self _) (fun st' hne => other hne _) ⟨rfl, rfl⟩ rfl
  · rename_i hd
    cases h
    exact lane_frame (.failed (by rw [Session.lane, hd]; exact nofun)
        (by rw [Session.lane, hd]; exact nofun)) (self _)
      (fun st' hne => other hne _) ⟨rfl, rfl⟩ rfl
  · rename_i data stop hd
    cases h
    refine lane_frame (.published hd) ?_ (fun st' hne => ?_) ⟨rfl, rfl⟩ rfl
    · simp only [Session.lane, PerStream.get_set_self, Drain.published]
    · simp only [Session.lane, PerStream.get_set_ne _ hne]
  · rename_i chunk hd
    cases h
    exact lane_frame (.sent hd) (self _) (fun st' hne => other hne _) ⟨rfl, rfl⟩ rfl
  · cases h

/-! ## The invariant of a lane -/

/-- The bytes a drain has in hand, published or not. -/
def Drain.data : Drain → Option (List UInt8)
  | .read data => some data
  | .writing data _ _ => some data
  | .publishing data _ => some data
  | .sending chunk => some chunk.data
  | _ => none

/-- The end a drain is about to record. -/
def Drain.target : Drain → Option Nat
  | .writing _ _ stop => some stop
  | .publishing _ stop => some stop
  | _ => none

structure LaneInv (nobuffer : Bool) (l : Lane) : Prop where
  le : l.stop ≤ l.produced.length
  pending : l.drain ≠ .done → l.produced.drop l.stop = l.drain.pending
  target : ∀ stop, l.drain.target = some stop → stop = l.produced.length
  closed : l.closed = true → l.drain = .done ∧ l.stop = l.produced.length
  held : ∀ data, l.drain.data = some data → 0 < data.length
  chunk : ∀ c, l.drain = .sending c → c.stop = l.stop ∧ c.data = l.produced.drop c.offset
  written : nobuffer = false → l.drain ≠ .done → l.file ++ l.drain.unwritten = l.produced
  spool : nobuffer = false → l.file <+: l.produced ∧ l.stop ≤ l.file.length

/-- A drain that returned takes no further step, so a closed lane stays as it is. -/
theorem Drained.not_done {l l' : Lane} {sent : Option OutputChunk} (h : Drained nobuffer l l' sent) :
    l.drain ≠ .done := by
  cases h with
  | failed hd _ => exact hd
  | read hd _ => rw [hd]; exact nofun
  | closed hd => rw [hd]; exact nofun
  | counted hd => rw [hd]; exact nofun
  | wrote _ hd => rw [hd]; exact nofun
  | flushed hd => rw [hd]; exact nofun
  | published hd => rw [hd]; exact nofun
  | sent hd => rw [hd]; exact nofun

/-- With nothing in hand, everything produced is recorded. -/
theorem LaneInv.all_recorded {l : Lane} (hi : LaneInv nobuffer l) (hd : l.drain ≠ .done)
    (hp : l.drain.pending = []) : l.stop = l.produced.length := by
  have hdrop := hi.pending hd
  rw [hp, List.drop_eq_nil_iff] at hdrop
  exact Nat.le_antisymm hi.le hdrop

/-- What is in hand lies between the recorded end and the end of what was produced. -/
theorem LaneInv.length_pending {l : Lane} (hi : LaneInv nobuffer l) (hd : l.drain ≠ .done) :
    l.produced.length = l.stop + l.drain.pending.length := by
  have hlen := congrArg List.length (hi.pending hd)
  rw [List.length_drop] at hlen
  have := hi.le
  omega

theorem drained_inv {l l' : Lane} {sent : Option OutputChunk} (hi : LaneInv nobuffer l)
    (h : Drained nobuffer l l' sent) : LaneInv nobuffer l' := by
  have hnd := h.not_done
  have hopen : l.closed ≠ true := fun hc => hnd (hi.closed hc).1
  cases h with
  | @read data hd hlen =>
    have hall := hi.all_recorded hnd (by rw [hd]; rfl)
    refine ⟨?_, fun _ => ?_, nofun, fun hc => absurd hc hopen, fun data' hd' => ?_, nofun,
      fun hnb _ => ?_, fun hnb => ?_⟩
    · show l.stop ≤ (l.produced ++ data).length
      rw [List.length_append]
      omega
    · show (l.produced ++ data).drop l.stop = data
      rw [hall, List.drop_left]
    · cases hd'
      exact hlen
    · show l.file ++ data = l.produced ++ data
      have hw := hi.written hnb hnd
      rw [hd] at hw
      rw [← hw]
      simp only [Drain.unwritten, List.append_nil]
    · obtain ⟨hpre, hle⟩ := hi.spool hnb
      exact ⟨hpre.trans (List.prefix_append _ _), hle⟩
  | closed hd =>
    have hall := hi.all_recorded hnd (by rw [hd]; rfl)
    exact ⟨hi.le, fun h => absurd rfl h, nofun, fun _ => ⟨rfl, hall⟩, nofun, nofun,
      fun _ h => absurd rfl h, hi.spool⟩
  | failed _ _ =>
    exact ⟨hi.le, fun h => absurd rfl h, nofun, fun hc => absurd hc hopen, nofun, nofun,
      fun _ h => absurd rfl h, hi.spool⟩
  | @counted data hd =>
    have hlen := hi.length_pending hnd
    have hpend := hi.pending hnd
    have hheld := hi.held data (by rw [hd]; rfl)
    rw [hd] at hlen hpend
    cases nobuffer with
    | true =>
      refine ⟨hi.le, fun _ => hpend, fun stop hs => ?_, fun hc => absurd hc hopen,
        fun _ h => Option.some.inj h ▸ hheld, nofun, nofun, nofun⟩
      cases hs
      exact hlen.symm
    | false =>
      refine ⟨hi.le, fun _ => hpend, fun stop hs => ?_, fun hc => absurd hc hopen,
        fun _ h => Option.some.inj h ▸ hheld, nofun, fun _ _ => ?_, hi.spool⟩
      · cases hs
        exact hlen.symm
      · have hw := hi.written rfl hnd
        rw [hd] at hw
        exact hw
  | @wrote data rest stop count hd =>
    have htarget := hi.target stop (by rw [hd]; rfl)
    have hpend := hi.pending hnd
    have hheld := hi.held data (by rw [hd]; rfl)
    rw [hd] at hpend
    have hgrown : nobuffer = false →
        (l.file ++ rest.take count) ++ rest.drop count = l.produced := fun hnb => by
      have hw := hi.written hnb hnd
      rw [hd] at hw
      rw [List.append_assoc, List.take_append_drop]
      exact hw
    refine ⟨hi.le, fun _ => hpend, fun stop' hs => ?_, fun hc => absurd hc hopen,
      fun _ h => Option.some.inj h ▸ hheld, nofun, fun hnb _ => hgrown hnb,
      fun hnb => ⟨⟨_, hgrown hnb⟩, ?_⟩⟩
    · cases hs
      exact htarget
    · show l.stop ≤ (l.file ++ rest.take count).length
      have := (hi.spool hnb).2
      rw [List.length_append]
      omega
  | @flushed data stop hd =>
    have htarget := hi.target stop (by rw [hd]; rfl)
    have hpend := hi.pending hnd
    have hheld := hi.held data (by rw [hd]; rfl)
    have hw := fun hnb => hi.written hnb hnd
    rw [hd] at hpend hw
    refine ⟨hi.le, fun _ => hpend, fun stop' hs => ?_, fun hc => absurd hc hopen,
      fun _ h => Option.some.inj h ▸ hheld, nofun, fun hnb _ => hw hnb, hi.spool⟩
    cases hs
    exact htarget
  | @published data stop hd =>
    have htarget := hi.target stop (by rw [hd]; rfl)
    have hpend := hi.pending hnd
    rw [hd] at hpend
    have hdone : l.produced.drop stop = [] := by
      rw [htarget]
      exact List.drop_length
    cases nobuffer with
    | true =>
      have hheld := hi.held data (by rw [hd]; rfl)
      refine ⟨Nat.le_of_eq htarget, fun _ => hdone, nofun, fun hc => absurd hc hopen,
        fun _ h => Option.some.inj h ▸ hheld, fun c hc => ?_, nofun, nofun⟩
      cases hc
      have hlen := hi.length_pending hnd
      rw [hd] at hlen
      refine ⟨?_, hpend.symm⟩
      show l.stop + data.length = stop
      rw [htarget, hlen]
      rfl
    | false =>
      have hw := hi.written rfl hnd
      rw [hd] at hw
      refine ⟨Nat.le_of_eq htarget, fun _ => hdone, nofun, fun hc => absurd hc hopen, nofun, nofun,
        fun _ _ => hw, fun _ => ⟨(hi.spool rfl).1, ?_⟩⟩
      show stop ≤ l.file.length
      rw [htarget, ← hw]
      simp only [Drain.unwritten, List.append_nil, Nat.le_refl]
  | @sent chunk hd =>
    have hpend := hi.pending hnd
    have hw := fun hnb => hi.written hnb hnd
    rw [hd] at hpend hw
    exact ⟨hi.le, fun _ => hpend, nofun, fun hc => absurd hc hopen, nofun, nofun,
      fun hnb _ => hw hnb, hi.spool⟩

/-! ## The session -/

structure SessionInv (nobuffer : Bool) (s : Session) : Prop where
  lanes : ∀ st, LaneInv nobuffer (s.lane st)
  unwaited : s.waited = false → s.metadata.status = none

/-- What only grows: the positions, the files, what was produced and the recorded status. -/
structure Session.Le (s t : Session) : Prop where
  stop : ∀ st, (s.lane st).stop ≤ (t.lane st).stop
  produced : ∀ st, (s.lane st).produced <+: (t.lane st).produced
  file : ∀ st, (s.lane st).file <+: (t.lane st).file
  closed : ∀ st, (s.lane st).closed = true → t.lane st = s.lane st
  status : ∀ status, s.metadata.status = some status → t.metadata.status = some status

/-- One step of a session: a drain works on its lane, or no lane is touched. -/
theorem step_inv {act : Session.Act} {sent : Option (Stream × OutputChunk)}
    (h : s.step nobuffer hardened act = some (t, sent)) :
    (∃ st chunk, sent = chunk.map (st, ·) ∧ Drained nobuffer (s.lane st) (t.lane st) chunk ∧
      (∀ st', st' ≠ st → t.lane st' = s.lane st') ∧ SameTasks s t ∧
      t.attachment = s.attachment) ∨
    (sent = none ∧ (∀ st, t.lane st = s.lane st) ∧
      (SameTasks s t ∨ s.waited = false ∧ t.waited = true)) := by
  cases act with
  | install force =>
    simp only [Session.step] at h
    split at h <;> cases h <;> exact .inr ⟨rfl, fun _ => rfl, .inl ⟨rfl, rfl⟩⟩
  | clear g =>
    cases h
    exact .inr ⟨rfl, fun _ => rfl, .inl ⟨rfl, rfl⟩⟩
  | drain st act =>
    simp only [Session.step, Option.map_eq_some_iff, Prod.mk.injEq] at h
    obtain ⟨⟨t', chunk⟩, hs, rfl, rfl⟩ := h
    obtain ⟨hd, hne, hsame, ha⟩ := drainStep_inv hs
    exact .inl ⟨st, chunk, rfl, hd, hne, hsame, ha⟩
  | wait result =>
    simp only [Session.step] at h
    split at h
    · cases h
    · rename_i hw
      cases h
      refine .inr ⟨rfl, fun _ => ?_, .inr ⟨by simpa using hw, ?_⟩⟩
      · unfold Session.wait
        split
        · rfl
        · split <;> rfl
      · unfold Session.wait
        split
        · rfl
        · split <;> rfl

theorem drained_le {l l' : Lane} {sent : Option OutputChunk} (hi : LaneInv nobuffer l)
    (h : Drained nobuffer l l' sent) :
    l.stop ≤ l'.stop ∧ l.produced <+: l'.produced ∧ l.file <+: l'.file ∧ l.closed ≠ true := by
  have hnd := h.not_done
  have hopen : l.closed ≠ true := fun hc => hnd (hi.closed hc).1
  cases h with
  | read _ _ => exact ⟨Nat.le_refl _, List.prefix_append _ _, List.prefix_rfl, hopen⟩
  | wrote _ _ => exact ⟨Nat.le_refl _, List.prefix_rfl, List.prefix_append _ _, hopen⟩
  | @published data stop hd =>
    have htarget := hi.target stop (by rw [hd]; rfl)
    exact ⟨by rw [htarget]; exact hi.le, List.prefix_rfl, List.prefix_rfl, hopen⟩
  | _ => exact ⟨Nat.le_refl _, List.prefix_rfl, List.prefix_rfl, hopen⟩

theorem session_inv_step {act : Session.Act} {sent : Option (Stream × OutputChunk)}
    (hi : SessionInv nobuffer s) (h : s.step nobuffer hardened act = some (t, sent)) :
    SessionInv nobuffer t := by
  rcases step_inv h with ⟨st, chunk, _, hd, hne, hsame, _⟩ | ⟨_, hl, htasks⟩
  · refine ⟨fun st' => ?_, fun hw => ?_⟩
    · by_cases heq : st' = st
      · exact heq ▸ drained_inv (hi.lanes st) hd
      · exact hne st' heq ▸ hi.lanes st'
    · rw [hsame.status]
      exact hi.unwaited (hsame.waited ▸ hw)
  · refine ⟨fun st' => hl st' ▸ hi.lanes st', fun hw => ?_⟩
    rcases htasks with hsame | ⟨_, hwaited⟩
    · rw [hsame.status]
      exact hi.unwaited (hsame.waited ▸ hw)
    · rw [hwaited] at hw
      cases hw

theorem session_le_step {act : Session.Act} {sent : Option (Stream × OutputChunk)}
    (hi : SessionInv nobuffer s) (h : s.step nobuffer hardened act = some (t, sent)) : s.Le t := by
  rcases step_inv h with ⟨st, chunk, _, hd, hne, hsame, _⟩ | ⟨_, hl, htasks⟩
  · obtain ⟨hstop, hprod, hfile, hopen⟩ := drained_le (hi.lanes st) hd
    refine ⟨fun st' => ?_, fun st' => ?_, fun st' => ?_, fun st' hc => ?_,
      fun status hs => hsame.status.trans hs⟩ <;> by_cases heq : st' = st
    · exact heq ▸ hstop
    · exact Nat.le_of_eq (by rw [hne st' heq])
    · exact heq ▸ hprod
    · exact hne st' heq ▸ List.prefix_rfl
    · exact heq ▸ hfile
    · exact hne st' heq ▸ List.prefix_rfl
    · exact absurd (heq ▸ hc) hopen
    · exact hne st' heq
  · refine ⟨fun st => Nat.le_of_eq (by rw [hl st]), fun st => hl st ▸ List.prefix_rfl,
      fun st => hl st ▸ List.prefix_rfl, fun st _ => hl st, fun status hs => ?_⟩
    rcases htasks with hsame | ⟨hunwaited, _⟩
    · exact hsame.status.trans hs
    · rw [hi.unwaited hunwaited] at hs
      cases hs

theorem session_inv_init (h : s.Initial) : SessionInv nobuffer s := by
  obtain ⟨drains, failure, hd, rfl⟩ := h
  refine ⟨fun st => ?_, fun _ => rfl⟩
  have hlane : ({ metadata := { failure := failure }, drains := drains } : Session).lane st =
      ⟨0, false, drains.get st, [], []⟩ := by
    simp only [Session.lane, PerStream.get_both]
  rw [hlane]
  rcases hd st with h | h <;> rw [h]
  · exact ⟨Nat.le_refl _, fun _ => rfl, nofun, nofun, nofun, nofun, fun _ _ => rfl,
      fun _ => ⟨List.prefix_rfl, Nat.le_refl _⟩⟩
  · exact ⟨Nat.le_refl _, fun h => absurd rfl h, nofun, nofun, nofun, nofun,
      fun _ h => absurd rfl h,
      fun _ => ⟨List.prefix_rfl, Nat.le_refl _⟩⟩

/-- What a step does to the leases. -/
theorem step_moved {act : Session.Act} {sent : Option (Stream × OutputChunk)}
    (h : s.step nobuffer hardened act = some (t, sent)) : s.attachment.Moved t.attachment := by
  cases act with
  | install force =>
    simp only [Session.step] at h
    split at h
    · rename_i g a hi
      cases h
      exact .installed hi
    · cases h
      exact .kept
  | clear g =>
    cases h
    exact .cleared g
  | drain st act =>
    simp only [Session.step, Option.map_eq_some_iff, Prod.mk.injEq] at h
    obtain ⟨⟨t', chunk⟩, hs, rfl, rfl⟩ := h
    rw [(drainStep_inv hs).2.2.2]
    exact .kept
  | wait result =>
    simp only [Session.step] at h
    split at h
    · cases h
    · cases h
      have hsame : (s.wait hardened result).attachment = s.attachment := by
        unfold Session.wait
        split
        · rfl
        · split <;> rfl
      rw [hsame]
      exact .kept

/-! ## What has reached the live channel -/

/-- The end of what a drain has sent to its live channel. -/
def Lane.sentStop (l : Lane) : Nat :=
  match l.drain with
  | .sending chunk => chunk.offset
  | _ => l.stop

/-- A drain sends the channel what it recorded, chunk by chunk and without a gap. -/
theorem drained_sentStop {l l' : Lane} {sent : Option OutputChunk} (hi : LaneInv true l)
    (h : Drained true l l' sent) :
    (sent = none ∧ l'.sentStop = l.sentStop) ∨
      ∃ c, sent = some c ∧ c.offset = l.sentStop ∧ c.stop = l'.sentStop ∧ 0 < c.data.length ∧
        c.stop ≤ l.produced.length ∧ c.data = l.produced.drop c.offset ∧
        l'.produced = l.produced := by
  cases h with
  | sent hd =>
    rename_i c
    obtain ⟨hstop, hdata⟩ := hi.chunk c hd
    refine .inr ⟨c, rfl, ?_, hstop, hi.held c.data (by rw [hd]; rfl), hstop ▸ hi.le, hdata, rfl⟩
    simp only [Lane.sentStop, hd]
  | failed hnd hns =>
    refine .inl ⟨rfl, ?_⟩
    cases hd : l.drain with
    | sending c => exact absurd hd (hns c)
    | _ => simp only [Lane.sentStop, hd]
  | read hd _ => exact .inl ⟨rfl, by simp only [Lane.sentStop, hd]⟩
  | closed hd => exact .inl ⟨rfl, by simp only [Lane.sentStop, hd]⟩
  | counted hd => exact .inl ⟨rfl, by simp only [Lane.sentStop, hd, Drain.counted, if_true]⟩
  | wrote _ hd => exact .inl ⟨rfl, by simp only [Lane.sentStop, hd]⟩
  | flushed hd => exact .inl ⟨rfl, by simp only [Lane.sentStop, hd]⟩
  | published hd => exact .inl ⟨rfl, by simp only [Lane.sentStop, hd, Drain.published, if_true]⟩

end Pipekeep
