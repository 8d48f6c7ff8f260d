import Pipekeep.Policy

/-!
# What the sections do to the fact

`charge` is what the limit pays for. While it stays within the limit no `expect` of the sections
can fail, and each section is an update of one stream's fact: `recordWrite_eq_some`,
`settleWrite_eq_some` and `admit_eq_some` say which, once.
-/

namespace Pipekeep

/-- The sum over both streams. -/
def total (f : Stream → Nat) : Nat := f .stdout + f .stderr

/-- A total is of its two entries. -/
theorem total_congr {f g : Stream → Nat} (h : ∀ st, f st = g st) : total f = total g := by
  unfold total
  rw [h .stdout, h .stderr]

/-- A change of one stream changes the total by as much. -/
theorem total_change {f g : Stream → Nat} (st : Stream) (h : ∀ st', st' ≠ st → f st' = g st') :
    total f + g st = total g + f st := by
  unfold total
  cases st with
  | stdout =>
    have := h .stderr nofun
    omega
  | stderr =>
    have := h .stdout nofun
    omega

/-- No stream has more than both together. -/
theorem le_total (f : Stream → Nat) (st : Stream) : f st ≤ total f := by
  unfold total
  cases st <;> omega

namespace OutputFact

/-- The bytes of one stream that the limit pays for. -/
def paid (p : OutputFact) (st : Stream) : Nat :=
  (p.streams.get st).retained + (p.streams.get st).reserved

/-- The bytes the limit pays for. -/
def charge (p : OutputFact) : Nat := total p.paid

/-- The checked sum of the charges does not overflow within 64 bits. -/
theorem charged_eq {p : OutputFact} (h : p.charge ≤ u64Max) : p.charged = some p.charge := by
  have hsum : p.streams.stdout.retained + p.streams.stderr.retained +
      p.streams.stdout.reserved + p.streams.stderr.reserved = p.charge := by
    simp only [charge, total, paid, PerStream.get_stdout, PerStream.get_stderr]
    omega
  have h₁ : checkedAdd p.streams.stdout.retained p.streams.stderr.retained =
      some (p.streams.stdout.retained + p.streams.stderr.retained) := if_pos (by omega)
  have h₂ : checkedAdd (p.streams.stdout.retained + p.streams.stderr.retained)
      p.streams.stdout.reserved = some (p.streams.stdout.retained + p.streams.stderr.retained +
        p.streams.stdout.reserved) := if_pos (by omega)
  have h₃ : checkedAdd (p.streams.stdout.retained + p.streams.stderr.retained +
      p.streams.stdout.reserved) p.streams.stderr.reserved = some p.charge := by
    rw [← hsum]
    exact if_pos (by omega)
  unfold charged
  simp only [h₁, h₂, h₃, Option.bind_eq_bind, Option.bind_some]

/-- Within the limit, `available` does not panic. -/
theorem available_eq {p : OutputFact} (h : p.charge ≤ p.limit) (hlimit : p.limit ≤ u64Max) :
    p.available = some (p.limit - p.charge) := by
  unfold available
  rw [charged_eq (Nat.le_trans h hlimit)]
  simp only [Option.bind_eq_bind, Option.bind_some, if_pos h]

/-! ## Sections that move no bytes -/

/-- A section that moves no bytes, takes no pin and lets nothing look better than it did: the ones
that latch, close or mark. -/
structure Quiet (p q : OutputFact) : Prop where
  limit : q.limit = p.limit
  retained : ∀ st, (q.streams.get st).retained = (p.streams.get st).retained
  reserved : ∀ st, (q.streams.get st).reserved = (p.streams.get st).reserved
  discarded : ∀ st, (q.streams.get st).discarded = (p.streams.get st).discarded
  ioInflight : q.ioInflight = p.ioInflight
  tailRead : q.tailRead = p.tailRead
  stopped : p.firstStop.isSome = true → q.firstStop.isSome = true
  marks : ∀ st, (q.streams.get st).prefixComplete = true →
    (p.streams.get st).prefixComplete = true ∧
      (q.streams.get st).storageFault = (p.streams.get st).storageFault

/-- A section that changes nothing is quiet. -/
theorem Quiet.refl (p : OutputFact) : Quiet p p :=
  ⟨rfl, fun _ => rfl, fun _ => rfl, fun _ => rfl, rfl, rfl, id, fun _ h => ⟨h, rfl⟩⟩

/-- Quiet sections follow one another. -/
theorem Quiet.trans {p q r : OutputFact} (h : Quiet p q) (h' : Quiet q r) : Quiet p r where
  limit := h'.limit.trans h.limit
  retained st := (h'.retained st).trans (h.retained st)
  reserved st := (h'.reserved st).trans (h.reserved st)
  discarded st := (h'.discarded st).trans (h.discarded st)
  ioInflight := h'.ioInflight.trans h.ioInflight
  tailRead := h'.tailRead.trans h.tailRead
  stopped hp := h'.stopped (h.stopped hp)
  marks st hr :=
    have hq := h'.marks st hr
    have hp := h.marks st hq.1
    ⟨hp.1, hq.2.trans hp.2⟩

/-- A quiet section leaves the charge as it is. -/
theorem Quiet.charge {p q : OutputFact} (h : Quiet p q) : q.charge = p.charge :=
  total_congr fun st => by rw [paid, paid, h.retained st, h.reserved st]

@[simp] theorem onStream_limit (p : OutputFact) (st : Stream) (f : StreamFact → StreamFact) :
    (p.onStream st f).limit = p.limit := rfl

@[simp] theorem onStream_firstStop (p : OutputFact) (st : Stream) (f : StreamFact → StreamFact) :
    (p.onStream st f).firstStop = p.firstStop := rfl

@[simp] theorem onStream_ioInflight (p : OutputFact) (st : Stream) (f : StreamFact → StreamFact) :
    (p.onStream st f).ioInflight = p.ioInflight := rfl

@[simp] theorem onStream_tailRead (p : OutputFact) (st : Stream) (f : StreamFact → StreamFact) :
    (p.onStream st f).tailRead = p.tailRead := rfl

/-- The changed stream has the changed fact. -/
@[simp] theorem onStream_get_self (p : OutputFact) (st : Stream) (f : StreamFact → StreamFact) :
    (p.onStream st f).streams.get st = f (p.streams.get st) :=
  PerStream.get_set_self _ _ _

/-- The other stream has its own. -/
theorem onStream_get_ne (p : OutputFact) {st st' : Stream} (h : st' ≠ st)
    (f : StreamFact → StreamFact) : (p.onStream st f).streams.get st' = p.streams.get st' :=
  PerStream.get_set_ne _ h _

/-- An update of one stream that keeps its amounts and marks. -/
theorem quiet_onStream (p : OutputFact) (st : Stream) {f : StreamFact → StreamFact}
    (amounts : ∀ s, (f s).retained = s.retained ∧ (f s).reserved = s.reserved ∧
      (f s).discarded = s.discarded)
    (marks : ∀ s, (f s).prefixComplete = true →
      s.prefixComplete = true ∧ (f s).storageFault = s.storageFault) :
    Quiet p (p.onStream st f) := by
  have cases_on : ∀ st', ∃ s, p.streams.get st' = s ∧
      ((p.onStream st f).streams.get st' = f s ∨ (p.onStream st f).streams.get st' = s) :=
    fun st' => by
      by_cases heq : st' = st
      · exact ⟨_, rfl, .inl (by rw [heq, onStream_get_self])⟩
      · exact ⟨_, rfl, .inr (onStream_get_ne p heq f)⟩
  refine ⟨rfl, fun st' => ?_, fun st' => ?_, fun st' => ?_, rfl, rfl, id, fun st' => ?_⟩ <;>
    obtain ⟨s, hs, hg | hg⟩ := cases_on st' <;> rw [hs, hg]
  · exact (amounts s).1
  · exact (amounts s).2.1
  · exact (amounts s).2.2
  · exact marks s
  · exact fun h => ⟨h, rfl⟩

/-- A stop that is latched charges nothing. -/
theorem quiet_latch (p : OutputFact) (reason : StopReason) : Quiet p (p.latch reason) where
  limit := rfl
  retained _ := rfl
  reserved _ := rfl
  discarded _ := rfl
  ioInflight := rfl
  tailRead := rfl
  stopped _ := by
    unfold latch
    cases p.firstStop <;> rfl
  marks _ h := ⟨h, rfl⟩

/-- A storage fault charges nothing. -/
theorem quiet_storageFault (p : OutputFact) (st : Stream) (fault : StorageFault) :
    Quiet p (p.storageFault st fault) :=
  (quiet_onStream p st
    (f := fun s => { s with storageFault := s.storageFault.or (some fault), prefixComplete := false })
    (fun _ => ⟨rfl, rfl, rfl⟩) (fun _ => nofun)).trans (quiet_latch _ _)

/-- Closing the collections charges nothing. -/
theorem quiet_closeCollection (p : OutputFact) (cause : CollectionCause) :
    Quiet p (p.closeCollection cause) := by
  have closed : ∀ st, (p.closeCollection cause).streams.get st = p.streams.get st ∨
      (p.closeCollection cause).streams.get st =
        { p.streams.get st with collection := .unconfirmed cause } := fun st => by
    cases st <;> simp only [closeCollection, PerStream.get_stdout, PerStream.get_stderr] <;> split
    · exact .inr rfl
    · exact .inl rfl
    · exact .inr rfl
    · exact .inl rfl
  refine ⟨rfl, fun st => ?_, fun st => ?_, fun st => ?_, rfl, rfl, id, fun st => ?_⟩ <;>
    rcases closed st with h | h <;> rw [h]
  · exact fun hp => ⟨hp, rfl⟩
  · exact fun hp => ⟨hp, rfl⟩

/-- The end of a pipe charges nothing. -/
theorem quiet_observeEof (p : OutputFact) (st : Stream) : Quiet p (p.observeEof st) :=
  quiet_onStream p st (fun _ => ⟨rfl, rfl, rfl⟩) fun _ h => ⟨h, rfl⟩

/-- A missing pipe charges nothing. -/
theorem quiet_missingPipe (p : OutputFact) (st : Stream) : Quiet p (p.missingPipe st) :=
  quiet_onStream p st (fun _ => ⟨rfl, rfl, rfl⟩) fun _ h => ⟨h, rfl⟩

/-- A failed read charges nothing. -/
theorem quiet_observeError (p : OutputFact) (st : Stream) : Quiet p (p.observeError st) :=
  (quiet_onStream p st
    (f := fun s => { s with collection := .unconfirmed .outputRead, prefixComplete := false })
    (fun _ => ⟨rfl, rfl, rfl⟩) (fun _ => nofun)).trans (quiet_latch _ _)

/-- After a latch there is a stop, this one or an earlier. -/
theorem latch_isSome (p : OutputFact) (reason : StopReason) :
    (p.latch reason).firstStop.isSome = true := by
  unfold latch
  cases p.firstStop <;> rfl

/-- A stop that stands is kept. -/
theorem latch_firstStop {p : OutputFact} {reason r : StopReason} (h : p.firstStop = some r) :
    (p.latch reason).firstStop = some r := by
  simp only [latch, h, Option.some_or]

/-! ## Sections that move bytes -/

/-- What a tail read of `n` bytes leaves of its stream. -/
def tailed (s : StreamFact) (n : Nat) : StreamFact :=
  { s with discarded := s.discarded + n, prefixComplete := false }

/-- A read of the tail is counted at its stream. -/
theorem observeTail_get_self (p : OutputFact) (st : Stream) (n : Nat) :
    (p.observeTail st n).streams.get st = tailed (p.streams.get st) n :=
  onStream_get_self p st (tailed · n)

/-- The other stream is left alone. -/
theorem observeTail_get_ne (p : OutputFact) {st st' : Stream} (h : st' ≠ st) (n : Nat) :
    (p.observeTail st n).streams.get st' = p.streams.get st' :=
  onStream_get_ne p h (tailed · n)

/-- A read of the tail is not charged. -/
theorem observeTail_charge (p : OutputFact) (st : Stream) (n : Nat) :
    (p.observeTail st n).charge = p.charge :=
  total_congr fun st' => by
    by_cases heq : st' = st
    · subst heq
      rw [paid, paid, observeTail_get_self]
      rfl
    · rw [paid, paid, observeTail_get_ne p heq]

/-- What a recorded write of `count` bytes leaves of its stream. -/
def recorded (s : StreamFact) (count : Nat) : StreamFact :=
  { s with reserved := s.reserved - count, retained := s.retained + count }

/-- A returned write moves its count from the reservation to what is retained. -/
theorem recordWrite_eq_some {p q : OutputFact} {st : Stream} {count : Nat}
    (h : p.recordWrite st count = some q) :
    count ≤ (p.streams.get st).reserved ∧ q = p.onStream st (recorded · count) := by
  unfold recordWrite at h
  dsimp only at h
  split at h
  · rename_i hle
    simp only [checkedAdd, Option.bind_eq_bind] at h
    split at h
    · simp only [Option.bind_some, Option.bind_eq_some_iff] at h
      obtain ⟨_, _, h⟩ := h
      refine ⟨hle, (Option.some.inj h).symm.trans ?_⟩
      unfold onStream
      rfl
    · cases h
  · cases h

/-- What a change of one stream pays more, the charge is higher. -/
theorem charge_onStream (p : OutputFact) (st : Stream) (f : StreamFact → StreamFact) :
    (p.onStream st f).charge + p.paid st = p.charge + (p.onStream st f).paid st :=
  total_change _ fun st' hne => by rw [paid, paid, onStream_get_ne p hne]

/-- A recorded write moves bytes from the reservation to what is retained, so the charge stays. -/
theorem recorded_charge {p : OutputFact} {st : Stream} {count : Nat}
    (h : count ≤ (p.streams.get st).reserved) :
    (p.onStream st (recorded · count)).charge = p.charge := by
  have hcharge := charge_onStream p st (recorded · count)
  have hsame : (p.onStream st (recorded · count)).paid st = p.paid st := by
    simp only [paid, onStream_get_self, recorded]
    omega
  omega

/-- Within the limit, recording a write that was reserved does not panic. -/
theorem recordWrite_isSome {p : OutputFact} {st : Stream} {count : Nat}
    (h : p.charge ≤ p.limit) (hlimit : p.limit ≤ u64Max)
    (hcount : count ≤ (p.streams.get st).reserved) : ∃ p', p.recordWrite st count = some p' := by
  have hpaid : p.paid st ≤ p.charge := le_total _ st
  have hsum : (p.streams.get st).retained + count ≤ u64Max := by
    unfold paid at hpaid
    omega
  have havail := available_eq (p := p.onStream st (recorded · count))
    (by rw [recorded_charge hcount, onStream_limit]; exact h) hlimit
  unfold recordWrite
  dsimp only
  rw [if_pos hcount, checkedAdd, if_pos hsum]
  simp only [Option.bind_eq_bind, Option.bind_some]
  rw [show (p.onStream st fun s => { s with
      reserved := s.reserved - count
      retained := (p.streams.get st).retained + count }) = p.onStream st (recorded · count) from rfl,
    havail]
  exact ⟨_, rfl⟩

/-- What a settled write leaves of its stream. -/
def settled (s : StreamFact) (unwritten : Nat) : StreamFact :=
  { s with
    reserved := s.reserved - unwritten
    discarded := s.discarded + unwritten
    prefixComplete := s.prefixComplete && unwritten == 0 }

/-- What a settled write does: it discards what it did not write, and a fault is a stop. -/
structure SettledWrite (p q : OutputFact) (st : Stream) (unwritten : Nat) (faulted : Bool) :
    Prop where
  limit : q.limit = p.limit
  tailRead : q.tailRead = p.tailRead
  ioInflight : q.ioInflight = p.ioInflight
  self : q.streams.get st = settled (p.streams.get st) unwritten
  other : ∀ st', st' ≠ st → q.streams.get st' = p.streams.get st'
  firstStop : q.firstStop = if faulted then p.firstStop.or (some .storageFault) else p.firstStop

/-- A write is settled within its reservation. -/
theorem settleWrite_eq_some {p q : OutputFact} {st : Stream} {unwritten : Nat} {faulted : Bool}
    (h : p.settleWrite st unwritten faulted = some q) :
    unwritten ≤ (p.streams.get st).reserved ∧ SettledWrite p q st unwritten faulted := by
  unfold settleWrite at h
  dsimp only at h
  split at h
  · rename_i hle
    refine ⟨hle, ?_⟩
    have hupdate : (if unwritten ≠ 0 then
        (p.onStream st fun s => { s with reserved := s.reserved - unwritten }).onStream st fun s =>
          { s with discarded := s.discarded + unwritten, prefixComplete := false }
        else p.onStream st fun s => { s with reserved := s.reserved - unwritten }) =
        p.onStream st (settled · unwritten) := by
      by_cases hz : unwritten = 0
      · subst hz
        simp only [ne_eq, not_true_eq_false, if_false, settled, Nat.sub_zero, Nat.add_zero,
          beq_self_eq_true, Bool.and_true]
      · rw [if_pos hz]
        unfold onStream
        simp only [PerStream.get_set_self, settled, beq_false_of_ne hz, Bool.and_false]
        cases st <;> rfl
    rw [hupdate] at h
    have self := onStream_get_self p st (settled · unwritten)
    have other := fun st' (hne : st' ≠ st) => onStream_get_ne p hne (settled · unwritten)
    cases faulted with
    | true =>
      cases h
      exact ⟨rfl, rfl, rfl, self, other, rfl⟩
    | false =>
      cases h
      exact ⟨rfl, rfl, rfl, self, other, rfl⟩
  · cases h

/-- What was not written is not charged any more. -/
theorem SettledWrite.charge {p q : OutputFact} {st : Stream} {unwritten : Nat} {faulted : Bool}
    (h : SettledWrite p q st unwritten faulted) (hle : unwritten ≤ (p.streams.get st).reserved) :
    q.charge + unwritten = p.charge := by
  have hchange : q.charge + p.paid st = p.charge + q.paid st :=
    total_change _ fun st' hne => by rw [paid, paid, h.other st' hne]
  have hpaid : q.paid st + unwritten = p.paid st := by
    simp only [paid, h.self, settled]
    omega
  omega

/-- What is retained stays retained. -/
theorem SettledWrite.retained {p q : OutputFact} {st : Stream} {unwritten : Nat} {faulted : Bool}
    (h : SettledWrite p q st unwritten faulted) (st' : Stream) :
    (q.streams.get st').retained = (p.streams.get st').retained := by
  by_cases heq : st' = st
  · subst heq
    rw [h.self]
    rfl
  · rw [h.other st' heq]

/-- Within its reservation a write can be settled. -/
theorem settleWrite_isSome {p : OutputFact} {st : Stream} {unwritten : Nat} {faulted : Bool}
    (h : unwritten ≤ (p.streams.get st).reserved) :
    ∃ p', p.settleWrite st unwritten faulted = some p' := by
  unfold settleWrite
  dsimp only
  rw [if_pos h]
  exact ⟨_, rfl⟩

/-- What an admission of `retained` out of `n` bytes leaves of its stream. -/
def admitted (s : StreamFact) (n retained : Nat) : StreamFact :=
  { s with
    reserved := s.reserved + retained
    discarded := s.discarded + (n - retained)
    prefixComplete := s.prefixComplete && n == retained }

/-- What a stop leaves of a read, and else the limit. -/
theorem retainable_eq {p : OutputFact} (hcharge : p.charge ≤ p.limit) (hlimit : p.limit ≤ u64Max)
    (n : Nat) :
    p.retainable n = some (if p.firstStop.isSome then 0 else min n (p.limit - p.charge)) := by
  unfold retainable
  rw [available_eq hcharge hlimit]
  split <;> rfl

/-- What a reservation does. -/
structure Reserved (p q : OutputFact) (st : Stream) (n retained : Nat) : Prop where
  limit : q.limit = p.limit
  tailRead : q.tailRead = p.tailRead
  self : q.streams.get st = admitted (p.streams.get st) n retained
  other : ∀ st', st' ≠ st → q.streams.get st' = p.streams.get st'
  ioInflight : q.ioInflight = p.ioInflight + if retained ≠ 0 then 1 else 0
  firstStop : q.firstStop =
    if n ≠ retained then p.firstStop.or (some .outputLimit) else p.firstStop

/-- A reservation has what `Reserved` says. -/
theorem reserve_reserved (p : OutputFact) (st : Stream) (n retained : Nat) :
    Reserved p (p.reserve st n retained) st n retained := by
  have self := onStream_get_self p st (admitted · n retained)
  have other := fun st' (hne : st' ≠ st) => onStream_get_ne p hne (admitted · n retained)
  constructor <;> unfold reserve <;> dsimp only
  · split <;> split <;> rfl
  · split <;> split <;> rfl
  · split <;> split <;> exact self
  · split <;> split <;> exact other
  · split <;> split <;> rfl
  · split <;> split <;> rfl

/-- What is to be retained is charged at once. -/
theorem Reserved.charge {p q : OutputFact} {st : Stream} {n retained : Nat}
    (h : Reserved p q st n retained) : q.charge = p.charge + retained := by
  have hchange : q.charge + p.paid st = p.charge + q.paid st :=
    total_change _ fun st' hne => by rw [paid, paid, h.other st' hne]
  have hpaid : q.paid st = p.paid st + retained := by
    simp only [paid, h.self, admitted]
    omega
  omega

/-- **An admission** retains what the limit leaves, and nothing once a stop is latched. Within the
limit it does not panic. -/
theorem admit_eq {p : OutputFact} (hcharge : p.charge ≤ p.limit) (hlimit : p.limit ≤ u64Max)
    (st : Stream) (n : Nat) :
    ∃ retained, retained = (if p.firstStop.isSome then 0 else min n (p.limit - p.charge)) ∧
      p.admitRead st n = some (p.reserve st n retained, retained) := by
  refine ⟨_, rfl, ?_⟩
  have hle : (if p.firstStop.isSome then 0 else min n (p.limit - p.charge)) ≤
      p.limit - p.charge := by
    split
    · exact Nat.zero_le _
    · exact Nat.min_le_right _ _
  unfold admitRead
  rw [retainable_eq hcharge hlimit]
  simp only [Option.bind_eq_bind, Option.bind_some]
  have h := reserve_reserved p st n (if p.firstStop.isSome then 0 else min n (p.limit - p.charge))
  rw [available_eq (by rw [h.charge, h.limit]; omega) (h.limit.symm ▸ hlimit)]
  rfl

/-- An admission retains what the limit leaves of a read, and nothing after a stop. -/
theorem admit_eq_some {p q : OutputFact} (hcharge : p.charge ≤ p.limit) (hlimit : p.limit ≤ u64Max)
    {st : Stream} {n retained : Nat} (h : p.admitRead st n = some (q, retained)) :
    retained = (if p.firstStop.isSome then 0 else min n (p.limit - p.charge)) ∧
      q = p.reserve st n retained := by
  obtain ⟨_, hretained, hadm⟩ := admit_eq hcharge hlimit st n
  rw [hadm] at h
  cases h
  exact ⟨hretained, rfl⟩

end OutputFact

end Pipekeep
