import Pipekeep.Laws.Accounting

/-!
# The collector keeps the books

Between two looks at the fact the collector relies on what it saw: a read is selected for as many
bytes as were left, and admitted later, under the lock, by what is left then. `Knows` says what of
it still holds, and `writer_none` is where it pays: a read that retains bytes finds its file in the
collector's own hands.
-/

namespace Pipekeep.Bounds

open OutputFact

variable {limit : Nat} {s t : State}

/-- A call goes on. -/
theorem inv_call (hi : Inv limit s) {c : Call} {next : Collector}
    (hc : s.collector = .calling c next) (clock : Clock) :
    Inv limit { (s.call c clock).1 with
      collector := ((s.call c clock).2.map (Collector.calling · next)).getD next } := by
  have hknows : Knows s.policy s.writes s.admissions next := by
    have := hi.knows
    rw [hc] at this
    exact this
  have hand : ∀ st, next.hand st = s.collector.hand st := fun st => by rw [hc]; rfl
  have spawns : ∀ st, next.spawns st = s.collector.spawns st := fun st => by rw [hc]; rfl
  cases c with
  | stop reason =>
    have hq := quiet_latch s.policy reason
    exact hi.collector (c := .calling .start next) hq hand spawns
      (fun st _ => .inr (latch_isSome _ _)) (hknows.steady (steady_of_quiet hq))
  | storageFault st fault =>
    have hq := quiet_storageFault s.policy st fault
    exact hi.collector (c := .calling .start next) hq hand spawns
      (fun st _ => .inr (latch_isSome _ _)) (hknows.steady (steady_of_quiet hq))
  | start =>
    refine (hi.collector (c := .calling .notify next) (.refl _) hand spawns (fun st hr => ?_)
      hknows).same ⟨rfl, rfl, rfl, rfl, rfl, rfl, rfl, rfl, rfl⟩
    rw [hc] at hr
    cases hr
  | notify =>
    refine (hi.collector (c := next) (.refl _) hand spawns (fun st hr => ?_) hknows).same
      ⟨rfl, rfl, rfl, rfl, rfl, rfl, rfl, rfl, rfl⟩
    rw [hc] at hr
    cases hr

/-- A stage without bytes in hand follows another. -/
theorem inv_goto (hi : Inv limit s) {p : OutputFact} {c : Collector} (h : Quiet s.policy p)
    (idle : s.collector.idle = true) (idle' : c.idle = true)
    (knows : Knows p s.writes s.admissions c) :
    Inv limit { s with policy := p, collector := c } := by
  refine hi.collector h (fun st => ?_) (fun st => ?_) (fun st hr => ?_) knows
  · exact (Collector.of_idle idle' st).1.trans (Collector.of_idle idle st).1.symm
  · exact (Collector.of_idle idle' st).2.1.trans (Collector.of_idle idle st).2.1.symm
  · rw [(Collector.of_idle idle st).2.2] at hr
    cases hr

/-- What was read is accounted for while nothing is in hand. -/
theorem account_read (hi : Inv limit s) (hidle : s.collector.idle = true) (st : Stream) :
    (s.read.get st).length = (s.policy.streams.get st).retained +
      (s.policy.streams.get st).reserved + (s.policy.streams.get st).discarded := by
  have := (hi.accounts st).read
  rw [show (s.account st).hand = [] from (Collector.of_idle hidle st).1] at this
  exact this

theorem fact_amounts (p : OutputFact) (m : Meta) (c : Cancellation) (st : Stream) :
    ((p.fact m c).streams.get st).retained = (p.streams.get st).retained ∧
      ((p.fact m c).streams.get st).reserved = (p.streams.get st).reserved ∧
      ((p.fact m c).streams.get st).discarded = (p.streams.get st).discarded ∧
      ((p.fact m c).streams.get st).collection = (p.streams.get st).collection ∧
      ((p.fact m c).streams.get st).storageFault = (p.streams.get st).storageFault := by
  cases st <;> exact ⟨rfl, rfl, rfl, rfl, rfl⟩

theorem fact_charge (p : OutputFact) (m : Meta) (c : Cancellation) :
    (p.fact m c).charge = p.charge :=
  total_congr fun st => by
    rw [paid, paid, (fact_amounts p m c st).1, (fact_amounts p m c st).2.1]

/-- A snapshot says what holds when it is taken. -/
theorem snapshot_fact (hi : Inv limit s) : Snapshot s.policy s.admissions s.fact where
  limit := rfl
  charge := by
    show (s.policy.fact _ _).charge ≤ s.policy.limit
    rw [fact_charge, hi.limited]
    exact hi.charge
  tailRead := rfl
  spared hq := ⟨hq, fact_charge _ _ _⟩
  full hq := (hi.admitted.spared hq).1

/-- What a turn decides to read is within what is left. -/
theorem turn_knows (hi : Inv limit s) {p : OutputFact} (hp : Snapshot s.policy s.admissions p)
    {tail : Bool} (htail : tail = true → p.firstStop.isSome = true) :
    Knows s.policy s.writes s.admissions (.select (s.turn p tail (p.limit - p.charge))) := by
  refine ⟨fun ht => ⟨?_, ?_⟩, fun ht st hst => ?_⟩
  · cases hq : s.policy.firstStop with
    | some r => rfl
    | none =>
      have := htail ht
      rw [(hp.spared hq).1] at this
      cases this
  · have htrue : tail = true := ht
    have hsize : (s.turn p tail (p.limit - p.charge)).readSize =
        min (tailBytes - p.tailRead) readSize := by
      show min (if tail = true then _ else _) _ = _
      rw [if_pos htrue]
    have := hi.tailRead
    rw [hsize, hp.tailRead]
    omega
  · have hf : tail = false := ht
    have henabled : (s.turn p tail (p.limit - p.charge)).enabled.get st =
        ((p.firstStop.isNone || tail) && (p.streams.get st).collection == .reading &&
          (!s.writes.get st || (!tail && p.limit - p.charge == 0))) := by
      cases st <;> rfl
    have hsize : (s.turn p tail (p.limit - p.charge)).readSize =
        min (p.limit - p.charge + 1) readSize := by
      show min (if tail = true then _ else _) _ = _
      rw [hf]
      rfl
    rw [henabled, hf] at hst
    simp only [Bool.or_false, Bool.not_false, Bool.true_and, Bool.and_eq_true, Bool.or_eq_true,
      Bool.not_eq_true', beq_iff_eq, Option.isNone_iff_eq_none] at hst
    obtain ⟨⟨hnone, -⟩, hwrites⟩ := hst
    rw [hsize]
    refine ⟨hp.full hnone, Nat.min_le_right _ _, fun hq => ?_, fun hq hw => ?_⟩
    · rw [← hp.limit, ← (hp.spared hq).2]
      exact Nat.min_le_left _ _
    · rw [hw] at hwrites
      have hzero := hwrites.resolve_left nofun
      have hle := hp.charge
      rw [← hp.limit, ← (hp.spared hq).2]
      omega

theorem inv_looked (hlimit : limit ≤ u64Max) (hi : Inv limit s) {p : OutputFact}
    (hc : s.collector = .clock p) {now : Nat} (h : Looked s p now t) : Inv limit t := by
  have hp : Snapshot s.policy s.admissions p := by
    have := hi.knows
    rw [hc] at this
    exact this
  have hidle : s.collector.idle = true := by rw [hc]; rfl
  have goto : ∀ (c : Collector) (deadline : Option Nat), c.idle = true →
      Knows s.policy s.writes s.admissions c →
      Inv limit { s with tailDeadline := deadline, collector := c } := fun c deadline idle' knows =>
    (inv_goto hi (.refl _) hidle idle' knows).same ⟨rfl, rfl, rfl, rfl, rfl, rfl, rfl, rfl, rfl⟩
  cases h with
  | finished late => exact goto _ s.tailDeadline rfl trivial
  | unconfirmed finished present started => exact goto _ s.tailDeadline rfl trivial
  | tailTime stopped late => exact goto _ _ rfl trivial
  | tailBytes stopped started spent => exact goto _ _ rfl trivial
  | select early phase running unspent left =>
    rw [available_eq hp.charge (by rw [hp.limit, hi.limited]; exact hlimit)] at left
    cases left
    subst phase
    exact goto _ (s.tailDeadlineAt p now) rfl
      (turn_knows hi hp fun ht => (Bool.and_eq_true _ _ ▸ ht).1)

/-- A read that returned is in hand. -/
theorem inv_read (hi : Inv limit s) {turn : Turn} (hc : s.collector = .select turn) {st : Stream}
    (enabled : turn.enabled.get st = true) {data : List UInt8}
    (hlen : data.length ≤ turn.readSize) :
    Inv limit { s with
      read := s.read.set st (s.read.get st ++ data)
      collector := .observing st (.bytes data) turn.tail } := by
  have hknows := hi.knows
  rw [hc] at hknows
  have hempty : ∀ st', s.collector.hand st' = [] := fun st' => by rw [hc]; rfl
  have hhand : ∀ st', (Collector.observing st (.bytes data) turn.tail).hand st' =
      if st' = st then data else [] := fun _ => rfl
  have hlost : ∀ st', s.collector.reports st' = true → False := fun st' hr => by
    rw [hc] at hr
    cases hr
  refine ⟨fun st' => ?_, hi.limited, hi.charge, hi.pins, hi.tailRead, ⟨fun ht => ?_, fun ht => ?_⟩,
    { hi.admitted with read := ?_ }⟩
  · by_cases heq : st' = st
    · subst heq
      have ha := hi.accounts st'
      have hread := account_read hi (by rw [hc]; rfl) st'
      refine { ha with read := ?_, hand := ?_, slot := ?_ }
      · show ((s.read.set st' _).get st').length = _ + ((Collector.observing st' _ _).hand st').length
        rw [PerStream.get_set_self, hhand, if_pos rfl, List.length_append, hread]
        rfl
      · show (Collector.observing st' _ _).hand st' <:+ (s.read.set st' _).get st'
        rw [PerStream.get_set_self, hhand, if_pos rfl]
        exact List.suffix_append _ _
      · refine ha.slot.moved (.refl _) rfl rfl ?_ id fun hr => (hlost st' hr).elim
        show false = s.collector.spawns st'
        rw [hc]
        rfl
    · refine (hi.accounts st').quiet (account_untouched rfl id rfl rfl rfl rfl
        (PerStream.get_set_ne _ heq _) ?_ ?_ fun hr => (hlost st' hr).elim)
      · rw [hempty]
        exact if_neg heq
      · rw [hc]
        rfl
  · exact (hknows.1 ht).mono hlen
  · exact (hknows.2 ht st enabled).mono hlen
  · have htotal := hi.admitted.read
    have hread : total (fun st' => ((s.read.set st (s.read.get st ++ data)).get st').length) =
        total (fun st' => (s.read.get st').length) + data.length := by
      have := total_change st (f := fun st' =>
        ((s.read.set st (s.read.get st ++ data)).get st').length)
        (g := fun st' => (s.read.get st').length) fun st' hne => by rw [PerStream.get_set_ne _ hne]
      simp only [PerStream.get_set_self, List.length_append] at this
      omega
    have hhands : total (fun st' => ((Collector.observing st (.bytes data) turn.tail).hand st').length) =
        total (fun st' => (s.collector.hand st').length) + data.length := by
      have := total_change st (f := fun st' =>
        ((Collector.observing st (.bytes data) turn.tail).hand st').length)
        (g := fun st' => (s.collector.hand st').length) fun st' hne => by
          rw [hhand, if_neg hne, hempty]
      simp only [hhand, hempty, if_true, List.length_nil] at this ⊢
      omega
    show total (fun st' => ((s.read.set st _).get st').length) = _ + _ +
      total (fun st' => ((Collector.observing st _ _).hand st').length)
    rw [hread, hhands, htotal, Nat.add_assoc]

/-- What the collector puts down leaves its hand empty. -/
theorem total_hand {c : Collector} (c' : Collector) (st : Stream) (data : List UInt8)
    (hand : ∀ st', c.hand st' = if st' = st then data else []) (empty : ∀ st', c'.hand st' = []) :
    total (fun st' => (c.hand st').length) =
      total (fun st' => (c'.hand st').length) + data.length := by
  have := total_change st (f := fun st' => (c.hand st').length)
    (g := fun st' => (c'.hand st').length) fun st' hne => by
      rw [hand, if_neg hne, empty]
  simp only [hand, empty, if_true, List.length_nil] at this ⊢
  omega

/-- A tail read is discarded and counted. -/
theorem inv_observeTail (hi : Inv limit s) {st : Stream} {data : List UInt8}
    (hc : s.collector = .observing st (.bytes data) true) :
    Inv limit { s with policy := s.policy.observeTail st data.length, collector := .top } := by
  have hknows := hi.knows
  rw [hc] at hknows
  obtain ⟨hstopped, hsize⟩ := hknows.1 rfl
  have hhand : ∀ st', s.collector.hand st' = if st' = st then data else [] :=
    fun st' => by rw [hc]; rfl
  have hspawns : ∀ st', s.collector.spawns st' = false := fun st' => by rw [hc]; rfl
  have hreports : ∀ st', s.collector.reports st' = true → False := fun st' hr => by
    rw [hc] at hr
    cases hr
  refine ⟨fun st' => ?_, hi.limited, observeTail_charge s.policy st _ ▸ hi.charge, hi.pins, hsize,
    trivial, { hi.admitted with spared := fun hq => ?_, read := ?_ }⟩
  · by_cases heq : st' = st
    · subst heq
      have ha := hi.accounts st'
      have hget := observeTail_get_self s.policy st' data.length
      have hread : (s.read.get st').length = (s.policy.streams.get st').retained +
          (s.policy.streams.get st').reserved + (s.policy.streams.get st').discarded +
            data.length := by
        have := ha.read
        rw [show (s.account st').hand = data by rw [State.account, hhand, if_pos rfl]] at this
        exact this
      refine { ha with
        reserved := ?_, read := ?_, hand := List.nil_suffix, stop := ?_, marks := ?_, spared := ?_
        slot := ?_ }
      · show ((s.policy.observeTail st' _).streams.get st').reserved = _
        rw [hget]
        exact ha.reserved
      · show (s.read.get st').length = ((s.policy.observeTail st' _).streams.get st').retained +
          ((s.policy.observeTail st' _).streams.get st').reserved +
          ((s.policy.observeTail st' _).streams.get st').discarded + 0
        rw [hget, hread, tailed]
        dsimp only
        omega
      · show _ = ((s.policy.observeTail st' _).streams.get st').retained
        rw [hget]
        exact ha.stop
      · show ((s.policy.observeTail st' _).streams.get st').prefixComplete = true → _
        rw [hget]
        exact nofun
      · intro hno
        rw [show s.policy.firstStop.isSome = false from hno] at hstopped
        cases hstopped
      · exact ha.slot.moved (.refl _) rfl rfl (hspawns st').symm id fun hr => (hreports st' hr).elim
    · refine (hi.accounts st').quiet (account_untouched (observeTail_get_ne _ heq _) id rfl rfl rfl
        rfl rfl ?_ (hspawns st').symm fun hr => (hreports st' hr).elim)
      rw [hhand, if_neg heq]
      rfl
  · exact observeTail_charge s.policy st _ ▸ hi.admitted.spared hq
  · have htotal := hi.admitted.read
    rw [total_hand .top _ _ hhand fun _ => rfl] at htotal
    show total (fun st' => (s.read.get st').length) = readBytes s.admissions +
      (s.policy.tailRead + data.length) + total (fun st' => (Collector.top.hand st').length)
    omega

/-- The rest of `observed`. -/
theorem inv_observe (hi : Inv limit s) {st : Stream} {result : ReadResult} {tail : Bool}
    (hc : s.collector = .observing st result tail) : Inv limit (s.observe st result tail) := by
  cases result with
  | error => exact inv_goto hi (quiet_observeError _ st) (by rw [hc]; rfl) rfl trivial
  | bytes data =>
    cases data with
    | nil =>
      exact (inv_goto hi (c := .calling .notify .top) (quiet_observeEof _ st) (by rw [hc]; rfl) rfl
        trivial).same ⟨rfl, rfl, rfl, rfl, rfl, rfl, rfl, rfl, rfl⟩
    | cons b bs =>
      cases tail with
      | true => exact inv_observeTail hi hc
      | false =>
        have hknows := hi.knows
        rw [hc] at hknows
        refine hi.collector (.refl _) (fun _ => by rw [hc]; rfl) (fun _ => by rw [hc]; rfl)
          (fun st' hr => ?_) ⟨nofun, hknows.2 rfl⟩
        rw [hc] at hr
        cases hr

/-! ### Admissions -/

/-- Where an admission leaves the collector: it spawns a worker or starts over, and it may have to
stop the collection first. -/
theorem Collector.admitted_cases {P : Collector → Prop} (st : Stream) (n retained : Nat)
    (spawning : P (.spawning st)) (top : P .top)
    (calling : ∀ next, P next → P (.calling (.stop .outputLimit) next)) :
    P (.admitted st n retained) := by
  have hnext : P (if retained ≠ 0 then .spawning st else .top) := by
    split
    · exact spawning
    · exact top
  unfold Collector.admitted
  dsimp only
  split
  · exact calling _ hnext
  · exact hnext

@[simp] theorem hand_admitted (st : Stream) (n retained : Nat) (st' : Stream) :
    (Collector.admitted st n retained).hand st' = [] := by
  apply Collector.admitted_cases (P := fun c => c.hand st' = [])
  · rfl
  · rfl
  · intro _ hnext
    exact hnext

theorem spawns_admitted (st : Stream) (n retained : Nat) (st' : Stream) :
    (Collector.admitted st n retained).spawns st' = (decide (retained ≠ 0) && st == st') := by
  unfold Collector.admitted
  dsimp only
  by_cases hr : retained = 0
  · simp only [hr, ne_eq, not_true_eq_false, if_false, decide_false, Bool.false_and]
    split <;> rfl
  · simp only [ne_eq, hr, not_false_eq_true, if_true, decide_true, Bool.true_and]
    split <;> rfl

theorem knows_admitted (p : OutputFact) (writes : PerStream Bool) (admissions : List Admission)
    (st : Stream) (n retained : Nat) :
    Knows p writes admissions (.admitted st n retained) := by
  apply Collector.admitted_cases (P := Knows p writes admissions)
  · trivial
  · trivial
  · intro _ hnext
    exact hnext

/-- A read that is retained finds its stream without a worker. -/
theorem writer_none (hi : Inv limit s) {st : Stream} {data : List UInt8}
    (hc : s.collector = .admitting st data) (running : s.policy.firstStop = none)
    (room : s.policy.charge < limit) : s.writers.get st = none ∧ s.writes.get st = false ∧
      s.held.get st = true := by
  have hknows := hi.knows
  rw [hc] at hknows
  cases (hi.accounts st).slot with
  | idle hnone hwrites hheld => exact ⟨hnone, hwrites, hheld⟩
  | queued _ _ _ _ hspawns =>
    have : s.collector.spawns st = true := hspawns
    rw [hc] at this
    cases this
  | running _ _ hwrites =>
    have := hknows.2.writing running hwrites
    rw [hi.limited] at this
    omega
  | lost _ _ _ _ _ _ hwhy =>
    rcases hwhy with hs | hr
    · have : s.policy.firstStop.isSome = true := hs
      rw [running] at this
      cases this
    · have : s.collector.reports st = true := hr
      rw [hc] at this
      cases this

/-- **A read that retains bytes finds its stream's slot empty** and its file in the collector's
hands. -/
theorem admitted_free (hlimit : limit ≤ u64Max) (hi : Inv limit s) {st : Stream} {data : List UInt8}
    (hc : s.collector = .admitting st data) {p : OutputFact} {retained : Nat}
    (h : s.policy.admitRead st data.length = some (p, retained)) (hne : retained ≠ 0) :
    s.policy.firstStop = none ∧ s.writers.get st = none ∧ s.writes.get st = false ∧
      s.held.get st = true := by
  obtain ⟨hretained, -⟩ :=
    admit_eq_some (hi.limited.symm ▸ hi.charge) (hi.limited.symm ▸ hlimit) h
  rw [hi.limited] at hretained
  have hnone : s.policy.firstStop = none := by
    cases hs : s.policy.firstStop with
    | none => rfl
    | some r =>
      rw [hs] at hretained
      exact absurd hretained hne
  rw [hnone] at hretained
  have hmin : retained = min data.length (limit - s.policy.charge) := hretained
  exact ⟨hnone, writer_none hi hc hnone (by omega)⟩

theorem allFull_snoc {admissions : List Admission} {a : Admission} (h : AllFull admissions)
    (ha : a.retained = a.read) : AllFull (admissions ++ [a]) := by
  intro b hb
  rcases List.mem_append.mp hb with hb | hb
  · exact h b hb
  · rw [List.mem_singleton.mp hb]
    exact ha

/-- The log after an admission. -/
theorem admitted_snoc (hi : Inv limit s) {st : Stream} {data : List UInt8} {retained : Nat}
    (hc : s.collector = .admitting st data) {p : OutputFact}
    (hp : Reserved s.policy p st data.length retained)
    (hretained : retained = if s.policy.firstStop.isSome then 0
      else min data.length (limit - s.policy.charge))
    {writers : PerStream (Option Writer)} :
    Admitted limit { s with
      policy := p
      writers := writers
      admissions := s.admissions ++ [⟨st, data.length, retained⟩]
      collector := .admitted st data.length retained } := by
  have hknows := hi.knows
  rw [hc] at hknows
  obtain ⟨hne, hnormal⟩ := hknows
  have hpos : 0 < data.length := List.length_pos_iff.mpr hne
  have hle : retained ≤ data.length := by
    rw [hretained]
    split
    · exact Nat.zero_le _
    · exact Nat.min_le_left _ _
  constructor
  · intro a ha
    rcases List.mem_append.mp ha with ha | ha
    · exact hi.admitted.bounded a ha
    · rw [List.mem_singleton.mp ha]
      exact ⟨hpos, hnormal.size, hle⟩
  · show AllFull (s.admissions ++ [_]).dropLast
    rw [List.dropLast_concat]
    exact hnormal.full
  · intro hq
    have hq : p.firstStop = none := hq
    rw [hp.firstStop] at hq
    split at hq
    · cases hs : s.policy.firstStop <;> rw [hs] at hq <;> cases hq
    · rename_i heq
      have heq := of_not_not heq
      refine ⟨allFull_snoc hnormal.full heq.symm, ?_⟩
      rw [retainedBytes_snoc, (hi.admitted.spared hq).2, hp.charge]
  · rw [retainedBytes_snoc]
    cases hs : s.policy.firstStop with
    | none =>
      have := (hi.admitted.spared hs).2
      have := hi.charge
      rw [hs] at hretained
      have : retained ≤ limit - s.policy.charge := hretained ▸ Nat.min_le_right _ _
      dsimp only
      omega
    | some r =>
      rw [hs] at hretained
      have : retained = 0 := hretained
      have := hi.admitted.sum
      dsimp only
      omega
  · have htotal := hi.admitted.read
    rw [total_hand (.admitted st data.length retained) st data
      (fun st' => by rw [hc]; rfl) (hand_admitted st _ _)] at htotal
    show total (fun st' => (s.read.get st').length) =
      readBytes (s.admissions ++ [⟨st, data.length, retained⟩]) + p.tailRead +
        total (fun st' => ((Collector.admitted st data.length retained).hand st').length)
    rw [readBytes_snoc, hp.tailRead]
    dsimp only
    omega

/-- A worker that was just admitted holds all its data and a pin. -/
theorem admittedWriter_ok (data : List UInt8) : Writer.Ok { data := data } where
  recording := nofun
  settling := nofun
  queued _ := ⟨rfl, rfl⟩

/-- The account of a stream after an admission of its read. -/
theorem Account.Ok.admission {a : Account} (ha : a.Ok) (data : List UInt8) {retained : Nat}
    (reports : Bool) (hspawns : a.spawns = false)
    (hreports : a.reports = false) (hle : retained ≤ a.hand.length)
    (free : retained ≠ 0 → a.writer = none ∧ a.writes = false ∧ a.held = true)
    {stopped : Bool} (hstopped : a.stopped = true → stopped = true)
    (hspared : stopped = false → a.hand.length = retained)
    (hdata : data.length = retained) :
    Ok { a with
      fact := admitted a.fact a.hand.length retained
      stopped := stopped
      writer := if retained ≠ 0 then some { data := data } else a.writer
      hand := []
      spawns := decide (retained ≠ 0)
      reports := reports } where
  reserved := by
    show a.fact.reserved + retained = _
    rw [ha.reserved]
    by_cases hr : retained = 0
    · rw [if_neg (not_not.mpr hr), hr, Nat.add_zero]
    · rw [if_pos hr, (free hr).1]
      show 0 + retained = (data.drop 0).length
      rw [List.drop_zero, hdata, Nat.zero_add]
  read := by
    show a.read.length = a.fact.retained + (a.fact.reserved + retained) +
      (a.fact.discarded + (a.hand.length - retained)) + 0
    rw [ha.read]
    omega
  hand := List.nil_suffix
  stop := ha.stop
  writer w hw := by
    dsimp only at hw
    split at hw
    · cases hw
      exact admittedWriter_ok data
    · exact ha.writer w hw
  marks hb := by
    obtain ⟨hp, heq⟩ : a.fact.prefixComplete = true ∧ a.hand.length = retained := by
      simpa only [admitted, Bool.and_eq_true, beq_iff_eq] using hb
    obtain ⟨hdiscarded, hfault⟩ := ha.marks hp
    refine ⟨?_, hfault⟩
    show a.fact.discarded + (a.hand.length - retained) = 0
    omega
  spared hb := by
    have hno : a.stopped = false := by
      cases hs : a.stopped with
      | false => rfl
      | true => exact absurd ((hstopped hs).symm.trans hb) Bool.noConfusion
    have := ha.spared hno
    have := hspared hb
    show a.fact.discarded + (a.hand.length - retained) = 0
    omega
  slot := by
    by_cases hr : retained = 0
    · refine ha.slot.moved ?_ rfl rfl ?_ hstopped fun h => by rw [hreports] at h; cases h
      · rw [if_neg (not_not.mpr hr)]
        exact .refl _
      · rw [hspawns, hr]
        rfl
    · obtain ⟨_, hwrites, hheld⟩ := free hr
      exact .queued (if_pos hr) rfl hwrites hheld (decide_eq_true hr)

theorem inv_admitted (hlimit : limit ≤ u64Max) (hi : Inv limit s) {st : Stream} {data : List UInt8}
    (hc : s.collector = .admitting st data) {p : OutputFact} {retained : Nat}
    (hadmitted : s.policy.admitRead st data.length = some (p, retained)) : Inv limit { s with
      policy := p
      writers :=
        if retained ≠ 0 then s.writers.set st (some { data := data.take retained })
        else s.writers
      admissions := s.admissions ++ [⟨st, data.length, retained⟩]
      collector := .admitted st data.length retained } := by
  have hcharge : s.policy.charge ≤ s.policy.limit := hi.limited.symm ▸ hi.charge
  obtain ⟨hretained, rfl⟩ := admit_eq_some hcharge (hi.limited.symm ▸ hlimit) hadmitted
  rw [hi.limited] at hretained
  have hp := reserve_reserved s.policy st data.length retained
  have hle : retained ≤ limit - s.policy.charge ∧ retained ≤ data.length := by
    rw [hretained]
    split
    · exact ⟨Nat.zero_le _, Nat.zero_le _⟩
    · exact ⟨Nat.min_le_right _ _, Nat.min_le_left _ _⟩
  have hfree := admitted_free hlimit hi hc hadmitted
  have hhand : ∀ st', s.collector.hand st' = if st' = st then data else [] :=
    fun st' => by rw [hc]; rfl
  have hspawns : ∀ st', s.collector.spawns st' = false := fun st' => by rw [hc]; rfl
  have hreports : ∀ st', s.collector.reports st' = true → False := fun st' hr => by
    rw [hc] at hr
    cases hr
  have hstopped : s.policy.firstStop.isSome = true →
      (s.policy.reserve st data.length retained).firstStop.isSome = true := fun hs => by
    rw [hp.firstStop]
    split
    · cases hq : s.policy.firstStop with
      | none => rfl
      | some r => rfl
    · exact hs
  refine ⟨fun st' => ?_, hp.limit.trans hi.limited, ?_, ?_, hp.tailRead.symm ▸ hi.tailRead,
    knows_admitted _ _ _ _ _ _, admitted_snoc hi hc hp hretained⟩
  · by_cases heq : st' = st
    · subst heq
      have ha := hi.accounts st'
      have hdata : (s.account st').hand = data := by rw [State.account, hhand, if_pos rfl]
      have hspared : (s.policy.reserve st' data.length retained).firstStop.isSome = false →
          (s.account st').hand.length = retained := fun hno => by
        rw [hdata]
        by_contra hne
        rw [hp.firstStop, if_pos hne] at hno
        cases hq : s.policy.firstStop <;> rw [hq] at hno <;> cases hno
      have hok := ha.admission (data.take retained)
        ((Collector.admitted st' data.length retained).reports st') (hspawns st')
        (Bool.eq_false_iff.mpr (hreports st')) (hdata.symm ▸ hle.2)
        (fun hne => (hfree hne).2) hstopped hspared (by rw [List.length_take]; omega)
      refine cast (congrArg Account.Ok ?_) hok
      rw [hdata]
      simp only [State.account, hp.self, hand_admitted, spawns_admitted, beq_self_eq_true,
        Bool.and_true, Account.mk.injEq, true_and, and_true]
      split
      · exact (PerStream.get_set_self _ _ _).symm
      · rfl
    · refine (hi.accounts st').quiet (account_untouched (hp.other st' heq) hstopped rfl rfl rfl ?_
        rfl ?_ ?_ fun hr => (hreports st' hr).elim)
      · dsimp only
        split
        · exact PerStream.get_set_ne _ heq _
        · rfl
      · rw [hhand, if_neg heq]
        exact hand_admitted st _ _ st'
      · rw [hspawns]
        refine (spawns_admitted st _ _ st').trans ?_
        rw [beq_false_of_ne (Ne.symm heq), Bool.and_false]
  · have := hi.charge
    rw [hp.charge]
    omega
  · rw [hp.ioInflight, hi.pins]
    dsimp only
    by_cases hr : retained = 0
    · simp only [hr, ne_eq, not_true_eq_false, if_false, Nat.add_zero]
    · simp only [ne_eq, hr, not_false_eq_true, if_true]
      have htotal := total_change st
        (f := fun st' => writerPins ((s.writers.set st (some { data := data.take retained })).get st'))
        (g := fun st' => writerPins (s.writers.get st'))
        fun st' hne => by rw [PerStream.get_set_ne _ hne]
      simp only [PerStream.get_set_self, (hfree hr).2.1] at htotal
      have hold : writerPins none = 0 := rfl
      have hnew : writerPins (some { data := data.take retained }) = 1 := rfl
      omega

/-! ### The write tasks -/

/-- A write task is joined where a worker has the file. -/
theorem joining_running (hi : Inv limit s) {st : Stream} {w : Writer}
    (joins : s.writes.get st = true) (worker : s.writers.get st = some w) :
    s.held.get st = false ∧ w.stage ≠ .queued := by
  cases (hi.accounts st).slot with
  | idle hnone =>
    have : s.writers.get st = none := hnone
    rw [worker] at this
    cases this
  | queued _ _ hno =>
    have : s.writes.get st = false := hno
    rw [joins] at this
    cases this
  | running hsome hstage _ hheld =>
    have : s.writers.get st = some _ := hsome
    rw [worker] at this
    cases this
    exact ⟨hheld, hstage⟩
  | lost _ _ _ hno =>
    have : s.writes.get st = false := hno
    rw [joins] at this
    cases this

/-- A lost worker keeps its file and its reservation. -/
theorem inv_lost (hi : Inv limit s) {turn : Turn} (hc : s.collector = .select turn) {st : Stream}
    {w : Writer} (joins : s.writes.get st = true) (worker : s.writers.get st = some w)
    (lost : w.lost = true) : Inv limit { s with
      writes := s.writes.set st false
      collector := .calling (.storageFault st .workerLost) .top } := by
  have hidle : s.collector.idle = true := by rw [hc]; rfl
  have hclear := Collector.of_idle hidle
  obtain ⟨hheld, hstage⟩ := joining_running hi joins worker
  refine hi.steady (.refl _) (fun st' => ?_) hi.pins trivial rfl rfl fun st' => (hclear st').1.symm
  by_cases heq : st' = st
  · subst heq
    have ha := hi.accounts st'
    exact { ha with
      read := account_read hi hidle st'
      hand := List.nil_suffix
      slot := .lost worker hstage lost (PerStream.get_set_self _ _ _) hheld rfl
        (.inr (beq_self_eq_true st')) }
  · refine (hi.accounts st').quiet (account_untouched rfl id rfl (PerStream.get_set_ne _ heq _) rfl
      rfl rfl (hclear st').1.symm (hclear st').2.1.symm fun hr => ?_)
    rw [(hclear st').2.2] at hr
    cases hr

/-- A worker that has finished gives the file back. -/
theorem inv_joined (hi : Inv limit s) {turn : Turn} (hc : s.collector = .select turn) {st : Stream}
    {w : Writer} (worker : s.writers.get st = some w) (finished : w.stage = .finished) :
    Inv limit { s with
      writes := s.writes.set st false
      held := s.held.set st true
      writers := s.writers.set st none
      collector := .top } := by
  have hidle : s.collector.idle = true := by rw [hc]; rfl
  have hclear := Collector.of_idle hidle
  have hrest : w.rest = [] := by rw [Writer.rest, finished]
  refine hi.steady (.refl _) (fun st' => ?_) ?_ trivial rfl rfl fun st' => (hclear st').1.symm
  · by_cases heq : st' = st
    · subst heq
      have ha := hi.accounts st'
      exact { ha with
        reserved := by
          show (s.policy.streams.get st').reserved =
            outstanding ((s.writers.set st' none).get st')
          rw [PerStream.get_set_self]
          refine ha.reserved.trans ?_
          show outstanding (s.writers.get st') = 0
          rw [worker]
          exact congrArg List.length hrest
        read := account_read hi hidle st'
        hand := List.nil_suffix
        writer := fun w hsome => by
          have : (s.writers.set st' none).get st' = some w := hsome
          rw [PerStream.get_set_self] at this
          cases this
        slot := .idle (PerStream.get_set_self _ _ _) (PerStream.get_set_self _ _ _)
          (PerStream.get_set_self _ _ _) rfl }
    · refine (hi.accounts st').quiet (account_untouched rfl id rfl (PerStream.get_set_ne _ heq _)
        (PerStream.get_set_ne _ heq _) (PerStream.get_set_ne _ heq _) rfl (hclear st').1.symm
        (hclear st').2.1.symm fun hr => ?_)
      rw [(hclear st').2.2] at hr
      cases hr
  · have htotal := total_pins s.writers st none
    have hold : writerPins (s.writers.get st) = 0 := by
      rw [worker]
      show w.pins = 0
      rw [Writer.pins, finished]
    have hnone : writerPins none = 0 := rfl
    have hpins := hi.pins
    show s.policy.ioInflight =
      total (fun st' => writerPins ((s.writers.set st none).get st')) + replayPins s.replay
    omega

/-- A write about to be spawned has not started, and its file is in the collector's hands. -/
theorem spawning_queued (hi : Inv limit s) {st : Stream} (hc : s.collector = .spawning st) :
    ∃ w, s.writers.get st = some w ∧ w.stage = .queued ∧ s.held.get st = true := by
  refine (hi.accounts st).slot.spawning ?_
  show s.collector.spawns st = true
  rw [hc]
  exact beq_self_eq_true st

theorem inv_spawned (hi : Inv limit s) {st : Stream} {w : Writer} (hc : s.collector = .spawning st)
    (hw : s.writers.get st = some w) : Inv limit { s with
      held := s.held.set st false
      writes := s.writes.set st true
      writers := s.writers.set st (some { w with stage := .writing })
      collector := .top } := by
  have hhand : ∀ st', s.collector.hand st' = [] := fun st' => by rw [hc]; rfl
  have hreports : ∀ st', s.collector.reports st' = true → False := fun st' hr => by
    rw [hc] at hr
    cases hr
  obtain ⟨w', hw', hqueued, -⟩ := spawning_queued hi hc
  rw [hw] at hw'
  cases hw'
  have hrest : ({ w with stage := .writing } : Writer).rest = w.rest := by
    simp only [Writer.rest, hqueued]
  refine hi.steady (.refl _) (fun st' => ?_) ?_ trivial rfl rfl fun st' => (hhand st').symm
  · by_cases heq : st' = st
    · subst heq
      have ha := hi.accounts st'
      exact { ha with
        reserved := by
          show (s.policy.streams.get st').reserved = outstanding ((s.writers.set st' _).get st')
          rw [PerStream.get_set_self]
          refine ha.reserved.trans ?_
          show outstanding (s.writers.get st') = _
          rw [hw]
          exact congrArg List.length hrest.symm
        read := by
          have := ha.read
          rw [show (s.account st').hand = [] from hhand st'] at this
          exact this
        hand := List.nil_suffix
        writer := fun w' hsome => by
          have : (s.writers.set st' _).get st' = some w' := hsome
          rw [PerStream.get_set_self] at this
          cases this
          exact ⟨nofun, nofun, nofun⟩
        slot := .running (PerStream.get_set_self _ _ _) nofun (PerStream.get_set_self _ _ _)
          (PerStream.get_set_self _ _ _) rfl }
    · refine (hi.accounts st').quiet (account_untouched rfl id rfl
        (PerStream.get_set_ne _ heq _) (PerStream.get_set_ne _ heq _)
        (PerStream.get_set_ne _ heq _) rfl (hhand st').symm ?_ fun hr => (hreports st' hr).elim)
      show false = s.collector.spawns st'
      rw [hc]
      exact (beq_false_of_ne (Ne.symm heq)).symm
  · have htotal := total_pins s.writers st (some { w with stage := .writing })
    have hold : writerPins (s.writers.get st) = 1 := by
      rw [hw]
      show w.pins = 1
      rw [Writer.pins, hqueued]
    have hnew : writerPins (some { w with stage := .writing }) = 1 := rfl
    have hpins := hi.pins
    show s.policy.ioInflight =
      total (fun st' => writerPins ((s.writers.set st _).get st')) + replayPins s.replay
    omega

/-- The collector keeps the books in order. -/
theorem inv_collectorMoved (hlimit : limit ≤ u64Max) (hi : Inv limit s) {act : CollectorAct}
    (h : CollectorMoved s act t) : Inv limit t := by
  have hafter : ∀ st p, (Collector.afterSetup st).idle = true ∧
      Knows p s.writes s.admissions (.afterSetup st) := fun st p => by
    cases st <;> exact ⟨rfl, trivial⟩
  cases h with
  | @called call next clock stage => exact inv_call hi stage clock
  | @present st stage pipe =>
    exact inv_goto hi (.refl _) (by rw [stage]; rfl) (hafter st s.policy).1 (hafter st s.policy).2
  | @missing st stage pipe =>
    exact inv_goto hi (quiet_missingPipe _ st) (by rw [stage]; rfl) (hafter st s.policy).1
      (hafter st _).2
  | enabled stage =>
    exact (inv_goto hi (c := .snapshot) (.refl _) (by rw [stage]; rfl) rfl trivial).same
      ⟨rfl, rfl, rfl, rfl, rfl, rfl, rfl, rfl, rfl⟩
  | returned stage collected joined =>
    exact inv_goto hi (.refl _) (by rw [stage]; rfl) rfl trivial
  | snapshot stage opened =>
    exact inv_goto hi (.refl _) (by rw [stage]; rfl) rfl (snapshot_fact hi)
  | looked stage h => exact inv_looked hlimit hi stage h
  | @closed cause stage =>
    exact inv_goto hi (quiet_closeCollection _ cause) (by rw [stage]; rfl) rfl trivial
  | lost stage joins worker lost => exact inv_lost hi stage joins worker lost
  | joined stage joins worker live finished => exact inv_joined hi stage worker finished
  | woken stage source => exact inv_goto hi (.refl _) (by rw [stage]; rfl) rfl trivial
  | read stage enabled fits => exact inv_read hi stage enabled fits
  | readError stage enabled => exact inv_goto hi (.refl _) (by rw [stage]; rfl) rfl trivial
  | observed stage => exact inv_observe hi stage
  | admitted stage accepted => exact inv_admitted hlimit hi stage accepted
  | spawned stage file worker => exact inv_spawned hi stage worker

end Pipekeep.Bounds
