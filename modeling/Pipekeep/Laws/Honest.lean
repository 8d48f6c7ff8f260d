import Pipekeep.Laws.Budget
import Pipekeep.Laws.Relay
import Pipekeep.Laws.View
import Pipekeep.Lib.Parties
import Pipekeep.Serde

/-!
# An honest broker is never rejected

The frontend's validator was written apart from the sections that change the fact. `Fits` is what
it asks of a snapshot, and every snapshot of a reachable state has it (`fits_fact`). `Serves` is
what a sender keeps to between its snapshot and its frames; with it the relay's checks pass on all
it has sent.
-/

namespace Pipekeep

/-! ## Valid facts -/

namespace OutputFact

/-- What makes a fact valid. -/
theorem validate_ok {p : OutputFact} {terminal : Bool} (hlimit : p.limit ≤ i64Max)
    (hcharge : p.charge ≤ p.limit) (htail : p.tailRead ≤ tailBytes) (hpins : p.ioInflight ≤ 3)
    (hexit : ∀ e, p.leaderExit = some e → e.validate = .ok ())
    (hmarks : ∀ st, (p.streams.get st).prefixComplete = true →
      (p.streams.get st).collection = .eof ∧ (p.streams.get st).reserved = 0 ∧ p.ioInflight = 0 ∧
        (p.streams.get st).discarded = 0 ∧ (p.streams.get st).storageFault = none)
    (hterminal : terminal = true → p.collected = true ∧ p.sealed = true ∧ p.ioInflight = 0 ∧
      ∀ st, (p.streams.get st).reserved = 0) : p.validate terminal = .ok () := by
  have hcharged : p.charged = some p.charge :=
    charged_eq (Nat.le_trans hcharge (Nat.le_trans hlimit (by decide)))
  have hstream : ∀ st, p.validateStream (p.streams.get st) = .ok () := fun st => by
    refine if_neg fun h => ?_
    obtain ⟨hmark, hopen⟩ := (Bool.and_eq_true _ _).mp h
    obtain ⟨hcollection, hreserved, hio, hdiscarded, hfault⟩ := hmarks st hmark
    rw [hcollection, hreserved, hio, hdiscarded, hfault] at hopen
    cases hopen
  have hleader : p.leaderExit.elim (.ok ()) ExitResult.validate = .ok () := by
    cases he : p.leaderExit with
    | none => rfl
    | some e => exact hexit e he
  have hbounds : ¬(decide (p.limit > i64Max) || decide (p.charge > p.limit) ||
      decide (p.tailRead > tailBytes) || decide (p.ioInflight > 3)) = true := by
    simp only [Bool.or_eq_true, decide_eq_true_eq]
    omega
  have hend : ¬(terminal && (!p.collected || !p.sealed || p.ioInflight != 0 ||
      p.streams.stdout.reserved != 0 || p.streams.stderr.reserved != 0)) = true := fun h => by
    obtain ⟨hterm, hopen⟩ := (Bool.and_eq_true _ _).mp h
    obtain ⟨hcollected, hsealed, hio, hreserved⟩ := hterminal hterm
    have hout : p.streams.stdout.reserved = 0 := hreserved .stdout
    have herr : p.streams.stderr.reserved = 0 := hreserved .stderr
    rw [hcollected, hsealed, hio, hout, herr] at hopen
    cases hopen
  unfold validate
  rw [hcharged]
  show (if _ then _ else _) = _
  rw [if_neg hbounds, hleader]
  show (p.validateStream (p.streams.get .stdout)).bind _ = _
  rw [hstream]
  show (p.validateStream (p.streams.get .stderr)).bind _ = _
  rw [hstream]
  exact if_neg hend

end OutputFact

namespace Bounds

open OutputFact

variable {limit : Nat} {s t : State}

/-- A fact that the frontend accepts, in an opening or a progress frame, and in a replay end once
nothing is open. -/
structure Fits (limit : Nat) (p : OutputFact) : Prop where
  limit : p.limit = limit
  progress : p.validate false = .ok ()
  terminal : p.collected = true → p.ioInflight = 0 → p.validate true = .ok ()
  length : p.toJson.length ≤ 4096

/-- The exit that was recorded is a code or a signal. -/
def StatusOk (s : State) : Prop := ∀ e, s.metadata.status = some e → e.validate = .ok ()

/-- No bytes are lost without a trace: what was discarded was read. -/
theorem discarded_le (hi : Inv limit s) (st : Stream) :
    (s.policy.streams.get st).discarded ≤ limit + readSize + tailBytes := by
  have hread : ∀ st, (s.policy.streams.get st).discarded + (s.collector.hand st).length ≤
      (s.read.get st).length := fun st => by
    have := (hi.accounts st).read
    have : (s.read.get st).length = (s.policy.streams.get st).retained +
      (s.policy.streams.get st).reserved + (s.policy.streams.get st).discarded +
        (s.collector.hand st).length := this
    omega
  have hout := hread .stdout
  have herr := hread .stderr
  have htotal := hi.admitted.read
  have hbytes := readBytes_le hi.admitted.full fun a ha => (hi.admitted.bounded a ha).2.1
  have hsum := hi.admitted.sum
  have htail := hi.tailRead
  simp only [total] at htotal
  cases st <;> omega

/-- Nothing is reserved while nothing holds a pin. -/
theorem reserved_of_unpinned (hi : Inv limit s) (hio : s.policy.ioInflight = 0) (st : Stream) :
    (s.policy.streams.get st).reserved = 0 := by
  have hreserved : (s.policy.streams.get st).reserved = outstanding (s.writers.get st) :=
    (hi.accounts st).reserved
  have hpins := hi.pins
  have hle := le_total (fun st => writerPins (s.writers.get st)) st
  rw [hreserved]
  cases hw : s.writers.get st with
  | none => rfl
  | some w =>
    have hzero : w.pins = 0 := by
      rw [hw] at hle
      have : w.pins ≤ total fun st => writerPins (s.writers.get st) := hle
      omega
    show w.rest.length = 0
    unfold Writer.pins at hzero
    unfold Writer.rest
    split at hzero
    · rename_i hstage
      rw [hstage]
      rfl
    · rename_i hstage
      rw [hstage]
      rfl
    · cases hzero

/-- **Every snapshot of a reachable state fits.** -/
theorem fits_fact (hlimit : limit ≤ i64Max) (hi : Inv limit s) (hstatus : StatusOk s) :
    Fits limit s.fact := by
  have hmax : i64Max ≤ u64Max := by decide
  have hamounts : ∀ st, (s.fact.streams.get st).retained = (s.policy.streams.get st).retained ∧
      (s.fact.streams.get st).reserved = (s.policy.streams.get st).reserved ∧
      (s.fact.streams.get st).discarded = (s.policy.streams.get st).discarded ∧
      (s.fact.streams.get st).collection = (s.policy.streams.get st).collection ∧
      (s.fact.streams.get st).storageFault = (s.policy.streams.get st).storageFault :=
    fact_amounts s.policy s.metadata s.operation.cancellation
  have hcharge : s.fact.charge ≤ limit := by
    show (s.policy.fact _ _).charge ≤ limit
    rw [fact_charge]
    exact hi.charge
  have hpaid : ∀ st, s.policy.paid st ≤ limit := fun st =>
    Nat.le_trans (le_total s.policy.paid st) hi.charge
  have hbound : s.fact.limit ≤ i64Max := by
    show s.policy.limit ≤ i64Max
    rw [hi.limited]
    exact hlimit
  have hmarks : ∀ st, (s.fact.streams.get st).prefixComplete = true →
      (s.fact.streams.get st).collection = .eof ∧ (s.fact.streams.get st).reserved = 0 ∧
        s.fact.ioInflight = 0 ∧ (s.fact.streams.get st).discarded = 0 ∧
          (s.fact.streams.get st).storageFault = none := fun st hp => by
    have hp' : ((s.policy.streams.get st).prefixComplete &&
        ((s.policy.streams.get st).collection == .eof &&
          (s.policy.streams.get st).reserved == 0 && s.policy.ioInflight == 0)) = true := by
      cases st <;> exact hp
    simp only [Bool.and_eq_true, beq_iff_eq] at hp'
    obtain ⟨hmark, ⟨hcollection, hreserved⟩, hio⟩ := hp'
    obtain ⟨hdiscarded, hfault⟩ := (hi.accounts st).marks hmark
    obtain ⟨-, hr, hd, hc, hf⟩ := hamounts st
    exact ⟨hc.trans hcollection, hr.trans hreserved, hio, hd.trans hdiscarded, hf.trans hfault⟩
  have valid : ∀ terminal, (terminal = true → s.fact.collected = true ∧ s.fact.sealed = true ∧
      s.fact.ioInflight = 0 ∧ ∀ st, (s.fact.streams.get st).reserved = 0) →
      s.fact.validate terminal = .ok () := fun terminal =>
    validate_ok hbound (Nat.le_trans hcharge (Nat.le_of_eq hi.limited.symm)) hi.tailRead
      hi.accounted.ioInflight hstatus hmarks
  refine ⟨hi.limited, valid false fun h => (by cases h), fun hcollected hio => ?_, ?_⟩
  · refine valid true fun _ => ⟨hcollected, ?_, hio, fun st => ?_⟩
    · show (s.policy.ioInflight == 0 && (s.policy.firstStop.isSome || s.policy.collected)) = true
      have hsame : s.policy.collected = true := hcollected
      have hzero : s.policy.ioInflight = 0 := hio
      rw [hsame, hzero, Bool.or_true]
      rfl
    · rw [(hamounts st).2.1]
      exact reserved_of_unpinned hi hio st
  · refine Typed.length_toJson_le ⟨Nat.le_trans hbound hmax, fun st => ?_, fun st => ?_,
      fun st => ?_, ?_, ?_, hstatus⟩
    · rw [(hamounts st).1]
      have := hpaid st
      unfold paid at this
      omega
    · rw [(hamounts st).2.1]
      have := hpaid st
      unfold paid at this
      omega
    · rw [(hamounts st).2.2.1]
      have := discarded_le hi st
      have hsum : i64Max + readSize + tailBytes ≤ u64Max := by decide
      omega
    · exact Nat.le_trans hi.accounted.ioInflight (by decide)
    · exact Nat.le_trans hi.tailRead (by decide)

/-! ## What a sender keeps to -/

/-- How the frontend relays an attachment, once it has its opening. -/
def Sender.relayMode (sender : Sender) : RelayMode where
  framed := true
  outputBounded := true
  outputLimit := some sender.hello.limit

/-- Where the frontend's relay starts: at the offsets of the opening. -/
def Sender.relayStart (sender : Sender) : RelayPositions where
  stdin := sender.acknowledgements.opening
  output := sender.opening

/-- A frame of an honest broker. -/
def HonestFrame (limit : Nat) : Frame → Prop
  | .stdoutData offset data | .stderrData offset data =>
    offset + data.length ≤ u64Max ∧ data.length ≤ chunkSize
  | .stdinPosition offset => offset ≤ u64Max
  | .outputState p => Fits limit p
  | .outputEnd p => Fits limit p ∧ p.collected = true ∧ p.ioInflight = 0
  | _ => False

/-- What a stage holds, over the published ends and the sender's positions. -/
def StageOk (limit : Nat) (stops position : PerStream Nat) : SenderStage → Prop
  | .report p | .receipt p | .choose p => Fits limit p ∧ ∀ st,
    position.get st ≤ (p.streams.get st).retained ∧ (p.streams.get st).retained ≤ stops.get st
  | .gate st stop => position.get st ≤ stop ∧ stop ≤ stops.get st
  | .replayed st (.ok data) =>
    position.get st + data.length ≤ stops.get st ∧ data.length ≤ chunkSize
  | .ending p => Fits limit p ∧ ∀ st, (p.streams.get st).retained = position.get st
  | .emitting p => (Fits limit p ∧ ∀ st, (p.streams.get st).retained = position.get st) ∧
    p.collected = true ∧ p.ioInflight = 0
  | _ => True

/-- What a stage holds it still holds when more is published. -/
theorem StageOk.mono {stops stops' position : PerStream Nat} {stage : SenderStage}
    (h : StageOk limit stops position stage) (hle : ∀ st, stops.get st ≤ stops'.get st) :
    StageOk limit stops' position stage := by
  cases stage with
  | report p => exact ⟨h.1, fun st => ⟨(h.2 st).1, Nat.le_trans (h.2 st).2 (hle st)⟩⟩
  | receipt p => exact ⟨h.1, fun st => ⟨(h.2 st).1, Nat.le_trans (h.2 st).2 (hle st)⟩⟩
  | choose p => exact ⟨h.1, fun st => ⟨(h.2 st).1, Nat.le_trans (h.2 st).2 (hle st)⟩⟩
  | gate st stop => exact ⟨h.1, Nat.le_trans h.2 (hle st)⟩
  | replayed st result =>
    cases result with
    | error fault => trivial
    | ok data => exact ⟨Nat.le_trans h.1 (hle st), h.2⟩
  | _ => exact h

/-- What a sender keeps to. -/
structure Serves (limit : Nat) (stops : PerStream Nat) (sender : Sender) : Prop where
  hello : Fits limit sender.hello
  behind : ∀ st, sender.position.get st ≤ stops.get st
  stage : StageOk limit stops sender.position sender.stage
  receipt : sender.acknowledgements.latest ≤ u64Max
  checked : ∃ q, sender.relayStart.checks sender.relayMode sender.frames = .ok q ∧
    q.output = sender.position ∧ q.stdin ≤ sender.acknowledgements.latest
  sound : ∀ f ∈ sender.frames, HonestFrame limit f
  last : (∀ f ∈ sender.frames, f.returns = none) ∨
    sender.stage = .done ∧ ReturnsLast sender.frames

section Senders

variable {stops : PerStream Nat} {sender sender' : Sender}

/-- What a sender keeps to it still keeps to when more is published. -/
theorem Serves.mono {stops' : PerStream Nat} (h : Serves limit stops sender)
    (hle : ∀ st, stops.get st ≤ stops'.get st) : Serves limit stops' sender :=
  { h with
    behind := fun st => Nat.le_trans (h.behind st) (hle st)
    stage := h.stage.mono hle }

/-- A sender that is not done has not returned its reader. -/
theorem Serves.live (h : Serves limit stops sender) (hstage : sender.stage ≠ .done) :
    ∀ f ∈ sender.frames, f.returns = none := by
  rcases h.last with hlive | ⟨hdone, -⟩
  · exact hlive
  · exact absurd hdone hstage

/-- The next stage, without a frame. -/
theorem Serves.goto (h : Serves limit stops sender) (hlive : sender.stage ≠ .done)
    {stage : SenderStage} (hstage : StageOk limit stops sender.position stage) :
    Serves limit stops { sender with stage := stage } :=
  ⟨h.hello, h.behind, hstage, h.receipt, h.checked, h.sound, .inl (h.live hlive)⟩

/-- The next stage, with a frame that the relay checks where it stands. -/
theorem Serves.send (h : Serves limit stops sender) (hlive : sender.stage ≠ .done) {f : Frame}
    (hello : sender'.hello = sender.hello) (start : sender'.relayStart = sender.relayStart)
    (frames : sender'.frames = sender.frames ++ [f]) (sound : HonestFrame limit f)
    (behind : ∀ st, sender'.position.get st ≤ stops.get st)
    (stage : StageOk limit stops sender'.position sender'.stage)
    (receipt : sender'.acknowledgements.latest ≤ u64Max)
    (check : ∀ q : RelayPositions, q.output = sender.position →
      q.stdin ≤ sender.acknowledgements.latest → ∃ r, q.check sender.relayMode f = .ok r ∧
        r.output = sender'.position ∧ r.stdin ≤ sender'.acknowledgements.latest)
    (returns : f.returns.isSome = true → sender'.stage = .done) : Serves limit stops sender' := by
  have hmode : sender'.relayMode = sender.relayMode := by
    rw [Sender.relayMode, hello, Sender.relayMode]
  obtain ⟨q, hq, hposition, hstdin⟩ := h.checked
  obtain ⟨r, hr, hrest⟩ := check q hposition hstdin
  refine ⟨hello ▸ h.hello, behind, stage, receipt, ⟨r, ?_, hrest⟩, ?_, ?_⟩
  · rw [start, hmode, frames]
    exact RelayPositions.checks_snoc hq hr
  · intro g hg
    rw [frames] at hg
    rcases List.mem_append.mp hg with hg | hg
    · exact h.sound g hg
    · exact List.mem_singleton.mp hg ▸ sound
  · cases hf : f.returns with
    | none =>
      left
      intro g hg
      rw [frames] at hg
      rcases List.mem_append.mp hg with hg | hg
      · exact h.live hlive g hg
      · exact List.mem_singleton.mp hg ▸ hf
    | some code =>
      right
      refine ⟨returns (by rw [hf]; rfl), fun before g after heq hg => ?_⟩
      rw [frames] at heq
      rcases List.eq_nil_or_concat after with rfl | ⟨after, f', rfl⟩
      · rfl
      · -- A frame before the last one does not return.
        rw [List.concat_eq_append, ← List.cons_append, ← List.append_assoc] at heq
        have hmem : g ∈ sender.frames := by
          rw [(List.append_inj' heq rfl).1]
          exact List.mem_append_right _ List.mem_cons_self
        rw [h.live hlive g hmem] at hg
        cases hg

/-- Where no stream has bytes to replay, both are replayed to their ends. -/
theorem stream_eq_none {p : OutputFact} (h : sender.stream p = none)
    (hle : ∀ st, sender.position.get st ≤ (p.streams.get st).retained) (st : Stream) :
    (p.streams.get st).retained = sender.position.get st := by
  have hout : sender.position.stdout ≤ p.streams.stdout.retained := hle .stdout
  have herr : sender.position.stderr ≤ p.streams.stderr.retained := hle .stderr
  unfold Sender.stream at h
  dsimp only at h
  split at h
  · cases h
  · rename_i hfirst
    split at h
    · cases h
    · rename_i hsecond
      have hsame : sender.position.stderr = p.streams.stderr.retained := by omega
      have : ¬sender.position.stdout < p.streams.stdout.retained :=
        fun hlt => hfirst ⟨hlt, .inr hsame⟩
      cases st with
      | stdout => exact Nat.le_antisymm (Nat.not_lt.mp this) hout
      | stderr => exact hsame.symm

/-- A receipt is published up to a position that has its eight bytes. -/
theorem Serves.publish (h : Serves limit stops sender) {position : Nat} (hle : position ≤ u64Max) :
    Serves limit stops
      { sender with acknowledgements := sender.acknowledgements.publish position } := by
  refine ⟨h.hello, h.behind, h.stage, ?_, ?_, h.sound, h.last⟩
  · show (sender.acknowledgements.publish position).latest ≤ u64Max
    rw [Stdin.Receipts.publish_latest]
    exact Nat.max_le.mpr ⟨h.receipt, hle⟩
  · obtain ⟨q, hq, hposition, hstdin⟩ := h.checked
    refine ⟨q, ?_, hposition, ?_⟩
    · show RelayPositions.checks _ ⟨(sender.acknowledgements.publish position).opening,
        sender.opening⟩ _ = _
      rw [Stdin.Receipts.publish_opening]
      exact hq
    · show q.stdin ≤ (sender.acknowledgements.publish position).latest
      rw [Stdin.Receipts.publish_latest]
      exact Nat.le_trans hstdin (Nat.le_max_left _ _)

end Senders

/-- What the running replay keeps to: it stays within the published end, and its sender, if it still
waits, waits where the replay started. -/
structure Replays (s : State) (r : Replay) : Prop where
  start : r.offset ≤ r.stop
  stop : r.stop ≤ s.metadata.ends.get r.st
  data : ∀ data, r.stage.data = some data → data.length ≤ min (r.stop - r.offset) chunkSize
  sender : ∀ sender st, s.senders r.generation = some sender → sender.stage = .replaying st →
    st = r.st ∧ sender.position.get st = r.offset

/-- The senders and the replay keep to their parts. -/
structure Served (limit : Nat) (s : State) : Prop where
  status : StatusOk s
  senders : ∀ g sender, s.senders g = some sender → Serves limit s.metadata.ends sender
  replay : ∀ r, s.replay = some r → Replays s r

/-! ## The steps of a sender -/

/-- One sender changes, and waits for the replay only if it did. -/
theorem Served.setSender (hs : Served limit s) {g : Nat} {sender' : Sender}
    (metadata : t.metadata = s.metadata)
    (senders : t.senders = Function.update s.senders g (some sender'))
    (replay : t.replay = s.replay) (serves : Serves limit s.metadata.ends sender')
    (waits : ∀ st, sender'.stage = .replaying st → ∃ sender, s.senders g = some sender ∧
      sender.stage = .replaying st ∧ sender.position = sender'.position) : Served limit t := by
  refine ⟨?_, ?_, fun r hr => ?_⟩
  · unfold StatusOk
    rw [metadata]
    exact hs.status
  · rw [metadata, senders]
    apply Parties.forall_update_some
    · exact serves
    · intro g' sender _ hg
      exact hs.senders g' sender hg
  · rw [replay] at hr
    have hreplay := hs.replay r hr
    refine ⟨hreplay.start, metadata ▸ hreplay.stop, hreplay.data, fun sender st hg hstage => ?_⟩
    rw [senders] at hg
    by_cases heq : r.generation = g
    · rw [heq, Function.update_self] at hg
      cases hg
      obtain ⟨old, hold, holdstage, hposition⟩ := waits st hstage
      rw [← hposition]
      exact hreplay.sender old st (heq ▸ hold) holdstage
    · rw [Function.update_of_ne heq] at hg
      exact hreplay.sender sender st hg hstage

/-- The published ends are what is retained, within the limit. -/
theorem stops_eq (hi : Inv limit s) (st : Stream) :
    s.metadata.ends.get st = (s.policy.streams.get st).retained ∧
      s.metadata.ends.get st ≤ limit := by
  have hstop : s.metadata.ends.get st = (s.policy.streams.get st).retained := (hi.accounts st).stop
  have hpaid := Nat.le_trans (le_total s.policy.paid st) hi.charge
  unfold paid at hpaid
  exact ⟨hstop, by omega⟩

/-- **A sender's own step** keeps every sender to its promises. -/
theorem served_senderMoved (hlimit : limit ≤ i64Max) (hi : Inv limit s) (hs : Served limit s)
    {g : Nat} {sender : Sender} {act : SenderAct} (hg : s.senders g = some sender)
    (h : SenderMoved s g sender act t) : Served limit t := by
  have hserves := hs.senders g sender hg
  have hu64 : ∀ st, s.metadata.ends.get st ≤ u64Max := fun st =>
    Nat.le_trans (stops_eq hi st).2 (Nat.le_trans hlimit (by decide))
  have live : ∀ {stage}, sender.stage = stage → stage ≠ .done → sender.stage ≠ .done :=
    fun hstage hne hdone => hne (hstage.symm.trans hdone)
  have known : ∀ {stage}, sender.stage = stage →
      StageOk limit s.metadata.ends sender.position stage := fun hstage => hstage ▸ hserves.stage
  have change : ∀ sender' : Sender, Serves limit s.metadata.ends sender' →
      (∀ st, sender'.stage ≠ .replaying st) → Served limit (s.setSender g sender') :=
    fun sender' hserves' hno => hs.setSender rfl rfl rfl hserves' fun st hst => absurd hst (hno st)
  have goto : ∀ stage, sender.stage ≠ .done → StageOk limit s.metadata.ends sender.position stage →
      (∀ st, stage ≠ .replaying st) → Served limit (s.setSender g { sender with stage := stage }) :=
    fun stage hlive hok hno => change _ (hserves.goto hlive hok) hno
  cases h with
  | turn stage current =>
    exact goto .snapshot (live stage (by cases ·)) trivial (by intro _ h; cases h)
  | displaced stage superseded =>
    exact goto .done (live stage (by cases ·)) trivial (by intro _ h; cases h)
  | snapshot stage =>
    have hlive := hserves.live (live stage (by cases ·))
    refine change _ ⟨hserves.hello, hserves.behind, ⟨fits_fact hlimit hi hs.status, fun st => ?_⟩,
      hserves.receipt, hserves.checked, hserves.sound, .inl hlive⟩ (by intro _ h; cases h)
    have hretained : (s.fact.streams.get st).retained = s.metadata.ends.get st :=
      (fact_amounts _ _ _ st).1.trans (stops_eq hi st).1.symm
    rw [hretained]
    exact ⟨hserves.behind st, Nat.le_refl _⟩
  | @unchanged p stage same =>
    have hok := known stage
    exact goto (.receipt p) (live stage (by cases ·)) hok (by intro _ h; cases h)
  | @reported p stage changed =>
    have hok := known stage
    refine change _ (hserves.send (live stage (by cases ·)) (f := .outputState p) rfl rfl rfl hok.1
      hserves.behind hok hserves.receipt (fun q hq hle => ⟨q, ?_, hq, hle⟩) (by intro h; cases h))
      (by intro _ h; cases h)
    refine RelayPositions.check_outputState.mpr ⟨?_, rfl⟩
    rw [hok.1.limit, Sender.relayMode, hserves.hello.limit]
  | @receipt p stage changed =>
    have hok := known stage
    have hlatest := sender.acknowledgements.take_latest
    refine change _ (hserves.send (live stage (by cases ·))
      (f := .stdinPosition sender.acknowledgements.latest) rfl ?_ rfl hserves.receipt hserves.behind
      hok ?_ (fun q hq hle => ⟨_, RelayPositions.check_stdinPosition.mpr ⟨hle, rfl⟩, hq,
        Nat.le_of_eq hlatest.symm⟩) (by intro h; cases h)) (by intro _ h; cases h)
    · rw [Sender.relayStart, Sender.relayStart, Stdin.Receipts.take_opening]
    · rw [hlatest]
      exact hserves.receipt
  | @noReceipt p stage seen =>
    have hok := known stage
    exact goto (.choose p) (live stage (by cases ·)) hok (by intro _ h; cases h)
  | @chosen p st stage stream =>
    exact goto (.gate st (p.streams.get st).retained) (live stage (by cases ·))
      ((known stage).2 st) (by intro _ h; cases h)
  | @drained p stage stream =>
    have hok := known stage
    exact goto (.ending p) (live stage (by cases ·))
      ⟨hok.1, stream_eq_none stream fun st => (hok.2 st).1⟩ (by intro _ h; cases h)
  | @replaying st stop stage free =>
    have hok := known stage
    refine ⟨hs.status, ?_, fun r hr => ?_⟩
    · apply Parties.forall_update_some
      · exact hserves.goto (live stage (by cases ·)) trivial
      · intro g' sender' _ hg'
        exact hs.senders g' sender' hg'
    · cases hr
      refine ⟨hok.1, hok.2, fun data hd => (by cases hd), fun sender' st' hg' hst' => ?_⟩
      have hg'' : Function.update s.senders g (some { sender with stage := .replaying st }) g =
          some sender' := hg'
      rw [Function.update_self] at hg''
      cases hg''
      cases hst'
      exact ⟨rfl, rfl⟩
  | faulted stage => exact goto .done (live stage (by cases ·)) trivial (by intro _ h; cases h)
  | @emitted st data stage current =>
    have hok := known stage
    refine change _ (hserves.send (live stage (by cases ·))
      (f := .outputData st (sender.position.get st) data) rfl rfl rfl ?_ (fun st' => ?_) trivial
      hserves.receipt (fun q hq hle => ?_) ?_) (by intro _ h; cases h)
    · have := Nat.le_trans hok.1 (hu64 st)
      cases st <;> exact ⟨this, hok.2⟩
    · show (sender.position.set st _).get st' ≤ _
      rw [PerStream.get_set]
      split
      · rename_i heq
        exact heq ▸ hok.1
      · exact hserves.behind st'
    · refine ⟨_, (RelayPositions.check_outputData _ _ _ _ _).trans
        (RelayPositions.contiguous_eq_ok.mpr ⟨by rw [hq], Nat.le_trans hok.1 (hu64 st), rfl⟩),
        ?_, hle⟩
      dsimp only
      rw [hq]
    · cases st <;> (intro hd; cases hd)
  | silenced stage superseded =>
    exact goto .done (live stage (by cases ·)) trivial (by intro _ h; cases h)
  | @ending p stage hended =>
    simp only [ended, Bool.and_eq_true, beq_iff_eq] at hended
    exact goto (.emitting p) (live stage (by cases ·))
      ⟨known stage, hended.1.1.1, hended.1.1.2⟩ (by intro _ h; cases h)
  | waiting stage running =>
    exact goto .waiting (live stage (by cases ·)) trivial (by intro _ h; cases h)
  | @replayEnd p stage =>
    obtain ⟨⟨hfits, hends⟩, hcollected, hio⟩ := known stage
    refine hs.setSender (g := g) rfl rfl rfl (hserves.send (live stage (by cases ·))
      (f := .outputEnd p) rfl rfl rfl ⟨hfits, hcollected, hio⟩ hserves.behind trivial
      hserves.receipt
      (fun q hq hle => ⟨q, RelayPositions.check_outputEnd.mpr ⟨?_, fun st => ?_, rfl⟩, hq, hle⟩)
      fun _ => rfl) (by intro _ h; cases h)
    · rw [hfits.limit, Sender.relayMode, hserves.hello.limit]
    · rw [hq]
      exact hends st
  | woken stage => exact goto .top (live stage (by cases ·)) trivial (by intro _ h; cases h)
  | stopped live => exact goto .done live trivial (by intro _ h; cases h)

/-! ## The steps of the other tasks -/

/-- Published ends only grow. -/
theorem SameView.stops_le (h : SameView s t) (hi : Inv limit s) (st : Stream) :
    s.metadata.ends.get st ≤ t.metadata.ends.get st := by
  rcases h.stops with he | ⟨st', count, p, hp, he⟩
  · exact Nat.le_of_eq (by rw [he])
  · rw [he, PerStream.get_set]
    split
    · rename_i heq
      subst heq
      obtain ⟨-, rfl⟩ := recordWrite_eq_some hp
      rw [onStream_get_self, (stops_eq hi st).1]
      exact Nat.le_add_right _ _
    · exact Nat.le_refl _

/-- A step that leaves the senders and the replay alone. -/
theorem Served.keep (hs : Served limit s) (status : t.metadata.status = s.metadata.status)
    (stops : ∀ st, s.metadata.ends.get st ≤ t.metadata.ends.get st)
    (senders : t.senders = s.senders) (replay : t.replay = s.replay) : Served limit t where
  status := by
    unfold StatusOk
    rw [status]
    exact hs.status
  senders g sender hg := by
    rw [senders] at hg
    exact (hs.senders g sender hg).mono stops
  replay r hr := by
    rw [replay] at hr
    have hreplay := hs.replay r hr
    refine ⟨hreplay.start, Nat.le_trans hreplay.stop (stops r.st), hreplay.data,
      fun sender st hg => ?_⟩
    rw [senders] at hg
    exact hreplay.sender sender st hg

/-- A step beside the senders keeps them to their promises. -/
theorem Served.aside (hs : Served limit s) (hi : Inv limit s) (h : Aside s t) : Served limit t :=
  hs.keep h.status (h.stops_le hi) h.senders h.replay

/-- A finished replay's data lie within the published end. -/
theorem Serves.deliver {stops : PerStream Nat} {sender : Sender} (h : Serves limit stops sender)
    {result : Except StorageFault (List UInt8)}
    (inside : ∀ st data, sender.stage = .replaying st → result = .ok data →
      sender.position.get st + data.length ≤ stops.get st ∧ data.length ≤ chunkSize) :
    Serves limit stops (sender.deliver result) := by
  unfold Sender.deliver
  split
  · rename_i st hstage
    refine h.goto (by rw [hstage]; intro hd; cases hd) ?_
    cases result with
    | error fault => trivial
    | ok data => exact inside st data hstage rfl
  · exact h

/-- A replay's steps keep the senders to their promises: it reads below the published end. -/
theorem served_replayMoved (hi : Inv limit s) (hs : Served limit s) {r : Replay} {act : ReplayAct}
    (hr : s.replay = some r) (h : ReplayMoved s r act t) : Served limit t := by
  have hreplay := hs.replay r hr
  obtain ⟨hview, ⟨stage, hmoved, hsenders, hdata⟩ | ⟨result, hstage, hfree, hsenders⟩⟩ :=
    replay_view h
  · refine ⟨by unfold StatusOk; rw [hview.status]; exact hs.status, fun g sender hg => ?_,
      fun r' hr' => ?_⟩
    · rw [hsenders] at hg
      exact (hs.senders g sender hg).mono (hview.stops_le hi)
    · rw [hmoved] at hr'
      cases hr'
      refine ⟨hreplay.start, Nat.le_trans hreplay.stop (hview.stops_le hi r.st), fun data hd => ?_,
        fun sender st hg => ?_⟩
      · rcases hdata data hd with hold | hle
        · exact hreplay.data data hold
        · exact hle
      · rw [hsenders] at hg
        exact hreplay.sender sender st hg
  · refine ⟨by unfold StatusOk; rw [hview.status]; exact hs.status, ?_, fun r' hr' => ?_⟩
    · rw [hsenders]
      apply Parties.forall_update
      · intro sender hg
        obtain ⟨sender', hg', rfl⟩ := Option.map_eq_some_iff.mp hg
        refine ((hs.senders _ sender' hg').deliver fun st data hst hok => ?_).mono
          (hview.stops_le hi)
        obtain ⟨rfl, hposition⟩ := hreplay.sender sender' st hg' hst
        have hlength := hreplay.data data (by rw [hstage, hok]; rfl)
        have := hreplay.start
        have := hreplay.stop
        rw [hposition]
        omega
      · intro g sender _ hg
        exact (hs.senders g sender hg).mono (hview.stops_le hi)
    · rw [hfree] at hr'
      cases hr'

/-- A step that marks the senders, and no more. -/
theorem Served.mark (hs : Served limit s) {f : Sender → Sender}
    (hf : ∀ sender, Serves limit s.metadata.ends sender →
      Serves limit s.metadata.ends (f sender) ∧ (f sender).stage = sender.stage ∧
        (f sender).position = sender.position)
    (status : StatusOk t) (ends : t.metadata.ends = s.metadata.ends)
    (senders : t.senders = (s.mapSenders f).senders) (replay : t.replay = s.replay) :
    Served limit t where
  status := status
  senders g sender hg := by
    rw [senders] at hg
    obtain ⟨sender', hg', rfl⟩ := Option.map_eq_some_iff.mp hg
    rw [ends]
    exact (hf sender' (hs.senders g sender' hg')).1
  replay r hr := by
    rw [replay] at hr
    have hreplay := hs.replay r hr
    refine ⟨hreplay.start, ends ▸ hreplay.stop, hreplay.data, fun sender st hg hstage => ?_⟩
    rw [senders] at hg
    obtain ⟨sender', hg', rfl⟩ := Option.map_eq_some_iff.mp hg
    have hserves : Serves limit s.metadata.ends sender' := hs.senders _ sender' hg'
    obtain ⟨-, hsame, hposition⟩ := hf sender' hserves
    rw [hposition]
    exact hreplay.sender sender' st hg' (hsame ▸ hstage)

/-- The kernel reports exit codes from 0 to 255 or signals from 1 to 127, and stdin positions are
`u64`. -/
def Honest (_ : State) : Act → Prop
  | .wait (.ok status) => status.validate = .ok ()
  | .attach _ _ stdin => stdin ≤ u64Max
  | .publish _ position => position ≤ u64Max
  | _ => True

/-- Every honest step keeps the senders to their promises. -/
theorem served_step (hlimit : limit ≤ i64Max) (hi : Inv limit s) (hs : Served limit s) {a : Act}
    (honest : Honest s a) (h : step s a = some t) : Served limit t := by
  have same : ∀ {t : State}, t.metadata = s.metadata → t.senders = s.senders →
      t.replay = s.replay → Served limit t := fun hm hse hr =>
    hs.keep (by rw [hm]) (fun st => Nat.le_of_eq (by rw [hm])) hse hr
  cases step_moved h with
  | collector h => exact hs.aside hi (collector_view h)
  | writer worker live h => exact hs.aside hi (writer_view h)
  | replay gate h => exact served_replayMoved hi hs gate h
  | sender attached h => exact served_senderMoved hlimit hi hs attached h
  | @waited result first =>
    cases result with
    | error error => exact hs.keep rfl (fun _ => Nat.le_refl _) rfl rfl
    | ok status =>
      refine hs.mark (f := fun sender => { sender with missedExit := true })
        (fun sender h => ⟨⟨h.hello, h.behind, h.stage, h.receipt, h.checked, h.sound, h.last⟩,
          rfl, rfl⟩) (fun e he => ?_) rfl rfl rfl
      cases he
      exact honest
  | operationStep read h =>
    obtain ⟨operation, _, rfl⟩ := Option.map_eq_some_iff.mp h
    dsimp only
    split
    · exact hs.mark (f := fun sender => { sender with missedAbsence := true })
        (fun sender h => ⟨⟨h.hello, h.behind, h.stage, h.receipt, h.checked, h.sound, h.last⟩,
          rfl, rfl⟩) hs.status rfl rfl rfl
    · exact same rfl rfl rfl
  | @attached g offsets stdin current fresh behind =>
    simp only [Buffered.offsetsAreAhead, Bool.or_eq_false_iff, decide_eq_false_iff_not,
      Nat.not_lt] at behind
    refine hs.setSender rfl rfl rfl ⟨fits_fact hlimit hi hs.status, fun st => ?_, trivial, honest,
      ⟨_, rfl, rfl, Nat.le_refl _⟩, fun f hf => (by cases hf), .inl fun f hf => (by cases hf)⟩
      fun st hst => by cases hst
    cases st with
    | stdout => exact behind.1
    | stderr => exact behind.2
  | @published g position sender attached =>
    exact hs.setSender rfl rfl rfl ((hs.senders g sender attached).publish honest)
      fun st hst => ⟨sender, attached, hst, rfl⟩
  | _ => exact same rfl rfl rfl

/-- A session starts without senders. -/
theorem served_init (h : (machine limit).init s) : Served limit s := by
  obtain ⟨operation, setupFailed, pipes, -, -, rfl⟩ := h
  refine ⟨fun e he => ?_, fun g sender hg => ?_, fun r hr => ?_⟩
  · cases he
  · cases hg
  · cases hr

/-- The promises hold in every state that honest steps reach. -/
theorem reach_served (hlimit : limit ≤ i64Max) (h : (machine limit).Reach Honest s) :
    Served limit s :=
  h.invariant (fun _ => served_init) fun _ _ _ hr hs honest hstep =>
    served_step hlimit (reachable_inv (Nat.le_trans hlimit (by decide)) hr.reachable) hs honest hstep

/-! ## Never rejected -/

/-- The frontend accepts a fact, as an end or not, and its frame. -/
structure Accepts (S : Serde) (limit : Nat) (terminal : Bool) (p : OutputFact) : Prop where
  valid : p.validate terminal = .ok ()
  limit : p.limit = limit
  length : 1 ≤ (S.factToVec p).length ∧ (S.factToVec p).length ≤ 4096

/-- **What an attachment's frontend sees**: facts that it accepts in the opening and in every
progress frame, a replay end that is the last frame, that it accepts and that matches the data
before it, receipts from the opening's position on; so the relay forwards every byte and returns. -/
structure Accepted (S : Serde) (limit : Nat) (sender : Sender) : Prop where
  hello : Accepts S limit false sender.hello
  states : ∀ p, .outputState p ∈ sender.frames → Accepts S limit false p
  ends : ∀ before p after, sender.frames = before ++ .outputEnd p :: after →
    after = [] ∧ Accepts S limit true p ∧
      ∀ st, Frame.follow st (sender.opening.get st) before = some (p.streams.get st).retained
  receipts : ∀ offset, .stdinPosition offset ∈ sender.frames →
    sender.acknowledgements.opening ≤ offset
  relayed : ∃ bytes, writeFrames S sender.frames = .ok bytes ∧ ∀ rounds, bytes.length < rounds →
    ∃ q, Relay.run S sender.relayMode rounds { positions := sender.relayStart } bytes =
      some (⟨q, ⟨bytes, []⟩⟩, .ok (returned sender.frames))

section Accepted

variable {S : Serde} {f : Frame} {p : OutputFact}

/-- The frontend accepts a fact that fits and is valid. -/
theorem Fits.accepts (h : Fits limit p) (hwrites : ∀ p, S.factToVec p = toVec p.toJson)
    {terminal : Bool} (hvalid : p.validate terminal = .ok ()) : Accepts S limit terminal p := by
  refine ⟨hvalid, h.limit, ?_⟩
  rw [hwrites, length_toVec]
  exact ⟨length_toJson_pos p, h.length⟩

/-- An honest frame survives the codec. -/
theorem carries_honest (hf : HonestFrame limit f) (hwrites : ∀ p, S.factToVec p = toVec p.toJson)
    (hreads : ∀ p, f = .outputState p ∨ f = .outputEnd p →
      S.factFromSlice (S.factToVec p) = .ok p) : S.Carries f := by
  cases f with
  | outputState p =>
    have h := Fits.accepts hf hwrites hf.progress
    exact ⟨hreads p (.inl rfl), h.valid, h.length⟩
  | outputEnd p =>
    have h := Fits.accepts hf.1 hwrites (hf.1.terminal hf.2.1 hf.2.2)
    exact ⟨hreads p (.inr rfl), h.valid, h.length⟩
  | stdinPosition offset => exact hf
  | stdinEof offset => exact hf.elim
  | exit status => exact hf.elim
  | _ => trivial

/-- The bounded output direction allows the kind of every honest frame. -/
theorem allows_honest (hf : HonestFrame limit f) : Direction.boundedOutput.allows f.kind = true := by
  cases f with
  | stdinData offset data => exact hf.elim
  | stdinEof offset => exact hf.elim
  | exit status => exact hf.elim
  | _ => rfl

/-- The broker can write an honest frame. -/
theorem writeFrame_honest (hf : HonestFrame limit f)
    (hwrites : ∀ p, S.factToVec p = toVec p.toJson) : ∃ bytes, writeFrame S f = .ok bytes := by
  have position : ∀ offset, (BigEndian.toBytes 8 offset).length ≤ maxFrame := fun offset => by
    rw [BigEndian.length_toBytes]
    decide
  have data : ∀ {offset : Nat} {data : List UInt8},
      offset + data.length ≤ u64Max ∧ data.length ≤ chunkSize → data.length ≤ maxFrame - 8 ∧
        (BigEndian.toBytes 8 offset ++ data).length ≤ maxFrame := fun h => by
    have hsize : chunkSize + 8 ≤ maxFrame := by decide
    rw [List.length_append, BigEndian.length_toBytes]
    omega
  have fact : ∀ {p : OutputFact}, Fits limit p → (S.factToVec p).length ≤ maxFrame := fun h =>
    Nat.le_trans (h.accepts hwrites h.progress).length.2 (by decide)
  cases f with
  | stdoutData offset bytes =>
    exact ⟨_, writeFrame_eq_ok.mpr ⟨_, offsetPayload_eq_ok.mpr ⟨(data hf).1, hf.1, rfl⟩,
      (data hf).2, rfl⟩⟩
  | stderrData offset bytes =>
    exact ⟨_, writeFrame_eq_ok.mpr ⟨_, offsetPayload_eq_ok.mpr ⟨(data hf).1, hf.1, rfl⟩,
      (data hf).2, rfl⟩⟩
  | stdinPosition offset => exact ⟨_, writeFrame_eq_ok.mpr ⟨_, rfl, position offset, rfl⟩⟩
  | outputState p => exact ⟨_, writeFrame_eq_ok.mpr ⟨_, rfl, fact hf, rfl⟩⟩
  | outputEnd p => exact ⟨_, writeFrame_eq_ok.mpr ⟨_, rfl, fact hf.1, rfl⟩⟩
  | stdinData offset bytes => exact hf.elim
  | stdinEof offset => exact hf.elim
  | exit status => exact hf.elim

/-- The broker can write honest frames one after another. -/
theorem writeFrames_honest {fs : List Frame} (hfs : ∀ f ∈ fs, HonestFrame limit f)
    (hwrites : ∀ p, S.factToVec p = toVec p.toJson) : ∃ bytes, writeFrames S fs = .ok bytes := by
  induction fs with
  | nil => exact ⟨[], rfl⟩
  | cons f fs ih =>
    obtain ⟨b, hb⟩ := writeFrame_honest (hfs f List.mem_cons_self) hwrites
    obtain ⟨rest, hrest⟩ := ih fun g hg => hfs g (List.mem_cons_of_mem f hg)
    exact ⟨b ++ rest, writeFrames_cons.mpr ⟨b, rest, hb, hrest, rfl⟩⟩

/-- A sender returns its reader with its last frame only. -/
theorem Serves.returnsLast {stops : PerStream Nat} {sender : Sender}
    (h : Serves limit stops sender) : ReturnsLast sender.frames := by
  rcases h.last with hlive | ⟨-, hlast⟩
  · intro before f after heq hf
    rw [hlive f (heq ▸ List.mem_append_right before List.mem_cons_self)] at hf
    cases hf
  · exact hlast

end Accepted

/-- **An honest bounded broker is never rejected.** In every run of a session whose limit the
command line accepts and whose kernel reports codes and signals, with any serde that writes compact
JSON and reads back the facts of an attachment, the attachment's frontend accepts all it is sent. -/
theorem honest_accepted (hlimit : limit ≤ i64Max) (S : Serde)
    (hwrites : ∀ p, S.factToVec p = toVec p.toJson) (h : (machine limit).Reach Honest s) {g : Nat}
    {sender : Sender} (hg : s.senders g = some sender)
    (hreads : ∀ p, .outputState p ∈ sender.frames ∨ .outputEnd p ∈ sender.frames →
      S.factFromSlice (S.factToVec p) = .ok p) : Accepted S limit sender := by
  have hserves := (reach_served hlimit h).senders g sender hg
  obtain ⟨q, hq, -, -⟩ := hserves.checked
  have hreads' : ∀ f ∈ sender.frames, ∀ p, f = .outputState p ∨ f = .outputEnd p →
      S.factFromSlice (S.factToVec p) = .ok p := fun f hf p he => by
    rcases he with rfl | rfl
    · exact hreads p (.inl hf)
    · exact hreads p (.inr hf)
  refine ⟨hserves.hello.accepts hwrites hserves.hello.progress, fun p hp => ?_,
    fun before p after heq => ⟨?_, ?_, fun st => ?_⟩, fun offset hoffset => ?_, ?_⟩
  · have hfits : Fits limit p := hserves.sound _ hp
    exact hfits.accepts hwrites hfits.progress
  · exact hserves.returnsLast before _ after heq rfl
  · have hfits : HonestFrame limit (.outputEnd p) :=
      hserves.sound _ (heq ▸ List.mem_append_right before List.mem_cons_self)
    exact hfits.1.accepts hwrites (hfits.1.terminal hfits.2.1 hfits.2.2)
  · rw [heq] at hq
    obtain ⟨r, r', hr, hend⟩ := RelayPositions.checks_mem hq
    rw [(RelayPositions.check_outputEnd.mp hend).2.1 st]
    exact RelayPositions.checks_follow hr st
  · obtain ⟨before, after, heq⟩ := List.append_of_mem hoffset
    rw [heq] at hq
    obtain ⟨r, r', hr, hposition⟩ := RelayPositions.checks_mem hq
    exact Nat.le_trans (RelayPositions.checks_stdin hr)
      (RelayPositions.check_stdinPosition.mp hposition).1
  · obtain ⟨bytes, hbytes⟩ := writeFrames_honest hserves.sound hwrites
    refine ⟨bytes, hbytes, fun rounds hrounds => ⟨q, ?_⟩⟩
    exact run_writeFrames rfl hq
      (fun f hf => carries_honest (hserves.sound f hf) hwrites (hreads' f hf))
      (fun f hf => allows_honest (hserves.sound f hf)) hserves.returnsLast hbytes _ _
      (Nat.lt_of_le_of_lt (length_writeFrames_le hbytes) hrounds)

/-- A serde that reads one fact. -/
def readsOnly (p : OutputFact) : Serde where
  exitToVec status := toVec status.toJson
  exitFromSlice _ := .error "not a fact"
  factToVec p := toVec p.toJson
  factFromSlice bytes := if bytes = toVec p.toJson then .ok p else .error "another fact"

/-- The fact that it was made for is read back. -/
private theorem readsOnly_reads (p : OutputFact) :
    (readsOnly p).factFromSlice ((readsOnly p).factToVec p) = .ok p :=
  if_pos rfl

/-- Two bytes of standard output and an exit with 0. -/
def twoBytes : OutputFact where
  limit := 4
  streams := ⟨{ retained := 2, collection := .eof }, { collection := .eof }⟩
  sealed := true
  leaderExit := some ⟨some 0, none⟩

/-- A client that has the first of two bytes is sent a receipt, the second byte and the end. -/
private theorem resumed : ∃ s, (machine 4).Reach Honest s ∧ ∃ sender, s.senders 1 = some sender ∧
    sender.frames = [.outputState twoBytes, .stdinPosition 9, .stdoutData 1 [2],
      .outputEnd twoBytes] := by
  have start : (machine 4).Reach Honest
      (initial 4 { cancellation := .verifyAcquired (.ok ()) (.ok true) } false (.both true)) :=
    .init ⟨_, false, _, ⟨.ok (), .ok true, rfl⟩, fun _ => rfl, rfl⟩
  have written := start.run [.collector .setup, .collector .setup, .collector .enable,
      .collector .snapshot, .collector (.look 0), .collector (.read .stdout (.bytes [1, 2])),
      .collector .observe, .collector .admitRead, .collector .spawn, .writer .stdout (.write 2),
      .writer .stdout .record, .writer .stdout .notify, .writer .stdout (.flush true),
      .writer .stdout .settle, .writer .stdout .unpin, .writer .stdout .notify,
      .collector .enable, .collector .snapshot, .collector (.look 0), .collector (.joined .stdout)]
    (Machine.meets_of_forall (by simp [Honest])) rfl
  have closed := written.run [.collector .enable, .collector .snapshot, .collector (.look 0),
      .collector (.read .stdout (.bytes [])), .collector .observe, .collector (.call ⟨0, 5, 5⟩),
      .collector .enable, .collector .snapshot, .collector (.look 0),
      .collector (.read .stderr (.bytes [])), .collector .observe, .collector (.call ⟨0, 5, 5⟩),
      .wait (.ok ⟨some 0, none⟩), .install false, .attach 1 ⟨1, 0⟩ 7, .publish 1 9]
    (Machine.meets_of_forall (by simp [Honest, ExitResult.validate, u64Max])) rfl
  have replayed := closed.run [.sender 1 .turn, .sender 1 .snapshot, .sender 1 .report,
      .sender 1 .receipt, .sender 1 .choose, .sender 1 .replay, .replay (.read 1), .replay .unpin,
      .replay .finish, .sender 1 .emit]
    (Machine.meets_of_forall (by simp [Honest])) rfl
  have ended := replayed.run [.sender 1 .turn, .sender 1 .snapshot, .sender 1 .report,
      .sender 1 .receipt, .sender 1 .choose, .sender 1 .finish, .sender 1 .replayEnd]
    (Machine.meets_of_forall (by simp [Honest])) rfl
  exact ⟨_, ended, _, rfl, rfl⟩

/-- The frontend of that client accepts all of it and returns the command's code. -/
theorem honest_accepted_resumed : ∃ S s sender, (machine 4).Reach Honest s ∧
    s.senders 1 = some sender ∧ sender.frames = [.outputState twoBytes, .stdinPosition 9,
      .stdoutData 1 [2], .outputEnd twoBytes] ∧
      returned sender.frames = 0 ∧ Accepted S 4 sender := by
  obtain ⟨s, hreach, sender, hg, hframes⟩ := resumed
  refine ⟨readsOnly twoBytes, s, sender, hreach, hg, hframes, by rw [hframes]; rfl,
    honest_accepted (by decide) (readsOnly twoBytes) (fun _ => rfl) hreach hg fun p hp => ?_⟩
  have htwo : p = twoBytes := by simpa [hframes] using hp
  rw [htwo]
  exact readsOnly_reads twoBytes

end Bounds

end Pipekeep
