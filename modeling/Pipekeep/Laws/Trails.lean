import Pipekeep.Laws.Honest

/-!
# A bounded sender trails the published ends

In every reachable state, whatever was attached, acknowledged or waited for: a sender's positions do
not pass the published ends, nor the snapshot that its turn works from. `send_output` compares them
by equality in one place, which says that a stream is drained only because of this.
-/

namespace Pipekeep.Bounds

variable {limit : Nat} {s t : State} {sender : Sender} {stops : PerStream Nat} {g : Nat}

/-- What a stage holds, over the published ends and the sender's positions. -/
def StageTrails (stops position : PerStream Nat) : SenderStage → Prop
  | .report p | .receipt p | .choose p => ∀ st,
    position.get st ≤ (p.streams.get st).retained ∧ (p.streams.get st).retained ≤ stops.get st
  | .gate st stop => position.get st ≤ stop ∧ stop ≤ stops.get st
  | .replayed st (.ok data) => position.get st + data.length ≤ stops.get st
  | _ => True

structure Sender.Trails (stops : PerStream Nat) (sender : Sender) : Prop where
  behind : ∀ st, sender.position.get st ≤ stops.get st
  stage : StageTrails stops sender.position sender.stage

theorem Sender.Trails.mono {stops' : PerStream Nat} (h : sender.Trails stops)
    (hle : ∀ st, stops.get st ≤ stops'.get st) : sender.Trails stops' where
  behind st := Nat.le_trans (h.behind st) (hle st)
  stage := by
    have hstage := h.stage
    cases hs : sender.stage with
    | report p =>
      rw [hs] at hstage
      exact fun st => ⟨(hstage st).1, Nat.le_trans (hstage st).2 (hle st)⟩
    | receipt p =>
      rw [hs] at hstage
      exact fun st => ⟨(hstage st).1, Nat.le_trans (hstage st).2 (hle st)⟩
    | choose p =>
      rw [hs] at hstage
      exact fun st => ⟨(hstage st).1, Nat.le_trans (hstage st).2 (hle st)⟩
    | gate st stop =>
      rw [hs] at hstage
      exact ⟨hstage.1, Nat.le_trans hstage.2 (hle st)⟩
    | replayed st result =>
      rw [hs] at hstage
      cases result with
      | error fault => trivial
      | ok data => exact Nat.le_trans hstage (hle st)
    | _ => trivial

/-- The senders trail the ends, and the replay stays within them. -/
structure Trails (s : State) : Prop where
  senders : ∀ g sender, s.senders g = some sender → sender.Trails s.metadata.ends
  replay : ∀ r, s.replay = some r → Replays s r

/-- One sender changes, and waits for the replay only if it did. -/
theorem Trails.setSender (h : Trails s) {sender' : Sender} (metadata : t.metadata = s.metadata)
    (senders : t.senders = Function.update s.senders g (some sender'))
    (replay : t.replay = s.replay) (trails : sender'.Trails s.metadata.ends)
    (waits : ∀ st, sender'.stage = .replaying st → ∃ sender, s.senders g = some sender ∧
      sender.stage = .replaying st ∧ sender.position = sender'.position) : Trails t := by
  refine ⟨?_, fun r hr => ?_⟩
  · rw [metadata, senders]
    apply Parties.forall_update_some
    · exact trails
    · intro g' sender _ hg
      exact h.senders g' sender hg
  · rw [replay] at hr
    have hreplay := h.replay r hr
    refine ⟨hreplay.start, metadata ▸ hreplay.stop, hreplay.data, fun sender st hg hstage => ?_⟩
    rw [senders] at hg
    by_cases heq : r.generation = g
    · rw [heq, Function.update_self] at hg
      cases hg
      obtain ⟨old, hold, holdstage, hposition⟩ := waits st hstage
      rw [← hposition]
      exact hreplay.sender old st (heq ▸ hold) holdstage
    · rw [Function.update_of_ne heq] at hg
      exact hreplay.sender sender st hg hstage

/-! ## The steps of a sender -/

theorem trails_senderMoved (hi : Inv limit s) (h : Trails s) {act : SenderAct}
    (hg : s.senders g = some sender) (hm : SenderMoved s g sender act t) : Trails t := by
  have htrails := h.senders g sender hg
  have known : ∀ {stage}, sender.stage = stage →
      StageTrails s.metadata.ends sender.position stage := fun hstage => hstage ▸ htrails.stage
  have change : ∀ sender' : Sender, sender'.Trails s.metadata.ends →
      (∀ st, sender'.stage ≠ .replaying st) → Trails (s.setSender g sender') :=
    fun sender' htrails' hno => h.setSender rfl rfl rfl htrails' fun st hst => absurd hst (hno st)
  have goto : ∀ sender' : Sender, sender'.position = sender.position →
      StageTrails s.metadata.ends sender.position sender'.stage →
      (∀ st, sender'.stage ≠ .replaying st) → Trails (s.setSender g sender') :=
    fun sender' same hok hno =>
      change sender' ⟨fun st => same ▸ htrails.behind st, same ▸ hok⟩ hno
  cases hm with
  | snapshot stage =>
    refine goto _ rfl (fun st => ?_) (by intro _ h; cases h)
    have hretained : (s.fact.streams.get st).retained = s.metadata.ends.get st :=
      (fact_amounts _ _ _ st).1.trans (stops_eq hi st).1.symm
    rw [hretained]
    exact ⟨htrails.behind st, Nat.le_refl _⟩
  | unchanged stage same =>
    have hok := known stage
    exact goto _ rfl hok (by intro _ h; cases h)
  | reported stage changed =>
    have hok := known stage
    exact goto _ rfl hok (by intro _ h; cases h)
  | receipt stage changed =>
    have hok := known stage
    exact goto _ rfl hok (by intro _ h; cases h)
  | noReceipt stage seen =>
    have hok := known stage
    exact goto _ rfl hok (by intro _ h; cases h)
  | @chosen p st stage stream => exact goto _ rfl (known stage st) (by intro _ h; cases h)
  | @replaying st stop stage free =>
    have hok := known stage
    refine ⟨?_, fun r hr => ?_⟩
    · apply Parties.forall_update_some
      · exact ⟨htrails.behind, trivial⟩
      · intro g' sender' _ hg'
        exact h.senders g' sender' hg'
    · cases hr
      refine ⟨hok.1, hok.2, fun data hd => (by cases hd), fun sender' st' hg' hst' => ?_⟩
      have hg'' : Function.update s.senders g (some { sender with stage := .replaying st }) g =
          some sender' := hg'
      rw [Function.update_self] at hg''
      cases hg''
      cases hst'
      exact ⟨rfl, rfl⟩
  | @emitted st data stage current =>
    have hok := known stage
    refine change _ ⟨fun st' => ?_, trivial⟩ (by intro _ h; cases h)
    show (sender.position.set st _).get st' ≤ _
    rw [PerStream.get_set]
    split
    · rename_i heq
      exact heq ▸ hok
    · exact htrails.behind st'
  | replayEnd stage =>
    exact h.setSender rfl rfl rfl ⟨htrails.behind, trivial⟩ fun st hst => by cases hst
  | _ => exact goto _ rfl trivial (by intro _ h; cases h)

/-! ## The steps of the other tasks -/

/-- A step that leaves the senders and the replay alone. -/
theorem Trails.keep (h : Trails s) (stops : ∀ st, s.metadata.ends.get st ≤ t.metadata.ends.get st)
    (senders : t.senders = s.senders) (replay : t.replay = s.replay) : Trails t where
  senders g sender hg := by
    rw [senders] at hg
    exact (h.senders g sender hg).mono stops
  replay r hr := by
    rw [replay] at hr
    have hreplay := h.replay r hr
    refine ⟨hreplay.start, Nat.le_trans hreplay.stop (stops r.st), hreplay.data,
      fun sender st hg => ?_⟩
    rw [senders] at hg
    exact hreplay.sender sender st hg

/-- A finished replay's data lie within the published end. -/
theorem Sender.Trails.deliver (h : sender.Trails stops) {result : Except StorageFault (List UInt8)}
    (inside : ∀ st data, sender.stage = .replaying st → result = .ok data →
      sender.position.get st + data.length ≤ stops.get st) :
    (sender.deliver result).Trails stops := by
  unfold Sender.deliver
  split
  · rename_i st hstage
    refine ⟨h.behind, ?_⟩
    cases result with
    | error fault => trivial
    | ok data => exact inside st data hstage rfl
  · exact h

theorem trails_replayMoved (hi : Inv limit s) (h : Trails s) {r : Replay} {act : ReplayAct}
    (hr : s.replay = some r) (hm : ReplayMoved s r act t) : Trails t := by
  have hreplay := h.replay r hr
  obtain ⟨hview, ⟨stage, hmoved, hsenders, hdata⟩ | ⟨result, hstage, hfree, hsenders⟩⟩ :=
    replay_view hm
  · refine ⟨fun g sender hg => ?_, fun r' hr' => ?_⟩
    · rw [hsenders] at hg
      exact (h.senders g sender hg).mono (hview.stops_le hi)
    · rw [hmoved] at hr'
      cases hr'
      refine ⟨hreplay.start, Nat.le_trans hreplay.stop (hview.stops_le hi r.st), fun data hd => ?_,
        fun sender st hg => ?_⟩
      · rcases hdata data hd with hold | hle
        · exact hreplay.data data hold
        · exact hle
      · rw [hsenders] at hg
        exact hreplay.sender sender st hg
  · refine ⟨?_, fun r' hr' => ?_⟩
    · rw [hsenders]
      apply Parties.forall_update
      · intro sender hg
        obtain ⟨sender', hg', rfl⟩ := Option.map_eq_some_iff.mp hg
        refine ((h.senders _ sender' hg').deliver fun st data hst hok => ?_).mono
          (hview.stops_le hi)
        obtain ⟨rfl, hposition⟩ := hreplay.sender sender' st hg' hst
        have hlength := hreplay.data data (by rw [hstage, hok]; rfl)
        have := hreplay.start
        have := hreplay.stop
        rw [hposition]
        omega
      · intro g sender _ hg
        exact (h.senders g sender hg).mono (hview.stops_le hi)
    · rw [hfree] at hr'
      cases hr'

/-- A step that marks the senders, and no more. -/
theorem Trails.mark (h : Trails s) {f : Sender → Sender}
    (hf : ∀ sender, (f sender).stage = sender.stage ∧ (f sender).position = sender.position)
    (ends : t.metadata.ends = s.metadata.ends) (senders : t.senders = (s.mapSenders f).senders)
    (replay : t.replay = s.replay) : Trails t where
  senders g sender hg := by
    rw [senders] at hg
    obtain ⟨sender', hg', rfl⟩ := Option.map_eq_some_iff.mp hg
    obtain ⟨hstage, hposition⟩ := hf sender'
    have htrails := h.senders g sender' hg'
    rw [ends]
    exact ⟨fun st => hposition ▸ htrails.behind st, by rw [hstage, hposition]; exact htrails.stage⟩
  replay r hr := by
    rw [replay] at hr
    have hreplay := h.replay r hr
    refine ⟨hreplay.start, ends ▸ hreplay.stop, hreplay.data, fun sender st hg hstage => ?_⟩
    rw [senders] at hg
    obtain ⟨sender', hg', rfl⟩ := Option.map_eq_some_iff.mp hg
    obtain ⟨hsame, hposition⟩ := hf sender'
    rw [hposition]
    exact hreplay.sender sender' st hg' (hsame ▸ hstage)

theorem trails_step (hi : Inv limit s) (h : Trails s) {a : Act} (hs : step s a = some t) :
    Trails t := by
  have same : ∀ {t : State}, t.metadata = s.metadata → t.senders = s.senders →
      t.replay = s.replay → Trails t := fun hm hse hr =>
    h.keep (fun st => Nat.le_of_eq (by rw [hm])) hse hr
  cases step_moved hs with
  | collector hm =>
    have haside := collector_view hm
    exact h.keep (haside.stops_le hi) haside.senders haside.replay
  | writer worker live hm =>
    have haside := writer_view hm
    exact h.keep (haside.stops_le hi) haside.senders haside.replay
  | replay gate hm => exact trails_replayMoved hi h gate hm
  | sender attached hm => exact trails_senderMoved hi h attached hm
  | @waited result first =>
    cases result with
    | error error => exact h.keep (fun _ => Nat.le_refl _) rfl rfl
    | ok status =>
      exact h.mark (f := fun sender => { sender with missedExit := true })
        (fun sender => ⟨rfl, rfl⟩) rfl rfl rfl
  | operationStep read hm =>
    obtain ⟨operation, _, rfl⟩ := Option.map_eq_some_iff.mp hm
    dsimp only
    split
    · exact h.mark (f := fun sender => { sender with missedAbsence := true })
        (fun sender => ⟨rfl, rfl⟩) rfl rfl rfl
    · exact same rfl rfl rfl
  | @attached g offsets stdin current fresh behind =>
    simp only [Buffered.offsetsAreAhead, Bool.or_eq_false_iff, decide_eq_false_iff_not,
      Nat.not_lt] at behind
    refine h.setSender rfl rfl rfl ⟨fun st => ?_, trivial⟩ fun st hst => by cases hst
    cases st with
    | stdout => exact behind.1
    | stderr => exact behind.2
  | @published g position sender attached =>
    have htrails := h.senders g sender attached
    exact h.setSender rfl rfl rfl ⟨htrails.behind, htrails.stage⟩
      fun st hst => ⟨sender, attached, hst, rfl⟩
  | _ => exact same rfl rfl rfl

theorem reachable_trails (hlimit : limit ≤ u64Max) (h : (machine limit).Reachable s) :
    Trails s := by
  refine h.invariant ?_ fun _ _ _ hr ht _ hs => trails_step (reachable_inv hlimit hr) ht hs
  rintro s ⟨operation, setupFailed, pipes, -, -, rfl⟩
  exact ⟨fun g sender hg => (by cases hg), fun r hr => (by cases hr)⟩

end Pipekeep.Bounds
