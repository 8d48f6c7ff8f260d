import Pipekeep.Laws.Live

/-!
# What an exit leaves behind

The sender decides an exit from a look at the metadata that comes after its three tries. So chunks
may have been sent on the channels in between, and a try that is told of a lag does not see the
chunks behind it. Both are written down beside the run, for each attachment and stream (`late`): the
last try of a turn was told of a lag, or the channel was sent a chunk after it. The record looks at
the order of the steps and at what the channel answers, and at nothing that the sender has read or
written.

A queue that is not known to be empty is not empty (`Behind`), and ends behind all that the sender
has sent (`Reaches`). So an exit is complete exactly if nothing was late for it, or if nothing was
sent on the channel that the opening did not know of (`complete_iff_inTime`).
-/

namespace Pipekeep.Live

open Broadcast

variable {hardened : Bool}

/-! ## What is late -/

/-- The turn has no try of the stream left before its look. -/
def Stage.tried : Stage → Stream → Bool
  | .stderr, .stdout | .look, _ | .exit _, _ => true
  | _, _ => false

/-- A last try of a turn that is told of a lag leaves chunks behind. -/
def Sender.late (s : Sender) (act : SenderAct) (late : PerStream Bool) : PerStream Bool :=
  match s.stage, act with
  | .stdout, .tryRecv => late.set .stdout (s.live.get .stdout).lagged
  | .stderr, .tryRecv => late.set .stderr (s.live.get .stderr).lagged
  | _, _ => late

/-- A chunk that is sent after the last try is behind it. -/
def Sender.lateSent (s : Sender) (act : Session.Act) (late : PerStream Bool) : PerStream Bool :=
  match act with
  | .drain st .send => if s.stage.tried st then late.set st true else late
  | _ => late

/-- What a step adds to what is late for an attachment. -/
def late (s : State) (act : Act) (late : Nat → PerStream Bool) (generation : Nat) :
    PerStream Bool :=
  match s.senders generation with
  | none => late generation
  | some sender =>
    match act with
    | .session act => sender.lateSent act (late generation)
    | .subscribe _ => late generation
    | .sender generation' act =>
      if generation' = generation then sender.late act (late generation) else late generation

/-- The machine with what is late. -/
def timed (hardened : Bool) : Machine (State × (Nat → PerStream Bool)) Act :=
  (machine hardened).recorded (fun _ => .both false) late

/-- Of either stream, nothing is late, or the channel was sent nothing past the opening. -/
def InTime (session : Session) (opening : PerStream Nat) (late : PerStream Bool) : Prop :=
  ∀ st, late.get st = false ∨ (session.lane st).sentStop ≤ opening.get st

/-- Nothing is late for a look that finds the session ended. -/
def LooksInTime (x : State × (Nat → PerStream Bool)) (act : Act) : Prop :=
  ∀ g sender, act = .sender g .look → x.1.senders g = some sender →
    (Buffered.terminalStatus x.1.session.metadata).isSome = true →
      InTime x.1.session sender.opening (x.2 g)

/-! ## One stream -/

/-- Where a receiver stands, of a channel that was sent `stop` bytes: its queue ends there, and
begins behind what the sender has in hand or has sent. -/
structure Reaches (stop : Nat) (r : Receiver OutputChunk) (hand : Option OutputChunk)
    (opening position : Nat) : Prop where
  fed : r.Fed
  last : ∀ c, r.queue.getLast? = some c → c.stop = stop
  hand : ∀ c, hand = some c → c.stop ≤ stop ∧ ∀ c' ∈ r.queue, c.Before c'
  position : position ≤ opening ∨ position ≤ stop ∧ ∀ c ∈ r.queue, position ≤ c.offset

section Stream

variable {l l' : Lane} {r : Receiver OutputChunk} {hand : Option OutputChunk}
  {opening position stop : Nat} {c : OutputChunk}

/-- A channel has room for a chunk. -/
theorem capacity_pos : 0 < liveCapacity := by decide

/-- A chunk that is sent begins where the channel stood. -/
theorem Reaches.push (hs : Sends l l' c) (h : Reaches l.sentStop r hand opening position) :
    Reaches l'.sentStop (r.push liveCapacity c) hand opening position := by
  have hgrown : l.sentStop ≤ l'.sentStop := hs.grow.2
  refine ⟨Receiver.Fed.push capacity_pos r c, fun d hd => ?_, fun d hd => ?_, ?_⟩
  · rw [Receiver.getLast?_push capacity_pos] at hd
    cases hd
    exact hs.stop
  · obtain ⟨hle, hbefore⟩ := h.hand d hd
    refine ⟨Nat.le_trans hle hgrown, fun x hx => ?_⟩
    rcases mem_queue_push.2 hx with hold | rfl
    · exact hbefore x hold
    · exact Nat.le_trans hle (Nat.le_of_eq hs.offset.symm)
  · refine h.position.imp_right fun ⟨hle, hbefore⟩ => ⟨Nat.le_trans hle hgrown, fun x hx => ?_⟩
    rcases mem_queue_push.2 hx with hold | rfl
    · exact hbefore x hold
    · exact Nat.le_trans hle (Nat.le_of_eq hs.offset.symm)

/-- A chunk that is taken is in hand, before those that are left. -/
theorem Reaches.take (hf : Feed l r) (h : Reaches l.sentStop r none opening position)
    (hq : r.queue = c :: r.tryRecv.2.queue) :
    Reaches l.sentStop r.tryRecv.2 (some c) opening position := by
  have hsub : ∀ d ∈ r.tryRecv.2.queue, d ∈ r.queue := fun d hd => hq ▸ List.mem_cons_of_mem c hd
  refine ⟨Receiver.fed_tryRecv r, fun d hd => ?_, fun d hd => ?_, ?_⟩
  · refine h.last d ?_
    rw [hq, List.getLast?_cons, hd]
    rfl
  · cases hd
    have hsorted := hf.sorted
    unfold Receiver.messages at hsorted
    rw [hq] at hsorted
    have hmem : c ∈ r.messages := List.mem_append_right _ (hq ▸ List.mem_cons_self)
    exact ⟨(hf.genuine c hmem).le,
      fun _ => List.rel_of_pairwise_cons (List.pairwise_append.mp hsorted).2.1⟩
  · exact h.position.imp_right fun ⟨hle, hbefore⟩ => ⟨hle, fun d hd => hbefore d (hsub d hd)⟩

/-- A try that takes nothing leaves the queue where it stood. -/
theorem Reaches.miss (h : Reaches stop r hand opening position)
    (hq : r.tryRecv.2.queue = r.queue) : Reaches stop r.tryRecv.2 hand opening position :=
  ⟨Receiver.fed_tryRecv r, hq ▸ h.last, hq ▸ h.hand, hq ▸ h.position⟩

/-- A position that moves into the chunk in hand does not pass the queue. -/
theorem Reaches.send (h : Reaches stop r (some c) opening position) {moved : Nat}
    (inside : moved = position ∨ moved ≤ c.stop) : Reaches stop r none opening moved := by
  refine ⟨h.fed, h.last, nofun, ?_⟩
  rcases inside with rfl | hinside
  · exact h.position
  · obtain ⟨hle, hbefore⟩ := h.hand c rfl
    exact .inr ⟨Nat.le_trans hinside hle, fun d hd => Nat.le_trans hinside (hbefore d hd)⟩

/-- An opening starts anew. -/
theorem Reaches.opened (h : Reaches stop r hand opening position) (start : Nat) :
    Reaches stop r hand start start :=
  ⟨h.fed, h.last, h.hand, .inl (Nat.le_refl _)⟩

end Stream

/-! ## One sender -/

/-- What is late for a sender is what is left in its queues. -/
structure Behind (session : Session) (late : PerStream Bool) (s : Sender) : Prop where
  reaches : s.stage ≠ .done → ∀ st, Reaches (session.lane st).sentStop (s.live.get st)
    (s.stage.hand st) (s.opening.get st) (s.position.get st)
  tried : ∀ st, s.stage.tried st = true →
    (late.get st = false ↔ (s.live.get st).queue = [])
  exited : ∀ status, .exit status ∈ s.frames → ∀ st,
    Reaches (session.lane st).sentStop (s.live.get st) none (s.opening.get st)
      (s.position.get st) ∧ (late.get st = false ↔ (s.live.get st).queue = [])

section Sender

variable {a b : Session} {g : Nat} {s t : Sender} {before after : PerStream Bool}

/-- A step that touches neither the receivers nor the positions. -/
theorem Behind.keep (hb : Behind a before s) (hlive : s.stage ≠ .done) (live : t.live = s.live)
    (opening : t.opening = s.opening) (position : t.position = s.position)
    (hand : t.stage ≠ .done → t.stage.hand = s.stage.hand)
    (tried : ∀ st, t.stage.tried st = true → s.stage.tried st = true)
    (frames : ∀ status, .exit status ∈ t.frames → .exit status ∈ s.frames) :
    Behind a before t := by
  refine ⟨fun hrunning st => ?_, fun st hst => ?_, fun status hmem st => ?_⟩
  · rw [live, opening, position, hand hrunning]
    exact hb.reaches hlive st
  · rw [live]
    exact hb.tried st (tried st hst)
  · rw [live, opening, position]
    exact hb.exited status (frames status hmem) st

/-- A receive from one channel. What it misses is late if it was told of a lag. -/
theorem Behind.receive (hi : SenderInv a g s) (hb : Behind a before s) (after : PerStream Bool)
    (hlive : s.stage ≠ .done) (hhand : ∀ st, s.stage.hand st = none) (st : Stream) :
    (∀ chunk prefer, (s.live.get st).tryRecv.1 = .message chunk →
      Behind a after { s with
        live := s.live.set st (s.live.get st).tryRecv.2
        stage := .sending st chunk prefer }) ∧
    ∀ stage : Stage, (∀ chunk, (s.live.get st).tryRecv.1 ≠ .message chunk) →
      (∀ st, stage.hand st = none) →
      (stage.tried st = true → after.get st = (s.live.get st).lagged) →
      (∀ st', st' ≠ st → stage.tried st' = true →
        s.stage.tried st' = true ∧ after.get st' = before.get st') →
      Behind a after { s with
        live := s.live.set st (s.live.get st).tryRecv.2
        stage := stage } := by
  have hcases := Receiver.tryRecv_cases (s.live.get st)
  have hreaches := hb.reaches hlive
  constructor
  · intro chunk prefer hrecv
    have hq : (s.live.get st).queue = chunk :: (s.live.get st).tryRecv.2.queue := by
      rcases hcases with ⟨c, hc, hq, _⟩ | ⟨hnone, _⟩
      · cases hc.symm.trans hrecv
        exact hq
      · exact absurd hrecv (hnone chunk)
    refine ⟨fun _ st' => ?_, fun st' hst => ?_, fun status hmem => ?_⟩
    · have h := hreaches st'
      rw [hhand] at h
      by_cases heq : st' = st
      · subst heq
        simp only [PerStream.get_set_self, Stage.hand, if_true]
        exact h.take (hi.feeds hlive st') hq
      · simp only [PerStream.get_set_ne _ heq, Stage.hand, if_neg (Ne.symm heq)]
        exact h
    · cases st <;> cases st' <;> cases hst
    · exact absurd hmem (hi.no_exit hlive status)
  · intro stage hnone hkeep hown hother
    have hq : (s.live.get st).tryRecv.2.queue = (s.live.get st).queue := by
      rcases hcases with ⟨c, hc, _⟩ | ⟨_, hq, _⟩
      · exact absurd hc (hnone c)
      · exact hq
    refine ⟨fun _ st' => ?_, fun st' hst => ?_, fun status hmem => ?_⟩
    · have h := hreaches st'
      rw [hhand] at h
      rw [hkeep]
      by_cases heq : st' = st
      · subst heq
        rw [PerStream.get_set_self]
        exact h.miss hq
      · rw [PerStream.get_set_ne _ heq]
        exact h
    · by_cases heq : st' = st
      · subst heq
        rw [PerStream.get_set_self, hown hst]
        exact (hreaches st').fed.missed hnone
      · obtain ⟨hbefore, hsame⟩ := hother st' heq hst
        rw [PerStream.get_set_ne _ heq, hsame]
        exact hb.tried st' hbefore
    · exact absurd hmem (hi.no_exit hlive status)

/-- A try of one channel, if the record says what it was told. -/
theorem Behind.attempt (hi : SenderInv a g s) (hb : Behind a before s) (hlive : s.stage ≠ .done)
    (hhand : ∀ st, s.stage.hand st = none) (st : Stream) {next : Stage}
    (hnext : ∀ st, next.hand st = none)
    (own : next.tried st = true → after.get st = (s.live.get st).lagged)
    (other : ∀ st', st' ≠ st → next.tried st' = true →
      s.stage.tried st' = true ∧ after.get st' = before.get st') :
    Behind a after (s.attempt st next) := by
  obtain ⟨hfound, hmiss⟩ := hb.receive hi after hlive hhand st
  unfold Sender.attempt
  dsimp only
  split
  · rename_i chunk hrecv
    exact hfound chunk _ hrecv
  · rename_i hnone
    exact hmiss next hnone hnext own other

/-- A position moves into the chunk in hand, or stays. -/
theorem sendLiveChunk_moves (s : Sender) (current : Bool) (st : Stream) (chunk : OutputChunk)
    (prefer : Bool) :
    (s.sendLiveChunk current st chunk prefer).stage = .top ∧
      (s.sendLiveChunk current st chunk prefer).live = s.live ∧
      (s.sendLiveChunk current st chunk prefer).opening = s.opening ∧
      (∀ status, .exit status ∈ (s.sendLiveChunk current st chunk prefer).frames →
        .exit status ∈ s.frames) ∧
      ∀ st', (s.sendLiveChunk current st chunk prefer).position.get st' = s.position.get st' ∨
        st' = st ∧ (s.sendLiveChunk current st chunk prefer).position.get st' ≤ chunk.stop := by
  unfold Sender.sendLiveChunk
  dsimp only
  split
  · exact ⟨rfl, rfl, rfl, fun _ => id, fun _ => .inl rfl⟩
  rename_i hskip
  have moved : ∀ position, position ≤ chunk.stop → ∀ st',
      (s.position.set st position).get st' = s.position.get st' ∨
        st' = st ∧ (s.position.set st position).get st' ≤ chunk.stop := by
    intro position hle st'
    by_cases heq : st' = st
    · subst heq
      rw [PerStream.get_set_self]
      exact .inr ⟨rfl, hle⟩
    · exact .inl (PerStream.get_set_ne _ heq _)
  have hstop : chunk.stop = chunk.offset + chunk.data.length := rfl
  split
  · refine ⟨rfl, rfl, rfl, fun status hmem => ?_, moved _ ?_⟩
    · rcases List.mem_append.mp hmem with hmem | hmem
      · exact hmem
      · cases st <;> cases List.mem_singleton.mp hmem
    · rw [List.length_drop]
      omega
  · exact ⟨rfl, rfl, rfl, fun _ => id, moved _ (by omega)⟩

/-- A chunk in hand is sent, or was sent before. -/
theorem Behind.send (hi : SenderInv a g s) (hb : Behind a before s) {st : Stream}
    {chunk : OutputChunk} {prefer : Bool} (hs : s.stage = .sending st chunk prefer)
    (current : Bool) : Behind a before (s.sendLiveChunk current st chunk prefer) := by
  have hlive : s.stage ≠ .done := by rw [hs]; exact nofun
  obtain ⟨hstage, hsame, hopening, hframes, hmoves⟩ := sendLiveChunk_moves s current st chunk prefer
  refine ⟨fun _ st' => ?_, fun st' hst => ?_, fun status hmem => ?_⟩
  · have h := hb.reaches hlive st'
    rw [hstage, hsame, hopening]
    rw [hs] at h
    have hhand : (Stage.sending st chunk prefer).hand st' = if st = st' then some chunk else none :=
      rfl
    rw [hhand] at h
    by_cases heq : st = st'
    · subst heq
      rw [if_pos rfl] at h
      exact h.send ((hmoves st).imp_right And.right)
    · rw [if_neg heq] at h
      rw [(hmoves st').resolve_right fun hmoved => heq hmoved.1.symm]
      exact h
  · rw [hstage] at hst
    cases st' <;> cases hst
  · exact absurd (hframes status hmem) (hi.no_exit hlive status)

/-- Only a try finds out that it is late. -/
theorem late_of_ne {act : SenderAct} (h : act ≠ .tryRecv) : s.late act before = before := by
  unfold Sender.late
  split
  · exact absurd rfl h
  · exact absurd rfl h
  · rfl

/-- **What a sender's step leaves in its queues**, and what is late for it. -/
theorem senderStep_behind {act : SenderAct} (hi : SenderInv a g s) (hb : Behind a before s)
    (h : senderStep a g s act = some t) : Behind a (s.late act before) t := by
  have stop : s.stage ≠ .done → Behind a before { s with stage := .done } := fun hlive =>
    hb.keep hlive rfl rfl rfl (fun hrunning => absurd rfl hrunning)
      (fun st hst => by cases st <;> cases hst) fun _ => id
  have unread : act ≠ .tryRecv → s.late act before = before := late_of_ne
  unfold senderStep at h
  dsimp only at h
  split at h
  · rename_i hs
    have hlive : s.stage ≠ .done := by rw [hs]; exact nofun
    rw [unread nofun]
    split at h <;> cases h
    · refine ⟨fun _ st => ?_, fun st hst => ?_, fun status hmem => ?_⟩
      · have hreaches := hb.reaches hlive st
        rw [hs] at hreaches
        exact hreaches.opened _
      · cases st <;> cases hst
      · exact absurd hmem (hi.no_exit hlive status)
    · exact stop hlive
  · rename_i receipt hs
    have hlive : s.stage ≠ .done := by rw [hs]; exact nofun
    rw [unread nofun]
    split at h
    · split at h <;> cases h <;>
        exact hb.keep hlive rfl rfl rfl (fun _ => by rw [hs]; rfl)
          (fun st hst => by cases st <;> cases hst) fun _ => id
    · cases h
      exact stop hlive
  · rename_i position hs
    have hlive : s.stage ≠ .done := by rw [hs]; exact nofun
    rw [unread nofun]
    split at h <;> cases h
    · refine hb.keep hlive rfl rfl rfl (fun _ => by rw [hs]; rfl)
        (fun st hst => by cases st <;> cases hst) fun status hmem => ?_
      rcases List.mem_append.mp hmem with hmem | hmem
      · exact hmem
      · cases List.mem_singleton.mp hmem
    · exact stop hlive
  · rename_i hs
    cases h
    refine hb.attempt hi (by rw [hs]; exact nofun) (by rw [hs]; exact fun _ => rfl) _
      (fun _ => rfl) (fun hst => ?_) fun st' _ hst => ?_
    · cases hprefer : s.preferStdout <;> rw [hprefer] at hst <;> cases hst
    · cases st' <;> cases hst
  · rename_i hs
    cases h
    refine hb.attempt hi (by rw [hs]; exact nofun) (by rw [hs]; exact fun _ => rfl) _
      (fun _ => rfl) (fun _ => ?_) fun st' hne hst => ?_
    · simp only [Sender.late, hs, PerStream.get_set_self]
    · cases st' with
      | stdout => exact absurd rfl hne
      | stderr => cases hst
  · rename_i hs
    cases h
    refine hb.attempt hi (by rw [hs]; exact nofun) (by rw [hs]; exact fun _ => rfl) _
      (fun _ => rfl) (fun _ => ?_) fun st' hne _ => ?_
    · simp only [Sender.late, hs, PerStream.get_set_self]
    · cases st' with
      | stderr => exact absurd rfl hne
      | stdout =>
        rw [hs]
        exact ⟨rfl, by simp only [Sender.late, hs, PerStream.get_set_ne _ hne]⟩
  · rename_i st chunk prefer hs
    rw [unread nofun]
    cases h
    exact hb.send hi hs _
  · rename_i hs
    have hlive : s.stage ≠ .done := by rw [hs]; exact nofun
    rw [unread nofun]
    split at h <;> cases h
    · exact hb.keep hlive rfl rfl rfl (fun _ => by rw [hs]; rfl)
        (fun st _ => by rw [hs]; cases st <;> rfl) fun _ => id
    · exact hb.keep hlive rfl rfl rfl (fun _ => by rw [hs]; rfl)
        (fun st hst => by cases st <;> cases hst) fun _ => id
  · rename_i status hs
    have hlive : s.stage ≠ .done := by rw [hs]; exact nofun
    rw [unread nofun]
    split at h <;> cases h
    · refine ⟨fun hrunning => absurd rfl hrunning, fun st hst => ?_, fun status' _ st => ?_⟩
      · cases st <;> cases hst
      have hreaches := hb.reaches hlive st
      have htried := hb.tried st (by rw [hs]; cases st <;> rfl)
      rw [hs] at hreaches
      exact ⟨hreaches, htried⟩
    · exact stop hlive
  · rename_i st hs
    have hlive : s.stage ≠ .done := by rw [hs]; exact nofun
    rw [unread nofun]
    obtain ⟨hfound, hmiss⟩ := hb.receive hi before hlive
      (by rw [hs]; exact fun _ => rfl) st
    unfold Sender.recv at h
    dsimp only at h
    split at h
    · cases h
    · rename_i hlag
      cases h
      refine hmiss .top (by rw [hlag]; exact fun _ => nofun) (fun _ => rfl) (fun hst => ?_)
        fun st' _ hst => ?_
      · cases st <;> cases hst
      · cases st' <;> cases hst
    · rename_i chunk hrecv
      cases h
      exact hfound chunk _ hrecv
  · rename_i hs
    have hlive : s.stage ≠ .done := by rw [hs]; exact nofun
    rw [unread nofun]
    cases h
    exact hb.keep hlive rfl rfl rfl (fun _ => by rw [hs]; rfl)
      (fun st hst => by cases st <;> cases hst) fun _ => id
  · cases h
  · rename_i hlive
    rw [unread nofun]
    cases h
    exact stop hlive
  · cases h

/-- A drain sends a chunk at its `send`, and nowhere else. -/
theorem drainStep_sends {st : Stream} {act : Session.DrainAct} {chunk : Option OutputChunk}
    (h : a.drainStep true hardened st act = some (b, chunk)) :
    (∃ c, chunk = some c) ↔ act = .send := by
  have nothing : chunk = none → act ≠ .send → ((∃ c, chunk = some c) ↔ act = .send) := by
    rintro rfl hact
    refine ⟨fun hsome => ?_, fun heq => absurd heq hact⟩
    obtain ⟨c, hc⟩ := hsome
    cases hc
  unfold Session.drainStep at h
  split at h
  · split at h <;> cases h
    exact nothing rfl nofun
  · cases h
    exact nothing rfl nofun
  · split at h <;> cases h <;> exact nothing rfl nofun
  · split at h
    · cases h
      exact nothing rfl nofun
    · split at h <;> cases h <;> exact nothing rfl nofun
  · split at h <;> cases h
    exact nothing rfl nofun
  · cases h
    exact nothing rfl nofun
  · cases h
    exact nothing rfl nofun
  · cases h
    exact nothing rfl nofun
  · cases h
    exact ⟨fun _ => rfl, fun _ => ⟨_, rfl⟩⟩
  · cases h

/-- A chunk is sent by its own drain's `send`, and by no other step. -/
theorem step_sends {act : Session.Act} {sent : Option (Stream × OutputChunk)}
    (h : a.step true hardened act = some (b, sent)) (st : Stream) :
    (∃ c, sent = some (st, c)) ↔ act = .drain st .send := by
  have nothing : sent = none → act ≠ .drain st .send →
      ((∃ c, sent = some (st, c)) ↔ act = .drain st .send) := by
    rintro rfl hact
    refine ⟨fun hsome => ?_, fun heq => absurd heq hact⟩
    obtain ⟨c, hc⟩ := hsome
    cases hc
  cases act with
  | install force =>
    refine nothing ?_ (by simp)
    simp only [Session.step] at h
    split at h <;> cases h <;> rfl
  | clear g =>
    cases h
    exact nothing rfl (by simp)
  | wait result =>
    refine nothing ?_ (by simp)
    simp only [Session.step] at h
    split at h <;> cases h
    rfl
  | drain st' act =>
    obtain ⟨⟨b', chunk⟩, hdrain, heq⟩ := Option.map_eq_some_iff.mp h
    cases heq
    have hsends := drainStep_sends hdrain
    constructor
    · rintro ⟨c, hc⟩
      obtain ⟨c', rfl, heq⟩ := Option.map_eq_some_iff.mp hc
      cases heq
      rw [hsends.mp ⟨c, rfl⟩]
    · intro heq
      cases heq
      obtain ⟨c, rfl⟩ := hsends.mpr rfl
      exact ⟨c, rfl⟩

/-- Where nothing is sent nothing is late. -/
theorem lateSent_still {act : Session.Act} (h : a.step true hardened act = some (b, none)) :
    s.lateSent act before = before := by
  unfold Sender.lateSent
  split
  · rename_i st
    obtain ⟨c, hc⟩ := (step_sends h st).mpr rfl
    cases hc
  · rfl

/-- A session's step, beside the push of what it sends. -/
theorem behind_session {act : Session.Act} {sent : Option (Stream × OutputChunk)}
    (ha : SessionInv true a) (h : a.step true hardened act = some (b, sent))
    (hi : SenderInv a g s) (hb : Behind a before s) :
    Behind b (s.lateSent act before) (s.pushed sent) := by
  obtain ⟨hstage, hframes, hopening, hposition⟩ := pushed_stage s sent
  have hmoves := lane_moves ha h
  have hsends := step_sends h
  refine ⟨fun hlive st => ?_, fun st hst => ?_, fun status hmem st => ?_⟩
  · rw [hstage] at hlive
    obtain ⟨hsame, hpush⟩ := pushed_live hlive st sent
    have hreaches := hb.reaches hlive st
    rw [hstage, hopening, hposition]
    rcases hmoves st with ⟨hne, -, hstop⟩ | ⟨c, hc, hsent⟩
    · rw [hsame hne, hstop]
      exact hreaches
    · rw [hpush c hc]
      exact hreaches.push hsent
  · rw [hstage] at hst
    have hlive : s.stage ≠ .done := fun hdone => by
      rw [hdone] at hst
      cases st <;> cases hst
    obtain ⟨hsame, hpush⟩ := pushed_live hlive st sent
    rcases hmoves st with ⟨hne, -, -⟩ | ⟨c, hc, -⟩
    · -- what is sent on the other channel is not late here
      have hother : (s.lateSent act before).get st = before.get st := by
        unfold Sender.lateSent
        split
        · rename_i st'
          obtain ⟨c, hc⟩ := (hsends st').mpr rfl
          have hst' : st ≠ st' := by
            rintro rfl
            exact hne c hc
          split
          · exact PerStream.get_set_ne _ hst' _
          · rfl
        · rfl
      rw [hother, hsame hne]
      exact hb.tried st hst
    · have hact := (hsends st).mp ⟨c, hc⟩
      subst hact
      have hlate : (s.lateSent (.drain st .send) before).get st = true := by
        simp only [Sender.lateSent, hst, if_true, PerStream.get_set_self]
      rw [hlate, hpush c hc]
      exact ⟨nofun, fun hnil => absurd hnil (Receiver.push_queue_ne_nil capacity_pos _ c)⟩
  · rw [hframes] at hmem
    obtain ⟨-, hended, -⟩ := hi.exited status hmem
    obtain ⟨rfl, hlanes, -⟩ := hended.still ha h
    rw [lateSent_still h, hlanes st]
    exact hb.exited status hmem st

end Sender

/-! ## Runs -/

/-- Of every sender, what is late is what is left in its queues. -/
def AllBehind (s : State) (r : Nat → PerStream Bool) : Prop :=
  ∀ g sender, s.senders g = some sender → Behind s.session (r g) sender

/-- **One step keeps every sender behind nothing but what is late.** -/
theorem behind_step {s t : State} {act : Act} {r : Nat → PerStream Bool} (hi : Inv s)
    (hb : AllBehind s r) (h : step hardened s act = some t) : AllBehind t (late s act r) := by
  cases act with
  | session act =>
    obtain ⟨⟨b, sent⟩, hs, rfl⟩ := Option.map_eq_some_iff.mp h
    intro g sender hg
    obtain ⟨hpushed, hsession⟩ := push_senders { s with session := b } sent g
    rw [hpushed] at hg
    obtain ⟨old, hold, rfl⟩ := Option.map_eq_some_iff.mp hg
    have hlate : late s (.session act) r g = old.lateSent act (r g) := by
      simp only [late, show s.senders g = some old from hold]
    rw [hlate, hsession]
    exact behind_session hi.session hs (hi.senders g old hold) (hb g old hold)
  | subscribe g' =>
    simp only [step] at h
    split at h <;> cases h
    have hlate : late s (.subscribe g') r = r := by
      funext g
      unfold late
      split <;> rfl
    rw [hlate]
    apply Parties.forall_update_some
    · refine ⟨fun _ st => ?_, fun st hst => ?_, fun status hmem => ?_⟩
      · rw [PerStream.get_both, PerStream.get_both]
        refine ⟨fun hlag => ?_, fun c hc => ?_, fun c hc => ?_, .inl (Nat.le_refl 0)⟩
        · cases hlag
        · cases hc
        · cases hc
      · cases st <;> cases hst
      · cases hmem
    · intro g sender _ hg
      exact hb g sender hg
  | sender g' act =>
    simp only [step] at h
    split at h
    · cases h
    rename_i old hold
    obtain ⟨new, hnew, rfl⟩ := Option.map_eq_some_iff.mp h
    apply Parties.forall_update_some
    · have hlate : late s (.sender g' act) r g' = old.late act (r g') := by
        simp only [late, hold, if_true]
      rw [hlate]
      exact senderStep_behind (hi.senders g' old hold) (hb g' old hold) hnew
    · intro g sender hne hg
      have hlate : late s (.sender g' act) r g = r g := by
        simp only [late, hg, if_neg (Ne.symm hne)]
      rw [hlate]
      exact hb g sender hg

/-- Every recorded run keeps it. -/
theorem timed_behind {ok : State × (Nat → PerStream Bool) → Act → Prop}
    {x : State × (Nat → PerStream Bool)} (h : (timed hardened).Reach ok x) :
    AllBehind x.1 x.2 := by
  refine h.invariant (P := fun x => AllBehind x.1 x.2) ?_ ?_
  · intro x hx g sender hg
    rw [hx.1.2] at hg
    cases hg
  · intro x act y hr hb _ hs
    obtain ⟨hstep, hrecord⟩ := Machine.recorded_step.mp hs
    rw [← hrecord]
    exact behind_step (reachable_inv hr.unrecorded) hb hstep

/-! ## Exits -/

/-- Every byte between the opening and the final ends was sent or evicted. -/
def Complete (session : Session) (s : Sender) : Prop :=
  ∀ st i, s.opening.get st ≤ i → i < session.metadata.ends.get st →
    Carried st (session.produced.get st) s.frames i ∨ Lost (s.live.get st) i

/-- A queue that is not empty ends with a byte that the sender has neither sent nor lost. -/
theorem unsent_of_queue {st : Stream} {l : Lane} {r : Receiver OutputChunk}
    {opening position : Nat} {frames : List Frame}
    (hreaches : Reaches l.sentStop r none opening position)
    (hfeed : Feed l r) (hcov : Covered st l r none opening position frames)
    (left : r.queue ≠ []) (past : opening < l.sentStop) :
    ¬(Carried st l.produced frames (l.sentStop - 1) ∨ Lost r (l.sentStop - 1)) := by
  obtain ⟨c, hc⟩ : ∃ c, r.queue.getLast? = some c :=
    Option.isSome_iff_exists.mp (List.getLast?_isSome.mpr left)
  have hmem : c ∈ r.queue := List.mem_of_getLast? hc
  have hstop : c.offset + c.data.length = l.sentStop := hreaches.last c hc
  have hnonempty := (hfeed.genuine c (List.mem_append_right _ hmem)).nonempty
  rintro (⟨f, hf, b, hcarries, -⟩ | ⟨e, he, hcovers⟩)
  · have hsent := hcov.sent f hf _ b hcarries
    rcases hreaches.position with hle | ⟨-, hbefore⟩
    · omega
    · have := hbefore c hmem
      omega
  · have horder : e.stop ≤ c.offset := (List.pairwise_append.mp hfeed.sorted).2.2 e he c hmem
    have := hcovers.2
    omega

/-- Over ended streams, and with nothing in hand, what is not complete came late. -/
theorem complete_iff_inTime {session : Session} {s : Sender} {late : PerStream Bool}
    {status : ExitResult} (hi : SessionInv true session) (hended : Ended session status)
    (hfeed : ∀ st, Feed (session.lane st) (s.live.get st))
    (hcov : ∀ st, s.Covered session st) (hhand : ∀ st, s.stage.hand st = none)
    (hreaches : ∀ st, Reaches (session.lane st).sentStop (s.live.get st) none (s.opening.get st)
      (s.position.get st))
    (hlate : ∀ st, late.get st = false ↔ (s.live.get st).queue = []) :
    Complete session s ↔ InTime session s.opening late := by
  have hsent : ∀ st, (session.lane st).sentStop = session.metadata.ends.get st := fun st => by
    simp only [Lane.sentStop, ((hi.lanes st).closed (hended.2 st)).1]
    rfl
  have hcovered : ∀ st, Live.Covered st (session.lane st) (s.live.get st) none
      (s.opening.get st) (s.position.get st) s.frames := fun st => hhand st ▸ hcov st
  constructor
  · intro hcomplete st
    by_contra hneither
    obtain ⟨hqueue, hpast⟩ := not_or.mp hneither
    have hpast := Nat.not_le.mp hpast
    refine unsent_of_queue (hreaches st) (hfeed st) (hcovered st)
      (fun hnil => hqueue ((hlate st).mpr hnil)) hpast (hcomplete st _ ?_ ?_)
    · omega
    · rw [← hsent st]
      omega
  · intro htime st i h₁ h₂
    rw [← hsent st] at h₂
    rcases htime st with hnone | hle
    · have hnil := (hlate st).mp hnone
      rcases (hcovered st).ahead i h₁ h₂ with hc | hl | ⟨c, hc | hc, -⟩
      · exact .inl hc
      · exact .inr hl
      · rw [hnil] at hc
        cases hc
      · cases hc
    · omega

/-- Exits come from looks that find the session ended, and do not move the opening. -/
theorem senderStep_exit {session : Session} {g : Nat} {s t : Sender} {act : SenderAct}
    (h : senderStep session g s act = some t) :
    (∀ status, t.stage = .exit status → act = .look ∧
      (Buffered.terminalStatus session.metadata).isSome = true ∧ t.opening = s.opening) ∧
    ∀ status, .exit status ∈ t.frames → .exit status ∈ s.frames ∨
      (s.stage = .exit status ∧ t.opening = s.opening) := by
  have attempt : ∀ st next, (∀ status, next ≠ Stage.exit status) →
      (∀ status, (s.attempt st next).stage ≠ .exit status) ∧
        (s.attempt st next).frames = s.frames := by
    intro st next hnext
    unfold Sender.attempt
    dsimp only
    split
    · exact ⟨nofun, rfl⟩
    · exact ⟨hnext, rfl⟩
  unfold senderStep at h
  dsimp only at h
  split at h
  · split at h <;> cases h <;> exact ⟨nofun, fun _ => .inl⟩
  · split at h
    · split at h <;> cases h <;> exact ⟨nofun, fun _ => .inl⟩
    · cases h
      exact ⟨nofun, fun _ => .inl⟩
  · split at h <;> cases h
    · refine ⟨nofun, fun status hmem => .inl ?_⟩
      rcases List.mem_append.mp hmem with hmem | hmem
      · exact hmem
      · cases List.mem_singleton.mp hmem
    · exact ⟨nofun, fun _ => .inl⟩
  · cases h
    obtain ⟨hstage, hframes⟩ := attempt (if s.preferStdout then .stdout else .stderr) .stdout nofun
    exact ⟨fun status he => absurd he (hstage status), fun status hmem => .inl (hframes ▸ hmem)⟩
  · cases h
    obtain ⟨hstage, hframes⟩ := attempt .stdout .stderr nofun
    exact ⟨fun status he => absurd he (hstage status), fun status hmem => .inl (hframes ▸ hmem)⟩
  · cases h
    obtain ⟨hstage, hframes⟩ := attempt .stderr .look nofun
    exact ⟨fun status he => absurd he (hstage status), fun status hmem => .inl (hframes ▸ hmem)⟩
  · rename_i st chunk prefer hs
    cases h
    unfold Sender.sendLiveChunk
    dsimp only
    split
    · exact ⟨nofun, fun _ => .inl⟩
    · split
      · refine ⟨nofun, fun status hmem => .inl ?_⟩
        rcases List.mem_append.mp hmem with hmem | hmem
        · exact hmem
        · cases st <;> cases List.mem_singleton.mp hmem
      · exact ⟨nofun, fun _ => .inl⟩
  · split at h
    · rename_i status hterm
      cases h
      exact ⟨fun _ _ => ⟨rfl, by rw [hterm]; rfl, rfl⟩, fun _ => .inl⟩
    · cases h
      exact ⟨nofun, fun _ => .inl⟩
  · rename_i status hs
    split at h <;> cases h
    · refine ⟨nofun, fun status' hmem => ?_⟩
      rcases List.mem_append.mp hmem with hmem | hmem
      · exact .inl hmem
      · cases List.mem_singleton.mp hmem
        exact .inr ⟨hs, rfl⟩
    · exact ⟨nofun, fun _ => .inl⟩
  · rename_i st hs
    unfold Sender.recv at h
    dsimp only at h
    split at h <;> cases h <;> exact ⟨nofun, fun _ => .inl⟩
  · cases h
    exact ⟨nofun, fun _ => .inl⟩
  · cases h
  · cases h
    exact ⟨nofun, fun _ => .inl⟩
  · cases h

/-- What is left for senders that are about to exit, or have exited, is in time. -/
def Careful (s : State) (r : Nat → PerStream Bool) : Prop :=
  ∀ g sender, s.senders g = some sender →
    (∃ status, sender.stage = .exit status ∨ .exit status ∈ sender.frames) →
      InTime s.session sender.opening (r g)

/-- **One step that is in time keeps every exit so.** -/
theorem careful_step {s t : State} {act : Act} {r : Nat → PerStream Bool} (hi : Inv s)
    (hc : Careful s r) (hok : LooksInTime (s, r) act) (h : step hardened s act = some t) :
    Careful t (late s act r) := by
  cases act with
  | session act =>
    obtain ⟨⟨b, sent⟩, hs, rfl⟩ := Option.map_eq_some_iff.mp h
    intro g sender hg hexit
    obtain ⟨hpushed, hsession⟩ := push_senders { s with session := b } sent g
    rw [hpushed] at hg
    obtain ⟨old, hold, rfl⟩ := Option.map_eq_some_iff.mp hg
    have hold : s.senders g = some old := hold
    obtain ⟨hstage, hframes, hopening, -⟩ := pushed_stage old sent
    rw [hstage, hframes] at hexit
    have hsender := hi.senders g old hold
    obtain ⟨status, hended⟩ : ∃ status, Ended s.session status := by
      obtain ⟨status, he | hmem⟩ := hexit
      · exact ⟨status, hsender.exiting status he⟩
      · exact ⟨status, (hsender.exited status hmem).2.1⟩
    obtain ⟨rfl, hlanes, -⟩ := hended.still hi.session hs
    have hlate : late s (.session act) r g = r g := by
      simp only [late, hold]
      exact lateSent_still hs
    intro st
    rw [hsession, hopening, hlate, hlanes st]
    exact hc g old hold hexit st
  | subscribe g' =>
    simp only [step] at h
    split at h <;> cases h
    have hlate : late s (.subscribe g') r = r := by
      funext g
      unfold late
      split <;> rfl
    rw [hlate]
    apply Parties.forall_update_some
    · rintro ⟨status, hexit | hexit⟩ <;> cases hexit
    · intro g sender _ hg
      exact hc g sender hg
  | sender g' act =>
    simp only [step] at h
    split at h
    · cases h
    rename_i old hold
    obtain ⟨new, hnew, rfl⟩ := Option.map_eq_some_iff.mp h
    obtain ⟨hstage, hframes⟩ := senderStep_exit hnew
    apply Parties.forall_update_some
    · have hlate : late s (.sender g' act) r g' = old.late act (r g') := by
        simp only [late, hold, if_true]
      rintro ⟨status, hexit | hexit⟩
      · obtain ⟨rfl, hterm, hopening⟩ := hstage status hexit
        have hlook : old.late .look (r g') = r g' := late_of_ne (by simp)
        rw [hlate, hlook, hopening]
        exact hok g' old rfl hold hterm
      · rcases hframes status hexit with hmem | ⟨hat, hopening⟩
        · have hdone := ((hi.senders g' old hold).exited status hmem).1
          simp only [senderStep, hdone, reduceCtorEq] at hnew
        · have hsame : old.late act (r g') = r g' := by simp only [Sender.late, hat]
          rw [hlate, hsame, hopening]
          exact hc g' old hold ⟨status, .inl hat⟩
    · intro g sender hne hg
      have hlate : late s (.sender g' act) r g = r g := by
        simp only [late, hg, if_neg (Ne.symm hne)]
      rw [hlate]
      exact hc g sender hg

/-- In every run whose looks are in time every exit is. -/
theorem timed_careful {x : State × (Nat → PerStream Bool)}
    (h : (timed hardened).Reach LooksInTime x) : Careful x.1 x.2 := by
  refine h.invariant (P := fun x => Careful x.1 x.2) ?_ ?_
  · intro x hx g sender hg
    rw [hx.1.2] at hg
    cases hg
  · intro x act y hr hc hok hs
    obtain ⟨hstep, hrecord⟩ := Machine.recorded_step.mp hs
    rw [← hrecord]
    exact careful_step (reachable_inv hr.unrecorded) hc hok hstep

/-- Whatever reached an exit, its output is complete exactly when nothing was late for it. -/
theorem exited_complete_iff {x : State × (Nat → PerStream Bool)}
    (h : (timed hardened).Reachable x) {g : Nat} {sender : Sender}
    (hg : x.1.senders g = some sender) {status : ExitResult}
    (hexit : .exit status ∈ sender.frames) :
    Complete x.1.session sender ↔ InTime x.1.session sender.opening (x.2 g) := by
  have hi := reachable_inv h.unrecorded
  obtain ⟨hdone, hended, hcov⟩ := (hi.senders g sender hg).exited status hexit
  have hbehind := (timed_behind h g sender hg).exited status hexit
  refine complete_iff_inTime hi.session hended (fun st => (hcov st).1) (fun st => (hcov st).2) ?_
    (fun st => (hbehind st).1) fun st => (hbehind st).2
  rw [hdone]
  exact fun _ => rfl

/-- **No live output is lost at exit, in the runs where nothing is late for a look that finds the
session ended**: the turn's last try of each stream was not told of a lag and no chunk was sent on
its channel between that try and the look, or the channel was sent nothing past the opening. There
every byte from an attachment's opening to the final ends is in its frames or in an evicted chunk,
so it is in its frames if nothing was evicted. Of any run, and every run has its record, an exit is
complete if and only if nothing was late for it. -/
theorem live_exits_complete (hardened : Bool) :
    (∀ s, (machine hardened).Reachable s → ∃ r, (timed hardened).Reachable (s, r)) ∧
    (∀ x, (timed hardened).Reach LooksInTime x → ∀ g sender, x.1.senders g = some sender →
      ∀ status, .exit status ∈ sender.frames → Complete x.1.session sender ∧
        ∀ st, (sender.live.get st).evicted = [] → ∀ i, sender.opening.get st ≤ i →
          i < x.1.session.metadata.ends.get st →
          Carried st (x.1.session.produced.get st) sender.frames i) ∧
    ∀ x, (timed hardened).Reachable x → ∀ g sender, x.1.senders g = some sender →
      ∀ status, .exit status ∈ sender.frames →
        (Complete x.1.session sender ↔ InTime x.1.session sender.opening (x.2 g)) := by
  refine ⟨fun s h => h.recorded, fun x h g sender hg status hexit => ?_,
    fun x h g sender hg status hexit => exited_complete_iff h hg hexit⟩
  have hcomplete : Complete x.1.session sender :=
    (exited_complete_iff (h.mono fun _ _ _ => trivial) hg hexit).mpr
      (timed_careful h g sender hg ⟨status, .inr hexit⟩)
  refine ⟨hcomplete, fun st hnone i h₁ h₂ => ?_⟩
  rcases hcomplete st i h₁ h₂ with hc | ⟨e, he, _⟩
  · exact hc
  · rw [hnone] at he
    cases he

/-- A one-byte output that is published before the sender's first turn. -/
theorem live_exits_complete_published :
    ∃ x sender, (timed false).Reach LooksInTime x ∧ x.1.senders 1 = some sender ∧
      sender.frames = [.stdoutData 0 [7], .exit ⟨some 0, none⟩] ∧
      Complete x.1.session sender := by
  let drain (act : Session.DrainAct) : Act := .session (.drain .stdout act)
  let setup : List Act := [.session (.install false), .subscribe 1, .sender 1 .hello,
    drain (.read [7]), drain .count, drain .publish, drain .send, drain .eof,
    .session (.drain .stderr .eof), .session (.wait (.ok ⟨some 0, none⟩)), .sender 1 (.turn none),
    .sender 1 .tryRecv, .sender 1 .emit, .sender 1 (.turn none), .sender 1 .tryRecv,
    .sender 1 .tryRecv, .sender 1 .tryRecv]
  have start : (timed false).Reach LooksInTime ({ session := {} }, fun _ => .both false) :=
    .init ⟨⟨⟨.both .reading, none, fun st => .inl (PerStream.get_both _ st), rfl⟩, rfl⟩, rfl⟩
  have before := start.run setup
    (Machine.meets_of_forall (by
      intro act hact s g sender he
      subst he
      simp [setup, drain] at hact)) rfl
  have looked : (timed false).Reach LooksInTime _ :=
    .step before (a := .sender 1 .look) (by
      intro g sender he hg _ st
      cases he
      cases hg
      cases st <;> exact .inl rfl) rfl
  have exited : (timed false).Reach LooksInTime _ :=
    .step looked (a := .sender 1 .emit) (fun g sender he => by cases he) rfl
  exact ⟨_, _, exited, rfl, rfl, ((live_exits_complete false).2.1 _ exited 1 _ rfl
    ⟨some 0, none⟩ (by decide)).1⟩

/-- The command's only byte is published after the sender's three tries and before its look at the
flags: the client gets the exit and no output, with nothing evicted. -/
theorem live_exit_loses_output :
    ¬ ∀ s, (machine false).Reachable s → ∀ g sender, s.senders g = some sender →
      ∀ status, .exit status ∈ sender.frames → Complete s.session sender := by
  intro claimed
  let drain (act : Session.DrainAct) : Act := .session (.drain .stdout act)
  let labels : List Act := [.session (.install false), .subscribe 1, .sender 1 .hello,
    .sender 1 (.turn none), .sender 1 .tryRecv, .sender 1 .tryRecv, .sender 1 .tryRecv,
    drain (.read [7]), drain .count, drain .publish, drain .send, drain .eof,
    .session (.drain .stderr .eof), .session (.wait (.ok ⟨some 0, none⟩)), .sender 1 .look,
    .sender 1 .emit]
  have start : (machine false).Reachable { session := {} } :=
    .init ⟨⟨.both .reading, none, fun st => .inl (PerStream.get_both _ st), rfl⟩, rfl⟩
  have reached := @Machine.Reachable.run _ _ (machine false) _ _ start labels rfl
  rcases claimed _ reached 1 _ rfl ⟨some 0, none⟩ (by decide) .stdout 0 (Nat.le_refl _)
    (by decide) with ⟨f, hf, b, ⟨offset, data, he, _⟩, _⟩ | ⟨c, hc, _⟩
  · cases List.mem_singleton.mp hf
    cases he
  · cases hc

end Pipekeep.Live
