import Pipekeep.Laws.Drain
import Pipekeep.Lib.Parties
import Pipekeep.Lib.Slice
import Pipekeep.Live

/-!
# What a live sender has not lost

For one stream, every byte from the opening on that has reached the channel is written in a frame,
in a chunk the channel evicted, in a chunk still queued, or in the chunk the sender has in hand
(`Covered`). Tries, receives and sends only move a byte along this list.

An exit leaves the last two out: what that comes to is told in `Laws.LiveExits`.
-/

namespace Pipekeep

/-- The chunk ends where the other begins, or before. -/
def OutputChunk.Before (a b : OutputChunk) : Prop := a.stop ≤ b.offset

/-- The chunk holds the byte at position `i`. -/
def OutputChunk.Covers (c : OutputChunk) (i : Nat) : Prop := c.offset ≤ i ∧ i < c.stop

namespace Live

open Broadcast Slice

variable {hardened : Bool}

/-! ## One stream of one sender -/

/-- A frame carries the byte the command produced at `i`. -/
def Carried (st : Stream) (produced : List UInt8) (frames : List Frame) (i : Nat) : Prop :=
  ∃ f ∈ frames, ∃ b, f.Carries st i b ∧ produced[i]? = some b

/-- A chunk the channel evicted held the byte at `i`. -/
def Lost (r : Receiver OutputChunk) (i : Nat) : Prop := ∃ c ∈ r.evicted, c.Covers i

/-- The chunk is part of what has reached the channel. -/
structure Genuine (l : Lane) (c : OutputChunk) : Prop where
  nonempty : 0 < c.data.length
  le : c.stop ≤ l.sentStop
  inside : c.stop ≤ l.produced.length
  data : c.data = stretch l.produced c.offset c.stop

/-- A receiver's messages are what reached the channel, in order. -/
structure Feed (l : Lane) (r : Receiver OutputChunk) : Prop where
  sorted : r.messages.Pairwise OutputChunk.Before
  genuine : ∀ c ∈ r.messages, Genuine l c

/-- Where every byte of the stream from the opening on is. -/
structure Covered (st : Stream) (l : Lane) (r : Receiver OutputChunk) (hand : Option OutputChunk)
    (opening position : Nat) (frames : List Frame) : Prop where
  le : opening ≤ position
  sent : ∀ f ∈ frames, ∀ i b, f.Carries st i b → i < position
  past : ∀ i, opening ≤ i → i < position → Carried st l.produced frames i ∨ Lost r i
  ahead : ∀ i, opening ≤ i → i < l.sentStop → Carried st l.produced frames i ∨ Lost r i ∨
    ∃ c, (c ∈ r.queue ∨ hand = some c) ∧ c.Covers i
  first : ∀ c, hand = some c → Genuine l c ∧ ∀ c' ∈ r.queue, c.Before c'

section Stream

variable {st : Stream} {l l' : Lane} {r : Receiver OutputChunk} {hand : Option OutputChunk}
  {opening position : Nat} {frames : List Frame}

/-- A byte that was carried stays so as the lane goes on. -/
theorem Carried.grow {produced produced' : List UInt8} (h : produced <+: produced') {i : Nat}
    (hc : Carried st produced frames i) : Carried st produced' frames i := by
  obtain ⟨f, hf, b, hcar, hb⟩ := hc
  obtain ⟨rest, rfl⟩ := h
  have hlt : i < produced.length := (List.getElem?_eq_some_iff.mp hb).1
  exact ⟨f, hf, b, hcar, by rw [List.getElem?_append_left hlt, hb]⟩

/-- A byte that was carried stays so as frames follow. -/
theorem Carried.append {produced : List UInt8} {i : Nat} (more : List Frame)
    (hc : Carried st produced frames i) : Carried st produced (frames ++ more) i := by
  obtain ⟨f, hf, b, h⟩ := hc
  exact ⟨f, List.mem_append_left _ hf, b, h⟩

/-- A chunk stays genuine as the lane goes on. -/
theorem Genuine.grow (hp : l.produced <+: l'.produced) (hs : l.sentStop ≤ l'.sentStop)
    {c : OutputChunk} (h : Genuine l c) : Genuine l' c := by
  refine ⟨h.nonempty, Nat.le_trans h.le hs, Nat.le_trans h.inside hp.length_le, ?_⟩
  rw [stretch_of_isPrefix hp h.inside]
  exact h.data

/-- A lane that sends nothing on its channel leaves its receivers where they are. -/
theorem Feed.grow (hp : l.produced <+: l'.produced) (hs : l.sentStop ≤ l'.sentStop)
    (h : Feed l r) : Feed l' r :=
  ⟨h.sorted, fun c hc => (h.genuine c hc).grow hp hs⟩

/-- What is covered stays so as long as nothing is sent on the channel. -/
theorem Covered.grow (hp : l.produced <+: l'.produced) (hs : l'.sentStop = l.sentStop)
    (h : Covered st l r hand opening position frames) :
    Covered st l' r hand opening position frames := by
  refine ⟨h.le, h.sent, fun i h₁ h₂ => ?_, fun i h₁ h₂ => ?_, fun c hc => ?_⟩
  · exact (h.past i h₁ h₂).imp_left (Carried.grow hp)
  · exact (h.ahead i h₁ (hs ▸ h₂)).imp_left (Carried.grow hp)
  · exact ⟨(h.first c hc).1.grow hp (Nat.le_of_eq hs.symm), (h.first c hc).2⟩

/-- The lane sends its receivers the next chunk. -/
structure Sends (l l' : Lane) (c : OutputChunk) : Prop where
  offset : c.offset = l.sentStop
  stop : c.stop = l'.sentStop
  nonempty : 0 < c.data.length
  inside : c.stop ≤ l.produced.length
  data : c.data = l.produced.drop c.offset
  produced : l'.produced = l.produced

/-- A lane that sends goes on. -/
theorem Sends.grow {c : OutputChunk} (h : Sends l l' c) :
    l.produced <+: l'.produced ∧ l.sentStop ≤ l'.sentStop := by
  refine ⟨h.produced ▸ List.prefix_rfl, ?_⟩
  rw [← h.offset, ← h.stop]
  exact Nat.le_add_right _ _

/-- The chunk that is sent is genuine. -/
theorem Sends.genuine {c : OutputChunk} (h : Sends l l' c) : Genuine l' c := by
  refine ⟨h.nonempty, Nat.le_of_eq h.stop, h.produced ▸ h.inside, ?_⟩
  have hlen : c.stop - c.offset = c.data.length := Nat.add_sub_cancel_left _ _
  rw [h.produced, stretch, hlen, ← h.data, List.take_length]

/-- The chunk that is sent comes behind the receiver's. -/
theorem Feed.push {c : OutputChunk} (hs : Sends l l' c) (h : Feed l r) :
    Feed l' (r.push liveCapacity c) := by
  obtain ⟨hp, hle⟩ := hs.grow
  refine ⟨?_, fun a ha => ?_⟩
  · rw [Receiver.messages_push]
    refine List.pairwise_append.mpr ⟨h.sorted, List.pairwise_singleton _ _, fun a ha b hb => ?_⟩
    rw [List.mem_singleton.mp hb]
    exact Nat.le_trans (h.genuine a ha).le (Nat.le_of_eq hs.offset.symm)
  · rw [Receiver.messages_push] at ha
    rcases List.mem_append.mp ha with ha | ha
    · exact (h.genuine a ha).grow hp hle
    · rw [List.mem_singleton.mp ha]
      exact hs.genuine

/-- What was queued before a push is queued after it or evicted, and nothing but the new chunk is
queued beside it. -/
theorem mem_queue_push {c x : OutputChunk} :
    (x ∈ r.queue → x ∈ (r.push liveCapacity c).queue ∨ x ∈ (r.push liveCapacity c).evicted) ∧
    (x ∈ (r.push liveCapacity c).queue → x ∈ r.queue ∨ x = c) := by
  constructor
  · intro hx
    have hmem : x ∈ (r.push liveCapacity c).messages := by
      rw [Receiver.messages_push]
      exact List.mem_append_left _ (List.mem_append_right _ hx)
    exact (List.mem_append.mp hmem).symm
  · intro hx
    unfold Receiver.push at hx
    split at hx
    · simpa using hx
    · have := List.mem_of_mem_tail hx
      simpa using this

/-- The chunk that is sent is covered by the queue. -/
theorem Covered.push {c : OutputChunk} (hs : Sends l l' c)
    (h : Covered st l r hand opening position frames) :
    Covered st l' (r.push liveCapacity c) hand opening position frames := by
  obtain ⟨hp, hle⟩ := hs.grow
  have lost : ∀ i, Lost r i → Lost (r.push liveCapacity c) i := fun i ⟨e, he, hcov⟩ =>
    ⟨e, Receiver.evicted_push _ _ _ e he, hcov⟩
  have new : c ∈ (r.push liveCapacity c).queue ∨ c ∈ (r.push liveCapacity c).evicted := by
    have hmem : c ∈ (r.push liveCapacity c).messages := by
      rw [Receiver.messages_push]
      exact List.mem_append_right _ (List.mem_singleton.mpr rfl)
    exact (List.mem_append.mp hmem).symm
  refine ⟨h.le, h.sent, fun i h₁ h₂ => ?_, fun i h₁ h₂ => ?_, fun d hd => ?_⟩
  · exact (h.past i h₁ h₂).imp (Carried.grow hp) (lost i)
  · by_cases hold : i < l.sentStop
    · rcases h.ahead i h₁ hold with hc | hl | ⟨x, hx | hx, hcov⟩
      · exact .inl (hc.grow hp)
      · exact .inr (.inl (lost i hl))
      · rcases mem_queue_push.1 hx with hq | he
        · exact .inr (.inr ⟨x, .inl hq, hcov⟩)
        · exact .inr (.inl ⟨x, he, hcov⟩)
      · exact .inr (.inr ⟨x, .inr hx, hcov⟩)
    · have hcov : c.Covers i := ⟨by rw [hs.offset]; omega, by rw [hs.stop]; exact h₂⟩
      rcases new with hq | he
      · exact .inr (.inr ⟨c, .inl hq, hcov⟩)
      · exact .inr (.inl ⟨c, he, hcov⟩)
  · obtain ⟨hgen, hbefore⟩ := h.first d hd
    refine ⟨hgen.grow hp hle, fun x hx => ?_⟩
    rcases mem_queue_push.2 hx with hq | rfl
    · exact hbefore x hq
    · exact Nat.le_trans hgen.le (Nat.le_of_eq hs.offset.symm)

/-! ## The sender takes and sends -/

/-- A receiver that has taken chunks keeps its feed. -/
theorem Feed.take {r' : Receiver OutputChunk} (h : Feed l r) (he : r'.evicted = r.evicted)
    (hq : r'.queue <:+ r.queue) : Feed l r' := by
  have hsub : r'.messages.Sublist r.messages := by
    unfold Receiver.messages
    rw [he]
    exact (List.Sublist.refl _).append hq.sublist
  exact ⟨h.sorted.sublist hsub, fun c hc => h.genuine c (hsub.subset hc)⟩

/-- A receive that found a chunk puts it in hand. -/
theorem Covered.take {r' : Receiver OutputChunk} {c : OutputChunk} (hf : Feed l r)
    (h : Covered st l r none opening position frames) (hq : r.queue = c :: r'.queue)
    (he : r'.evicted = r.evicted) :
    Covered st l r' (some c) opening position frames := by
  have lost : ∀ i, Lost r i → Lost r' i := fun i ⟨e, hmem, hcov⟩ => ⟨e, he ▸ hmem, hcov⟩
  refine ⟨h.le, h.sent, fun i h₁ h₂ => (h.past i h₁ h₂).imp_right (lost i),
    fun i h₁ h₂ => ?_, fun d hd => ?_⟩
  · rcases h.ahead i h₁ h₂ with hc | hl | ⟨x, hx | hx, hcov⟩
    · exact .inl hc
    · exact .inr (.inl (lost i hl))
    · rw [hq] at hx
      rcases List.mem_cons.mp hx with rfl | hx
      · exact .inr (.inr ⟨x, .inr rfl, hcov⟩)
      · exact .inr (.inr ⟨x, .inl hx, hcov⟩)
    · cases hx
  · cases hd
    have hsorted := hf.sorted
    unfold Receiver.messages at hsorted
    rw [hq] at hsorted
    have hmem : c ∈ r.messages :=
      List.mem_append_right _ (hq ▸ List.mem_cons_self)
    exact ⟨hf.genuine c hmem,
      fun _ => List.rel_of_pairwise_cons (List.pairwise_append.mp hsorted).2.1⟩

/-- A receive that found none leaves everything where it is. -/
theorem Covered.miss {r' : Receiver OutputChunk} (h : Covered st l r hand opening position frames)
    (hq : r'.queue = r.queue) (he : r'.evicted = r.evicted) :
    Covered st l r' hand opening position frames := by
  refine ⟨h.le, h.sent, fun i h₁ h₂ => ?_, fun i h₁ h₂ => ?_, fun c hc => ?_⟩
  · exact (h.past i h₁ h₂).imp_right fun ⟨e, hmem, hcov⟩ => ⟨e, he ▸ hmem, hcov⟩
  · rcases h.ahead i h₁ h₂ with hc | ⟨e, hmem, hcov⟩ | ⟨x, hx, hcov⟩
    · exact .inl hc
    · exact .inr (.inl ⟨e, he ▸ hmem, hcov⟩)
    · exact .inr (.inr ⟨x, hq ▸ hx, hcov⟩)
  · exact hq ▸ h.first c hc

/-- A chunk whose bytes were all passed is dropped. -/
theorem Covered.skip {c : OutputChunk} (h : Covered st l r (some c) opening position frames)
    (hskip : c.stop ≤ position) : Covered st l r none opening position frames := by
  refine ⟨h.le, h.sent, h.past, fun i h₁ h₂ => ?_, nofun⟩
  rcases h.ahead i h₁ h₂ with hc | hl | ⟨x, hx | hx, hcov⟩
  · exact .inl hc
  · exact .inr (.inl hl)
  · exact .inr (.inr ⟨x, .inl hx, hcov⟩)
  · cases hx
    exact (h.past i h₁ (Nat.lt_of_lt_of_le hcov.2 hskip)).imp_right .inl

/-- A frame with the rest of the chunk in hand carries its bytes and moves past it. -/
theorem Covered.send {c : OutputChunk} (h : Covered st l r (some c) opening position frames)
    (hnew : position < c.stop) :
    Covered st l r none opening c.stop
      (frames ++ [.outputData st (max position c.offset) (c.data.drop (position - c.offset))]) := by
  obtain ⟨hgen, hbefore⟩ := h.first c rfl
  have hstart : c.offset + (position - c.offset) = max position c.offset := by omega
  have hdata : c.data.drop (position - c.offset) =
      stretch l.produced (max position c.offset) c.stop := by
    rw [hgen.data]
    unfold stretch
    rw [List.drop_take, List.drop_drop, hstart]
    congr 1
    omega
  have carried : ∀ i, max position c.offset ≤ i → i < c.stop → Carried st l.produced
      (frames ++ [.outputData st (max position c.offset) (c.data.drop (position - c.offset))])
      i := by
    intro i h₁ h₂
    have hlt : i < l.produced.length := Nat.lt_of_lt_of_le h₂ hgen.inside
    have hat : l.produced[i]? = some l.produced[i] := List.getElem?_eq_getElem hlt
    refine ⟨_, List.mem_append_right _ (List.mem_singleton.mpr rfl), l.produced[i],
      ⟨_, _, rfl, h₁, ?_⟩, hat⟩
    rw [hdata, getElem?_stretch _ h₁ h₂, hat]
  -- A byte before the chunk was passed, or is in none of the later chunks.
  have before : ∀ i, opening ≤ i → i < max position c.offset →
      Carried st l.produced frames i ∨ Lost r i := by
    intro i h₁ h₂
    by_cases hpos : i < position
    · exact h.past i h₁ hpos
    · have hlt : i < c.offset := by omega
      have hstop : i < l.sentStop := by
        have := hgen.le
        have : c.offset ≤ c.stop := Nat.le_add_right _ _
        omega
      rcases h.ahead i h₁ hstop with hc | hl | ⟨x, hx | hx, hcov⟩
      · exact .inl hc
      · exact .inr hl
      · have hord : c.stop ≤ x.offset := hbefore x hx
        have := hcov.1
        have : c.offset ≤ c.stop := Nat.le_add_right _ _
        omega
      · cases hx
        have := hcov.1
        omega
  refine ⟨by have := h.le; omega, fun f hf i b hcar => ?_, fun i h₁ h₂ => ?_, fun i h₁ h₂ => ?_,
    nofun⟩
  · rcases List.mem_append.mp hf with hf | hf
    · exact Nat.lt_trans (h.sent f hf i b hcar) hnew
    · rw [List.mem_singleton.mp hf] at hcar
      obtain ⟨offset, data, heq, hle, hb⟩ := hcar
      have hout := congrArg Frame.output heq
      simp only [Frame.output_outputData, Option.some.injEq, Prod.mk.injEq, true_and] at hout
      obtain ⟨rfl, rfl⟩ := hout
      have hlt := (List.getElem?_eq_some_iff.mp hb).1
      rw [List.length_drop] at hlt
      have hlen : c.stop = c.offset + c.data.length := rfl
      omega
  · by_cases hold : i < max position c.offset
    · exact (before i h₁ hold).imp_left (Carried.append _)
    · exact .inl (carried i (by omega) h₂)
  · by_cases hold : i < max position c.offset
    · exact (before i h₁ hold).imp (Carried.append _) .inl
    · by_cases hin : i < c.stop
      · exact .inl (carried i (by omega) hin)
      · rcases h.ahead i h₁ h₂ with hc | hl | ⟨x, hx | hx, hcov⟩
        · exact .inl (hc.append _)
        · exact .inr (.inl hl)
        · exact .inr (.inr ⟨x, .inl hx, hcov⟩)
        · cases hx
          exact absurd hcov.2 hin

end Stream

/-! ## One sender -/

/-- The chunk of `st` a sender has in hand. -/
def Stage.hand (stage : Stage) (st : Stream) : Option OutputChunk :=
  match stage with
  | .sending st' chunk _ => if st' = st then some chunk else none
  | _ => none

/-- Where every byte of `st` is, for this sender. -/
def Sender.Covered (session : Session) (s : Sender) (st : Stream) : Prop :=
  Live.Covered st (session.lane st) (s.live.get st) (s.stage.hand st) (s.opening.get st)
    (s.position.get st) s.frames

/-- The command has ended with this status: nothing more will be produced. -/
def Ended (session : Session) (status : ExitResult) : Prop :=
  session.metadata.status = some status ∧ ∀ st, (session.lane st).closed = true

/-- Coverage is known of a sender that still has the lease; one that exited keeps it. -/
structure SenderInv (session : Session) (g : Nat) (s : Sender) : Prop where
  drawn : g < session.attachment.nextGeneration
  feeds : s.stage ≠ .done → ∀ st, Feed (session.lane st) (s.live.get st)
  fresh : s.stage = .subscribed → s.frames = []
  covered : session.attachment.isCurrent g = true → s.stage ≠ .subscribed → s.stage ≠ .done →
    ∀ st, s.Covered session st
  exiting : ∀ status, s.stage = .exit status → Ended session status
  exited : ∀ status, .exit status ∈ s.frames → s.stage = .done ∧ Ended session status ∧
    ∀ st, Feed (session.lane st) (s.live.get st) ∧ s.Covered session st

section Sender

variable {a b : Session} {g : Nat} {s t : Sender}

/-- A sender that is not done has written no exit. -/
theorem SenderInv.no_exit (hi : SenderInv a g s) (hlive : s.stage ≠ .done) (status : ExitResult) :
    .exit status ∉ s.frames :=
  fun hmem => hlive (hi.exited status hmem).1

/-- A sender may stop anywhere. -/
theorem SenderInv.stop (hi : SenderInv a g s) (hlive : s.stage ≠ .done) :
    SenderInv a g { s with stage := .done } :=
  ⟨hi.drawn, fun h => absurd rfl h, nofun, fun _ _ h => absurd rfl h, nofun,
    fun status hmem => absurd hmem (hi.no_exit hlive status)⟩

/-- A step between two stages that keeps what is in hand. -/
theorem SenderInv.stage_to (hi : SenderInv a g s) (hlive : s.stage ≠ .done)
    (hsub : s.stage ≠ .subscribed) {stage : Stage} (hhand : stage.hand = s.stage.hand)
    (hfresh : stage ≠ .subscribed) (hexit : ∀ status, stage = .exit status → Ended a status) :
    SenderInv a g { s with stage := stage } := by
  refine ⟨hi.drawn, fun _ => hi.feeds hlive, fun h => absurd h hfresh, fun hcur _ _ st => ?_,
    hexit, fun status hmem => absurd hmem (hi.no_exit hlive status)⟩
  have hc := hi.covered hcur hsub hlive st
  unfold Sender.Covered at hc ⊢
  rw [← hhand] at hc
  exact hc

/-- A frame that carries no output covers as much as before. -/
theorem Covered.control {st : Stream} {l : Lane} {r : Receiver OutputChunk}
    {hand : Option OutputChunk} {opening position : Nat} {frames : List Frame} {f : Frame}
    (hf : f.output = none) (h : Covered st l r hand opening position frames) :
    Covered st l r hand opening position (frames ++ [f]) := by
  refine ⟨h.le, fun f' hf' i b hcar => ?_, fun i h₁ h₂ => ?_, fun i h₁ h₂ => ?_, h.first⟩
  · rcases List.mem_append.mp hf' with hf' | hf'
    · exact h.sent f' hf' i b hcar
    · obtain ⟨offset, data, heq, _⟩ := hcar
      rw [List.mem_singleton.mp hf'] at heq
      rw [heq, Frame.output_outputData] at hf
      cases hf
  · exact (h.past i h₁ h₂).imp_left (Carried.append _)
  · exact (h.ahead i h₁ h₂).imp_left (Carried.append _)

/-- What was sent is published. -/
theorem Lane.sentStop_le {nobuffer : Bool} {l : Lane} (hi : LaneInv nobuffer l) :
    l.sentStop ≤ l.stop := by
  cases hd : l.drain with
  | sending c =>
    rw [← (hi.chunk c hd).1]
    simp only [Lane.sentStop, hd]
    exact Nat.le_add_right _ _
  | _ => simp only [Lane.sentStop, hd, Nat.le_refl]

/-- The opening starts at the recorded ends, which the channel has not passed. -/
theorem SenderInv.hello (ha : SessionInv true a) (hi : SenderInv a g s)
    (hs : s.stage = .subscribed) :
    SenderInv a g { s with
      stage := .top, opening := a.metadata.ends, position := a.metadata.ends } := by
  have hlive : s.stage ≠ .done := by rw [hs]; exact nofun
  have hnil := hi.fresh hs
  refine ⟨hi.drawn, fun _ => hi.feeds hlive, nofun, fun _ _ _ st => ?_, nofun,
    fun status hmem => absurd hmem (hi.no_exit hlive status)⟩
  have hle : (a.lane st).sentStop ≤ a.metadata.ends.get st := Lane.sentStop_le (ha.lanes st)
  refine ⟨Nat.le_refl _, fun f hf => ?_, fun i h₁ h₂ => ?_, fun i h₁ h₂ => ?_, nofun⟩
  · have hf : f ∈ s.frames := hf
    rw [hnil] at hf
    cases hf
  · exact absurd h₂ (Nat.not_lt.mpr h₁)
  · exact absurd (Nat.lt_of_lt_of_le h₂ hle) (Nat.not_lt.mpr h₁)

/-- A receive from one channel, whatever it finds. -/
theorem SenderInv.receive (hi : SenderInv a g s) (hlive : s.stage ≠ .done)
    (hsub : s.stage ≠ .subscribed) (hhand : ∀ st, s.stage.hand st = none) (st : Stream) :
    (∀ chunk prefer, (s.live.get st).tryRecv.1 = .message chunk →
      SenderInv a g { s with
        live := s.live.set st (s.live.get st).tryRecv.2
        stage := .sending st chunk prefer }) ∧
    ∀ stage : Stage, (∀ chunk, (s.live.get st).tryRecv.1 ≠ .message chunk) →
      stage.hand = s.stage.hand → stage ≠ .subscribed → (∀ status, stage ≠ .exit status) →
      SenderInv a g { s with
        live := s.live.set st (s.live.get st).tryRecv.2
        stage := stage } := by
  have hfeeds := hi.feeds hlive
  have hcases := Receiver.tryRecv_cases (s.live.get st)
  have suffix : (s.live.get st).tryRecv.2.evicted = (s.live.get st).evicted ∧
      (s.live.get st).tryRecv.2.queue <:+ (s.live.get st).queue := by
    rcases hcases with ⟨c, _, hq, he⟩ | ⟨_, hq, he⟩
    · exact ⟨he, hq ▸ List.suffix_cons _ _⟩
    · exact ⟨he, hq ▸ List.suffix_rfl⟩
  have feeds : ∀ st', Feed (a.lane st') ((s.live.set st (s.live.get st).tryRecv.2).get st') := by
    intro st'
    by_cases heq : st' = st
    · subst heq
      rw [PerStream.get_set_self]
      exact (hfeeds st').take suffix.1 suffix.2
    · rw [PerStream.get_set_ne _ heq]
      exact hfeeds st'
  constructor
  · intro chunk prefer hrecv
    obtain ⟨c, hc, hq, he⟩ : ∃ c, (s.live.get st).tryRecv.1 = .message c ∧
        (s.live.get st).queue = c :: (s.live.get st).tryRecv.2.queue ∧
        (s.live.get st).tryRecv.2.evicted = (s.live.get st).evicted := by
      rcases hcases with h | ⟨hnone, _⟩
      · exact h
      · exact absurd hrecv (hnone chunk)
    rw [hc] at hrecv
    cases hrecv
    refine ⟨hi.drawn, fun _ => feeds, nofun, fun hcur _ _ st' => ?_, nofun,
      fun status hmem => absurd hmem (hi.no_exit hlive status)⟩
    have hcov := hi.covered hcur hsub hlive st'
    unfold Sender.Covered at hcov ⊢
    rw [hhand] at hcov
    by_cases heq : st' = st
    · subst heq
      simp only [PerStream.get_set_self, Stage.hand, if_true]
      exact hcov.take (hfeeds st') hq he
    · simp only [PerStream.get_set_ne _ heq, Stage.hand, if_neg (Ne.symm heq)]
      exact hcov
  · intro stage hnone hkeep hfresh hexit
    obtain ⟨hq, he⟩ : (s.live.get st).tryRecv.2.queue = (s.live.get st).queue ∧
        (s.live.get st).tryRecv.2.evicted = (s.live.get st).evicted := by
      rcases hcases with ⟨c, hc, _⟩ | ⟨_, h⟩
      · exact absurd hc (hnone c)
      · exact h
    refine ⟨hi.drawn, fun _ => feeds, fun h => absurd h hfresh, fun hcur _ _ st' => ?_,
      fun status h => absurd h (hexit status),
      fun status hmem => absurd hmem (hi.no_exit hlive status)⟩
    have hcov := hi.covered hcur hsub hlive st'
    unfold Sender.Covered at hcov ⊢
    rw [← hkeep] at hcov
    by_cases heq : st' = st
    · subst heq
      simp only [PerStream.get_set_self]
      exact hcov.miss hq he
    · simp only [PerStream.get_set_ne _ heq]
      exact hcov

/-- `send_live_chunk`, for the sender that has the lease or has lost it. -/
theorem SenderInv.send (hi : SenderInv a g s) {st : Stream} {chunk : OutputChunk} {prefer : Bool}
    (hs : s.stage = .sending st chunk prefer) :
    SenderInv a g (s.sendLiveChunk (a.attachment.isCurrent g) st chunk prefer) := by
  have hlive : s.stage ≠ .done := by rw [hs]; exact nofun
  have hsub : s.stage ≠ .subscribed := by rw [hs]; exact nofun
  have hno := hi.no_exit hlive
  have hcov : ∀ hcur : a.attachment.isCurrent g = true, ∀ st', Live.Covered st' (a.lane st')
      (s.live.get st') (if st = st' then some chunk else none) (s.opening.get st')
      (s.position.get st') s.frames := fun hcur st' => by
    have h := hi.covered hcur hsub hlive st'
    unfold Sender.Covered at h
    rw [hs] at h
    exact h
  unfold Sender.sendLiveChunk
  dsimp only
  split
  · rename_i hskip
    refine ⟨hi.drawn, fun _ => hi.feeds hlive, nofun, fun hcur _ _ st' => ?_, nofun,
      fun status hmem => absurd hmem (hno status)⟩
    have h := hcov hcur st'
    by_cases heq : st = st'
    · subst heq
      rw [if_pos rfl] at h
      by_cases hempty : chunk.data.length = 0
      · exact absurd hempty (Nat.ne_of_gt (h.first chunk rfl).1.nonempty)
      · refine h.skip ?_
        show chunk.offset + chunk.data.length ≤ _
        omega
    · rw [if_neg heq] at h
      exact h
  · rename_i hskip
    split
    · rename_i hcur
      refine ⟨hi.drawn, fun _ => hi.feeds hlive, nofun, fun _ _ _ st' => ?_, nofun,
        fun status hmem => ?_⟩
      · have h := hcov hcur st'
        show Live.Covered st' (a.lane st') (s.live.get st') none (s.opening.get st')
          (((s.position.set st _)).get st') (s.frames ++ [_])
        by_cases heq : st = st'
        · subst heq
          rw [if_pos rfl] at h
          have hstart : chunk.offset + (s.position.get st - chunk.offset) =
              max (s.position.get st) chunk.offset := by omega
          have hstop : chunk.offset + (s.position.get st - chunk.offset) +
              (chunk.data.drop (s.position.get st - chunk.offset)).length = chunk.stop := by
            rw [List.length_drop]
            show _ = chunk.offset + chunk.data.length
            omega
          rw [PerStream.get_set_self, hstop, hstart]
          refine h.send ?_
          show _ < chunk.offset + chunk.data.length
          omega
        · rw [if_neg heq] at h
          rw [PerStream.get_set_ne _ (Ne.symm heq)]
          refine ⟨h.le, fun f hf i b hcar => ?_, fun i h₁ h₂ => ?_, fun i h₁ h₂ => ?_, nofun⟩
          · rcases List.mem_append.mp hf with hf | hf
            · exact h.sent f hf i b hcar
            · obtain ⟨offset, data, hout, _⟩ := hcar
              have hout := (congrArg Frame.output (List.mem_singleton.mp hf)).symm.trans
                (congrArg Frame.output hout)
              simp only [Frame.output_outputData, Option.some.injEq, Prod.mk.injEq] at hout
              exact absurd hout.1 heq
          · exact (h.past i h₁ h₂).imp_left (Carried.append _)
          · exact (h.ahead i h₁ h₂).imp_left (Carried.append _)
      · rcases List.mem_append.mp hmem with hmem | hmem
        · exact absurd hmem (hno status)
        · cases st <;> cases List.mem_singleton.mp hmem
    · rename_i hcur
      exact ⟨hi.drawn, fun _ => hi.feeds hlive, nofun, fun h => absurd h hcur, nofun,
        fun status hmem => absurd hmem (hno status)⟩

/-- The exit is written by a sender that has the lease, so its coverage is known. -/
theorem SenderInv.exit (hi : SenderInv a g s) {status : ExitResult} (hs : s.stage = .exit status)
    (hcur : a.attachment.isCurrent g = true) :
    SenderInv a g { s with stage := .done, frames := s.frames ++ [.exit status] } := by
  have hlive : s.stage ≠ .done := by rw [hs]; exact nofun
  have hsub : s.stage ≠ .subscribed := by rw [hs]; exact nofun
  refine ⟨hi.drawn, fun h => absurd rfl h, nofun, fun _ _ h => absurd rfl h, nofun,
    fun status' hmem => ?_⟩
  rcases List.mem_append.mp hmem with hmem | hmem
  · exact absurd hmem (hi.no_exit hlive status')
  · cases List.mem_singleton.mp hmem
    refine ⟨rfl, hi.exiting status hs, fun st => ⟨hi.feeds hlive st, ?_⟩⟩
    have h := hi.covered hcur hsub hlive st
    unfold Sender.Covered at h ⊢
    rw [hs] at h
    exact h.control rfl

/-- The terminal flags are only read as set when both streams are closed. -/
theorem terminalStatus_ended {status : ExitResult}
    (h : Buffered.terminalStatus a.metadata = some status) : Ended a status := by
  simp only [Buffered.terminalStatus, Option.filter_eq_some_iff, Bool.and_eq_true] at h
  obtain ⟨hstatus, hout, herr⟩ := h
  refine ⟨hstatus, fun st => ?_⟩
  cases st with
  | stdout => exact hout
  | stderr => exact herr

/-- A try of one channel keeps the sender's invariant. -/
theorem SenderInv.attempt (hi : SenderInv a g s) (hlive : s.stage ≠ .done)
    (hsub : s.stage ≠ .subscribed) (hhand : ∀ st, s.stage.hand st = none) (st : Stream)
    {next : Stage} (hkeep : next.hand = s.stage.hand) (hfresh : next ≠ .subscribed)
    (hexit : ∀ status, next ≠ .exit status) : SenderInv a g (s.attempt st next) := by
  obtain ⟨hfound, hmiss⟩ := hi.receive hlive hsub hhand st
  unfold Sender.attempt
  dsimp only
  split
  · rename_i chunk hrecv
    exact hfound chunk _ hrecv
  · rename_i hnone
    exact hmiss next hnone hkeep hfresh hexit

/-- The select's receive keeps it. -/
theorem SenderInv.recv (hi : SenderInv a g s) (hs : s.stage = .waiting) {st : Stream}
    (h : s.recv st = some t) : SenderInv a g t := by
  have hlive : s.stage ≠ .done := by rw [hs]; exact nofun
  have hsub : s.stage ≠ .subscribed := by rw [hs]; exact nofun
  have hhand : ∀ st, s.stage.hand st = none := by
    rw [hs]
    exact fun _ => rfl
  obtain ⟨hfound, hmiss⟩ := hi.receive hlive hsub hhand st
  unfold Sender.recv at h
  dsimp only at h
  split at h
  · cases h
  · rename_i hlag
    cases h
    exact hmiss .top (by rw [hlag]; exact fun _ => nofun) (by rw [hs]; rfl) nofun nofun
  · rename_i chunk hrecv
    cases h
    exact hfound chunk _ hrecv

/-- **One step of a sender keeps its invariant.** -/
theorem senderStep_inv (ha : SessionInv true a) {act : SenderAct} (hi : SenderInv a g s)
    (h : senderStep a g s act = some t) : SenderInv a g t := by
  unfold senderStep at h
  dsimp only at h
  split at h
  · rename_i hs
    split at h <;> cases h
    · exact hi.hello ha hs
    · exact hi.stop (by rw [hs]; exact nofun)
  · rename_i hs
    split at h
    · split at h <;> cases h <;>
        exact hi.stage_to (by rw [hs]; exact nofun) (by rw [hs]; exact nofun) (by rw [hs]; rfl)
          nofun nofun
    · cases h
      exact hi.stop (by rw [hs]; exact nofun)
  · rename_i position hs
    have hlive : s.stage ≠ .done := by rw [hs]; exact nofun
    split at h <;> cases h
    · refine ⟨hi.drawn, fun _ => hi.feeds hlive, nofun, fun hcur _ _ st => ?_, nofun,
        fun status hmem => ?_⟩
      · have hc := hi.covered hcur (by rw [hs]; exact nofun) hlive st
        unfold Sender.Covered at hc ⊢
        rw [hs] at hc
        exact hc.control rfl
      · rcases List.mem_append.mp hmem with hmem | hmem
        · exact absurd hmem (hi.no_exit hlive status)
        · cases List.mem_singleton.mp hmem
    · exact hi.stop hlive
  · rename_i hs
    cases h
    exact hi.attempt (by rw [hs]; exact nofun) (by rw [hs]; exact nofun)
      (by rw [hs]; exact fun _ => rfl) _ (by rw [hs]; rfl) nofun nofun
  · rename_i hs
    cases h
    exact hi.attempt (by rw [hs]; exact nofun) (by rw [hs]; exact nofun)
      (by rw [hs]; exact fun _ => rfl) _ (by rw [hs]; rfl) nofun nofun
  · rename_i hs
    cases h
    exact hi.attempt (by rw [hs]; exact nofun) (by rw [hs]; exact nofun)
      (by rw [hs]; exact fun _ => rfl) _ (by rw [hs]; rfl) nofun nofun
  · rename_i st chunk prefer hs
    cases h
    exact hi.send hs
  · rename_i hs
    split at h
    · rename_i status hterm
      cases h
      refine hi.stage_to (by rw [hs]; exact nofun) (by rw [hs]; exact nofun) (by rw [hs]; rfl) nofun
        fun status' he => ?_
      cases he
      exact terminalStatus_ended hterm
    · cases h
      exact hi.stage_to (by rw [hs]; exact nofun) (by rw [hs]; exact nofun) (by rw [hs]; rfl) nofun
        nofun
  · rename_i status hs
    split at h <;> cases h
    · rename_i hcur
      exact hi.exit hs hcur
    · exact hi.stop (by rw [hs]; exact nofun)
  · rename_i st hs
    exact hi.recv hs h
  · rename_i hs
    cases h
    exact hi.stage_to (by rw [hs]; exact nofun) (by rw [hs]; exact nofun) (by rw [hs]; rfl) nofun
      nofun
  · cases h
  · rename_i hlive
    cases h
    exact hi.stop fun hs => hlive hs
  · cases h

/-! ## The session moves -/

/-- What a session step means for the receivers of one stream: no chunk, or the next one. -/
theorem lane_moves {act : Session.Act} {sent : Option (Stream × OutputChunk)}
    (ha : SessionInv true a) (h : a.step true hardened act = some (b, sent)) (st : Stream) :
    ((∀ c, sent ≠ some (st, c)) ∧ (a.lane st).produced <+: (b.lane st).produced ∧
      (b.lane st).sentStop = (a.lane st).sentStop) ∨
    ∃ c, sent = some (st, c) ∧ Sends (a.lane st) (b.lane st) c := by
  rcases step_inv h with ⟨st', chunk, rfl, hd, hne, _⟩ | ⟨rfl, hl, _⟩
  · by_cases heq : st = st'
    · subst heq
      rcases drained_sentStop (ha.lanes st) hd with ⟨rfl, hstop⟩ | ⟨c, rfl, h₁, h₂, h₃, h₄, h₅, h₆⟩
      · exact .inl ⟨fun _ => nofun, (drained_le (ha.lanes st) hd).2.1, hstop⟩
      · exact .inr ⟨c, rfl, h₁, h₂, h₃, h₄, h₅, h₆⟩
    · rw [hne st heq]
      refine .inl ⟨fun c hc => ?_, List.prefix_rfl, rfl⟩
      cases chunk with
      | none => cases hc
      | some c' =>
        simp only [Option.map_some, Option.some.injEq, Prod.mk.injEq] at hc
        exact heq hc.1.symm
  · rw [hl st]
    exact .inl ⟨fun _ => nofun, List.prefix_rfl, rfl⟩

/-- Once the command has ended, a session step sends nothing and touches no lane. -/
theorem Ended.still {act : Session.Act} {sent : Option (Stream × OutputChunk)}
    {status : ExitResult} (ha : SessionInv true a) (he : Ended a status)
    (h : a.step true hardened act = some (b, sent)) :
    sent = none ∧ (∀ st, b.lane st = a.lane st) ∧ Ended b status := by
  have hle := session_le_step ha h
  have hlanes : ∀ st, b.lane st = a.lane st := fun st => hle.closed st (he.2 st)
  refine ⟨?_, hlanes, hle.status _ he.1, fun st => by rw [hlanes st]; exact he.2 st⟩
  rcases step_inv h with ⟨st, chunk, _, hd, _⟩ | ⟨hn, _⟩
  · exact absurd ((ha.lanes st).closed (he.2 st)).1 hd.not_done
  · exact hn

/-- The sender after a session step. -/
def Sender.pushed (s : Sender) (sent : Option (Stream × OutputChunk)) : Sender :=
  match sent with
  | none => s
  | some (st, chunk) => s.push st chunk

/-- A chunk that reaches a sender changes its receiver only. -/
theorem pushed_stage (s : Sender) (sent : Option (Stream × OutputChunk)) :
    (s.pushed sent).stage = s.stage ∧ (s.pushed sent).frames = s.frames ∧
      (s.pushed sent).opening = s.opening ∧ (s.pushed sent).position = s.position := by
  unfold Sender.pushed
  split
  · exact ⟨rfl, rfl, rfl, rfl⟩
  · unfold Sender.push
    split <;> exact ⟨rfl, rfl, rfl, rfl⟩

/-- A chunk reaches the receiver of its own stream. -/
theorem pushed_live (hlive : s.stage ≠ .done) (st : Stream)
    (sent : Option (Stream × OutputChunk)) :
    ((∀ c, sent ≠ some (st, c)) → (s.pushed sent).live.get st = s.live.get st) ∧
      ∀ c, sent = some (st, c) →
        (s.pushed sent).live.get st = (s.live.get st).push liveCapacity c := by
  constructor
  · intro hne
    unfold Sender.pushed
    split
    · rfl
    · rename_i st' c
      unfold Sender.push
      rw [if_neg hlive]
      refine PerStream.get_set_ne _ (fun heq => ?_) _
      subst heq
      exact hne c rfl
  · rintro c rfl
    simp only [Sender.pushed, Sender.push, if_neg hlive, PerStream.get_set_self]

/-- **One step of the session keeps every sender's invariant.** -/
theorem senderInv_session {act : Session.Act} {sent : Option (Stream × OutputChunk)}
    (ha : SessionInv true a) (h : a.step true hardened act = some (b, sent))
    (hi : SenderInv a g s) : SenderInv b g (s.pushed sent) := by
  obtain ⟨hstage, hframes, hopening, hposition⟩ := pushed_stage s sent
  have hmoved := step_moved h
  have hmoves := lane_moves ha h
  refine ⟨Nat.lt_of_lt_of_le hi.drawn hmoved.nextGeneration_le, fun hlive st => ?_, fun hs => ?_,
    fun hcur hsub hlive st => ?_, fun status hs => ?_, fun status hmem => ?_⟩
  · rw [hstage] at hlive
    obtain ⟨hsame, hpush⟩ := pushed_live hlive st sent
    rcases hmoves st with ⟨hne, hp, hstop⟩ | ⟨c, hc, hsends⟩
    · rw [hsame hne]
      exact (hi.feeds hlive st).grow hp (Nat.le_of_eq hstop.symm)
    · rw [hpush c hc]
      exact (hi.feeds hlive st).push hsends
  · rw [hframes]
    exact hi.fresh (hstage ▸ hs)
  · rw [hstage] at hsub hlive
    have hcov := hi.covered (hmoved.isCurrent hi.drawn hcur) hsub hlive st
    obtain ⟨hsame, hpush⟩ := pushed_live hlive st sent
    unfold Sender.Covered at hcov ⊢
    rw [hstage, hframes, hopening, hposition]
    rcases hmoves st with ⟨hne, hp, hstop⟩ | ⟨c, hc, hsends⟩
    · rw [hsame hne]
      exact hcov.grow hp hstop
    · rw [hpush c hc]
      exact hcov.push hsends
  · exact ((hi.exiting status (hstage ▸ hs)).still ha h).2.2
  · obtain ⟨hdone, hended, hcov⟩ := hi.exited status (hframes ▸ hmem)
    obtain ⟨rfl, hlanes, hended'⟩ := hended.still ha h
    refine ⟨hdone, hended', fun st => ?_⟩
    unfold Sender.Covered
    rw [hlanes st]
    exact hcov st

end Sender

/-! ## Runs -/

structure Inv (s : State) : Prop where
  session : SessionInv true s.session
  senders : ∀ g sender, s.senders g = some sender → SenderInv s.session g sender
  drawn : ∀ g, s.session.attachment.current = some g → g < s.session.attachment.nextGeneration

/-- A sender that keeps its invariant keeps that of all. -/
theorem inv_setSender {s : State} (hi : Inv s) {g : Nat} {sender : Sender}
    (h : SenderInv s.session g sender) : Inv (s.setSender g sender) := by
  refine ⟨hi.session, ?_, hi.drawn⟩
  apply Parties.forall_update_some
  · exact h
  · intro g' sender' _ hg
    exact hi.senders g' sender' hg

/-- A chunk reaches every sender, and leaves the session alone. -/
theorem push_senders (s : State) (sent : Option (Stream × OutputChunk)) (g : Nat) :
    (s.push sent).senders g = (s.senders g).map (·.pushed sent) ∧
      (s.push sent).session = s.session := by
  unfold State.push Sender.pushed
  split
  · exact ⟨Option.map_id'.symm, rfl⟩
  · exact ⟨rfl, rfl⟩

/-- **One step keeps the invariant.** -/
theorem inv_step {s t : State} {act : Act} (hi : Inv s) (h : step hardened s act = some t) :
    Inv t := by
  cases act with
  | session act =>
    obtain ⟨⟨b, sent⟩, hs, rfl⟩ := Option.map_eq_some_iff.mp h
    refine ⟨?_, fun g sender hg => ?_, ?_⟩
    · rw [(push_senders _ sent 0).2]
      exact session_inv_step hi.session hs
    · obtain ⟨hpushed, hsession⟩ := push_senders { s with session := b } sent g
      rw [hpushed] at hg
      obtain ⟨sender', hg', rfl⟩ := Option.map_eq_some_iff.mp hg
      rw [hsession]
      exact senderInv_session hi.session hs (hi.senders g sender' hg')
    · rw [(push_senders _ sent 0).2]
      exact (step_moved hs).drawn hi.drawn
  | subscribe g =>
    simp only [step] at h
    split at h <;> cases h
    rename_i hok
    refine inv_setSender hi ⟨hi.drawn g (AttachmentState.isCurrent_iff.mp hok.1), fun _ st => ?_,
      fun _ => rfl, fun _ h => absurd rfl h, nofun, nofun⟩
    rw [PerStream.get_both]
    exact ⟨List.Pairwise.nil, nofun⟩
  | sender g act =>
    simp only [step] at h
    split at h
    · cases h
    · rename_i sender hg
      obtain ⟨sender', hs, rfl⟩ := Option.map_eq_some_iff.mp h
      exact inv_setSender hi (senderStep_inv hi.session (hi.senders g sender hg) hs)

/-- At the start there is no sender. -/
theorem inv_init {s : State} (h : (machine hardened).init s) : Inv s := by
  obtain ⟨hs, hn⟩ := h
  refine ⟨session_inv_init hs, fun g sender hg => ?_, fun g hg => ?_⟩
  · rw [hn] at hg
    cases hg
  · obtain ⟨drains, failure, _, he⟩ := hs
    rw [he] at hg
    cases hg

/-- The invariant holds in every reachable state. -/
theorem reachable_inv {s : State} (h : (machine hardened).Reachable s) : Inv s :=
  h.invariant (fun _ => inv_init) fun _ _ _ _ hi _ hs => inv_step hi hs

end Live

end Pipekeep
