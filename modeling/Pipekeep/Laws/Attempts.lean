import Pipekeep.Attempts
import Pipekeep.Laws.Buffered
import Mathlib.Data.List.Infix

/-!
# The outer wrapper delivers output exactly once

Everything is measured against the command's own streams (`command`), of which the session's drains
read a prefix. A sender's frames carry a stretch of it from the opening's offsets (`Buffered.Inv`),
the relay writes what the frames carry (`RemoteInv`), and the outer process writes what the relay
has written from the same offsets on (`Copies`). The counters never enter: each is compared with the
length of what was written.
-/

namespace Pipekeep.Attempts

open Slice
open Buffered (offsetsAreAhead)
open Requests (ServerHello)

variable {S : Serde} {hardened : Bool} {id : String} {command : PerStream (List UInt8)}

/-! ## The command's streams -/

/-- The command's pipe gives its stream in order and ends where it ends, and the spool takes it. -/
def Feeds (command : PerStream (List UInt8)) (session : Session) (st : Stream) :
    Session.DrainAct → Prop
  | .read data => session.produced.get st ++ data <+: command.get st
  | .eof => session.produced.get st = command.get st
  | .readError _ | .writeError => False
  | _ => True

/-- What is asked of the run: nothing fails but transports, and nothing is written to local stderr
beside the command's own. -/
def Given (command : PerStream (List UInt8)) (s : State) : Act → Prop
  | .broker (.session (.drain st act)) => Feeds command s.broker.session st act
  | .outer (.copy _ (.writeError _)) => False
  | .outer (.control diagnostics) => diagnostics = []
  | _ => True

/-- A session has read a prefix of each stream, and all of one that it has closed. -/
structure Fed (command : PerStream (List UInt8)) (session : Session) : Prop where
  isPrefix : ∀ st, session.produced.get st <+: command.get st
  complete : ∀ st, session.metadata.closed.get st = true →
    session.produced.get st = command.get st

variable {a b : Session} {st : Stream}

/-- A step that reads nothing and closes nothing. -/
theorem Fed.same (h : Fed command a) (produced : b.produced = a.produced)
    (closed : b.metadata.closed = a.metadata.closed) : Fed command b where
  isPrefix st := by
    rw [produced]
    exact h.isPrefix st
  complete st := by
    rw [produced, closed]
    exact h.complete st

/-- More of an open stream is read. -/
theorem Fed.read {data : List UInt8} (h : Fed command a) (hi : SessionInv false a)
    (hdrain : a.drains.get st ≠ .done) (hfeeds : a.produced.get st ++ data <+: command.get st)
    (produced : b.produced = a.produced.set st (a.produced.get st ++ data))
    (closed : b.metadata.closed = a.metadata.closed) : Fed command b where
  isPrefix := by
    rw [produced]
    refine PerStream.forall_set (P := fun st' read => read <+: command.get st') ?_ ?_
    · exact hfeeds
    · intro st' _
      exact h.isPrefix st'
  complete := by
    rw [produced, closed]
    refine PerStream.forall_set
      (P := fun st' read => a.metadata.closed.get st' = true → read = command.get st') ?_ ?_
    · intro hclosed
      exact absurd ((hi.lanes st).closed hclosed).1 hdrain
    · intro st' _
      exact h.complete st'

/-- A stream is closed at its end. -/
theorem Fed.close (h : Fed command a) (hend : a.produced.get st = command.get st) :
    Fed command (a.close st) where
  isPrefix := h.isPrefix
  complete := by
    refine PerStream.forall_set
      (P := fun st' closed => closed = true → a.produced.get st' = command.get st') ?_ ?_
    · intro _
      exact hend
    · intro st' _
      exact h.complete st'

/-- A drain that is fed reads the command's stream on. -/
theorem fed_drainStep {act : Session.DrainAct} {sent : Option OutputChunk} (h : Fed command a)
    (hi : SessionInv false a) (hfeeds : Feeds command a st act)
    (hs : a.drainStep false hardened st act = some (b, sent)) : Fed command b := by
  unfold Session.drainStep at hs
  split at hs
  · rename_i data hdrain
    split at hs <;> cases hs
    exact h.read hi (by rw [hdrain]; exact nofun) hfeeds rfl rfl
  · cases hs
    exact h.close hfeeds
  · exact hfeeds.elim
  · split at hs <;> cases hs <;> exact h.same rfl rfl
  · split at hs <;> cases hs
    exact h.same rfl rfl
  · cases hs
    exact h.same rfl rfl
  · exact hfeeds.elim
  · cases hs
    exact h.same rfl rfl
  · cases hs
    exact h.same rfl rfl
  · cases hs

/-- A session whose drains are fed stays so. -/
theorem fed_sessionStep {act : Session.Act} {sent : Option (Stream × OutputChunk)}
    (h : Fed command a) (hi : SessionInv false a)
    (hfeeds : ∀ st drain, act = .drain st drain → Feeds command a st drain)
    (hs : a.step false hardened act = some (b, sent)) : Fed command b := by
  cases act with
  | install force =>
    simp only [Session.step] at hs
    split at hs <;> cases hs <;> exact h.same rfl rfl
  | clear generation =>
    cases hs
    exact h.same rfl rfl
  | drain st act =>
    obtain ⟨⟨b', chunk⟩, hd, heq⟩ := Option.map_eq_some_iff.mp hs
    cases heq
    exact fed_drainStep h hi (hfeeds st act rfl) hd
  | wait result =>
    simp only [Session.step] at hs
    split at hs <;> cases hs
    unfold Session.wait
    split
    · exact h.same rfl rfl
    · split <;> exact h.same rfl rfl

/-- A step of the broker under the run's assumption. -/
def Feeding (command : PerStream (List UInt8)) (b : Buffered.State) (act : Buffered.Act) : Prop :=
  ∀ st drain, act = .session (.drain st drain) → Feeds command b.session st drain

/-- **One step of the broker keeps its session fed.** -/
theorem fed_step {b b' : Buffered.State} {act : Buffered.Act} (h : Fed command b.session)
    (hi : Buffered.Inv b) (hfeeding : Feeding command b act)
    (hs : Buffered.step hardened b act = some b') : Fed command b'.session := by
  cases act with
  | session act =>
    obtain ⟨⟨session, sent⟩, hstep, rfl⟩ := Option.map_eq_some_iff.mp hs
    refine fed_sessionStep h hi.session (fun st drain heq => ?_) hstep
    exact hfeeding st drain (congrArg Buffered.Act.session heq)
  | attach generation offsets =>
    simp only [Buffered.step] at hs
    split at hs <;> cases hs
    exact h
  | sender generation act =>
    simp only [Buffered.step] at hs
    split at hs
    · cases hs
    · obtain ⟨sender, -, rfl⟩ := Option.map_eq_some_iff.mp hs
      exact h

/-! ## The broker moves on -/

/-- What an attempt's remote side relies on: the session grows, and so do the frames that a sender
has sent. -/
structure Grows (b b' : Buffered.State) : Prop where
  session : b.session.Le b'.session
  senders : ∀ g sender, b.senders g = some sender → ∃ sender', b'.senders g = some sender' ∧
    sender'.opening = sender.opening ∧ sender.frames <+: sender'.frames

/-- Leases are no part of what grows. -/
theorem session_le_leases (a : Session) (attachment : AttachmentState) :
    a.Le { a with attachment := attachment } :=
  ⟨fun _ => Nat.le_refl _, fun _ => List.prefix_rfl, fun _ => List.prefix_rfl, fun _ _ => rfl,
    fun _ h => h⟩

/-- A session may stay. -/
theorem session_le_refl (a : Session) : a.Le a := session_le_leases a a.attachment

/-- A broker may stay. -/
theorem Grows.refl (b : Buffered.State) : Grows b b :=
  ⟨session_le_refl _, fun _ sender h => ⟨sender, h, rfl, List.prefix_rfl⟩⟩

/-- A sender keeps its opening and writes frames behind those that it has written. -/
theorem senderStep_grows {session : Session} {g : Nat} {x y : Buffered.Sender}
    {act : Buffered.SenderAct} (h : Buffered.senderStep session g x act = some y) :
    y.opening = x.opening ∧ x.frames <+: y.frames := by
  unfold Buffered.senderStep at h
  dsimp only at h
  split at h
  · split at h
    · split at h <;> cases h <;> exact ⟨rfl, List.prefix_rfl⟩
    · cases h
      exact ⟨rfl, List.prefix_rfl⟩
  · split at h <;> cases h
    · exact ⟨rfl, List.prefix_append _ _⟩
    · exact ⟨rfl, List.prefix_rfl⟩
  · cases h
    exact ⟨rfl, List.prefix_rfl⟩
  · split at h <;> cases h <;> exact ⟨rfl, List.prefix_rfl⟩
  · split at h <;> cases h
    · exact ⟨rfl, List.prefix_append _ _⟩
    · exact ⟨rfl, List.prefix_rfl⟩
  · split at h <;> cases h
    · exact ⟨rfl, List.prefix_append _ _⟩
    · exact ⟨rfl, List.prefix_rfl⟩
  · cases h
    exact ⟨rfl, List.prefix_rfl⟩
  · cases h
  · cases h
    exact ⟨rfl, List.prefix_rfl⟩
  · cases h

/-- A step that changes the sender of one generation. -/
theorem grows_setSender (b : Buffered.State) {g : Nat} {y : Buffered.Sender}
    (h : ∀ x, b.senders g = some x → y.opening = x.opening ∧ x.frames <+: y.frames) :
    Grows b (b.setSender g y) := by
  refine ⟨session_le_refl _, fun g' x hx => ?_⟩
  by_cases heq : g' = g
  · subst heq
    exact ⟨y, Function.update_self .., h x hx⟩
  · refine ⟨x, ?_, rfl, List.prefix_rfl⟩
    show Function.update b.senders g (some y) g' = some x
    rw [Function.update_of_ne heq, hx]

/-- Every step of the broker grows it. -/
theorem grows_step {b b' : Buffered.State} {act : Buffered.Act} (hi : Buffered.Inv b)
    (h : Buffered.step hardened b act = some b') : Grows b b' := by
  cases act with
  | session act =>
    obtain ⟨p, hp, rfl⟩ := Option.map_eq_some_iff.mp h
    exact ⟨session_le_step hi.session hp, fun _ sender hg => ⟨sender, hg, rfl, List.prefix_rfl⟩⟩
  | attach g offsets =>
    simp only [Buffered.step] at h
    split at h <;> cases h
    rename_i hok
    refine grows_setSender b fun x hx => ?_
    rw [hok.2.1] at hx
    cases hx
  | sender g act =>
    simp only [Buffered.step] at h
    split at h
    · cases h
    · rename_i sender hg
      obtain ⟨sender', hs, rfl⟩ := Option.map_eq_some_iff.mp h
      refine grows_setSender b fun x hx => ?_
      rw [hg] at hx
      cases hx
      exact senderStep_grows hs

/-! ## The raw relay -/

/-- The raw relay writes the data of an output frame. -/
theorem frame_raw_outputData (r : Relay) (st : Stream) (offset : Nat) (data : List UInt8) :
    r.frame S raw (.outputData st offset data) = r.writeRaw st offset data := by
  cases st <;> rfl

/-- The raw relay writes nothing for the other frames. -/
theorem frame_raw_of_output_none {f : Frame} (h : f.output = none) (r : Relay) :
    (r.frame S raw f).1 = r := by
  cases f with
  | stdoutData offset data => cases h
  | stderrData offset data => cases h
  | _ => rfl

/-- What a relay has made of a frame: it has written what the frame carries, and counted it if it
goes on. -/
structure Relayed (r : Relay) (f : Frame) (out : Relay × Except String (Option Int)) : Prop where
  written : ∀ st, out.1.written.get st = r.written.get st ++ f.payload st
  position : out.2 = .ok none → ∀ st,
    out.1.positions.output.get st = r.positions.output.get st + (f.payload st).length

/-- A piece that starts where the relay stands is written whole. -/
theorem writeRaw_next (r : Relay) (st : Stream) (data : List UInt8) {f : Frame}
    (hf : f = .outputData st (r.positions.output.get st) data) :
    Relayed r f (r.writeRaw st (r.positions.output.get st) data) := by
  have other : ∀ st', st' ≠ st → f.payload st' = [] := by
    intro st' hne
    rw [hf, Frame.payload_outputData, if_neg (Ne.symm hne)]
  have self : f.payload st = data := by
    rw [hf, Frame.payload_outputData, if_pos rfl]
  unfold Relay.writeRaw
  simp only [Nat.sub_self, gt_iff_lt, Nat.lt_irrefl, if_false]
  by_cases hempty : data.length = 0
  · have hnil := List.eq_nil_of_length_eq_zero hempty
    have nothing : ∀ st', f.payload st' = [] := by
      intro st'
      by_cases heq : st' = st
      · rw [heq, self, hnil]
      · exact other st' heq
    rw [if_pos (Nat.le_of_eq hempty)]
    refine ⟨fun st' => ?_, fun _ st' => ?_⟩
    · rw [nothing st', List.append_nil]
    · rw [nothing st', List.length_nil, Nat.add_zero]
  · rw [if_neg (by omega)]
    have hwritten : ∀ st', (r.written.set st (r.written.get st ++ data.drop 0)).get st' =
        r.written.get st' ++ f.payload st' := by
      intro st'
      rw [PerStream.get_set]
      split
      · rename_i heq
        rw [heq, self, List.drop_zero]
      · rename_i hne
        rw [other st' hne, List.append_nil]
    rw [Nat.sub_zero]
    cases hend : checkedEnd (r.positions.output.get st) data.length with
    | error e => exact ⟨hwritten, nofun⟩
    | ok stop =>
      obtain ⟨-, rfl⟩ := checkedEnd_eq_ok.mp hend
      refine ⟨hwritten, fun _ st' => ?_⟩
      rw [PerStream.get_set]
      split
      · rename_i heq
        rw [heq, self]
      · rename_i hne
        rw [other st' hne, List.length_nil, Nat.add_zero]

/-- A frame that a reader at the relay's positions can take. -/
theorem frame_raw {r : Relay} {f : Frame}
    (h : ∀ st, ∃ q, f.advance st (r.positions.output.get st) = some q) :
    Relayed r f (r.frame S raw f) := by
  cases hf : f.output with
  | none =>
    have hkept := frame_raw_of_output_none (S := S) hf r
    refine ⟨fun st => ?_, fun _ st => ?_⟩
    · rw [hkept, Frame.payload_of_output_none hf, List.append_nil]
    · rw [hkept, Frame.payload_of_output_none hf, List.length_nil, Nat.add_zero]
  | some out =>
    obtain ⟨st, offset, data⟩ := out
    rw [Frame.output_eq_some hf] at h ⊢
    obtain ⟨q, hq⟩ := h st
    rw [Frame.advance_outputData, if_pos rfl] at hq
    split at hq
    · rename_i hoffset
      subst hoffset
      rw [frame_raw_outputData]
      exact writeRaw_next r st data rfl
    · cases hq

/-! ## The remote side -/

/-- What an opening's reply says is true: of the session, and of the command's streams. -/
structure Greeted (command : PerStream (List UInt8)) (b : Buffered.State) (hello : ServerHello) :
    Prop where
  nobuffer : hello.nobuffer = false
  eofs : ∀ st stop, hello.eofs.get st = some stop → stop = (command.get st).length
  exit : ∀ status, hello.exit = some status → b.session.metadata.status = some status

variable {b b' : Buffered.State} {r r' : Remote}

/-- The broker's own opening reply is truthful. -/
theorem hello_greeted (hi : SessionInv false b.session) (hf : Fed command b.session)
    (offsets : PerStream Nat) : Greeted command b (hello b offsets) where
  nobuffer := rfl
  eofs st stop h := by
    have hclosed : b.session.metadata.closed.get st = true ∧
        b.session.metadata.ends.get st = stop := by
      cases st <;> simpa [hello, Requests.State.hello] using h
    obtain ⟨hc, rfl⟩ := hclosed
    rw [← hf.complete st hc]
    exact ((hi.lanes st).closed hc).2
  exit status h := by
    simp only [hello, Requests.State.hello] at h
    split at h
    · exact h
    · cases h

/-- An opening reply stays truthful as the broker grows. -/
theorem Greeted.grow {hello : ServerHello} (h : Greeted command b hello) (hb : Grows b b') :
    Greeted command b' hello :=
  ⟨h.nobuffer, h.eofs, fun status hs => hb.session.status status (h.exit status hs)⟩

/-- A relay has written what the frames that it took carry, and stands at the end of it. -/
structure Relays (b : Buffered.State) (r : Remote) (g : Nat) (hello : ServerHello)
    (sender : Buffered.Sender) : Prop where
  reply : r.reply = some (.hello hello)
  serves : b.senders g = some sender
  opening : sender.opening = hello.offsets
  read : r.read ≤ sender.frames.length
  written : ∀ st, r.relay.written.get st = Frame.bytes st (sender.frames.take r.read)
  position : ∀ st, r.relay.positions.output.get st =
    hello.offsets.get st + (r.relay.written.get st).length

/-- What a stage says of the attempt's remote side. -/
def Holds (command : PerStream (List UInt8)) (b : Buffered.State) (r : Remote) :
    RemoteStage → Prop
  | .answering _ hello => r.reply = none ∧ Greeted command b hello
  | .relaying g => ∃ hello sender, Relays b r g hello sender
  | .ended => True
  | _ => r.reply = none

structure RemoteInv (command : PerStream (List UInt8)) (b : Buffered.State) (r : Remote) :
    Prop where
  replied : ∀ hello, r.reply = some (.hello hello) → Greeted command b hello ∧
    ∀ st, r.relay.written.get st <+: (command.get st).drop (hello.offsets.get st)
  stage : Holds command b r r.stage

/-- What a remote side relies on grows with the broker. -/
theorem Holds.grow {stage : RemoteStage} (h : Holds command b r stage) (hb : Grows b b') :
    Holds command b' r stage := by
  cases stage with
  | answering g hello => exact ⟨h.1, h.2.grow hb⟩
  | relaying g =>
    obtain ⟨hello, sender, hr⟩ := h
    obtain ⟨sender', hsender, hopening, more, hmore⟩ := hb.senders g sender hr.serves
    have htake : sender'.frames.take r.read = sender.frames.take r.read := by
      rw [← hmore, List.take_append_of_le_length hr.read]
    refine ⟨hello, sender', hr.reply, hsender, hopening.trans hr.opening, ?_, ?_, hr.position⟩
    · rw [← hmore, List.length_append]
      exact Nat.le_add_right_of_le hr.read
    · intro st
      rw [htake]
      exact hr.written st
  | _ => exact h

/-- A remote side that does nothing keeps its invariant while the broker moves on. -/
theorem RemoteInv.grow (h : RemoteInv command b r) (hb : Grows b b') : RemoteInv command b' r :=
  ⟨fun hello hr => ⟨(h.replied hello hr).1.grow hb, (h.replied hello hr).2⟩, h.stage.grow hb⟩

/-- The frames of a sender carry the command's stream from the opening's offset on. -/
theorem bytes_isPrefix (hi : Buffered.Inv b) (hf : Fed command b.session) {g : Nat}
    {sender : Buffered.Sender} (hg : b.senders g = some sender) (st : Stream) (n : Nat) :
    Frame.bytes st (sender.frames.take n) <+: (command.get st).drop (sender.opening.get st) := by
  have hs := hi.senders g sender hg
  have hle : sender.position.get st ≤ (b.session.produced.get st).length :=
    Nat.le_trans (hs.le st).2 (hi.session.lanes st).le
  have hall : Frame.bytes st sender.frames =
      stretch (command.get st) (sender.opening.get st) (sender.position.get st) := by
    rw [stretch_of_isPrefix (hf.isPrefix st) hle]
    exact hs.bytes st
  have hpart : Frame.bytes st (sender.frames.take n) <+: Frame.bytes st sender.frames := by
    refine ⟨Frame.bytes st (sender.frames.drop n), ?_⟩
    rw [← Frame.bytes_append, List.take_append_drop]
  rw [hall] at hpart
  exact hpart.trans (List.take_prefix _ _)

/-! ## The remote side moves -/

/-- Nothing has been written to the client yet. -/
def RemoteStage.early : RemoteStage → Bool
  | .relaying _ | .ended => false
  | _ => true

/-- The same broker, with other leases. -/
def leased (b : Buffered.State) (attachment : AttachmentState) : Buffered.State :=
  { b with session := { b.session with attachment := attachment } }

/-- **What a step of an attempt's remote side does.** -/
inductive RemoteMoved (S : Serde) (hardened : Bool) (b : Buffered.State) (r : Remote) :
    Buffered.State → Remote → Prop
  | refused (attachment : AttachmentState) (error : String) : r.stage.early = true →
      RemoteMoved S hardened b r (leased b attachment) (r.refuse error)
  | moved (attachment : AttachmentState) {stage : RemoteStage} : r.stage.early = true →
      (∀ c b r, Holds c b r stage = (r.reply = none)) →
      RemoteMoved S hardened b r (leased b attachment) { r with stage := stage }
  | greeted (g : Nat) : r.stage.early = true →
      RemoteMoved S hardened b r b { r with stage := .answering g (hello b r.requested) }
  | answered {g : Nat} {hello : ServerHello} {b' : Buffered.State} :
      r.stage = .answering g hello → Buffered.step hardened b (.attach g hello.offsets) = some b' →
      RemoteMoved S hardened b r b' (r.accept g hello)
  | framed {g : Nat} {sender : Buffered.Sender} {f : Frame} {stage : RemoteStage} :
      r.stage = .relaying g → b.senders g = some sender → sender.frames[r.read]? = some f →
      stage = .ended ∨ stage = .relaying g ∧ (r.relay.frame S raw f).2 = .ok none →
      RemoteMoved S hardened b r b
        { r with stage := stage, relay := (r.relay.frame S raw f).1, read := r.read + 1 }
  | stopped : RemoteMoved S hardened b r b { r with stage := .ended }

/-- A section that needs the lease and has lost it leaves the broker as it is. -/
theorem whileCurrent_eq {g : Nat} {next : Option (Buffered.State × Remote)}
    {p : Buffered.State × Remote} (h : whileCurrent b r g next = some p) :
    next = some p ∨ p = (b, r.refuse "attachment superseded") := by
  unfold whileCurrent at h
  split at h
  · exact .inl h
  · exact .inr (Option.some.inj h).symm

/-- A failed opening gives its lease up and replies with the error. -/
theorem failOpening_eq {g : Nat} {error : String} {p : Buffered.State × Remote}
    (h : failOpening hardened b r g error = some p) :
    p = (leased b (b.session.attachment.compareClear g), r.refuse error) :=
  (Option.some.inj h).symm

/-- **A step of a remote side**, with what it does to the broker. -/
theorem remoteStep_moved {act : RemoteAct} (h : remoteStep S hardened b r act = some (b', r')) :
    RemoteMoved S hardened b r b' r' := by
  have kept : leased b b.session.attachment = b := rfl
  have superseded : r.stage.early = true → (b', r') = (b, r.refuse "attachment superseded") →
      RemoteMoved S hardened b r b' r' := by
    intro hearly heq
    cases heq
    exact kept ▸ .refused b.session.attachment _ hearly
  unfold remoteStep at h
  split at h
  · rename_i hstage
    cases h
    exact kept ▸ .refused b.session.attachment _ (by rw [hstage]; rfl)
  · rename_i hstage
    have hearly : r.stage.early = true := by rw [hstage]; rfl
    split at h
    · cases h
      exact kept ▸ .refused b.session.attachment _ hearly
    · rename_i g attachment hinstall
      simp only [Buffered.step, Session.step, hinstall, Option.map_some] at h
      cases h
      exact .moved attachment hearly fun _ _ _ => rfl
  · rename_i g hstage
    have hearly : r.stage.early = true := by rw [hstage]; rfl
    split at h
    · cases failOpening_eq h
      exact .refused _ _ hearly
    · rcases whileCurrent_eq h with h | h
      · cases h
        exact kept ▸ .moved b.session.attachment hearly fun _ _ _ => rfl
      · exact superseded hearly h
  · rename_i g error hstage
    cases failOpening_eq h
    exact .refused _ _ (by rw [hstage]; rfl)
  · rename_i g hstage
    have hearly : r.stage.early = true := by rw [hstage]; rfl
    rcases whileCurrent_eq h with h | h
    · cases h
      exact kept ▸ .moved b.session.attachment hearly fun _ _ _ => rfl
    · exact superseded hearly h
  · rename_i g hstage
    cases h
    exact .greeted g (by rw [hstage]; rfl)
  · rename_i g hello hstage
    rcases whileCurrent_eq h with h | h
    · obtain ⟨b'', hattach, heq⟩ := Option.map_eq_some_iff.mp h
      cases heq
      exact .answered hstage hattach
    · exact superseded (by rw [hstage]; rfl) h
  · rename_i g hstage
    obtain ⟨sender, hg, h⟩ := Option.bind_eq_some_iff.mp h
    obtain ⟨f, hf, heq⟩ := Option.map_eq_some_iff.mp h
    cases heq
    refine .framed hstage hg hf ?_
    split
    · rename_i hgoes
      exact .inr ⟨rfl, hgoes⟩
    · exact .inl rfl
  · cases h
  · cases h
    exact .stopped
  · cases h

/-- What the broker keeps while attempts and other tasks work on it. -/
structure BrokerInv (command : PerStream (List UInt8)) (b : Buffered.State) : Prop where
  inv : Buffered.Inv b
  fed : Fed command b.session

/-- A step of the broker keeps what the remote sides rely on. -/
theorem BrokerInv.step {act : Buffered.Act} (hb : BrokerInv command b)
    (hfeeding : Feeding command b act) (h : Buffered.step hardened b act = some b') :
    BrokerInv command b' :=
  ⟨Buffered.inv_step hb.inv h, fed_step hb.fed hb.inv hfeeding h⟩

/-- A change of the lease keeps what the remote sides rely on. -/
theorem BrokerInv.leased (hb : BrokerInv command b) (attachment : AttachmentState) :
    BrokerInv command (leased b attachment) where
  inv := ⟨⟨hb.inv.session.lanes, hb.inv.session.unwaited⟩, fun g sender hg =>
    (hb.inv.senders g sender hg).grow hb.inv.session (session_le_leases b.session attachment)⟩
  fed := hb.fed.same rfl rfl

/-- A change of the lease only grows the broker. -/
theorem grows_leased (b : Buffered.State) (attachment : AttachmentState) :
    Grows b (leased b attachment) :=
  ⟨session_le_leases b.session attachment,
    fun _ sender hg => ⟨sender, hg, rfl, List.prefix_rfl⟩⟩

/-- The broker's side of a remote step. -/
theorem RemoteMoved.broker (h : RemoteMoved S hardened b r b' r') (hb : BrokerInv command b) :
    BrokerInv command b' ∧ Grows b b' := by
  cases h with
  | refused attachment _ _ => exact ⟨hb.leased attachment, grows_leased b attachment⟩
  | moved attachment _ _ => exact ⟨hb.leased attachment, grows_leased b attachment⟩
  | answered _ hs => exact ⟨hb.step (fun _ _ heq => by cases heq) hs, grows_step hb.inv hs⟩
  | _ => exact ⟨hb, Grows.refl b⟩

/-- An early stage has no reply. -/
theorem RemoteInv.unreplied (h : RemoteInv command b r) (early : r.stage.early = true) :
    r.reply = none := by
  have hstage := h.stage
  cases hs : r.stage with
  | answering g hello =>
    rw [hs] at hstage
    exact hstage.1
  | relaying g =>
    rw [hs] at early
    cases early
  | ended =>
    rw [hs] at early
    cases early
  | _ =>
    rw [hs] at hstage
    exact hstage

/-- A remote side without an opening. -/
theorem remoteInv_closed (hreply : ∀ hello, r.reply ≠ some (.hello hello))
    (hstage : Holds command b r r.stage) : RemoteInv command b r :=
  ⟨fun hello h => absurd h (hreply hello), hstage⟩

/-- A relay takes the next frame of its sender. -/
theorem Relays.next {g : Nat} {hello : ServerHello} {sender : Buffered.Sender} {f : Frame}
    (hr : Relays b r g hello sender) (hi : Buffered.Inv b)
    (hf : sender.frames[r.read]? = some f) :
    Relayed r.relay f (r.relay.frame S raw f) ∧ r.read + 1 ≤ sender.frames.length ∧
      ∀ st, (r.relay.frame S raw f).1.written.get st =
        Frame.bytes st (sender.frames.take (r.read + 1)) := by
  obtain ⟨hlt, rfl⟩ := List.getElem?_eq_some_iff.mp hf
  have hsplit : sender.frames =
      sender.frames.take r.read ++ sender.frames[r.read] :: sender.frames.drop (r.read + 1) := by
    rw [List.getElem_cons_drop, List.take_append_drop]
  have htakes : ∀ st, ∃ q,
      sender.frames[r.read].advance st (r.relay.positions.output.get st) = some q := by
    intro st
    have hfollow := (hi.senders g sender hr.serves).follow st
    rw [hsplit, hr.opening] at hfollow
    rw [hr.position st, hr.written st]
    exact ⟨_, Frame.follow_next hfollow⟩
  have hrelayed := frame_raw (S := S) htakes
  refine ⟨hrelayed, hlt, fun st => ?_⟩
  rw [hrelayed.written st, hr.written st, List.take_add_one, List.getElem?_eq_getElem hlt,
    Option.toList_some, Frame.bytes_append, Frame.bytes_singleton]

/-- **A step keeps what is known of a remote side.** -/
theorem RemoteMoved.inv (h : RemoteMoved S hardened b r b' r') (hb : BrokerInv command b)
    (hr : RemoteInv command b r) : RemoteInv command b' r' := by
  cases h with
  | refused attachment error early =>
    exact remoteInv_closed (fun hello h => by cases h) trivial
  | moved attachment early hholds =>
    have hnone : r.reply = none := hr.unreplied early
    refine remoteInv_closed (fun hello h => ?_) ?_
    · have h : r.reply = some (.hello hello) := h
      rw [hnone] at h
      cases h
    · rw [hholds]
      exact hnone
  | greeted g early =>
    have hnone : r.reply = none := hr.unreplied early
    refine remoteInv_closed (fun hello h => ?_)
      ⟨hnone, hello_greeted hb.inv.session hb.fed r.requested⟩
    have h : r.reply = some (.hello hello) := h
    rw [hnone] at h
    cases h
  | @answered g hello b' hstage hs =>
    have hgreeted := hr.stage
    rw [hstage] at hgreeted
    refine ⟨fun hello' h => ?_, ?_⟩
    · cases h
      refine ⟨hgreeted.2.grow (grows_step hb.inv hs), fun st => ?_⟩
      cases st <;> exact List.nil_prefix
    · simp only [Buffered.step] at hs
      split at hs <;> cases hs
      refine ⟨hello, _, rfl, Function.update_self .., rfl, Nat.zero_le _, ?_, ?_⟩
      · intro st
        cases st <;> rfl
      · intro st
        cases st <;> rfl
  | @framed g sender f stage hstage hg hf hnext =>
    have hrelays := hr.stage
    rw [hstage] at hrelays
    obtain ⟨hello, sender', hrelays⟩ := hrelays
    obtain rfl : sender = sender' := Option.some.inj (hg.symm.trans hrelays.serves)
    obtain ⟨hrelayed, hread, hwritten⟩ := hrelays.next (S := S) hb.inv hf
    refine ⟨fun hello' h => ?_, ?_⟩
    · obtain rfl : hello = hello' := by
        have := hrelays.reply.symm.trans h
        cases this
        rfl
      refine ⟨(hr.replied hello hrelays.reply).1, fun st => ?_⟩
      rw [hwritten st, ← hrelays.opening]
      exact bytes_isPrefix hb.inv hb.fed hg st _
    · rcases hnext with rfl | ⟨rfl, hgoes⟩
      · trivial
      · refine ⟨hello, sender, hrelays.reply, hg, hrelays.opening, hread, hwritten, fun st => ?_⟩
        rw [hrelayed.position hgoes st, hrelays.position st, hrelayed.written st,
          List.length_append, Nat.add_assoc]
  | stopped => exact ⟨hr.replied, trivial⟩

/-- What the outer process has read of a remote side stays. -/
structure Follows (r r' : Remote) : Prop where
  reply : ∀ hello, r.reply = some (.hello hello) → r'.reply = some (.hello hello)
  written : ∀ hello, r.reply = some (.hello hello) →
    ∀ st, r.relay.written.get st <+: r'.relay.written.get st

/-- A remote side may stay. -/
theorem Follows.refl (r : Remote) : Follows r r := ⟨fun _ h => h, fun _ _ _ => List.prefix_rfl⟩

/-- A remote side that has not replied has promised nothing. -/
theorem follows_unreplied (h : r.reply = none) : Follows r r' := by
  refine ⟨fun hello hr => ?_, fun hello hr => ?_⟩ <;> rw [h] at hr <;> cases hr

/-- A remote side's replies stand, and its relay writes behind what it has written. -/
theorem RemoteMoved.follows (h : RemoteMoved S hardened b r b' r') (hb : BrokerInv command b)
    (hr : RemoteInv command b r) : Follows r r' := by
  cases h with
  | refused attachment error early => exact follows_unreplied (hr.unreplied early)
  | moved attachment early _ => exact follows_unreplied (hr.unreplied early)
  | greeted g early => exact follows_unreplied (hr.unreplied early)
  | answered hstage _ => exact follows_unreplied (hr.unreplied (by rw [hstage]; rfl))
  | @framed g sender f stage hstage hg hf hnext =>
    have hrelays := hr.stage
    rw [hstage] at hrelays
    obtain ⟨hello, sender', hrelays⟩ := hrelays
    obtain rfl : sender = sender' := Option.some.inj (hg.symm.trans hrelays.serves)
    refine ⟨fun _ h => h, fun _ _ st => ?_⟩
    rw [(hrelays.next (S := S) hb.inv hf).1.written st]
    exact List.prefix_append _ _
  | stopped => exact ⟨fun _ h => h, fun _ _ _ => List.prefix_rfl⟩

/-! ## The outer process -/

/-- The bytes that a task has read and not counted. -/
def CopyStage.held : CopyStage → Nat
  | .writing data => data.length
  | .counting count => count
  | _ => 0

/-- The bytes that a task has written and not counted. -/
def CopyStage.uncounted : CopyStage → Nat
  | .counting count => count
  | _ => 0

/-- **Copying is exact**: what was written is the command's stream up to the position and what is
not counted yet, and the transport has been read exactly up to what is in hand. -/
structure Copies (stream sent written : List UInt8) (start position received : Nat)
    (task : CopyStage) : Prop where
  counts : start + received = position + task.held
  there : received ≤ sent.length
  inside : position + task.held ≤ stream.length
  inHand : ∀ data, task = .writing data → data = stretch stream position (position + data.length)
  done : written = stream.take (position + task.uncounted)

section

variable {stream sent sent' written : List UInt8} {start position received : Nat}
  {task : CopyStage}

/-- The relay has written more. -/
theorem Copies.grow (h : Copies stream sent written start position received task)
    (hsent : sent <+: sent') : Copies stream sent' written start position received task :=
  { h with there := Nat.le_trans h.there hsent.length_le }

/-- A task stops, or has nothing in hand. -/
theorem Copies.stops (h : Copies stream sent written start position received .reading)
    {task : CopyStage} (hheld : task.held = 0) (huncounted : task.uncounted = 0) :
    Copies stream sent written start position received task where
  counts := by
    rw [hheld]
    exact h.counts
  there := h.there
  inside := by
    rw [hheld]
    exact h.inside
  inHand data hdata := by
    subst hdata
    rw [List.eq_nil_of_length_eq_zero hheld, List.length_nil, Nat.add_zero, stretch_self]
  done := by
    rw [huncounted]
    exact h.done

/-- The next bytes of the transport are the next bytes of the stream. -/
theorem Copies.read (h : Copies stream sent written start position received .reading)
    (hsent : sent <+: stream.drop start) {count : Nat} (hcount : received + count ≤ sent.length) :
    Copies stream sent written start position (received + count)
      (.writing ((sent.drop received).take count)) := by
  have hposition : start + received = position := h.counts
  have hlength : ((sent.drop received).take count).length = count := by
    rw [List.length_take, List.length_drop]
    omega
  have hstream : start + sent.length ≤ stream.length ∨ sent.length = 0 := by
    have := hsent.length_le
    rw [List.length_drop] at this
    omega
  have hinside := h.inside
  refine ⟨?_, hcount, ?_, fun data hdata => ?_, h.done⟩
  · show start + (received + count) = position + ((sent.drop received).take count).length
    omega
  · show position + ((sent.drop received).take count).length ≤ stream.length
    have : position + 0 ≤ stream.length := hinside
    omega
  · cases hdata
    have hpart : stretch sent received (received + count) =
        stretch (stream.drop start) received (received + count) :=
      (stretch_of_isPrefix hsent hcount).symm
    rw [hlength, ← hposition]
    calc (sent.drop received).take count
        = stretch sent received (received + count) := by
          rw [stretch, Nat.add_sub_cancel_left]
      _ = stretch (stream.drop start) received (received + count) := hpart
      _ = stretch stream (start + received) (start + received + count) := by
          rw [stretch, stretch, List.drop_drop, Nat.add_sub_cancel_left, Nat.add_sub_cancel_left]

/-- What is in hand is written after what was. -/
theorem Copies.write {data : List UInt8}
    (h : Copies stream sent written start position received (.writing data)) :
    Copies stream sent (written ++ data) start position received (.counting data.length) where
  counts := h.counts
  there := h.there
  inside := h.inside
  inHand _ hdata := by cases hdata
  done := by
    have hdata := h.inHand data rfl
    rw [stretch, Nat.add_sub_cancel_left] at hdata
    have hwritten : written = stream.take position := h.done
    show written ++ data = stream.take (position + data.length)
    rw [List.take_add, ← hdata, hwritten]

/-- What was written is counted. -/
theorem Copies.count {count : Nat}
    (h : Copies stream sent written start position received (.counting count)) :
    Copies stream sent written start (position + count) received .reading :=
  ⟨h.counts, h.there, h.inside, nofun, h.done⟩

end

variable {s t : State} {o : Opened}

/-- A stream of an opened attempt. -/
def Copying (command : PerStream (List UInt8)) (s : State) (o : Opened) (r : Remote) (st : Stream) :
    Prop :=
  Copies (command.get st) (r.relay.written.get st) (s.written.get st) (o.hello.offsets.get st)
    (o.position.get st) (o.received.get st) (o.tasks.get st)

/-- What a step of a copying task leaves alone. -/
structure SameAttempt (s : State) (o : Opened) (st : Stream) (t : State) (o' : Opened) : Prop where
  state : t = { s with written := t.written, stage := .copying o' }
  hello : o'.hello = o.hello
  written : ∀ st', st' ≠ st → t.written.get st' = s.written.get st'
  position : ∀ st', st' ≠ st → o'.position.get st' = o.position.get st'
  received : ∀ st', st' ≠ st → o'.received.get st' = o.received.get st'
  tasks : ∀ st', st' ≠ st → o'.tasks.get st' = o.tasks.get st'

/-- A copy task counts what it has copied of the relay's bytes. -/
theorem copyStep_copies {r : Remote} {act : CopyAct} (hwrites : ∀ n, act ≠ .writeError n)
    (hsent : r.relay.written.get st <+: (command.get st).drop (o.hello.offsets.get st))
    (hc : Copying command s o r st)
    (h : s.copyStep o (r.relay.written.get st) st act = some t) :
    ∃ o', SameAttempt s o st t o' ∧ Copying command t o' r st := by
  unfold Copying at hc
  have same : ∀ {α : Type} (p : PerStream α) (x : α) st', st' ≠ st →
      (p.set st x).get st' = p.get st' := fun p x st' hne => p.get_set_ne hne x
  unfold State.copyStep at h
  dsimp only at h
  split at h
  · rename_i count htask
    rw [htask] at hc
    split at h <;> cases h
    rename_i hcount
    refine ⟨_, ⟨rfl, rfl, fun _ _ => rfl, fun _ _ => rfl, same _ _, same _ _⟩, ?_⟩
    simp only [Copying, PerStream.get_set_self]
    exact hc.read hsent hcount.2.2
  · rename_i htask
    rw [htask] at hc
    cases h
    refine ⟨_, ⟨rfl, rfl, fun _ _ => rfl, fun _ _ => rfl, fun _ _ => rfl, same _ _⟩, ?_⟩
    simp only [Copying, PerStream.get_set_self]
    exact hc.stops rfl rfl
  · rename_i htask
    rw [htask] at hc
    cases h
    refine ⟨_, ⟨rfl, rfl, fun _ _ => rfl, fun _ _ => rfl, fun _ _ => rfl, same _ _⟩, ?_⟩
    simp only [Copying, PerStream.get_set_self]
    exact hc.stops rfl rfl
  · rename_i data htask
    rw [htask] at hc
    cases h
    refine ⟨_, ⟨rfl, rfl, same _ _, fun _ _ => rfl, fun _ _ => rfl, same _ _⟩, ?_⟩
    simp only [Copying, PerStream.get_set_self]
    exact hc.write
  · exact absurd rfl (hwrites _)
  · rename_i count htask
    rw [htask] at hc
    cases h
    refine ⟨_, ⟨rfl, rfl, fun _ _ => rfl, same _ _, fun _ _ => rfl, same _ _⟩, ?_⟩
    simp only [Copying, PerStream.get_set_self]
    exact hc.count
  · cases h

/-- A task of one stream leaves the other stream's copy as it is. -/
theorem SameAttempt.other {o' : Opened} {r : Remote} {st' : Stream}
    (h : SameAttempt s o st t o') (hne : st' ≠ st) (hc : Copying command s o r st') :
    Copying command t o' r st' := by
  unfold Copying
  rw [h.hello, h.written st' hne, h.position st' hne, h.received st' hne, h.tasks st' hne]
  exact hc

/-! ## Attempts -/

/-- Local output is what the delivered positions say. -/
def Delivered (command : PerStream (List UInt8)) (s : State) : Prop :=
  ∀ st, s.delivered.get st ≤ (command.get st).length ∧
    s.written.get st = (command.get st).take (s.delivered.get st)

/-- An attempt is opened, and its output is being copied. -/
def Copied (command : PerStream (List UInt8)) (s : State) (o : Opened) : Prop :=
  ∃ r, s.remotes s.attempt = some r ∧ r.reply = some (.hello o.hello) ∧
    ∀ st, Copying command s o r st

/-- What the run loop's place says. -/
def Stands (command : PerStream (List UInt8)) (s : State) : Stage → Prop
  | .copying o => Copied command s o
  | .exited code => Delivered command s ∧
    (∀ st, s.delivered.get st = (command.get st).length) ∧
    ∃ status, s.broker.session.metadata.status = some status ∧ code = status.processCode
  | _ => Delivered command s

structure Inv (command : PerStream (List UInt8)) (s : State) : Prop where
  broker : BrokerInv command s.broker
  remotes : ∀ i r, s.remotes i = some r → RemoteInv command s.broker r
  stage : Stands command s s.stage

/-- The broker and the remote sides move on. -/
structure Remotely (s t : State) : Prop where
  broker : Grows s.broker t.broker
  remotes : ∀ i r, s.remotes i = some r → ∃ r', t.remotes i = some r' ∧ Follows r r'
  attempt : t.attempt = s.attempt
  delivered : t.delivered = s.delivered
  written : t.written = s.written
  stage : t.stage = s.stage

/-- A step elsewhere delivers nothing. -/
theorem Delivered.remotely (h : Delivered command s) (hst : Remotely s t) :
    Delivered command t := by
  intro st
  rw [hst.delivered, hst.written]
  exact h st

/-- What happens elsewhere does not move the outer process. -/
theorem Stands.remotely {stage : Stage} (h : Stands command s stage) (hst : Remotely s t) :
    Stands command t stage := by
  cases stage with
  | copying o =>
    obtain ⟨r, hr, hreply, hc⟩ := h
    obtain ⟨r', hr', hfollows⟩ := hst.remotes _ r hr
    refine ⟨r', ?_, hfollows.reply _ hreply, fun st => ?_⟩
    · rw [hst.attempt]
      exact hr'
    · unfold Copying
      rw [hst.written]
      exact (hc st).grow (hfollows.written _ hreply st)
  | exited code =>
    obtain ⟨hd, hall, status, hstatus, hcode⟩ := h
    refine ⟨hd.remotely hst, fun st => ?_, status, hst.broker.session.status status hstatus, hcode⟩
    rw [hst.delivered]
    exact hall st
  | _ => exact Delivered.remotely h hst

/-- A remote side moves, with the broker. -/
theorem Inv.setRemote {i : Nat} (hi : Inv command s) (hb : BrokerInv command b')
    (hgrows : Grows s.broker b') (hr : s.remotes i = some r) (hr' : RemoteInv command b' r')
    (hfollows : Follows r r') (presence : Presence) :
    Inv command { s.setRemote i r' with broker := b', presence := presence } := by
  have other : ∀ j, j ≠ i → (s.setRemote i r').remotes j = s.remotes j := fun j hne =>
    Function.update_of_ne hne ..
  have self : (s.setRemote i r').remotes i = some r' := Function.update_self ..
  refine ⟨hb, ?_, ?_⟩
  · apply Parties.forall_update_some
    · exact hr'
    · intro j x _ hx
      exact (hi.remotes j x hx).grow hgrows
  · refine hi.stage.remotely ⟨hgrows, fun j x hx => ?_, rfl, rfl, rfl, rfl⟩
    by_cases heq : j = i
    · subst heq
      rw [hr] at hx
      cases hx
      exact ⟨r', self, hfollows⟩
    · exact ⟨x, (other j heq).trans hx, .refl x⟩

/-- A remote side that connects is refused, or goes on to attach. -/
theorem connect_early (S : Serde) (hardened : Bool) {presence presence' : Presence}
    (h : connect id presence r = some (presence', r'))
    (hb : BrokerInv command b) (hr : RemoteInv command b r) (early : r.stage.early = true) :
    RemoteInv command b r' ∧ Follows r r' := by
  have hmoved : ∃ act, RemoteMoved S hardened b r act r' ∧ act = b := by
    unfold connect at h
    split at h <;> cases h
    · exact ⟨_, .moved b.session.attachment early fun _ _ _ => rfl, rfl⟩
    · exact ⟨_, .refused b.session.attachment _ early, rfl⟩
    · exact ⟨_, .moved b.session.attachment early fun _ _ _ => rfl, rfl⟩
    · exact ⟨_, .refused b.session.attachment _ early, rfl⟩
  obtain ⟨_, hmoved, rfl⟩ := hmoved
  exact ⟨hmoved.inv hb hr, hmoved.follows hb hr⟩

/-- The outer process moves on to a stage, with the same remote sides. -/
theorem Inv.goto (hi : Inv command s) (broker : t.broker = s.broker)
    (remotes : t.remotes = s.remotes) (h : Stands command t t.stage) : Inv command t := by
  refine ⟨?_, fun i r hr => ?_, h⟩
  · rw [broker]
    exact hi.broker
  · rw [broker]
    rw [remotes] at hr
    exact hi.remotes i r hr

/-- A new attempt is started. -/
theorem inv_start (hi : Inv command s) (hd : Delivered command s) : Inv command s.start := by
  refine ⟨hi.broker, ?_, hd⟩
  apply Parties.forall_update_some
  · refine remoteInv_closed (fun hello h => ?_) ?_
    · cases h
    · show (none : Option Reply) = none
      rfl
  · intro i r _ hr
    exact hi.remotes i r hr

/-- A server error delivers nothing. -/
theorem inv_serverError (hi : Inv command s) (hd : Delivered command s) (error : String) :
    Inv command (s.serverError error) := by
  unfold State.serverError
  split
  · exact hi.goto rfl rfl hd
  · split
    · exact hi.goto rfl rfl hd
    · exact hi.goto rfl rfl hd

/-- An opening that is accepted is at the delivered positions. -/
theorem inv_accept (hi : Inv command s) (hd : Delivered command s)
    (hr : s.remotes s.attempt = some r) {hello : ServerHello}
    (hreply : r.reply = some (.hello hello)) : Inv command (s.accept hello) := by
  have hbuffered := ((hi.remotes _ r hr).replied hello hreply).1.nobuffer
  unfold State.accept
  split
  · exact hi.goto rfl rfl hd
  split
  · exact hi.goto rfl rfl hd
  rename_i hsame
  have heq : ∀ st, hello.offsets.get st = s.delivered.get st := by
    intro st
    by_contra hne
    refine hsame ⟨hbuffered, ?_⟩
    cases st with
    | stdout => exact .inl hne
    | stderr => exact .inr hne
  refine hi.goto rfl rfl ⟨r, hr, hreply, fun st => ?_⟩
  obtain ⟨hle, hwritten⟩ := hd st
  refine ⟨?_, ?_, ?_, ?_, ?_⟩
  · simp only [PerStream.get_both, CopyStage.held]
  · simp only [PerStream.get_both, Nat.zero_le]
  · simp only [PerStream.get_both, CopyStage.held, heq st]
    exact hle
  · intro data hdata
    rw [PerStream.get_both] at hdata
    cases hdata
  · simp only [PerStream.get_both, CopyStage.uncounted, heq st]
    exact hwritten

/-- A task that is over has nothing in hand. -/
theorem Copied.delivered (h : Copied command s o) (hends : ∀ st, State.taskOver o st = true) :
    ∀ st, o.position.get st ≤ (command.get st).length ∧
      s.written.get st = (command.get st).take (o.position.get st) := by
  obtain ⟨r, -, -, hc⟩ := h
  intro st
  have hc := hc st
  have hnothing : (o.tasks.get st).held = 0 ∧ (o.tasks.get st).uncounted = 0 := by
    have hst := hends st
    simp only [State.taskOver, Bool.or_eq_true, beq_iff_eq] at hst
    rcases hst with h | h <;> rw [h] <;> exact ⟨rfl, rfl⟩
  have hinside := hc.inside
  have hdone := hc.done
  rw [hnothing.1] at hinside
  rw [hnothing.2] at hdone
  exact ⟨hinside, hdone⟩

/-- **An attempt that ends** has delivered what its tasks have counted. It exits only with streams
that are delivered up to their ends. -/
theorem inv_finish (hi : Inv command s) (hc : Copied command s o)
    (hends : ∀ st, State.taskOver o st = true) (waitFailed : Bool) :
    Inv command (s.finish o waitFailed) := by
  have hd : Delivered command { s with delivered := o.position } := hc.delivered hends
  obtain ⟨r, hr, hreply, -⟩ := hc
  have hgreeted := ((hi.remotes _ r hr).replied o.hello hreply).1
  unfold State.finish
  dsimp only
  split
  · exact hi.goto rfl rfl hd
  split
  · rename_i status hexit
    split
    · rename_i hcomplete
      refine hi.goto rfl rfl ⟨hd, fun st => ?_, status, hgreeted.exit status hexit, rfl⟩
      have hstop : State.complete o st = true := by
        rw [Bool.and_eq_true] at hcomplete
        cases st with
        | stdout => exact hcomplete.1
        | stderr => exact hcomplete.2
      obtain ⟨stop, heof, hle⟩ := (Option.any_eq_true _ _).mp hstop
      have hend := hgreeted.eofs st stop heof
      have hreached : stop ≤ o.position.get st := of_decide_eq_true hle
      refine Nat.le_antisymm (hd st).1 ?_
      rw [← hend]
      exact hreached
    · exact hi.goto rfl rfl hd
  · exact hi.goto rfl rfl hd

/-- A copying task takes a step. -/
theorem inv_copy {act : CopyAct} (hi : Inv command s) (hc : Copied command s o)
    (hr : s.remotes s.attempt = some r) (hwrites : ∀ n, act ≠ .writeError n)
    (h : s.copyStep o (r.relay.written.get st) st act = some t) : Inv command t := by
  obtain ⟨r', hr', hreply, hcopying⟩ := hc
  obtain rfl : r = r' := Option.some.inj (hr.symm.trans hr')
  have hsent := ((hi.remotes _ r hr).replied o.hello hreply).2 st
  obtain ⟨o', hsame, hst⟩ := copyStep_copies hwrites hsent (hcopying st) h
  have hstate := hsame.state
  refine hi.goto (by rw [hstate]) (by rw [hstate]) ?_
  have hstage : t.stage = .copying o' := by rw [hstate]
  rw [hstage]
  refine ⟨r, ?_, ?_, fun st' => ?_⟩
  · rw [hstate]
    exact hr
  · rw [hsame.hello]
    exact hreply
  · by_cases heq : st' = st
    · exact heq ▸ hst
    · exact hsame.other heq (hcopying st')

/-! ## Runs -/

/-- **One step of the outer process keeps the invariant.** -/
theorem inv_outer {act : OuterAct} (hi : Inv command s) (hgiven : Given command s (.outer act))
    (h : outerStep s act = some t) : Inv command t := by
  have hstands := hi.stage
  unfold outerStep at h
  split at h
  · rename_i hstage
    rw [hstage] at hstands
    cases h
    exact inv_start hi hstands
  · rename_i hstage
    rw [hstage] at hstands
    cases h
    exact hi.goto rfl rfl hstands
  · rename_i hstage
    rw [hstage] at hstands
    cases h
    exact hi.goto rfl rfl hstands
  · rename_i hstage
    rw [hstage] at hstands
    obtain ⟨r, hr, h⟩ := Option.bind_eq_some_iff.mp h
    obtain ⟨reply, hreply, rfl⟩ := Option.map_eq_some_iff.mp h
    cases reply with
    | error text => exact inv_serverError hi hstands text
    | hello hello => exact inv_accept hi hstands hr hreply
  · rename_i o st act hstage
    rw [hstage] at hstands
    obtain ⟨r, hr, h⟩ := Option.bind_eq_some_iff.mp h
    refine inv_copy hi hstands hr (fun n heq => ?_) h
    subst heq
    exact hgiven
  · rename_i o waitFailed hstage
    rw [hstage] at hstands
    split at h <;> cases h
    rename_i hends
    rw [Bool.and_eq_true] at hends
    refine inv_finish hi hstands (fun st => ?_) waitFailed
    cases st with
    | stdout => exact hends.1
    | stderr => exact hends.2
  · rename_i diagnostics
    have hnone : diagnostics = [] := hgiven
    cases h
    rw [hnone, List.append_nil]
    exact hi
  · cases h

/-- **One step keeps the invariant.** -/
theorem inv_step {act : Act} (hi : Inv command s) (hgiven : Given command s act)
    (h : step S hardened id s act = some t) : Inv command t := by
  cases act with
  | broker act =>
    simp only [step] at h
    split at h
    · obtain ⟨b', hs, rfl⟩ := Option.map_eq_some_iff.mp h
      have hfeeding : Feeding command s.broker act := by
        rintro st drain rfl
        exact hgiven
      have hgrows := grows_step hi.broker.inv hs
      refine ⟨hi.broker.step hfeeding hs, fun i r hr => (hi.remotes i r hr).grow hgrows, ?_⟩
      exact hi.stage.remotely ⟨hgrows, fun i r hr => ⟨r, hr, .refl r⟩, rfl, rfl, rfl, rfl⟩
    · cases h
  | expire =>
    simp only [step] at h
    split at h <;> cases h
    exact ⟨hi.broker, hi.remotes,
      hi.stage.remotely ⟨Grows.refl _, fun i r hr => ⟨r, hr, .refl r⟩, rfl, rfl, rfl, rfl⟩⟩
  | remote i act =>
    obtain ⟨r, hr, h⟩ := Option.bind_eq_some_iff.mp h
    have hinv := hi.remotes i r hr
    split at h
    · split at h
      · rename_i hstage
        obtain ⟨p, hp, rfl⟩ := Option.map_eq_some_iff.mp h
        obtain ⟨hinv', hfollows⟩ := connect_early S hardened hp hi.broker hinv (by rw [hstage]; rfl)
        exact hi.setRemote hi.broker (Grows.refl _) hr hinv' hfollows p.1
      · cases h
    · split at h
      · cases h
      · obtain ⟨p, hp, rfl⟩ := Option.map_eq_some_iff.mp h
        have hmoved := remoteStep_moved hp
        obtain ⟨hb, hgrows⟩ := hmoved.broker hi.broker
        exact hi.setRemote hb hgrows hr (hmoved.inv hi.broker hinv)
          (hmoved.follows hi.broker hinv) s.presence
  | outer act => exact inv_outer hi hgiven h

/-- At the start nothing is delivered. -/
theorem inv_init (h : (machine S hardened id).init s) : Inv command s := by
  obtain ⟨b, hb, rfl⟩ := h
  refine ⟨⟨Buffered.inv_init hb, ?_⟩, fun i r hr => ?_, fun st => ?_⟩
  · obtain ⟨⟨drains, failure, -, heq⟩, -⟩ := hb
    refine ⟨fun st => ?_, fun st hclosed => ?_⟩
    · rw [heq, PerStream.get_both]
      exact List.nil_prefix
    · rw [heq, PerStream.get_both] at hclosed
      cases hclosed
  · cases hr
  · simp only [PerStream.get_both, Nat.zero_le, List.take_zero, and_self]

/-- The invariant holds in every run that meets what is given. -/
theorem reach_inv (h : (machine S hardened id).Reach (Given command) s) : Inv command s :=
  h.invariant (P := Inv command) (fun _ => inv_init) fun _ _ _ _ hi hgiven hs =>
    inv_step hi hgiven hs

/-- The position of a stream: the running counter of an opened attempt, or what was delivered. -/
def State.position (s : State) (st : Stream) : Nat :=
  match s.stage with
  | .copying o => o.position.get st
  | _ => s.delivered.get st

/-- The bytes of a stream that are written and not counted yet. -/
def State.uncounted (s : State) (st : Stream) : Nat :=
  match s.stage with
  | .copying o => (o.tasks.get st).uncounted
  | _ => 0

/-- **Output is delivered exactly once.** Whatever the command prints, however many attempts there
are and wherever each is cut: local stdout and stderr hold the command's own bytes up to what is
counted, with at most one chunk written and not counted yet, and exactly the delivered ones when no
attempt is open. The wrapper exits only with both streams complete, with the code of the recorded
status. -/
theorem output_exactly_once (command : PerStream (List UInt8))
    (h : (machine S hardened id).Reach (Given command) s) :
    (∀ st, s.position st + s.uncounted st ≤ (command.get st).length ∧
      s.written.get st = (command.get st).take (s.position st + s.uncounted st)) ∧
    ((∀ o, s.stage ≠ .copying o) → ∀ st, s.delivered.get st ≤ (command.get st).length ∧
      s.written.get st = (command.get st).take (s.delivered.get st)) ∧
    ∀ code, s.stage = .exited code → (∀ st, s.written.get st = command.get st) ∧
      ∃ status, s.broker.session.metadata.status = some status ∧ code = status.processCode := by
  have hi := (reach_inv h).stage
  have between : (∀ o, s.stage ≠ .copying o) → Delivered command s := by
    intro hopen
    cases hstage : s.stage with
    | copying o => exact absurd hstage (hopen o)
    | exited code =>
      rw [hstage] at hi
      exact hi.1
    | _ =>
      rw [hstage] at hi
      exact hi
  refine ⟨fun st => ?_, between, fun code hexited => ?_⟩
  · by_cases hcopying : ∃ o, s.stage = .copying o
    · obtain ⟨o, hstage⟩ := hcopying
      rw [hstage] at hi
      obtain ⟨r, -, -, hc⟩ := hi
      have hinside := (hc st).inside
      have huncounted : (o.tasks.get st).uncounted ≤ (o.tasks.get st).held := by
        cases o.tasks.get st with
        | counting count => exact Nat.le_refl _
        | _ => exact Nat.zero_le _
      simp only [State.position, State.uncounted, hstage]
      exact ⟨by omega, (hc st).done⟩
    · have hopen : ∀ o, s.stage ≠ .copying o := fun o hstage => hcopying ⟨o, hstage⟩
      have hposition : s.position st = s.delivered.get st ∧ s.uncounted st = 0 := by
        unfold State.position State.uncounted
        cases hstage : s.stage with
        | copying o => exact absurd hstage (hopen o)
        | _ => exact ⟨rfl, rfl⟩
      rw [hposition.1, hposition.2]
      exact between hopen st
  · rw [hexited] at hi
    obtain ⟨hd, hall, status, hstatus, hcode⟩ := hi
    refine ⟨fun st => ?_, status, hstatus, hcode⟩
    rw [(hd st).2, hall st, List.take_length]

/-- The acts that no assumption is about. -/
def Act.plain : Act → Bool
  | .broker (.session (.drain _ (.read _))) | .broker (.session (.drain _ .eof))
  | .broker (.session (.drain _ (.readError _))) | .broker (.session (.drain _ .writeError))
  | .outer (.copy _ (.writeError _)) | .outer (.control _) => false
  | _ => true

/-- A plain act meets what is given. -/
theorem given_of_plain {act : Act} (h : act.plain = true) (s : State) : Given command s act := by
  unfold Given
  split
  · rename_i st drain
    cases drain with
    | read data => cases h
    | eof => cases h
    | readError => cases h
    | writeError => cases h
    | _ => trivial
  · cases h
  · cases h
  · trivial

/-- Two of three bytes reach the proxy and one of them the outer process; the next attempt is lost
in its handshake, and the one after that delivers the rest and the exit. -/
theorem output_exactly_once_resumed : ∃ S s,
    (machine S false "a").Reach (Given ⟨[1, 2, 3], []⟩) s ∧ s.attempt = 3 ∧
      s.stage = .exited 7 ∧ s.written.stdout = [1, 2, 3] := by
  let S : Serde :=
    { exitToVec := fun _ => [], exitFromSlice := fun _ => .error ""
      factToVec := fun _ => [], factFromSlice := fun _ => .error "" }
  let drain (act : Session.DrainAct) : Act := .broker (.session (.drain .stdout act))
  let eof (st : Stream) : Act := .broker (.session (.drain st .eof))
  let opened (i : Nat) : List Act := [.outer .start, .remote i .connect, .remote i .install,
    .remote i .check, .remote i (.stdin none), .remote i .snapshot, .remote i .answer, .outer .line]
  let sent (g count : Nat) : List Act := [.broker (.sender g (.turn none)),
    .broker (.sender g .look), .broker (.sender g (.read count)), .broker (.sender g .emit)]
  let copied (count : Nat) : List Act := [.outer (.copy .stdout (.read count)),
    .outer (.copy .stdout .write), .outer (.copy .stdout .count)]
  let ended : List Act := [.outer (.copy .stdout .eof), .outer (.copy .stderr .eof),
    .outer (.finish false)]
  have start : (machine S false "a").Reach (Given ⟨[1, 2, 3], []⟩)
      { broker := { session := {} } } :=
    .init ⟨_, ⟨⟨.both .reading, none, fun st => .inl (PerStream.get_both _ st), rfl⟩, rfl⟩, rfl⟩
  have plain : ∀ {s t : State} (as : List Act), as.all Act.plain = true →
      (machine S false "a").Reach (Given ⟨[1, 2, 3], []⟩) s →
      (machine S false "a").run s as = some t →
      (machine S false "a").Reach (Given ⟨[1, 2, 3], []⟩) t := fun as hplain hs hrun =>
    hs.run as (Machine.meets_of_forall fun act hact s =>
      given_of_plain (List.all_eq_true.mp hplain act hact) s) hrun
  have first := plain (opened 1) rfl start rfl
  have produced := Machine.Reach.step first (a := drain (.read [1, 2, 3])) List.prefix_rfl rfl
  have lost := plain ([drain .count, drain (.write 3), drain .flush, drain .publish] ++ sent 1 2 ++
    [.remote 1 .frame] ++ copied 1 ++ ended ++ [.broker (.session (.clear 1)), .outer .start,
    .outer .lost]) rfl produced rfl
  have closed := Machine.Reach.step lost (a := eof .stdout)
    (show Feeds ⟨[1, 2, 3], []⟩ _ .stdout .eof from rfl) rfl
  have atEnd := Machine.Reach.step closed (a := eof .stderr)
    (show Feeds ⟨[1, 2, 3], []⟩ _ .stderr .eof from rfl) rfl
  have exited := plain ([.broker (.session (.wait (.ok ⟨some 7, none⟩)))] ++ opened 3 ++ sent 2 2 ++
    [.remote 3 .frame] ++ copied 2 ++ ended) rfl atEnd rfl
  have complete := (output_exactly_once ⟨[1, 2, 3], []⟩ exited).2.2 7 rfl
  exact ⟨S, _, exited, rfl, rfl, complete.1 .stdout⟩

end Pipekeep.Attempts
