import Pipekeep.Buffered
import Pipekeep.Laws.Drain
import Pipekeep.Lib.Parties
import Pipekeep.Lib.Slice

/-!
# Replays are faithful and exits are truthful

`SenderInv` is what a sender's turns keep against the session it reads: its frames are a
contiguous reading of what the command produced, from the opening offset to its position, and its
position never passes the recorded end. The session only grows (`Session.Le`), and a closed lane no
longer moves, so an exit decided from a snapshot is still true when it is written.
-/

namespace Pipekeep.Buffered

open Slice

variable {hardened : Bool}

/-- An exit may be reported: both streams are closed, all their bytes are sent, and this is the
recorded status. -/
def Settled (session : Session) (position : PerStream Nat) (status : ExitResult) : Prop :=
  session.metadata.status = some status ∧
    ∀ st, (session.lane st).closed = true ∧ position.get st = (session.lane st).stop

/-- What a sender's stage knows about the session. -/
def StageInv (session : Session) (position : PerStream Nat) : Stage → Prop
  | .reading st stop => position.get st < stop ∧ stop ≤ (session.lane st).stop
  | .emit st data => position.get st + data.length ≤ (session.lane st).stop ∧
      data = stretch (session.lane st).produced (position.get st) (position.get st + data.length)
  | .exit status => Settled session position status
  | _ => True

structure SenderInv (session : Session) (s : Sender) : Prop where
  le : ∀ st, s.opening.get st ≤ s.position.get st ∧ s.position.get st ≤ (session.lane st).stop
  follow : ∀ st, Frame.follow st (s.opening.get st) s.frames = some (s.position.get st)
  bytes : ∀ st, Frame.bytes st s.frames =
    stretch (session.lane st).produced (s.opening.get st) (s.position.get st)
  stage : StageInv session s.position s.stage
  exited : ∀ status, .exit status ∈ s.frames →
    s.stage = .done ∧ Settled session s.position status

/-! ## The session moves -/

variable {a b : Session} {s : Sender}

theorem Settled.grow (h : a.Le b) {position : PerStream Nat} {status : ExitResult}
    (hs : Settled a position status) : Settled b position status := by
  refine ⟨h.status _ hs.1, fun st => ?_⟩
  obtain ⟨hclosed, hpos⟩ := hs.2 st
  rw [h.closed st hclosed]
  exact ⟨hclosed, hpos⟩

theorem StageInv.grow (ha : SessionInv false a) (h : a.Le b) {position : PerStream Nat}
    {stage : Stage} (hs : StageInv a position stage) : StageInv b position stage := by
  cases stage with
  | reading st stop => exact ⟨hs.1, Nat.le_trans hs.2 (h.stop st)⟩
  | emit st data =>
    refine ⟨Nat.le_trans hs.1 (h.stop st), ?_⟩
    rw [stretch_of_isPrefix (h.produced st) (Nat.le_trans hs.1 (ha.lanes st).le)]
    exact hs.2
  | exit status => exact Settled.grow h hs
  | _ => trivial

/-- A sender that does nothing keeps its invariant while the session grows. -/
theorem SenderInv.grow (ha : SessionInv false a) (h : a.Le b) (hi : SenderInv a s) :
    SenderInv b s := by
  refine ⟨fun st => ⟨(hi.le st).1, Nat.le_trans (hi.le st).2 (h.stop st)⟩, hi.follow, fun st => ?_,
    hi.stage.grow ha h,
    fun status hmem => ⟨(hi.exited status hmem).1, (hi.exited status hmem).2.grow h⟩⟩
  rw [stretch_of_isPrefix (h.produced st) (Nat.le_trans (hi.le st).2 (ha.lanes st).le)]
  exact hi.bytes st

/-! ## The sender moves -/

/-- What `serve` decides is true of the session it looked at. -/
theorem serve_inv (hi : SenderInv a s) :
    StageInv a s.position (serve s a.metadata.ends (terminalStatus a.metadata)) := by
  unfold serve
  dsimp only
  split
  · rename_i h
    exact ⟨h.1, Nat.le_refl _⟩
  rename_i hout
  split
  · rename_i h
    exact ⟨h, Nat.le_refl _⟩
  rename_i herr
  split
  · rename_i status hterm
    simp only [terminalStatus, Option.filter_eq_some_iff, Bool.and_eq_true] at hterm
    obtain ⟨hstatus, hcout, hcerr⟩ := hterm
    refine ⟨hstatus, fun st => ?_⟩
    cases st with
    | stdout =>
      refine ⟨hcout, Nat.le_antisymm (hi.le .stdout).2 ?_⟩
      show a.metadata.ends.stdout ≤ s.position.stdout
      by_contra hlt
      exact hout ⟨by omega, .inr herr⟩
    | stderr =>
      refine ⟨hcerr, Nat.le_antisymm (hi.le .stderr).2 ?_⟩
      show a.metadata.ends.stderr ≤ s.position.stderr
      omega
  · trivial

/-- `read_at` returns what the command produced there. -/
theorem readAt_inv (ha : SessionInv false a) {st : Stream} {stop count : Nat} {data : List UInt8}
    (hle : stop ≤ (a.lane st).stop) (hlt : s.position.get st < stop)
    (h : readAt (a.files.get st) (s.position.get st) stop count = some data) :
    s.position.get st + data.length ≤ stop ∧
      data = stretch (a.lane st).produced (s.position.get st) (s.position.get st + data.length) := by
  unfold readAt at h
  split at h
  · rename_i hcount
    obtain ⟨hasked, hthere⟩ := hcount
    cases h
    have hlen : ((List.drop (s.position.get st) (a.files.get st)).take count).length = count := by
      rw [List.length_take, List.length_drop]
      omega
    have hbound : s.position.get st + count ≤ stop := by
      have := Nat.le_trans hasked (Nat.min_le_left _ _)
      omega
    rw [hlen]
    refine ⟨hbound, ?_⟩
    obtain ⟨hpre, hfile⟩ := (ha.lanes st).spool rfl
    rw [stretch_of_isPrefix hpre (Nat.le_trans (Nat.le_trans hbound hle) hfile)]
    unfold stretch
    rw [Nat.add_sub_cancel_left]
    rfl
  · cases h

/-- A stage change alone. -/
theorem SenderInv.stage_to (hi : SenderInv a s) {stage : Stage}
    (hlive : s.stage ≠ .done ∨ stage = .done) (hs : StageInv a s.position stage) :
    SenderInv a { s with stage := stage } := by
  refine { hi with stage := hs, exited := fun status hmem => ?_ }
  obtain ⟨hdone, hsettled⟩ := hi.exited status hmem
  rcases hlive with hne | hd
  · exact absurd hdone hne
  · exact ⟨hd, hsettled⟩

/-- A frame that carries no output. -/
theorem SenderInv.control (hi : SenderInv a s) (hlive : s.stage ≠ .done) {f : Frame}
    (hf : f.output = none) {stage : Stage} (hs : StageInv a s.position stage)
    (hexit : ∀ status, f = .exit status → stage = .done ∧ Settled a s.position status) :
    SenderInv a { s with stage := stage, frames := s.frames ++ [f] } := by
  refine ⟨hi.le, fun st => Frame.follow_snoc (hi.follow st) (Frame.advance_of_output_none hf st _),
    fun st => ?_, hs, fun status hmem => ?_⟩
  · show Frame.bytes st (s.frames ++ [f]) = _
    rw [Frame.bytes_append, Frame.bytes_singleton, Frame.payload_of_output_none hf,
      List.append_nil]
    exact hi.bytes st
  · rcases List.mem_append.mp hmem with hmem | hmem
    · exact absurd (hi.exited status hmem).1 hlive
    · exact hexit status (List.mem_singleton.mp hmem).symm

/-- The data frame of a turn continues its stream and leaves the other alone. -/
theorem SenderInv.data (hi : SenderInv a s) {st : Stream} {data : List UInt8}
    (hs : s.stage = .emit st data) (prefer : Bool) :
    SenderInv a { s with
      stage := .top
      position := s.position.set st (s.position.get st + data.length)
      preferStdout := prefer
      frames := s.frames ++ [.outputData st (s.position.get st) data] } := by
  have hstage := hi.stage
  rw [hs] at hstage
  obtain ⟨hle, hdata⟩ := hstage
  refine ⟨fun st' => ?_, fun st' => ?_, fun st' => ?_, trivial, fun status hmem => ?_⟩
  · have := hi.le st'
    simp only [PerStream.get_set]
    split
    · rename_i heq
      subst heq
      omega
    · exact this
  · refine Frame.follow_snoc (hi.follow st') ?_
    rw [Frame.advance_outputData, PerStream.get_set]
    by_cases heq : st' = st
    · subst heq
      simp only [if_true]
    · rw [if_neg (Ne.symm heq), if_neg heq]
  · show Frame.bytes st' (s.frames ++ [_]) = _
    rw [Frame.bytes_append, Frame.bytes_singleton, Frame.payload_outputData, PerStream.get_set,
      hi.bytes st']
    by_cases heq : st' = st
    · subst heq
      rw [if_pos rfl, if_pos rfl]
      have happ := stretch_append (a.lane st').produced (hi.le st').1
        (Nat.le_add_right (s.position.get st') data.length)
      rw [← happ, ← hdata]
    · rw [if_neg (Ne.symm heq), if_neg heq, List.append_nil]
  · rcases List.mem_append.mp hmem with hmem | hmem
    · have := (hi.exited status hmem).1
      rw [hs] at this
      cases this
    · cases st <;> cases List.mem_singleton.mp hmem

theorem senderStep_inv (ha : SessionInv false a) {g : Nat} {t : Sender} {act : SenderAct}
    (hi : SenderInv a s) (h : senderStep a g s act = some t) : SenderInv a t := by
  unfold senderStep at h
  dsimp only at h
  split at h
  · rename_i hs
    split at h
    · split at h <;> cases h <;>
        exact hi.stage_to (.inl (by rw [hs]; exact nofun)) trivial
    · cases h
      exact hi.stage_to (.inr rfl) trivial
  · rename_i hs
    split at h <;> cases h
    · exact hi.control (by rw [hs]; exact nofun) rfl trivial nofun
    · exact hi.stage_to (.inr rfl) trivial
  · rename_i hs
    cases h
    exact hi.stage_to (.inl (by rw [hs]; exact nofun)) (serve_inv hi)
  · rename_i st stop count hs
    have hstage := hi.stage
    rw [hs] at hstage
    split at h
    · cases h
    · cases h
      exact hi.stage_to (.inr rfl) trivial
    · rename_i data hread
      cases h
      obtain ⟨hle, hdata⟩ := readAt_inv ha hstage.2 hstage.1 hread
      exact hi.stage_to (.inl (by rw [hs]; exact nofun)) ⟨Nat.le_trans hle hstage.2, hdata⟩
  · rename_i st data hs
    split at h <;> cases h
    · exact hi.data hs _
    · exact hi.stage_to (.inr rfl) trivial
  · rename_i status hs
    have hstage := hi.stage
    rw [hs] at hstage
    split at h <;> cases h
    · refine hi.control (by rw [hs]; exact nofun) rfl trivial fun status' he => ?_
      cases he
      exact ⟨rfl, hstage⟩
    · exact hi.stage_to (.inr rfl) trivial
  · rename_i hs
    cases h
    exact hi.stage_to (.inl (by rw [hs]; exact nofun)) trivial
  · cases h
  · cases h
    exact hi.stage_to (.inr rfl) trivial
  · cases h

/-! ## Runs -/

structure Inv (s : State) : Prop where
  session : SessionInv false s.session
  senders : ∀ g sender, s.senders g = some sender → SenderInv s.session sender

theorem inv_setSender {s : State} (hi : Inv s) {g : Nat} {sender : Sender}
    (h : SenderInv s.session sender) : Inv (s.setSender g sender) := by
  refine ⟨hi.session, ?_⟩
  apply Parties.forall_update_some
  · exact h
  · intro g' sender' _ hg
    exact hi.senders g' sender' hg

theorem inv_step {s t : State} {act : Act} (hi : Inv s) (h : step hardened s act = some t) :
    Inv t := by
  cases act with
  | session act =>
    obtain ⟨p, hp, rfl⟩ := Option.map_eq_some_iff.mp h
    exact ⟨session_inv_step hi.session hp, fun g sender hg =>
      (hi.senders g sender hg).grow hi.session (session_le_step hi.session hp)⟩
  | attach g offsets =>
    simp only [step] at h
    split at h <;> cases h
    rename_i hok
    have hahead := hok.2.2
    simp only [offsetsAreAhead, Bool.or_eq_false_iff, decide_eq_false_iff_not, Nat.not_lt] at hahead
    refine inv_setSender hi ⟨fun st => ⟨Nat.le_refl _, ?_⟩, fun _ => rfl, fun st => ?_, trivial,
      nofun⟩
    · cases st
      · exact hahead.1
      · exact hahead.2
    · rw [stretch_self]
      rfl
  | sender g act =>
    simp only [step] at h
    split at h
    · cases h
    · rename_i sender hg
      obtain ⟨sender', hs, rfl⟩ := Option.map_eq_some_iff.mp h
      exact inv_setSender hi (senderStep_inv hi.session (hi.senders g sender hg) hs)

theorem inv_init {s : State} (h : (machine hardened).init s) : Inv s := by
  obtain ⟨hs, hn⟩ := h
  refine ⟨session_inv_init hs, fun g sender hg => ?_⟩
  rw [hn] at hg
  cases hg

theorem reachable_inv {s : State} (h : (machine hardened).Reachable s) : Inv s :=
  h.invariant (fun _ => inv_init) fun _ _ _ _ hi _ hs => inv_step hi hs

/-- **Replay fidelity and truthful exits.** The data frames an attachment has been sent of a stream
are contiguous from its opening offset and carry exactly what the command produced there; an exit
was sent only over closed streams whose last produced byte was sent, with the recorded status. -/
theorem replay_faithful {s : State} (h : (machine hardened).Reachable s) {g : Nat}
    {sender : Sender} (hg : s.senders g = some sender) :
    (∀ st, Frame.follow st (sender.opening.get st) sender.frames = some (sender.position.get st) ∧
      Frame.bytes st sender.frames =
        stretch (s.session.produced.get st) (sender.opening.get st) (sender.position.get st)) ∧
    ∀ status, .exit status ∈ sender.frames → s.session.metadata.status = some status ∧
      ∀ st, s.session.metadata.closed.get st = true ∧
        s.session.metadata.ends.get st = (s.session.produced.get st).length ∧
        sender.position.get st = s.session.metadata.ends.get st := by
  have hi := reachable_inv h
  have hs := hi.senders g sender hg
  refine ⟨fun st => ⟨hs.follow st, hs.bytes st⟩, fun status hmem => ?_⟩
  obtain ⟨_, hstatus, hclosed⟩ := hs.exited status hmem
  refine ⟨hstatus, fun st => ?_⟩
  obtain ⟨hc, hpos⟩ := hclosed st
  exact ⟨hc, ((hi.session.lanes st).closed hc).2, hpos⟩

/-- A client is displaced after a partial read; its successor asks for the output from byte 1 on and
gets it, with the exit. -/
theorem replay_faithful_takeover :
    ∃ s sender, (machine false).Reachable s ∧ s.senders 2 = some sender ∧
      sender.frames = [.stdoutData 1 [2, 3], .exit ⟨some 0, none⟩] ∧
      Frame.bytes .stdout sender.frames = stretch (s.session.produced.get .stdout) 1 3 := by
  let drain (act : Session.DrainAct) : Act := .session (.drain .stdout act)
  let labels : List Act := [.session (.install false), drain (.read [1, 2, 3]), drain .count,
    drain (.write 2), drain (.write 1), drain .flush, drain .publish, .attach 1 (.both 0),
    .sender 1 (.turn none), .sender 1 .look, .sender 1 (.read 1), .sender 1 .emit,
    .session (.install true), .attach 2 ⟨1, 0⟩, drain .eof, .session (.drain .stderr .eof),
    .session (.wait (.ok ⟨some 0, none⟩)), .sender 2 (.turn none), .sender 2 .look,
    .sender 2 (.read 2), .sender 2 .emit, .sender 2 (.turn none), .sender 2 .look,
    .sender 2 .emit]
  have start : (machine false).Reachable { session := {} } :=
    .init ⟨⟨.both .reading, none, fun st => .inl (PerStream.get_both _ st), rfl⟩, rfl⟩
  have reached := @Machine.Reachable.run _ _ (machine false) _ _ start labels rfl
  exact ⟨_, _, reached, rfl, rfl, ((replay_faithful reached (g := 2) rfl).1 .stdout).2⟩

end Pipekeep.Buffered
