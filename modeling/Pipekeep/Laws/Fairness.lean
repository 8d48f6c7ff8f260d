import Pipekeep.Buffered
import Pipekeep.Laws.Trails
import Pipekeep.Laws.Turns

/-!
# Receipts and streams do not starve each other

Both output loops keep to `Turns`: each stage of a sender is a phase of its turn, and what a step
does is what its phase may do. The events are read off the machines' runs: the frames a step adds,
and before them what its turn looked at.
-/

namespace Pipekeep

open TurnEvent

/-- The events of the frames that were added. -/
def addedFrames (before after : List Frame) : List TurnEvent :=
  (after.drop before.length).map .frame

/-- Without new frames nothing is added. -/
@[simp] theorem addedFrames_self (fs : List Frame) : addedFrames fs fs = [] := by
  rw [addedFrames, List.drop_length, List.map_nil]

/-- The frames put behind the old ones are those added. -/
@[simp] theorem addedFrames_append (fs gs : List Frame) :
    addedFrames fs (fs ++ gs) = gs.map .frame := by
  rw [addedFrames, List.drop_left]

section steps

variable {prefer : Bool} {phase : TurnPhase} {frames : List Frame} {looks log : List TurnEvent}

/-- A step that neither looks nor writes adds nothing. -/
theorem turns_kept (quiet : looks = []) (h : Turns prefer phase frames log) :
    Turns prefer phase frames (log ++ (looks ++ addedFrames frames frames)) := by
  rw [quiet, addedFrames_self, List.append_nil, List.append_nil]
  exact h

/-- A step that writes without a look adds its frame. -/
theorem turns_sends (quiet : looks = []) {f : Frame}
    (h : Turns prefer phase (frames ++ [f]) (log ++ [.frame f])) :
    Turns prefer phase (frames ++ [f])
      (log ++ (looks ++ addedFrames frames (frames ++ [f]))) := by
  rw [quiet, addedFrames_append]
  exact h

/-- A step that looks and does not write adds what it has seen. -/
theorem turns_looked {x : TurnEvent} (seen : looks = [x])
    (h : Turns prefer phase frames (log ++ [x])) :
    Turns prefer phase frames (log ++ (looks ++ addedFrames frames frames)) := by
  rw [seen, addedFrames_self, List.append_nil]
  exact h

end steps

/-! ## The buffered loop -/

namespace Buffered

variable {hardened : Bool} {s t : State} {g : Nat} {sender : Sender} {log : List TurnEvent}

/-- Which streams have undelivered bytes in a snapshot. -/
def Sender.ready (sender : Sender) (m : Meta) : PerStream Bool :=
  ⟨decide (sender.position.stdout < m.ends.stdout), decide (sender.position.stderr < m.ends.stderr)⟩

/-- A turn's look, and if neither stream is ready its check of the end. -/
def Sender.looked (sender : Sender) (m : Meta) : List TurnEvent :=
  let ready := sender.ready m
  .look ready ::
    if ready.stdout || ready.stderr then [] else [.checked (terminalStatus m).isSome]

/-- What a step of the sender looks at. -/
def Sender.looks (sender : Sender) (m : Meta) : SenderAct → List TurnEvent
  | .look => if sender.stage = .look then sender.looked m else []
  | _ => []

/-- What the sender of `g` has written. -/
def State.framesOf (s : State) (g : Nat) : List Frame := ((s.senders g).map (·.frames)).getD []

def State.looks (s : State) (g : Nat) : Act → List TurnEvent
  | .sender g' act =>
    if g' = g then (s.senders g).elim [] fun sender => sender.looks s.session.metadata act else []
  | _ => []

/-- What the sender of `g` does in a step. -/
def turnEvents (hardened : Bool) (g : Nat) (s : State) (a : Act) : List TurnEvent :=
  s.looks g a ++ (step hardened s a).elim [] fun t => addedFrames (s.framesOf g) (t.framesOf g)

def Stage.phase : Stage → TurnPhase
  | .top | .receipt _ | .waiting => .fresh
  | .look => .looking
  | .reading st _ | .emit st _ => .picked st
  | .exit _ | .done => .finished

/-- The sender of `g`, once it is attached, keeps to its turns. -/
def TurnsOf (g : Nat) (s : State) (log : List TurnEvent) : Prop :=
  match s.senders g with
  | none => log = []
  | some sender => Turns sender.preferStdout sender.stage.phase sender.frames log

/-- A turn's choice serves its preference. -/
theorem serve_turns (h : Turns sender.preferStdout .looking sender.frames log) (m : Meta) :
    Turns sender.preferStdout (serve sender m.ends (terminalStatus m)).phase sender.frames
      (log ++ sender.looked m) := by
  unfold serve Sender.looked
  dsimp only
  split
  · rename_i first
    have hout : (sender.ready m).stdout = true := decide_eq_true first.1
    rw [hout, Bool.true_or, if_pos rfl]
    refine h.pick fun hprefer st' hne => ?_
    cases st' with
    | stdout => exact absurd rfl hne
    | stderr =>
      rw [hprefer] at first
      exact decide_eq_false (first.2.resolve_left (by decide))
  rename_i notFirst
  split
  · rename_i second
    have herr : (sender.ready m).stderr = true := decide_eq_true second
    rw [herr, Bool.or_true, if_pos rfl]
    refine h.pick fun hprefer st' hne => ?_
    cases st' with
    | stdout => exact decide_eq_false fun hlt => notFirst ⟨hlt, .inl hprefer⟩
    | stderr => exact absurd rfl hne
  · rename_i notSecond
    have hnone : sender.ready m = .both false := by
      refine PerStream.ext (decide_eq_false fun hlt => ?_) (decide_eq_false notSecond)
      exact notFirst ⟨hlt, .inr notSecond⟩
    rw [hnone]
    show Turns _ _ _ (log ++ ([.look (.both false)] ++ [.checked (terminalStatus m).isSome]))
    rw [← List.append_assoc]
    cases terminalStatus m with
    | none => exact h.rest.waits
    | some status => exact h.rest.ends

theorem setSender_self (s : State) (g : Nat) (sender : Sender) :
    (s.setSender g sender).senders g = some sender :=
  Function.update_self ..

/-- A sender that is there has its own frames. -/
theorem framesOf_some (hg : s.senders g = some sender) : s.framesOf g = sender.frames := by
  rw [State.framesOf, hg]
  rfl

/-- A step that is not the sender's leaves it alone. -/
theorem turns_other {a : Act} (h : TurnsOf g s log) (hs : step hardened s a = some t)
    (quiet : s.looks g a = []) (same : t.senders g = s.senders g) :
    TurnsOf g t (log ++ turnEvents hardened g s a) := by
  have hframes : t.framesOf g = s.framesOf g := by
    rw [State.framesOf, same, State.framesOf]
  rw [turnEvents, hs, quiet, List.nil_append, Option.elim_some, hframes, addedFrames_self,
    List.append_nil, TurnsOf, same]
  exact h

/-- A step of the sender, in its turn. -/
theorem turns_senderStep {act : SenderAct} {sender' : Sender}
    (h : Turns sender.preferStdout sender.stage.phase sender.frames log)
    (hs : senderStep s.session g sender act = some sender') :
    Turns sender'.preferStdout sender'.stage.phase sender'.frames
      (log ++ (sender.looks s.session.metadata act ++
        addedFrames sender.frames sender'.frames)) := by
  unfold senderStep at hs
  dsimp only at hs
  split at hs
  · rename_i receipt hstage
    rw [hstage] at h
    split at hs
    · cases receipt with
      | none =>
        cases hs
        exact turns_kept rfl h.skip
      | some position =>
        cases hs
        exact turns_kept rfl h
    · cases hs
      exact turns_kept rfl h.stop
  · rename_i position hstage
    rw [hstage] at h
    split at hs
    · cases hs
      exact turns_sends rfl (h.receipt position)
    · cases hs
      exact turns_kept rfl h.stop
  · rename_i hstage
    rw [hstage] at h
    cases hs
    have hlooks : sender.looks s.session.metadata .look = sender.looked s.session.metadata :=
      if_pos hstage
    rw [hlooks, addedFrames_self, List.append_nil]
    exact serve_turns h s.session.metadata
  · rename_i st stop count hstage
    rw [hstage] at h
    split at hs
    · cases hs
    · cases hs
      exact turns_kept rfl h.stop
    · cases hs
      exact turns_kept rfl h
  · rename_i st data hstage
    rw [hstage] at h
    split at hs
    · cases hs
      exact turns_sends rfl (h.data _ data)
    · cases hs
      exact turns_kept rfl h.stop
  · rename_i status hstage
    rw [hstage] at h
    split at hs
    · cases hs
      exact turns_sends rfl (h.last rfl rfl)
    · cases hs
      exact turns_kept rfl h.stop
  · rename_i hstage
    rw [hstage] at h
    cases hs
    exact turns_kept rfl h
  · cases hs
  · cases hs
    exact turns_kept rfl h.stop
  · cases hs

/-- Every step keeps the order of one sender's turns, with the events that it adds. -/
theorem turns_step {a : Act} (h : TurnsOf g s log) (hs : step hardened s a = some t) :
    TurnsOf g t (log ++ turnEvents hardened g s a) := by
  cases a with
  | session act =>
    obtain ⟨p, -, rfl⟩ := Option.map_eq_some_iff.mp hs
    exact turns_other h hs rfl rfl
  | attach g' offsets =>
    by_cases heq : g' = g
    · subst heq
      have hevents := hs
      simp only [step] at hs
      split at hs
      · rename_i fresh
        cases hs
        have hlog : log = [] := by
          rw [TurnsOf, fresh.2.1] at h
          exact h
        subst hlog
        have hold : s.framesOf g' = [] := by
          rw [State.framesOf, fresh.2.1]
          rfl
        have hnew := setSender_self s g' { opening := offsets, position := offsets }
        rw [turnEvents, hevents, Option.elim_some, hold, framesOf_some hnew, TurnsOf, hnew]
        exact turns_start true
      · cases hs
    · refine turns_other h hs rfl ?_
      simp only [step] at hs
      split at hs
      · cases hs
        exact Function.update_of_ne (Ne.symm heq) _ _
      · cases hs
  | sender g' act =>
    have hevents := hs
    simp only [step] at hs
    split at hs
    · cases hs
    rename_i sender hg
    obtain ⟨sender', hsender, rfl⟩ := Option.map_eq_some_iff.mp hs
    by_cases heq : g' = g
    · subst heq
      have hlooks : s.looks g' (.sender g' act) = sender.looks s.session.metadata act := by
        rw [State.looks, if_pos rfl, hg]
        rfl
      have hnew := setSender_self s g' sender'
      rw [TurnsOf, hg] at h
      rw [turnEvents, hevents, Option.elim_some, hlooks, framesOf_some hg, framesOf_some hnew,
        TurnsOf, hnew]
      exact turns_senderStep h hsender
    · exact turns_other h hevents (if_neg heq) (Function.update_of_ne (Ne.symm heq) _ _)

/-- **Along every run** the turns of each sender are in order. -/
theorem turns_run {as : List Act} (hinit : (machine hardened).init s)
    (hr : (machine hardened).run s as = some t) (g : Nat) :
    TurnsOf g t ((machine hardened).trace (turnEvents hardened g) s as) := by
  have start : TurnsOf g s [] := by
    rw [TurnsOf, hinit.2]
  have reached : (machine hardened).Reachable s := .init hinit
  exact reached.traced (P := TurnsOf g) (fun _ _ _ _ _ h hs => turns_step h hs) start hr

end Buffered

/-! ## The bounded loop -/

namespace Bounds

variable {limit : Nat} {s t : State} {g : Nat} {sender : Sender} {log : List TurnEvent}

/-- Which streams have undelivered bytes in a turn's snapshot. -/
def Sender.ready (sender : Sender) (p : OutputFact) : PerStream Bool :=
  ⟨decide (sender.position.stdout < p.streams.stdout.retained),
    decide (sender.position.stderr < p.streams.stderr.retained)⟩

/-- What a step of the sender looks at. -/
def Sender.looks (sender : Sender) (cancelFinished : Bool) (act : SenderAct) : List TurnEvent :=
  match sender.stage, act with
  | .choose p, .choose => [.look (sender.ready p)]
  | .ending p, .finish => [.checked (ended p cancelFinished)]
  | _, _ => []

/-- What the sender of `g` has written. -/
def State.framesOf (s : State) (g : Nat) : List Frame := ((s.senders g).map (·.frames)).getD []

def State.looks (s : State) (g : Nat) : Act → List TurnEvent
  | .sender g' act =>
    if g' = g then
      (s.senders g).elim [] fun sender => sender.looks s.operation.cancellation.finished act
    else []
  | _ => []

/-- What the sender of `g` does in a step. -/
def turnEvents (g : Nat) (s : State) (a : Act) : List TurnEvent :=
  s.looks g a ++ (step s a).elim [] fun t => addedFrames (s.framesOf g) (t.framesOf g)

def SenderStage.phase : SenderStage → TurnPhase
  | .top | .snapshot | .report _ | .receipt _ | .waiting => .fresh
  | .choose _ => .looking
  | .gate st _ | .replaying st | .replayed st _ => .picked st
  | .ending _ => .checking
  | .emitting _ | .done => .finished

/-- The sender of `g`, once it is attached, keeps to its turns. -/
def TurnsOf (g : Nat) (s : State) (log : List TurnEvent) : Prop :=
  match s.senders g with
  | none => log = []
  | some sender => Turns sender.preferStdout sender.stage.phase sender.frames log

/-- The picked stream is the one that the preference allows. -/
theorem stream_alone {p : OutputFact} {st : Stream} (h : sender.stream p = some st)
    (prefers : sender.preferStdout = (st == .stderr)) :
    ∀ st', st' ≠ st → (sender.ready p).get st' = false := by
  unfold Sender.stream at h
  dsimp only at h
  intro st' hne
  split at h
  · rename_i first
    cases h
    cases st' with
    | stdout => exact absurd rfl hne
    | stderr =>
      rw [prefers] at first
      have hsame := first.2.resolve_left (by decide)
      exact decide_eq_false (Nat.not_lt.mpr (Nat.le_of_eq hsame.symm))
  · rename_i notFirst
    split at h
    · cases h
      cases st' with
      | stdout => exact decide_eq_false fun hlt => notFirst ⟨hlt, .inl prefers⟩
      | stderr => exact absurd rfl hne
    · cases h

/-- Where no stream is picked neither has bytes, because the positions trail the snapshot. -/
theorem ready_none {p : OutputFact} (h : sender.stream p = none)
    (trails : ∀ st, sender.position.get st ≤ (p.streams.get st).retained) :
    sender.ready p = .both false := by
  have drained := stream_eq_none h trails
  refine PerStream.ext (decide_eq_false ?_) (decide_eq_false ?_)
  · exact Nat.not_lt.mpr (Nat.le_of_eq (drained .stdout))
  · exact Nat.not_lt.mpr (Nat.le_of_eq (drained .stderr))

theorem setSender_self (s : State) (g : Nat) (sender : Sender) :
    (s.setSender g sender).senders g = some sender :=
  Function.update_self ..

/-- A sender that is there has its own frames. -/
theorem framesOf_some (hg : s.senders g = some sender) : s.framesOf g = sender.frames := by
  rw [State.framesOf, hg]
  rfl

/-- A step of another task changes nothing of the sender's turns. -/
structure SameTurns (g : Nat) (s t : State) : Prop where
  fresh : s.senders g = none → t.senders g = none
  kept : ∀ sender, s.senders g = some sender → ∃ sender', t.senders g = some sender' ∧
    sender'.preferStdout = sender.preferStdout ∧ sender'.stage.phase = sender.stage.phase ∧
      sender'.frames = sender.frames

theorem turns_other {a : Act} (h : TurnsOf g s log) (hs : step s a = some t)
    (quiet : s.looks g a = []) (same : SameTurns g s t) :
    TurnsOf g t (log ++ turnEvents g s a) := by
  cases hg : s.senders g with
  | none =>
    have ht := same.fresh hg
    have hframes : t.framesOf g = s.framesOf g := by
      rw [State.framesOf, ht, State.framesOf, hg]
    rw [turnEvents, hs, quiet, List.nil_append, Option.elim_some, hframes, addedFrames_self,
      List.append_nil, TurnsOf, ht]
    rwa [TurnsOf, hg] at h
  | some sender =>
    obtain ⟨sender', ht, hprefer, hphase, hframes⟩ := same.kept sender hg
    rw [turnEvents, hs, quiet, List.nil_append, Option.elim_some, framesOf_some hg,
      framesOf_some ht, hframes, addedFrames_self, List.append_nil, TurnsOf, ht]
    dsimp only
    rw [hprefer, hphase, hframes]
    rwa [TurnsOf, hg] at h

/-- Only the choice and the look for an end are looks. -/
theorem looks_other {cancelFinished : Bool} {act : SenderAct} (choose : act ≠ .choose)
    (finish : act ≠ .finish) : sender.looks cancelFinished act = [] := by
  unfold Sender.looks
  split
  · exact absurd rfl choose
  · exact absurd rfl finish
  · rfl

/-- The choice sees which streams are ready. -/
theorem looks_choose {p : OutputFact} (stage : sender.stage = .choose p) (cancelFinished : Bool) :
    sender.looks cancelFinished .choose = [.look (sender.ready p)] := by
  unfold Sender.looks
  rw [stage]

/-- The look for an end sees whether there is one. -/
theorem looks_finish {p : OutputFact} (stage : sender.stage = .ending p) (cancelFinished : Bool) :
    sender.looks cancelFinished .finish = [.checked (ended p cancelFinished)] := by
  unfold Sender.looks
  rw [stage]

/-- A step of the sender, in its turn. -/
theorem turns_senderMoved (trails : sender.Trails s.metadata.ends) {act : SenderAct}
    (h : Turns sender.preferStdout sender.stage.phase sender.frames log)
    (hm : SenderMoved s g sender act t) : ∃ sender', t.senders g = some sender' ∧
      Turns sender'.preferStdout sender'.stage.phase sender'.frames
        (log ++ (sender.looks s.operation.cancellation.finished act ++
          addedFrames sender.frames sender'.frames)) := by
  have quiet : act ≠ .choose → act ≠ .finish →
      sender.looks s.operation.cancellation.finished act = [] := looks_other
  have behind := trails.stage
  cases hm with
  | turn stage current =>
    rw [stage] at h
    exact ⟨_, setSender_self .., turns_kept (quiet nofun nofun) h⟩
  | displaced stage superseded =>
    exact ⟨_, setSender_self .., turns_kept (quiet nofun nofun) h.stop⟩
  | snapshot stage =>
    rw [stage] at h
    exact ⟨_, setSender_self .., turns_kept (quiet nofun nofun) h⟩
  | unchanged stage same =>
    rw [stage] at h
    exact ⟨_, setSender_self .., turns_kept (quiet nofun nofun) h⟩
  | @reported p stage changed =>
    rw [stage] at h
    exact ⟨_, setSender_self .., turns_sends (quiet nofun nofun) (h.report p)⟩
  | @receipt p stage changed =>
    rw [stage] at h
    exact ⟨_, setSender_self .., turns_sends (quiet nofun nofun) (h.receipt _)⟩
  | @noReceipt p stage seen =>
    rw [stage] at h
    exact ⟨_, setSender_self .., turns_kept (quiet nofun nofun) h.skip⟩
  | @chosen p st stage stream =>
    rw [stage] at h
    have hlooks := looks_choose stage s.operation.cancellation.finished
    exact ⟨_, setSender_self .., turns_looked hlooks (h.pick (stream_alone stream))⟩
  | @drained p stage stream =>
    rw [stage] at h behind
    have hlooks := looks_choose stage s.operation.cancellation.finished
    rw [ready_none stream fun st => (behind st).1] at hlooks
    exact ⟨_, setSender_self .., turns_looked hlooks h.rest⟩
  | @replaying st stop stage free =>
    rw [stage] at h
    exact ⟨_, setSender_self .., turns_kept (quiet nofun nofun) h⟩
  | faulted stage => exact ⟨_, setSender_self .., turns_kept (quiet nofun nofun) h.stop⟩
  | @emitted st data stage current =>
    rw [stage] at h
    exact ⟨_, setSender_self .., turns_sends (quiet nofun nofun) (h.data _ data)⟩
  | silenced stage superseded =>
    exact ⟨_, setSender_self .., turns_kept (quiet nofun nofun) h.stop⟩
  | @ending p stage hended =>
    rw [stage] at h
    have hlooks := looks_finish stage s.operation.cancellation.finished
    rw [hended] at hlooks
    exact ⟨_, setSender_self .., turns_looked hlooks h.ends⟩
  | @waiting p stage running =>
    rw [stage] at h
    have hlooks := looks_finish stage s.operation.cancellation.finished
    rw [running] at hlooks
    exact ⟨_, setSender_self .., turns_looked hlooks h.waits⟩
  | @replayEnd p stage =>
    rw [stage] at h
    exact ⟨_, setSender_self .., turns_sends (quiet nofun nofun) (h.last rfl rfl)⟩
  | woken stage =>
    rw [stage] at h
    exact ⟨_, setSender_self .., turns_kept (quiet nofun nofun) h⟩
  | stopped live => exact ⟨_, setSender_self .., turns_kept (quiet nofun nofun) h.stop⟩

/-! ## The steps of the other tasks -/

/-- A step that leaves the sender alone leaves its turns. -/
theorem SameTurns.of_senders (h : t.senders g = s.senders g) : SameTurns g s t where
  fresh hg := h.trans hg
  kept sender hg := ⟨sender, h.trans hg, rfl, rfl, rfl⟩

/-- Every sender is changed in what its turns do not look at. -/
theorem SameTurns.of_map {f : Sender → Sender} (h : t.senders g = (s.senders g).map f)
    (hf : ∀ sender, s.senders g = some sender → (f sender).preferStdout = sender.preferStdout ∧
      (f sender).stage.phase = sender.stage.phase ∧ (f sender).frames = sender.frames) :
    SameTurns g s t where
  fresh hg := by rw [h, hg]; rfl
  kept sender hg := ⟨f sender, by rw [h, hg]; rfl, hf sender hg⟩

/-- A delivered replay keeps its sender in its phase. -/
theorem deliver_turns (sender : Sender) (result : Except StorageFault (List UInt8)) :
    (sender.deliver result).preferStdout = sender.preferStdout ∧
      (sender.deliver result).stage.phase = sender.stage.phase ∧
        (sender.deliver result).frames = sender.frames := by
  unfold Sender.deliver
  split
  · rename_i st hstage
    rw [hstage]
    exact ⟨rfl, rfl, rfl⟩
  · exact ⟨rfl, rfl, rfl⟩

/-- One sender's step leaves the others alone. -/
theorem senderMoved_others {g' : Nat} (hne : g ≠ g') {act : SenderAct}
    (hm : SenderMoved s g' sender act t) : t.senders g = s.senders g := by
  cases hm <;> exact Function.update_of_ne hne _ _

/-- A replay worker changes no sender's turns, not even by its answer. -/
theorem replayMoved_turns {r : Replay} {act : ReplayAct} (hm : ReplayMoved s r act t) :
    SameTurns g s t := by
  obtain ⟨-, ⟨_, -, hsenders, -⟩ | ⟨result, -, -, hsenders⟩⟩ := replay_view hm
  · exact .of_senders (congrFun hsenders g)
  · by_cases heq : g = r.generation
    · subst heq
      refine .of_map (f := (·.deliver result)) ?_ fun sender _ => deliver_turns sender result
      rw [hsenders, Function.update_self]
    · refine .of_senders ?_
      rw [hsenders, Function.update_of_ne heq]

/-- Every step keeps the order of one sender's turns, with the events that it adds. -/
theorem turns_step (htrails : Trails s) {a : Act} (h : TurnsOf g s log)
    (hs : step s a = some t) : TurnsOf g t (log ++ turnEvents g s a) := by
  cases step_moved hs with
  | collector hm => exact turns_other h hs rfl (.of_senders (congrFun (collector_view hm).senders g))
  | writer worker live hm =>
    exact turns_other h hs rfl (.of_senders (congrFun (writer_view hm).senders g))
  | replay gate hm => exact turns_other h hs rfl (replayMoved_turns hm)
  | @waited result first =>
    cases result with
    | error error => exact turns_other h hs rfl (.of_senders rfl)
    | ok status =>
      exact turns_other h hs rfl (.of_map (f := fun sender => { sender with missedExit := true }) rfl
        fun _ _ => ⟨rfl, rfl, rfl⟩)
  | operationStep read hm =>
    refine turns_other h hs rfl ?_
    obtain ⟨operation, _, rfl⟩ := Option.map_eq_some_iff.mp hm
    dsimp only
    split
    · exact .of_map (f := fun sender => { sender with missedAbsence := true }) rfl
        fun _ _ => ⟨rfl, rfl, rfl⟩
    · exact .of_senders rfl
  | @attached g' offsets stdin current fresh behind =>
    by_cases heq : g = g'
    · subst heq
      rw [TurnsOf, fresh] at h
      have hold : s.framesOf g = [] := by
        rw [State.framesOf, fresh]
        rfl
      have hnew : (s.attach g offsets stdin).senders g = _ := setSender_self ..
      rw [h, turnEvents, hs, Option.elim_some, hold, framesOf_some hnew, TurnsOf, hnew]
      exact turns_start true
    · exact turns_other h hs rfl (.of_senders (Function.update_of_ne heq _ _))
  | @published g' position sender attached =>
    by_cases heq : g = g'
    · subst heq
      refine turns_other h hs rfl (.of_map (f := fun sender =>
        { sender with acknowledgements := sender.acknowledgements.publish position }) ?_
        fun _ _ => ⟨rfl, rfl, rfl⟩)
      rw [setSender_self, attached]
      rfl
    · exact turns_other h hs rfl (.of_senders (Function.update_of_ne heq _ _))
  | @sender g' sender act _ attached hm =>
    by_cases heq : g' = g
    · subst heq
      rw [TurnsOf, attached] at h
      obtain ⟨sender', hnew, hturns⟩ :=
        turns_senderMoved (htrails.senders _ _ attached) h hm
      have hlooks : s.looks g' (.sender g' act) =
          sender.looks s.operation.cancellation.finished act := by
        rw [State.looks, if_pos rfl, attached]
        rfl
      rw [turnEvents, hs, Option.elim_some, hlooks, framesOf_some attached, framesOf_some hnew,
        TurnsOf, hnew]
      exact hturns
    · exact turns_other h hs (if_neg heq) (.of_senders (senderMoved_others (Ne.symm heq) hm))
  | _ => exact turns_other h hs rfl (.of_senders rfl)

/-- **Along every run** the turns of each sender are in order. -/
theorem turns_run {as : List Act} (hlimit : limit ≤ u64Max) (hinit : (machine limit).init s)
    (hr : (machine limit).run s as = some t) (g : Nat) :
    TurnsOf g t ((machine limit).trace (turnEvents g) s as) := by
  have start : TurnsOf g s [] := by
    obtain ⟨operation, setupFailed, pipes, -, -, rfl⟩ := hinit
    rfl
  have reached : (machine limit).Reachable s := .init hinit
  exact reached.traced (P := TurnsOf g)
    (fun _ _ _ _ hreach h hs => turns_step (reachable_trails hlimit hreach) h hs) start hr

end Bounds

/-! ## No starvation -/

/-- A fair sender that finds both streams ready serves the other one than before. -/
theorem TurnEvent.Fair.alternates {log past rest : List TurnEvent} (h : Fair log) {st : Stream}
    {offset : Nat} {data : List UInt8}
    (heq : log = past ++ .look (.both true) :: .frame (.outputData st offset data) :: rest) :
    lastData past ≠ some st := by
  intro hlast
  rw [List.append_cons] at heq
  have howed := (h _ _ _ heq).2 st (by rw [TurnEvent.stream, Frame.output_outputData]; rfl)
  rw [lastData_snoc] at howed
  obtain ⟨before, ready, hlog, hother⟩ := howed hlast
  obtain ⟨-, hlook⟩ := List.append_inj' hlog rfl
  cases hlook
  cases st with
  | stdout => exact absurd (hother .stderr (by decide)) (by decide)
  | stderr => exact absurd (hother .stdout (by decide)) (by decide)

/-- **Receipts and streams cannot starve each other**, in any run of either loop, for any sender.
`Fair`: a second receipt with no data or end frame since the first comes only if the first one's
turn saw neither stream with undelivered bytes and the end condition did not hold; a second
consecutive data frame of a stream comes only if its turn's snapshot held no undelivered bytes of
the other one. So with both streams ready the data frames alternate. The events' frames are the
frames that the sender wrote. -/
theorem receipts_streams_fair (hardened : Bool) {limit : Nat} (hlimit : limit ≤ u64Max) (g : Nat) :
    (∀ s as t, (Buffered.machine hardened).init s →
      (Buffered.machine hardened).run s as = some t →
      let log := (Buffered.machine hardened).trace (Buffered.turnEvents hardened g) s as
      TurnEvent.frames log = t.framesOf g ∧ Fair log ∧
        ∀ past st offset data rest,
          log = past ++ .look (.both true) :: .frame (.outputData st offset data) :: rest →
            lastData past ≠ some st) ∧
    ∀ s as t, (Bounds.machine limit).init s → (Bounds.machine limit).run s as = some t →
      let log := (Bounds.machine limit).trace (Bounds.turnEvents g) s as
      TurnEvent.frames log = t.framesOf g ∧ Fair log ∧
        ∀ past st offset data rest,
          log = past ++ .look (.both true) :: .frame (.outputData st offset data) :: rest →
            lastData past ≠ some st := by
  refine ⟨fun s as t hinit hr => ?_, fun s as t hinit hr => ?_⟩
  · have hturns := Buffered.turns_run hinit hr g
    unfold Buffered.TurnsOf at hturns
    split at hturns
    · rename_i hnone
      dsimp only
      rw [hturns, Buffered.State.framesOf, hnone]
      exact ⟨rfl, Log.justified_nil, fun _ _ _ _ _ => TurnEvent.Fair.alternates Log.justified_nil⟩
    · rename_i sender hsome
      exact ⟨hturns.sent.trans (Buffered.framesOf_some hsome).symm, hturns.fair,
        fun _ _ _ _ _ => hturns.fair.alternates⟩
  · have hturns := Bounds.turns_run hlimit hinit hr g
    unfold Bounds.TurnsOf at hturns
    split at hturns
    · rename_i hnone
      dsimp only
      rw [hturns, Bounds.State.framesOf, hnone]
      exact ⟨rfl, Log.justified_nil, fun _ _ _ _ _ => TurnEvent.Fair.alternates Log.justified_nil⟩
    · rename_i sender hsome
      exact ⟨hturns.sent.trans (Bounds.framesOf_some hsome).symm, hturns.fair,
        fun _ _ _ _ _ => hturns.fair.alternates⟩

/-- In either loop: a receipt before each of two turns, and both streams ready at the first. -/
theorem receipts_streams_fair_both :
    (∃ (t : Buffered.State) (log : List TurnEvent),
      t.framesOf 1 = [.stdinPosition 5, .stdoutData 0 [1], .stdinPosition 6, .stderrData 0 [2]] ∧
        TurnEvent.frames log = t.framesOf 1 ∧ Fair log) ∧
    ∃ (t : Bounds.State) (log : List TurnEvent) (p : OutputFact),
      t.framesOf 1 = [.outputState p, .stdinPosition 5, .outputData .stdout 0 [1],
          .stdinPosition 6, .outputData .stderr 0 [2]] ∧
        TurnEvent.frames log = t.framesOf 1 ∧ Fair log := by
  refine ⟨?_, ?_⟩
  · let drain (st : Stream) (act : Session.DrainAct) : Buffered.Act := .session (.drain st act)
    let labels : List Buffered.Act := [.session (.install false),
      drain .stdout (.read [1]), drain .stdout .count, drain .stdout (.write 1),
      drain .stdout .flush, drain .stdout .publish, drain .stderr (.read [2]), drain .stderr .count,
      drain .stderr (.write 1), drain .stderr .flush, drain .stderr .publish, .attach 1 (.both 0),
      .sender 1 (.turn (some 5)), .sender 1 .receipt, .sender 1 .look, .sender 1 (.read 1),
      .sender 1 .emit, .sender 1 (.turn (some 6)), .sender 1 .receipt, .sender 1 .look,
      .sender 1 (.read 1), .sender 1 .emit]
    have hinit : (Buffered.machine false).init { session := {} } :=
      ⟨⟨.both .reading, none, fun st => .inl (PerStream.get_both _ st), rfl⟩, rfl⟩
    have hfair := (receipts_streams_fair false (by decide : 4 ≤ u64Max) 1).1 _ labels _ hinit rfl
    exact ⟨_, _, rfl, hfair.1, hfair.2.1⟩
  · let write (st : Stream) (byte : UInt8) : List Bounds.Act := [.collector .enable,
      .collector .snapshot, .collector (.look 0), .collector (.read st (.bytes [byte])),
      .collector .observe, .collector .admitRead, .collector .spawn, .writer st (.write 1),
      .writer st .record, .writer st .notify, .writer st (.flush true), .writer st .settle,
      .writer st .unpin, .writer st .notify, .collector .enable, .collector .snapshot,
      .collector (.look 1), .collector (.joined st)]
    let turn (position : Nat) : List Bounds.Act := [.publish 1 position, .sender 1 .turn,
      .sender 1 .snapshot, .sender 1 .report, .sender 1 .receipt, .sender 1 .choose,
      .sender 1 .replay, .replay (.read 1), .replay .unpin, .replay .finish, .sender 1 .emit]
    let labels := [.install false, .collector .setup, .collector .setup] ++ write .stdout 1 ++
      write .stderr 2 ++ [.attach 1 (.both 0) 0] ++ turn 5 ++ turn 6
    have hinit : (Bounds.machine 4).init
        (Bounds.initial 4 { cancellation := .verifyAcquired (.ok ()) (.ok true) } false
          (.both true)) :=
      ⟨_, false, _, ⟨.ok (), .ok true, rfl⟩, fun _ => rfl, rfl⟩
    have hfair := (receipts_streams_fair false (by decide : 4 ≤ u64Max) 1).2 _ labels _ hinit rfl
    exact ⟨_, _, _, rfl, hfair.1, hfair.2.1⟩

end Pipekeep
