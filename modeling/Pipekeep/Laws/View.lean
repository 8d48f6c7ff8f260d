import Pipekeep.Laws.Cancellation
import Pipekeep.Laws.Steps

/-!
# What the senders see of the other tasks

A step of the collector, of a write worker or of the replay changes nothing of the wait and of the
operation but that it may start it, and moves the published ends only by recording a write
(`SameView`). The collector and the workers leave the senders and the replay alone; the replay
hands its result to one sender.
-/

namespace Pipekeep.Bounds

variable {limit : Nat} {s t : State}

/-- The snapshot a sender's turn works from. -/
def Sender.snapshot (sender : Sender) : Option OutputFact :=
  match sender.stage with
  | .report p | .receipt p | .choose p | .ending p | .emitting p => some p
  | _ => none

/-- A step of a task that at most starts the operation. -/
structure SameView (s t : State) : Prop where
  status : t.metadata.status = s.metadata.status
  waited : t.waited = s.waited
  loop : t.loop = s.loop
  ends : t.ends = s.ends
  operation : t.operation = s.operation ∨
    ∃ now grace settlement, t.operation = s.operation.start now grace settlement
  stops : t.metadata.ends = s.metadata.ends ∨ ∃ st count p,
    s.policy.recordWrite st count = some p ∧
      t.metadata.ends = s.metadata.ends.set st (p.streams.get st).retained

/-- A start, or joining one, leaves the group's absence and the result as they are. -/
theorem start_view (o : Operation) (now grace settlement : Nat) :
    (o.start now grace settlement).cancellation.groupAbsent = o.cancellation.groupAbsent ∧
      (o.start now grace settlement).cancellation.result = o.cancellation.result := by
  rcases Operation.start_cases o now grace settlement with ⟨_, he⟩ | ⟨_, he⟩ <;> rw [he] <;>
    exact ⟨rfl, rfl⟩

/-- Starting the operation, or joining it, settles nothing. -/
theorem SameView.settlement (h : SameView s t) :
    t.operation.cancellation.groupAbsent = s.operation.cancellation.groupAbsent ∧
      t.operation.cancellation.result = s.operation.cancellation.result := by
  rcases h.operation with he | ⟨now, grace, settlement, he⟩ <;> rw [he]
  · exact ⟨rfl, rfl⟩
  · exact start_view _ _ _ _

/-- What the operation has become is reachable, too. -/
theorem SameView.reachable (h : SameView s t) (hs : Operation.machine.Reachable s.operation) :
    Operation.machine.Reachable t.operation := by
  rcases h.operation with he | ⟨now, grace, settlement, he⟩ <;> rw [he]
  · exact hs
  · exact .step (a := .start now grace settlement) hs trivial rfl

/-- A step of the collector or of a write worker. -/
structure Aside (s t : State) : Prop extends SameView s t where
  senders : t.senders = s.senders
  replay : t.replay = s.replay

/-- The calls to stop or to report a fault are aside. -/
theorem call_view (s : State) (c : Call) (clock : Clock) : Aside s (s.call c clock).1 := by
  cases c with
  | start => exact ⟨⟨rfl, rfl, rfl, rfl, .inr ⟨_, _, _, rfl⟩, .inl rfl⟩, rfl, rfl⟩
  | _ => exact ⟨⟨rfl, rfl, rfl, rfl, .inl rfl, .inl rfl⟩, rfl, rfl⟩

/-- A step that changes nothing shows the same. -/
theorem SameView.refl (s : State) : SameView s s :=
  ⟨rfl, rfl, rfl, rfl, .inl rfl, .inl rfl⟩

/-- A step that changes nothing is aside. -/
theorem Aside.refl (s : State) : Aside s s := ⟨.refl s, rfl, rfl⟩

/-- What a task changes of the rest is not looked at. -/
theorem SameView.same {u : State} (h : SameView s t) (metadata : u.metadata = t.metadata)
    (waited : u.waited = t.waited) (loop : u.loop = t.loop) (ends : u.ends = t.ends)
    (operation : u.operation = t.operation) : SameView s u where
  status := by rw [metadata, h.status]
  waited := waited.trans h.waited
  loop := loop.trans h.loop
  ends := ends.trans h.ends
  operation := by
    rw [operation]
    exact h.operation
  stops := by
    rw [metadata]
    exact h.stops

/-- A step that is aside may be followed by changes of what the view does not see. -/
theorem Aside.same {u : State} (h : Aside s t) (metadata : u.metadata = t.metadata)
    (waited : u.waited = t.waited) (loop : u.loop = t.loop) (ends : u.ends = t.ends)
    (operation : u.operation = t.operation) (senders : u.senders = t.senders)
    (replay : u.replay = t.replay) : Aside s u :=
  ⟨h.toSameView.same metadata waited loop ends operation, senders.trans h.senders,
    replay.trans h.replay⟩

/-- The account of a read is aside. -/
theorem observe_view (s : State) (st : Stream) (result : ReadResult) (tail : Bool) :
    Aside s (s.observe st result tail) := by
  unfold State.observe
  split
  · exact ⟨⟨rfl, rfl, rfl, rfl, .inl rfl, .inl rfl⟩, rfl, rfl⟩
  · split <;> exact (Aside.refl s).same rfl rfl rfl rfl rfl rfl rfl
  · exact (Aside.refl s).same rfl rfl rfl rfl rfl rfl rfl

/-- The collector's steps are aside. -/
theorem collector_view {act : CollectorAct} (h : CollectorMoved s act t) : Aside s t := by
  cases h with
  | called _ => exact (call_view s _ _).same rfl rfl rfl rfl rfl rfl rfl
  | looked _ h => cases h <;> exact (Aside.refl s).same rfl rfl rfl rfl rfl rfl rfl
  | observed _ => exact observe_view s _ _ _
  | _ => exact (Aside.refl s).same rfl rfl rfl rfl rfl rfl rfl

/-- Of a worker's steps only the recording of a write moves a published end. -/
theorem writer_view {st : Stream} {w : Writer} {act : WriterAct} (h : WriterMoved s st w act t) :
    Aside s t := by
  cases h with
  | called _ => exact (call_view s _ _).same rfl rfl rfl rfl rfl rfl rfl
  | recorded _ accepted =>
    exact ⟨⟨rfl, rfl, rfl, rfl, .inl rfl, .inr ⟨st, _, _, accepted, rfl⟩⟩, rfl, rfl⟩
  | _ => exact (Aside.refl s).same rfl rfl rfl rfl rfl rfl rfl

/-- What a replay has read. -/
def ReplayStage.data : ReplayStage → Option (List UInt8)
  | .unpinning (.ok data) | .finishing (.ok data) => some data
  | _ => none

/-- A step of the replay moves it on, with at most as many bytes as it was sent for, or hands its
result to its sender. -/
theorem replay_view {r : Replay} {act : ReplayAct} (h : ReplayMoved s r act t) :
    SameView s t ∧ ((∃ stage, t.replay = some { r with stage := stage } ∧ t.senders = s.senders ∧
      ∀ data, stage.data = some data → r.stage.data = some data ∨
        data.length ≤ min (r.stop - r.offset) chunkSize) ∨
      ∃ result, r.stage = .finishing result ∧ t.replay = none ∧ t.senders =
        Function.update s.senders r.generation
          ((s.senders r.generation).map (·.deliver result))) := by
  cases h with
  | openFailed _ =>
    exact ⟨(SameView.refl s).same rfl rfl rfl rfl rfl,
      .inl ⟨_, rfl, rfl, fun _ hd => by cases hd⟩⟩
  | readFailed _ _ =>
    exact ⟨(SameView.refl s).same rfl rfl rfl rfl rfl,
      .inl ⟨_, rfl, rfl, fun _ hd => by cases hd⟩⟩
  | read _ _ answer =>
    refine ⟨(SameView.refl s).same rfl rfl rfl rfl rfl, .inl ⟨_, rfl, rfl, fun data' hd => .inr ?_⟩⟩
    cases hd
    unfold Buffered.readAt at answer
    split at answer
    · rename_i hcount
      cases answer
      exact Nat.le_trans (List.length_take_le _ _) hcount.1
    · cases answer
  | @called call fault clock _ =>
    have hcall := call_view s call clock
    refine ⟨hcall.toSameView.same rfl rfl rfl rfl rfl,
      .inl ⟨_, rfl, hcall.senders, fun data hd => ?_⟩⟩
    cases hrest : (s.call call clock).2 <;> rw [hrest] at hd <;> cases hd
  | @unpinned result _ stage _ =>
    refine ⟨(SameView.refl s).same rfl rfl rfl rfl rfl, .inl ⟨_, rfl, rfl, fun data hd => .inl ?_⟩⟩
    cases result with
    | error fault => cases hd
    | ok bytes =>
      rw [stage]
      exact hd
  | finished stage =>
    exact ⟨(SameView.refl s).same rfl rfl rfl rfl rfl, .inr ⟨_, stage, rfl, rfl⟩⟩

end Pipekeep.Bounds
