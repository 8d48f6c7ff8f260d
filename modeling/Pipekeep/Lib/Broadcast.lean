import Mathlib.Data.List.Basic

/-!
# One receiver of a bounded broadcast channel

A broadcast channel keeps its last `capacity` messages. A receiver reads them in order; one that
falls behind finds its oldest unread messages gone, is told so once, and goes on with the oldest
that is left. As one receiver sees it, the channel is a FIFO queue of at most `capacity` messages
that evicts its oldest to make room. `evicted` remembers what was lost that way.

`Ordered before` is what sending messages in an order gives a receiver: its queue is in that order,
and what was evicted is before what is left.
-/

namespace Broadcast

variable {α : Type*}

structure Receiver (α : Type*) where
  queue : List α := []
  lagged : Bool := false
  evicted : List α := []
  deriving DecidableEq, Repr

/-- What a receive finds. -/
inductive Recv (α : Type*)
  | empty
  | lagged
  | message (a : α)
  deriving DecidableEq, Repr

namespace Receiver

/-- The channel is sent a message. -/
def push (capacity : Nat) (r : Receiver α) (a : α) : Receiver α :=
  if r.queue.length < capacity then
    { r with queue := r.queue ++ [a] }
  else
    { queue := (r.queue ++ [a]).tail
      lagged := true
      evicted := r.evicted ++ (r.queue ++ [a]).head?.toList }

/-- `try_recv`: a receiver that lagged is told so first. -/
def tryRecv (r : Receiver α) : Recv α × Receiver α :=
  if r.lagged then (.lagged, { r with lagged := false })
  else
    match r.queue with
    | [] => (.empty, r)
    | a :: queue => (.message a, { r with queue := queue })

/-- What the receiver may still read or has lost. -/
def messages (r : Receiver α) : List α := r.evicted ++ r.queue

/-- A push loses nothing but what it evicts. -/
theorem messages_push (capacity : Nat) (r : Receiver α) (a : α) :
    (r.push capacity a).messages = r.messages ++ [a] := by
  unfold push messages
  split
  · exact (List.append_assoc _ _ _).symm
  · cases hq : r.queue with
    | nil =>
      simp only [List.nil_append, List.tail_cons, List.head?_cons, Option.toList_some,
        List.append_nil]
    | cons b bs =>
      simp only [List.cons_append, List.tail_cons, List.head?_cons, Option.toList_some,
        List.append_assoc, List.nil_append]

theorem evicted_push (capacity : Nat) (r : Receiver α) (a : α) :
    ∀ x ∈ r.evicted, x ∈ (r.push capacity a).evicted := by
  intro x hx
  unfold push
  split
  · exact hx
  · exact List.mem_append_left _ hx

/-- A receive takes the oldest message of the queue or leaves the messages alone. -/
theorem tryRecv_cases (r : Receiver α) :
    (∃ a, r.tryRecv.1 = .message a ∧ r.queue = a :: r.tryRecv.2.queue ∧
      r.tryRecv.2.evicted = r.evicted) ∨
    ((∀ a, r.tryRecv.1 ≠ .message a) ∧ r.tryRecv.2.queue = r.queue ∧
      r.tryRecv.2.evicted = r.evicted) := by
  unfold tryRecv
  split
  · exact .inr ⟨fun _ => nofun, rfl, rfl⟩
  · split
    · rename_i hq
      exact .inr ⟨fun _ => nofun, rfl, rfl⟩
    · rename_i a queue hq
      exact .inl ⟨a, rfl, hq, rfl⟩

/-- The newest message of a queue is the one that was sent last. -/
theorem getLast?_push {capacity : Nat} (h : 0 < capacity) (r : Receiver α) (a : α) :
    (r.push capacity a).queue.getLast? = some a := by
  unfold push
  split
  · exact List.getLast?_concat
  · cases hq : r.queue with
    | nil =>
      rename_i hfull
      rw [hq] at hfull
      exact absurd h hfull
    | cons b bs => exact List.getLast?_concat

theorem push_queue_ne_nil {capacity : Nat} (h : 0 < capacity) (r : Receiver α) (a : α) :
    (r.push capacity a).queue ≠ [] := by
  intro hnil
  have hlast := getLast?_push h r a
  rw [hnil] at hlast
  cases hlast

/-- A receiver that has lagged behind finds something once it has been told so. -/
def Fed (r : Receiver α) : Prop := r.lagged = true → r.queue ≠ []

theorem Fed.push {capacity : Nat} (h : 0 < capacity) (r : Receiver α) (a : α) :
    (r.push capacity a).Fed :=
  fun _ => push_queue_ne_nil h r a

/-- A receive has told of the lag. -/
theorem tryRecv_lagged (r : Receiver α) : r.tryRecv.2.lagged = false := by
  unfold tryRecv
  split
  · rfl
  · rename_i hcalm
    split <;> exact Bool.eq_false_iff.mpr hcalm

theorem fed_tryRecv (r : Receiver α) : r.tryRecv.2.Fed := by
  intro hlagged
  rw [tryRecv_lagged] at hlagged
  cases hlagged

/-- A receive that finds no message has found the queue empty, or was told of a lag. -/
theorem Fed.missed {r : Receiver α} (h : r.Fed) (miss : ∀ a, r.tryRecv.1 ≠ .message a) :
    r.lagged = false ↔ r.tryRecv.2.queue = [] := by
  have hqueue : r.tryRecv.2.queue = r.queue := by
    rcases r.tryRecv_cases with ⟨a, ha, _⟩ | ⟨_, hq, _⟩
    · exact absurd ha (miss a)
    · exact hq
  rw [hqueue]
  cases hlagged : r.lagged with
  | true => exact ⟨nofun, fun hnil => absurd hnil (h hlagged)⟩
  | false =>
    refine ⟨fun _ => ?_, fun _ => rfl⟩
    cases hq : r.queue with
    | nil => rfl
    | cons a queue =>
      refine absurd ?_ (miss a)
      unfold Receiver.tryRecv
      rw [hlagged, hq]
      rfl

end Receiver

end Broadcast
