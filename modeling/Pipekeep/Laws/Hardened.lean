import Pipekeep.Hardened
import Pipekeep.Laws.Cancellation
import Pipekeep.Lib.Latch
import Pipekeep.Lib.Parties

/-!
# Cancel requests agree, and when an opted-in session is disposable

`Agreed` ties the requests to the one operation: who started it, what its result says of the leader,
what each request has returned of it, and that a waiting request is not left behind by the turn that
publishes it. `Kept` is what README promises of a session that nobody has cancelled; it fails for
the sessions whose handle was not acquired or not verified, whose result is there from the launch.
-/

namespace Pipekeep.Hardened

open Bounds (Clock Loop)

variable {s t : State} {i : Nat} {r : Request}

/-! ## Starts -/

theorem start_cases (s : State) (clock : Clock) (starter : Option Nat) :
    (s.operation.cancellation.phase ≠ .ready ∧ s.start clock starter = s) ∨
    (s.operation.cancellation.phase = .ready ∧ s.start clock starter =
      { s with
        operation := s.operation.start clock.now clock.grace clock.settlement
        starts := s.starts ++ [starter] }) := by
  by_cases hp : s.operation.cancellation.phase = .ready
  · refine .inr ⟨hp, ?_⟩
    simp only [State.start, Cancellation.start, hp, ne_eq, not_true_eq_false, if_false, if_true]
  · refine .inl ⟨hp, ?_⟩
    have hsame := (Operation.start_cases s.operation clock.now clock.grace
      clock.settlement).resolve_right fun h => hp h.1
    simp only [State.start, Cancellation.start, hp, ne_eq, not_false_eq_true, if_true, hsame.2,
      Bool.false_eq_true, if_false]

/-- A start keeps the result: there is none before the first one. -/
theorem start_result (s : State) (clock : Clock) (starter : Option Nat) :
    (s.start clock starter).operation.cancellation.result = s.operation.cancellation.result := by
  rcases start_cases s clock starter with ⟨-, heq⟩ | ⟨hp, heq⟩
  · rw [heq]
  · rw [heq]
    rcases Operation.start_cases s.operation clock.now clock.grace clock.settlement with h | h
    · rw [h.2]
    · rw [h.2]

/-! ## Steps -/

/-- What a step does. -/
inductive Moved (s : State) : Act → State → Prop
  | waited {result : Except String ExitResult} (unwaited : s.waited = false) :
      Moved s (.wait result) (s.wait result)
  | closed (st : Stream) : Moved s (.close st) (s.close st)
  | failed (error : String) : Moved s (.failure error)
      { s with metadata := { s.metadata with failure := some error } }
  | policy (p : OutputFact) : Moved s (.policy p) { s with output := some p }
  | accepted : Moved s .accept { s with activeAttachments := s.activeAttachments + 1 }
  | released : Moved s .release { s with activeAttachments := s.activeAttachments - 1 }
  | notified : Moved s .notify s.notify
  | stopped (clock : Clock) : Moved s (.stop clock) (s.start clock none)
  | readMeta (task : s.operation.task.isSome = true) (idle : s.loop = .read)
      (unfinished : s.operation.cancellation.finished = false) :
      Moved s .operationRead { s with loop := .step s.metadata }
  | turned {m : Meta} {now : Nat} {kernel : Kernel} {operation : Operation}
      (stage : s.loop = .step m) (turn : s.operation.turn now m kernel = some operation) :
      Moved s (.operationStep now kernel) { s with operation := operation, loop := .notify }
  | published (stage : s.loop = .notify) : Moved s .operationNotify { s.notify with loop := .read }
  | asked {i : Nat} (new : s.requests i = none) (clock : Clock) :
      Moved s (.request i clock) (s.request i clock)
  | enabled {i : Nat} {r : Request} (asking : s.requests i = some r) (stage : r.stage = .enabling) :
      Moved s (.enable i) (s.setRequest i { r with stage := .checking, notified := false })
  | checked {i : Nat} {r : Request} (asking : s.requests i = some r) (stage : r.stage = .checking) :
      Moved s (.check i) (s.check i r)
  | woken {i : Nat} {r : Request} (asking : s.requests i = some r) (stage : r.stage = .waiting) :
      Moved s (.wake i) (s.setRequest i { r with stage := .enabling })
  | dropped {i : Nat} {r : Request} (asking : s.requests i = some r) (pending : r.stage ≠ .done) :
      Moved s (.drop i) (s.setRequest i { r with stage := .done })

/-- Every step of the session is one of the moves. -/
theorem step_moved {act : Act} (h : step s act = some t) : Moved s act t := by
  cases act with
  | wait result =>
    rw [step] at h
    split at h
    · cases h
    · rename_i hwaited
      cases h
      exact .waited (Bool.eq_false_iff.mpr hwaited)
  | close st =>
    cases h
    exact .closed st
  | failure error =>
    cases h
    exact .failed error
  | policy p =>
    obtain ⟨_, -, rfl⟩ := Option.map_eq_some_iff.mp h
    exact .policy p
  | accept =>
    cases h
    exact .accepted
  | release =>
    rw [step] at h
    split at h
    · cases h
    · cases h
      exact .released
  | notify =>
    cases h
    exact .notified
  | stop clock =>
    obtain ⟨_, -, rfl⟩ := Option.map_eq_some_iff.mp h
    exact .stopped clock
  | operationRead =>
    rw [step] at h
    split at h
    · rename_i hready
      cases h
      exact .readMeta hready.1 hready.2.1 hready.2.2
    · cases h
  | operationStep now kernel =>
    rw [step] at h
    split at h
    · rename_i m hm
      obtain ⟨operation, hturn, rfl⟩ := Option.map_eq_some_iff.mp h
      exact .turned hm hturn
    · cases h
  | operationNotify =>
    rw [step] at h
    split at h
    · rename_i hstage
      cases h
      exact .published hstage
    · cases h
  | request i clock =>
    rw [step] at h
    split at h
    · rename_i hnew
      cases h
      exact .asked hnew clock
    · cases h
  | enable i =>
    obtain ⟨r, hr, h⟩ := Option.bind_eq_some_iff.mp h
    split at h
    · rename_i hstage
      cases h
      exact .enabled hr hstage
    · cases h
  | check i =>
    obtain ⟨r, hr, h⟩ := Option.bind_eq_some_iff.mp h
    split at h
    · rename_i hstage
      cases h
      exact .checked hr hstage
    · cases h
  | wake i =>
    obtain ⟨r, hr, h⟩ := Option.bind_eq_some_iff.mp h
    split at h
    · rename_i hstage
      cases h
      exact .woken hr hstage.1
    · cases h
  | drop i =>
    obtain ⟨r, hr, h⟩ := Option.bind_eq_some_iff.mp h
    split at h
    · cases h
    · rename_i hpending
      cases h
      exact .dropped hr hpending

/-! ## The invariant -/

/-- **How the requests stand to the operation.** -/
structure Agreed (s : State) : Prop where
  reachable : Operation.machine.Reachable s.operation
  task : s.operation.task = none ↔ s.starts = []
  single : s.starts.length ≤ 1
  first : ∀ i r, s.requests i = some r → r.first = true → s.starts = [some i]
  unwaited : s.waited = false → s.metadata.status = none
  read : ∀ m, s.loop = .step m → Latched m.status s.metadata.status
  exit : ∀ outcome exit, s.operation.cancellation.result = some (.ok (outcome, exit)) →
    s.metadata.status = some exit
  replied : ∀ reply ∈ s.replies, ∃ r result, s.requests reply.request = some r ∧ r.stage = .done ∧
    s.operation.cancellation.result = some result ∧ reply.result = r.answer result
  once : (s.replies.map Reply.request).Nodup
  awake : ∀ i r, s.requests i = some r → r.stage = .waiting → r.notified = false →
    s.operation.cancellation.result.isSome = true → s.loop = .notify

/-- The operation inside an agreeing session keeps its own invariant. -/
theorem Agreed.inv (h : Agreed s) : Operation.Inv s.operation :=
  Operation.reachable_inv h.reachable

/-- The first start is the only one. -/
theorem Agreed.unstarted (h : Agreed s) (ready : s.operation.cancellation.phase = .ready) :
    s.starts = [] :=
  h.task.mp (h.inv.not_started ready).1

/-- The other tasks touch neither the operation nor the requests, and keep a recorded status. -/
theorem Agreed.aside (h : Agreed s) (operation : t.operation = s.operation)
    (loop : t.loop = s.loop) (requests : t.requests = s.requests) (starts : t.starts = s.starts)
    (replies : t.replies = s.replies) (status : Latched s.metadata.status t.metadata.status)
    (unwaited : t.waited = false → t.metadata.status = none) : Agreed t where
  reachable := operation ▸ h.reachable
  task := by
    rw [operation, starts]
    exact h.task
  single := starts ▸ h.single
  first := by
    rw [requests, starts]
    exact h.first
  unwaited := unwaited
  read := by
    intro m hm
    exact (h.read m (loop ▸ hm)).trans status
  exit := by
    intro outcome exit hresult
    rw [operation] at hresult
    exact status exit (h.exit outcome exit hresult)
  replied := by
    rw [replies, requests, operation]
    exact h.replied
  once := replies ▸ h.once
  awake := by
    rw [requests, operation, loop]
    exact h.awake

/-- A start records who asked for it, and only the first takes effect. -/
theorem Agreed.start (h : Agreed s) (clock : Clock) (starter : Option Nat) :
    Agreed (s.start clock starter) := by
  have hresult := start_result s clock starter
  rcases start_cases s clock starter with ⟨-, heq⟩ | ⟨hp, heq⟩
  · rw [heq]
    exact h
  · have hempty := h.unstarted hp
    rw [heq] at hresult ⊢
    have hresult : (s.operation.start clock.now clock.grace clock.settlement).cancellation.result =
      s.operation.cancellation.result := hresult
    have hcases := Operation.start_cases s.operation clock.now clock.grace clock.settlement
    have hstarted := (hcases.resolve_left fun hno => hno.1 hp).2
    refine { h with
      reachable := .step h.reachable trivial
        (show Operation.machine.step s.operation (.start _ _ _) = some _ from rfl)
      task := ?_
      single := ?_
      first := ?_
      exit := ?_
      replied := ?_
      awake := ?_ }
    · dsimp only
      rw [hstarted, hempty]
      constructor
      · intro hno
        cases hno
      · intro hno
        cases hno
    · dsimp only
      rw [hempty]
      exact Nat.le_refl 1
    · intro i r hr hfirst
      have hno := h.first i r hr hfirst
      rw [hempty] at hno
      cases hno
    · dsimp only
      rw [hresult]
      exact h.exit
    · dsimp only
      rw [hresult]
      exact h.replied
    · dsimp only
      rw [hresult]
      exact h.awake

/-- A request that has not returned moves on, or arrives. -/
theorem Agreed.setRequest (h : Agreed s) (pending : ∀ r, s.requests i = some r → r.stage ≠ .done)
    (first : r.first = true → s.starts = [some i])
    (awake : r.stage = .waiting → r.notified = false →
      s.operation.cancellation.result.isSome = true → s.loop = .notify) :
    Agreed (s.setRequest i r) := by
  refine { h with
    first := ?_
    replied := ?_
    awake := ?_ }
  · apply Parties.forall_update_some
    · exact first
    · intro j q _ hq
      exact h.first j q hq
  · intro reply hreply
    obtain ⟨q, result, hq, hdone, hrest⟩ := h.replied reply hreply
    have hother : reply.request ≠ i := by
      intro heq
      rw [heq] at hq
      exact pending q hq hdone
    refine ⟨q, result, ?_, hdone, hrest⟩
    show Function.update s.requests i (some r) reply.request = some q
    rw [Function.update_of_ne hother]
    exact hq
  · apply Parties.forall_update_some
    · exact awake
    · intro j q _ hq
      exact h.awake j q hq

/-- A request arrives, and its own call starts the operation if nobody has. -/
theorem Agreed.request (h : Agreed s) (new : s.requests i = none) (clock : Clock) :
    Agreed (s.request i clock) := by
  have hrequests : (s.start clock (some i)).requests i = none := new
  refine (h.start clock (some i)).setRequest ?_ ?_ ?_
  · intro q hq
    rw [hrequests] at hq
    cases hq
  · intro hfirst
    rcases start_cases s clock (some i) with ⟨hp, -⟩ | ⟨hp, heq⟩
    · have hno : (s.operation.cancellation.start clock.now clock.grace clock.settlement).1 = false := by
        rw [Cancellation.start, if_pos hp]
      exact absurd (hno.symm.trans hfirst) Bool.false_ne_true
    · rw [heq]
      show s.starts ++ [some i] = [some i]
      rw [h.unstarted hp]
      rfl
  · intro hstage
    cases hstage

/-- A request finds the result and returns it, or there is none and it waits. -/
theorem Agreed.check (h : Agreed s) (hr : s.requests i = some r) (checking : r.stage = .checking) :
    Agreed (s.check i r) := by
  have pending : ∀ q, s.requests i = some q → q.stage ≠ .done := by
    intro q hq hdone
    rw [hr] at hq
    cases hq
    rw [checking] at hdone
    cases hdone
  unfold State.check
  split
  · rename_i result hresult
    have hset := h.setRequest (r := { r with stage := .done }) pending (h.first i r hr)
      fun hstage => (by cases hstage)
    refine { hset with
      replied := ?_
      once := ?_ }
    · intro reply hreply
      rcases List.mem_append.mp hreply with hold | hnew
      · exact hset.replied reply hold
      · rw [List.mem_singleton.mp hnew]
        exact ⟨{ r with stage := .done }, result, Function.update_self .., rfl, hresult, rfl⟩
    · dsimp only
      rw [List.map_append, List.nodup_append]
      refine ⟨h.once, List.pairwise_singleton _ _, ?_⟩
      intro j hj k hk heq
      obtain ⟨reply, hreply, rfl⟩ := List.mem_map.mp hj
      obtain ⟨q, -, hq, hdone, -⟩ := h.replied reply hreply
      have hk : k = i := List.mem_singleton.mp hk
      rw [heq, hk] at hq
      exact pending q hq hdone
  · rename_i hresult
    refine h.setRequest pending (h.first i r hr) ?_
    intro _ _ hsome
    rw [hresult] at hsome
    cases hsome

/-- A notification does not change which request was the first. -/
theorem Request.notify_first (r : Request) : r.notify.first = r.first := by
  unfold Request.notify
  split <;> rfl

/-- Who waits is notified; who has returned is left alone. -/
theorem Request.notify_cases (r : Request) :
    r.notify.stage = r.stage ∧ (r.stage = .done → r.notify = r) ∧
      (r.stage = .waiting → r.notify.notified = true) := by
  obtain ⟨first, stage, notified⟩ := r
  cases stage with
  | enabling => exact ⟨rfl, nofun, nofun⟩
  | checking => exact ⟨rfl, nofun, nofun⟩
  | waiting => exact ⟨rfl, nofun, fun _ => rfl⟩
  | done => exact ⟨rfl, fun _ => rfl, nofun⟩

/-- Waking the waiters changes neither the operation nor the replies. -/
theorem Agreed.notify (h : Agreed s) : Agreed s.notify := by
  have mapped : ∀ {j q}, s.notify.requests j = some q →
      ∃ r, s.requests j = some r ∧ q = r.notify := by
    intro j q hq
    obtain ⟨r, hr, heq⟩ := Option.map_eq_some_iff.mp hq
    exact ⟨r, hr, heq.symm⟩
  refine { h with
    first := ?_
    replied := ?_
    awake := ?_ }
  · intro j q hq hfirst
    obtain ⟨r, hr, rfl⟩ := mapped hq
    rw [r.notify_first] at hfirst
    exact h.first j r hr hfirst
  · intro reply hreply
    obtain ⟨r, result, hr, hdone, hresult, hanswer⟩ := h.replied reply hreply
    refine ⟨r, result, ?_, hdone, hresult, hanswer⟩
    show (s.requests reply.request).map Request.notify = some r
    rw [hr, Option.map_some, (r.notify_cases).2.1 hdone]
  · intro j q hq hwaiting hmissed
    obtain ⟨r, -, rfl⟩ := mapped hq
    obtain ⟨hstage, -, hnotified⟩ := r.notify_cases
    rw [hstage] at hwaiting
    rw [hnotified hwaiting] at hmissed
    cases hmissed

/-- After a notification nobody waits without it. -/
theorem notify_awake {j : Nat} {q : Request} (hq : s.notify.requests j = some q)
    (waiting : q.stage = .waiting) : q.notified = true := by
  obtain ⟨r, -, rfl⟩ := Option.map_eq_some_iff.mp hq
  obtain ⟨hstage, -, hnotified⟩ := r.notify_cases
  exact hnotified (hstage.symm.trans waiting)

/-- A turn of the operation settles on the status that it has read, once, and its notification is
still to come. -/
theorem Agreed.turn (h : Agreed s) {m : Meta} (hm : s.loop = .step m) {now : Nat} {kernel : Kernel}
    {operation : Operation} (turn : s.operation.turn now m kernel = some operation) :
    Agreed { s with operation := operation, loop := .notify } := by
  have hsafe := Operation.safeStep_turn h.inv turn
  obtain ⟨first, c, calls, htask, -, rfl⟩ := Operation.turn_inv turn
  refine { h with
    reachable := .step h.reachable trivial
      (show Operation.machine.step s.operation (.turn now m kernel) = some _ from turn)
    task := ?_
    read := nofun
    exit := ?_
    replied := ?_
    awake := fun _ _ _ _ _ _ => rfl }
  · refine ⟨nofun, fun hempty => ?_⟩
    have hnone := h.task.mpr hempty
    rw [htask] at hnone
    cases hnone
  · intro outcome exit hresult
    cases hold : s.operation.cancellation.result with
    | none =>
      obtain ⟨_, _, _, hact, -, hstatus⟩ := hsafe.settles hold outcome exit hresult
      cases hact
      exact h.read m hm exit hstatus
    | some result =>
      have hsame := hsafe.result result hold
      have hsame : result = .ok (outcome, exit) := Option.some.inj (hsame.symm.trans hresult)
      exact h.exit outcome exit (hold.trans (congrArg some hsame))
  · intro reply hreply
    obtain ⟨r, result, hr, hdone, hresult, hanswer⟩ := h.replied reply hreply
    exact ⟨r, result, hr, hdone, hsafe.result result hresult, hanswer⟩

/-- Every step keeps the agreement. -/
theorem agreed_step (h : Agreed s) {act : Act} (hs : Moved s act t) : Agreed t := by
  have moves : ∀ {i r} {stage} {notified}, s.requests i = some r → r.stage ≠ .done →
      stage ≠ .waiting →
      Agreed (s.setRequest i { r with stage := stage, notified := notified }) := by
    intro i r stage notified hr hdone hwaiting
    refine h.setRequest (fun q hq => ?_) (h.first i r hr) fun hstage => absurd hstage hwaiting
    rw [hr] at hq
    cases hq
    exact hdone
  cases hs with
  | @waited result unwaited =>
    have hnone := h.unwaited unwaited
    cases result with
    | ok status => exact h.aside rfl rfl rfl rfl rfl (latched_none hnone _) nofun
    | error error => exact h.aside rfl rfl rfl rfl rfl (Latched.refl _) nofun
  | notified => exact h.notify
  | stopped clock => exact h.start clock none
  | readMeta task idle unfinished =>
    refine { h with
      read := ?_
      awake := ?_ }
    · intro m hm
      cases hm
      exact Latched.refl _
    · intro j q _ _ _ hsome
      exact absurd (unfinished.symm.trans hsome) Bool.false_ne_true
  | turned hm turn => exact h.turn hm turn
  | published =>
    refine { h.notify with
      read := nofun
      awake := ?_ }
    intro j q hq hwaiting hmissed
    exact absurd (hmissed.symm.trans (notify_awake hq hwaiting)) Bool.false_ne_true
  | asked new clock => exact h.request new clock
  | enabled hr stage => exact moves hr (by rw [stage]; exact nofun) nofun
  | checked hr stage => exact h.check hr stage
  | woken hr stage => exact moves hr (by rw [stage]; exact nofun) nofun
  | dropped hr pending => exact moves hr pending nofun
  | _ => exact h.aside rfl rfl rfl rfl rfl (Latched.refl _) h.unwaited

/-- A result that is there before the operation has started is an error. -/
theorem idle_result {o : Operation} (hi : Operation.Inv o) (idle : o.task = none)
    {outcome : CancelOutcome} {exit : ExitResult} :
    o.cancellation.result ≠ some (.ok (outcome, exit)) := by
  intro hresult
  rcases (hi.idle idle).1 with hp | hp
  · rw [hi.pending (by rw [hp]; exact nofun) (by rw [hp]; exact nofun)] at hresult
    cases hresult
  · obtain ⟨e, he⟩ := hi.failed hp
    cases he.symm.trans hresult

/-- Operation, requests and replies agree in every reachable state. -/
theorem agreed_reachable {handle : Except String Unit} {probe : Except String Bool}
    (h : (machine handle probe).Reachable s) : Agreed s := by
  refine h.invariant (P := Agreed) (fun s hinit => ?_)
    fun _ _ _ _ hs _ hstep => agreed_step hs (step_moved hstep)
  obtain ⟨limit, setupFailure, rfl⟩ := hinit
  have hreach : Operation.machine.Reachable { cancellation := .verifyAcquired handle probe } :=
    .init ⟨handle, probe, rfl⟩
  refine ⟨hreach, ⟨fun _ => rfl, fun _ => rfl⟩, Nat.zero_le 1, nofun, fun _ => rfl, nofun, ?_, nofun,
    List.nodup_nil, nofun⟩
  intro outcome exit hresult
  exact absurd hresult (idle_result (Operation.reachable_inv hreach) rfl)

/-! ## Replies -/

def Reply.won (reply : Reply) : Bool :=
  match reply.result with
  | .ok (.cancelWon, _) => true
  | _ => false

/-- A reply that reports the win is the starter's, and repeats the result. -/
theorem answer_won {reply : Reply} {result : Completion} (h : reply.result = r.answer result)
    (won : reply.won = true) : r.first = true ∧ ∃ exit, result = .ok (.cancelWon, exit) := by
  unfold Reply.won at won
  rw [h] at won
  cases result with
  | error e => cases won
  | ok p =>
    obtain ⟨outcome, exit⟩ := p
    cases hfirst : r.first with
    | false =>
      simp only [Request.answer, Except.map, hfirst, Bool.false_eq_true, if_false] at won
    | true =>
      cases outcome with
      | cancelWon => exact ⟨rfl, exit, rfl⟩
      | alreadyExited =>
        simp only [Request.answer, Except.map, hfirst, if_true, Bool.false_eq_true] at won

/-- A successful answer carries the exit of a successful operation. -/
theorem answer_ok {result : Completion} {outcome : CancelOutcome} {exit : ExitResult}
    (h : r.answer result = .ok (outcome, exit)) : ∃ outcome', result = .ok (outcome', exit) := by
  cases result with
  | error e => cases h
  | ok p =>
    obtain ⟨outcome', exit'⟩ := p
    cases h
    exact ⟨outcome', rfl⟩

/-- An error is answered to every request as it is. -/
theorem answer_error {result : Completion} {e : String} (h : r.answer result = .error e) :
    result = .error e := by
  cases result with
  | error e' =>
    cases h
    rfl
  | ok p => cases h

/-- Only the request that started the operation reports the win, and a signal was sent. -/
theorem Agreed.won (h : Agreed s) {reply : Reply} (hreply : reply ∈ s.replies)
    (won : reply.won = true) :
    s.starts = [some reply.request] ∧ ∃ call ∈ s.operation.calls, call.won = true := by
  obtain ⟨r, result, hr, -, hresult, hanswer⟩ := h.replied reply hreply
  obtain ⟨hfirst, exit, rfl⟩ := answer_won hanswer won
  refine ⟨h.first _ r hr hfirst, ?_⟩
  have hsettled := (Operation.safe_of_reachable h.reachable).settled .cancelWon exit hresult
  obtain ⟨call, hcall, hsent⟩ := hsettled.2.mp rfl
  exact ⟨call, hcall, Operation.won_iff.mpr hsent⟩

/-- At most one reply reports the win. -/
theorem Agreed.wins (h : Agreed s) : s.replies.countP Reply.won ≤ 1 := by
  rw [List.countP_eq_length_filter]
  have hnodup : ((s.replies.filter Reply.won).map Reply.request).Nodup :=
    (List.filter_sublist.map Reply.request).nodup h.once
  cases hwinners : s.replies.filter Reply.won with
  | nil => exact Nat.zero_le 1
  | cons first rest =>
    -- All winners are the one starter.
    have starter : ∀ reply ∈ s.replies.filter Reply.won, s.starts = [some reply.request] :=
      fun reply hreply => (h.won (List.mem_filter.mp hreply).1 (List.mem_filter.mp hreply).2).1
    cases rest with
    | nil => exact Nat.le_refl 1
    | cons second rest =>
      rw [hwinners] at starter hnodup
      have hfirst := starter first List.mem_cons_self
      have hsecond := starter second (List.mem_cons_of_mem _ List.mem_cons_self)
      have hsame : first.request = second.request :=
        Option.some.inj (List.cons.inj (hfirst.symm.trans hsecond)).1
      have hno := (List.pairwise_cons.mp hnodup).1 second.request List.mem_cons_self
      exact absurd hsame hno

/-! ## Wakeups -/

/-- A notified request returns the result in its next round. -/
theorem returns_notified (handle : Except String Unit) (probe : Except String Bool)
    (hr : s.requests i = some r) (waiting : r.stage = .waiting) (notified : r.notified = true)
    (published : s.operation.cancellation.result.isSome = true) :
    ∃ t, (machine handle probe).run s [.wake i, .enable i, .check i] = some t ∧
      ∃ reply ∈ t.replies, reply.request = i := by
  obtain ⟨result, hresult⟩ := Option.isSome_iff_exists.mp published
  let woken := s.setRequest i { r with stage := .enabling }
  let enabled := woken.setRequest i { r with stage := .checking, notified := false }
  have hwake : step s (.wake i) = some woken := by
    rw [step, hr, Option.bind_some, if_pos ⟨waiting, notified⟩]
  have hwoken : woken.requests i = some { r with stage := .enabling } := Function.update_self ..
  have henable : step woken (.enable i) = some enabled := by
    rw [step, hwoken, Option.bind_some]
    exact if_pos rfl
  have henabled : enabled.requests i = some { r with stage := .checking, notified := false } :=
    Function.update_self ..
  have hcheck : step enabled (.check i) =
      some (enabled.check i { r with stage := .checking, notified := false }) := by
    rw [step, henabled, Option.bind_some]
    exact if_pos rfl
  refine ⟨enabled.check i { r with stage := .checking, notified := false }, ?_,
    ⟨i, r.answer result⟩, ?_, rfl⟩
  · show ((step s (.wake i)).bind fun t => (step t (.enable i)).bind fun t =>
      (step t (.check i)).bind some) = _
    rw [hwake, Option.bind_some, henable, Option.bind_some, hcheck, Option.bind_some]
  · have hfound : enabled.operation.cancellation.result = some result := hresult
    rw [State.check, hfound]
    exact List.mem_append_right _ (List.mem_singleton_self _)

/-- **No wakeup is missed**: once there is a result, who waits for it has been notified of it or
will be by the turn that published it, and can then return it. -/
theorem Agreed.returns (h : Agreed s) (handle : Except String Unit) (probe : Except String Bool)
    (hr : s.requests i = some r) (waiting : r.stage = .waiting)
    (published : s.operation.cancellation.result.isSome = true) :
    ∃ acts t, (acts = [.wake i, .enable i, .check i] ∨
        acts = [.operationNotify, .wake i, .enable i, .check i]) ∧
      (machine handle probe).run s acts = some t ∧ ∃ reply ∈ t.replies, reply.request = i := by
  cases hnotified : r.notified with
  | true =>
    obtain ⟨t, hrun, hreply⟩ := returns_notified handle probe hr waiting hnotified published
    exact ⟨_, t, .inl rfl, hrun, hreply⟩
  | false =>
    have hloop := h.awake i r hr waiting hnotified published
    have hq : s.notify.requests i = some r.notify := by
      show (s.requests i).map Request.notify = _
      rw [hr, Option.map_some]
    have hstage := r.notify_cases.1.trans waiting
    obtain ⟨t, hrun, hreply⟩ := returns_notified (s := { s.notify with loop := .read })
      handle probe hq hstage (notify_awake hq hstage) published
    refine ⟨_, t, .inr rfl, ?_, hreply⟩
    have hstep : (machine handle probe).step s .operationNotify =
        some { s.notify with loop := .read } := by
      show step s .operationNotify = _
      rw [step, hloop]
    rw [Machine.run_cons, hstep]
    exact hrun

/-- **Cancel requests agree.** In every reachable state of an opted-in session, whoever has asked,
gone or stopped it: one start, at most one reply of a win, which is the starter's and over a signal
that was sent, one exit in all successful replies, which is the leader's recorded status, and one
error in all if it is in any. And no request waits for a result that is there. -/
theorem replies_agree {handle : Except String Unit} {probe : Except String Bool}
    (hr : (machine handle probe).Reachable s) :
    s.starts.length ≤ 1 ∧
    s.replies.countP Reply.won ≤ 1 ∧
    (∀ reply ∈ s.replies, reply.won = true →
      s.starts = [some reply.request] ∧ ∃ call ∈ s.operation.calls, call.won = true) ∧
    (∀ reply ∈ s.replies, ∀ outcome exit, reply.result = .ok (outcome, exit) →
      s.metadata.status = some exit) ∧
    (∀ reply ∈ s.replies, ∀ reply' ∈ s.replies, ∀ e, reply.result = .error e →
      reply'.result = .error e) ∧
    ∀ i r, s.requests i = some r → r.stage = .waiting →
      s.operation.cancellation.result.isSome = true →
      ∃ acts t, (acts = [.wake i, .enable i, .check i] ∨
          acts = [.operationNotify, .wake i, .enable i, .check i]) ∧
        (machine handle probe).run s acts = some t ∧ ∃ reply ∈ t.replies, reply.request = i := by
  have h := agreed_reachable hr
  refine ⟨h.single, h.wins, fun reply hreply won => h.won hreply won, ?_, ?_, ?_⟩
  · intro reply hreply outcome exit hok
    obtain ⟨r, result, -, -, hresult, hanswer⟩ := h.replied reply hreply
    obtain ⟨outcome', rfl⟩ := answer_ok (hanswer.symm.trans hok)
    exact h.exit outcome' exit hresult
  · intro reply hreply reply' hreply' e herror
    obtain ⟨r, result, -, -, hresult, hanswer⟩ := h.replied reply hreply
    obtain ⟨r', result', -, -, hresult', hanswer'⟩ := h.replied reply' hreply'
    cases answer_error (hanswer.symm.trans herror)
    cases hresult.symm.trans hresult'
    exact hanswer'
  · intro i r hrequest waiting published
    exact h.returns handle probe hrequest waiting published

/-- Two requests on one session: the first starts the operation and wins, the second joins it. -/
theorem replies_agree_joined : ∃ s : State, s.starts = [some 0] ∧
    s.replies.map (fun reply => (reply.request, reply.won)) = [(1, false), (0, true)] ∧
      s.metadata.status = some ⟨none, some 15⟩ ∧ s.replies.countP Reply.won ≤ 1 := by
  let asking : List Act := [.accept, .request 0 ⟨0, 3, 30⟩, .enable 0, .check 0, .accept,
    .request 1 ⟨1, 3, 30⟩, .enable 1, .check 1]
  let working : List Act := [.operationRead, .operationStep 1 fun _ => .ok true, .operationNotify,
    .wait (.ok ⟨none, some 15⟩), .close .stdout, .close .stderr, .notify, .operationRead,
    .operationStep 2 fun _ => .ok false]
  let returning : List Act := [.wake 1, .enable 1, .check 1, .operationNotify, .wake 0, .enable 0,
    .check 0]
  have start : (machine (.ok ()) (.ok true)).Reachable (initial (.ok ()) (.ok true) none none) :=
    .init ⟨none, none, rfl⟩
  have reached := Machine.Reachable.run start (asking ++ working ++ returning) rfl
  obtain ⟨-, hwins, -⟩ := replies_agree reached
  exact ⟨_, rfl, rfl, rfl, hwins⟩

/-! ## Idle expiry -/

/-- A session may expire by its recorded ends or by its settled cancellation. -/
theorem eligible_iff : s.hardenedLifetimeState.2 = true ↔
    s.terminal = true ∨ s.operation.cancellation.finished = true := by
  show (s.terminal || s.operation.cancellation.finished) = true ↔ _
  exact Bool.or_eq_true_iff

/-- What README says of a session that nobody has cancelled: it can expire once the leader's status
and both ends are recorded. -/
structure Kept (s : State) : Prop where
  eligible : s.hardenedLifetimeState.2 = true → s.metadata.terminal = true
  expired : ∀ idleSince now ttl, (hardenedExpired idleSince now ttl s.hardenedLifetimeState.1
    s.hardenedLifetimeState.2).2 = true → s.metadata.terminal = true

/-- Only a session that may expire ever does. -/
theorem expired_eligible {idleSince : Option Nat} {now ttl : Nat} {busy eligible : Bool}
    (h : (hardenedExpired idleSince now ttl busy eligible).2 = true) : eligible = true := by
  unfold hardenedExpired at h
  cases eligible with
  | true => rfl
  | false =>
    rw [Bool.not_false, Bool.or_true, if_pos rfl] at h
    cases h

/-- The half about expiry follows from the half about eligibility. -/
theorem kept_iff : Kept s ↔ (s.hardenedLifetimeState.2 = true → s.metadata.terminal = true) :=
  ⟨Kept.eligible, fun h => ⟨h, fun _ _ _ hexpired => h (expired_eligible hexpired)⟩⟩

/-- The flag was announced from the metadata, and an operation that nobody has started is as it was
after the launch. -/
structure Idle (launched : Cancellation) (s : State) : Prop where
  announced : s.terminal = true → s.metadata.terminal = true
  untouched : s.starts = [] → s.operation = { cancellation := launched }

/-- Announcing the terminal state reads it from the metadata. -/
theorem Idle.announce {launched : Cancellation} (h : Idle launched s)
    (terminal : t.terminal = s.terminal) (operation : t.operation = s.operation)
    (starts : t.starts = s.starts)
    (more : s.metadata.terminal = true → t.metadata.terminal = true) :
    Idle launched t.announce := by
  refine ⟨fun hterminal => ?_, fun hempty => ?_⟩
  · rcases Bool.or_eq_true_iff.mp hterminal with hold | hnew
    · rw [terminal] at hold
      exact more (h.announced hold)
    · exact hnew
  · have hempty : t.starts = [] := hempty
    rw [starts] at hempty
    exact operation.trans (h.untouched hempty)

/-- An operation that was started counts as touched. -/
theorem Idle.start {launched : Cancellation} (h : Idle launched s) (clock : Clock)
    (starter : Option Nat) : Idle launched (s.start clock starter) := by
  rcases start_cases s clock starter with ⟨-, heq⟩ | ⟨-, heq⟩
  · rw [heq]
    exact h
  · rw [heq]
    refine ⟨h.announced, fun hempty => ?_⟩
    cases (List.append_eq_nil_iff.mp hempty).2

/-- A closed stream stays closed. -/
theorem terminal_close {m : Meta} (st : Stream) (h : m.terminal = true) :
    Meta.terminal { m with closed := m.closed.set st true } = true := by
  unfold Meta.terminal at h ⊢
  simp only [Bool.and_eq_true] at h ⊢
  obtain ⟨⟨hstatus, hout⟩, herr⟩ := h
  cases st with
  | stdout => exact ⟨⟨hstatus, rfl⟩, herr⟩
  | stderr => exact ⟨⟨hstatus, hout⟩, rfl⟩

/-- Every step keeps the flag announced, and touches no operation that nobody has started. -/
theorem idle_step {launched : Cancellation}
    (task : s.operation.task = none ↔ s.starts = []) (h : Idle launched s) {act : Act}
    (hs : Moved s act t) : Idle launched t := by
  cases hs with
  | @waited result unwaited =>
    cases result with
    | ok status =>
      refine h.announce rfl rfl rfl fun hterminal => ?_
      unfold Meta.terminal at hterminal ⊢
      simp only [Bool.and_eq_true] at hterminal ⊢
      exact ⟨⟨rfl, hterminal.1.2⟩, hterminal.2⟩
    | error error => exact h.announce rfl rfl rfl fun hterminal => hterminal
  | closed st => exact h.announce rfl rfl rfl fun hterminal => terminal_close st hterminal
  | stopped clock => exact h.start clock none
  | @asked i new clock =>
    have hstarted := h.start clock (some i)
    exact ⟨hstarted.announced, hstarted.untouched⟩
  | turned stage turn =>
    obtain ⟨first, _, _, htask, -⟩ := Operation.turn_inv turn
    refine ⟨h.announced, fun hempty => ?_⟩
    cases htask.symm.trans (task.mpr hempty)
  | @checked i r hr stage =>
    unfold State.check
    split
    · exact ⟨h.announced, h.untouched⟩
    · exact ⟨h.announced, h.untouched⟩
  | _ => exact ⟨h.announced, h.untouched⟩

/-- Until somebody starts it, the operation of a reachable session is as the launch left it. -/
theorem idle_reachable {handle : Except String Unit} {probe : Except String Bool}
    (h : (machine handle probe).Reachable s) : Idle (.verifyAcquired handle probe) s := by
  refine h.invariant (P := Idle (.verifyAcquired handle probe)) (fun s hinit => ?_)
    fun s act t hreach hs _ hstep => ?_
  · obtain ⟨limit, setupFailure, rfl⟩ := hinit
    exact ⟨nofun, fun _ => rfl⟩
  · exact idle_step (agreed_reachable hreach).task hs (step_moved hstep)

/-- A launch leaves a result behind exactly when it has not acquired or not verified the handle. -/
theorem launched_finished (handle : Except String Unit) (probe : Except String Bool) :
    (Cancellation.verifyAcquired handle probe).finished = false ↔
      handle = .ok () ∧ ∃ present, probe = .ok present := by
  cases handle with
  | error e => exact ⟨nofun, fun h => nomatch h.1⟩
  | ok u =>
    cases probe with
    | error e => exact ⟨nofun, fun h => nomatch h.2⟩
    | ok present => exact ⟨fun _ => ⟨rfl, present, rfl⟩, fun _ => rfl⟩

/-- **An opted-in session that nobody has cancelled is kept exactly if its handle was acquired and
verified.** Otherwise it has a result from its launch on, and is eligible at once. -/
theorem kept_verified (handle : Except String Unit) (probe : Except String Bool) :
    (∀ s, (machine handle probe).Reachable s → s.starts = [] → Kept s) ↔
      handle = .ok () ∧ ∃ present, probe = .ok present := by
  rw [← launched_finished]
  constructor
  · intro h
    have hkept := h _ (.init ⟨none, none, rfl⟩) rfl
    by_contra hfinished
    have hresult := Bool.of_not_eq_false hfinished
    cases hkept.eligible (eligible_iff.mpr (.inr hresult))
  · intro hfinished s hr hempty
    have hidle := idle_reachable hr
    refine kept_iff.mpr fun heligible => ?_
    rcases eligible_iff.mp heligible with hterminal | hresult
    · exact hidle.announced hterminal
    · rw [hidle.untouched hempty] at hresult
      exact absurd (hfinished.symm.trans hresult) Bool.false_ne_true

/-- The handle was not acquired: the session ends after an idle minute, and nothing is known of the
leader. -/
theorem unverified_expires : ∃ s : State,
    (machine (.error "EMFILE") (.ok true)).Reachable s ∧ s.starts = [] ∧ s.metadata.status = none ∧
      s.metadata.closed = .both false ∧ ¬Kept s ∧
      (hardenedExpired (some 0) 60 60 s.hardenedLifetimeState.1 s.hardenedLifetimeState.2).2 =
        true := by
  refine ⟨_, .init ⟨none, none, rfl⟩, rfl, rfl, rfl, fun hkept => ?_, rfl⟩
  cases hkept.eligible rfl

end Pipekeep.Hardened
