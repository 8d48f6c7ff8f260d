import Pipekeep.Changed
import Pipekeep.Laws.Buffered
import Pipekeep.Laws.LiveExits
import Pipekeep.Laws.Receipts

/-!
# No sender sleeps through its output

The metadata moves in sections after which their task notifies (`session_still`), and a sender falls
asleep at a look that has found nothing to do, by a registration that is older than the look
(`buffered_sleeps`, `live_sleeps`). The rule of the library does the rest.
-/

namespace Pipekeep.Changed

open Buffered (terminalStatus serve)
open Receipts (Side)

variable {nobuffer hardened : Bool}

/-! ## What the senders look at -/

section Session

variable {s t : Session} {st : Stream}

/-- A section of a drain that owes no notification leaves the metadata alone. -/
theorem drain_still {act : Session.DrainAct} {chunk : Option OutputChunk}
    (h : s.drainStep nobuffer hardened st act = some (t, chunk))
    (still : drainChanges s st act = false) : t.metadata = s.metadata := by
  unfold Session.drainStep at h
  split at h
  · split at h <;> cases h
    rfl
  · cases still
  · cases still
  · rename_i data hread
    simp only [drainChanges, hread] at still
    split at h
    · rename_i e hover
      rw [hover] at still
      cases still
    · split at h <;> cases h <;> rfl
  · split at h <;> cases h
    rfl
  · cases h
    rfl
  · cases h
    rfl
  · cases still
  · cases h
    rfl
  · cases h

/-- A section that owes no notification leaves the metadata alone. -/
theorem session_still {act : Session.Act} {sent : Option (Stream × OutputChunk)}
    (h : s.step nobuffer hardened act = some (t, sent))
    (still : ∀ task, sessionRole s act ≠ .task task true) : t.metadata = s.metadata := by
  cases act with
  | install force =>
    simp only [Session.step] at h
    split at h <;> cases h <;> rfl
  | clear g =>
    cases h
    rfl
  | wait result => exact absurd rfl (still .wait)
  | drain st act =>
    obtain ⟨⟨t, chunk⟩, hdrain, heq⟩ := Option.map_eq_some_iff.mp h
    cases heq
    refine drain_still hdrain ?_
    cases hchanges : drainChanges s st act with
    | false => rfl
    | true =>
      cases act with
      | send => cases hchanges
      | _ => exact absurd (congrArg (Role.task (Task.drain st)) hchanges) (still _)

end Session

/-! ## Falling asleep -/

/-- A turn waits exactly if its look finds nothing to send. -/
theorem senderStep_waiting {session : Session} {g : Nat} {old new : Buffered.Sender}
    {act : Buffered.SenderAct} (h : Buffered.senderStep session g old act = some new)
    (waiting : new.stage = .waiting) :
    act = .look ∧ serve new session.metadata.ends (terminalStatus session.metadata) = .waiting := by
  unfold Buffered.senderStep at h
  dsimp only at h
  split at h
  · split at h
    · split at h <;> cases h <;> cases waiting
    · cases h
      cases waiting
  · split at h <;> cases h <;> cases waiting
  · cases h
    exact ⟨rfl, waiting⟩
  · split at h <;> cases h <;> cases waiting
  · split at h <;> cases h <;> cases waiting
  · split at h <;> cases h <;> cases waiting
  · cases h
    cases waiting
  · cases h
  · cases h
    cases waiting
  · cases h

/-- A buffered sender that waits waited before, or has just looked and found nothing to send. -/
theorem buffered_falls {s t : Buffered.State} {act : Buffered.Act} {g : Nat}
    {sender : Buffered.Sender} (h : Buffered.step hardened s act = some t)
    (present : t.senders g = some sender) (waiting : sender.stage = .waiting) :
    (act = .sender g .look → serve sender t.session.metadata.ends
      (terminalStatus t.session.metadata) = .waiting) ∧
    (act ≠ .sender g .look → s.senders g = some sender ∧ ∀ act', act ≠ .sender g act') := by
  cases act with
  | session act =>
    have hother : ∀ act', Buffered.Act.session act ≠ .sender g act' := by
      intro act' heq
      cases heq
    obtain ⟨p, hp, rfl⟩ := Option.map_eq_some_iff.mp h
    exact ⟨fun heq => absurd heq (hother _), fun _ => ⟨present, hother⟩⟩
  | attach g' offsets =>
    have hother : ∀ act', Buffered.Act.attach g' offsets ≠ .sender g act' := by
      intro act' heq
      cases heq
    simp only [Buffered.step] at h
    split at h <;> cases h
    refine ⟨fun heq => absurd heq (hother _), fun _ => ?_⟩
    by_cases hg : g = g'
    · subst hg
      cases (Function.update_self ..).symm.trans present
      cases waiting
    · exact ⟨(Function.update_of_ne hg ..).symm.trans present, hother⟩
  | sender g' act =>
    simp only [Buffered.step] at h
    split at h
    · cases h
    rename_i old hold
    obtain ⟨new, hnew, rfl⟩ := Option.map_eq_some_iff.mp h
    by_cases hg : g = g'
    · subst hg
      cases (Function.update_self ..).symm.trans present
      obtain ⟨rfl, hserve⟩ := senderStep_waiting hnew waiting
      exact ⟨fun _ => hserve, fun hne => absurd rfl hne⟩
    · have hother : ∀ act', Buffered.Act.sender g' act ≠ .sender g act' := by
        intro act' heq
        cases heq
        exact hg rfl
      refine ⟨fun heq => absurd heq (hother _), fun _ => ?_⟩
      exact ⟨(Function.update_of_ne hg ..).symm.trans present, hother⟩

section Output

variable {O A : Type} {S : Side O A} {s t : Receipts.State O}

/-- A step of a broker without finite output is a step of its output side, or leaves it alone. -/
theorem output_cases (unpublished : ∀ output g position, S.publish output g position = output)
    {a : Receipts.Act A} (h : S.broker.step s a = some t) :
    (∃ act, a = .output act ∧ S.machine.step s.output act = some t.output) ∨
      (∀ act, a ≠ .output act) ∧ t.output = s.output := by
  cases a with
  | output act =>
    obtain ⟨joined, hstepped⟩ := Side.output_eq_some h
    exact .inl ⟨act, rfl, hstepped.output⟩
  | acquire op => exact .inr ⟨nofun, (Side.input_eq_some h).2⟩
  | critical poll =>
    refine .inr ⟨nofun, (Side.input_eq_some h).2.trans ?_⟩
    cases Receipts.publication s.stdin with
    | none => rfl
    | some p => exact unpublished _ _ _
  | release => exact .inr ⟨nofun, (Side.input_eq_some h).2⟩

/-- The output side of a reached broker is reached on its own. -/
theorem reachable_output (unpublished : ∀ output g position, S.publish output g position = output)
    (h : S.broker.Reachable s) : S.machine.Reachable s.output := by
  refine Machine.Reach.project (M := S.broker) Receipts.State.output (fun s hs => hs.2) ?_ h
  intro s a t _ _ hstep
  rcases output_cases unpublished hstep with ⟨act, -, hact⟩ | ⟨-, heq⟩
  · exact .inr ⟨act, hact⟩
  · exact .inl heq

end Output

/-! ## The buffered senders -/

section Buffered

variable {s t : Receipts.State Buffered.State} {g : Nat}

/-- A step of the broker is one of the output side, or leaves it alone. -/
theorem buffered_cases {a : Receipts.Act Buffered.Act}
    (h : (buffered hardened).machine.step s a = some t) :
    (∃ act, a = .output act ∧ Buffered.step hardened s.output act = some t.output) ∨
      (∀ act, a ≠ .output act) ∧ t.output = s.output :=
  output_cases (fun _ _ _ => rfl) h

/-- A sender sleeps exactly in its waiting stage. -/
theorem buffered_asleep : (buffered hardened).asleep s g = true ↔
    ∃ sender, s.output.senders g = some sender ∧ sender.stage = .waiting := by
  simp [buffered, Option.any_eq_true]

/-- The metadata stays unless a task owes a notification for it. -/
theorem buffered_still {a : Receipts.Act Buffered.Act}
    (h : (buffered hardened).machine.step s a = some t)
    (still : ∀ task, (buffered hardened).role s a ≠ .task task true) :
    t.output.session.metadata = s.output.session.metadata := by
  rcases buffered_cases h with ⟨act, rfl, hstep⟩ | ⟨-, heq⟩
  · cases act with
    | session act =>
      obtain ⟨p, hp, ht⟩ := Option.map_eq_some_iff.mp hstep
      rw [← ht]
      exact session_still hp still
    | attach g offsets =>
      simp only [Buffered.step] at hstep
      split at hstep
      · rw [← Option.some.inj hstep]
        rfl
      · cases hstep
    | sender g act =>
      simp only [Buffered.step] at hstep
      split at hstep
      · cases hstep
      · obtain ⟨sender, -, ht⟩ := Option.map_eq_some_iff.mp hstep
        rw [← ht]
        rfl
  · rw [heq]

/-- A look is the sender's own. -/
theorem buffered_look {a : Receipts.Act Buffered.Act} :
    (buffered hardened).role s a = .look g ↔ a = .output (.sender g .look) := by
  refine ⟨fun h => ?_, fun h => h ▸ rfl⟩
  simp only [buffered] at h
  split at h
  · rename_i act
    cases act with
    | drain st act => cases act <;> cases h
    | _ => cases h
  · cases h
    rfl
  · cases h
  · cases h

/-- A waking is the sender's own. -/
theorem buffered_wake {a : Receipts.Act Buffered.Act} {otherwise : Bool}
    (h : (buffered hardened).role s a = .wake g otherwise) : a = .output (.sender g .wake) := by
  simp only [buffered] at h
  split at h
  · rename_i act
    cases act with
    | drain st act => cases act <;> cases h
    | _ => cases h
  · cases h
  · cases h
    rfl
  · cases h

/-- **The buffered senders** fall asleep only at a look that finds nothing to send. -/
theorem buffered_sleeps : (buffered hardened).Sleeps Idle where
  init s g h := by
    obtain ⟨-, -, hnone⟩ := h
    have hnone : s.output.senders g = none := congrFun hnone g
    simp [buffered, hnone]
  registers s g h := by
    cases hs : s.output.senders g with
    | none => simp [buffered, hs]
    | some sender =>
      have hlook : sender.stage = .look := by simpa [buffered, hs] using h
      simp [buffered, hs, hlook]
  falls s a t g h asleep := by
    obtain ⟨sender, present, waiting⟩ := buffered_asleep.mp asleep
    rcases buffered_cases h with ⟨act, rfl, hstep⟩ | ⟨hother, heq⟩
    · obtain ⟨hfell, hslept⟩ := buffered_falls hstep present waiting
      refine ⟨fun hrole sender' present' => ?_, fun hrole => ?_⟩
      · cases buffered_look.mp hrole
        cases present.symm.trans present'
        exact hfell rfl
      · have hne : act ≠ .sender g .look := by
          rintro rfl
          exact hrole rfl
        exact buffered_asleep.mpr ⟨sender, (hslept hne).1, waiting⟩
    · refine ⟨fun hrole => absurd (buffered_look.mp hrole) (hother _), fun _ => ?_⟩
      exact buffered_asleep.mpr ⟨sender, heq ▸ present, waiting⟩
  wakes s a t g otherwise h role := by
    cases buffered_wake role
    cases hasleep : (buffered hardened).asleep t g with
    | false => rfl
    | true =>
      obtain ⟨sender, present, waiting⟩ := buffered_asleep.mp hasleep
      rcases buffered_cases h with ⟨act, heq, hstep⟩ | ⟨hother, -⟩
      · cases heq
        exact absurd rfl (((buffered_falls hstep present waiting).2 nofun).2 .wake)
      · exact absurd rfl (hother _)
  stays s a t g h _ asleep idle still := by
    intro sender present
    have hmeta := buffered_still h still
    obtain ⟨sender', present', waiting⟩ := buffered_asleep.mp asleep
    cases present.symm.trans present'
    rcases buffered_cases h with ⟨act, rfl, hstep⟩ | ⟨-, heq⟩
    · obtain ⟨hfell, hslept⟩ := buffered_falls hstep present waiting
      by_cases hlook : act = .sender g .look
      · exact hfell hlook
      · rw [hmeta]
        exact idle sender (hslept hlook).1
    · rw [heq] at present ⊢
      exact idle sender present

/-- A sender that finds nothing to send has sent all that is recorded, and the session has not
ended. -/
theorem serve_waiting {sender : Buffered.Sender} {ends : PerStream Nat}
    {terminal : Option ExitResult} (behind : ∀ st, sender.position.get st ≤ ends.get st)
    (waiting : serve sender ends terminal = .waiting) :
    (∀ st, sender.position.get st = ends.get st) ∧ terminal = none := by
  have hout : sender.position.stdout ≤ ends.stdout := behind .stdout
  have herr : sender.position.stderr ≤ ends.stderr := behind .stderr
  simp only [serve] at waiting
  split at waiting
  · cases waiting
  rename_i hstdout
  split at waiting
  · cases waiting
  rename_i hstderr
  split at waiting
  · cases waiting
  refine ⟨fun st => ?_, rfl⟩
  cases st with
  | stdout =>
    have hready : ¬sender.position.stdout < ends.stdout := fun hlt => hstdout ⟨hlt, .inr hstderr⟩
    exact Nat.le_antisymm hout (Nat.not_lt.mp hready)
  | stderr => exact Nat.le_antisymm herr (Nat.not_lt.mp hstderr)

end Buffered

/-! ## The live senders -/

section Live

variable {s t : Receipts.State Live.State} {g : Nat}

/-- A turn waits exactly if its look finds the session not ended. -/
theorem live_senderStep_waiting {session : Session} {old new : Live.Sender} {act : Live.SenderAct}
    (h : Live.senderStep session g old act = some new) (waiting : new.stage = .waiting) :
    act = .look ∧ terminalStatus session.metadata = none := by
  have attempt : ∀ st next, next ≠ .waiting → (old.attempt st next).stage ≠ .waiting := by
    intro st next hnext
    simp only [Live.Sender.attempt]
    split
    · exact nofun
    · exact hnext
  have chunk : ∀ current st chunk preferStdout,
      (old.sendLiveChunk current st chunk preferStdout).stage ≠ .waiting := by
    intro current st chunk preferStdout
    simp only [Live.Sender.sendLiveChunk]
    split
    · exact nofun
    · split <;> exact nofun
  unfold Live.senderStep at h
  dsimp only at h
  split at h
  · split at h <;> cases h <;> cases waiting
  · split at h
    · split at h <;> cases h <;> cases waiting
    · cases h
      cases waiting
  · split at h <;> cases h <;> cases waiting
  · cases h
    exact absurd waiting (attempt _ _ nofun)
  · cases h
    exact absurd waiting (attempt _ _ nofun)
  · cases h
    exact absurd waiting (attempt _ _ nofun)
  · cases h
    exact absurd waiting (chunk _ _ _ _)
  · split at h
    · cases h
      cases waiting
    · rename_i hnone
      exact ⟨rfl, hnone⟩
  · split at h <;> cases h <;> cases waiting
  · simp only [Live.Sender.recv] at h
    split at h <;> cases h <;> cases waiting
  · cases h
    cases waiting
  · cases h
  · cases h
    cases waiting
  · cases h

/-- A step of the broker is one of the output side, or leaves it alone. -/
theorem live_cases {a : Receipts.Act Live.Act}
    (h : (live hardened).machine.step s a = some t) :
    (∃ act, a = .output act ∧ Live.step hardened s.output act = some t.output) ∨
      (∀ act, a ≠ .output act) ∧ t.output = s.output :=
  output_cases (fun _ _ _ => rfl) h

/-- A sender sleeps exactly in its waiting stage. -/
theorem live_asleep : (live hardened).asleep s g = true ↔
    ∃ sender, s.output.senders g = some sender ∧ sender.stage = .waiting := by
  simp [live, Option.any_eq_true]

/-- A chunk that is sent wakes nobody by itself. -/
theorem push_waiting {o : Live.State} {sent : Option (Stream × OutputChunk)} {sender : Live.Sender}
    (present : (o.push sent).senders g = some sender) (waiting : sender.stage = .waiting) :
    ∃ old, o.senders g = some old ∧ old.stage = .waiting := by
  cases sent with
  | none => exact ⟨sender, present, waiting⟩
  | some p =>
    obtain ⟨old, hold, rfl⟩ := Option.map_eq_some_iff.mp present
    refine ⟨old, hold, ?_⟩
    simp only [Live.Sender.push] at waiting
    split at waiting <;> exact waiting

/-- A no-buffer sender that waits waited before, or has just found the session not ended. -/
theorem live_falls {s t : Live.State} {act : Live.Act} {sender : Live.Sender}
    (h : Live.step hardened s act = some t) (present : t.senders g = some sender)
    (waiting : sender.stage = .waiting) :
    (act = .sender g .look → terminalStatus t.session.metadata = none) ∧
    (act ≠ .sender g .look → (∃ old, s.senders g = some old ∧ old.stage = .waiting) ∧
      ∀ act', act ≠ .sender g act') := by
  cases act with
  | session act =>
    have hother : ∀ act', Live.Act.session act ≠ .sender g act' := by
      intro act' heq
      cases heq
    obtain ⟨p, hp, rfl⟩ := Option.map_eq_some_iff.mp h
    refine ⟨fun heq => absurd heq (hother _), fun _ => ⟨?_, hother⟩⟩
    exact push_waiting (o := { session := p.1, senders := s.senders }) present waiting
  | subscribe g' =>
    have hother : ∀ act', Live.Act.subscribe g' ≠ .sender g act' := by
      intro act' heq
      cases heq
    simp only [Live.step] at h
    split at h <;> cases h
    refine ⟨fun heq => absurd heq (hother _), fun _ => ?_⟩
    by_cases hg : g = g'
    · subst hg
      cases (Function.update_self ..).symm.trans present
      cases waiting
    · exact ⟨⟨sender, (Function.update_of_ne hg ..).symm.trans present, waiting⟩, hother⟩
  | sender g' act =>
    simp only [Live.step] at h
    split at h
    · cases h
    rename_i old hold
    obtain ⟨new, hnew, rfl⟩ := Option.map_eq_some_iff.mp h
    by_cases hg : g = g'
    · subst hg
      cases (Function.update_self ..).symm.trans present
      obtain ⟨rfl, hnone⟩ := live_senderStep_waiting hnew waiting
      exact ⟨fun _ => hnone, fun hne => absurd rfl hne⟩
    · have hother : ∀ act', Live.Act.sender g' act ≠ .sender g act' := by
        intro act' heq
        cases heq
        exact hg rfl
      refine ⟨fun heq => absurd heq (hother _), fun _ => ?_⟩
      exact ⟨⟨sender, (Function.update_of_ne hg ..).symm.trans present, waiting⟩, hother⟩

/-- The metadata stays unless a task owes a notification for it. -/
theorem live_still {a : Receipts.Act Live.Act} (h : (live hardened).machine.step s a = some t)
    (still : ∀ task, (live hardened).role s a ≠ .task task true) :
    t.output.session.metadata = s.output.session.metadata := by
  rcases live_cases h with ⟨act, rfl, hstep⟩ | ⟨-, heq⟩
  · cases act with
    | session act =>
      obtain ⟨⟨session, sent⟩, hp, ht⟩ := Option.map_eq_some_iff.mp hstep
      have hstill : session.metadata = s.output.session.metadata := session_still hp still
      rw [← ht, ← hstill]
      cases sent <;> rfl
    | subscribe g =>
      simp only [Live.step] at hstep
      split at hstep
      · rw [← Option.some.inj hstep]
        rfl
      · cases hstep
    | sender g act =>
      simp only [Live.step] at hstep
      split at hstep
      · cases hstep
      · obtain ⟨sender, -, ht⟩ := Option.map_eq_some_iff.mp hstep
        rw [← ht]
        rfl
  · rw [heq]

/-- A look is the sender's own. -/
theorem live_look {a : Receipts.Act Live.Act} :
    (live hardened).role s a = .look g ↔ a = .output (.sender g .look) := by
  refine ⟨fun h => ?_, fun h => h ▸ rfl⟩
  simp only [live] at h
  split at h
  · rename_i act
    cases act with
    | drain st act => cases act <;> cases h
    | _ => cases h
  · cases h
    rfl
  · cases h
  · cases h
  · cases h

/-- A sender is woken by its notification or by what it receives. -/
theorem live_wake {a : Receipts.Act Live.Act} {otherwise : Bool}
    (h : (live hardened).role s a = .wake g otherwise) :
    ∃ act, act ≠ .look ∧ a = .output (.sender g act) := by
  simp only [live] at h
  split at h
  · rename_i act
    cases act with
    | drain st act => cases act <;> cases h
    | _ => cases h
  · cases h
  · cases h
    exact ⟨.recv _, nofun, rfl⟩
  · cases h
    exact ⟨.wake, nofun, rfl⟩
  · cases h

/-- **The live senders** sleep only when the session has not ended for them. -/
theorem live_sleeps : (live hardened).Sleeps Unended where
  init s g h := by
    obtain ⟨-, -, hnone⟩ := h
    have hnone : s.output.senders g = none := congrFun hnone g
    simp [live, hnone]
  registers s g h := by
    cases hs : s.output.senders g with
    | none => simp [live, hs]
    | some sender =>
      have hlook : sender.stage = .look := by simpa [live, hs] using h
      simp [live, hs, hlook]
  falls s a t g h asleep := by
    obtain ⟨sender, present, waiting⟩ := live_asleep.mp asleep
    rcases live_cases h with ⟨act, rfl, hstep⟩ | ⟨hother, heq⟩
    · obtain ⟨hfell, hslept⟩ := live_falls hstep present waiting
      refine ⟨fun hrole => ?_, fun hrole => ?_⟩
      · cases live_look.mp hrole
        exact hfell rfl
      · have hne : act ≠ .sender g .look := by
          rintro rfl
          exact hrole rfl
        exact live_asleep.mpr (hslept hne).1
    · refine ⟨fun hrole => absurd (live_look.mp hrole) (hother _), fun _ => ?_⟩
      exact live_asleep.mpr ⟨sender, heq ▸ present, waiting⟩
  wakes s a t g otherwise h role := by
    obtain ⟨act, hne, rfl⟩ := live_wake role
    cases hasleep : (live hardened).asleep t g with
    | false => rfl
    | true =>
      obtain ⟨sender, present, waiting⟩ := live_asleep.mp hasleep
      rcases live_cases h with ⟨act', heq, hstep⟩ | ⟨hother, -⟩
      · cases heq
        have hlook : Live.Act.sender g act ≠ .sender g .look := by
          intro heq
          cases heq
          exact hne rfl
        exact absurd rfl (((live_falls hstep present waiting).2 hlook).2 act)
      · exact absurd rfl (hother _)
  stays s a t g h _ _ idle still := by
    show terminalStatus t.output.session.metadata = none
    rw [live_still h still]
    exact idle

/-- A sleeper whose channels are empty has been sent every published byte that was not evicted. -/
theorem complete_of_empty {o : Live.State} (h : (Live.machine hardened).Reachable o)
    {sender : Live.Sender} (present : o.senders g = some sender) (waiting : sender.stage = .waiting)
    (current : o.session.attachment.isCurrent g = true) (empty : ∀ st, sender.recv st = none)
    (unsent : ∀ st chunk, o.session.drains.get st ≠ .sending chunk) :
    Live.Complete o.session sender := by
  have hi := Live.reachable_inv h
  have hcovered := (hi.senders g sender present).covered current
    (by rw [waiting]; exact nofun) (by rw [waiting]; exact nofun)
  intro st i hlower hupper
  have hsent : (o.session.lane st).sentStop = o.session.metadata.ends.get st := by
    unfold Lane.sentStop
    split
    · rename_i chunk hsending
      exact absurd hsending (unsent st chunk)
    · rfl
  have hqueue : (sender.live.get st).queue = [] := by
    have hnone := empty st
    simp only [Live.Sender.recv, Broadcast.Receiver.tryRecv] at hnone
    split at hnone
    · rename_i hempty
      split at hempty
      · cases hempty
      · split at hempty
        · assumption
        · cases hempty
    · cases hnone
    · cases hnone
  rcases (hcovered st).ahead i hlower (hsent ▸ hupper) with hcarried | hlost | ⟨c, hc | hc, -⟩
  · exact .inl hcarried
  · exact .inr hlost
  · rw [hqueue] at hc
    cases hc
  · rw [waiting] at hc
    cases hc

end Live

/-! ## No wakeup is lost -/

/-- **No sender sleeps through its output.** In every interleaving of the drains, the wait task, the
input side, the openings and the senders: a buffered sender that sleeps was notified, or a task that
has changed the metadata is about to notify, or it has sent all that is recorded and the session has
not ended. A no-buffer sender with authority may have something to receive as well, now or when a
drain sends the chunk that it has published; else it has been sent every published byte that the
channel did not evict, and the session has not ended. -/
theorem sleepers_have_nothing_to_send (hardened : Bool) :
    (∀ s, (buffered hardened).watched.Reachable s → ∀ g sender,
      s.state.output.senders g = some sender → sender.stage = .waiting →
        s.registered g = some true ∨ (∃ task, s.owing task = true) ∨
          (∀ st, sender.position.get st = s.state.output.session.metadata.ends.get st) ∧
            terminalStatus s.state.output.session.metadata = none) ∧
    ∀ s, (live hardened).watched.Reachable s → ∀ g sender,
      s.state.output.senders g = some sender → sender.stage = .waiting →
        s.state.output.session.attachment.isCurrent g = true →
          s.registered g = some true ∨ (∃ task, s.owing task = true) ∨
            (∃ st received, sender.recv st = some received) ∨
            (∃ st chunk, s.state.output.session.drains.get st = .sending chunk) ∨
            terminalStatus s.state.output.session.metadata = none ∧
              Live.Complete s.state.output.session sender := by
  refine ⟨fun s h g sender present waiting => ?_, fun s h g sender present waiting current => ?_⟩
  · have hasleep : (buffered hardened).asleep s.state g = true :=
      buffered_asleep.mpr ⟨sender, present, waiting⟩
    rcases Watched.informed buffered_sleeps h hasleep with hnotified | howing | hidle
    · exact .inl hnotified
    · exact .inr (.inl howing)
    · have hreachable : (Buffered.machine hardened).Reachable s.state.output :=
        reachable_output (fun _ _ _ => rfl) (Watched.reachable_state h)
      have hsender := (Buffered.reachable_inv hreachable).senders g sender present
      exact .inr (.inr (serve_waiting (fun st => (hsender.le st).2) (hidle sender present)))
  · have hasleep : (live hardened).asleep s.state g = true :=
      live_asleep.mpr ⟨sender, present, waiting⟩
    rcases Watched.informed live_sleeps h hasleep with hnotified | howing | hidle
    · exact .inl hnotified
    · exact .inr (.inl howing)
    · by_cases hreceives : ∃ st received, sender.recv st = some received
      · exact .inr (.inr (.inl hreceives))
      by_cases hsends : ∃ st chunk, s.state.output.session.drains.get st = .sending chunk
      · exact .inr (.inr (.inr (.inl hsends)))
      have hreachable : (Live.machine hardened).Reachable s.state.output :=
        reachable_output (fun _ _ _ => rfl) (Watched.reachable_state h)
      refine .inr (.inr (.inr (.inr ⟨hidle, ?_⟩)))
      refine complete_of_empty hreachable present waiting current (fun st => ?_) ?_
      · exact Option.eq_none_iff_forall_ne_some.mpr fun r hr => hreceives ⟨st, r, hr⟩
      · intro st chunk hdrain
        exact hsends ⟨st, chunk, hdrain⟩

/-- A buffered sender sleeps, is notified of a byte, sends it and sleeps again; a no-buffer one
sleeps through a drain that has published a byte and not sent it. -/
theorem sleepers_have_nothing_to_send_byte :
    (∃ s sender, (buffered false).watched.Reachable s ∧
      s.state.output.senders 1 = some sender ∧ sender.frames = [.stdoutData 0 [7]] ∧
      sender.stage = .waiting ∧
      ∀ st, sender.position.get st = s.state.output.session.metadata.ends.get st) ∧
    ∃ s sender, (live false).watched.Reachable s ∧ s.state.output.senders 1 = some sender ∧
      sender.frames = [] ∧ s.state.output.session.metadata.ends = ⟨1, 0⟩ ∧
      (s.registered 1 = some true ∨ (∃ task, s.owing task = true) ∨
        (∃ st received, sender.recv st = some received) ∨
        (∃ st chunk, s.state.output.session.drains.get st = .sending chunk) ∨
        terminalStatus s.state.output.session.metadata = none ∧
          Live.Complete s.state.output.session sender) := by
  constructor
  · let act (a : Buffered.Act) : Watched.Act (Receipts.Act Buffered.Act) Task Nat := .act (.output a)
    let drain (a : Session.DrainAct) := act (.session (.drain .stdout a))
    let turn := [act (.sender 1 (.turn none)), .register 1, act (.sender 1 .look)]
    let labels := [act (.session (.install false)), act (.attach 1 (.both 0))] ++ turn ++
      [drain (.read [7]), drain .count, drain (.write 1), drain .flush, drain .publish,
        .notify (.drain .stdout), act (.sender 1 .wake)] ++ turn ++
      [act (.sender 1 (.read 1)), act (.sender 1 .emit)] ++ turn
    have start : (buffered false).watched.Reachable
        { state := { stdin := { childStdin := true }, output := { session := {} } }
          owing := fun _ => false
          registered := fun _ => none } :=
      .init ⟨⟨⟨true, rfl⟩, ⟨.both .reading, none, fun st => .inl (PerStream.get_both _ st), rfl⟩, rfl⟩,
        rfl, rfl⟩
    have reached := Machine.Reachable.run start labels rfl
    obtain ⟨s, sender, hs, present, frames, waiting, registered, settled⟩ : ∃ s sender,
        (buffered false).watched.Reachable s ∧ s.state.output.senders 1 = some sender ∧
        sender.frames = [.stdoutData 0 [7]] ∧ sender.stage = .waiting ∧
        s.registered 1 = some false ∧ ∀ task, s.owing task = false := by
      refine ⟨_, _, reached, rfl, rfl, rfl, rfl, fun task => ?_⟩
      rcases task with (_ | _) | _ | _ <;> rfl
    refine ⟨s, sender, hs, present, frames, waiting, ?_⟩
    rcases (sleepers_have_nothing_to_send false).1 s hs 1 sender present waiting with
      hnotified | ⟨task, howing⟩ | hidle
    · rw [registered] at hnotified
      cases hnotified
    · rw [settled] at howing
      cases howing
    · exact hidle.1
  · let act (a : Live.Act) : Watched.Act (Receipts.Act Live.Act) Task Nat := .act (.output a)
    let drain (a : Session.DrainAct) := act (.session (.drain .stdout a))
    let labels := [act (.session (.install false)), act (.subscribe 1), act (.sender 1 .hello),
      act (.sender 1 (.turn none)), act (.sender 1 .tryRecv), act (.sender 1 .tryRecv),
      act (.sender 1 .tryRecv), .register 1, act (.sender 1 .look), drain (.read [7]),
      drain .count, drain .publish]
    have start : (live false).watched.Reachable
        { state := { stdin := { childStdin := true }, output := { session := {} } }
          owing := fun _ => false
          registered := fun _ => none } :=
      .init ⟨⟨⟨true, rfl⟩, ⟨.both .reading, none, fun st => .inl (PerStream.get_both _ st), rfl⟩, rfl⟩,
        rfl, rfl⟩
    have reached := Machine.Reachable.run start labels rfl
    exact ⟨_, _, reached, rfl, rfl, rfl,
      (sleepers_have_nothing_to_send false).2 _ reached 1 _ rfl rfl rfl⟩

end Pipekeep.Changed
