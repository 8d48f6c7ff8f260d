import Pipekeep.Lib.Parties
import Pipekeep.Ordinary

/-!
# What an ordinary session keeps

`Sound` says what one cancellation has done so far: its signals in their order and times, and what
its reply says of them. `Cleaned` says what the cleanup task has seen. Neither depends on what the
other connections do in between, and the session ends by its time to live or by an error of the
accept loop.
-/

namespace Pipekeep.Ordinary

variable {grace ttl : Nat} {s t : State}

/-! ## One cancellation -/

/-- The deadline has been computed. -/
def CancelStage.armed : CancelStage → Bool
  | .sent => false
  | .failed _ => false
  | _ => true

/-- A SIGKILL may have been sent. -/
def CancelStage.killed : CancelStage → Bool
  | .going | .waiting | .replied _ _ | .failed _ => true
  | _ => false

/-- The group was found gone after the last signal. -/
def CancelStage.settled : CancelStage → Bool
  | .waiting | .replied _ _ => true
  | _ => false

/-- **The signals of a cancellation**: SIGTERM at `term`, and SIGKILL at most once after it, not
before the grace is over unless a look had found the group gone. -/
structure Signals (grace now : Nat) (c : Cancel) (term : Nat) (rest : List Call) : Prop where
  calls : ∃ answer, c.calls = ⟨.term, term, answer⟩ :: rest
  past : term ≤ now
  deadline : c.stage.armed = true → term + grace ≤ c.deadline
  rest : rest = [] ∨ ∃ kill answer, rest = [⟨.kill, kill, answer⟩] ∧ kill ≤ now ∧ term ≤ kill ∧
    (term + grace ≤ kill ∨ c.vanished = true) ∧ c.stage.killed = true

structure Sound (grace now : Nat) (c : Cancel) : Prop where
  signaled : c.signaled = c.calls.any Call.won
  signals : ∃ term rest, Signals grace now c term rest
  lapsed : c.stage = .second ∨ c.stage = .killing → c.deadline ≤ now ∨ c.vanished = true
  absent : c.stage.settled = true → ∃ absent, c.absent = some absent ∧ absent ≤ now ∧
    ∀ k ∈ c.calls, k.now ≤ absent

/-- A call of a sound cancellation is past. -/
theorem Sound.past {now : Nat} {c : Cancel} (h : Sound grace now c) : ∀ k ∈ c.calls, k.now ≤ now := by
  obtain ⟨term, rest, hs⟩ := h.signals
  obtain ⟨answer, hcalls⟩ := hs.calls
  intro k hk
  rw [hcalls] at hk
  rcases List.mem_cons.mp hk with rfl | hk
  · exact hs.past
  · rcases hs.rest with rfl | ⟨kill, answer', rfl, hkill, -⟩
    · cases hk
    · rw [List.mem_singleton.mp hk]
      exact hkill

/-- What a cancellation has done stands as time passes. -/
theorem Sound.elapse {now now' : Nat} {c : Cancel} (h : Sound grace now c) (le : now ≤ now') :
    Sound grace now' c := by
  obtain ⟨term, rest, hs⟩ := h.signals
  refine ⟨h.signaled, ⟨term, rest, hs.calls, Nat.le_trans hs.past le, hs.deadline, ?_⟩,
    fun hstage => (h.lapsed hstage).imp_left fun hd => Nat.le_trans hd le, fun hstage => ?_⟩
  · rcases hs.rest with hnil | ⟨kill, answer, heq, hkill, hafter⟩
    · exact .inl hnil
    · exact .inr ⟨kill, answer, heq, Nat.le_trans hkill le, hafter⟩
  · obtain ⟨absent, heq, hpast, hafter⟩ := h.absent hstage
    exact ⟨absent, heq, Nat.le_trans hpast le, hafter⟩

/-- A cancellation that moves on without a signal. -/
theorem Sound.move {now : Nat} {c : Cancel} (h : Sound grace now c) {stage : CancelStage}
    {deadline : Nat} {vanished : Bool} {absent : Option Nat}
    (armed : stage.armed = true → c.stage.armed = true ∧ deadline = c.deadline ∨
      now + grace ≤ deadline)
    (vanish : c.vanished = true → vanished = true)
    (killed : c.stage.killed = true → stage.killed = true)
    (lapsed : stage = .second ∨ stage = .killing → deadline ≤ now ∨ vanished = true)
    (settled : stage.settled = true → absent = some now ∨ absent = c.absent ∧ c.stage.settled = true) :
    Sound grace now { c with
      stage := stage, deadline := deadline, vanished := vanished, absent := absent } := by
  obtain ⟨term, rest, hs⟩ := h.signals
  refine ⟨h.signaled, ⟨term, rest, hs.calls, hs.past, fun harmed => ?_, ?_⟩, lapsed, fun hset => ?_⟩
  · have hpast := hs.past
    rcases armed harmed with ⟨hbefore, heq⟩ | hnew
    · exact heq ▸ hs.deadline hbefore
    · exact Nat.le_trans (Nat.add_le_add_right hpast grace) hnew
  · rcases hs.rest with hnil | ⟨kill, answer, heq, hkill, horder, hafter, hstage⟩
    · exact .inl hnil
    · exact .inr ⟨kill, answer, heq, hkill, horder, hafter.imp_right vanish, killed hstage⟩
  · rcases settled hset with heq | ⟨heq, hold⟩
    · exact ⟨now, heq, Nat.le_refl now, h.past⟩
    · rw [heq]
      exact h.absent hold

/-- A cancellation begins with its SIGTERM. -/
theorem sound_begin (grace now : Nat) (answer : Except String Bool) :
    Sound grace now (.begin now answer) := by
  cases answer with
  | error e =>
    refine ⟨rfl, ⟨now, [], ⟨_, rfl⟩, Nat.le_refl now, nofun, .inl rfl⟩, ?_, nofun⟩
    rintro (h | h) <;> cases h
  | ok sent =>
    refine ⟨?_, ⟨now, [], ⟨_, rfl⟩, Nat.le_refl now, nofun, .inl rfl⟩, ?_, nofun⟩
    · simp [Cancel.begin, Call.won]
    · rintro (h | h) <;> cases h

/-- Its SIGKILL comes after the grace, or after a look that found no group. -/
theorem sound_kill {now : Nat} {c : Cancel} (h : Sound grace now c) (stage : c.stage = .killing)
    (answer : Except String Bool) : Sound grace now (c.kill now answer) := by
  obtain ⟨term, rest, hs⟩ := h.signals
  obtain ⟨first, hcalls⟩ := hs.calls
  have hpast := hs.past
  have hdeadline := hs.deadline (by rw [stage]; rfl)
  have hlapsed : term + grace ≤ now ∨ c.vanished = true := by
    rcases h.lapsed (.inr stage) with hd | hv
    · exact .inl (Nat.le_trans hdeadline hd)
    · exact .inr hv
  have hrest : rest = [] := by
    rcases hs.rest with hnil | ⟨_, _, -, -, -, -, hkilled⟩
    · exact hnil
    · rw [stage] at hkilled
      cases hkilled
  subst hrest
  cases answer with
  | error e =>
    refine ⟨?_, ⟨term, [⟨.kill, now, .error e⟩], ⟨first, ?_⟩, hpast, nofun,
      .inr ⟨now, _, rfl, Nat.le_refl now, hpast, hlapsed, rfl⟩⟩, ?_, nofun⟩
    · simp [Cancel.kill, h.signaled, Call.won]
    · simp [Cancel.kill, hcalls]
    · rintro (h | h) <;> cases h
  | ok sent =>
    refine ⟨?_, ⟨term, [⟨.kill, now, .ok sent⟩], ⟨first, ?_⟩, hpast, fun _ => hdeadline,
      .inr ⟨now, _, rfl, Nat.le_refl now, hpast, hlapsed, rfl⟩⟩, ?_, nofun⟩
    · simp [Cancel.kill, h.signaled, Call.won]
    · simp [Cancel.kill, hcalls]
    · rintro (h | h) <;> cases h

/-- A look of the group sends nothing. -/
theorem sound_look {now : Nat} {c c' : Cancel} (h : Sound grace now c) {present : Bool}
    (hlook : c.look now present = some c') : Sound grace now c' := by
  unfold Cancel.look at hlook
  split at hlook
  next hstage =>
    split at hlook
    · cases hlook
      exact h
    next hleft =>
      cases hlook
      refine h.move (fun _ => .inl ⟨by rw [hstage]; rfl, rfl⟩) (fun hv => by rw [hv]; rfl)
        (fun hk => ?_) (fun _ => ?_) nofun
      · rw [hstage] at hk
        cases hk
      · -- the loop was left for one of its two conditions
        cases present with
        | false => exact .inr (Bool.or_true _)
        | true =>
          simp only [Bool.true_and, decide_eq_true_eq, Nat.not_lt] at hleft
          exact .inl hleft
  next hstage =>
    split at hlook
    · cases hlook
      refine h.move (fun _ => .inl ⟨by rw [hstage]; rfl, rfl⟩) id (fun hk => ?_)
        (fun _ => h.lapsed (.inl hstage)) nofun
      rw [hstage] at hk
      cases hk
    · cases hlook
      refine h.move (fun _ => .inl ⟨by rw [hstage]; rfl, rfl⟩) (fun _ => rfl) (fun _ => rfl) ?_ nofun
      rintro (h | h) <;> cases h
  next hstage =>
    split at hlook
    · cases hlook
      exact h
    · cases hlook
      refine h.move (fun _ => .inl ⟨by rw [hstage]; rfl, rfl⟩) id (fun _ => rfl) ?_ fun _ => .inl rfl
      rintro (h | h) <;> cases h
  next => cases hlook

/-- A reply sends nothing. -/
theorem sound_reply {now : Nat} {c : Cancel} (h : Sound grace now c) (stage : c.stage = .waiting)
    (m : Meta) : Sound grace now (c.reply m) := by
  unfold Cancel.reply
  split
  · refine h.move nofun id (fun _ => rfl) ?_ nofun
    rintro (h | h) <;> cases h
  · refine h.move (fun _ => .inl ⟨by rw [stage]; rfl, rfl⟩) id (fun _ => rfl) ?_
      fun _ => .inr ⟨rfl, by rw [stage]; rfl⟩
    rintro (h | h) <;> cases h

/-- What a reply says, of a session that is terminal: the recorded status, and whether one of its
own signals was taken. -/
def Answered (m : Meta) (c : Cancel) : Prop :=
  ∀ outcome status, c.stage = .replied outcome status →
    m.terminal = true ∧ m.status = some status ∧ (outcome = .cancelWon ↔ c.signaled = true)

/-- Where there is no reply there is nothing to say of it. -/
theorem Answered.of_stage {m : Meta} {c : Cancel}
    (h : ∀ outcome status, c.stage ≠ .replied outcome status) : Answered m c :=
  fun outcome status hstage => absurd hstage (h outcome status)

/-- A look of the group is no reply. -/
theorem look_unanswered {now : Nat} {c c' : Cancel} {present : Bool} {m : Meta}
    (h : c.look now present = some c') : Answered m c' := by
  refine .of_stage fun outcome status hreplied => ?_
  unfold Cancel.look at h
  split at h
  next hstage =>
    split at h <;> cases h
    · rw [hstage] at hreplied
      cases hreplied
    · cases hreplied
  next hstage => split at h <;> cases h <;> cases hreplied
  next hstage =>
    split at h <;> cases h
    · rw [hstage] at hreplied
      cases hreplied
    · cases hreplied
  next => cases h

/-- A reply says what was recorded. -/
theorem reply_answered (c : Cancel) {m : Meta} (terminal : m.terminal = true) :
    Answered m (c.reply m) := by
  intro outcome status hstage
  unfold Cancel.reply at hstage ⊢
  split at hstage
  · cases hstage
  next recorded hstatus =>
    cases hstage
    refine ⟨terminal, hstatus, ?_⟩
    dsimp only
    cases c.signaled <;> simp

/-- **One step of a cancellation** keeps its signals in order, and a reply is a truthful one. -/
theorem cancelStep_sound {c c' : Cancel} {act : CancelAct} (h : Sound grace s.now c)
    (terminal : s.terminal = true → s.metadata.terminal = true)
    (hstep : cancelStep grace s c act = some c') :
    Sound grace s.now c' ∧ Answered s.metadata c' := by
  cases act with
  | deadline =>
    rw [cancelStep] at hstep
    split at hstep
    next hstage =>
      cases hstep
      refine ⟨h.move (fun _ => .inr (Nat.le_refl _)) id (fun hk => ?_) ?_ nofun, .of_stage nofun⟩
      · rw [hstage] at hk
        cases hk
      · rintro (h | h) <;> cases h
    · cases hstep
  | look present => exact ⟨sound_look h hstep, look_unanswered hstep⟩
  | kill answer =>
    rw [cancelStep] at hstep
    split at hstep
    next hstage =>
      cases hstep
      refine ⟨sound_kill h hstage answer, .of_stage fun outcome status hreplied => ?_⟩
      cases answer <;> cases hreplied
    · cases hstep
  | reply =>
    rw [cancelStep] at hstep
    split at hstep
    next hstage =>
      cases hstep
      exact ⟨sound_reply h hstage.1 s.metadata, reply_answered c (terminal hstage.2)⟩
    · cases hstep

/-! ## The session -/

/-- A poll that found a terminal session with nobody connected. -/
def Poll.quiet (p : Poll) : Prop := p.terminal = true ∧ p.alive = ∅

/-- What the cleanup task has seen where it stands. -/
def State.Cleaned (ttl : Nat) (s : State) : Prop :=
  match s.cleanup with
  | .terminal => True
  | .attached => s.terminal = true
  | .sleeping since => s.terminal = true ∧ since ≤ s.now ∧ ∃ p ∈ s.polls, p.quiet ∧ p.now = since
  | .last since => s.terminal = true ∧ since + ttl ≤ s.now ∧ ∃ p ∈ s.polls, p.quiet ∧ p.now = since
  | .sent => s.terminal = true ∧ ∃ p ∈ s.polls, ∃ q ∈ s.polls, p.quiet ∧ q.quiet ∧
      p.now + ttl ≤ q.now ∧ q.now ≤ s.now

structure Inv (grace ttl : Nat) (s : State) : Prop where
  terminal : s.terminal = true → s.metadata.terminal = true
  cancels : ∀ i k, s.connections i = some k → ∀ c, k.cancel = some c →
    Sound grace s.now c ∧ Answered s.metadata c
  numbered : ∀ i k, s.connections i = some k → i < s.accepted
  alive : ∀ i, i ∈ s.alive ↔ ∃ k, s.connections i = some k ∧ k.isOpen = true
  counted : s.activeAttachments = s.alive.card
  cleaned : s.Cleaned ttl
  ending : s.ending = some .expired → s.cleanup = .sent

/-- What the cleanup task has seen stays seen. -/
theorem State.Cleaned.keep (h : s.Cleaned ttl) (cleanup : t.cleanup = s.cleanup)
    (terminal : s.terminal = true → t.terminal = true) (now : s.now ≤ t.now)
    (polls : t.polls = s.polls) : t.Cleaned ttl := by
  unfold State.Cleaned at h ⊢
  rw [cleanup, polls]
  cases hc : s.cleanup with
  | terminal => trivial
  | attached =>
    rw [hc] at h
    exact terminal h
  | sleeping since =>
    rw [hc] at h
    exact ⟨terminal h.1, Nat.le_trans h.2.1 now, h.2.2⟩
  | last since =>
    rw [hc] at h
    exact ⟨terminal h.1, Nat.le_trans h.2.1 now, h.2.2⟩
  | sent =>
    rw [hc] at h
    obtain ⟨hterminal, p, hp, q, hq, hpq, hqq, hle, hnow⟩ := h
    exact ⟨terminal hterminal, p, hp, q, hq, hpq, hqq, hle, Nat.le_trans hnow now⟩

/-- A connection goes on, open as before. -/
theorem Inv.setConnection (hi : Inv grace ttl s) {i : Nat} {k k' : Connection}
    (link : s.connections i = some k) (isOpen : k'.isOpen = k.isOpen)
    (cancels : ∀ c, k'.cancel = some c → Sound grace s.now c ∧ Answered s.metadata c) :
    Inv grace ttl (s.setConnection i k') where
  terminal := hi.terminal
  cancels := Parties.forall_update_some cancels fun j m _ hm => hi.cancels j m hm
  numbered := Parties.forall_update_some (hi.numbered i k link) fun j m _ hm => hi.numbered j m hm
  alive j := by
    show j ∈ s.alive ↔ ∃ m, Function.update s.connections i (some k') j = some m ∧ m.isOpen = true
    by_cases hj : j = i
    · subst hj
      rw [hi.alive, Function.update_self]
      constructor
      · rintro ⟨m, hm, hopen⟩
        rw [link] at hm
        cases hm
        exact ⟨k', rfl, isOpen.trans hopen⟩
      · rintro ⟨m, hm, hopen⟩
        cases hm
        exact ⟨k, link, isOpen.symm.trans hopen⟩
    · rw [Function.update_of_ne hj]
      exact hi.alive j
  counted := hi.counted
  cleaned := hi.cleaned.keep rfl id (Nat.le_refl _) rfl
  ending := hi.ending

/-- A new connection is counted and open. -/
theorem Inv.accept (hi : Inv grace ttl s) : Inv grace ttl s.accept := by
  have hnew : s.accepted ∉ s.alive := by
    intro hmem
    obtain ⟨k, hk, -⟩ := (hi.alive _).mp hmem
    exact Nat.lt_irrefl _ (hi.numbered _ k hk)
  refine ⟨hi.terminal, ?_, ?_, fun j => ?_, ?_, hi.cleaned.keep rfl id (Nat.le_refl _) rfl, hi.ending⟩
  · exact Parties.forall_update_some nofun fun j m _ hm => hi.cancels j m hm
  · exact Parties.forall_update_some (Nat.lt_succ_self _)
      fun j m _ hm => Nat.lt_succ_of_lt (hi.numbered j m hm)
  · show j ∈ insert s.accepted s.alive ↔
      ∃ m, Function.update s.connections s.accepted (some .serving) j = some m ∧ m.isOpen = true
    by_cases hj : j = s.accepted
    · subst hj
      rw [Function.update_self]
      exact ⟨fun _ => ⟨.serving, rfl, rfl⟩, fun _ => Finset.mem_insert_self _ _⟩
    · rw [Function.update_of_ne hj, Finset.mem_insert, ← hi.alive j]
      exact or_iff_right hj
  · show s.activeAttachments + 1 = (insert s.accepted s.alive).card
    rw [Finset.card_insert_of_notMem hnew, hi.counted]

/-- A connection that returns is not counted any more. -/
theorem Inv.returns (hi : Inv grace ttl s) {i : Nat} {k : Connection}
    (link : s.connections i = some k) (isOpen : k.isOpen = true) :
    Inv grace ttl (s.returns i k) := by
  have hmem : i ∈ s.alive := (hi.alive i).mpr ⟨k, link, isOpen⟩
  refine ⟨hi.terminal, ?_, ?_, fun j => ?_, ?_, hi.cleaned.keep rfl id (Nat.le_refl _) rfl, hi.ending⟩
  · exact Parties.forall_update_some (fun c hc => hi.cancels i k link c hc)
      fun j m _ hm => hi.cancels j m hm
  · exact Parties.forall_update_some (hi.numbered i k link) fun j m _ hm => hi.numbered j m hm
  · show j ∈ s.alive.erase i ↔
      ∃ m, Function.update s.connections i (some (.returned k.cancel)) j = some m ∧ m.isOpen = true
    by_cases hj : j = i
    · subst hj
      rw [Function.update_self]
      refine ⟨fun h => absurd h (Finset.notMem_erase _ _), ?_⟩
      rintro ⟨m, hm, hopen⟩
      cases hm
      cases hopen
    · rw [Function.update_of_ne hj, Finset.mem_erase, ← hi.alive j]
      exact and_iff_right hj
  · show s.activeAttachments - 1 = (s.alive.erase i).card
    rw [Finset.card_erase_of_mem hmem, hi.counted]

/-- A fact of the command comes in, and the watch channel may be set. -/
theorem Inv.announce (hi : Inv grace ttl s) {m : Meta}
    (status : ∀ e, s.metadata.status = some e → m.status = some e)
    (terminal : s.metadata.terminal = true → m.terminal = true) :
    Inv grace ttl (State.announceIfTerminal { s with metadata := m }) := by
  have cancels : ∀ i k, s.connections i = some k → ∀ c, k.cancel = some c →
      Sound grace s.now c ∧ Answered m c := by
    intro i k hk c hc
    obtain ⟨hsound, hanswered⟩ := hi.cancels i k hk c hc
    refine ⟨hsound, fun outcome e hstage => ?_⟩
    obtain ⟨hterminal, hstatus, hwon⟩ := hanswered outcome e hstage
    exact ⟨terminal hterminal, status e hstatus, hwon⟩
  unfold State.announceIfTerminal
  split
  next hterminal =>
    exact ⟨fun _ => hterminal, cancels, hi.numbered, hi.alive, hi.counted,
      hi.cleaned.keep rfl (fun _ => rfl) (Nat.le_refl _) rfl, hi.ending⟩
  next =>
    exact ⟨fun h => terminal (hi.terminal h), cancels, hi.numbered, hi.alive, hi.counted,
      hi.cleaned.keep rfl id (Nat.le_refl _) rfl, hi.ending⟩

/-- A terminal session stays so as its streams are closed. -/
theorem terminal_closed {m : Meta} (st : Stream) (h : m.terminal = true) :
    ({ m with closed := m.closed.set st true } : Meta).terminal = true := by
  simp only [Meta.terminal, Bool.and_eq_true] at h ⊢
  cases st <;> simp [PerStream.set, h]

/-- The two places where a poll goes on. -/
theorem Inv.poll (hi : Inv grace ttl s) {next : Cleanup}
    (cleaned : s.activeAttachments = 0 → ({ s with
      cleanup := next, polls := s.polls ++ [⟨s.now, s.terminal, s.alive⟩] } : State).Cleaned ttl)
    (running : s.ending = none) : Inv grace ttl (s.poll next) := by
  unfold State.poll
  split
  next hnone =>
    refine ⟨hi.terminal, hi.cancels, hi.numbered, hi.alive, hi.counted, cleaned hnone, ?_⟩
    intro hending
    rw [show s.ending = some .expired from hending] at running
    cases running
  next => exact hi

/-- Nobody is counted where nobody is open. -/
theorem Inv.quiet (hi : Inv grace ttl s) (none : s.activeAttachments = 0)
    (terminal : s.terminal = true) : Poll.quiet ⟨s.now, s.terminal, s.alive⟩ := by
  refine ⟨terminal, ?_⟩
  rw [hi.counted] at none
  exact Finset.card_eq_zero.mp none

/-- **A step of the cleanup task** logs what its poll has found. -/
theorem Inv.cleanup (hi : Inv grace ttl s) (running : s.ending = none)
    (h : cleanupStep ttl s = some t) : Inv grace ttl t := by
  have hcleaned := hi.cleaned
  have notExpired : s.ending ≠ some .expired := by
    rw [running]
    simp
  unfold cleanupStep at h
  split at h
  next hstage =>
    split at h
    next hterminal =>
      cases h
      exact ⟨hi.terminal, hi.cancels, hi.numbered, hi.alive, hi.counted, hterminal,
        fun h => absurd h notExpired⟩
    · cases h
  next hstage =>
    cases h
    unfold State.Cleaned at hcleaned
    rw [hstage] at hcleaned
    refine hi.poll (fun hnone => ⟨hcleaned, Nat.le_refl _, ⟨s.now, s.terminal, s.alive⟩, ?_,
      hi.quiet hnone hcleaned, rfl⟩) running
    exact List.mem_append_right _ (List.mem_singleton_self _)
  next since hstage =>
    split at h
    next hslept =>
      cases h
      unfold State.Cleaned at hcleaned
      rw [hstage] at hcleaned
      exact ⟨hi.terminal, hi.cancels, hi.numbered, hi.alive, hi.counted,
        ⟨hcleaned.1, hslept, hcleaned.2.2⟩, fun h => absurd h notExpired⟩
    · cases h
  next since hstage =>
    cases h
    unfold State.Cleaned at hcleaned
    rw [hstage] at hcleaned
    obtain ⟨hterminal, hslept, p, hp, hquiet, rfl⟩ := hcleaned
    refine hi.poll (fun hnone => ⟨hterminal, p, List.mem_append_left _ hp,
      ⟨s.now, s.terminal, s.alive⟩, List.mem_append_right _ (List.mem_singleton_self _), hquiet,
      hi.quiet hnone hterminal, hslept, Nat.le_refl _⟩) running
  next => cases h

/-- **One step keeps the invariant.** -/
theorem inv_step (hi : Inv grace ttl s) {act : Act} (h : step grace ttl s act = some t) :
    Inv grace ttl t := by
  unfold step at h
  split at h
  next => cases h
  next running =>
  cases act with
  | elapse time =>
    cases h
    refine ⟨hi.terminal, fun i k hk c hc => ?_, hi.numbered, hi.alive, hi.counted,
      hi.cleaned.keep rfl id (Nat.le_add_right _ _) rfl, hi.ending⟩
    obtain ⟨hsound, hanswered⟩ := hi.cancels i k hk c hc
    exact ⟨hsound.elapse (Nat.le_add_right _ _), hanswered⟩
  | waited status =>
    rw [runningStep] at h
    split at h
    next hnone =>
      cases h
      refine hi.announce (fun e he => ?_) fun hterminal => ?_
      · rw [hnone] at he
        cases he
      · simp only [Meta.terminal, hnone, Option.isSome_none, Bool.false_and,
          Bool.false_eq_true] at hterminal
    · cases h
  | closed st =>
    cases h
    exact hi.announce (fun _ => id) (terminal_closed st)
  | accept =>
    cases h
    exact hi.accept
  | acceptError =>
    cases h
    exact ⟨hi.terminal, hi.cancels, hi.numbered, hi.alive, hi.counted,
      hi.cleaned.keep rfl id (Nat.le_refl _) rfl, nofun⟩
  | request i answer =>
    rw [runningStep] at h
    split at h
    next hk =>
      cases h
      refine hi.setConnection hk rfl fun c hc => ?_
      cases hc
      refine ⟨sound_begin grace s.now answer, .of_stage fun outcome status hstage => ?_⟩
      cases answer <;> cases hstage
    · cases h
  | cancel i act =>
    rw [runningStep] at h
    split at h
    next c hk =>
      obtain ⟨c', hc', rfl⟩ := Option.map_eq_some_iff.mp h
      refine hi.setConnection hk rfl fun d hd => ?_
      cases hd
      exact cancelStep_sound (hi.cancels i _ hk c rfl).1 hi.terminal hc'
    · cases h
  | returns i =>
    rw [runningStep] at h
    split at h
    next hk =>
      cases h
      exact hi.returns hk rfl
    next c hk =>
      split at h
      · cases h
        exact hi.returns hk rfl
      · cases h
    · cases h
  | cleanup => exact hi.cleanup running h
  | shutdown =>
    rw [runningStep] at h
    split at h
    next hsent =>
      cases h
      exact ⟨hi.terminal, hi.cancels, hi.numbered, hi.alive, hi.counted,
        hi.cleaned.keep rfl id (Nat.le_refl _) rfl, fun _ => hsent⟩
    · cases h

/-- The invariant holds in every reachable state. -/
theorem inv_reachable (h : (machine grace ttl).Reachable s) : Inv grace ttl s := by
  refine h.invariant (P := Inv grace ttl) (fun s hinit => ?_) fun s act t _ hi _ hs => inv_step hi hs
  obtain ⟨now, rfl⟩ := hinit
  refine ⟨nofun, nofun, nofun, fun i => ?_, rfl, trivial, nofun⟩
  constructor
  · intro hi
    exact absurd hi (Finset.notMem_empty i)
  · rintro ⟨k, hk, -⟩
    cases hk

/-! ## Main results -/

/-- **The replies of ordinary cancellations.** Over every interleaving of requests with one another
and with the command's end, a cancellation sends SIGTERM first and SIGKILL at most once after it,
not before its grace is over unless a look had found the group gone. Its reply comes when the
session is terminal and a look after its last signal has found no group; it gives the recorded
status, and says that the cancellation won exactly when one of its own signals was taken. -/
theorem cancel_replies_truthful (h : (machine grace ttl).Reachable s) {i : Nat} {k : Connection}
    {c : Cancel} (link : s.connections i = some k) (cancel : k.cancel = some c) :
    (∃ term answer rest, c.calls = ⟨.term, term, answer⟩ :: rest ∧
      (rest = [] ∨ ∃ kill answer, rest = [⟨.kill, kill, answer⟩] ∧ term ≤ kill ∧
        (term + grace ≤ kill ∨ c.vanished = true))) ∧
    ∀ outcome status, c.stage = .replied outcome status →
      s.metadata.terminal = true ∧ s.metadata.status = some status ∧
      (outcome = .cancelWon ↔ ∃ call ∈ c.calls, call.won = true) ∧
      ∃ absent, c.absent = some absent ∧ ∀ call ∈ c.calls, call.now ≤ absent := by
  obtain ⟨hsound, hanswered⟩ := (inv_reachable h).cancels i k link c cancel
  obtain ⟨term, rest, hs⟩ := hsound.signals
  obtain ⟨answer, hcalls⟩ := hs.calls
  refine ⟨⟨term, answer, rest, hcalls, ?_⟩, fun outcome status hstage => ?_⟩
  · rcases hs.rest with hnil | ⟨kill, answer', heq, -, horder, hafter, -⟩
    · exact .inl hnil
    · exact .inr ⟨kill, answer', heq, horder, hafter⟩
  · obtain ⟨hterminal, hstatus, hwon⟩ := hanswered outcome status hstage
    obtain ⟨absent, heq, -, hafter⟩ := hsound.absent (by rw [hstage]; rfl)
    refine ⟨hterminal, hstatus, ?_, absent, heq, hafter⟩
    rw [hwon, hsound.signaled, List.any_eq_true]

/-- SIGTERM is taken, the group stays over the grace, and SIGKILL ends it. -/
theorem cancel_replies_truthful_killed : ∃ (s : State) (c : Cancel),
    s.connections 0 = some (.cancelling c) ∧
    c.stage = .replied .cancelWon ⟨none, some 9⟩ ∧ s.metadata.terminal = true ∧
    s.metadata.status = some ⟨none, some 9⟩ := by
  let labels : List Act := [.accept, .request 0 (.ok true), .cancel 0 .deadline,
    .cancel 0 (.look true), .elapse 3, .cancel 0 (.look true), .cancel 0 (.look true),
    .cancel 0 (.kill (.ok true)), .waited ⟨none, some 9⟩, .closed .stdout, .closed .stderr,
    .cancel 0 (.look false), .cancel 0 .reply]
  have start : (machine 3 300).Reachable { now := 0 } := .init ⟨0, rfl⟩
  have reached := start.run labels rfl
  have hreply := cancel_replies_truthful (i := 0) reached rfl rfl
  obtain ⟨hterminal, hstatus, -⟩ := hreply.2 _ _ rfl
  exact ⟨_, _, rfl, rfl, hterminal, hstatus⟩

/-- **An ordinary session expires only after two polls without a client, the time to live apart.**
When the accept loop has been shut down, the session is terminal, and the cleanup task had found it
terminal with no open connection at two polls, the second at least the time to live after the first;
the counter that it read counts the open connections. So no cancellation was in progress at either
time. A client that comes and goes between the polls does not start the time again. -/
theorem expires_after_ttl (h : (machine grace ttl).Reachable s) :
    s.activeAttachments = s.alive.card ∧
    (∀ i, i ∈ s.alive ↔ ∃ k, s.connections i = some k ∧ k.isOpen = true) ∧
    (s.ending = some .expired → s.metadata.terminal = true ∧
      ∃ p ∈ s.polls, ∃ q ∈ s.polls, p.quiet ∧ q.quiet ∧ p.now + ttl ≤ q.now ∧ q.now ≤ s.now) := by
  have hi := inv_reachable h
  refine ⟨hi.counted, hi.alive, fun hending => ?_⟩
  have hcleaned := hi.cleaned
  unfold State.Cleaned at hcleaned
  rw [hi.ending hending] at hcleaned
  exact ⟨hi.terminal hcleaned.1, hcleaned.2⟩

/-- A client that is connected over the end of the time to live keeps the session until it leaves,
and no longer. -/
theorem expires_after_ttl_client : ∃ s : State, s.ending = some .expired ∧ s.now = 700 ∧
    s.activeAttachments = s.alive.card ∧ s.metadata.terminal = true := by
  let labels : List Act := [.waited ⟨some 0, none⟩, .closed .stdout, .closed .stderr, .cleanup,
    .cleanup, .accept, .elapse 300, .cleanup, .cleanup, .elapse 400, .returns 0, .cleanup, .shutdown]
  have start : (machine 3 300).Reachable { now := 0 } := .init ⟨0, rfl⟩
  have reached := start.run labels rfl
  have hexpired := expires_after_ttl reached
  exact ⟨_, rfl, rfl, hexpired.1, (hexpired.2.2 rfl).1⟩

end Pipekeep.Ordinary
