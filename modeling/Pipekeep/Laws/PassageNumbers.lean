import Pipekeep.Laws.Passage
import Pipekeep.Laws.Supersession

/-!
# Which attempt, link and generation belong together

An attempt has one number in the wrapper, one link, and at most one generation of the broker. The
lock's holder acts for the link whose turn it is, and an attempt that was opened started from what
its link's opening said. `Numbers` is kept by every step.
-/

namespace Pipekeep.Passage

variable {nobuffer : Bool} {s t : State}

/-! ## The wrapper's part -/

/-- The proxy of an attempt goes on, if anything, by one frame. -/
structure Forwards (a a' : Outer.Attempt) : Prop where
  start : a'.start = a.start
  frames : a'.proxy.forwarded = a.proxy.forwarded ∧ a'.proxy.position = a.proxy.position ∨
    ∃ data, a'.proxy.forwarded = a.proxy.forwarded ++ [(a.proxy.position, data)] ∧
      a'.proxy.position = a.proxy.position + data.length

/-- An attempt that did not move has forwarded nothing new. -/
theorem Forwards.refl (a : Outer.Attempt) : Forwards a a := ⟨rfl, .inl ⟨rfl, rfl⟩⟩

/-- Forwarding moves the proxy on by one frame at most. -/
theorem forward_forwards (a : Outer.Attempt) (data rest : List UInt8) :
    Forwards a { a with proxy := a.proxy.forward data, pipe := rest } := by
  refine ⟨rfl, ?_⟩
  dsimp only [Outer.Proxy.forward]
  cases hend : checkedEnd a.proxy.position data.length with
  | error e => exact .inl ⟨rfl, rfl⟩
  | ok position =>
    refine .inr ⟨data, rfl, ?_⟩
    unfold checkedEnd at hend
    split at hend
    · cases hend
      rfl
    · cases hend

/-- A step of the wrapper other than an opening opens no attempt. -/
theorem attempts_forward {outer outer' : Outer.State} {act : Outer.Act}
    (h : Outer.Moved outer act outer') (own : ∀ position eof, act ≠ .opened position eof) (i : Nat) :
    (outer'.attempts i = none → outer.attempts i = none) ∧
      ∀ a', outer'.attempts i = some a' → ∃ a, outer.attempts i = some a ∧ Forwards a a' := by
  have same : outer'.attempts = outer.attempts →
      (outer'.attempts i = none → outer.attempts i = none) ∧
        ∀ a', outer'.attempts i = some a' → ∃ a, outer.attempts i = some a ∧ Forwards a a' := by
    intro heq
    rw [heq]
    exact ⟨id, fun a ha => ⟨a, ha, .refl a⟩⟩
  have update : ∀ {j : Nat} {a b : Outer.Attempt}, outer.attempts j = some a →
      outer'.attempts = Function.update outer.attempts j (some b) → Forwards a b →
      (outer'.attempts i = none → outer.attempts i = none) ∧
        ∀ a', outer'.attempts i = some a' → ∃ a, outer.attempts i = some a ∧ Forwards a a' := by
    intro j a b ha heq hforwards
    rw [heq]
    by_cases hi : i = j
    · subst hi
      rw [Function.update_self]
      refine ⟨fun hnone => ?_, fun a' ha' => ?_⟩
      · cases hnone
      · cases ha'
        exact ⟨a, ha, hforwards⟩
    · rw [Function.update_of_ne hi]
      exact ⟨id, fun a ha => ⟨a, ha, .refl a⟩⟩
  cases h with
  | reader moved => cases moved <;> exact same rfl
  | attempt => exact same rfl
  | opened => exact absurd rfl (own _ _)
  | sent current => exact update current rfl ⟨rfl, .inl ⟨rfl, rfl⟩⟩
  | failed current => exact update current rfl ⟨rfl, .inl ⟨rfl, rfl⟩⟩
  | closed proxy => exact update proxy rfl ⟨rfl, .inl ⟨rfl, rfl⟩⟩
  | forwarded proxy => exact update proxy rfl (forward_forwards _ _ _)

/-- Only the run loop numbers attempts, and only an opening is given up for one. -/
theorem attempt_kept {outer outer' : Outer.State} {act : Outer.Act}
    (h : Outer.Moved outer act outer') (plain : act ≠ .attempt) :
    outer'.attempt = outer.attempt ∧ (outer'.opening ≠ none → outer'.opening = outer.opening) := by
  cases h with
  | reader moved => cases moved <;> exact ⟨rfl, fun _ => rfl⟩
  | attempt => exact absurd rfl plain
  | opened => exact ⟨rfl, fun hne => absurd rfl hne⟩
  | _ => exact ⟨rfl, fun _ => rfl⟩

/-! ## Numbers -/

/-- Before its opening is written, an attachment has said nothing. -/
def LinkStage.silent : LinkStage → Bool
  | .asked => true
  | .installed _ => true
  | .applied _ => true
  | .serving _ => false
  | .closed _ => false

/-- What a link knows of its attempt. -/
structure Linked (s : State) (i : Nat) (l : Link) : Prop where
  numbered : i ≤ s.outer.attempt
  drawn : ∀ g, l.stage.generation = some g → g < s.broker.attachment.nextGeneration
  silent : l.stage.silent = true → l.hello = none
  unread : s.outer.attempts i = none → l.read = 0
  opened : ∀ a, s.outer.attempts i = some a →
    (∃ eof, l.hello = some (a.start, eof)) ∧ l.read ≤ a.proxy.forwarded.length

/-- The operation that holds the lock for an attempt is its link's, and a frame is one of an attempt
that was opened. -/
inductive Turn (opened : Prop) (l : Link) : Stdin.Op → Prop
  | opening {g : Nat} (stage : l.stage = .installed g) :
      Turn opened l (.opening g l.asked.start l.asked.eof)
  | frame {g offset : Nat} {data : List UInt8} (stage : l.stage = .serving g) (attempted : opened) :
      Turn opened l (.data g offset data)

structure Numbers (s : State) : Prop where
  attempts : ∀ i a, s.outer.attempts i = some a → i ≤ s.outer.attempt
  opening : s.outer.opening ≠ none → s.outer.attempts s.outer.attempt = none
  links : ∀ i l, s.links i = some l → Linked s i l
  distinct : ∀ i j l m g, s.links i = some l → s.links j = some m →
    l.stage.generation = some g → m.stage.generation = some g → i = j
  turn : ∀ i, s.turn = some i → ∃ op stage l, s.broker.lock = some ⟨op, stage⟩ ∧
    s.links i = some l ∧ Turn (s.outer.attempts i ≠ none) l op
  held : ∀ op stage g, s.broker.lock = some ⟨op, stage⟩ → op.generation = some g →
    s.turn ≠ none

/-- A link keeps what it knows while its attempt goes on and the numbers grow. -/
theorem Linked.keep {i : Nat} {l : Link} (h : Linked s i l)
    (numbered : s.outer.attempt ≤ t.outer.attempt)
    (drawn : s.broker.attachment.nextGeneration ≤ t.broker.attachment.nextGeneration)
    (attempts : (t.outer.attempts i = none → s.outer.attempts i = none) ∧
      ∀ a', t.outer.attempts i = some a' → ∃ a, s.outer.attempts i = some a ∧ Forwards a a') :
    Linked t i l where
  numbered := Nat.le_trans h.numbered numbered
  drawn g hg := Nat.lt_of_lt_of_le (h.drawn g hg) drawn
  silent := h.silent
  unread hnone := h.unread (attempts.1 hnone)
  opened a' ha' := by
    obtain ⟨a, ha, hforwards⟩ := attempts.2 a' ha'
    obtain ⟨hhello, hread⟩ := h.opened a ha
    rw [hforwards.start]
    refine ⟨hhello, Nat.le_trans hread ?_⟩
    rcases hforwards.frames with ⟨heq, -⟩ | ⟨data, heq, -⟩
    · exact Nat.le_of_eq (by rw [heq])
    · rw [heq, List.length_append]
      exact Nat.le_add_right _ _

/-- The attempts of a step that does not touch them. -/
theorem attempts_same (i : Nat) {outer outer' : Outer.State} (h : outer'.attempts = outer.attempts) :
    (outer'.attempts i = none → outer.attempts i = none) ∧
      ∀ a', outer'.attempts i = some a' → ∃ a, outer.attempts i = some a ∧ Forwards a a' := by
  rw [h]
  exact ⟨id, fun a ha => ⟨a, ha, .refl a⟩⟩

/-- Whoever has the turn holds the lock under its link's generation. -/
theorem Turn.generation {opened : Prop} {l : Link} {op : Stdin.Op} (h : Turn opened l op) :
    op.generation = l.stage.generation := by
  cases h with
  | opening stage =>
    rw [stage]
    rfl
  | frame stage =>
    rw [stage]
    rfl

/-! ## The broker's part -/

/-- The lock is taken free, by an operation at its start. -/
theorem step_acquire {b b' : Stdin.State} {op : Stdin.Op}
    (h : Stdin.step nobuffer b (.acquire op) = some b') :
    b.lock = none ∧ b' = { b with lock := some ⟨op, .start⟩ } := by
  simp only [Stdin.step] at h
  split at h
  · rename_i hfree
    cases h
    exact ⟨hfree.1, rfl⟩
  · cases h

/-- An installation changes the attachments alone. -/
theorem step_install {b b' : Stdin.State} {generation : Nat} {a : AttachmentState}
    (lease : b.attachment.install false = .ok (generation, a))
    (h : Stdin.step nobuffer b (.install false) = some b') : b' = { b with attachment := a } := by
  simp only [Stdin.step, lease] at h
  split at h
  · cases h
  · cases h
    rfl

/-- A written hello opens the receipts. -/
theorem step_hello {b b' : Stdin.State} {generation : Nat}
    (h : Stdin.step nobuffer b (.hello generation) = some b') :
    b' = b.openReceipts generation := by
  simp only [Stdin.step] at h
  split at h
  · cases h
    rfl
  · cases h

/-- A release frees the lock and does no more. -/
theorem step_release {b b' : Stdin.State} (h : Stdin.step nobuffer b .release = some b') :
    b' = { b with lock := none } := by
  simp only [Stdin.step] at h
  split at h
  · split at h
    · cases h
    · cases h
      rfl
  · cases h

/-- A label that takes no lock leaves it with its operation. -/
theorem step_free {b b' : Stdin.State} {act : Stdin.Act} (hi : Stdin.Inv b)
    (alone : free act = true) (h : Stdin.step nobuffer b act = some b') :
    b'.lock.map Stdin.Holder.op = b.lock.map Stdin.Holder.op := by
  by_cases hcritical : ∃ poll, act = .critical poll
  · obtain ⟨poll, rfl⟩ := hcritical
    obtain ⟨op, stage, t', stage', hlock, -, rfl⟩ := Stdin.critical_inv hi.coherent h
    rw [hlock]
    rfl
  · rcases (Stdin.step_quiet (fun poll heq => hcritical ⟨poll, heq⟩) h).lock with
      hsame | ⟨hnone, -⟩ | ⟨op, rfl, -⟩
    · rw [hsame]
    · cases act with
      | clear g =>
        simp only [Stdin.step] at h
        split at h <;> cases h
        rfl
      | takeReceipt g =>
        simp only [Stdin.step] at h
        split at h <;> cases h <;> rfl
      | critical poll => exact absurd ⟨poll, rfl⟩ hcritical
      | waited =>
        simp only [Stdin.step] at h
        split at h <;> cases h
        rfl
      | _ => cases alone
    · cases alone

/-- A returning operation leaves the frames that its link has read. -/
@[simp] theorem Link.returned_read (l : Link) (stage : Stdin.Stage) :
    (l.returned stage).read = l.read := by
  unfold Link.returned
  split <;> rfl

/-- A returning operation leaves what its link was told. -/
@[simp] theorem Link.returned_hello (l : Link) (stage : Stdin.Stage) :
    (l.returned stage).hello = l.hello := by
  unfold Link.returned
  split <;> rfl

/-- A returning operation leaves its link's generation. -/
@[simp] theorem Link.returned_generation (l : Link) (stage : Stdin.Stage) :
    (l.returned stage).stage.generation = l.stage.generation := by
  unfold Link.returned
  split <;> simp_all [LinkStage.generation]

/-! ## The numbers of a run -/

/-- A link that was replaced is the new one. -/
theorem setLink_self {i : Nat} {k l : Link} (h : (s.setLink i k).links i = some l) : k = l := by
  have h : Function.update s.links i (some k) i = some l := h
  rw [Function.update_self] at h
  exact Option.some.inj h

/-- The other links stand. -/
theorem setLink_other {i j : Nat} {k l : Link} (hne : i ≠ j)
    (h : (s.setLink j k).links i = some l) : s.links i = some l := by
  have h : Function.update s.links j (some k) i = some l := h
  rw [Function.update_of_ne hne] at h
  exact h

/-- The turn of an attempt whose link and attempt stand. -/
theorem Numbers.turn_keep (hn : Numbers s)
    (lock : t.broker.lock.map Stdin.Holder.op = s.broker.lock.map Stdin.Holder.op)
    (kept : ∀ i l g, s.turn = some i → s.links i = some l →
      (l.stage = .installed g ∨ l.stage = .serving g) → t.links i = some l)
    (attempts : ∀ i, t.outer.attempts i = none → s.outer.attempts i = none) :
    ∀ i, s.turn = some i → ∃ op stage l, t.broker.lock = some ⟨op, stage⟩ ∧
      t.links i = some l ∧ Turn (t.outer.attempts i ≠ none) l op := by
  intro i hi
  obtain ⟨op, stage, l, hlock, hl, hturn⟩ := hn.turn i hi
  rw [hlock] at lock
  obtain ⟨⟨op', stage'⟩, hlock', rfl⟩ := Option.map_eq_some_iff.mp lock
  cases hturn with
  | opening hstage =>
    exact ⟨_, stage', l, hlock', kept i l _ hi hl (.inl hstage), .opening hstage⟩
  | frame hstage hopened =>
    exact ⟨_, stage', l, hlock', kept i l _ hi hl (.inr hstage),
      .frame hstage fun hnone => hopened (attempts i hnone)⟩

/-- Nobody but the turn's attempt holds the lock with an attachment's operation. -/
theorem Numbers.held_keep (hn : Numbers s)
    (lock : t.broker.lock.map Stdin.Holder.op = s.broker.lock.map Stdin.Holder.op) :
    ∀ op stage g, t.broker.lock = some ⟨op, stage⟩ → op.generation = some g → s.turn ≠ none := by
  intro op stage g hlock hg
  rw [hlock] at lock
  obtain ⟨⟨op', stage'⟩, hlock', rfl⟩ := Option.map_eq_some_iff.mp lock.symm
  exact hn.held op' stage' g hlock' hg

/-- While the lock is free it is nobody's turn. -/
theorem Numbers.idle (hn : Numbers s) (hfree : s.broker.lock = none) : s.turn = none := by
  cases hturn : s.turn with
  | none => rfl
  | some i =>
    obtain ⟨op, stage, l, hlock, -⟩ := hn.turn i hturn
    rw [hfree] at hlock
    cases hlock

/-- Changing a link for one of the same generation keeps the generations apart. -/
theorem distinct_update {links : Nat → Option Link} {i : Nat} {k : Link}
    (distinct : ∀ i j l m g, links i = some l → links j = some m →
      l.stage.generation = some g → m.stage.generation = some g → i = j)
    (fresh : ∀ j m g, j ≠ i → links j = some m → m.stage.generation = some g →
      k.stage.generation ≠ some g) :
    ∀ j j' l m g, Function.update links i (some k) j = some l →
      Function.update links i (some k) j' = some m →
      l.stage.generation = some g → m.stage.generation = some g → j = j' := by
  intro j j' l m g hl hm hlg hmg
  by_cases hj : j = i
  · by_cases hj' : j' = i
    · exact hj.trans hj'.symm
    · subst hj
      rw [Function.update_self] at hl
      cases hl
      rw [Function.update_of_ne hj'] at hm
      exact absurd hlg (fresh j' m g hj' hm hmg)
  · rw [Function.update_of_ne hj] at hl
    by_cases hj' : j' = i
    · subst hj'
      rw [Function.update_self] at hm
      cases hm
      exact absurd hmg (fresh j l g hj hl hlg)
    · rw [Function.update_of_ne hj'] at hm
      exact distinct j j' l m g hl hm hlg hmg

/-- The wrapper's own steps keep the numbers. -/
theorem Numbers.outer (hn : Numbers s) {outer : Outer.State} {act : Outer.Act}
    (plain : act ≠ .attempt) (own : ∀ position eof, act ≠ .opened position eof)
    (h : Outer.Moved s.outer act outer) : Numbers { s with outer := outer } := by
  obtain ⟨hattempt, hopening⟩ := attempt_kept h plain
  have hforward := attempts_forward h own
  refine ⟨fun i a ha => ?_, fun hne => ?_, fun i l hl => ?_, hn.distinct, ?_, hn.held⟩
  · obtain ⟨a', ha', -⟩ := (hforward i).2 a ha
    exact hattempt ▸ hn.attempts i a' ha'
  · have hnone := hn.opening (hopening hne ▸ hne)
    show outer.attempts outer.attempt = none
    rw [hattempt]
    cases hget : outer.attempts s.outer.attempt with
    | none => rfl
    | some a =>
      obtain ⟨a', ha', -⟩ := (hforward _).2 a hget
      rw [hnone] at ha'
      cases ha'
  · exact (hn.links i l hl).keep (Nat.le_of_eq hattempt.symm) (Nat.le_refl _) (hforward i)
  · exact hn.turn_keep (t := { s with outer := outer }) rfl (fun _ _ _ _ hl _ => hl)
      fun i => (hforward i).1

/-- **A new attempt** takes a number that no attempt or link has had. -/
theorem Numbers.attempt (hn : Numbers s) {outer : Outer.State}
    (h : Outer.step s.outer .attempt = some outer) :
    Numbers (State.ask { s with outer := outer }) := by
  cases h
  have hbelow : ∀ i, s.links i ≠ none → i ≠ s.outer.attempt + 1 := by
    rintro i hi rfl
    cases hl : s.links (s.outer.attempt + 1) with
    | none => exact hi hl
    | some l => exact Nat.not_succ_le_self _ (hn.links _ l hl).numbered
  have hunopened : s.outer.attempts (s.outer.attempt + 1) = none := by
    cases ha : s.outer.attempts (s.outer.attempt + 1) with
    | none => rfl
    | some a => exact absurd (hn.attempts _ a ha) (Nat.not_succ_le_self _)
  refine ⟨fun i a ha => Nat.le_succ_of_le (hn.attempts i a ha), fun _ => hunopened,
    ?_, ?_, ?_, hn.held⟩
  · refine Parties.forall_update_some ⟨Nat.le_refl _, nofun, fun _ => rfl, fun _ => rfl, ?_⟩
      fun j l _ hl => (hn.links j l hl).keep (Nat.le_succ _) (Nat.le_refl _)
        (attempts_same j rfl)
    intro a ha
    have ha : s.outer.attempts (s.outer.attempt + 1) = some a := ha
    rw [hunopened] at ha
    cases ha
  · exact distinct_update hn.distinct (fun _ _ _ _ _ _ => nofun)
  · refine hn.turn_keep rfl (fun i l _ _ hl _ => ?_) fun _ => id
    have hne : i ≠ s.outer.attempt + 1 := hbelow i (by rw [hl]; simp)
    exact (Function.update_of_ne hne _ _).trans hl

/-- The attempts after an opening. -/
theorem attempts_opened {outer outer' : Outer.State} {position : Nat} {eof : Bool}
    (h : Outer.step outer (.opened position eof) = some outer') :
    ∃ asked, outer.opening = some asked ∧ outer'.attempt = outer.attempt ∧
      outer'.opening = none ∧ outer'.buffer = outer.buffer ∧ outer'.input = outer.input ∧
      outer'.attempts = Function.update outer.attempts outer.attempt
        (some (Outer.Attempt.new asked position eof)) := by
  obtain ⟨asked, hasked, rfl⟩ := Option.map_eq_some_iff.mp h
  exact ⟨asked, hasked, rfl, rfl, rfl, rfl, rfl⟩

/-- **An opening** starts its attempt where the hello says. -/
theorem Numbers.opened (hn : Numbers s) {l : Link} {position : Nat} {eof : Bool}
    {outer : Outer.State} (link : s.links s.outer.attempt = some l)
    (hello : l.hello = some (position, eof))
    (h : Outer.step s.outer (.opened position eof) = some outer) :
    Numbers { s with outer := outer } := by
  obtain ⟨asked, hopening, hattempt, hnone, -, -, hattempts⟩ := attempts_opened h
  have hunopened : s.outer.attempts s.outer.attempt = none := hn.opening (by rw [hopening]; simp)
  have others : ∀ i, i ≠ s.outer.attempt → outer.attempts i = s.outer.attempts i := by
    intro i hi
    rw [hattempts, Function.update_of_ne hi]
  refine ⟨?_, fun hne => absurd hnone hne, fun i k hk => ?_, hn.distinct, ?_, hn.held⟩
  · show ∀ i a, outer.attempts i = some a → i ≤ outer.attempt
    rw [hattempts, hattempt]
    exact Parties.forall_update_some (Nat.le_refl _) fun j a _ ha => hn.attempts j a ha
  · by_cases hi : i = s.outer.attempt
    · subst hi
      have hk : s.links s.outer.attempt = some k := hk
      rw [link] at hk
      cases hk
      have hlinked := hn.links _ l link
      refine ⟨Nat.le_of_eq hattempt.symm, hlinked.drawn, hlinked.silent, fun hno => ?_,
        fun a ha => ?_⟩
      · exact hlinked.unread hunopened
      · have ha : outer.attempts s.outer.attempt = some a := ha
        rw [hattempts, Function.update_self] at ha
        cases ha
        rw [hlinked.unread hunopened]
        exact ⟨⟨eof, hello⟩, Nat.zero_le _⟩
    · exact (hn.links i k hk).keep (Nat.le_of_eq hattempt.symm) (Nat.le_refl _)
        ⟨fun hno => (others i hi) ▸ hno, fun a ha => ⟨a, (others i hi) ▸ ha, .refl a⟩⟩
  · refine hn.turn_keep (t := { s with outer := outer }) rfl (fun _ _ _ _ hl _ => hl) fun i hno => ?_
    by_cases hi : i = s.outer.attempt
    · rw [hi]
      exact hunopened
    · exact (others i hi) ▸ hno

/-- A step of the broker that leaves the lock with its operation. -/
theorem Numbers.broker (hn : Numbers s) {broker : Stdin.State}
    (lock : broker.lock.map Stdin.Holder.op = s.broker.lock.map Stdin.Holder.op)
    (drawn : s.broker.attachment.nextGeneration ≤ broker.attachment.nextGeneration) :
    Numbers { s with broker := broker } where
  attempts := hn.attempts
  opening := hn.opening
  links i l hl := (hn.links i l hl).keep (Nat.le_refl _) drawn (attempts_same i rfl)
  distinct := hn.distinct
  turn := hn.turn_keep (t := { s with broker := broker }) lock (fun _ _ _ _ hl _ => hl) fun _ => id
  held := hn.held_keep (t := { s with broker := broker }) lock

/-- A link goes on to another stage, away from the lock. -/
theorem Numbers.setLink (hn : Numbers s) {i : Nat} {l k : Link} (link : s.links i = some l)
    (linked : Linked s i k)
    (generation : ∀ g, k.stage.generation = some g → l.stage.generation = some g ∨
      ∀ j m, s.links j = some m → m.stage.generation ≠ some g)
    (elsewhere : s.turn ≠ some i) : Numbers (s.setLink i k) where
  attempts := hn.attempts
  opening := hn.opening
  links := Parties.forall_update_some
    (linked.keep (Nat.le_refl _) (Nat.le_refl _) (attempts_same i rfl))
    fun j m _ hm => (hn.links j m hm).keep (Nat.le_refl _) (Nat.le_refl _) (attempts_same j rfl)
  distinct := by
    refine distinct_update hn.distinct fun j m g hne hm hg hk => ?_
    rcases generation g hk with hold | hfresh
    · exact hne (hn.distinct j i m l g hm link hg hold)
    · exact hfresh j m hm hg
  turn := by
    refine hn.turn_keep (t := s.setLink i k) rfl (fun j m g hj hm _ => ?_) fun _ => id
    have hne : j ≠ i := by
      rintro rfl
      exact elsewhere hj
    exact (Function.update_of_ne hne _ _).trans hm
  held := hn.held

/-- An operation takes the lock, for an attempt or for none. -/
theorem Numbers.acquire (hn : Numbers s) (turn : Option Nat) (op : Stdin.Op)
    (mine : ∀ i, turn = some i → ∃ l, s.links i = some l ∧ Turn (s.outer.attempts i ≠ none) l op)
    (attached : op.generation ≠ none → turn ≠ none) :
    Numbers { s with broker := { s.broker with lock := some ⟨op, .start⟩ }, turn := turn } where
  attempts := hn.attempts
  opening := hn.opening
  links i l hl := (hn.links i l hl).keep (Nat.le_refl _) (Nat.le_refl _) (attempts_same i rfl)
  distinct := hn.distinct
  turn i hi := by
    obtain ⟨l, hl, hturn⟩ := mine i hi
    exact ⟨op, .start, l, rfl, hl, hturn⟩
  held op' stage g hlock hg := by
    cases hlock
    exact attached (by rw [hg]; simp)

/-- The lock is given back, and the turn's link goes on. -/
theorem Numbers.release (hn : Numbers s) (stage : Stdin.Stage) :
    Numbers { s with
      broker := { s.broker with lock := none }
      links := fun i => if s.turn = some i then (s.links i).map (·.returned stage) else s.links i
      turn := none } := by
  have before : ∀ i l, (if s.turn = some i then (s.links i).map (·.returned stage)
      else s.links i) = some l → ∃ l', s.links i = some l' ∧ (l = l' ∨ l = l'.returned stage) := by
    intro i l hl
    split at hl
    · obtain ⟨l', hl', rfl⟩ := Option.map_eq_some_iff.mp hl
      exact ⟨l', hl', .inr rfl⟩
    · exact ⟨l, hl, .inl rfl⟩
  refine ⟨hn.attempts, hn.opening, fun i l hl => ?_, fun i j l m g hl hm hlg hmg => ?_, nofun, nofun⟩
  · obtain ⟨l', hl', rfl | rfl⟩ := before i l hl
    · exact (hn.links i _ hl').keep (Nat.le_refl _) (Nat.le_refl _) (attempts_same i rfl)
    · have hlinked := hn.links i l' hl'
      refine ⟨hlinked.numbered, fun g hg => hlinked.drawn g (l'.returned_generation stage ▸ hg),
        fun hsilent => ?_, fun hnone => ?_, fun a ha => ?_⟩
      · have hback : l'.stage.silent = true ∧ (l'.returned stage).hello = l'.hello := by
          unfold Link.returned at hsilent ⊢
          split at hsilent <;> simp_all [LinkStage.silent]
        rw [hback.2]
        exact hlinked.silent hback.1
      · rw [Link.returned_read]
        exact hlinked.unread hnone
      · rw [Link.returned_read, Link.returned_hello]
        exact hlinked.opened a ha
  · obtain ⟨l', hl', hl⟩ := before i l hl
    obtain ⟨m', hm', hm⟩ := before j m hm
    have hlg : l'.stage.generation = some g := by
      rcases hl with rfl | rfl
      · exact hlg
      · exact l'.returned_generation stage ▸ hlg
    have hmg : m'.stage.generation = some g := by
      rcases hm with rfl | rfl
      · exact hmg
      · exact m'.returned_generation stage ▸ hmg
    exact hn.distinct i j l' m' g hl' hm' hlg hmg

/-- It is not the turn of a link that asks, waits for its opening to be written, or is closed. -/
theorem Numbers.elsewhere (hn : Numbers s) {i : Nat} {l : Link} (link : s.links i = some l)
    (stage : ∀ g, l.stage ≠ .installed g ∧ l.stage ≠ .serving g) : s.turn ≠ some i := by
  intro hturn
  obtain ⟨op, _, l', _, hl', hmine⟩ := hn.turn i hturn
  rw [link] at hl'
  cases hl'
  cases hmine with
  | opening hstage => exact (stage _).1 hstage
  | frame hstage => exact (stage _).2 hstage

/-- Every step keeps the numbers. -/
theorem numbers_step (hi : Stdin.Inv s.broker) (hn : Numbers s) (h : Moved nobuffer s t) :
    Numbers t := by
  cases h with
  | outer plain own wrapper => exact hn.outer plain own (Outer.step_moved wrapper)
  | attempt wrapper => exact hn.attempt wrapper
  | opened link hello wrapper => exact hn.opened link hello wrapper
  | free alone hstep =>
    exact hn.broker (step_free hi alone hstep) (Stdin.step_nextGeneration hi.coherent hstep)
  | reaped hstep =>
    obtain ⟨-, rfl⟩ := step_acquire hstep
    exact hn.acquire none .reap nofun (fun hg => absurd rfl hg)
  | @installed i g l a broker link asked lease hstep =>
    have hbroker := step_install lease hstep
    obtain ⟨-, hg, hnext, -⟩ := AttachmentState.install_eq_ok lease
    have hnumbers : Numbers { s with broker := broker } := by
      subst hbroker
      exact hn.broker rfl (by show _ ≤ a.nextGeneration; omega)
    have hlinked := hnumbers.links i l link
    refine hnumbers.setLink link ⟨hlinked.numbered, fun g' hg' => ?_, fun _ => hlinked.silent
      (by rw [asked]; rfl), hlinked.unread, hlinked.opened⟩ (fun g' hg' => .inr fun j m hm hmg => ?_)
      (hnumbers.elsewhere link (by simp [asked]))
    · cases hg'
      subst hbroker
      show g < a.nextGeneration
      omega
    · cases hg'
      have := (hn.links j m hm).drawn g hmg
      omega
  | @refused i l link asked =>
    have hlinked := hn.links i l link
    exact hn.setLink link ⟨hlinked.numbered, nofun, nofun, hlinked.unread, hlinked.opened⟩
      (fun _ hg => nomatch hg) (hn.elsewhere link (by simp [asked]))
  | @opening i g l broker link installed hstep =>
    obtain ⟨-, rfl⟩ := step_acquire hstep
    refine hn.acquire (some i) (.opening g l.asked.start l.asked.eof) (fun j hj => ?_)
      (fun _ => by simp)
    cases hj
    exact ⟨l, link, .opening installed⟩
  | @hello i g l broker link applied current hstep =>
    have hnumbers : Numbers { s with broker := broker } := by
      rw [step_hello hstep]
      exact hn.broker rfl (Nat.le_refl _)
    have hlinked := hnumbers.links i l link
    refine hnumbers.setLink link ⟨hlinked.numbered, fun g' hg' => hlinked.drawn g' ?_, nofun,
      hlinked.unread, fun a ha => ?_⟩ (fun g' hg' => .inl ?_)
      (hnumbers.elsewhere link (by simp [applied]))
    · rw [applied]
      exact hg'
    · -- an attempt that was opened has had its opening
      obtain ⟨⟨eof, hhello⟩, -⟩ := hlinked.opened a ha
      rw [hlinked.silent (by rw [applied]; rfl)] at hhello
      cases hhello
    · rw [applied]
      exact hg'
  | @frame i g offset l a data broker link serving attempt next hstep =>
    obtain ⟨hfree, rfl⟩ := step_acquire hstep
    have hlinked := hn.links i l link
    have hread : l.read + 1 ≤ a.proxy.forwarded.length := (List.getElem?_eq_some_iff.mp next).1
    have hnumbers : Numbers (s.setLink i { l with read := l.read + 1 }) := by
      refine hn.setLink link ⟨hlinked.numbered, hlinked.drawn, hlinked.silent, fun hnone => ?_,
        fun a' ha' => ?_⟩ (fun g' hg' => .inl hg') (by rw [hn.idle hfree]; simp)
      · rw [attempt] at hnone
        cases hnone
      · rw [attempt] at ha'
        cases ha'
        exact ⟨(hlinked.opened a attempt).1, hread⟩
    refine hnumbers.acquire (some i) (.data g offset data) (fun j hj => ?_) (fun _ => by simp)
    cases hj
    exact ⟨_, Function.update_self _ _ _, .frame serving (by
      show s.outer.attempts i ≠ none
      rw [attempt]
      simp)⟩
  | control reported hstep =>
    obtain ⟨-, rfl⟩ := step_acquire hstep
    exact hn.acquire none (.control _) nofun (fun hg => absurd rfl hg)
  | @released holder broker held hstep =>
    rw [step_release hstep]
    exact hn.release holder.stage
  | @closed i l link elsewhere =>
    have hlinked := hn.links i l link
    exact hn.setLink link ⟨hlinked.numbered, hlinked.drawn, nofun, hlinked.unread, hlinked.opened⟩
      (fun _ hg => .inl hg) elsewhere

end Pipekeep.Passage
