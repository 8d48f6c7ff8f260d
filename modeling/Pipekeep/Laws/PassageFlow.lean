import Pipekeep.Laws.PassageNumbers

/-!
# What is in flight between local stdin and the child

While a buffered session serves an attempt and its child reads, the bytes of the attempt are with
the child, in the frame that is being accepted, in frames that have not been read, or in the
transport, and nowhere else.
-/

namespace Pipekeep.Passage

variable {s t : State}

/-! ## Frames -/

/-- How many bytes a list of frames carries. -/
def span : List (Nat × List UInt8) → Nat
  | [] => 0
  | frame :: frames => frame.2.length + span frames

@[simp] theorem span_nil : span [] = 0 := rfl

@[simp] theorem span_cons (frame : Nat × List UInt8) (frames : List (Nat × List UInt8)) :
    span (frame :: frames) = frame.2.length + span frames := rfl

@[simp] theorem span_append (frames frames' : List (Nat × List UInt8)) :
    span (frames ++ frames') = span frames + span frames' := by
  induction frames with
  | nil => simp
  | cons frame frames ih => simp [ih, Nat.add_assoc]

/-- The frame after the first ones ends where the rest of the frames begins. -/
theorem span_next {lo hi read offset : Nat} {frames : List (Nat × List UInt8)} {data : List UInt8}
    (h : Outer.Contiguous lo frames hi) (next : frames[read]? = some (offset, data)) :
    offset + data.length + span (frames.drop (read + 1)) = hi ∧
      span (frames.drop read) = data.length + span (frames.drop (read + 1)) := by
  induction frames generalizing lo read with
  | nil => cases next
  | cons frame frames ih =>
    obtain ⟨rfl, hrest⟩ := h
    cases read with
    | zero =>
      cases next
      have hspan : ∀ {lo : Nat}, Outer.Contiguous lo frames hi → lo + span frames = hi := by
        clear ih hrest
        induction frames with
        | nil =>
          intro lo h
          exact h
        | cons frame frames ih =>
          intro lo h
          obtain ⟨rfl, hrest⟩ := h
          have := ih hrest
          rw [span_cons]
          omega
      rw [List.drop_succ_cons, List.drop_zero, List.drop_zero]
      exact ⟨hspan hrest, span_cons _ _⟩
    | succ read =>
      rw [List.getElem?_cons_succ] at next
      rw [List.drop_succ_cons, List.drop_succ_cons]
      exact ih hrest next

/-! ## The frame in hand -/

/-- Everything of a frame has been accepted. -/
def through : Stdin.Stage → Bool
  | .publish _ false => true
  | .done => true
  | _ => false

/-- How far a frame has been accepted. -/
structure Accepting (offset length : Nat) (position : Nat) (stage : Stdin.Stage) : Prop where
  lower : offset ≤ position
  upper : position ≤ offset + length
  through : through stage = true → position = offset + length
  current : stage ≠ .superseded

/-- A section of a frame accepts it further, as long as its attachment and the pipe stand. -/
theorem data_section {b b' : Stdin.State} {g offset : Nat} {data : List UInt8} {poll : Stdin.Poll}
    {stage : Stdin.Stage} (current : b.attachment.isCurrent g = true)
    (ha : Accepting offset data.length b.metadata.stdinPosition .start) (piped : b'.childStdin = true)
    (h : Stdin.criticalSection false b (.data g offset data) poll .start = some (b', stage)) :
    Accepting offset data.length b'.metadata.stdinPosition stage := by
  have same : ∀ {stage}, through stage = false → stage ≠ .superseded →
      Accepting offset data.length b.metadata.stdinPosition stage := by
    intro stage hthrough hcurrent
    refine ⟨ha.lower, ha.upper, fun h => ?_, hcurrent⟩
    rw [hthrough] at h
    cases h
  cases data with
  | nil =>
    have h := Option.some.inj h
    unfold Stdin.emptySection at h
    rw [if_pos current] at h
    split at h
    · cases h
      exact same rfl nofun
    · cases h
      simp only [Bool.and_false, Bool.false_eq_true, if_false]
      have hupper := ha.upper
      have hlower := ha.lower
      rw [List.length_nil] at hupper ⊢
      exact ⟨hlower, hupper, fun _ => by omega, nofun⟩
  | cons x xs =>
    have h : Stdin.pollSection false b g offset (x :: xs) poll = some (b', stage) := h
    unfold Stdin.pollSection at h
    rw [if_pos current] at h
    split at h
    · cases h
      exact same rfl nofun
    · rename_i start logical hstart
      have hstart := Stdin.stdinFrameStartLocked_eq_ok hstart
      have hbegin := hstart.start_eq
      have hlogical := hstart.logical_eq
      have hlower := ha.lower
      have hupper := ha.upper
      split at h
      · rename_i hduplicate
        cases h
        exact ⟨hlower, hupper, fun _ => by omega, nofun⟩
      · split at h
        · rename_i hclosed
          cases h
          rw [piped] at hclosed
          cases hclosed
        · split at h
          · cases h
            exact same rfl nofun
          · cases h
            exact same rfl nofun
          · cases h
            exact same rfl nofun
          · split at h
            · rename_i hcount
              cases h
              -- the pipe still stands, so this write did not reach the declared end
              have hagain := piped
              dsimp only at hagain ⊢
              refine ⟨by omega, by omega, fun hthrough => ?_, nofun⟩
              rw [hagain] at hthrough
              cases hthrough
            · cases h

/-! ## The invariant -/

/-- The bytes of an attempt below `hi` have been read by the broker: what is left of them is in the
frame in hand. -/
structure InFlight (s : State) (i g : Nat) (l : Link) (a : Outer.Attempt) (hi : Nat) : Prop where
  frames : hi + span (a.proxy.forwarded.drop l.read) = a.proxy.position
  idle : s.turn ≠ some i → s.broker.metadata.stdinPosition = hi
  hand : ∀ offset data stage, s.turn = some i →
    s.broker.lock = some ⟨.data g offset data, stage⟩ → offset + data.length = hi ∧
      Accepting offset data.length s.broker.metadata.stdinPosition stage

/-- The bytes of a link's attempt are counted. -/
structure Counted (s : State) (i g : Nat) (l : Link) : Prop where
  unopened : s.outer.attempts i = none →
    ∃ eof, l.hello = some (s.broker.metadata.stdinPosition, eof)
  opened : ∀ a, s.outer.attempts i = some a → ∃ hi, InFlight s i g l a hi

/-- Where a current attachment serves an attempt and the pipe stands, its bytes are counted. -/
def Flow (s : State) : Prop :=
  ∀ i g l, s.links i = some l → l.stage = .serving g →
    s.broker.attachment.isCurrent g = true → s.broker.childStdin = true → Counted s i g l

theorem Counted.congr {i g : Nat} {l : Link} (h : Counted s i g l)
    (attempts : t.outer.attempts i = s.outer.attempts i)
    (position : t.broker.metadata.stdinPosition = s.broker.metadata.stdinPosition)
    (turn : t.turn = some i ↔ s.turn = some i)
    (lock : s.turn = some i → t.broker.lock = s.broker.lock) : Counted t i g l where
  unopened hnone := by
    rw [position]
    exact h.unopened (attempts ▸ hnone)
  opened a ha := by
    obtain ⟨hi, hflight⟩ := h.opened a (attempts ▸ ha)
    refine ⟨hi, hflight.frames, fun hidle => ?_, fun offset data stage hturn hlock => ?_⟩
    · rw [position]
      exact hflight.idle fun h => hidle (turn.mpr h)
    · have hturn := turn.mp hturn
      rw [position]
      exact hflight.hand offset data stage hturn (lock hturn ▸ hlock)

/-- The proxy forwards a frame, and the bytes move from the transport to the frames. -/
theorem Counted.outer {i g : Nat} {l : Link} {outer : Outer.State} {act : Outer.Act}
    (h : Counted s i g l) (linked : Linked s i l) (own : ∀ position eof, act ≠ .opened position eof)
    (moved : Outer.Moved s.outer act outer) : Counted { s with outer := outer } i g l where
  unopened hnone := h.unopened ((attempts_forward moved own i).1 hnone)
  opened a' ha' := by
    obtain ⟨a, ha, hforwards⟩ := (attempts_forward moved own i).2 a' ha'
    obtain ⟨hi, hflight⟩ := h.opened a ha
    refine ⟨hi, ?_, hflight.idle, hflight.hand⟩
    have hframes := hflight.frames
    rcases hforwards.frames with ⟨heq, hposition⟩ | ⟨data, heq, hposition⟩
    · rw [heq, hposition]
      exact hframes
    · rw [heq, hposition, List.drop_append_of_le_length (linked.opened a ha).2]
      simp only [span_append, span_cons, span_nil]
      omega

/-- A pipe that stands has stood. -/
theorem piped_before {b b' : Stdin.State} {act : Stdin.Act} (hi : Stdin.Inv b)
    (h : Stdin.step false b act = some b') (piped : b'.childStdin = true) : b.childStdin = true := by
  by_cases hcritical : ∃ poll, act = .critical poll
  · obtain ⟨poll, rfl⟩ := hcritical
    obtain ⟨op, stage, t', stage', _, hcrit, rfl⟩ := Stdin.critical_inv hi.coherent h
    cases hcrit with
    | @moved m childStdin _ _ _ _ _ hclose =>
      have piped : childStdin = true := piped
      rcases hclose with ⟨rfl, -⟩ | ⟨rfl, -⟩
      · exact piped
      · exact (Bool.and_eq_true_iff.mp piped).1
    | wrote _ hopen _ _ _ _ _ _ => exact hopen
    | reaped => cases piped
    | closed => cases piped
    | published _ => exact ((Stdin.publishReceipt_metadata b _ _).2.1).symm.trans piped
    | _ => exact piped
  · exact (Stdin.step_quiet (fun poll heq => hcritical ⟨poll, heq⟩) h).childStdin ▸ piped

/-- A lease that is held was held before, when its generation was drawn by then. -/
theorem current_before {b b' : Stdin.State} {act : Stdin.Act} {g : Nat} (hi : Stdin.Inv b)
    (h : Stdin.step false b act = some b') (drawn : g < b.attachment.nextGeneration)
    (current : b'.attachment.isCurrent g = true) : b.attachment.isCurrent g = true := by
  rcases Stdin.step_attachment hi.coherent h with heq | ⟨force, g', -, hlease⟩ | ⟨g', -, heq⟩
  · rw [heq] at current
    exact current
  · exact (AttachmentState.Moved.installed hlease).isCurrent drawn current
  · rw [heq] at current
    exact (AttachmentState.Moved.cleared g').isCurrent drawn current

/-- A link that goes on serving was given the lock back by a frame that went through or found its
attachment superseded. -/
theorem returned_serving {l : Link} {stage : Stdin.Stage} {g : Nat}
    (h : (l.returned stage).stage = .serving g) :
    l.stage = .serving g ∧ (stage = .done ∨ stage = .superseded) := by
  unfold Link.returned at h
  split at h
  · cases h
  · rename_i hstage
    cases h
    exact ⟨hstage, .inl rfl⟩
  · rename_i hstage
    cases h
    exact ⟨hstage, .inr rfl⟩
  · cases h

/-- A label that takes no lock and is no section leaves the lock alone. -/
theorem step_free_lock {b b' : Stdin.State} {act : Stdin.Act} (alone : free act = true)
    (noncritical : ∀ poll, act ≠ .critical poll) (h : Stdin.step false b act = some b') :
    b'.lock = b.lock := by
  cases act with
  | clear g =>
    simp only [Stdin.step] at h
    split at h <;> cases h
    rfl
  | takeReceipt g =>
    simp only [Stdin.step] at h
    split at h <;> cases h <;> rfl
  | critical poll => exact absurd rfl (noncritical poll)
  | waited =>
    simp only [Stdin.step] at h
    split at h <;> cases h
    rfl
  | _ => cases alone

/-- A section step, with the section itself. -/
theorem critical_section {b b' : Stdin.State} {poll : Stdin.Poll}
    (h : Stdin.step false b (.critical poll) = some b') : ∃ op stage m stage',
      b.lock = some ⟨op, stage⟩ ∧ Stdin.criticalSection false b op poll stage = some (m, stage') ∧
        b' = { m with lock := some ⟨op, stage'⟩ } := by
  simp only [Stdin.step] at h
  split at h
  · rename_i holder hlock
    split at h
    · rename_i m stage' hsection
      cases h
      exact ⟨holder.op, holder.stage, m, stage', hlock, hsection, rfl⟩
    · cases h
  · cases h

/-- Whoever else holds the lock of a buffered session does not move the position. -/
theorem position_elsewhere {i g : Nat} {l : Link} {op : Stdin.Op} {poll : Stdin.Poll}
    {stage stage' : Stdin.Stage} {m : Stdin.State} (hi : Stdin.Inv s.broker) (hn : Numbers s)
    (link : s.links i = some l) (generation : l.stage.generation = some g)
    (current : s.broker.attachment.isCurrent g = true) (elsewhere : s.turn ≠ some i)
    (lock : s.broker.lock = some ⟨op, stage⟩)
    (h : Stdin.criticalSection false s.broker op poll stage = some (m, stage')) :
    m.metadata.stdinPosition = s.broker.metadata.stdinPosition := by
  cases hop : op.generation with
  | none =>
    cases Stdin.criticalSection_inv hi.coherent h with
    | moved _ _ hposition _ _ => exact hposition rfl
    | wrote hdata =>
      rw [hdata] at hop
      cases hop
    | published hg =>
      rw [hop] at hg
      cases hg
    | _ => rfl
  | some g' =>
    cases hturn : s.turn with
    | none => exact absurd hturn (hn.held op stage g' lock hop)
    | some j =>
      obtain ⟨op', stage₁, k, hlock', hk, hmine⟩ := hn.turn j hturn
      rw [lock] at hlock'
      cases hlock'
      have hg' : k.stage.generation = some g' := hmine.generation ▸ hop
      have hcurrent : s.broker.attachment.isCurrent g' = false := by
        cases hc : s.broker.attachment.isCurrent g' with
        | false => rfl
        | true =>
          rw [AttachmentState.isCurrent_iff] at hc current
          rw [current] at hc
          cases hc
          rw [hn.distinct j i k l g hk link hg' generation] at hturn
          exact absurd hturn elsewhere
      by_cases hstage : stage = .close
      · subst hstage
        cases h
        rfl
      · rw [(Stdin.criticalSection_superseded hop hcurrent hstage h).1]

theorem Counted.critical {i g : Nat} {l : Link} {poll : Stdin.Poll} {broker : Stdin.State}
    (hc : Counted s i g l) (hi : Stdin.Inv s.broker) (hn : Numbers s) (link : s.links i = some l)
    (serving : l.stage = .serving g) (current : s.broker.attachment.isCurrent g = true)
    (h : Stdin.step false s.broker (.critical poll) = some broker)
    (piped : broker.childStdin = true) : Counted { s with broker := broker } i g l := by
  obtain ⟨op, stage, m, stage', hlock, hsection, rfl⟩ := critical_section h
  by_cases hturn : s.turn = some i
  · obtain ⟨op', stage₁, l', hlock', hl', hmine⟩ := hn.turn i hturn
    rw [hlock] at hlock'
    cases hlock'
    rw [link] at hl'
    cases hl'
    cases hmine with
    | opening hstage =>
      rw [serving] at hstage
      cases hstage
    | @frame g' offset data hstage hopened =>
      rw [serving] at hstage
      cases hstage
      refine ⟨fun hnone => absurd hnone hopened, fun a ha => ?_⟩
      obtain ⟨hi, hflight⟩ := hc.opened a ha
      obtain ⟨hend, hacc⟩ := hflight.hand offset data stage hturn hlock
      refine ⟨hi, hflight.frames, fun hidle => absurd hturn hidle, ?_⟩
      rintro offset' data' stage₂ - hlock₂
      cases hlock₂
      refine ⟨hend, ?_⟩
      cases stage with
      | start =>
        have haccepting : Accepting offset data.length m.metadata.stdinPosition stage' :=
          data_section current hacc piped hsection
        exact haccepting
      | close =>
        cases hsection
        cases piped
      | publish position again =>
        cases hsection
        rw [(Stdin.publishReceipt_metadata s.broker g position).1]
        cases again with
        | false => exact ⟨hacc.lower, hacc.upper, fun _ => hacc.through rfl, nofun⟩
        | true => exact ⟨hacc.lower, hacc.upper, nofun, nofun⟩
      | done => cases hsection
      | superseded => cases hsection
      | failed e => cases hsection
  · refine hc.congr rfl ?_ Iff.rfl fun h => absurd h hturn
    have hposition := position_elsewhere hi hn link (by rw [serving]; rfl) current hturn hlock
      hsection
    exact hposition

/-- Counting goes on while the lock is free and another operation takes it. -/
theorem Counted.acquire {i g : Nat} {l : Link} (hc : Counted s i g l) (hn : Numbers s)
    {broker : Stdin.State} {op : Stdin.Op} {turn : Option Nat}
    (h : Stdin.step false s.broker (.acquire op) = some broker) (elsewhere : turn ≠ some i) :
    Counted { s with broker := broker, turn := turn } i g l := by
  obtain ⟨hfree, rfl⟩ := step_acquire h
  have hidle : s.turn ≠ some i := by
    rw [hn.idle hfree]
    simp
  exact hc.congr rfl rfl ⟨fun hturn => absurd hturn elsewhere, fun hturn => absurd hturn hidle⟩
    fun hturn => absurd hturn hidle

theorem flow_step (hr : Outer.AllNumbered s.outer) (hi : Stdin.Inv s.broker) (hn : Numbers s)
    (hf : Flow s) (h : Moved false s t) : Flow t := by
  intro i g k hk serving current piped
  -- what is read off the state before, when the link has not changed
  have before : ∀ {act l}, Stdin.step false s.broker act = some t.broker → s.links i = some l →
      l.stage = .serving g → Counted s i g l := by
    intro act l hstep hl hserving
    have hdrawn := (hn.links i l hl).drawn g (by rw [hserving]; rfl)
    exact hf i g l hl hserving (current_before hi hstep hdrawn current) (piped_before hi hstep piped)
  cases h with
  | outer _ own wrapper =>
    exact (hf i g k hk serving current piped).outer (hn.links i k hk) own (Outer.step_moved wrapper)
  | @attempt outer wrapper =>
    cases wrapper
    by_cases hi : i = s.outer.attempt + 1
    · subst hi
      have hnew : k = { asked := s.outer.buffer.attachmentState } := by
        have hself := Function.update_self (s.outer.attempt + 1)
          (some ({ asked := s.outer.buffer.attachmentState } : Link)) s.links
        exact Option.some.inj (hk.symm.trans hself)
      rw [hnew] at serving
      cases serving
    · have hold : s.links i = some k := (Function.update_of_ne hi _ _).symm.trans hk
      exact (hf i g k hold serving current piped).congr rfl rfl Iff.rfl fun _ => rfl
  | @opened l position eof outer link hello wrapper =>
    obtain ⟨asked, hopening, -, -, -, -, hattempts⟩ := attempts_opened wrapper
    have hc := hf i g k hk serving current piped
    by_cases hi : i = s.outer.attempt
    · subst hi
      have hunopened := hn.opening (by rw [hopening]; simp)
      have hk : s.links s.outer.attempt = some k := hk
      rw [link] at hk
      cases hk
      obtain ⟨eof', hposition⟩ := hc.unopened hunopened
      rw [hello] at hposition
      cases hposition
      have hturn : s.turn ≠ some s.outer.attempt := by
        intro hturn
        obtain ⟨op, _, l', _, hl', hmine⟩ := hn.turn _ hturn
        rw [link] at hl'
        cases hl'
        cases hmine with
        | opening hstage =>
          rw [serving] at hstage
          cases hstage
        | frame _ hopened => exact hopened hunopened
      refine ⟨fun hnone => ?_, fun a ha => ?_⟩
      · have hnone : outer.attempts s.outer.attempt = none := hnone
        rw [hattempts, Function.update_self] at hnone
        cases hnone
      · have ha : outer.attempts s.outer.attempt = some a := ha
        rw [hattempts, Function.update_self] at ha
        cases ha
        refine ⟨s.broker.metadata.stdinPosition, ?_, fun _ => rfl, fun _ _ _ h => absurd h hturn⟩
        simp only [Outer.Attempt.new, Outer.Proxy.new, List.drop_nil, span_nil, Nat.add_zero]
    · refine hc.congr ?_ rfl Iff.rfl fun _ => rfl
      exact (congrFun hattempts i).trans (Function.update_of_ne hi _ _)
  | @free act broker alone hstep =>
    have hc := before hstep hk serving
    have hdrawn := (hn.links i k hk).drawn g (by rw [serving]; rfl)
    by_cases hcritical : ∃ poll, act = .critical poll
    · obtain ⟨poll, rfl⟩ := hcritical
      exact hc.critical hi hn hk serving (current_before hi hstep hdrawn current) hstep piped
    · have hquiet := Stdin.step_quiet (fun poll heq => hcritical ⟨poll, heq⟩) hstep
      have hlock := step_free_lock alone (fun poll heq => hcritical ⟨poll, heq⟩) hstep
      exact hc.congr rfl (by rw [← hquiet.metadata]) Iff.rfl fun _ => hlock
  | reaped hstep => exact (before hstep hk serving).acquire hn hstep nofun
  | @installed j g' l a broker link asked lease hstep =>
    have hbroker := step_install lease hstep
    obtain ⟨-, hg', -, hcurrent, -⟩ := AttachmentState.install_eq_ok lease
    by_cases hi : i = j
    · subst hi
      have hself := setLink_self hk
      rw [← hself] at serving
      cases serving
    · -- the new generation is nobody else's
      have hold : s.links i = some k := setLink_other hi hk
      have hdrawn := (hn.links i k hold).drawn g (by rw [serving]; rfl)
      subst hbroker
      have current := AttachmentState.isCurrent_iff.mp current
      have current : a.current = some g := current
      rw [hcurrent] at current
      cases current
      exact absurd hdrawn (Nat.lt_irrefl _)
  | @refused j l link asked =>
    by_cases hi : i = j
    · subst hi
      have hself := setLink_self hk
      rw [← hself] at serving
      cases serving
    · have hold : s.links i = some k := setLink_other hi hk
      exact (hf i g k hold serving current piped).congr rfl rfl Iff.rfl fun _ => rfl
  | @opening j g' l broker link installed hstep =>
    refine (before hstep hk serving).acquire hn hstep fun heq => ?_
    cases heq
    have hk : s.links i = some k := hk
    rw [link] at hk
    cases hk
    rw [installed] at serving
    cases serving
  | @hello j g' l broker link applied lease hstep =>
    have hbroker := step_hello hstep
    by_cases hi : i = j
    · subst hi
      have hself := setLink_self hk
      subst hself
      have hlinked := hn.links i l link
      have hsilent := hlinked.silent (by rw [applied]; rfl)
      refine ⟨fun _ => ⟨s.broker.metadata.stdinEof, by subst hbroker; rfl⟩, fun a' ha' => ?_⟩
      obtain ⟨⟨eof, hhello⟩, -⟩ := hlinked.opened a' ha'
      rw [hsilent] at hhello
      cases hhello
    · have hold : s.links i = some k := setLink_other hi hk
      refine (before hstep hold serving).congr rfl ?_ Iff.rfl fun _ => ?_
      · subst hbroker
        rfl
      · subst hbroker
        rfl
  | @frame j g' offset l a data broker link hserving attempt next hstep =>
    have hidle : s.turn = none := hn.idle (step_acquire hstep).1
    by_cases hi : i = j
    · subst hi
      have hself := setLink_self hk
      subst hself
      have hserving' : l.stage = .serving g := serving
      obtain ⟨hi, hflight⟩ := (before hstep link hserving').opened a attempt
      have hposition := hflight.idle (by rw [hidle]; simp)
      have hframes := hflight.frames
      obtain ⟨hend, hrest⟩ := span_next (hr i a attempt).contiguous next
      obtain ⟨-, rfl⟩ := step_acquire hstep
      refine ⟨fun hnone => ?_, fun a' ha' => ⟨offset + data.length, ?_, fun h => absurd rfl h, ?_⟩⟩
      · have hnone : s.outer.attempts i = none := hnone
        rw [attempt] at hnone
        cases hnone
      · have ha' : s.outer.attempts i = some a' := ha'
        rw [attempt] at ha'
        cases ha'
        exact hend
      · rintro offset' data' stage - hlock
        cases hlock
        have hat : s.broker.metadata.stdinPosition = offset := by omega
        refine ⟨rfl, ?_, ?_, nofun, nofun⟩
        · exact Nat.le_of_eq hat.symm
        · exact Nat.le_trans (Nat.le_of_eq hat) (Nat.le_add_right _ _)
    · have hold : s.links i = some k := setLink_other hi hk
      have helsewhere : some j ≠ some i := fun heq => hi (Option.some.inj heq).symm
      have hc := (before hstep hold serving).acquire hn hstep helsewhere
      exact hc.congr rfl rfl Iff.rfl fun _ => rfl
  | control reported hstep => exact (before hstep hk serving).acquire hn hstep nofun
  | @released holder broker held hstep =>
    have hbroker := step_release hstep
    have hk : (if s.turn = some i then (s.links i).map (·.returned holder.stage)
      else s.links i) = some k := hk
    by_cases hturn : s.turn = some i
    · rw [if_pos hturn] at hk
      obtain ⟨l, hl, rfl⟩ := Option.map_eq_some_iff.mp hk
      obtain ⟨op, stage, l', hlock, hl', hmine⟩ := hn.turn i hturn
      rw [hl] at hl'
      cases hl'
      rw [held] at hlock
      cases hlock
      obtain ⟨hserving, hstage⟩ := returned_serving serving
      have hc := before hstep hl hserving
      cases hmine with
      | opening hinstalled =>
        rw [hserving] at hinstalled
        cases hinstalled
      | frame hsame hopened =>
        rw [hserving] at hsame
        cases hsame
        refine ⟨fun hnone => absurd hnone hopened, fun a ha => ?_⟩
        obtain ⟨hi, hflight⟩ := hc.opened a ha
        obtain ⟨hend, hacc⟩ := hflight.hand _ _ _ hturn held
        have hposition : s.broker.metadata.stdinPosition = hi := by
          rcases hstage with rfl | rfl
          · rw [hacc.through rfl]
            exact hend
          · exact absurd rfl hacc.current
        refine ⟨hi, ?_, fun _ => ?_, nofun⟩
        · rw [Link.returned_read]
          exact hflight.frames
        · subst hbroker
          exact hposition
    · rw [if_neg hturn] at hk
      refine (before hstep hk serving).congr rfl ?_ ⟨nofun, fun h => absurd h hturn⟩
        fun h => absurd h hturn
      subst hbroker
      rfl
  | @closed j l link elsewhere =>
    by_cases hi : i = j
    · subst hi
      have hself := setLink_self hk
      rw [← hself] at serving
      cases serving
    · have hold : s.links i = some k := setLink_other hi hk
      exact (hf i g k hold serving current piped).congr rfl rfl Iff.rfl fun _ => rfl

theorem numbers_init (h : (machine false).init s) : Numbers s := by
  obtain ⟨wrapper, childStdin, rfl⟩ := h
  exact ⟨nofun, fun hne => absurd rfl hne, nofun, nofun, nofun, nofun⟩

theorem flow_reachable (h : (machine false).Reachable s) : Numbers s ∧ Flow s := by
  refine h.invariant (P := fun s => Numbers s ∧ Flow s) (fun s hinit => ⟨numbers_init hinit, ?_⟩)
    fun s _ t hs ⟨hn, hf⟩ _ hstep => ?_
  · obtain ⟨wrapper, childStdin, rfl⟩ := hinit
    intro i g l hl
    cases hl
  · have hinv := Stdin.reachable_inv (reachable_broker hs)
    have hmoved := step_moved hstep
    exact ⟨numbers_step hinv hn hmoved,
      flow_step (Outer.numbered_reachable (reachable_outer hs)) hinv hn hf hmoved⟩

/-! ## Conservation -/

/-- What is left of the frame that an attempt has in hand. -/
def State.inHand (s : State) (i : Nat) : Nat :=
  match s.turn, s.broker.lock with
  | some j, some ⟨.data _ offset data, _⟩ =>
    if j = i then offset + data.length - s.broker.metadata.stdinPosition else 0
  | _, _ => 0

theorem InFlight.inHand {i g : Nat} {l : Link} {a : Outer.Attempt} {hi : Nat} (hn : Numbers s)
    (h : InFlight s i g l a hi) (link : s.links i = some l) (serving : l.stage = .serving g) :
    s.broker.metadata.stdinPosition + s.inHand i = hi := by
  by_cases hturn : s.turn = some i
  · obtain ⟨op, stage, l', hlock, hl', hmine⟩ := hn.turn i hturn
    rw [link] at hl'
    cases hl'
    cases hmine with
    | opening hstage =>
      rw [serving] at hstage
      cases hstage
    | @frame g' offset data hstage =>
      rw [serving] at hstage
      cases hstage
      obtain ⟨hend, hacc⟩ := h.hand offset data stage hturn hlock
      have hupper := hacc.upper
      simp only [State.inHand, hturn, hlock, if_true]
      omega
  · have hzero : s.inHand i = 0 := by
      unfold State.inHand
      split
      · rename_i j _ offset data _ hj hlock
        rw [if_neg]
        rintro rfl
        exact hturn hj
      · rfl
    rw [hzero, h.idle hturn, Nat.add_zero]

/-- An attempt of the wrapper starts at what the broker had accepted. -/
theorem started_counted (h : (machine false).Reachable s) {i g : Nat} {l : Link}
    {a : Outer.Attempt} (link : s.links i = some l) (serving : l.stage = .serving g)
    (current : s.broker.attachment.isCurrent g = true) (piped : s.broker.childStdin = true)
    (attempt : s.outer.attempts i = some a) : a.start ≤ s.outer.buffer.metadata.stop := by
  obtain ⟨hn, hf⟩ := flow_reachable h
  have haccepted := (joined_reachable h).accepted
  obtain ⟨hi, hflight⟩ := (hf i g l link serving current piped).opened a attempt
  have hnumbered := Outer.numbered_reachable (reachable_outer h) i a attempt
  have hframes := hflight.frames
  have hhand := hflight.inHand hn link serving
  cases hforwarded : a.proxy.forwarded with
  | nil =>
    have hcontiguous := hnumbered.contiguous
    rw [hforwarded] at hcontiguous hframes
    have hposition : a.start = a.proxy.position := hcontiguous
    rw [List.drop_nil, span_nil] at hframes
    by_cases hturn : s.turn = some i
    · obtain ⟨op, stage, l', hlock, hl', hmine⟩ := hn.turn i hturn
      rw [link] at hl'
      cases hl'
      cases hmine with
      | opening hstage =>
        rw [serving] at hstage
        cases hstage
      | @frame g' offset data hstage =>
        rw [serving] at hstage
        cases hstage
        obtain ⟨hend, hacc⟩ := hflight.hand offset data stage hturn hlock
        have hcounted := ((joined_reachable h).held _ _ hlock).counted
        have hcounted : offset + data.length ≤ s.outer.buffer.metadata.stop := hcounted
        omega
    · have hidle := hflight.idle hturn
      omega
  | cons frame frames =>
    have hcontiguous := hnumbered.contiguous
    have hplaced := hnumbered.placed frame (by rw [hforwarded]; exact List.mem_cons_self)
    rw [hforwarded] at hcontiguous
    have hstart := hcontiguous.1
    have hcounted := hplaced.counted
    omega

/-- Below the counted end there is something to send. -/
theorem next_some {b : Outer.InputBuffer} {input : List UInt8} (held : Outer.Held b input)
    {position : Nat} (below : position < b.metadata.stop) :
    ∃ offset data, b.next position 1 = .data offset data := by
  unfold Outer.InputBuffer.next
  cases hfile : b.file with
  | some file =>
    simp only [if_pos below]
    exact ⟨_, _, rfl⟩
  | none =>
    have hlive := held.base hfile
    have hwindow := held.window hfile
    by_cases hbase : b.metadata.liveBase = 0
    · have hbelow : max position b.metadata.liveBase < b.metadata.stop := by omega
      simp only [if_pos hbelow]
      exact ⟨_, _, rfl⟩
    · have hsome : 0 < b.metadata.live.length := List.length_pos_iff.mpr (hwindow hbase)
      have hbelow : max position b.metadata.liveBase < b.metadata.stop := by omega
      simp only [if_pos hbelow]
      exact ⟨_, _, rfl⟩

/-- **No byte is lost on the way.** While a buffered session serves an attempt, the pipe of its
child stands and the attempt's proxy forwards: what the wrapper has written of local stdin is what
the child has accepted, with the rest of the frame in hand, the frames that the broker has not read
and the bytes in the transport. So when none of these holds a byte and the sender finds nothing to
send, the child has been given all of local stdin that was counted. -/
theorem input_in_flight (h : (machine false).Reachable s) {i g : Nat} {l : Link}
    {a : Outer.Attempt} (link : s.links i = some l) (serving : l.stage = .serving g)
    (current : s.broker.attachment.isCurrent g = true) (piped : s.broker.childStdin = true)
    (attempt : s.outer.attempts i = some a) (forwarding : a.proxy.stage = .forwarding) :
    s.broker.metadata.stdinPosition + s.inHand i + span (a.proxy.forwarded.drop l.read) +
        a.pipe.length = a.sender.position ∧
      (s.inHand i = 0 → l.read = a.proxy.forwarded.length → a.pipe = [] →
        (∀ read offset data, s.outer.buffer.next a.sender.position read ≠ .data offset data) →
        s.broker.received.map Prod.snd = s.outer.input.take s.outer.buffer.metadata.stop) := by
  obtain ⟨hn, hf⟩ := flow_reachable h
  have hreads := Outer.reads_reachable (reachable_outer h)
  have hnumbered := Outer.numbered_reachable (reachable_outer h) i a attempt
  obtain ⟨hi, hflight⟩ := (hf i g l link serving current piped).opened a attempt
  have hhand := hflight.inHand hn link serving
  have hframes := hflight.frames
  obtain ⟨hle, hpipe⟩ := hnumbered.pipe forwarding
  have hsender : a.sender.position ≤ s.outer.buffer.metadata.stop := by
    rcases hnumbered.counted with heq | hcounted
    · rw [← heq]
      exact started_counted h link serving current piped attempt
    · exact hcounted
  have hlength : a.pipe.length = a.sender.position - a.proxy.position := by
    rw [hpipe, Slice.length_stretch (Nat.le_trans hsender hreads.held.stop)]
  refine ⟨by omega, fun hnone hall hempty hdry => ?_⟩
  -- the sender has caught up with what was counted
  have hcaught : a.sender.position = s.outer.buffer.metadata.stop := by
    by_contra hne
    obtain ⟨offset, data, hnext⟩ := next_some hreads.held (show
      a.sender.position < s.outer.buffer.metadata.stop by omega)
    exact hdry 1 offset data hnext
  rw [hall, List.drop_length, span_nil] at hframes
  have hzero : a.pipe.length = 0 := by rw [hempty, List.length_nil]
  have hposition : s.broker.metadata.stdinPosition = s.outer.buffer.metadata.stop := by omega
  rw [received_eq h rfl, hposition]

/-- Of three bytes that were written, one is with the child, one in the frame in hand and one in the
transport. -/
theorem input_in_flight_midway : ∃ (s : State) (a : Outer.Attempt), s.outer.attempts 1 = some a ∧
    s.broker.metadata.stdinPosition = 1 ∧ s.inHand 1 = 1 ∧ a.pipe = [9] ∧
    s.broker.metadata.stdinPosition + s.inHand 1 + span (a.proxy.forwarded.drop 1) +
      a.pipe.length = a.sender.position := by
  let labels : List Act := [.outer (.reader (.read (some [7, 8, 9]))),
    .outer (.reader (.spool none)), .outer (.reader .count), .outer .attempt, .install 1,
    .opening 1, .critical .pending, .release, .hello 1, .opened, .outer (.send 3),
    .outer (.forward 1 2), .frame 1, .critical (.wrote 1)]
  have start : (machine false).Reachable
      { outer := Outer.initial false, broker := { childStdin := true } } := .init ⟨false, true, rfl⟩
  have reached := Machine.Reachable.run start labels rfl
  exact ⟨_, _, rfl, rfl, rfl, rfl,
    (input_in_flight (i := 1) (g := 1) reached rfl rfl rfl rfl rfl rfl).1⟩

end Pipekeep.Passage
