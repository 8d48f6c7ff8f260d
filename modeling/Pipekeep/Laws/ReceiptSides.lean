import Pipekeep.Laws.Live
import Pipekeep.Laws.ReceiptMoves
import Pipekeep.Laws.View

/-!
# The receipts of the three output sides

`Side.Lawful` is what the run argument asks of an output side, and the three sides meet it. The
buffered and the live sender take a receipt at a turn, hold it over an authority check and write it
(`Handles`); the finite-output sender takes and writes at once, and is the only one that publishes
to its own state.
-/

namespace Pipekeep.Receipts

variable {nobuffer : Bool} {s t : Stdin.State} {position : Nat} {current : Bool}

/-! ## What the output sides owe -/

/-- The leases after a step with this section of the input side. -/
def leasesAfter : Option Stdin.Act → AttachmentState → AttachmentState
  | some (.install force), a =>
    match a.install force with
    | .ok (_, a') => a'
    | .error () => a
  | some (.clear g), a => a.compareClear g
  | _, a => a

/-- The input side leases by the labels that are about leases, and no others. -/
theorem step_leases {a : Stdin.Act} (hi : Stdin.Inv s) (h : Stdin.step nobuffer s a = some t) :
    t.attachment = leasesAfter (some a) s.attachment := by
  cases a with
  | install force =>
    simp only [Stdin.step] at h
    split at h
    · cases h
    · simp only [leasesAfter]
      split at h <;> cases h <;> simp only [*]
  | clear g =>
    simp only [Stdin.step] at h
    split at h <;> cases h
    rfl
  | _ =>
    rcases Stdin.step_attachment hi.coherent h with he | ⟨_, _, he, _⟩ | ⟨_, he, _⟩
    · exact he
    · cases he
    · cases he

/-- A step of the output side, with the section of the input side that it is at once. -/
structure Side.Stepped {O A : Type} (S : Side O A) (s : State O) (a : A) (joined : Option Stdin.Act)
    (t : State O) : Prop where
  joins : S.joins s.stdin a = some joined
  input : joined.elim (some s.stdin) (Stdin.step S.nobuffer s.stdin) = some t.stdin
  output : S.machine.step s.output a = some t.output

/-- What is asked of an output side: it starts without attachments, its leases are the input
side's, and its steps move an attachment's receipts as `Moves` says, each those of the attachment
whose task takes it. -/
structure Side.Lawful {O A : Type} (S : Side O A) : Prop where
  starts : ∀ s, S.broker.init s → S.leases s.output = s.stdin.attachment ∧ ∀ g, S.standingOf s g = {}
  leases : ∀ s a joined t, S.Stepped s a joined t → S.leases s.output = s.stdin.attachment →
    S.leases t.output = leasesAfter joined (S.leases s.output)
  moves : ∀ s a joined t, S.Stepped s a joined t → S.leases s.output = s.stdin.attachment →
    ∀ g, S.standingOf t g = S.standingOf s g ∨ S.actor a = some g ∧
      Moves s.stdin.metadata.stdinPosition (s.stdin.attachment.isCurrent g) (S.standingOf s g)
        (S.standingOf t g)
  reads : ∀ stdin stdin' output, stdin'.receipts = stdin.receipts →
    S.standing stdin' output = S.standing stdin output
  publishes : ∀ stdin stdin' output g position,
    stdin'.receipts = Function.update stdin.receipts g
      ((stdin.receipts g).map (·.publish position)) →
    S.leases (S.publish output g position) = S.leases output ∧
      S.standing stdin' (S.publish output g position) = Function.update (S.standing stdin output) g
        { S.standing stdin output g with
          channel := (S.standing stdin output g).channel.map (·.publish position) }

/-! ## Senders with a channel on the input side -/

/-- What a sender's step does to the receipts it was sent and the one in hand. -/
inductive Handles (sent : List Nat) : Option Nat → List Nat → Option Nat → Prop
  | kept {inHand : Option Nat} : Handles sent inHand sent inHand
  | wrote {offset : Nat} : Handles sent (some offset) (sent ++ [offset]) none
  | dropped {inHand : Option Nat} : Handles sent inHand sent none

/-- A sender that handles its receipts moves its standing, or leaves it. -/
theorem Handles.moves {sent sent' : List Nat} {inHand inHand' : Option Nat}
    (h : Handles sent inHand sent' inHand') (channel : Option Stdin.Receipts) :
    (⟨channel, sent', inHand'⟩ : Standing) = ⟨channel, sent, inHand⟩ ∨
      Moves position current ⟨channel, sent, inHand⟩ ⟨channel, sent', inHand'⟩ := by
  cases h with
  | kept => exact .inl rfl
  | wrote => exact .inr (.wrote (x := ⟨channel, sent, some _⟩) rfl)
  | dropped => exact .inr (.dropped (x := ⟨channel, sent, inHand⟩))

/-- A turn takes the receipt that is due, if its attachment has authority. -/
theorem turn_moves {g : Nat} {receipt : Option Nat} {joined : Option Stdin.Act} {sent : List Nat}
    (hjoins : turnJoins s g receipt = some joined)
    (hstep : joined.elim (some s) (Stdin.step nobuffer s) = some t) :
    (∀ g', g' ≠ g → t.receipts g' = s.receipts g') ∧
      ((⟨t.receipts g, sent, if s.attachment.isCurrent g then receipt else none⟩ : Standing) =
          ⟨s.receipts g, sent, none⟩ ∨
        Moves s.metadata.stdinPosition (s.attachment.isCurrent g) ⟨s.receipts g, sent, none⟩
          ⟨t.receipts g, sent, if s.attachment.isCurrent g then receipt else none⟩) := by
  unfold turnJoins at hjoins
  split at hjoins
  · rename_i hdue
    cases hjoins
    cases receipt with
    | none =>
      cases hstep
      exact ⟨fun _ _ => rfl, .inl (by rw [ite_self])⟩
    | some offset =>
      obtain ⟨hcurrent, r, hr, rfl⟩ := due_some hdue.symm
      have htake : Stdin.step nobuffer s (.takeReceipt g) = some t := hstep
      rw [takeReceipt_receipts hcurrent htake, hr, if_pos hcurrent]
      refine ⟨fun g' hne => Function.update_of_ne hne _ _, .inr ?_⟩
      rw [Function.update_self, Option.map_some]
      exact .took (x := ⟨some r, sent, none⟩) rfl rfl
  · cases hjoins

/-- What a sender's step does to its receipts, with what it joins: a turn takes the receipt that is
due, any other step handles the one in hand. -/
inductive Serves (s : Stdin.State) (g : Nat) (sent : List Nat) :
    Option Stdin.Act → Option Nat → List Nat → Option Nat → Prop
  | turn {receipt : Option Nat} {joined : Option Stdin.Act} :
      turnJoins s g receipt = some joined →
      Serves s g sent joined none sent (if s.attachment.isCurrent g then receipt else none)
  | handles {inHand inHand' : Option Nat} {sent' : List Nat} : Handles sent inHand sent' inHand' →
      Serves s g sent none inHand sent' inHand'

/-- A joint step moves the standing of the attachment it serves, and leaves the other channels. -/
theorem Serves.moves {g : Nat} {joined : Option Stdin.Act} {sent sent' : List Nat}
    {inHand inHand' : Option Nat} (h : Serves s g sent joined inHand sent' inHand')
    (hstep : joined.elim (some s) (Stdin.step nobuffer s) = some t) :
    (∀ g', g' ≠ g → t.receipts g' = s.receipts g') ∧
      ((⟨t.receipts g, sent', inHand'⟩ : Standing) = ⟨s.receipts g, sent, inHand⟩ ∨
        Moves s.metadata.stdinPosition (s.attachment.isCurrent g) ⟨s.receipts g, sent, inHand⟩
          ⟨t.receipts g, sent', inHand'⟩) := by
  cases h with
  | turn hturn => exact turn_moves hturn hstep
  | handles hh =>
    cases hstep
    exact ⟨fun _ _ => rfl, hh.moves _⟩

/-- What a sender joins leases nothing. -/
theorem Serves.leases {g : Nat} {joined : Option Stdin.Act} {sent sent' : List Nat}
    {inHand inHand' : Option Nat} (h : Serves s g sent joined inHand sent' inHand')
    (a : AttachmentState) : leasesAfter joined a = a := by
  cases h with
  | @turn receipt _ hturn =>
    unfold turnJoins at hturn
    split at hturn
    · cases hturn
      cases receipt <;> rfl
    · cases hturn
  | handles _ => rfl

/-- An opening with authority makes its attachment's channel. -/
theorem hello_moves {g : Nat} (sent : List Nat) (inHand : Option Nat)
    (hcurrent : s.attachment.isCurrent g = true) (h : Stdin.step nobuffer s (.hello g) = some t) :
    (∀ g', g' ≠ g → t.receipts g' = s.receipts g') ∧
      Moves s.metadata.stdinPosition (s.attachment.isCurrent g) ⟨s.receipts g, sent, inHand⟩
        ⟨t.receipts g, sent, inHand⟩ := by
  obtain ⟨hnone, ht⟩ := hello_receipts h
  rw [ht, hnone, hcurrent]
  refine ⟨fun g' hne => Function.update_of_ne hne _ _, ?_⟩
  rw [Function.update_self]
  exact .opened (x := ⟨none, sent, inHand⟩) rfl rfl

section sessions

variable {σ : Type} (frames : σ → List Frame) (inHand : σ → Option Nat)

/-- Where the receipts of an attachment stand whose channel the input side keeps. -/
def sessionStanding (stdin : Stdin.State) (senders : Nat → Option σ) (g : Nat) : Standing where
  channel := stdin.receipts g
  sent := (senders g).elim [] fun sender => receiptsOf (frames sender)
  inHand := (senders g).bind inHand

/-- An attachment with a sender stands where its frames do. -/
theorem sessionStanding_some {senders : Nat → Option σ} {g : Nat} {sender : σ}
    (h : senders g = some sender) :
    sessionStanding frames inHand s senders g =
      ⟨s.receipts g, receiptsOf (frames sender), inHand sender⟩ := by
  rw [sessionStanding, h, Option.elim_some, Option.bind_some]

/-- An attachment without a sender has sent nothing. -/
theorem sessionStanding_none {senders : Nat → Option σ} {g : Nat} (h : senders g = none) :
    sessionStanding frames inHand s senders g = ⟨s.receipts g, [], none⟩ := by
  rw [sessionStanding, h, Option.elim_none, Option.bind_none]

/-- A step that touches one sender and its channel moves the receipts of its attachment only. -/
theorem sessionStanding_update (sender : σ) {senders : Nat → Option σ} {g : Nat} {x : Standing}
    (hx : sessionStanding frames inHand s senders g = x)
    (others : ∀ g', g' ≠ g → t.receipts g' = s.receipts g')
    (own : (⟨t.receipts g, receiptsOf (frames sender), inHand sender⟩ : Standing) = x ∨
      Moves s.metadata.stdinPosition (s.attachment.isCurrent g) x
        ⟨t.receipts g, receiptsOf (frames sender), inHand sender⟩) (g' : Nat) :
    sessionStanding frames inHand t (Function.update senders g (some sender)) g' =
        sessionStanding frames inHand s senders g' ∨
      some g = some g' ∧ Moves s.metadata.stdinPosition (s.attachment.isCurrent g')
        (sessionStanding frames inHand s senders g')
        (sessionStanding frames inHand t (Function.update senders g (some sender)) g') := by
  by_cases hg : g' = g
  · subst hg
    rw [sessionStanding_some frames inHand (Function.update_self g' (some sender) senders), hx]
    exact own.imp_right fun h => ⟨rfl, h⟩
  · left
    rw [sessionStanding, others g' hg, Function.update_of_ne hg, sessionStanding]

end sessions

/-- A receipt frame adds its offset. -/
theorem receiptsOf_receipt (frames : List Frame) (offset : Nat) :
    receiptsOf (frames ++ [.stdinPosition offset]) = receiptsOf frames ++ [offset] := by
  rw [receiptsOf, List.filterMap_append]
  rfl

/-- A frame that is no receipt. -/
theorem receiptsOf_other (frames : List Frame) {f : Frame} (h : receiptsOf [f] = []) :
    receiptsOf (frames ++ [f]) = receiptsOf frames := by
  rw [receiptsOf, List.filterMap_append]
  exact (congrArg (receiptsOf frames ++ ·) h).trans (List.append_nil _)

/-- A data frame adds no receipt. -/
theorem receiptsOf_data (frames : List Frame) (st : Stream) (offset : Nat) (data : List UInt8) :
    receiptsOf (frames ++ [.outputData st offset data]) = receiptsOf frames := by
  cases st <;> exact receiptsOf_other frames rfl

/-- An exit adds no receipt. -/
theorem receiptsOf_exit (frames : List Frame) (status : ExitResult) :
    receiptsOf (frames ++ [.exit status]) = receiptsOf frames :=
  receiptsOf_other frames rfl

/-- What a step of a buffered sender does to its receipts. -/
theorem buffered_handles {session : Session} {g : Nat} {sender sender' : Buffered.Sender}
    {act : Buffered.SenderAct} (h : Buffered.senderStep session g sender act = some sender') :
    (∃ receipt, act = .turn receipt ∧ sender.stage.inHand = none ∧
      receiptsOf sender'.frames = receiptsOf sender.frames ∧
      sender'.stage.inHand = if session.attachment.isCurrent g then receipt else none) ∨
    (∀ receipt, act ≠ .turn receipt) ∧
      Handles (receiptsOf sender.frames) sender.stage.inHand (receiptsOf sender'.frames)
        sender'.stage.inHand := by
  have quiet : ∀ {stage : Buffered.Stage}, sender.stage.inHand = none → stage.inHand = none →
      Handles (receiptsOf sender.frames) sender.stage.inHand (receiptsOf sender.frames)
        stage.inHand := fun h h' => by
    rw [h, h']
    exact .kept
  unfold Buffered.senderStep at h
  dsimp only at h
  split at h
  · rename_i receipt hstage
    refine .inl ⟨receipt, rfl, by rw [hstage]; rfl, ?_⟩
    split at h
    · rename_i hcurrent
      rw [if_pos hcurrent]
      cases receipt <;> cases h <;> exact ⟨rfl, rfl⟩
    · rename_i hdisplaced
      rw [if_neg hdisplaced]
      cases h
      exact ⟨rfl, rfl⟩
  · rename_i offset hstage
    refine .inr ⟨nofun, ?_⟩
    rw [hstage]
    split at h <;> cases h
    · rw [receiptsOf_receipt]
      exact .wrote
    · exact .dropped
  · rename_i hstage
    cases h
    refine .inr ⟨nofun, quiet (by rw [hstage]; rfl) ?_⟩
    unfold Buffered.serve
    dsimp only
    repeat' split
    all_goals rfl
  · rename_i st stop count hstage
    split at h <;> cases h
    · exact .inr ⟨nofun, quiet (by rw [hstage]; rfl) rfl⟩
    · exact .inr ⟨nofun, quiet (by rw [hstage]; rfl) rfl⟩
  · rename_i st data hstage
    refine .inr ⟨nofun, ?_⟩
    split at h <;> cases h
    · rw [receiptsOf_data]
      exact quiet (by rw [hstage]; rfl) rfl
    · exact quiet (by rw [hstage]; rfl) rfl
  · rename_i status hstage
    refine .inr ⟨nofun, ?_⟩
    split at h <;> cases h
    · rw [receiptsOf_exit]
      exact quiet (by rw [hstage]; rfl) rfl
    · exact quiet (by rw [hstage]; rfl) rfl
  · rename_i hstage
    cases h
    exact .inr ⟨nofun, quiet (by rw [hstage]; rfl) rfl⟩
  · cases h
  · cases h
    exact .inr ⟨nofun, .dropped⟩
  · cases h

/-- A try of a live channel writes nothing and takes no receipt. -/
theorem attempt_handles (sender : Live.Sender) (st : Stream) {next : Live.Stage}
    (hnext : next.inHand = none) :
    (sender.attempt st next).frames = sender.frames ∧
      (sender.attempt st next).stage.inHand = none := by
  unfold Live.Sender.attempt
  dsimp only
  split <;> exact ⟨rfl, by first | rfl | exact hnext⟩

/-- The select writes no frame. -/
theorem recv_handles {sender sender' : Live.Sender} {st : Stream}
    (h : sender.recv st = some sender') :
    sender'.frames = sender.frames ∧ sender'.stage.inHand = none := by
  unfold Live.Sender.recv at h
  dsimp only at h
  split at h <;> cases h <;> exact ⟨rfl, rfl⟩

/-- A chunk adds no receipt. -/
theorem sendLiveChunk_handles (sender : Live.Sender) (current : Bool) (st : Stream)
    (chunk : OutputChunk) (preferStdout : Bool) :
    receiptsOf (sender.sendLiveChunk current st chunk preferStdout).frames =
        receiptsOf sender.frames ∧
      (sender.sendLiveChunk current st chunk preferStdout).stage.inHand = none := by
  unfold Live.Sender.sendLiveChunk
  dsimp only
  split
  · exact ⟨rfl, rfl⟩
  · split
    · exact ⟨receiptsOf_data _ _ _ _, rfl⟩
    · exact ⟨rfl, rfl⟩

/-- What a step of a live sender does to its receipts. -/
theorem live_handles {session : Session} {g : Nat} {sender sender' : Live.Sender}
    {act : Live.SenderAct} (h : Live.senderStep session g sender act = some sender') :
    (∃ receipt, act = .turn receipt ∧ sender.stage.inHand = none ∧
      receiptsOf sender'.frames = receiptsOf sender.frames ∧
      sender'.stage.inHand = if session.attachment.isCurrent g then receipt else none) ∨
    (∀ receipt, act ≠ .turn receipt) ∧
      Handles (receiptsOf sender.frames) sender.stage.inHand (receiptsOf sender'.frames)
        sender'.stage.inHand := by
  have quiet : sender.stage.inHand = none →
      receiptsOf sender'.frames = receiptsOf sender.frames ∧ sender'.stage.inHand = none →
      Handles (receiptsOf sender.frames) sender.stage.inHand (receiptsOf sender'.frames)
        sender'.stage.inHand := fun h h' => by
    rw [h, h'.1, h'.2]
    exact .kept
  have tried : ∀ {st : Stream} {next : Live.Stage}, next.inHand = none →
      some (sender.attempt st next) = some sender' →
      receiptsOf sender'.frames = receiptsOf sender.frames ∧ sender'.stage.inHand = none :=
    fun hnext h => by
      cases h
      obtain ⟨hframes, hstage⟩ := attempt_handles sender _ hnext
      exact ⟨by rw [hframes], hstage⟩
  unfold Live.senderStep at h
  dsimp only at h
  split at h
  · rename_i hstage
    refine .inr ⟨nofun, quiet (by rw [hstage]; rfl) ?_⟩
    split at h <;> cases h <;> exact ⟨rfl, rfl⟩
  · rename_i receipt hstage
    refine .inl ⟨receipt, rfl, by rw [hstage]; rfl, ?_⟩
    split at h
    · rename_i hcurrent
      rw [if_pos hcurrent]
      cases receipt <;> cases h <;> exact ⟨rfl, rfl⟩
    · rename_i hdisplaced
      rw [if_neg hdisplaced]
      cases h
      exact ⟨rfl, rfl⟩
  · rename_i offset hstage
    refine .inr ⟨nofun, ?_⟩
    rw [hstage]
    split at h <;> cases h
    · rw [receiptsOf_receipt]
      exact .wrote
    · exact .dropped
  · rename_i hstage
    exact .inr ⟨nofun, quiet (by rw [hstage]; rfl) (tried rfl h)⟩
  · rename_i hstage
    exact .inr ⟨nofun, quiet (by rw [hstage]; rfl) (tried rfl h)⟩
  · rename_i hstage
    exact .inr ⟨nofun, quiet (by rw [hstage]; rfl) (tried rfl h)⟩
  · rename_i hstage
    cases h
    exact .inr ⟨nofun, quiet (by rw [hstage]; rfl) (sendLiveChunk_handles _ _ _ _ _)⟩
  · rename_i hstage
    refine .inr ⟨nofun, quiet (by rw [hstage]; rfl) ?_⟩
    split at h <;> cases h <;> exact ⟨rfl, rfl⟩
  · rename_i status hstage
    refine .inr ⟨nofun, quiet (by rw [hstage]; rfl) ?_⟩
    split at h <;> cases h
    · exact ⟨receiptsOf_exit _ _, rfl⟩
    · exact ⟨rfl, rfl⟩
  · rename_i st hstage
    obtain ⟨hframes, hafter⟩ := recv_handles h
    exact .inr ⟨nofun, quiet (by rw [hstage]; rfl) ⟨by rw [hframes], hafter⟩⟩
  · rename_i hstage
    cases h
    exact .inr ⟨nofun, quiet (by rw [hstage]; rfl) ⟨rfl, rfl⟩⟩
  · cases h
  · cases h
    exact .inr ⟨nofun, .dropped⟩
  · cases h

/-- The session leases by its joint labels only. -/
theorem session_leases {session session' : Session} {hardened : Bool} {act : Session.Act}
    {sent : Option (Stream × OutputChunk)}
    (h : session.step nobuffer hardened act = some (session', sent)) :
    session'.attachment = leasesAfter (sessionJoins act) session.attachment := by
  cases act with
  | install force =>
    simp only [Session.step] at h
    simp only [sessionJoins, leasesAfter]
    split at h <;> cases h <;> simp only [*]
  | clear g =>
    cases h
    rfl
  | drain st act =>
    simp only [Session.step, Option.map_eq_some_iff, Prod.mk.injEq] at h
    obtain ⟨⟨_, _⟩, hdrain, rfl, _⟩ := h
    exact (drainStep_inv hdrain).2.2.2
  | wait result =>
    simp only [Session.step] at h
    split at h <;> cases h
    unfold Session.wait
    repeat' split
    all_goals rfl

/-- What a session joins makes, publishes and takes no receipt. -/
theorem session_receipts {act : Session.Act}
    (h : (sessionJoins act).elim (some s) (Stdin.step nobuffer s) = some t) :
    t.receipts = s.receipts := by
  cases act with
  | drain st act =>
    cases h
    rfl
  | install force =>
    have h : Stdin.step nobuffer s (.install force) = some t := h
    exact still_receipts h nofun nofun nofun
  | clear g =>
    have h : Stdin.step nobuffer s (.clear g) = some t := h
    exact still_receipts h nofun nofun nofun
  | wait result =>
    have h : Stdin.step nobuffer s .waited = some t := h
    exact still_receipts h nofun nofun nofun

/-! ## The buffered side -/

/-- A step of a sender, with what it joins and what its attachment has after it. -/
theorem buffered_sender {hardened : Bool} {o o' : Buffered.State} {g : Nat}
    {act : Buffered.SenderAct} {joined : Option Stdin.Act}
    (tied : o.session.attachment = s.attachment)
    (hjoins : (buffered hardened).joins s (.sender g act) = some joined)
    (h : (buffered hardened).machine.step o (.sender g act) = some o') :
    ∃ sender sender', o.senders g = some sender ∧ o' = o.setSender g sender' ∧
      Serves s g (receiptsOf sender.frames) joined sender.stage.inHand (receiptsOf sender'.frames)
        sender'.stage.inHand := by
  have h : Buffered.step hardened o (.sender g act) = some o' := h
  simp only [Buffered.step] at h
  split at h
  · cases h
  · rename_i sender hsender
    obtain ⟨sender', hstep, rfl⟩ := Option.map_eq_some_iff.mp h
    refine ⟨sender, sender', hsender, rfl, ?_⟩
    rcases buffered_handles hstep with ⟨receipt, rfl, hfree, hsent, hhand⟩ | ⟨hother, hh⟩
    · rw [hfree, hsent, hhand, tied]
      exact .turn hjoins
    · have hnone : joined = none := by
        cases act with
        | turn receipt => exact absurd rfl (hother receipt)
        | _ =>
          cases hjoins
          rfl
      exact hnone ▸ .handles hh

/-- A joint step leases the same on both sides, for buffered output. -/
theorem buffered_leases {hardened : Bool} {s t : State Buffered.State} {a : Buffered.Act}
    {joined : Option Stdin.Act} (h : (buffered hardened).Stepped s a joined t)
    (tied : s.output.session.attachment = s.stdin.attachment) :
    t.output.session.attachment = leasesAfter joined s.output.session.attachment := by
  obtain ⟨hjoins, _, houtput⟩ := h
  cases a with
  | session act =>
    cases hjoins
    obtain ⟨p, hp, ht⟩ := Option.map_eq_some_iff.mp houtput
    rw [← ht]
    exact session_leases hp
  | attach g offsets =>
    cases hjoins
    have houtput : Buffered.step hardened s.output (.attach g offsets) = some t.output := houtput
    simp only [Buffered.step] at houtput
    split at houtput
    · rw [← Option.some.inj houtput]
      rfl
    · cases houtput
  | sender g act =>
    obtain ⟨_, _, _, ht, hserves⟩ := buffered_sender tied hjoins houtput
    rw [ht, hserves.leases]
    rfl

/-- A joint step moves the standing of its actor only, for buffered output. -/
theorem buffered_moves {hardened : Bool} {s t : State Buffered.State} {a : Buffered.Act}
    {joined : Option Stdin.Act} (h : (buffered hardened).Stepped s a joined t)
    (tied : s.output.session.attachment = s.stdin.attachment) (g' : Nat) :
    (buffered hardened).standingOf t g' = (buffered hardened).standingOf s g' ∨
      (buffered hardened).actor a = some g' ∧
        Moves s.stdin.metadata.stdinPosition (s.stdin.attachment.isCurrent g')
          ((buffered hardened).standingOf s g') ((buffered hardened).standingOf t g') := by
  obtain ⟨stdin', o'⟩ := t
  obtain ⟨hjoins, hinput, houtput⟩ := h
  have houtput : Buffered.step hardened s.output a = some o' := houtput
  cases a with
  | session act =>
    cases hjoins
    obtain ⟨p, hp, rfl⟩ := Option.map_eq_some_iff.mp houtput
    have hreceipts : stdin'.receipts = s.stdin.receipts := session_receipts hinput
    left
    simp only [Side.standingOf, buffered, hreceipts]
  | attach g offsets =>
    cases hjoins
    have hinput : Stdin.step false s.stdin (.hello g) = some stdin' := hinput
    simp only [Buffered.step] at houtput
    split at houtput
    · rename_i hfresh
      obtain ⟨hreceipts, hmoves⟩ := hello_moves [] none (tied ▸ hfresh.1) hinput
      cases houtput
      exact sessionStanding_update Buffered.Sender.frames (·.stage.inHand)
        { opening := offsets, position := offsets } (sessionStanding_none _ _ hfresh.2.1) hreceipts
        (.inr hmoves) g'
    · cases houtput
  | sender g act =>
    obtain ⟨sender, sender', hsender, rfl, hserves⟩ := buffered_sender tied hjoins houtput
    obtain ⟨hreceipts, hmoves⟩ := hserves.moves hinput
    exact sessionStanding_update Buffered.Sender.frames (·.stage.inHand) sender'
      (sessionStanding_some _ _ hsender) hreceipts hmoves g'

/-- **The buffered broker is lawful.** -/
theorem buffered_lawful (hardened : Bool) : (buffered hardened).Lawful where
  starts := by
    rintro ⟨stdin, output⟩ ⟨⟨_, hstdin⟩, ⟨_, _, _, hsession⟩, hsenders⟩
    cases hstdin
    refine ⟨?_, fun g => ?_⟩
    · show output.session.attachment = {}
      rw [hsession]
    · have hnone : output.senders g = none := congrFun hsenders g
      simp only [Side.standingOf, buffered, hnone, Option.elim_none, Option.bind_none]
  leases _ _ _ _ h tied := buffered_leases h tied
  moves _ _ _ _ h tied := buffered_moves h tied
  reads stdin stdin' output h := by simp only [buffered, h]
  publishes stdin stdin' output g offset h := by
    refine ⟨rfl, funext fun g' => ?_⟩
    by_cases hg : g' = g
    · subst hg
      simp only [buffered, h, Function.update_self]
    · simp only [buffered, h, Function.update_of_ne hg]

/-! ## The live side -/

/-- A step of a sender after its opening, with what it joins and what its attachment has after
it. -/
theorem live_sender {hardened : Bool} {o o' : Live.State} {g : Nat} {act : Live.SenderAct}
    {joined : Option Stdin.Act} (tied : o.session.attachment = s.attachment) (hact : act ≠ .hello)
    (hjoins : (live hardened).joins s (.sender g act) = some joined)
    (h : (live hardened).machine.step o (.sender g act) = some o') :
    ∃ sender sender', o.senders g = some sender ∧ o' = o.setSender g sender' ∧
      Serves s g (receiptsOf sender.frames) joined sender.stage.inHand (receiptsOf sender'.frames)
        sender'.stage.inHand := by
  have h : Live.step hardened o (.sender g act) = some o' := h
  simp only [Live.step] at h
  split at h
  · cases h
  · rename_i sender hsender
    obtain ⟨sender', hstep, rfl⟩ := Option.map_eq_some_iff.mp h
    refine ⟨sender, sender', hsender, rfl, ?_⟩
    rcases live_handles hstep with ⟨receipt, rfl, hfree, hsent, hhand⟩ | ⟨hother, hh⟩
    · rw [hfree, hsent, hhand, tied]
      exact .turn hjoins
    · have hnone : joined = none := by
        cases act with
        | hello => exact absurd rfl hact
        | turn receipt => exact absurd rfl (hother receipt)
        | _ =>
          cases hjoins
          rfl
      exact hnone ▸ .handles hh

/-- The snapshot of an opening: with authority it makes the channel, without it it ends the
sender. -/
theorem live_hello {hardened : Bool} {o o' : Live.State} {g : Nat} {joined : Option Stdin.Act}
    (hjoins : (live hardened).joins s (.sender g .hello) = some joined)
    (h : (live hardened).machine.step o (.sender g .hello) = some o') :
    ∃ sender sender', o.senders g = some sender ∧ o' = o.setSender g sender' ∧
      sender'.frames = sender.frames ∧ sender.stage.inHand = none ∧ sender'.stage.inHand = none ∧
      joined = if s.attachment.isCurrent g then some (.hello g) else none := by
  have h : Live.step hardened o (.sender g .hello) = some o' := h
  cases hjoins
  simp only [Live.step] at h
  split at h
  · cases h
  · rename_i sender hsender
    obtain ⟨sender', hstep, rfl⟩ := Option.map_eq_some_iff.mp h
    refine ⟨sender, sender', hsender, rfl, ?_⟩
    cases hstage : sender.stage with
    | subscribed =>
      simp only [Live.senderStep, hstage] at hstep
      split at hstep <;> cases hstep <;> exact ⟨rfl, rfl, rfl, rfl⟩
    | _ =>
      simp only [Live.senderStep, hstage] at hstep
      cases hstep

/-- A joint step leases the same on both sides, for live output. -/
theorem live_leases {hardened : Bool} {s t : State Live.State} {a : Live.Act}
    {joined : Option Stdin.Act} (h : (live hardened).Stepped s a joined t)
    (tied : s.output.session.attachment = s.stdin.attachment) :
    t.output.session.attachment = leasesAfter joined s.output.session.attachment := by
  obtain ⟨hjoins, _, houtput⟩ := h
  cases a with
  | session act =>
    cases hjoins
    obtain ⟨p, hp, ht⟩ := Option.map_eq_some_iff.mp houtput
    rw [← ht, (Live.push_senders _ _ 0).2]
    exact session_leases hp
  | subscribe g =>
    cases hjoins
    have houtput : Live.step hardened s.output (.subscribe g) = some t.output := houtput
    simp only [Live.step] at houtput
    split at houtput
    · rw [← Option.some.inj houtput]
      rfl
    · cases houtput
  | sender g act =>
    by_cases hact : act = .hello
    · subst hact
      obtain ⟨_, _, _, ht, _, _, _, rfl⟩ := live_hello hjoins houtput
      rw [ht]
      split <;> rfl
    · obtain ⟨_, _, _, ht, hserves⟩ := live_sender tied hact hjoins houtput
      rw [ht, hserves.leases]
      rfl

/-- A joint step moves the standing of its actor only, for live output. -/
theorem live_moves {hardened : Bool} {s t : State Live.State} {a : Live.Act}
    {joined : Option Stdin.Act} (h : (live hardened).Stepped s a joined t)
    (tied : s.output.session.attachment = s.stdin.attachment) (g' : Nat) :
    (live hardened).standingOf t g' = (live hardened).standingOf s g' ∨
      (live hardened).actor a = some g' ∧
        Moves s.stdin.metadata.stdinPosition (s.stdin.attachment.isCurrent g')
          ((live hardened).standingOf s g') ((live hardened).standingOf t g') := by
  obtain ⟨stdin', o'⟩ := t
  obtain ⟨hjoins, hinput, houtput⟩ := h
  have houtput : Live.step hardened s.output a = some o' := houtput
  cases a with
  | session act =>
    cases hjoins
    obtain ⟨p, hp, rfl⟩ := Option.map_eq_some_iff.mp houtput
    have hreceipts : stdin'.receipts = s.stdin.receipts := session_receipts hinput
    left
    simp only [Side.standingOf, live, hreceipts, (Live.push_senders _ _ g').1]
    cases s.output.senders g' with
    | none => rfl
    | some sender =>
      obtain ⟨hstage, hframes, _⟩ := Live.pushed_stage sender p.2
      simp only [Option.map_some, Option.elim_some, Option.bind_some, hstage, hframes]
  | subscribe g =>
    cases hjoins
    cases hinput
    have houtput : Live.step hardened s.output (.subscribe g) = some o' := houtput
    simp only [Live.step] at houtput
    split at houtput
    · rename_i hfresh
      cases houtput
      exact sessionStanding_update Live.Sender.frames (·.stage.inHand) {}
        (sessionStanding_none _ _ hfresh.2) (fun _ _ => rfl) (.inl rfl) g'
    · cases houtput
  | sender g act =>
    by_cases hact : act = .hello
    · subst hact
      obtain ⟨sender, sender', hsender, rfl, hframes, hfree, hafter, rfl⟩ :=
        live_hello hjoins houtput
      have hbefore := sessionStanding_some Live.Sender.frames (·.stage.inHand) hsender (s := s.stdin)
      cases hcurrent : s.stdin.attachment.isCurrent g with
      | true =>
        rw [hcurrent, if_pos rfl] at hinput
        have hhello : Stdin.step true s.stdin (.hello g) = some stdin' := hinput
        obtain ⟨hreceipts, hmoves⟩ :=
          hello_moves (receiptsOf sender.frames) sender.stage.inHand hcurrent hhello
        refine sessionStanding_update Live.Sender.frames (·.stage.inHand) sender' hbefore
          hreceipts (.inr ?_) g'
        rw [hframes, hafter, ← hfree]
        exact hmoves
      | false =>
        rw [hcurrent, if_neg Bool.false_ne_true] at hinput
        cases hinput
        refine sessionStanding_update Live.Sender.frames (·.stage.inHand) sender' hbefore
          (fun _ _ => rfl) (.inl ?_) g'
        rw [hframes, hafter, ← hfree]
    · obtain ⟨sender, sender', hsender, rfl, hserves⟩ := live_sender tied hact hjoins houtput
      obtain ⟨hreceipts, hmoves⟩ := hserves.moves hinput
      exact sessionStanding_update Live.Sender.frames (·.stage.inHand) sender'
        (sessionStanding_some _ _ hsender) hreceipts hmoves g'

/-- **The no-buffer broker is lawful.** -/
theorem live_lawful (hardened : Bool) : (live hardened).Lawful where
  starts := by
    rintro ⟨stdin, output⟩ ⟨⟨_, hstdin⟩, ⟨_, _, _, hsession⟩, hsenders⟩
    cases hstdin
    refine ⟨?_, fun g => ?_⟩
    · show output.session.attachment = {}
      rw [hsession]
    · have hnone : output.senders g = none := congrFun hsenders g
      simp only [Side.standingOf, live, hnone, Option.elim_none, Option.bind_none]
  leases _ _ _ _ h tied := live_leases h tied
  moves _ _ _ _ h tied := live_moves h tied
  reads stdin stdin' output h := by simp only [live, h]
  publishes stdin stdin' output g offset h := by
    refine ⟨rfl, funext fun g' => ?_⟩
    by_cases hg : g' = g
    · subst hg
      simp only [live, h, Function.update_self]
    · simp only [live, h, Function.update_of_ne hg]

/-! ## The finite-output side -/

/-- Only `install` and `clear` change the leases of a finite-output session. -/
theorem bounded_attachment {o o' : Bounds.State} {a : Bounds.Act} (h : Bounds.Moved o a o') :
    o'.attachment = match a with
      | .install force => leasesAfter (some (.install force)) o.attachment
      | .clear g => leasesAfter (some (.clear g)) o.attachment
      | _ => o.attachment := by
  have called : ∀ (call : Bounds.Call) (clock : Bounds.Clock),
      (o.call call clock).1.attachment = o.attachment := fun call clock => by
    cases call <;> rfl
  have observed : ∀ st result tail, (o.observe st result tail).attachment = o.attachment := by
    intro st result tail
    unfold Bounds.State.observe
    split
    · rfl
    · split <;> rfl
    · rfl
  cases h with
  | installed accepted => simp only [leasesAfter, accepted]
  | refused rejected => simp only [leasesAfter, rejected]
  | waited _ =>
    unfold Bounds.State.wait
    split <;> rfl
  | operationStep _ h =>
    obtain ⟨_, _, rfl⟩ := Option.map_eq_some_iff.mp h
    dsimp only
    split <;> rfl
  | collector h =>
    cases h with
    | called _ => exact called _ _
    | looked _ h => cases h <;> rfl
    | observed _ => exact observed _ _ _
    | _ => rfl
  | writer _ _ h =>
    cases h with
    | called _ => exact called _ _
    | _ => rfl
  | replay _ h =>
    cases h with
    | called _ => exact called _ _
    | _ => rfl
  | sender _ h => cases h <;> rfl
  | _ => rfl

/-- A joint step leases the same on both sides, for finite output. -/
theorem bounded_leases {limit : Nat} {s t : State Bounds.State} {a : Bounds.Act}
    {joined : Option Stdin.Act} (h : (bounded limit).Stepped s a joined t) :
    t.output.attachment = leasesAfter joined s.output.attachment := by
  obtain ⟨hjoins, _, houtput⟩ := h
  have hleases := bounded_attachment (Bounds.step_moved houtput)
  cases a with
  | attach g offsets position =>
    simp only [bounded] at hjoins
    split at hjoins <;> cases hjoins
    exact hleases
  | publish g position => cases hjoins
  | _ =>
    cases hjoins
    exact hleases

/-- Where the receipts of a finite-output sender stand. -/
def boundedStanding (sender : Option Bounds.Sender) : Standing :=
  { channel := sender.map (·.acknowledgements)
    sent := sender.elim [] fun sender => receiptsOf sender.frames }

/-- What a step of a finite-output sender does to its receipts: it writes what its channel holds, or
nothing. -/
theorem bounded_sender {o o' : Bounds.State} {g : Nat} {sender : Bounds.Sender}
    {act : Bounds.SenderAct} (h : Bounds.SenderMoved o g sender act o') :
    ∃ sender', o'.senders = Function.update o.senders g (some sender') ∧
      (boundedStanding (some sender') = boundedStanding (some sender) ∨
        Moves position current (boundedStanding (some sender)) (boundedStanding (some sender'))) := by
  cases h with
  | reported _ _ =>
    refine ⟨_, rfl, .inl ?_⟩
    simp only [boundedStanding, Option.map_some, Option.elim_some,
      receiptsOf_other _ (f := .outputState _) rfl]
  | receipt _ _ =>
    refine ⟨_, rfl, .inr ?_⟩
    simp only [boundedStanding, Option.map_some, Option.elim_some, receiptsOf_receipt]
    exact .tookWrote (x := boundedStanding (some sender)) rfl rfl
  | emitted _ _ =>
    refine ⟨_, rfl, .inl ?_⟩
    simp only [boundedStanding, Option.map_some, Option.elim_some, receiptsOf_data]
  | replayEnd _ =>
    refine ⟨_, rfl, .inl ?_⟩
    simp only [boundedStanding, Option.map_some, Option.elim_some,
      receiptsOf_other _ (f := .outputEnd _) rfl]
  | _ => exact ⟨_, rfl, .inl rfl⟩

/-- A joint step moves the standing of its actor only, for finite output. -/
theorem bounded_moves {limit : Nat} {s t : State Bounds.State} {a : Bounds.Act}
    {joined : Option Stdin.Act} (h : (bounded limit).Stepped s a joined t)
    (tied : s.output.attachment = s.stdin.attachment) (g' : Nat) :
    (bounded limit).standingOf t g' = (bounded limit).standingOf s g' ∨
      (bounded limit).actor a = some g' ∧
        Moves s.stdin.metadata.stdinPosition (s.stdin.attachment.isCurrent g')
          ((bounded limit).standingOf s g') ((bounded limit).standingOf t g') := by
  obtain ⟨stdin', o'⟩ := t
  obtain ⟨hjoins, _, houtput⟩ := h
  have houtput : Bounds.step s.output a = some o' := houtput
  show boundedStanding (o'.senders g') = boundedStanding (s.output.senders g') ∨
    (bounded limit).actor a = some g' ∧
      Moves _ _ (boundedStanding (s.output.senders g')) (boundedStanding (o'.senders g'))
  have same : o'.senders = s.output.senders →
      boundedStanding (o'.senders g') = boundedStanding (s.output.senders g') := fun h => by rw [h]
  -- a change of the senders that touches neither their channels nor their frames
  have mapped : ∀ f : Bounds.Sender → Bounds.Sender,
      (∀ x, (f x).acknowledgements = x.acknowledgements ∧ (f x).frames = x.frames) →
      ∀ sender, boundedStanding (sender.map f) = boundedStanding sender := by
    intro f hf sender
    cases sender with
    | none => rfl
    | some sender => simp only [boundedStanding, Option.map_some, Option.elim_some, hf sender]
  cases Bounds.step_moved houtput with
  | @sender g sender act _ hattached h =>
    obtain ⟨sender', ho, hmoves⟩ := bounded_sender h
    rw [ho]
    by_cases hg : g' = g
    · subst hg
      rw [Function.update_self, hattached]
      exact hmoves.imp_right fun h => ⟨rfl, h⟩
    · rw [Function.update_of_ne hg]
      exact .inl rfl
  | @attached g offsets stdin hcurrent hfresh _ =>
    simp only [bounded] at hjoins
    split at hjoins
    · rename_i hposition
      by_cases hg : g' = g
      · subst hg
        refine .inr ⟨rfl, ?_⟩
        simp only [Bounds.State.attach, Bounds.State.setSender, Function.update_self, hfresh,
          hposition]
        exact .opened (x := boundedStanding none) (tied ▸ hcurrent) rfl
      · left
        simp only [Bounds.State.attach, Bounds.State.setSender, Function.update_of_ne hg]
    · cases hjoins
  | published _ => cases hjoins
  | @waited result _ =>
    left
    cases result with
    | ok status => exact mapped (fun x => { x with missedExit := true }) (fun _ => ⟨rfl, rfl⟩) _
    | error error => rfl
  | operationStep _ h =>
    left
    obtain ⟨_, _, rfl⟩ := Option.map_eq_some_iff.mp h
    dsimp only
    split
    · exact mapped (fun x => { x with missedAbsence := true }) (fun _ => ⟨rfl, rfl⟩) _
    · rfl
  | collector h => exact .inl (same (Bounds.collector_view h).senders)
  | writer _ _ h => exact .inl (same (Bounds.writer_view h).senders)
  | @replay r _ _ _ h =>
    left
    rcases (Bounds.replay_view h).2 with ⟨_, _, hsenders, _⟩ | ⟨result, _, _, hsenders⟩
    · exact same hsenders
    · rw [hsenders]
      by_cases hg : g' = r.generation
      · rw [hg, Function.update_self]
        refine mapped (·.deliver result) (fun x => ?_) _
        dsimp only [Bounds.Sender.deliver]
        split <;> exact ⟨rfl, rfl⟩
      · rw [Function.update_of_ne hg]
  | _ => exact .inl rfl

/-- **The broker with finite output is lawful.** -/
theorem bounded_lawful (limit : Nat) : (bounded limit).Lawful where
  starts := by
    rintro ⟨stdin, output⟩ ⟨⟨_, hstdin⟩, _, _, _, _, _, houtput⟩
    cases hstdin
    cases houtput
    exact ⟨rfl, fun _ => rfl⟩
  leases _ _ _ _ h _ := bounded_leases h
  moves _ _ _ _ h tied := bounded_moves h tied
  reads _ _ _ _ := rfl
  publishes stdin stdin' output g offset _ := by
    cases hsender : output.senders g with
    | none =>
      have hsame : (bounded limit).publish output g offset = output := by
        simp only [bounded, Bounds.step, hsender, Option.getD_none]
      rw [hsame]
      refine ⟨rfl, funext fun g' => ?_⟩
      by_cases hg : g' = g
      · subst hg
        rw [Function.update_self]
        simp only [bounded, hsender, Option.map_none]
      · rw [Function.update_of_ne hg]
        rfl
    | some sender =>
      have hafter : (bounded limit).publish output g offset = output.setSender g
          { sender with acknowledgements := sender.acknowledgements.publish offset } := by
        simp only [bounded, Bounds.step, hsender, Option.getD_some]
      rw [hafter]
      refine ⟨rfl, funext fun g' => ?_⟩
      by_cases hg : g' = g
      · subst hg
        simp only [bounded, Bounds.State.setSender, Function.update_self, hsender, Option.map_some,
          Option.elim_some]
      · simp only [bounded, Bounds.State.setSender, Function.update_of_ne hg]

end Pipekeep.Receipts
