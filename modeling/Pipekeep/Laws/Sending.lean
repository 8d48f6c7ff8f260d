import Pipekeep.Laws.Changed

/-!
# A sender that runs delivers

Every step that a buffered sender takes by itself gets nearer to the end of the recorded output, of
its turn, or of what can still wake it (`weight`). So a sender that runs while the session stands
comes to a stop, and there it has sent all that is recorded: it sleeps, or it has sent the exit.
-/

namespace Pipekeep.Changed

open Buffered (Stage Sender serve terminalStatus readAt)

variable {hardened : Bool}

/-! ## What is left to send -/

/-- How many recorded bytes a sender has not sent. -/
def remaining (session : Session) (sender : Sender) : Nat :=
  (session.metadata.ends.stdout - sender.position.stdout) +
    (session.metadata.ends.stderr - sender.position.stderr)

/-- How far a turn is from its end. A receipt that is due makes a new turn of a sleep. -/
def rank (acknowledged registered : Bool) : Stage → Nat
  -- the turn that takes a receipt gives up the weight of its being due
  | .top => if acknowledged then 0 else 6
  | .receipt _ => 5
  | .look => if registered then 3 else 4
  | .reading _ _ => 2
  | .emit _ _ => 1
  | .exit _ => 1
  | .waiting => if acknowledged then 1 else 0
  | .done => 0

/-- What bounds the steps that a sender can take by itself. -/
def weight (session : Session) (sender : Sender) (acknowledged : Bool) (registered : Option Bool) :
    Nat :=
  16 * remaining session sender + (if acknowledged then 8 else 0) +
    (if registered = some true then 7 else 0) + rank acknowledged registered.isSome sender.stage

theorem weight_le (session : Session) (sender : Sender) (acknowledged : Bool)
    (registered : Option Bool) :
    weight session sender acknowledged registered ≤ 16 * remaining session sender + 21 := by
  have hrank : rank acknowledged registered.isSome sender.stage ≤ 6 := by
    unfold rank
    split <;> first | omega | (split <;> omega)
  unfold weight
  split <;> split <;> omega

/-! ## Own steps -/

/-- **What a step of its own does to a sender with authority.** -/
inductive Ran (session : Session) (sender : Sender) : Buffered.SenderAct → Sender → Prop
  | turn (receipt : Option Nat) (stage : sender.stage = .top) :
      Ran session sender (.turn receipt)
        { sender with stage := receipt.elim .look .receipt }
  | receipt {position : Nat} (stage : sender.stage = .receipt position) :
      Ran session sender .receipt
        { sender with stage := .look, frames := sender.frames ++ [.stdinPosition position] }
  | look (stage : sender.stage = .look) :
      Ran session sender .look
        { sender with
          stage := serve sender session.metadata.ends (terminalStatus session.metadata) }
  | read {count : Nat} {st : Stream} {stop : Nat} {data : List UInt8}
      (stage : sender.stage = .reading st stop)
      (read : readAt (session.files.get st) (sender.position.get st) stop count = some data)
      (bytes : 0 < data.length) :
      Ran session sender (.read count) { sender with stage := .emit st data }
  | sent {st : Stream} {data : List UInt8} (stage : sender.stage = .emit st data) :
      Ran session sender .emit
        { sender with
          stage := .top
          position := sender.position.set st (sender.position.get st + data.length)
          preferStdout := st == .stderr
          frames := sender.frames ++ [.outputData st (sender.position.get st) data] }
  | exited {status : ExitResult} (stage : sender.stage = .exit status) :
      Ran session sender .emit
        { sender with stage := .done, frames := sender.frames ++ [.exit status] }
  | woken (stage : sender.stage = .waiting) :
      Ran session sender .wake { sender with stage := .top }

theorem length_readAt {file data : List UInt8} {offset stop count : Nat}
    (h : readAt file offset stop count = some data) : data.length = count := by
  unfold readAt at h
  split at h <;> cases h
  rename_i hcount
  rw [List.length_take, List.length_drop]
  omega

theorem senderStep_ran {session : Session} {g : Nat} {sender new : Sender}
    {act : Buffered.SenderAct} (current : session.attachment.isCurrent g = true)
    (h : Buffered.senderStep session g sender act = some new) (unstopped : act ≠ .stop)
    (bytes : act ≠ .read 0) : Ran session sender act new := by
  unfold Buffered.senderStep at h
  dsimp only at h
  rw [current] at h
  split at h
  · rename_i receipt hstage
    cases receipt with
    | none =>
      cases h
      exact .turn none hstage
    | some position =>
      cases h
      exact .turn (some position) hstage
  · rename_i hstage
    cases h
    exact .receipt hstage
  · rename_i hstage
    cases h
    exact .look hstage
  · rename_i st stop count hstage
    split at h
    · cases h
    · rename_i hread
      have hzero : 0 = count := length_readAt hread
      subst hzero
      exact absurd rfl bytes
    · rename_i data hnil hread
      cases h
      refine .read hstage hread (List.length_pos_iff.mpr hnil)
  · rename_i hstage
    cases h
    exact .sent hstage
  · rename_i hstage
    cases h
    exact .exited hstage
  · rename_i hstage
    cases h
    exact .woken hstage
  · cases h
  · exact absurd rfl unstopped
  · cases h

/-- **What an own step does** to a sender, to whether a receipt is due, and to its registration. -/
inductive Went (session : Session) (sender : Sender) (acknowledged : Bool)
    (registered : Option Bool) : Sender → Bool → Option Bool → Prop
  | registered (stage : sender.stage = .look) (fresh : registered = none) :
      Went session sender acknowledged registered sender acknowledged (some false)
  | turn {receipt : Option Nat} {new : Sender} (ran : Ran session sender (.turn receipt) new)
      (due : receipt.isSome = acknowledged) :
      Went session sender acknowledged registered new false registered
  | looked {new : Sender} {left : Option Bool} (ran : Ran session sender .look new)
      (before : registered.isSome = true) (left_or : left = registered ∨ left = none) :
      Went session sender acknowledged registered new acknowledged left
  | woken {new : Sender} (ran : Ran session sender .wake new)
      (source : acknowledged = true ∨ registered = some true) :
      Went session sender acknowledged registered new acknowledged none
  | other {act : Buffered.SenderAct} {new : Sender} (ran : Ran session sender act new)
      (turn : ∀ receipt, act ≠ .turn receipt) (look : act ≠ .look) (wake : act ≠ .wake) :
      Went session sender acknowledged registered new acknowledged registered

section Weight

variable {session : Session} {sender new : Sender} {acknowledged after : Bool}
  {registered left : Option Bool}

theorem rank_serve_le (registered : Bool) {ends : PerStream Nat} {terminal : Option ExitResult} :
    rank acknowledged registered (serve sender ends terminal) ≤ 2 := by
  unfold serve
  dsimp only
  split
  · exact Nat.le_refl _
  split
  · exact Nat.le_refl _
  split
  · exact Nat.le_succ _
  · unfold rank
    dsimp only
    split <;> omega

theorem remaining_sent {st : Stream} {count : Nat} {sent : Sender}
    (position : sent.position = sender.position.set st (sender.position.get st + count))
    (recorded : sender.position.get st + count ≤ session.metadata.ends.get st) :
    remaining session sent + count = remaining session sender := by
  unfold remaining
  rw [position]
  cases st with
  | stdout =>
    have hrecorded : sender.position.stdout + count ≤ session.metadata.ends.stdout := recorded
    show session.metadata.ends.stdout - (sender.position.stdout + count) +
      (session.metadata.ends.stderr - sender.position.stderr) + count = _
    omega
  | stderr =>
    have hrecorded : sender.position.stderr + count ≤ session.metadata.ends.stderr := recorded
    show session.metadata.ends.stdout - sender.position.stdout +
      (session.metadata.ends.stderr - (sender.position.stderr + count)) + count = _
    omega

/-- An own step gets nearer to the end of the output, of a turn, or of what can still wake it. -/
theorem went_lighter (hi : Buffered.SenderInv session sender)
    (chunk : ∀ st data, sender.stage = .emit st data → 0 < data.length)
    (h : Went session sender acknowledged registered new after left) :
    weight session new after left < weight session sender acknowledged registered := by
  cases h with
  | registered stage fresh =>
    subst fresh
    simp [weight, stage, rank]
  | @turn receipt new ran due =>
    cases ran with
    | turn _ stage =>
      subst due
      cases receipt with
      | none =>
        have hlook : rank false registered.isSome .look ≤ 4 := by
          cases registered.isSome <;> decide
        have htop : rank false registered.isSome .top = 6 := rfl
        have hsame : remaining session { sender with stage := .look } = remaining session sender :=
          rfl
        simp only [weight, stage, Option.elim_none, Option.isSome_none, hsame, htop]
        omega
      | some position =>
        simp only [weight, stage, rank, remaining, Option.elim_some, Option.isSome_some]
        simp
        omega
  | looked ran before left_or =>
    cases ran with
    | look stage =>
      have hrank : rank acknowledged left.isSome
          (serve sender session.metadata.ends (terminalStatus session.metadata)) ≤ 2 :=
        rank_serve_le left.isSome
      have hwoken : (if left = some true then 7 else 0) ≤
          if registered = some true then 7 else 0 := by
        rcases left_or with rfl | rfl
        · exact Nat.le_refl _
        · exact Nat.zero_le _
      have hlook : rank acknowledged registered.isSome sender.stage = 3 := by
        rw [stage, before]
        rfl
      have hsame : remaining session { sender with
          stage := serve sender session.metadata.ends (terminalStatus session.metadata) } =
          remaining session sender := rfl
      simp only [weight, hlook, hsame]
      omega
  | woken ran source =>
    cases ran with
    | woken stage =>
      have hsame : remaining session { sender with stage := .top } = remaining session sender := rfl
      -- a receipt that is due is still due after the wake-up, a notification is used up
      rcases source with rfl | rfl
      · simp only [weight, stage, hsame, rank, if_true, reduceCtorEq, if_false]
        omega
      · simp only [weight, stage, hsame, rank, if_true, reduceCtorEq, if_false]
        split <;> omega
  | other ran turn look wake =>
    cases ran with
    | receipt stage =>
      have hsame : ∀ frames, remaining session { sender with stage := .look, frames := frames } =
          remaining session sender := fun _ => rfl
      simp only [weight, stage, hsame, rank]
      split <;> split <;> split <;> omega
    | read stage read bytes =>
      have hsame : ∀ stage, remaining session { sender with stage := stage } =
          remaining session sender := fun _ => rfl
      simp only [weight, stage, hsame, rank]
      omega
    | @sent st data stage =>
      have hstage := hi.stage
      rw [stage] at hstage
      have hbytes := chunk st data stage
      have hless : remaining session { sender with
          stage := .top
          position := sender.position.set st (sender.position.get st + data.length)
          preferStdout := st == .stderr
          frames := sender.frames ++ [.outputData st (sender.position.get st) data] } +
            data.length = remaining session sender := remaining_sent rfl hstage.1
      simp only [weight, stage, rank]
      split <;> omega
    | exited stage =>
      have hsame : ∀ frames, remaining session { sender with stage := .done, frames := frames } =
          remaining session sender := fun _ => rfl
      simp only [weight, stage, hsame, rank]
      omega
    | turn receipt stage => exact absurd rfl (turn receipt)
    | look stage => exact absurd rfl look
    | woken stage => exact absurd rfl wake

/-- A sender that sleeps is woken by a receipt or by the notification. -/
theorem went_waiting (waiting : sender.stage = .waiting)
    (h : Went session sender acknowledged registered new after left) :
    acknowledged = true ∨ registered = some true := by
  cases h with
  | registered stage _ =>
    rw [waiting] at stage
    cases stage
  | turn ran _ =>
    cases ran with
    | turn _ stage =>
      rw [waiting] at stage
      cases stage
  | looked ran _ _ =>
    cases ran with
    | look stage =>
      rw [waiting] at stage
      cases stage
  | woken _ source => exact source
  | other ran turn look wake =>
    cases ran with
    | turn receipt _ => exact absurd rfl (turn receipt)
    | look _ => exact absurd rfl look
    | woken _ => exact absurd rfl wake
    | receipt stage | read stage _ _ | sent stage | exited stage =>
      rw [waiting] at stage
      cases stage

/-- The exit of the session is among a sender's frames, behind all of its output. -/
def Exited (session : Session) (sender : Sender) : Prop :=
  (∀ st, sender.position.get st = session.metadata.ends.get st) ∧
    ∃ status, terminalStatus session.metadata = some status ∧ .exit status ∈ sender.frames

/-- A sender that ends by itself has sent the exit. -/
theorem went_done (hi : Buffered.SenderInv session sender)
    (h : Went session sender acknowledged registered new after left) (done : new.stage = .done) :
    Exited session new := by
  cases h with
  | registered stage _ =>
    rw [stage] at done
    cases done
  | @turn receipt new ran _ =>
    cases ran with
    | turn _ _ => cases receipt <;> cases done
  | looked ran _ _ =>
    cases ran with
    | look _ =>
      have hserve : serve sender session.metadata.ends (terminalStatus session.metadata) = .done :=
        done
      unfold serve at hserve
      dsimp only at hserve
      split at hserve
      · cases hserve
      split at hserve
      · cases hserve
      split at hserve <;> cases hserve
  | woken ran _ =>
    cases ran with
    | woken _ => cases done
  | other ran turn look wake =>
    cases ran with
    | exited stage =>
      rename_i status
      have hstage := hi.stage
      rw [stage] at hstage
      obtain ⟨hstatus, hclosed⟩ := hstage
      have hout : session.metadata.closed.stdout = true := (hclosed .stdout).1
      have herr : session.metadata.closed.stderr = true := (hclosed .stderr).1
      refine ⟨fun st => (hclosed st).2, status, ?_, List.mem_append_right _ List.mem_cons_self⟩
      simp [terminalStatus, hstatus, hout, herr]
    | turn receipt _ => cases receipt <;> cases done
    | look _ => exact absurd rfl look
    | _ => cases done

end Weight

/-! ## Own steps of the broker -/

/-- What is sent next was read, and a read that returns nothing ends the sender. -/
theorem senderStep_chunk {session : Session} {g : Nat} {sender new : Sender}
    {act : Buffered.SenderAct} (h : Buffered.senderStep session g sender act = some new)
    {st : Stream} {data : List UInt8} (stage : new.stage = .emit st data) : 0 < data.length := by
  unfold Buffered.senderStep at h
  dsimp only at h
  split at h
  · split at h
    · split at h <;> cases h <;> cases stage
    · cases h
      cases stage
  · split at h <;> cases h <;> cases stage
  · cases h
    unfold serve at stage
    dsimp only at stage
    split at stage
    · cases stage
    split at stage
    · cases stage
    split at stage <;> cases stage
  · split at h
    · cases h
    · cases h
      cases stage
    · rename_i data hnil hread
      cases h
      cases stage
      exact List.length_pos_iff.mpr hnil
  · split at h <;> cases h <;> cases stage
  · split at h <;> cases h <;> cases stage
  · cases h
    cases stage
  · cases h
  · cases h
    cases stage
  · cases h

/-- A chunk that was read has bytes. -/
theorem reachable_chunk {o : Buffered.State} (h : (Buffered.machine hardened).Reachable o) :
    ∀ g sender, o.senders g = some sender → ∀ st data, sender.stage = .emit st data →
      0 < data.length := by
  refine h.invariant (P := fun o => ∀ g sender, o.senders g = some sender → ∀ st data,
    sender.stage = .emit st data → 0 < data.length) ?_ ?_
  · intro s hinit g sender hg
    rw [hinit.2] at hg
    cases hg
  intro s act t _ hi _ hstep
  have hstep : Buffered.step hardened s act = some t := hstep
  cases act with
  | session act =>
    obtain ⟨p, -, rfl⟩ := Option.map_eq_some_iff.mp hstep
    exact hi
  | attach g offsets =>
    simp only [Buffered.step] at hstep
    split at hstep <;> cases hstep
    apply Parties.forall_update_some
    · intro st data hstage
      cases hstage
    · intro g' sender' _ hg
      exact hi g' sender' hg
  | sender g act =>
    simp only [Buffered.step] at hstep
    split at hstep
    · cases hstep
    rename_i sender hg
    obtain ⟨new, hnew, rfl⟩ := Option.map_eq_some_iff.mp hstep
    apply Parties.forall_update_some
    · intro st data hstage
      exact senderStep_chunk hnew hstage
    · intro g' sender' _ hg'
      exact hi g' sender' hg'

section Broker

variable {s t : Watched.State (Receipts.State Buffered.State) Task Nat} {g : Nat} {sender : Sender}

/-- A step of a sender with authority, in the broker. -/
theorem sender_stepped {b b' : Receipts.State Buffered.State} {act : Buffered.SenderAct}
    (present : b.output.senders g = some sender)
    (current : b.output.session.attachment.isCurrent g = true)
    (h : (Receipts.buffered hardened).broker.step b (.output (.sender g act)) = some b')
    (unstopped : act ≠ .stop) (bytes : act ≠ .read 0) :
    ∃ new, Ran b.output.session sender act new ∧ b'.output = b.output.setSender g new ∧
      ∃ joined, (Receipts.buffered hardened).Stepped b (.sender g act) joined b' := by
  obtain ⟨joined, hstepped⟩ := Receipts.Side.output_eq_some h
  have houtput : Buffered.step hardened b.output (.sender g act) = some b'.output := hstepped.output
  simp only [Buffered.step, present] at houtput
  obtain ⟨new, hnew, hb'⟩ := Option.map_eq_some_iff.mp houtput
  exact ⟨new, senderStep_ran current hnew unstopped bytes, hb'.symm, joined, hstepped⟩

/-- A turn takes the receipt that is due. -/
theorem turn_acknowledged {b b' : Receipts.State Buffered.State} {receipt : Option Nat}
    {joined : Option Stdin.Act} (current : b.stdin.attachment.isCurrent g = true)
    (h : (Receipts.buffered hardened).Stepped b (.sender g (.turn receipt)) joined b') :
    receipt.isSome = acknowledged b.stdin g ∧ acknowledged b'.stdin g = false := by
  have hjoins : Receipts.turnJoins b.stdin g receipt = some joined := h.joins
  have hinput := h.input
  unfold Receipts.turnJoins at hjoins
  split at hjoins
  · rename_i hdue
    cases hjoins
    cases receipt with
    | none =>
      have hnone : acknowledged b.stdin g = false := by
        simp only [Receipts.due, current, if_true] at hdue
        cases hr : b.stdin.receipts g with
        | none => simp [acknowledged, hr]
        | some r => simpa [acknowledged, hr] using hdue
      have hsame : b.stdin = b'.stdin := Option.some.inj hinput
      exact ⟨hnone.symm, hsame ▸ hnone⟩
    | some position =>
      simp only [Receipts.due, current, if_true] at hdue
      obtain ⟨r, hr, hchanged⟩ := Option.bind_eq_some_iff.mp hdue.symm
      split at hchanged <;> cases hchanged
      rename_i hchanged
      have htake : Stdin.step false b.stdin (.takeReceipt g) = some b'.stdin := hinput
      have htaken := Receipts.takeReceipt_receipts current htake
      refine ⟨?_, ?_⟩
      · simp [acknowledged, hr, hchanged]
      · simp [acknowledged, htaken, hr, Stdin.Receipts.take, hchanged]
  · cases hjoins

/-- A step of a sender that is no turn, in the broker. -/
theorem sender_went {b b' : Receipts.State Buffered.State} {act : Buffered.SenderAct}
    (present : b.output.senders g = some sender)
    (current : b.output.session.attachment.isCurrent g = true)
    (h : (Receipts.buffered hardened).broker.step b (.output (.sender g act)) = some b')
    (unstopped : act ≠ .stop) (bytes : act ≠ .read 0)
    (alone : (Receipts.buffered hardened).joins b.stdin (.sender g act) = some none) :
    ∃ new, Ran b.output.session sender act new ∧ b'.output = b.output.setSender g new ∧
      acknowledged b'.stdin g = acknowledged b.stdin g := by
  obtain ⟨new, hran, houtput, joined, hstepped⟩ :=
    sender_stepped present current h unstopped bytes
  cases alone.symm.trans hstepped.joins
  have hsame : b.stdin = b'.stdin := Option.some.inj hstepped.input
  exact ⟨new, hran, houtput, by rw [hsame]⟩

/-- What a sender's own step leaves alone, and what it does to the sender. -/
structure Own.Stepped (g : Nat) (sender : Sender)
    (s t : Watched.State (Receipts.State Buffered.State) Task Nat) : Prop where
  session : t.state.output.session = s.state.output.session
  owing : t.owing = s.owing
  went : ∃ new, t.state.output.senders g = some new ∧
    Went s.state.output.session sender (acknowledged s.state.stdin g) (s.registered g) new
      (acknowledged t.state.stdin g) (t.registered g)

theorem Own.Stepped.of_output {new : Sender}
    (output : t.state.output = s.state.output.setSender g new) (owing : t.owing = s.owing)
    (went : Went s.state.output.session sender (acknowledged s.state.stdin g) (s.registered g) new
      (acknowledged t.state.stdin g) (t.registered g)) : Own.Stepped g sender s t := by
  refine ⟨?_, owing, new, ?_, went⟩
  · rw [output]
    rfl
  · rw [output]
    exact Function.update_self ..

theorem own_stepped (hr : (buffered hardened).watched.Reachable s)
    (present : s.state.output.senders g = some sender)
    (current : s.state.output.session.attachment.isCurrent g = true)
    {a : Watched.Act (Receipts.Act Buffered.Act) Task Nat} (own : Own g a)
    (h : (buffered hardened).watched.step s a = some t) : Own.Stepped g sender s t := by
  cases own with
  | register =>
    have h : (buffered hardened).step s (.register g) = some t := h
    simp only [Watched.step, Bool.and_eq_true] at h
    split at h <;> cases h
    rename_i hregisters
    have hlook : sender.stage = .look := by simpa [buffered, present] using hregisters.1
    have hfresh : s.registered g = none := by simpa using hregisters.2
    refine ⟨rfl, rfl, sender, present, ?_⟩
    dsimp only
    rw [Function.update_self]
    exact .registered hlook hfresh
  | turn receipt =>
    obtain ⟨hstep, howing, hregistered⟩ := Watched.act_other h rfl
    obtain ⟨new, hran, houtput, joined, hstepped⟩ :=
      sender_stepped present current hstep (by simp) (by simp)
    have tied : s.state.output.session.attachment = s.state.stdin.attachment :=
      (Receipts.Side.reachable_inv (Receipts.buffered_lawful hardened)
        (Watched.reachable_state hr)).tied
    obtain ⟨hdue, hafter⟩ := turn_acknowledged (tied ▸ current) hstepped
    refine .of_output houtput howing ?_
    rw [hafter, hregistered]
    exact .turn hran hdue
  | receipt =>
    obtain ⟨hstep, howing, hregistered⟩ := Watched.act_other h rfl
    obtain ⟨new, hran, houtput, hsame⟩ := sender_went present current hstep (by simp) (by simp) rfl
    refine .of_output houtput howing ?_
    rw [hsame, hregistered]
    exact .other hran (by simp) (by simp) (by simp)
  | look =>
    obtain ⟨hstep, howing, hbefore, hleft⟩ := Watched.act_look h rfl
    obtain ⟨new, hran, houtput, hsame⟩ := sender_went present current hstep (by simp) (by simp) rfl
    refine .of_output houtput howing ?_
    rw [hsame]
    exact .looked hran hbefore hleft
  | @read count bytes =>
    obtain ⟨hstep, howing, hregistered⟩ := Watched.act_other h rfl
    have hcount : Buffered.SenderAct.read count ≠ .read 0 := by
      intro heq
      cases heq
      exact Nat.lt_irrefl 0 bytes
    obtain ⟨new, hran, houtput, hsame⟩ := sender_went present current hstep (by simp) hcount rfl
    refine .of_output houtput howing ?_
    rw [hsame, hregistered]
    exact .other hran (by simp) (by simp) (by simp)
  | emit =>
    obtain ⟨hstep, howing, hregistered⟩ := Watched.act_other h rfl
    obtain ⟨new, hran, houtput, hsame⟩ := sender_went present current hstep (by simp) (by simp) rfl
    refine .of_output houtput howing ?_
    rw [hsame, hregistered]
    exact .other hran (by simp) (by simp) (by simp)
  | wake =>
    obtain ⟨hstep, howing, hsource, hnone⟩ := Watched.act_wake h rfl
    obtain ⟨new, hran, houtput, hsame⟩ := sender_went present current hstep (by simp) (by simp) rfl
    refine .of_output houtput howing ?_
    rw [hsame, hnone]
    exact .woken hran hsource

/-! ## A sender that can go on -/

/-- The sender's part of a step goes with the input side's. -/
theorem sender_enabled (hardened : Bool) {b : Receipts.State Buffered.State}
    (act : Buffered.SenderAct)
    (present : b.output.senders g = some sender)
    (h : ∃ new, Buffered.senderStep b.output.session g sender act = some new)
    (joins : (Receipts.buffered hardened).joins b.stdin (.sender g act) = some none ∨
      ∃ joined stdin, (Receipts.buffered hardened).joins b.stdin (.sender g act) =
        some (some joined) ∧ Stdin.step false b.stdin joined = some stdin) :
    ∃ b', (Receipts.buffered hardened).broker.step b (.output (.sender g act)) = some b' := by
  obtain ⟨new, hnew⟩ := h
  have hmachine : (Receipts.buffered hardened).machine.step b.output (.sender g act) =
      some (b.output.setSender g new) := by
    show Buffered.step hardened b.output (.sender g act) = _
    simp only [Buffered.step, present, hnew, Option.map_some]
  show ∃ b', (Receipts.buffered hardened).step b (.output (.sender g act)) = some b'
  rcases joins with hjoins | ⟨joined, stdin, hjoins, hstdin⟩
  · simp only [Receipts.Side.step, hjoins, hmachine]
    exact ⟨_, rfl⟩
  · have hinput : (Receipts.buffered hardened).input b joined (b.output.setSender g new) =
        some { stdin, output := b.output.setSender g new } :=
      congrArg (Option.map _) hstdin
    simp only [Receipts.Side.step, hjoins, hmachine]
    exact ⟨_, hinput⟩

theorem other_enabled (hardened : Bool) (act : Buffered.SenderAct)
    (role : (buffered hardened).role s.state (.output (.sender g act)) = .other)
    (present : s.state.output.senders g = some sender)
    (h : ∃ new, Buffered.senderStep s.state.output.session g sender act = some new)
    (joins : (Receipts.buffered hardened).joins s.state.stdin (.sender g act) = some none ∨
      ∃ joined stdin, (Receipts.buffered hardened).joins s.state.stdin (.sender g act) =
        some (some joined) ∧ Stdin.step false s.state.stdin joined = some stdin) :
    ∃ t, (buffered hardened).watched.step s (.act (.output (.sender g act))) = some t := by
  obtain ⟨b, hb⟩ := sender_enabled hardened act present h joins
  exact Watched.act_enabled hb (by simp [role]) (by simp [role]) (by simp [role])

/-- The bytes that a snapshot has found are in the spool file. -/
theorem read_enabled (hardened : Bool) (hr : (Buffered.machine hardened).Reachable s.state.output)
    (present : s.state.output.senders g = some sender) {st : Stream} {stop : Nat}
    (stage : sender.stage = .reading st stop) :
    ∃ new, Buffered.senderStep s.state.output.session g sender (.read 1) = some new := by
  have hi := Buffered.reachable_inv hr
  have hstage := (hi.senders g sender present).stage
  rw [stage] at hstage
  obtain ⟨hbehind, hstop⟩ := hstage
  have hfile : (s.state.output.session.lane st).stop ≤
      (s.state.output.session.files.get st).length := ((hi.session.lanes st).spool rfl).2
  have hchunk : 1 ≤ chunkSize := by decide
  have hread : readAt (s.state.output.session.files.get st) (sender.position.get st) stop 1 =
      some (((s.state.output.session.files.get st).drop (sender.position.get st)).take 1) := by
    unfold readAt
    rw [if_pos]
    refine ⟨Nat.le_min.mpr ⟨?_, hchunk⟩, ?_⟩ <;> omega
  simp only [Buffered.senderStep, stage, hread]
  split
  · rename_i hnone
    cases hnone
  · exact ⟨_, rfl⟩
  · exact ⟨_, rfl⟩

/-- **A sender can go on** unless it has ended, or it sleeps and nothing has woken it. -/
theorem own_enabled (hr : (buffered hardened).watched.Reachable s)
    (present : s.state.output.senders g = some sender)
    (current : s.state.output.session.attachment.isCurrent g = true)
    (running : sender.stage ≠ .done)
    (awake : sender.stage = .waiting →
      acknowledged s.state.stdin g = true ∨ s.registered g = some true) :
    ∃ a t, Own g a ∧ (buffered hardened).watched.step s a = some t := by
  cases hstage : sender.stage with
  | top =>
    have hsender : ∃ new, Buffered.senderStep s.state.output.session g sender
        (.turn (Receipts.due s.state.stdin g)) = some new := by
      simp only [Buffered.senderStep, hstage, current, if_true]
      split <;> exact ⟨_, rfl⟩
    obtain ⟨t, ht⟩ := other_enabled hardened (.turn _) rfl present hsender (by
      show Receipts.turnJoins _ _ _ = _ ∨ ∃ joined stdin, Receipts.turnJoins _ _ _ = _ ∧ _
      unfold Receipts.turnJoins
      rw [if_pos rfl]
      cases Receipts.due s.state.stdin g with
      | none => exact .inl rfl
      | some position =>
        refine .inr ⟨.takeReceipt g, ?_⟩
        simp only [Stdin.step]
        split <;> exact ⟨_, rfl, rfl⟩)
    exact ⟨_, t, .turn _, ht⟩
  | receipt position =>
    obtain ⟨t, ht⟩ := other_enabled hardened .receipt rfl present
      (by simp [Buffered.senderStep, hstage, current]) (.inl rfl)
    exact ⟨_, t, .receipt, ht⟩
  | look =>
    cases hregistered : s.registered g with
    | none =>
      have hregisters : ((buffered hardened).registers s.state g &&
          (s.registered g).isNone) = true := by
        simp [buffered, present, hstage, hregistered]
      exact ⟨.register g, _, .register, if_pos hregisters⟩
    | some notified =>
      obtain ⟨b, hb⟩ := sender_enabled hardened .look present
        (by simp [Buffered.senderStep, hstage]) (.inl rfl)
      obtain ⟨t, ht⟩ := Watched.act_enabled (W := buffered hardened) hb
        (by simp [buffered]) (by simp [buffered, hregistered]) (by simp [buffered])
      exact ⟨_, t, .look, ht⟩
  | reading st stop =>
    have hread := read_enabled hardened
      (reachable_output (fun _ _ _ => rfl) (Watched.reachable_state hr)) present hstage
    obtain ⟨t, ht⟩ := other_enabled hardened (.read 1) rfl present hread (.inl rfl)
    exact ⟨_, t, .read Nat.one_pos, ht⟩
  | emit st data =>
    obtain ⟨t, ht⟩ := other_enabled hardened .emit rfl present
      (by simp [Buffered.senderStep, hstage, current]) (.inl rfl)
    exact ⟨_, t, .emit, ht⟩
  | exit status =>
    obtain ⟨t, ht⟩ := other_enabled hardened .emit rfl present
      (by simp [Buffered.senderStep, hstage, current]) (.inl rfl)
    exact ⟨_, t, .emit, ht⟩
  | waiting =>
    obtain ⟨b, hb⟩ := sender_enabled hardened .wake present
      (by simp [Buffered.senderStep, hstage]) (.inl rfl)
    obtain ⟨t, ht⟩ := Watched.act_enabled (W := buffered hardened) hb
      (by simp [buffered]) (by simp [buffered]) (by
        intro i otherwise hrole
        cases hrole
        exact awake hstage)
    exact ⟨_, t, .wake, ht⟩
  | done => exact absurd hstage running

/-- A sender that sleeps and has not been woken takes no step by itself. -/
theorem waiting_stuck (hr : (buffered hardened).watched.Reachable s)
    (present : s.state.output.senders g = some sender)
    (current : s.state.output.session.attachment.isCurrent g = true)
    (waiting : sender.stage = .waiting) (unacknowledged : acknowledged s.state.stdin g = false)
    (unnotified : s.registered g ≠ some true)
    {a : Watched.Act (Receipts.Act Buffered.Act) Task Nat} (own : Own g a) :
    (buffered hardened).watched.step s a = none := by
  cases hstep : (buffered hardened).watched.step s a with
  | none => rfl
  | some t =>
    obtain ⟨-, -, new, -, hwent⟩ := own_stepped hr present current own hstep
    rcases went_waiting waiting hwent with hdue | hnotified
    · rw [unacknowledged] at hdue
      cases hdue
    · exact absurd hnotified unnotified

/-! ## A run of a sender -/

/-- The weight of an attachment's sender. -/
def load (g : Nat) (s : Watched.State (Receipts.State Buffered.State) Task Nat) : Nat :=
  (s.state.output.senders g).elim 0 fun sender =>
    weight s.state.output.session sender (acknowledged s.state.stdin g) (s.registered g)

/-- What holds along a run of a sender by itself, from `s`. -/
structure Running (hardened : Bool) (g : Nat)
    (s t : Watched.State (Receipts.State Buffered.State) Task Nat) : Prop where
  reachable : (buffered hardened).watched.Reachable t
  session : t.state.output.session = s.state.output.session
  owing : t.owing = s.owing
  sender : ∃ sender, t.state.output.senders g = some sender ∧
    (sender.stage = .done → Exited s.state.output.session sender)

theorem running_step {u : Watched.State (Receipts.State Buffered.State) Task Nat}
    (current : s.state.output.session.attachment.isCurrent g = true)
    {a : Watched.Act (Receipts.Act Buffered.Act) Task Nat} (hrunning : Running hardened g s t)
    (own : Own g a) (h : (buffered hardened).watched.step t a = some u) :
    Running hardened g s u ∧ load g u < load g t := by
  obtain ⟨hr, hsession, howing, sender, present, -⟩ := hrunning
  obtain ⟨hsession', howing', new, hnew, hwent⟩ :=
    own_stepped hr present (hsession.symm ▸ current) own h
  have hreachable : (Buffered.machine hardened).Reachable t.state.output :=
    reachable_output (fun _ _ _ => rfl) (Watched.reachable_state hr)
  have hi := (Buffered.reachable_inv hreachable).senders g sender present
  refine ⟨⟨.step hr trivial h, hsession'.trans hsession, howing'.trans howing, new, hnew, ?_⟩, ?_⟩
  · intro done
    rw [← hsession]
    exact went_done hi hwent done
  · have hless := went_lighter hi (reachable_chunk hreachable g sender present) hwent
    simpa [load, present, hnew, hsession'] using hless

end Broker

/-- **A sender that runs delivers.** From any state of a buffered session, let only the task of an
attachment with authority run, on a socket that stands and a file that can be read. It comes to a
stop, after a number of steps that is bounded by what was left to send. Where it can go no further
it has sent all that is recorded, and the exit too if the session has ended; else it sleeps. All
that it may have to wait for is a task that has changed the metadata and not notified yet. -/
theorem running_sender_delivers (hardened : Bool) :
    ∀ s, (buffered hardened).watched.Reachable s → ∀ g sender,
      s.state.output.senders g = some sender → sender.stage ≠ .done →
      s.state.output.session.attachment.isCurrent g = true →
        ∀ as, (∀ a ∈ as, Own g a) → ∀ t, (buffered hardened).watched.run s as = some t →
          as.length ≤ 16 * remaining s.state.output.session sender + 21 ∧
          ((∀ a, Own g a → (buffered hardened).watched.step t a = none) →
            (∀ task, s.owing task = false) →
            ∃ sent, t.state.output.senders g = some sent ∧
              (∀ st, sent.position.get st = s.state.output.session.metadata.ends.get st) ∧
              (terminalStatus s.state.output.session.metadata = none ∧ sent.stage = .waiting ∨
                ∃ status, terminalStatus s.state.output.session.metadata = some status ∧
                  .exit status ∈ sent.frames)) := by
  intro s hr g sender present running current as own t hrun
  have start : Running hardened g s s :=
    ⟨hr, rfl, rfl, sender, present, fun done => absurd done running⟩
  obtain ⟨⟨ht, hsession, howing, sent, hsent, hexited⟩, hlength⟩ :=
    Machine.run_decreasing (M := (buffered hardened).watched) (P := Running hardened g s)
      (fun _ _ _ hs own hstep => running_step current hs own hstep) start own hrun
  refine ⟨?_, fun stuck settled => ⟨sent, hsent, ?_⟩⟩
  · have hload : load g s = weight s.state.output.session sender (acknowledged s.state.stdin g)
        (s.registered g) := by
      simp [load, present]
    have hweight := weight_le s.state.output.session sender (acknowledged s.state.stdin g)
      (s.registered g)
    omega
  -- a sender that takes no step has ended, or sleeps with no source ready
  by_cases hdone : sent.stage = .done
  · obtain ⟨hall, hexit⟩ := hexited hdone
    exact ⟨hall, .inr hexit⟩
  by_cases hwoken : sent.stage = .waiting →
      acknowledged t.state.stdin g = true ∨ t.registered g = some true
  · obtain ⟨a, u, hown, hstep⟩ := own_enabled ht hsent (hsession.symm ▸ current) hdone hwoken
    rw [stuck a hown] at hstep
    cases hstep
  obtain ⟨hwaiting, hasleep⟩ := Classical.not_imp.mp hwoken
  have hidle : Idle t.state g := by
    rcases Watched.informed buffered_sleeps ht (buffered_asleep.mpr ⟨sent, hsent, hwaiting⟩) with
      hnotified | ⟨task, hdebt⟩ | hidle
    · exact absurd (.inr hnotified) hasleep
    · rw [howing, settled task] at hdebt
      cases hdebt
    · exact hidle
  have hreachable : (Buffered.machine hardened).Reachable t.state.output :=
    reachable_output (fun _ _ _ => rfl) (Watched.reachable_state ht)
  have hi := (Buffered.reachable_inv hreachable).senders g sent hsent
  obtain ⟨hall, hnone⟩ := serve_waiting (fun st => (hi.le st).2) (hidle sent hsent)
  rw [hsession] at hall hnone
  exact ⟨hall, .inl ⟨hnone, hwaiting⟩⟩


/-- A sender that slept through a byte runs, sends it and sleeps again. -/
theorem running_sender_delivers_byte :
    ∃ s sender as t sent, (buffered false).watched.Reachable s ∧
      s.state.output.senders 1 = some sender ∧ sender.frames = [] ∧ (∀ a ∈ as, Own 1 a) ∧
      (buffered false).watched.run s as = some t ∧
      as.length ≤ 16 * remaining s.state.output.session sender + 21 ∧
      t.state.output.senders 1 = some sent ∧ sent.frames = [.stdoutData 0 [7]] ∧
      ∀ st, sent.position.get st = s.state.output.session.metadata.ends.get st := by
  let act (a : Buffered.Act) : Watched.Act (Receipts.Act Buffered.Act) Task Nat := .act (.output a)
  let drain (a : Session.DrainAct) := act (.session (.drain .stdout a))
  let turn := [act (.sender 1 (.turn none)), .register 1, act (.sender 1 .look)]
  let labels := [act (.session (.install false)), act (.attach 1 (.both 0))] ++ turn ++
    [drain (.read [7]), drain .count, drain (.write 1), drain .flush, drain .publish,
      .notify (.drain .stdout)]
  let as := [act (.sender 1 .wake)] ++ turn ++ [act (.sender 1 (.read 1)), act (.sender 1 .emit)] ++
    turn
  have own : ∀ a ∈ as, Own 1 a := by
    intro a ha
    simp only [as, turn, act, List.cons_append, List.nil_append, List.mem_cons, List.not_mem_nil,
      or_false] at ha
    rcases ha with rfl | rfl | rfl | rfl | rfl | rfl | rfl | rfl | rfl
    · exact .wake
    · exact .turn none
    · exact .register
    · exact .look
    · exact .read Nat.one_pos
    · exact .emit
    · exact .turn none
    · exact .register
    · exact .look
  have start : (buffered false).watched.Reachable
      { state := { stdin := { childStdin := true }, output := { session := {} } }
        owing := fun _ => false
        registered := fun _ => none } :=
    .init ⟨⟨⟨true, rfl⟩, ⟨.both .reading, none, fun st => .inl (PerStream.get_both _ st), rfl⟩, rfl⟩,
      rfl, rfl⟩
  have reached := Machine.Reachable.run start labels rfl
  obtain ⟨s, sender, t, sent, hs, present, current, frames, running, settled, hrun, present',
      current', frames', waiting, unacknowledged, unnotified⟩ : ∃ s sender t sent,
      (buffered false).watched.Reachable s ∧ s.state.output.senders 1 = some sender ∧
      s.state.output.session.attachment.isCurrent 1 = true ∧ sender.frames = [] ∧
      sender.stage = .waiting ∧ (∀ task, s.owing task = false) ∧
      (buffered false).watched.run s as = some t ∧ t.state.output.senders 1 = some sent ∧
      t.state.output.session.attachment.isCurrent 1 = true ∧
      sent.frames = [.stdoutData 0 [7]] ∧ sent.stage = .waiting ∧
      acknowledged t.state.stdin 1 = false ∧ t.registered 1 = some false := by
    refine ⟨_, _, _, _, reached, rfl, rfl, rfl, rfl, fun task => ?_, rfl, rfl, rfl, rfl, rfl, rfl,
      rfl⟩
    rcases task with (_ | _) | _ | _ <;> rfl
  have ht : (buffered false).watched.Reachable t := Machine.Reachable.run hs as hrun
  obtain ⟨hlength, hdelivers⟩ := running_sender_delivers false s hs 1 sender present
    (by rw [running]; simp) current as own t hrun
  have stuck : ∀ a, Own 1 a → (buffered false).watched.step t a = none := by
    intro a ha
    exact waiting_stuck ht present' current' waiting unacknowledged (by rw [unnotified]; simp) ha
  obtain ⟨sent', hsent', hall, -⟩ := hdelivers stuck settled
  cases present'.symm.trans hsent'
  exact ⟨s, sender, as, t, sent, hs, present, frames, own, hrun, hlength, present', frames', hall⟩

end Pipekeep.Changed
