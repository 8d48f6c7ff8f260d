import Pipekeep.Laws.ReceiptSides

/-!
# Receipts are truthful

What a receipt says was accepted stays accepted, so the argument is about order alone: the position
never falls, a channel never falls and never passes it, and a sender writes the channel's latest
value only. A step moves the receipts of its own attachment and of no other
(`Side.step_moves`), so a generation that has lost its authority changes no value, its own
included.
-/

namespace Pipekeep.Receipts

variable {O A : Type} {S : Side O A} {s t : State O}

namespace Side

/-- What holds in every state of the two sides together. -/
structure Inv (S : Side O A) (s : State O) : Prop where
  stdin : (Stdin.machine S.nobuffer).Reachable s.stdin
  tied : S.leases s.output = s.stdin.attachment
  truthful : ∀ g, Truthful s.stdin.metadata.stdinPosition (S.standingOf s g)

theorem input_eq_some {act : Stdin.Act} {output : O} (h : S.input s act output = some t) :
    Stdin.step S.nobuffer s.stdin act = some t.stdin ∧ t.output = output := by
  obtain ⟨stdin, hstep, rfl⟩ := Option.map_eq_some_iff.mp h
  exact ⟨hstep, rfl⟩

theorem output_eq_some {act : A} (h : S.step s (.output act) = some t) :
    ∃ joined, S.Stepped s act joined t := by
  simp only [step] at h
  split at h
  · rename_i output hjoins houtput
    cases h
    exact ⟨none, hjoins, rfl, houtput⟩
  · rename_i joined output hjoins houtput
    obtain ⟨hstep, ht⟩ := input_eq_some h
    exact ⟨some joined, hjoins, hstep, ht ▸ houtput⟩
  · cases h

/-- A step of the two sides is a step of the input side, or leaves it alone. -/
theorem step_stdin {a : Act A} (h : S.step s a = some t) :
    t.stdin = s.stdin ∨ ∃ b, Stdin.step S.nobuffer s.stdin b = some t.stdin := by
  cases a with
  | output act =>
    obtain ⟨joined, _, hinput, _⟩ := output_eq_some h
    cases joined with
    | none => exact .inl (Option.some.inj hinput).symm
    | some b => exact .inr ⟨b, hinput⟩
  | _ => exact .inr ⟨_, (input_eq_some h).1⟩

theorem step_leases {a : Act A} (lawful : S.Lawful) (hi : S.Inv s) (h : S.step s a = some t) :
    S.leases t.output = t.stdin.attachment := by
  have hstdin := Stdin.reachable_inv hi.stdin
  cases a with
  | output act =>
    obtain ⟨joined, hstepped⟩ := output_eq_some h
    rw [lawful.leases s act joined t hstepped hi.tied, hi.tied]
    have hinput := hstepped.input
    cases joined with
    | none =>
      rw [← Option.some.inj hinput]
      rfl
    | some b => exact (Receipts.step_leases hstdin hinput).symm
  | acquire op =>
    obtain ⟨hstep, ht⟩ := input_eq_some h
    rw [ht, Receipts.step_leases hstdin hstep]
    exact hi.tied
  | critical poll =>
    obtain ⟨hstep, ht⟩ := input_eq_some h
    rw [ht, Receipts.step_leases hstdin hstep]
    cases hpublish : publication s.stdin with
    | none => exact hi.tied
    | some p =>
      have hreceipts := critical_receipts hstdin hstep
      rw [hpublish] at hreceipts
      exact (lawful.publishes _ _ _ _ _ hreceipts).1.trans hi.tied
  | release =>
    obtain ⟨hstep, ht⟩ := input_eq_some h
    rw [ht, Receipts.step_leases hstdin hstep]
    exact hi.tied

/-- **A step moves the receipts of the attachment whose task takes it, and of no other.** -/
theorem step_moves {a : Act A} (lawful : S.Lawful) (hi : S.Inv s) (h : S.step s a = some t)
    (g : Nat) :
    S.standingOf t g = S.standingOf s g ∨ S.actorOf s a = some g ∧
      Moves s.stdin.metadata.stdinPosition (s.stdin.attachment.isCurrent g) (S.standingOf s g)
        (S.standingOf t g) := by
  have hstdin := Stdin.reachable_inv hi.stdin
  have still : t.stdin.receipts = s.stdin.receipts → t.output = s.output →
      S.standingOf t g = S.standingOf s g := fun hreceipts ht => by
    rw [standingOf, ht, lawful.reads _ _ _ hreceipts, standingOf]
  cases a with
  | output act =>
    obtain ⟨joined, hstepped⟩ := output_eq_some h
    exact lawful.moves s act joined t hstepped hi.tied g
  | acquire op =>
    obtain ⟨hstep, ht⟩ := input_eq_some h
    exact .inl (still (still_receipts hstep (by simp) (by simp) (by simp)) ht)
  | critical poll =>
    obtain ⟨hstep, ht⟩ := input_eq_some h
    have hreceipts := critical_receipts hstdin hstep
    cases hpublish : publication s.stdin with
    | none =>
      rw [hpublish] at hreceipts ht
      exact .inl (still hreceipts ht)
    | some p =>
      rw [hpublish] at hreceipts ht
      have hstanding := (lawful.publishes _ _ s.output _ _ hreceipts).2
      obtain ⟨op, again, hl, hg, hcurrent⟩ := publication_some hpublish
      by_cases hp : g = p.1
      · subst hp
        refine .inr ⟨by rw [actorOf, hl]; exact hg, ?_⟩
        have hafter : S.standingOf t p.1 = _ :=
          (congrArg (S.standing t.stdin · p.1) ht).trans (congrFun hstanding p.1)
        rw [hafter, Function.update_self]
        exact .published hcurrent (Stdin.reachable_accepted hi.stdin op p.2 again hl)
      · left
        have hafter : S.standingOf t g = _ :=
          (congrArg (S.standing t.stdin · g) ht).trans (congrFun hstanding g)
        rw [hafter, Function.update_of_ne hp]
        rfl
  | release =>
    obtain ⟨hstep, ht⟩ := input_eq_some h
    exact .inl (still (still_receipts hstep (by simp) (by simp) (by simp)) ht)

theorem inv_step {a : Act A} (lawful : S.Lawful) (hi : S.Inv s) (h : S.step s a = some t) :
    S.Inv t := by
  refine ⟨?_, step_leases lawful hi h, fun g => ?_⟩
  · rcases step_stdin h with he | ⟨b, hb⟩
    · exact he ▸ hi.stdin
    · exact .step hi.stdin trivial hb
  · have hforward : s.stdin.metadata.stdinPosition ≤ t.stdin.metadata.stdinPosition := by
      rcases step_stdin h with he | ⟨b, hb⟩
      · exact Nat.le_of_eq (by rw [he])
      · exact (Stdin.step_forward (Stdin.reachable_inv hi.stdin) hb).position
    refine Truthful.mono ?_ hforward
    rcases step_moves lawful hi h g with he | ⟨_, hm⟩
    · exact he ▸ hi.truthful g
    · exact (hi.truthful g).moves hm

theorem reachable_inv (lawful : S.Lawful) (h : S.broker.Reachable s) : S.Inv s := by
  refine h.invariant (P := S.Inv) (fun s hs => ?_) fun _ _ _ _ hi _ hs => inv_step lawful hi hs
  obtain ⟨htied, hstanding⟩ := lawful.starts s hs
  exact ⟨.init hs.1, htied, fun g => (hstanding g).symm ▸ truthful_new⟩

/-! ## Authority -/

/-- A generation that was drawn and has lost its authority. -/
def Displaced (s : State O) (g : Nat) : Prop :=
  g < s.stdin.attachment.nextGeneration ∧ s.stdin.attachment.isCurrent g = false

theorem leasesAfter_moved (joined : Option Stdin.Act) (a : AttachmentState) :
    a.Moved (leasesAfter joined a) := by
  unfold leasesAfter
  split
  · split
    · rename_i hinstall
      exact .installed hinstall
    · exact .kept
  · exact .cleared _
  · exact .kept

theorem step_lease_moved {a : Act A} (hi : S.Inv s) (h : S.step s a = some t) :
    s.stdin.attachment.Moved t.stdin.attachment := by
  rcases step_stdin h with he | ⟨b, hb⟩
  · rw [he]
    exact .kept
  · rw [Receipts.step_leases (Stdin.reachable_inv hi.stdin) hb]
    exact leasesAfter_moved _ _

/-- Authority that is lost is lost for good. -/
theorem Displaced.step {a : Act A} {g : Nat} (hd : Displaced s g) (hi : S.Inv s)
    (h : S.step s a = some t) : Displaced t g := by
  have hmoved := step_lease_moved hi h
  refine ⟨Nat.lt_of_lt_of_le hd.1 hmoved.nextGeneration_le, Bool.eq_false_iff.mpr fun hcurrent => ?_⟩
  have hbefore := hmoved.isCurrent hd.1 hcurrent
  rw [hd.2] at hbefore
  cases hbefore

theorem Displaced.run {g : Nat} (hd : Displaced s g) (lawful : S.Lawful)
    (h : S.broker.Reachable s) {as : List (Act A)} (hr : S.broker.run s as = some t) :
    Displaced t g :=
  (h.bounded_while (P := (Displaced · g)) (R := fun _ _ => True) (fun _ => trivial)
    (fun _ _ => trivial) (fun _ _ _ hs hd hstep =>
      ⟨hd.step (reachable_inv lawful hs) hstep, trivial⟩) hd hr).1

theorem displaced_of_loses {a : Act A} {g : Nat} (hi : S.Inv s) (h : S.step s a = some t)
    (held : s.stdin.attachment.isCurrent g = true) (lost : t.stdin.attachment.isCurrent g = false) :
    Displaced t g := by
  have hnewest := (Stdin.reachable_generations hi.stdin).newest g
    (AttachmentState.isCurrent_iff.mp held)
  have := (step_lease_moved hi h).nextGeneration_le
  exact ⟨by omega, lost⟩

/-- What a displaced generation does changes no value of any channel. -/
theorem displaced_receipt {a : Act A} {g : Nat} (lawful : S.Lawful) (hi : S.Inv s)
    (hd : Displaced s g) (h : S.step s a = some t) (acts : S.actorOf s a = some g) (g' : Nat) :
    S.receipt t g' = S.receipt s g' := by
  rcases step_moves lawful hi h g' with he | ⟨hactor, hm⟩
  · rw [receipt, he, receipt]
  · cases acts.symm.trans hactor
    rw [hd.2] at hm
    exact hm.receipt

end Side

/-- What was sent lies between the announced position and the accepted one. -/
theorem Truthful.sent_le {position : Nat} {x : Standing} (h : Truthful position x) {offset : Nat}
    (hoffset : offset ∈ x.sent) :
    (∃ announced, x.channel.map (·.opening) = some announced ∧ announced ≤ offset) ∧
      offset ≤ position := by
  cases hchannel : x.channel with
  | none =>
    rw [(h.unopened hchannel).1] at hoffset
    cases hoffset
  | some r =>
    obtain ⟨hopening, hlatest⟩ := h.within r hchannel offset (List.mem_append_left _ hoffset)
    exact ⟨⟨_, rfl, hopening⟩, Nat.le_trans hlatest (h.accepted r hchannel).2⟩

/-- The receipts a step sends name only what was accepted before it. -/
theorem Side.step_sent {a : Act A} (lawful : S.Lawful) (hi : S.Inv s) (h : S.step s a = some t)
    (g : Nat) :
    ∃ new, S.sent t g = S.sent s g ++ new ∧
      ∀ offset ∈ new, offset ≤ s.stdin.metadata.stdinPosition := by
  rcases step_moves lawful hi h g with he | ⟨_, hm⟩
  · exact ⟨[], by rw [sent, he, sent, List.append_nil], nofun⟩
  · obtain ⟨new, hnew⟩ := hm.sent
    refine ⟨new, hnew, fun offset hoffset => ?_⟩
    refine (((hi.truthful g).moves hm).sent_le ?_).2
    rw [hnew]
    exact List.mem_append_right _ hoffset

theorem Mode.lawful (mode : Mode) : mode.side.Lawful := by
  cases mode with
  | buffered hardened => exact buffered_lawful hardened
  | nobuffer hardened => exact live_lawful hardened
  | bounded limit => exact bounded_lawful limit

/-- In a buffered session every byte below an accepted position was written to the child's pipe. -/
theorem written_of_lt {stdin : Stdin.State} (h : Stdin.Gapless stdin) {offset i : Nat}
    (accepted : offset ≤ stdin.metadata.stdinPosition) (hi : i < offset) :
    i ∈ stdin.received.map Prod.fst := by
  rw [h, List.mem_range]
  exact Nat.lt_of_lt_of_le hi accepted

/-- **Receipts are truthful and monotonic**, in every mode, over every run and for every attachment.
The receipts it was sent never fall, and none is below the stdin position that its opening
announced. A step that sends a receipt sends a position that the broker has accepted, so in a
session that buffers every byte below it was written to the child's pipe. And from the step on by
which a generation loses its authority, to a forced takeover or otherwise, nothing that its tasks do
changes the value of any attachment's channel. -/
theorem receipts_truthful (mode : Mode) {s : State mode.Output}
    (h : mode.side.broker.Reachable s) :
    (∀ g, (mode.side.sent s g).Pairwise (· ≤ ·) ∧
      ∀ offset ∈ mode.side.sent s g,
        ∃ announced, mode.side.opening s g = some announced ∧ announced ≤ offset) ∧
    (∀ a t, mode.side.step s a = some t → ∀ g,
      (∀ announced, mode.side.opening s g = some announced →
        mode.side.opening t g = some announced) ∧
      ∃ new, mode.side.sent t g = mode.side.sent s g ++ new ∧
        ∀ offset ∈ new, offset ≤ s.stdin.metadata.stdinPosition ∧
          (mode.side.nobuffer = false → ∀ i < offset, i ∈ s.stdin.received.map Prod.fst)) ∧
    ∀ a t g, mode.side.step s a = some t → s.stdin.attachment.isCurrent g = true →
      t.stdin.attachment.isCurrent g = false →
      ∀ as u, mode.side.broker.run t as = some u →
        ∀ b v, mode.side.step u b = some v → mode.side.actorOf u b = some g →
          ∀ g', mode.side.receipt v g' = mode.side.receipt u g' := by
  have lawful := mode.lawful
  have hi := Side.reachable_inv lawful h
  refine ⟨fun g => ⟨?_, fun offset hoffset => ((hi.truthful g).sent_le hoffset).1⟩,
    fun a t hstep g => ⟨fun announced hopening => ?_, ?_⟩, ?_⟩
  · exact (hi.truthful g).sorted.sublist (List.sublist_append_left _ _)
  · rcases Side.step_moves lawful hi hstep g with he | ⟨_, hm⟩
    · rw [Side.opening, he]
      exact hopening
    · exact hm.opening hopening
  · obtain ⟨new, hnew, haccepted⟩ := Side.step_sent lawful hi hstep g
    refine ⟨new, hnew, fun offset hoffset => ⟨haccepted offset hoffset, fun hbuffer i hlt => ?_⟩⟩
    have hstdin := hi.stdin
    rw [hbuffer] at hstdin
    exact written_of_lt (Stdin.reachable_gapless hstdin) (haccepted offset hoffset) hlt
  · intro a t g hstep held lost as u hrun b v hlast acts g'
    have ht : mode.side.broker.Reachable t := .step h trivial hstep
    have hdisplaced := (Side.displaced_of_loses hi hstep held lost).run lawful ht hrun
    exact Side.displaced_receipt lawful (Side.reachable_inv lawful (ht.run as hrun)) hdisplaced
      hlast acts g'

/-- A forced takeover comes between a write and its publication. The displaced attachment has had
the receipt of its first write; the second was accepted, but no channel learns of it from there. -/
theorem receipts_truthful_takeover :
    let side := (Mode.buffered false).side
    ∃ s t u v, side.broker.Reachable s ∧
      side.step s (.output (.session (.install true))) = some t ∧
      side.broker.run t [.output (.attach 2 (.both 0))] = some u ∧
      side.step u (.critical .pending) = some v ∧ side.actorOf u (.critical .pending) = some 1 ∧
      side.sent v 1 = [2] ∧ side.receipt u 2 = some 3 ∧ v.stdin.metadata.stdinPosition = 3 ∧
      ∀ g, side.receipt v g = side.receipt u g := by
  intro side
  have start : side.broker.Reachable ⟨{ childStdin := true }, ⟨{}, fun _ => none⟩⟩ :=
    .init ⟨⟨true, rfl⟩, ⟨.both .reading, none, fun st => .inl (by cases st <;> rfl), rfl⟩, rfl⟩
  have reached := start.run
    [.output (.session (.install false)), .output (.attach 1 (.both 0)),
      .acquire (.data 1 0 [7, 8, 9]), .critical (.wrote 2), .critical .pending,
      .output (.sender 1 (.turn (some 2))), .output (.sender 1 .receipt), .critical (.wrote 1)] rfl
  exact ⟨_, _, _, _, reached, rfl, rfl, rfl, rfl, rfl, rfl, rfl,
    (receipts_truthful (.buffered false) reached).2.2 (.output (.session (.install true))) _ 1 rfl
      rfl rfl [.output (.attach 2 (.both 0))] _ rfl (.critical .pending) _ rfl rfl⟩

end Pipekeep.Receipts
