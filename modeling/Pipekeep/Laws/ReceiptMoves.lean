import Pipekeep.Laws.Supersession
import Pipekeep.Receipts

/-!
# What a step does to an attachment's receipts

The input side first: a position that is about to be published was accepted, in a buffered session
the pipe was given every byte below the accepted position, and only an opening, a publication and
the taking of a receipt touch a channel.

`Moves` is what a step of any of the three tasks may do to the receipts of its own attachment, and
`Truthful` what it keeps: what was sent never falls, and lies between the position of the opening
and the channel's latest value, which was accepted. Only moves with authority change a value.
-/

namespace Pipekeep.Stdin

variable {nobuffer : Bool} {s t : State}

/-! ## The input side -/

/-- A position that is about to be published was accepted. -/
def Accepted (s : State) : Prop :=
  ∀ op position again, s.lock = some ⟨op, .publish position again⟩ →
    position ≤ s.metadata.stdinPosition

/-- A section that goes on to publish has just moved the position there, or read it. -/
theorem criticalSection_accepted {op : Op} {poll : Poll} {stage : Stage} {position : Nat}
    {again : Bool}
    (h : criticalSection nobuffer s op poll stage = some (t, .publish position again)) :
    t.metadata.stdinPosition = position := by
  cases stage with
  | start =>
    cases op with
    | opening g stdinStart stdinEof =>
      have h := Option.some.inj h
      unfold openingSection at h
      split at h
      · dsimp only at h
        split at h
        · cases h
        · rename_i shouldClose _
          cases shouldClose <;> cases h
      · cases h
    | data g offset bytes =>
      cases bytes with
      | nil =>
        have h := Option.some.inj h
        unfold emptySection at h
        split at h
        · split at h <;> cases h
          rfl
        · cases h
      | cons b bs =>
        simp only [criticalSection, pollSection] at h
        repeat' split at h
        all_goals cases h
        all_goals rfl
    | eof g offset =>
      have h := Option.some.inj h
      unfold eofSection at h
      split at h
      · dsimp only at h
        split at h <;> cases h
        rfl
      · cases h
    | control offset =>
      have h := Option.some.inj h
      unfold controlSection at h
      dsimp only at h
      split at h
      · cases h
      · rename_i shouldClose _
        cases shouldClose <;> cases h
    | reap => cases h
  | close => cases h
  | publish position' again' =>
    simp only [criticalSection] at h
    split at h
    · cases again' <;> cases h
    · cases h
  | done => cases h
  | superseded => cases h
  | failed e => cases h

theorem accepted_step {a : Act} (ha : Accepted s) (h : step nobuffer s a = some t) :
    Accepted t := by
  intro op position again hl
  by_cases hcr : ∃ poll, a = .critical poll
  · obtain ⟨poll, rfl⟩ := hcr
    simp only [step] at h
    split at h
    · split at h
      · rename_i t' stage' hs
        cases h
        cases hl
        exact Nat.le_of_eq (criticalSection_accepted hs).symm
      · cases h
    · cases h
  · have hq := step_quiet (fun poll he => hcr ⟨poll, he⟩) h
    rw [hq.metadata]
    rcases hq.held hl with hl | ⟨_, _, hstart⟩
    · exact ha op position again hl
    · cases hstart

theorem reachable_accepted (h : (machine nobuffer).Reachable s) : Accepted s := by
  refine h.invariant (P := Accepted) (fun s hs => ?_) fun _ _ _ _ ha _ hs => accepted_step ha hs
  obtain ⟨_, rfl⟩ := hs
  nofun

/-- In a buffered session the child's pipe was given every byte below the position, each once. -/
def Gapless (s : State) : Prop :=
  s.received.map Prod.fst = List.range s.metadata.stdinPosition

theorem gapless_step {a : Act} (hi : Inv s) (hg : Gapless s) (h : step false s a = some t) :
    Gapless t := by
  unfold Gapless at hg ⊢
  by_cases hcr : ∃ poll, a = .critical poll
  · obtain ⟨poll, rfl⟩ := hcr
    obtain ⟨op, stage, t', stage', _, hcrit, rfl⟩ := critical_inv hi.coherent h
    cases hcrit with
    | moved _ _ hpos _ _ =>
      rw [hpos rfl]
      exact hg
    | @wrote g offset start logical count bytes m _ _ hstart _ hcount hm _ _ =>
      have hlogical : logical = s.metadata.stdinPosition := by
        rw [hstart.logical_eq]
        exact Nat.max_eq_left (hstart.gapless rfl)
      have hlength : ((bytes.drop start).take count).length = count := by
        rw [List.length_take, List.length_drop]
        exact Nat.min_eq_left hcount
      show (s.received ++ _).map Prod.fst = List.range m.stdinPosition
      rw [List.map_append, hg, Slice.map_fst_tag, hlength, hm, hlogical, List.range_eq_range',
        List.range_eq_range', ← List.range'_append_1, Nat.zero_add]
    | @published g position _ _ =>
      obtain ⟨hm, _, hr, _⟩ := publishReceipt_metadata s g position
      show (publishReceipt s g position).received.map Prod.fst = _
      rw [hr, hm]
      exact hg
    | _ => exact hg
  · have hq := step_quiet (fun poll he => hcr ⟨poll, he⟩) h
    rw [hq.metadata, hq.received]
    exact hg

theorem reachable_gapless (h : (machine false).Reachable s) : Gapless s :=
  h.invariant (fun _ ⟨_, he⟩ => he ▸ rfl) fun _ _ _ hr hg _ hs =>
    gapless_step (reachable_inv hr) hg hs

end Pipekeep.Stdin

namespace Pipekeep.Receipts

open Stdin (step_quiet)

variable {nobuffer : Bool} {s t : Stdin.State}

/-- A section changes no channel but by the publication that was next. -/
theorem critical_receipts {poll : Stdin.Poll} (hi : Stdin.Inv s)
    (h : Stdin.step nobuffer s (.critical poll) = some t) :
    t.receipts = (publication s).elim s.receipts fun p =>
      Function.update s.receipts p.1 ((s.receipts p.1).map (·.publish p.2)) := by
  obtain ⟨op, stage, t', stage', hl, hcrit, rfl⟩ := Stdin.critical_inv hi.coherent h
  cases hcrit with
  | @published g position again hg =>
    simp only [publication, hl, hg, Option.bind_some, Stdin.publishReceipt]
    split <;> rfl
  | _ =>
    simp only [publication, hl, Option.elim_none]

theorem publication_some {g position : Nat} (h : publication s = some (g, position)) :
    ∃ op again, s.lock = some ⟨op, .publish position again⟩ ∧ op.generation = some g ∧
      s.attachment.isCurrent g = true := by
  unfold publication at h
  split at h
  · rename_i op position' again hl
    obtain ⟨g', hg, h⟩ := Option.bind_eq_some_iff.mp h
    split at h
    · rename_i hcurrent
      cases h
      exact ⟨op, again, hl, hg, hcurrent⟩
    · cases h
  · cases h

/-- The labels that make, publish or take no receipt. -/
theorem still_receipts {a : Stdin.Act} (h : Stdin.step nobuffer s a = some t)
    (hcritical : ∀ poll, a ≠ .critical poll) (hhello : ∀ g, a ≠ .hello g)
    (htake : ∀ g, a ≠ .takeReceipt g) : t.receipts = s.receipts := by
  cases a with
  | critical poll => exact absurd rfl (hcritical poll)
  | hello g => exact absurd rfl (hhello g)
  | takeReceipt g => exact absurd rfl (htake g)
  | install force =>
    simp only [Stdin.step] at h
    split at h
    · cases h
    · split at h <;> cases h <;> rfl
  | clear g =>
    simp only [Stdin.step] at h
    split at h <;> cases h
    rfl
  | acquire op =>
    simp only [Stdin.step] at h
    split at h <;> cases h
    rfl
  | release =>
    simp only [Stdin.step] at h
    split at h
    · split at h <;> cases h
      rfl
    · cases h
  | waited =>
    simp only [Stdin.step] at h
    split at h <;> cases h
    rfl

theorem hello_receipts {g : Nat} (h : Stdin.step nobuffer s (.hello g) = some t) :
    s.receipts g = none ∧
      t.receipts = Function.update s.receipts g (some (.ofOpening s.metadata.stdinPosition)) := by
  simp only [Stdin.step] at h
  split at h
  · rename_i fresh
    cases h
    exact ⟨fresh.2, rfl⟩
  · cases h

/-- The receipt that is due is the latest of the channel, and taking it changes that channel
only. -/
theorem due_some {g position : Nat} (h : due s g = some position) :
    s.attachment.isCurrent g = true ∧ ∃ r, s.receipts g = some r ∧ r.latest = position := by
  unfold due at h
  split at h
  · rename_i hcurrent
    obtain ⟨r, hr, h⟩ := Option.bind_eq_some_iff.mp h
    split at h <;> cases h
    exact ⟨hcurrent, r, hr, rfl⟩
  · cases h

theorem takeReceipt_receipts {g : Nat} (hcurrent : s.attachment.isCurrent g = true)
    (h : Stdin.step nobuffer s (.takeReceipt g) = some t) :
    t.receipts = Function.update s.receipts g ((s.receipts g).map (·.take)) := by
  simp only [Stdin.step, hcurrent, if_true] at h
  cases h
  rfl

/-! ## What a step does to one attachment -/

/-- What a step may do to an attachment's receipts, at an accepted position, by its own task. -/
inductive Moves (position : Nat) (current : Bool) (x : Standing) : Standing → Prop
  | opened : current = true → x.channel = none →
      Moves position current x { x with channel := some (.ofOpening position) }
  | published {offset : Nat} : current = true → offset ≤ position →
      Moves position current x { x with channel := x.channel.map (·.publish offset) }
  | took {r : Stdin.Receipts} : x.channel = some r → x.inHand = none →
      Moves position current x { x with channel := some r.take, inHand := some r.latest }
  | wrote {offset : Nat} : x.inHand = some offset →
      Moves position current x { x with sent := x.sent ++ [offset], inHand := none }
  | dropped : Moves position current x { x with inHand := none }
  /-- A finite-output sender writes what it takes at once. -/
  | tookWrote {r : Stdin.Receipts} : x.channel = some r → x.inHand = none →
      Moves position current x { x with channel := some r.take, sent := x.sent ++ [r.latest] }

/-- **An attachment's receipts are truthful**: what it was sent never falls, and lies between its
opening and its channel's latest value, which was accepted. -/
structure Truthful (position : Nat) (x : Standing) : Prop where
  unopened : x.channel = none → x.sent = [] ∧ x.inHand = none
  accepted : ∀ r, x.channel = some r → r.opening ≤ r.latest ∧ r.latest ≤ position
  sorted : (x.sent ++ x.inHand.toList).Pairwise (· ≤ ·)
  within : ∀ r, x.channel = some r → ∀ offset ∈ x.sent ++ x.inHand.toList,
    r.opening ≤ offset ∧ offset ≤ r.latest

variable {position : Nat} {current : Bool} {x y : Standing}

theorem truthful_new : Truthful position {} :=
  ⟨fun _ => ⟨rfl, rfl⟩, nofun, .nil, nofun⟩

theorem Truthful.mono {position' : Nat} (h : Truthful position x) (le : position ≤ position') :
    Truthful position' x :=
  ⟨h.unopened, fun r hr => ⟨(h.accepted r hr).1, Nat.le_trans (h.accepted r hr).2 le⟩, h.sorted,
    h.within⟩

/-- What was taken stays in order when the channel's latest value is added. -/
theorem Truthful.snoc {r : Stdin.Receipts} (h : Truthful position x) (hr : x.channel = some r)
    (free : x.inHand = none) :
    (x.sent ++ [r.latest]).Pairwise (· ≤ ·) ∧
      ∀ offset ∈ x.sent ++ [r.latest], r.opening ≤ offset ∧ offset ≤ r.latest := by
  have hsorted := h.sorted
  have hwithin := h.within r hr
  rw [free, Option.toList_none, List.append_nil] at hsorted hwithin
  refine ⟨List.pairwise_append.mpr ⟨hsorted, List.pairwise_singleton _ _, ?_⟩, ?_⟩
  · intro offset hoffset last hlast
    rw [List.mem_singleton.mp hlast]
    exact (hwithin offset hoffset).2
  · intro offset hoffset
    rcases List.mem_append.mp hoffset with hoffset | hlast
    · exact hwithin offset hoffset
    · rw [List.mem_singleton.mp hlast]
      exact ⟨(h.accepted r hr).1, Nat.le_refl _⟩

/-- A step keeps an attachment's receipts truthful. -/
theorem Truthful.moves (h : Truthful position x) (hm : Moves position current x y) :
    Truthful position y := by
  cases hm with
  | opened _ hnone =>
    obtain ⟨hsent, hhand⟩ := h.unopened hnone
    refine ⟨nofun, fun r hr => ?_, h.sorted, fun r _ => ?_⟩
    · cases hr
      exact ⟨Nat.le_refl _, Nat.le_refl _⟩
    · simp only [hsent, hhand, Option.toList_none, List.append_nil, List.not_mem_nil,
        false_implies, implies_true]
  | @published offset _ hle =>
    refine ⟨fun hnone => h.unopened (Option.map_eq_none_iff.mp hnone), fun r hr => ?_, h.sorted,
      fun r hr offset' hoffset => ?_⟩
    · obtain ⟨before, hbefore, rfl⟩ := Option.map_eq_some_iff.mp hr
      have := h.accepted before hbefore
      rw [Stdin.Receipts.publish_opening, Stdin.Receipts.publish_latest]
      omega
    · obtain ⟨before, hbefore, rfl⟩ := Option.map_eq_some_iff.mp hr
      have := h.within before hbefore offset' hoffset
      rw [Stdin.Receipts.publish_opening, Stdin.Receipts.publish_latest]
      omega
  | @took r hr hfree =>
    obtain ⟨hsorted, hwithin⟩ := h.snoc hr hfree
    refine ⟨nofun, fun r' hr' => ?_, hsorted, fun r' hr' => ?_⟩
    · cases hr'
      rw [Stdin.Receipts.take_opening, Stdin.Receipts.take_latest]
      exact h.accepted r hr
    · cases hr'
      rw [Stdin.Receipts.take_opening, Stdin.Receipts.take_latest]
      exact hwithin
  | @wrote offset hhand =>
    have hsame : (x.sent ++ [offset]) ++ (none : Option Nat).toList =
        x.sent ++ x.inHand.toList := by
      rw [hhand, Option.toList_none, Option.toList_some, List.append_nil]
    refine ⟨fun hnone => ?_, h.accepted, hsame ▸ h.sorted, fun r hr => hsame ▸ h.within r hr⟩
    have := (h.unopened hnone).2
    rw [hhand] at this
    cases this
  | dropped =>
    refine ⟨fun hnone => ⟨(h.unopened hnone).1, rfl⟩, h.accepted, ?_, fun r hr offset hoffset => ?_⟩
    · exact h.sorted.sublist (List.append_sublist_append_left x.sent |>.mpr (List.nil_sublist _))
    · refine h.within r hr offset ?_
      rw [Option.toList_none, List.append_nil] at hoffset
      exact List.mem_append_left _ hoffset
  | @tookWrote r hr hfree =>
    obtain ⟨hsorted, hwithin⟩ := h.snoc hr hfree
    have hsame : (x.sent ++ [r.latest]) ++ x.inHand.toList = x.sent ++ [r.latest] := by
      rw [hfree, Option.toList_none, List.append_nil]
    refine ⟨nofun, fun r' hr' => ?_, hsame.symm ▸ hsorted, fun r' hr' => ?_⟩
    · cases hr'
      rw [Stdin.Receipts.take_opening, Stdin.Receipts.take_latest]
      exact h.accepted r hr
    · cases hr'
      rw [Stdin.Receipts.take_opening, Stdin.Receipts.take_latest]
      exact hsame.symm ▸ hwithin

/-- What was sent stays sent. -/
theorem Moves.sent (hm : Moves position current x y) : ∃ new, y.sent = x.sent ++ new := by
  cases hm with
  | wrote _ => exact ⟨_, rfl⟩
  | tookWrote _ _ => exact ⟨_, rfl⟩
  | _ => exact ⟨[], (List.append_nil _).symm⟩

/-- An announced position stands. -/
theorem Moves.opening (hm : Moves position current x y) {announced : Nat}
    (h : x.channel.map (·.opening) = some announced) :
    y.channel.map (·.opening) = some announced := by
  obtain ⟨r, hr, rfl⟩ := Option.map_eq_some_iff.mp h
  cases hm with
  | opened _ hnone =>
    rw [hr] at hnone
    cases hnone
  | published _ _ =>
    simp only [hr, Option.map_some, Stdin.Receipts.publish_opening]
  | took hr' _ =>
    cases hr.symm.trans hr'
    simp only [Option.map_some, Stdin.Receipts.take_opening]
  | tookWrote hr' _ =>
    cases hr.symm.trans hr'
    simp only [Option.map_some, Stdin.Receipts.take_opening]
  | _ => exact h

/-- Without authority a step changes no value. -/
theorem Moves.receipt (hm : Moves position false x y) :
    y.channel.map (·.latest) = x.channel.map (·.latest) := by
  cases hm with
  | opened hcurrent _ => cases hcurrent
  | published hcurrent _ => cases hcurrent
  | took hr _ => simp only [hr, Option.map_some, Stdin.Receipts.take_latest]
  | tookWrote hr _ => simp only [hr, Option.map_some, Stdin.Receipts.take_latest]
  | _ => rfl

end Pipekeep.Receipts
