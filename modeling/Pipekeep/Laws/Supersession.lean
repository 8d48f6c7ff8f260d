import Pipekeep.Laws.StdinRuns
import Pipekeep.Lib.Parties

/-!
# Superseded attachments are erased

A generation is superseded once a newer one has been installed. Its operations are not stopped:
they keep running until their futures are dropped, so each of them asks for authority under the
attachment lock before it touches anything. Here that discipline is a statement about runs: the
steps a superseded generation takes can be deleted, and the run that is left goes through and
ends in the same broker.

`stale` is what is deleted: every section, opening snapshot, receipt and cleanup of a superseded
generation, and its taking of the `child_stdin` lock. A guard that was taken before the newer
generation came is still dropped; a guard that the shortened run never took is not.

`Erased` relates the two runs. They agree on everything but the stage of a superseded holder and
the receipt channels of superseded attachments.
-/

namespace Pipekeep.Stdin

variable {nobuffer : Bool}

/-- The operation acts for a superseded attachment. -/
def State.stranded (s : State) (op : Op) : Bool :=
  op.generation.any s.attachment.superseded

/-- The step is taken by a generation after a newer one was installed. -/
def stale (s r : State) : Act → Bool
  | .clear g => s.attachment.superseded g
  | .hello g => s.attachment.superseded g
  | .takeReceipt g => s.attachment.superseded g
  | .acquire op => s.stranded op
  | .critical _ => s.lock.any fun h => s.stranded h.op
  | .release => r.lock.isNone
  | .install _ => false
  | .waited => false

/-! ## Generations -/

/-- The slot holds the newest generation or nothing, and only older ones were cancelled. -/
structure Generations (a : AttachmentState) : Prop where
  newest : ∀ g, a.current = some g → g + 1 = a.nextGeneration
  older : ∀ g ∈ a.cancelled, a.superseded g = true

/-- A generation is superseded once a newer one was drawn. -/
theorem superseded_iff {a : AttachmentState} {g : Nat} :
    a.superseded g = true ↔ g + 1 < a.nextGeneration := by
  simp only [AttachmentState.superseded, decide_eq_true_eq]

/-- A superseded generation has no authority. -/
theorem Generations.not_current {a : AttachmentState} (h : Generations a) {g : Nat}
    (hs : a.superseded g = true) : a.isCurrent g = false := by
  cases hc : a.isCurrent g with
  | false => rfl
  | true =>
    have := h.newest g (AttachmentState.isCurrent_iff.mp hc)
    have := superseded_iff.mp hs
    omega

/-- An installation supersedes what it cancels. -/
theorem Generations.install {a a' : AttachmentState} {force : Bool} {g : Nat}
    (h : Generations a) (hi : a.install force = .ok (g, a')) : Generations a' := by
  obtain ⟨_, _, hnext, hcur, hcan⟩ := AttachmentState.install_eq_ok hi
  refine ⟨fun g' hg => ?_, fun g' hg => superseded_iff.mpr ?_⟩
  · rw [hcur] at hg
    cases hg
    exact hnext.symm
  · rw [hcan, List.mem_append, Option.mem_toList] at hg
    rcases hg with hg | hg
    · have := h.newest g' hg
      omega
    · have := superseded_iff.mp (h.older g' hg)
      omega

/-- Clearing the slot draws no generation. -/
theorem Generations.compareClear {a : AttachmentState} (h : Generations a) (g : Nat) :
    Generations (a.compareClear g) := by
  refine ⟨fun g' hg => ?_, fun g' hg => ?_⟩
  · rw [AttachmentState.compareClear_nextGeneration]
    rcases AttachmentState.compareClear_current a g with hc | hc
    · rw [hc] at hg
      cases hg
    · exact h.newest g' (hc ▸ hg)
  · rw [AttachmentState.compareClear_cancelled] at hg
    have := h.older g' hg
    rw [superseded_iff] at this ⊢
    rwa [AttachmentState.compareClear_nextGeneration]

/-- Sections and the other labels leave the leases alone. -/
theorem critical_attachment {s t : State} {op : Op} {stage stage' : Stage}
    (h : Critical nobuffer s op stage t stage') : t.attachment = s.attachment := by
  cases h with
  | published _ =>
    unfold publishReceipt
    split <;> rfl
  | _ => rfl

/-- What a label does to the leases. -/
theorem step_attachment {s t : State} {a : Act} (hc : Coherent s.metadata)
    (h : step nobuffer s a = some t) :
    t.attachment = s.attachment ∨
      (∃ force g, a = .install force ∧ s.attachment.install force = .ok (g, t.attachment)) ∨
      ∃ g, a = .clear g ∧ t.attachment = s.attachment.compareClear g := by
  cases a with
  | critical poll =>
    obtain ⟨op, stage, t', stage', _, hcrit, rfl⟩ := critical_inv hc h
    have he := critical_attachment hcrit
    exact .inl he
  | install force =>
    simp only [step] at h
    split at h
    · cases h
    · split at h
      · rename_i g a' ha
        cases h
        exact .inr (.inl ⟨force, g, rfl, ha⟩)
      · cases h
        exact .inl rfl
  | clear g =>
    simp only [step] at h
    split at h <;> cases h
    exact .inr (.inr ⟨g, rfl, rfl⟩)
  | hello g =>
    simp only [step] at h
    split at h <;> cases h
    exact .inl rfl
  | takeReceipt g =>
    simp only [step] at h
    split at h <;> cases h <;> exact .inl rfl
  | acquire op =>
    simp only [step] at h
    split at h <;> cases h
    exact .inl rfl
  | release =>
    simp only [step] at h
    split at h
    · split at h <;> cases h
      exact .inl rfl
    · cases h
  | waited =>
    simp only [step] at h
    split at h <;> cases h
    exact .inl rfl

/-- Every step keeps the slot newest and the cancelled older. -/
theorem generations_step {s t : State} {a : Act} (hc : Coherent s.metadata)
    (hg : Generations s.attachment) (h : step nobuffer s a = some t) :
    Generations t.attachment := by
  rcases step_attachment hc h with he | ⟨force, g, _, hi⟩ | ⟨g, _, he⟩
  · exact he ▸ hg
  · exact hg.install hi
  · exact he ▸ hg.compareClear g

/-- In every reachable state the slot holds the newest generation or nothing. -/
theorem reachable_generations {s : State} (h : (machine nobuffer).Reachable s) :
    Generations s.attachment :=
  h.invariant (fun _ ⟨_, he⟩ => he ▸ ⟨nofun, nofun⟩) fun _ _ _ hr hg _ hs =>
    generations_step (reachable_inv hr).coherent hg hs

/-- Generations are drawn in order. -/
theorem step_nextGeneration {s t : State} {a : Act} (hc : Coherent s.metadata)
    (h : step nobuffer s a = some t) :
    s.attachment.nextGeneration ≤ t.attachment.nextGeneration := by
  rcases step_attachment hc h with he | ⟨force, g, _, hi⟩ | ⟨g, _, he⟩
  · exact Nat.le_of_eq (by rw [he])
  · rw [(AttachmentState.install_eq_ok hi).2.2.1]
    exact Nat.le_succ _
  · exact Nat.le_of_eq (by rw [he, AttachmentState.compareClear_nextGeneration])

/-- The generation a label installs, if it does. -/
def installedBy (s : State) : Act → List Nat
  | .install force =>
    match s.attachment.install force with
    | .ok (g, _) => [g]
    | .error () => []
  | _ => []

/-- The generations that a run installs, in order. -/
def installed (nobuffer : Bool) : State → List Act → List Nat
  | _, [] => []
  | s, a :: as =>
    match step nobuffer s a with
    | none => []
    | some t => installedBy s a ++ installed nobuffer t as

/-- A step installs nothing, or the next generation. -/
theorem installedBy_cases {s t : State} {a : Act} (h : step nobuffer s a = some t) :
    installedBy s a = [] ∨ (installedBy s a = [s.attachment.nextGeneration] ∧
      t.attachment.nextGeneration = s.attachment.nextGeneration + 1) := by
  cases a with
  | install force =>
    cases hi : s.attachment.install force with
    | error e =>
      left
      simp only [installedBy, hi]
    | ok r =>
      obtain ⟨g, a'⟩ := r
      obtain ⟨_, rfl, hnext, _⟩ := AttachmentState.install_eq_ok hi
      simp only [step] at h
      split at h
      · cases h
      · rw [hi] at h
        cases h
        exact .inr ⟨by simp only [installedBy, hi], hnext⟩
  | _ => exact .inl rfl

/-- A run installs strictly increasing generations, none of which existed before it. -/
theorem installed_increasing {s : State} {as : List Act} (h : (machine nobuffer).Reachable s) :
    (∀ g ∈ installed nobuffer s as, s.attachment.nextGeneration ≤ g) ∧
      (installed nobuffer s as).Pairwise (· < ·) := by
  induction as generalizing s with
  | nil => exact ⟨nofun, .nil⟩
  | cons a as ih =>
    cases hs : step nobuffer s a with
    | none => simp only [installed, hs, List.not_mem_nil, false_implies, implies_true,
        List.Pairwise.nil, and_self]
    | some t =>
      obtain ⟨hge, hinc⟩ := ih (.step h trivial hs)
      have hle := step_nextGeneration (reachable_inv h).coherent hs
      simp only [installed, hs]
      rcases installedBy_cases hs with hnone | ⟨hone, hnext⟩
      · rw [hnone, List.nil_append]
        exact ⟨fun g hg => Nat.le_trans hle (hge g hg), hinc⟩
      · rw [hone, List.singleton_append]
        have hafter : ∀ g ∈ installed nobuffer t as, s.attachment.nextGeneration < g := by
          intro g hg
          have := hge g hg
          omega
        refine ⟨fun g hg => ?_, List.pairwise_cons.mpr ⟨hafter, hinc⟩⟩
        rcases List.mem_cons.mp hg with rfl | hg
        · exact Nat.le_refl _
        · exact Nat.le_of_lt (hafter g hg)

/-- A cancel flag is set exactly by the install that displaces its generation. -/
theorem step_cancelled {s t : State} {a : Act} (hc : Coherent s.metadata)
    (hg : Generations s.attachment) (h : step nobuffer s a = some t) (g : Nat) :
    (g ∉ s.attachment.cancelled ∧ g ∈ t.attachment.cancelled) ↔
      s.attachment.current = some g ∧ installedBy s a ≠ [] := by
  have fresh : s.attachment.current = some g → g ∉ s.attachment.cancelled := fun hcur hmem => by
    have := hg.newest g hcur
    have := superseded_iff.mp (hg.older g hmem)
    omega
  rcases installedBy_cases h with hnone | ⟨hone, hnext⟩
  · have same : t.attachment.cancelled = s.attachment.cancelled := by
      rcases step_attachment hc h with he | ⟨force, g', rfl, hi⟩ | ⟨g', _, he⟩
      · rw [he]
      · simp only [installedBy, hi, List.cons_ne_nil] at hnone
      · rw [he, AttachmentState.compareClear_cancelled]
    simp only [same, hnone, ne_eq, not_true_eq_false, and_false, not_and_self]
  · rcases step_attachment hc h with he | ⟨force, g', rfl, hi⟩ | ⟨g', _, he⟩
    · rw [he] at hnext
      omega
    · obtain ⟨_, _, _, _, hcan⟩ := AttachmentState.install_eq_ok hi
      rw [hcan, List.mem_append, Option.mem_toList, hone]
      constructor
      · rintro ⟨hnot, hcur | hmem⟩
        · exact ⟨hcur, List.cons_ne_nil _ _⟩
        · exact absurd hmem hnot
      · rintro ⟨hcur, _⟩
        exact ⟨fresh hcur, .inl hcur⟩
    · rw [he, AttachmentState.compareClear_nextGeneration] at hnext
      omega

/-- A cancelled generation stays cancelled. -/
theorem step_keeps_cancelled {s t : State} {a : Act} (hc : Coherent s.metadata)
    (h : step nobuffer s a = some t) : ∀ g ∈ s.attachment.cancelled, g ∈ t.attachment.cancelled := by
  intro g hg
  rcases step_attachment hc h with he | ⟨force, g', _, hi⟩ | ⟨g', _, he⟩
  · rwa [he]
  · rw [(AttachmentState.install_eq_ok hi).2.2.2.2]
    exact List.mem_append_right _ hg
  · rwa [he, AttachmentState.compareClear_cancelled]

/-- An install that fails leaves the broker as it was. -/
theorem step_install_error {s t : State} {force : Bool}
    (hi : s.attachment.install force = .error ()) (h : step nobuffer s (.install force) = some t) :
    t = s := by
  simp only [step, hi] at h
  split at h <;> cases h
  rfl

/-! ## The erasure relation -/

/-- How the lock of the shortened run stands to the original's. A holder that was superseded may
have been left behind in an earlier stage, but never while it still holds the attachment lock. -/
def LockErased (s : State) : Option Holder → Option Holder → Prop
  | none, none => True
  | some h, some h' =>
    h.op = h'.op ∧ (s.stranded h.op = false → h = h') ∧
      (s.stranded h.op = true → h.stage ≠ .close ∧ h'.stage ≠ .close)
  | some h, none => s.stranded h.op = true ∧ h.stage ≠ .close
  | none, some _ => False

/-- The shortened run's state, beside the original's. -/
structure Erased (s r : State) : Prop where
  metadata : r.metadata = s.metadata
  attachment : r.attachment = s.attachment
  childStdin : r.childStdin = s.childStdin
  received : r.received = s.received
  waited : r.waited = s.waited
  receipts : ∀ g, s.attachment.superseded g = false → r.receipts g = s.receipts g
  lock : LockErased s s.lock r.lock

/-- Only an operation with an attachment is stranded. -/
theorem generation_of_stranded {s : State} {op : Op} (h : s.stranded op = true) :
    ∃ g, op.generation = some g ∧ s.attachment.superseded g = true := by
  unfold State.stranded at h
  obtain ⟨g, hg, hs⟩ := (Option.any_eq_true _ _).mp h
  exact ⟨g, hg, hs⟩

/-- A section of an operation without authority changes nothing and holds nothing. -/
theorem criticalSection_superseded {s t : State} {op : Op} {poll : Poll} {stage stage' : Stage}
    {g : Nat} (hg : op.generation = some g) (hcur : s.attachment.isCurrent g = false)
    (hstage : stage ≠ .close)
    (h : criticalSection nobuffer s op poll stage = some (t, stage')) :
    t = s ∧ stage' ≠ .close := by
  have start : stage = .start → t = s ∧ stage' = .superseded := by
    rintro rfl
    cases op with
    | opening g' stdinStart stdinEof =>
      cases hg
      simp only [criticalSection, openingSection, hcur, Bool.false_eq_true, if_false,
        Option.some.injEq, Prod.mk.injEq] at h
      exact ⟨h.1.symm, h.2.symm⟩
    | data g' offset bytes =>
      cases hg
      cases bytes with
      | nil =>
        simp only [criticalSection, emptySection, hcur, Bool.false_eq_true, if_false,
          Option.some.injEq, Prod.mk.injEq] at h
        exact ⟨h.1.symm, h.2.symm⟩
      | cons b bs =>
        simp only [criticalSection, pollSection, hcur, Bool.false_eq_true, if_false,
          Option.some.injEq, Prod.mk.injEq] at h
        exact ⟨h.1.symm, h.2.symm⟩
    | eof g' offset =>
      cases hg
      simp only [criticalSection, eofSection, hcur, Bool.false_eq_true, if_false,
        Option.some.injEq, Prod.mk.injEq] at h
      exact ⟨h.1.symm, h.2.symm⟩
    | control offset => cases hg
    | reap => cases hg
  cases stage with
  | start => exact ⟨(start rfl).1, by rw [(start rfl).2]; intro h; cases h⟩
  | close => exact absurd rfl hstage
  | publish position again =>
    simp only [criticalSection, hg, publishReceipt, hcur, Bool.false_eq_true, if_false,
      Option.some.injEq, Prod.mk.injEq] at h
    obtain ⟨rfl, rfl⟩ := h
    refine ⟨rfl, ?_⟩
    cases again <;> (intro h; cases h)
  | done => cases h
  | superseded => cases h
  | failed e => cases h

/-- The first section of an operation reads neither the receipt channels nor the lock. -/
theorem criticalSection_frame (s : State) (op : Op) (poll : Poll) (stage : Stage)
    (receipts : Nat → Option Receipts) (lock : Option Holder)
    (hstage : ∀ position again, stage ≠ .publish position again) :
    criticalSection nobuffer { s with receipts := receipts, lock := lock } op poll stage =
      (criticalSection nobuffer s op poll stage).map fun p =>
        ({ p.1 with receipts := receipts, lock := lock }, p.2) := by
  cases stage with
  | start =>
    cases op with
    | opening g stdinStart stdinEof =>
      simp only [criticalSection, openingSection, Option.map_some]
      split
      · split <;> rfl
      · rfl
    | data g offset bytes =>
      cases bytes with
      | nil =>
        simp only [criticalSection, emptySection, Option.map_some]
        split
        · split <;> rfl
        · rfl
      | cons b bs =>
        simp only [criticalSection, pollSection]
        split
        · split
          · rfl
          · split
            · rfl
            · split
              · rfl
              · split
                · rfl
                · rfl
                · rfl
                · split <;> rfl
        · rfl
    | eof g offset =>
      simp only [criticalSection, eofSection, Option.map_some]
      split
      · split <;> rfl
      · rfl
    | control offset =>
      simp only [criticalSection, controlSection, Option.map_some]
      split <;> rfl
    | reap => rfl
  | close => rfl
  | publish position again => exact absurd rfl (hstage position again)
  | done => rfl
  | superseded => rfl
  | failed e => rfl

/-- A section of an operation that keeps its authority goes through in the shortened run. -/
theorem criticalSection_erased {s r t : State} {op : Op} {poll : Poll} {stage stage' : Stage}
    (hR : Erased s r) (hop : s.stranded op = false) (hat : t.attachment = s.attachment)
    (h : criticalSection nobuffer s op poll stage = some (t, stage')) :
    ∃ r', criticalSection nobuffer r op poll stage = some (r', stage') ∧
      ∀ lock lock', LockErased { t with lock := lock } lock lock' →
        Erased { t with lock := lock } { r' with lock := lock' } := by
  have hr : r = { s with receipts := r.receipts, lock := r.lock } := by
    obtain ⟨hm, ha, hc, hrec, hw, _, _⟩ := hR
    rw [← hm, ← ha, ← hc, ← hrec, ← hw]
  by_cases hpub : ∃ position again, stage = .publish position again
  · obtain ⟨position, again, rfl⟩ := hpub
    cases hg : op.generation with
    | none => simp only [criticalSection, hg, reduceCtorEq] at h
    | some g =>
      have hlive : s.attachment.superseded g = false := by
        simpa only [State.stranded, hg, Option.any_some] using hop
      simp only [criticalSection, hg, Option.some.injEq, Prod.mk.injEq] at h ⊢
      obtain ⟨rfl, rfl⟩ := h
      refine ⟨publishReceipt r g position, ⟨rfl, rfl⟩, fun lock lock' hlock => ?_⟩
      unfold publishReceipt at hlock ⊢
      rw [hR.attachment]
      split
      · refine ⟨hR.metadata, hR.attachment, hR.childStdin, hR.received, hR.waited,
          fun g' hg' => ?_, ?_⟩
        · apply Parties.update_agree
          · rw [hR.receipts g hlive]
          · intro _
            exact hR.receipts g' hg'
        · rename_i hcur
          rw [if_pos hcur] at hlock
          exact hlock
      · rename_i hcur
        rw [if_neg hcur] at hlock
        exact ⟨hR.metadata, hR.attachment, hR.childStdin, hR.received, hR.waited,
          hR.receipts, hlock⟩
  · rw [hr, criticalSection_frame s op poll stage r.receipts r.lock
      fun position again he => hpub ⟨position, again, he⟩, h]
    refine ⟨_, rfl, fun lock lock' hlock => ⟨rfl, rfl, rfl, rfl, rfl, fun g hg => ?_, hlock⟩⟩
    have same : t.receipts = s.receipts := by
      have hframe := @criticalSection_frame nobuffer s op poll stage s.receipts
        s.lock fun position again he => hpub ⟨position, again, he⟩
      rw [h] at hframe
      simp only [Option.map_some, Option.some.injEq, Prod.mk.injEq, and_true] at hframe
      rw [hframe]
    show r.receipts g = t.receipts g
    rw [same]
    exact hR.receipts g (hat ▸ hg)

/-! ## Skipping and keeping a step -/

/-- The lock relation reads only the leases of the state. -/
theorem LockErased.mono {s t : State} {l l' : Option Holder} (h : LockErased s l l')
    (forward : ∀ op, s.stranded op = true → t.stranded op = true)
    (fresh : ∀ holder, l = some holder → s.stranded holder.op = false →
      t.stranded holder.op = true → holder.stage ≠ .close) : LockErased t l l' := by
  cases l with
  | none => cases l' <;> exact h
  | some holder =>
    cases l' with
    | none => exact ⟨forward _ h.1, h.2⟩
    | some holder' =>
      obtain ⟨hop, hsame, hkeep⟩ := h
      refine ⟨hop, fun hlive => ?_, fun hgone => ?_⟩
      · cases hs : s.stranded holder.op with
        | false => exact hsame hs
        | true =>
          rw [forward _ hs] at hlive
          cases hlive
      · cases hs : s.stranded holder.op with
        | false =>
          have hne := fresh holder rfl hs hgone
          exact ⟨hne, hsame hs ▸ hne⟩
        | true => exact hkeep hs

/-- A lock that is free in the original is free in the shortened run. -/
theorem Erased.free {s r : State} (hR : Erased s r) (h : s.lock = none) : r.lock = none := by
  have hlock := hR.lock
  rw [h] at hlock
  cases hl : r.lock with
  | none => rfl
  | some holder => rw [hl] at hlock; exact hlock.elim

/-- An attachment lock that is free in the original is free in the shortened run. -/
theorem Erased.attachmentHeld {s r : State} (hR : Erased s r) (h : s.attachmentHeld = false) :
    r.attachmentHeld = false := by
  have hlock := hR.lock
  unfold State.attachmentHeld at h ⊢
  cases hl : s.lock with
  | none => rw [hR.free hl]; rfl
  | some holder =>
    cases hl' : r.lock with
    | none => rfl
    | some holder' =>
      rw [hl, hl'] at hlock
      obtain ⟨hop, hsame, hkeep⟩ := hlock
      cases hs : s.stranded holder.op with
      | false => rw [← hsame hs, ← hl]; exact h
      | true => simp only [Option.any_some, beq_false_of_ne (hkeep hs).2, Bool.and_false]

/-- Both runs move the lease together. The move waits for the attachment lock, so an operation that
it strands does not hold that lock. -/
theorem Erased.lease {s r : State} {a : AttachmentState} (hR : Erased s r)
    (free : s.attachmentHeld = false)
    (grows : s.attachment.nextGeneration ≤ a.nextGeneration) :
    Erased { s with attachment := a } { r with attachment := a } := by
  have stays : ∀ g, s.attachment.superseded g = true → a.superseded g = true := fun g h => by
    have := superseded_iff.mp h
    exact superseded_iff.mpr (by omega)
  refine ⟨hR.metadata, rfl, hR.childStdin, hR.received, hR.waited, fun g hlive => ?_,
    hR.lock.mono (fun op hop => ?_) fun holder hl _ hgone hclose => ?_⟩
  · apply hR.receipts g
    cases hs : s.attachment.superseded g with
    | false => rfl
    | true => exact (stays g hs).symm.trans hlive
  · obtain ⟨g, hgen, hsup⟩ := generation_of_stranded hop
    simp only [State.stranded, hgen, Option.any_some]
    exact stays g hsup
  · obtain ⟨g, hgen, _⟩ := generation_of_stranded hgone
    simp only [State.attachmentHeld, hl, Option.any_some, hgen, Option.isSome_some, hclose,
      beq_self_eq_true, Bool.and_self] at free
    cases free

/-- Both runs change one attachment's channel in the same way. -/
theorem Erased.channel {s r : State} {g : Nat} {o o' : Option Receipts} (hR : Erased s r)
    (same : o' = o) :
    Erased { s with receipts := Function.update s.receipts g o }
      { r with receipts := Function.update r.receipts g o' } := by
  refine ⟨hR.metadata, hR.attachment, hR.childStdin, hR.received, hR.waited,
    fun g' hlive => ?_, hR.lock⟩
  apply Parties.update_agree same
  intro _
  exact hR.receipts g' hlive

/-- A superseded step leaves the original run beside a run that does not take it. -/
theorem erased_skip {s r t : State} {a : Act} (hg : Generations s.attachment) (hR : Erased s r)
    (hst : stale s r a = true) (h : step nobuffer s a = some t) : Erased t r := by
  cases a with
  | install force => cases hst
  | waited => cases hst
  | clear g =>
    simp only [step] at h
    split at h <;> cases h
    have hcur := hg.not_current hst
    have hne : s.attachment.current ≠ some g := fun he => by
      rw [AttachmentState.isCurrent_iff.mpr he] at hcur
      cases hcur
    rw [AttachmentState.compareClear_of_not_current hne]
    exact hR
  | hello g =>
    simp only [step] at h
    split at h <;> cases h
    refine ⟨hR.metadata, hR.attachment, hR.childStdin, hR.received, hR.waited,
      fun g' hg' => ?_, hR.lock⟩
    have hne : g' ≠ g := by
      rintro rfl
      exact absurd (hg'.symm.trans hst) (by decide)
    show r.receipts g' = Function.update s.receipts g _ g'
    rw [Function.update_of_ne hne]
    exact hR.receipts g' hg'
  | takeReceipt g =>
    simp only [step, hg.not_current hst, Bool.false_eq_true, if_false, Option.some.injEq] at h
    exact h ▸ hR
  | acquire op =>
    have hop : s.stranded op = true := hst
    simp only [step] at h
    split at h <;> cases h
    rename_i free
    refine ⟨hR.metadata, hR.attachment, hR.childStdin, hR.received, hR.waited, hR.receipts, ?_⟩
    rw [hR.free free.1]
    exact ⟨hop, (by cases ·)⟩
  | critical poll =>
    simp only [step] at h
    split at h
    · rename_i holder hl
      have hop : s.stranded holder.op = true := by
        simpa only [stale, hl, Option.any_some] using hst
      obtain ⟨g, hgen, hsup⟩ := generation_of_stranded hop
      split at h
      · rename_i t' stage' hs
        cases h
        have hlock := hR.lock
        rw [hl] at hlock
        have hclose : holder.stage ≠ .close := by
          cases hl' : r.lock with
          | none => rw [hl'] at hlock; exact hlock.2
          | some holder' => rw [hl'] at hlock; exact (hlock.2.2 hop).1
        obtain ⟨rfl, hne⟩ := criticalSection_superseded hgen (hg.not_current hsup) hclose hs
        refine ⟨hR.metadata, hR.attachment, hR.childStdin, hR.received, hR.waited,
          hR.receipts, ?_⟩
        cases hl' : r.lock with
        | none => exact ⟨hop, hne⟩
        | some holder' =>
          rw [hl'] at hlock
          refine ⟨hlock.1, fun hlive => ?_, fun _ => ⟨hne, (hlock.2.2 hop).2⟩⟩
          exact absurd (hop.symm.trans hlive) (by decide)
      · cases h
    · cases h
  | release =>
    have hnone : r.lock = none := Option.isNone_iff_eq_none.mp hst
    simp only [step] at h
    split at h
    · split at h <;> cases h
      refine ⟨hR.metadata, hR.attachment, hR.childStdin, hR.received, hR.waited, hR.receipts, ?_⟩
      rw [hnone]
      trivial
    · cases h

/-- Any other step is followed by the shortened run. -/
theorem erased_keep {s r t : State} {a : Act} (hc : Coherent s.metadata) (hR : Erased s r)
    (hst : stale s r a = false) (h : step nobuffer s a = some t) :
    ∃ r', step nobuffer r a = some r' ∧ Erased t r' := by
  cases a with
  | install force =>
    simp only [step] at h ⊢
    split at h
    · cases h
    rename_i hheld
    rw [hR.attachmentHeld (by simpa using hheld), hR.attachment]
    split at h
    · rename_i g a' hi
      cases h
      obtain ⟨_, _, hnext, _⟩ := AttachmentState.install_eq_ok hi
      exact ⟨_, rfl, hR.lease (by simpa using hheld) (by omega)⟩
    · cases h
      exact ⟨r, rfl, hR⟩
  | clear g =>
    simp only [step] at h ⊢
    split at h
    · cases h
    rename_i hheld
    cases h
    rw [hR.attachmentHeld (by simpa using hheld), hR.attachment]
    have same := AttachmentState.compareClear_nextGeneration s.attachment g
    exact ⟨_, rfl, hR.lease (by simpa using hheld) (Nat.le_of_eq same.symm)⟩
  | hello g =>
    have hlive : s.attachment.superseded g = false := hst
    simp only [step] at h ⊢
    split at h
    · rename_i fresh
      cases h
      rw [hR.attachment, hR.receipts g hlive, if_pos fresh]
      refine ⟨_, rfl, hR.channel ?_⟩
      rw [hR.metadata]
    · cases h
  | takeReceipt g =>
    have hlive : s.attachment.superseded g = false := hst
    simp only [step] at h ⊢
    rw [hR.attachment]
    split at h
    · rename_i hcur
      cases h
      rw [if_pos hcur]
      refine ⟨_, rfl, hR.channel ?_⟩
      rw [hR.receipts g hlive]
    · rename_i hcur
      cases h
      rw [if_neg hcur]
      exact ⟨r, rfl, hR⟩
  | acquire op =>
    have hlive : s.stranded op = false := hst
    simp only [step] at h ⊢
    split at h
    · rename_i free
      cases h
      have hmay : r.mayAcquire op = true := by
        have := free.2
        unfold State.mayAcquire at this ⊢
        rw [hR.attachment, hR.waited]
        exact this
      rw [if_pos ⟨hR.free free.1, hmay⟩]
      refine ⟨_, rfl, hR.metadata, hR.attachment, hR.childStdin, hR.received, hR.waited,
        hR.receipts, rfl, fun _ => rfl, fun _ => ⟨(by cases ·), (by cases ·)⟩⟩
    · cases h
  | critical poll =>
    have hat : t.attachment = s.attachment := by
      obtain ⟨op, stage, t', stage', _, hcrit, rfl⟩ := critical_inv hc h
      have := critical_attachment hcrit
      exact this
    simp only [step] at h
    split at h
    · rename_i holder hl
      have hlive : s.stranded holder.op = false := by
        simpa only [stale, hl, Option.any_some] using hst
      split at h
      · rename_i t' stage' hs
        cases h
        have hlock := hR.lock
        rw [hl] at hlock
        have hsame : r.lock = some holder := by
          cases hl' : r.lock with
          | none => rw [hl'] at hlock; exact absurd (hlock.1.symm.trans hlive) (by decide)
          | some holder' => rw [hl'] at hlock; rw [hlock.2.1 hlive]
        obtain ⟨r', hr', hrest⟩ := criticalSection_erased (t := t') hR hlive hat hs
        refine ⟨{ r' with lock := some ⟨holder.op, stage'⟩ }, ?_, hrest _ _ ⟨rfl, fun _ => rfl, ?_⟩⟩
        · simp only [step, hsame, hr']
        · intro hgone
          unfold State.stranded at hgone hlive
          rw [show ({ t' with lock := some ⟨holder.op, stage'⟩ } : State).attachment =
            s.attachment from hat] at hgone
          exact absurd (hgone.symm.trans hlive) (by decide)
      · cases h
    · cases h
  | release =>
    obtain ⟨holder', hl'⟩ : ∃ holder', r.lock = some holder' := by
      cases hl' : r.lock with
      | none => rw [stale, hl'] at hst; cases hst
      | some holder' => exact ⟨holder', rfl⟩
    simp only [step] at h ⊢
    split at h
    · rename_i holder hl
      split at h
      · cases h
      rename_i hstage
      cases h
      have hlock := hR.lock
      rw [hl, hl'] at hlock
      have hstage' : holder'.stage ≠ .close := by
        cases hs : s.stranded holder.op with
        | false => exact hlock.2.1 hs ▸ hstage
        | true => exact (hlock.2.2 hs).2
      rw [hl']
      refine ⟨{ r with lock := none }, if_neg hstage', hR.metadata, hR.attachment, hR.childStdin,
        hR.received, hR.waited, hR.receipts, trivial⟩
    · cases h
  | waited =>
    simp only [step] at h ⊢
    split at h
    · cases h
    · rename_i fresh
      cases h
      rw [hR.waited, if_neg fresh]
      exact ⟨{ r with waited := true }, rfl, hR.metadata, hR.attachment, hR.childStdin,
        hR.received, rfl, hR.receipts, hR.lock⟩

/-! ## Runs without the superseded steps -/

/-- What the run and the shortened one are compared on. -/
structure SameBroker (s r : State) : Prop where
  metadata : r.metadata = s.metadata
  childStdin : r.childStdin = s.childStdin
  received : r.received = s.received
  lease : r.attachment.current = s.attachment.current
  receipts : ∀ g, s.attachment.current = some g → r.receipts g = s.receipts g

/-- Related runs agree on everything that the current generation can see. -/
theorem Erased.sameBroker {s r : State} (hg : Generations s.attachment) (hR : Erased s r) :
    SameBroker s r := by
  refine ⟨hR.metadata, hR.childStdin, hR.received, by rw [hR.attachment], fun g hcur => ?_⟩
  refine hR.receipts g ?_
  cases hs : s.attachment.superseded g with
  | false => rfl
  | true =>
    have := hg.newest g hcur
    have := superseded_iff.mp hs
    omega

/-- Both runs start from the same broker. -/
theorem erased_init {s : State} (h : (machine nobuffer).init s) : Erased s s := by
  obtain ⟨childStdin, rfl⟩ := h
  exact ⟨rfl, rfl, rfl, rfl, rfl, fun _ _ => rfl, trivial⟩

/-- Without its superseded steps, a run goes through and ends in the same broker. -/
theorem run_erased {s t : State} {as : List Act} (init : (machine nobuffer).init s)
    (h : (machine nobuffer).run s as = some t) :
    ∃ r, (machine nobuffer).run s ((machine nobuffer).erase stale s s as) = some r ∧
      SameBroker t r := by
  obtain ⟨r, hr, hreach, hR⟩ := Machine.run_erase
    (R := fun s r => (machine nobuffer).Reachable s ∧ Erased s r)
    (fun s r a t ⟨hreach, hR⟩ hst hs =>
      ⟨.step hreach trivial hs, erased_skip (reachable_generations hreach) hR hst hs⟩)
    (fun s r a t ⟨hreach, hR⟩ hst hs => by
      obtain ⟨r', hr', hR'⟩ := erased_keep (reachable_inv hreach).coherent hR hst hs
      exact ⟨r', hr', .step hreach trivial hs, hR'⟩)
    ⟨.init init, erased_init init⟩ h
  exact ⟨r, hr, hR.sameBroker (reachable_generations hreach)⟩

/-- What a run installs is older than the generation its end would install next. -/
theorem installed_below {s t : State} {as : List Act} (h : (machine nobuffer).Reachable s)
    (hr : (machine nobuffer).run s as = some t) :
    s.attachment.nextGeneration ≤ t.attachment.nextGeneration ∧
      ∀ g ∈ installed nobuffer s as, g < t.attachment.nextGeneration := by
  induction as generalizing s with
  | nil =>
    cases hr
    exact ⟨Nat.le_refl _, nofun⟩
  | cons a as ih =>
    rw [Machine.run_cons] at hr
    obtain ⟨m, hm, hr⟩ := Option.bind_eq_some_iff.mp hr
    have hs : step nobuffer s a = some m := hm
    obtain ⟨hle, hbelow⟩ := ih (.step h trivial hm) hr
    have hmono := step_nextGeneration (reachable_inv h).coherent hs
    refine ⟨Nat.le_trans hmono hle, fun g hg => ?_⟩
    rw [installed, hs] at hg
    rcases List.mem_append.mp hg with hg | hg
    · rcases installedBy_cases hs with hnone | ⟨hone, hnext⟩
      · rw [hnone] at hg
        cases hg
      · rw [hone, List.mem_singleton] at hg
        omega
    · exact hbelow g hg

/-- **Superseded attachments are erased.** Deleting the steps that generations take after they
were superseded leaves a run that ends in the same broker. Installed generations increase; the
lease belongs to the newest of them or to none; a cancel flag is set by the very install that
displaces its generation, and stays set; an install that fails changes nothing. -/
theorem superseded_erased {s t : State} {as : List Act} (init : (machine nobuffer).init s)
    (h : (machine nobuffer).run s as = some t) :
    (∃ r, (machine nobuffer).run s ((machine nobuffer).erase stale s s as) = some r ∧
      SameBroker t r) ∧
    (installed nobuffer s as).Pairwise (· < ·) ∧
    (∀ g, t.attachment.current = some g → ∀ g' ∈ installed nobuffer s as, g' ≤ g) ∧
    ∀ before a after u v, as = before ++ a :: after → (machine nobuffer).run s before = some u →
      step nobuffer u a = some v →
      (∀ g, (g ∉ u.attachment.cancelled ∧ g ∈ v.attachment.cancelled) ↔
        u.attachment.current = some g ∧ installedBy u a ≠ []) ∧
      (∀ g ∈ u.attachment.cancelled, g ∈ v.attachment.cancelled) ∧
      ∀ force, a = .install force → u.attachment.install force = .error () → v = u := by
  have hreach : (machine nobuffer).Reachable s := .init init
  refine ⟨run_erased init h, (installed_increasing hreach).2, fun g hcur g' hg' => ?_, ?_⟩
  · have hnewest := (reachable_generations (hreach.run _ h)).newest g hcur
    have := (installed_below hreach h).2 g' hg'
    omega
  · intro before a after u v _ hu hv
    have hreach' := hreach.run _ hu
    have hc := (reachable_inv hreach').coherent
    refine ⟨step_cancelled hc (reachable_generations hreach') hv,
      step_keeps_cancelled hc hv, ?_⟩
    rintro force rfl hi
    exact step_install_error hi hv

/-- A client writes half of a frame and is displaced before the next poll; its receipt, its second
poll and its cleanup come after the newcomer's install, and the newcomer sends the rest. -/
theorem superseded_erased_takeover :
    let s : State := { childStdin := true }
    let frame := Op.data 1 0 [104, 105]
    let as := [.install false, .hello 1, .acquire frame, .critical (.wrote 1), .install true,
      .critical .pending, .critical (.wrote 1), .release, .clear 1, .hello 2,
      .acquire (.data 2 1 [105]), .critical (.wrote 1), .critical .pending, .release]
    ∃ t, (machine false).run s as = some t ∧
      (∃ r, (machine false).run s ((machine false).erase stale s s as) = some r ∧
        SameBroker t r) ∧ t.attachment.current = some 2 ∧ installed false s as = [1, 2] :=
  ⟨_, rfl, (superseded_erased ⟨true, rfl⟩ rfl).1, rfl, rfl⟩

end Pipekeep.Stdin
