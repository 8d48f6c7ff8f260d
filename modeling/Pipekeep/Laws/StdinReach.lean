import Pipekeep.Laws.StdinRuns

/-!
# How far an operation moves the metadata

`Forward` bounds a section from below. `Within` is the bound from above: the accepted position does
not pass what the operation reaches, and a declared end is the operation's own.
-/

namespace Pipekeep.Stdin

variable {nobuffer : Bool} {s t : State}

/-- The end of what an operation may move the accepted position to. -/
def Op.reach : Op → Nat
  | .opening _ stdinStart _ => stdinStart
  | .data _ offset bytes => offset + bytes.length
  | _ => 0

/-- An operation moves the metadata no further than it asks: the position up to what it reaches,
and the declared end to the one that it declares. -/
structure Within (m : Meta) (op : Op) (m' : Meta) : Prop where
  position : m'.stdinPosition ≤ max m.stdinPosition op.reach
  declared : ∀ e, m'.stdinEofAt = some e → m.stdinEofAt = some e ∨ op.declares = some e

/-- A section that leaves the metadata alone is within any operation. -/
theorem Within.refl (m : Meta) (op : Op) : Within m op m :=
  ⟨Nat.le_max_left _ _, fun _ => .inl⟩

/-- An opening moves the position to its own start at most, and declares its own end only. -/
theorem applyOpeningLocked_within (nobuffer : Bool) (m : Meta) (generation stdinStart : Nat)
    (stdinEof : Option Nat) : Within m (.opening generation stdinStart stdinEof)
      ((applyOpeningLocked nobuffer stdinStart stdinEof).on m).2 := by
  rcases applyOpeningLocked_spec nobuffer m stdinStart stdinEof with ⟨_, e, he⟩ | ⟨_, hok⟩
  · rw [he]
    exact .refl _ _
  · rw [hok]
    refine ⟨Nat.le_refl _, fun e he => ?_⟩
    have he : m.stdinEofAt.or stdinEof = some e := he
    cases hm : m.stdinEofAt with
    | none =>
      rw [hm, Option.none_or] at he
      exact .inr he
    | some _ =>
      rw [hm, Option.some_or] at he
      exact .inl he

/-- A declaration does not move the position, and declares its own end. -/
theorem declareStdinEofLocked_within (m : Meta) {offset : Nat} {op : Op}
    (hop : op.declares = some offset) : Within m op ((declareStdinEofLocked offset).on m).2 := by
  rcases declareStdinEofLocked_spec m offset with ⟨_, e, he⟩ | ⟨_, hok⟩
  · rw [he]
    exact .refl _ _
  · rw [hok]
    exact ⟨Nat.le_max_left _ _, fun e he => .inr (hop.trans he)⟩

/-- An opening that has lost its authority, or fails, moves nothing. -/
theorem openingSection_within {stage : Stage} {generation stdinStart : Nat}
    {stdinEof : Option Nat}
    (h : openingSection nobuffer s generation stdinStart stdinEof = (t, stage)) :
    Within s.metadata (.opening generation stdinStart stdinEof) t.metadata := by
  have within := applyOpeningLocked_within nobuffer s.metadata generation stdinStart stdinEof
  unfold openingSection at h
  split at h
  · dsimp only at h
    split at h
    · cases h
      exact within
    · cases h
      exact within
  · cases h
    exact .refl _ _

/-- A frame without data may move the position to its own offset. -/
theorem emptySection_within {stage : Stage} {generation offset : Nat}
    (h : emptySection nobuffer s generation offset = (t, stage)) :
    Within s.metadata (.data generation offset []) t.metadata := by
  unfold emptySection at h
  split at h
  · split at h
    · cases h
      exact .refl _ _
    · cases h
      refine ⟨?_, fun _ => .inl⟩
      dsimp only [Op.reach, List.length_nil]
      split
      · exact Nat.le_max_right _ _
      · exact Nat.le_max_left _ _
  · cases h
    exact .refl _ _

/-- A poll moves the position by what the pipe has taken, which ends within the frame. -/
theorem pollSection_within {stage : Stage} {generation offset : Nat} {bytes : List UInt8}
    {poll : Poll}
    (h : pollSection nobuffer s generation offset bytes poll = some (t, stage)) :
    Within s.metadata (.data generation offset bytes) t.metadata := by
  unfold pollSection at h
  split at h
  · split at h
    · cases h
      exact .refl _ _
    · rename_i start logical hstart
      have hstart := stdinFrameStartLocked_eq_ok hstart
      split at h
      · cases h
        exact .refl _ _
      · split at h
        · cases h
          exact .refl _ _
        · split at h
          · cases h
            exact .refl _ _
          · cases h
            exact .refl _ _
          · cases h
            exact .refl _ _
          · split at h
            · rename_i hcount
              cases h
              refine ⟨?_, fun _ => .inl⟩
              have hlogical := hstart.logical_eq
              have hbegin := hstart.start_eq
              dsimp only [Op.reach]
              omega
            · cases h
  · cases h
    exact .refl _ _

/-- An EOF frame declares its own offset. -/
theorem eofSection_within {stage : Stage} {generation offset : Nat}
    (h : eofSection s generation offset = (t, stage)) :
    Within s.metadata (.eof generation offset) t.metadata := by
  have within : Within s.metadata (.eof generation offset)
      ((declareStdinEofLocked offset).on s.metadata).2 := declareStdinEofLocked_within _ rfl
  unfold eofSection at h
  split at h
  · dsimp only at h
    split at h
    · cases h
      exact within
    · cases h
      exact within
  · cases h
    exact .refl _ _

/-- The control declares its own offset. -/
theorem controlSection_within {stage : Stage} {offset : Nat}
    (h : controlSection s offset = (t, stage)) :
    Within s.metadata (.control offset) t.metadata := by
  have within : Within s.metadata (.control offset)
      ((declareStdinEofLocked offset).on s.metadata).2 := declareStdinEofLocked_within _ rfl
  unfold controlSection at h
  dsimp only at h
  split at h
  · cases h
    exact within
  · cases h
    exact within

/-- **No section moves the metadata further than its operation asks.** -/
theorem criticalSection_within {op : Op} {poll : Poll} {stage stage' : Stage}
    (h : criticalSection nobuffer s op poll stage = some (t, stage')) :
    Within s.metadata op t.metadata := by
  cases stage with
  | start =>
    cases op with
    | opening g stdinStart stdinEof => exact openingSection_within (Option.some.inj h)
    | data g offset bytes =>
      cases bytes with
      | nil => exact emptySection_within (Option.some.inj h)
      | cons b bs => exact pollSection_within h
    | eof g offset => exact eofSection_within (Option.some.inj h)
    | control offset => exact controlSection_within (Option.some.inj h)
    | reap =>
      cases h
      exact .refl _ _
  | close =>
    cases h
    exact .refl _ _
  | publish position again =>
    simp only [criticalSection] at h
    split at h
    · cases h
      rw [(publishReceipt_metadata s _ _).1]
      exact .refl _ _
    · cases h
  | done => cases h
  | superseded => cases h
  | failed e => cases h

/-- Only the holder's section moves the metadata. -/
theorem step_within {a : Act} (h : step nobuffer s a = some t) : t.metadata = s.metadata ∨
    ∃ op stage, s.lock = some ⟨op, stage⟩ ∧ Within s.metadata op t.metadata := by
  by_cases hcritical : ∃ poll, a = .critical poll
  · obtain ⟨poll, rfl⟩ := hcritical
    simp only [step] at h
    split at h
    · rename_i holder hlock
      split at h
      · rename_i hsection
        have hwithin := criticalSection_within hsection
        cases h
        exact .inr ⟨holder.op, holder.stage, hlock, hwithin⟩
      · cases h
    · cases h
  · exact .inl (step_quiet (fun poll heq => hcritical ⟨poll, heq⟩) h).metadata

/-- The wait stays completed. -/
theorem step_waited {a : Act} (hi : Inv s) (h : step nobuffer s a = some t)
    (waited : s.waited = true) : t.waited = true := by
  by_cases hcritical : ∃ poll, a = .critical poll
  · obtain ⟨poll, rfl⟩ := hcritical
    obtain ⟨op, stage, t', stage', _, hcrit, rfl⟩ := critical_inv hi.coherent h
    cases hcrit with
    | published _ => exact (publishReceipt_metadata s _ _).2.2.2.trans waited
    | _ => exact waited
  · exact (step_quiet (fun poll heq => hcritical ⟨poll, heq⟩) h).waited waited

/-- The pipe is open, or its end was reached, or the command is over. -/
def Settled (s : State) : Prop :=
  s.childStdin = true ∨ s.metadata.stdinEof = true ∨ s.waited = true

/-- A pipe that was open is closed at its end only, while the command runs. -/
theorem Settled.step {a : Act} (hi : Inv s) (hs : Settled s) (h : step nobuffer s a = some t) :
    Settled t := by
  rcases hs with hopen | heof | hwaited
  · cases hclosed : t.childStdin with
    | true => exact .inl hclosed
    | false => exact .inr (step_closes hi h hopen hclosed)
  · exact .inr (.inl ((step_forward hi h).eof heof))
  · exact .inr (.inr (step_waited hi h hwaited))

end Pipekeep.Stdin
