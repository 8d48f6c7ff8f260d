import Pipekeep.Laws.Stdin
import Pipekeep.Requests

/-!
# Rejected requests leave the broker as it was

A request of the wrong kind, an attach to a session that is taken and an EOF control that does not
fit are turned down before anything is touched, also with force. An opening that has the lease and
fails gives it up, and no check of it stands behind a change.
-/

namespace Pipekeep.Requests

open Bounds (Clock)
open Buffered (offsetsAreAhead)

variable {s t : State} {o : Opening} {clock : Clock} {killpg : Except String Bool}
  {generation : Nat} {framed : Bool}

/-- The request is of the wrong kind for the session. -/
def BrokerRequest.misplaced (s : State) : BrokerRequest → Bool
  | .attach _ | .stdinEof _ | .cancel => s.output.isSome
  | .attachFramedV1 _ => s.output.isSome || s.nobuffer
  | .cancelGroupPidfd => s.output.isSome || s.operation.isNone
  | .attachOutputV1 _ => s.output.isNone || !s.controlVerified
  | .cancelOutputV1 => s.output.isNone
  | .pid | .session => false

/-- The opening of an attach request. -/
def BrokerRequest.opening : BrokerRequest → Option Opening
  | .attach o | .attachOutputV1 o | .attachFramedV1 o => some o
  | _ => none

/-- The opening asks for output that the streams do not have yet, or its stdin is refused. -/
def State.RejectsOpening (s : State) (o : Opening) : Prop :=
  (∃ st, s.metadata.ends.get st < o.offsets.get st) ∨
    Stdin.OpeningRefused s.nobuffer s.metadata o.stdinStart o.stdinEof

/-- A request of the wrong kind is an error and nothing else. -/
theorem misplaced_unchanged {request : BrokerRequest} (h : request.misplaced s = true) :
    (handleConnection s clock killpg request).1 = s ∧
      (handleConnection s clock killpg request).2.isError = true := by
  unfold handleConnection
  dsimp only
  cases hbounded : s.output.isSome with
  | true =>
    have hnone : s.output.isNone = false := by
      rw [← Option.not_isSome, hbounded, Bool.not_true]
    cases request with
    | attachOutputV1 o =>
      simp only [BrokerRequest.misplaced, hnone, Bool.false_or, Bool.not_eq_true'] at h
      simp [BrokerRequest.outputUnaware, h, Outcome.isError]
    | cancelOutputV1 => exact absurd (hnone.symm.trans h) Bool.false_ne_true
    | pid => cases h
    | session => cases h
    | _ => exact ⟨rfl, rfl⟩
  | false =>
    cases request with
    | attachFramedV1 o =>
      simp only [BrokerRequest.misplaced, hbounded, Bool.false_or] at h
      simp [BrokerRequest.outputAware, h, Outcome.isError]
    | cancelGroupPidfd =>
      simp only [BrokerRequest.misplaced, hbounded, Bool.false_or, Option.isNone_iff_eq_none] at h
      simp [BrokerRequest.outputAware, State.cancel, h, Outcome.isError]
    | attachOutputV1 o => exact ⟨rfl, rfl⟩
    | cancelOutputV1 => exact ⟨rfl, rfl⟩
    | pid => cases h
    | session => cases h
    | _ => exact absurd (hbounded.symm.trans h) Bool.false_ne_true

/-- An attach request is turned down by its kind, or attaches. -/
theorem handle_opening (s : State) (clock : Clock) (killpg : Except String Bool)
    {request : BrokerRequest} (hr : request.opening = some o) :
    request.misplaced s = true ∨
      ∃ framed, handleConnection s clock killpg request = s.attach o framed := by
  cases hmisplaced : request.misplaced s with
  | true => exact .inl rfl
  | false =>
    refine .inr ?_
    cases request with
    | attach o' =>
      cases hr
      have hbounded : s.output.isSome = false := hmisplaced
      refine ⟨false, ?_⟩
      simp [handleConnection, hbounded, BrokerRequest.outputAware]
    | attachFramedV1 o' =>
      cases hr
      have hkind := Bool.or_eq_false_iff.mp hmisplaced
      refine ⟨true, ?_⟩
      simp [handleConnection, hkind.1, hkind.2, BrokerRequest.outputAware]
    | attachOutputV1 o' =>
      cases hr
      have hkind := Bool.or_eq_false_iff.mp hmisplaced
      have hbounded : s.output.isSome = true := by
        rw [← Option.not_isNone, hkind.1, Bool.not_false]
      have hverified : s.controlVerified = true := by simpa using hkind.2
      refine ⟨true, ?_⟩
      simp [handleConnection, hbounded, hverified, BrokerRequest.outputUnaware]
    | _ => cases hr

/-- A session that is taken turns an attach down. -/
theorem attach_taken (free : o.force = false) (taken : s.attachment.current.isSome = true) :
    s.attach o framed = (s, .error "session already has an attached client") := by
  have hinstall : s.attachment.install o.force = .error () := by
    simp [AttachmentState.install, free, taken]
  rw [State.attach, hinstall]

/-- The check of the output offsets looks at both streams. -/
theorem offsetsAreAhead_iff {m : Meta} {offsets : PerStream Nat} :
    offsetsAreAhead m offsets = true ↔ ∃ st, m.ends.get st < offsets.get st := by
  simp only [offsetsAreAhead, Bool.or_eq_true, decide_eq_true_eq]
  constructor
  · rintro (h | h)
    · exact ⟨.stdout, h⟩
    · exact ⟨.stderr, h⟩
  · rintro ⟨_ | _, h⟩
    · exact .inl h
    · exact .inr h

/-- **An opening that has the lease** fails on each of its errors and on nothing else. Where it
fails it gives the lease up, and has touched nothing else. -/
theorem attach_won (framed : Bool) {attachment : AttachmentState}
    (won : s.attachment.install o.force = .ok (generation, attachment)) :
    (s.RejectsOpening o ∧ ∃ e, s.attach o framed =
      ({ s with attachment := attachment.compareClear generation }, .error e)) ∨
    (¬ s.RejectsOpening o ∧ (s.attach o framed).2.isError = false) := by
  have hcurrent : attachment.isCurrent generation = true := by
    obtain ⟨-, hgeneration, -, hslot, -⟩ := AttachmentState.install_eq_ok won
    rw [AttachmentState.isCurrent_iff, hslot, hgeneration]
  unfold State.attach State.RejectsOpening
  rw [won]
  dsimp only
  cases hahead : offsetsAreAhead s.metadata o.offsets with
  | true => exact .inl ⟨.inl (offsetsAreAhead_iff.mp hahead), _, if_pos rfl⟩
  | false =>
    have within : ¬ ∃ st, s.metadata.ends.get st < o.offsets.get st := fun ahead =>
      Bool.false_ne_true (hahead.symm.trans (offsetsAreAhead_iff.mpr ahead))
    rcases Stdin.applyOpeningLocked_spec s.nobuffer s.metadata o.stdinStart o.stdinEof with
      ⟨refused, e, he⟩ | ⟨accepted, hok⟩
    · refine .inl ⟨.inr refused, e, ?_⟩
      simp [State.applyOpeningStdin, State.failOpening, hcurrent, he]
    · refine .inr ⟨fun rejects => rejects.elim within accepted, ?_⟩
      simp [State.applyOpeningStdin, hcurrent, hok, Outcome.isError]

/-- **An EOF control** fails where its declaration is refused, and has then touched nothing. -/
theorem declareStdinEof_spec (s : State) (offset : Nat) :
    (Stdin.EofRefused s.metadata offset ∧ ∃ e, s.declareStdinEof offset = (s, .error e)) ∨
    (¬ Stdin.EofRefused s.metadata offset ∧ (s.declareStdinEof offset).2.isError = false) := by
  unfold State.declareStdinEof
  rcases Stdin.declareStdinEofLocked_spec s.metadata offset with ⟨refused, e, he⟩ | ⟨accepted, hok⟩
  · rw [he]
    exact .inl ⟨refused, e, rfl⟩
  · rw [hok]
    exact .inr ⟨accepted, rfl⟩

/-- After the lease of a failed opening is given up, nobody holds it. -/
theorem compareClear_won {a attachment : AttachmentState} {force : Bool}
    (won : a.install force = .ok (generation, attachment)) :
    (attachment.compareClear generation).current = none := by
  obtain ⟨-, rfl, -, hslot, -⟩ := AttachmentState.install_eq_ok won
  rw [AttachmentState.compareClear, if_pos hslot]

/-- **Rejected requests change nothing they should not.** For every state of the broker: a request
of the wrong kind and an unforced attach to a session that is taken are errors and leave the whole
state as it was. An EOF control is an error exactly if it is of the wrong kind, behind the accepted
position or in conflict with the declared end, and leaves the whole state as it was, too. An attach
that has the lease fails exactly on an offset that is ahead, a gap, or an end that conflicts or lies
behind; it then leaves everything but the lease, which nobody holds. -/
theorem rejected_unchanged (s : State) (clock : Clock) (killpg : Except String Bool)
    (request : BrokerRequest) :
    (request.misplaced s = true → (handleConnection s clock killpg request).1 = s ∧
      (handleConnection s clock killpg request).2.isError = true) ∧
    (∀ o, request.opening = some o → o.force = false → s.attachment.current.isSome = true →
      (handleConnection s clock killpg request).1 = s ∧
        (handleConnection s clock killpg request).2.isError = true) ∧
    (∀ offset, request = .stdinEof offset →
      ((handleConnection s clock killpg request).2.isError = true ↔
        request.misplaced s = true ∨ Stdin.EofRefused s.metadata offset) ∧
      ((handleConnection s clock killpg request).2.isError = true →
        (handleConnection s clock killpg request).1 = s)) ∧
    ∀ o generation attachment, request.opening = some o → request.misplaced s = false →
      s.attachment.install o.force = .ok (generation, attachment) →
      ((handleConnection s clock killpg request).2.isError = true ↔ s.RejectsOpening o) ∧
      ((handleConnection s clock killpg request).2.isError = true →
        ∃ lease : AttachmentState, lease.current = none ∧
          (handleConnection s clock killpg request).1 = { s with attachment := lease }) := by
  refine ⟨misplaced_unchanged, ?_, ?_, ?_⟩
  · intro o hopening hforce htaken
    rcases handle_opening s clock killpg hopening with hmisplaced | ⟨framed, hattach⟩
    · exact misplaced_unchanged hmisplaced
    · rw [hattach, attach_taken hforce htaken]
      exact ⟨rfl, rfl⟩
  · rintro offset rfl
    cases hbounded : s.output.isSome with
    | true =>
      obtain ⟨hstate, herror⟩ : (handleConnection s clock killpg (.stdinEof offset)).1 = s ∧
          (handleConnection s clock killpg (.stdinEof offset)).2.isError = true :=
        misplaced_unchanged hbounded
      exact ⟨⟨fun _ => .inl hbounded, fun _ => herror⟩, fun _ => hstate⟩
    | false =>
      have hcontrol : handleConnection s clock killpg (.stdinEof offset) =
          s.declareStdinEof offset := by
        simp [handleConnection, hbounded, BrokerRequest.outputAware]
      have hplaced : BrokerRequest.misplaced s (.stdinEof offset) = false := hbounded
      rw [hcontrol, hplaced]
      rcases declareStdinEof_spec s offset with ⟨refused, e, he⟩ | ⟨accepted, hok⟩
      · rw [he]
        exact ⟨⟨fun _ => .inr refused, fun _ => rfl⟩, fun _ => rfl⟩
      · rw [hok]
        exact ⟨⟨nofun, fun h => h.elim nofun accepted.elim⟩, nofun⟩
  · intro o generation attachment hopening hplaced hwon
    obtain ⟨framed, hattach⟩ := (handle_opening s clock killpg hopening).resolve_left
      (Bool.eq_false_iff.mp hplaced)
    rw [hattach]
    rcases attach_won framed hwon with ⟨rejects, e, hfailed⟩ | ⟨accepts, hok⟩
    · rw [hfailed]
      exact ⟨⟨fun _ => rejects, fun _ => rfl⟩, fun _ => ⟨_, compareClear_won hwon, rfl⟩⟩
    · rw [hok]
      exact ⟨⟨nofun, accepts.elim⟩, nofun⟩

/-- A forced attach that declares another EOF than the one that stands evicts the client and changes
nothing else; without force it is turned down. -/
theorem rejected_unchanged_forced : ∃ (s : State) (lease : AttachmentState),
    s.attachment.current = some 1 ∧ s.metadata.stdinEofAt = some 10 ∧ lease.current = none ∧
      (handleConnection s ⟨0, 3, 30⟩ (.ok true)
        (.attach { stdinEof := some 20, force := true })).1 = { s with attachment := lease } ∧
      (handleConnection s ⟨0, 3, 30⟩ (.ok true) (.attach { stdinEof := some 20 })).1 = s := by
  let s : State :=
    { metadata := { stdinEofAt := some 10 }
      attachment := { nextGeneration := 2, current := some 1 }
      commandPid := 7 }
  obtain ⟨-, -, -, hforced⟩ := rejected_unchanged s ⟨0, 3, 30⟩ (.ok true)
    (.attach { stdinEof := some 20, force := true })
  obtain ⟨-, hfree, -⟩ := rejected_unchanged s ⟨0, 3, 30⟩ (.ok true)
    (.attach { stdinEof := some 20 })
  have conflicts : s.RejectsOpening { stdinEof := some 20, force := true } :=
    .inr (.inr (.inl ⟨20, 10, rfl, rfl, by decide⟩))
  obtain ⟨hiff, hlease⟩ := hforced _ 2 _ rfl rfl rfl
  obtain ⟨lease, hnobody, hstate⟩ := hlease (hiff.mpr conflicts)
  exact ⟨s, lease, rfl, rfl, hnobody, hstate, (hfree _ rfl rfl rfl).1⟩

end Pipekeep.Requests
