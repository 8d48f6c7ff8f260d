import Pipekeep.Laws.Relay
import Pipekeep.Lib.Log

/-!
# The turns of a sender

The two output loops are written separately, but each turn of either is the same: at most one
receipt, a look at which streams have undelivered bytes, and then a data frame, the end, or, when
the end condition does not hold, a wait. A `TurnEvent` log is what one sender does, in order, and
`Fair` is what it owes: receipts do not push output back, and a stream does not push the other one
back.

`Turns` carries `Fair` through a turn, by the phase of the turn that the sender stands in. A loop
proves it by naming the phase of each of its stages.
-/

namespace Pipekeep

/-- A frame is written; a turn has looked at which streams have bytes in its snapshot; a turn that
has found none has checked the end condition. -/
inductive TurnEvent
  | frame (f : Frame)
  | look (ready : PerStream Bool)
  | checked (ended : Bool)
  deriving DecidableEq, Repr

namespace TurnEvent

/-- The stream of a data frame. -/
def stream : TurnEvent → Option Stream
  | .frame f => f.output.map Prod.fst
  | _ => none

def isReceipt : TurnEvent → Bool
  | .frame (.stdinPosition _) => true
  | _ => false

/-- A data frame or an end. -/
def serves : TurnEvent → Bool
  | .frame f => f.output.isSome || f.returns.isSome
  | _ => false

def written : TurnEvent → Option Frame
  | .frame f => some f
  | _ => none

variable {log before after : List TurnEvent} {e x : TurnEvent} {st : Stream}

/-- The stream of the last data frame. -/
def lastData (log : List TurnEvent) : Option Stream := (log.filterMap stream).getLast?

theorem lastData_snoc (log : List TurnEvent) (x : TurnEvent) :
    lastData (log ++ [x]) = x.stream.or (lastData log) := by
  unfold lastData
  rw [List.filterMap_append]
  cases hx : x.stream with
  | none => rw [List.filterMap_cons_none hx, List.filterMap_nil, List.append_nil, Option.none_or]
  | some st =>
    rw [List.filterMap_cons_some hx, List.filterMap_nil, List.getLast?_concat, Option.some_or]

/-! ## What a turn owes -/

/-- The turn has found nothing to serve. -/
def StartsIdle (log : List TurnEvent) : Prop :=
  ∃ rest, log = .look (.both false) :: .checked false :: rest

/-- Since any receipt either something was served, or the receipt's turn has found nothing. -/
def Cleared (log : List TurnEvent) : Prop :=
  ∀ before e after, log = before ++ e :: after → e.isReceipt = true →
    (∀ x ∈ after, x.serves = false) → StartsIdle after

/-- The same, but for a receipt that has just been sent. -/
def Due (log : List TurnEvent) : Prop :=
  ∀ before e after, log = before ++ e :: after → e.isReceipt = true →
    (∀ x ∈ after, x.serves = false) → after = [] ∨ StartsIdle after

/-- What is owed when an entry follows a log: a receipt comes only when every earlier one is
cleared, and a data frame of the stream that was served last only when its turn's look has found the
other one without bytes. -/
def Owed (past : List TurnEvent) (entry : TurnEvent) : Prop :=
  (entry.isReceipt = true → Cleared past) ∧
    ∀ st, entry.stream = some st → lastData past = some st → ∃ before ready,
      past = before ++ [.look ready] ∧ ∀ st', st' ≠ st → ready.get st' = false

/-- A sender is fair when each of its events is owed what it was. -/
def Fair (log : List TurnEvent) : Prop := Log.Justified Owed log

/-- An entry of a log that grew is its last, or was there before. -/
theorem snoc_split (h : log ++ [x] = before ++ e :: after) :
    (after = [] ∧ e = x ∧ before = log) ∨
      ∃ after', after = after' ++ [x] ∧ log = before ++ e :: after' := by
  rcases List.eq_nil_or_concat after with rfl | ⟨after', y, rfl⟩
  · obtain ⟨rfl, hx⟩ := List.append_inj' h rfl
    cases hx
    exact .inl ⟨rfl, rfl, rfl⟩
  · rw [List.concat_eq_append, ← List.cons_append, ← List.append_assoc] at h
    obtain ⟨hlog, hx⟩ := List.append_inj' h rfl
    cases hx
    exact .inr ⟨after', by rw [List.concat_eq_append], hlog⟩

theorem StartsIdle.snoc (h : StartsIdle log) (x : TurnEvent) : StartsIdle (log ++ [x]) := by
  obtain ⟨rest, rfl⟩ := h
  exact ⟨rest ++ [x], rfl⟩

theorem cleared_nil : Cleared [] := by
  intro before e after h
  exact absurd h.symm (List.append_ne_nil_of_right_ne_nil before (List.cons_ne_nil e after))

theorem Cleared.due (h : Cleared log) : Due log :=
  fun before e after heq he hafter => .inr (h before e after heq he hafter)

/-- An event that is no receipt keeps what is cleared. -/
theorem Cleared.snoc (h : Cleared log) (hx : x.isReceipt = false) : Cleared (log ++ [x]) := by
  intro before e after heq he hafter
  rcases snoc_split heq with ⟨-, rfl, -⟩ | ⟨after', rfl, hlog⟩
  · rw [hx] at he
    cases he
  · refine (h before e after' hlog he fun y hy => ?_).snoc x
    exact hafter y (List.mem_append_left _ hy)

/-- A receipt is due until its turn has looked. -/
theorem Cleared.receipt (h : Cleared log) (x : TurnEvent) : Due (log ++ [x]) := by
  intro before e after heq he hafter
  rcases snoc_split heq with ⟨rfl, -, -⟩ | ⟨after', rfl, hlog⟩
  · exact .inl rfl
  · refine .inr ((h before e after' hlog he fun y hy => ?_).snoc x)
    exact hafter y (List.mem_append_left _ hy)

/-- A turn that finds nothing clears its receipt. -/
theorem Due.idle (h : Due log) : Cleared (log ++ [.look (.both false)] ++ [.checked false]) := by
  intro before e after heq he hafter
  rcases snoc_split heq with ⟨-, rfl, -⟩ | ⟨mid, rfl, hmid⟩
  · cases he
  rcases snoc_split hmid with ⟨-, rfl, -⟩ | ⟨after', rfl, hlog⟩
  · cases he
  have hquiet : ∀ y ∈ after', y.serves = false := fun y hy =>
    hafter y (List.mem_append_left _ (List.mem_append_left _ hy))
  rcases h before e after' hlog he hquiet with rfl | hidle
  · exact ⟨[], rfl⟩
  · exact (hidle.snoc _).snoc _

/-- What is served clears every receipt. -/
theorem cleared_served (log : List TurnEvent) (hx : x.serves = true) (hr : x.isReceipt = false) :
    Cleared (log ++ [x]) := by
  intro before e after heq he hafter
  rcases snoc_split heq with ⟨-, rfl, -⟩ | ⟨after', rfl, -⟩
  · rw [hr] at he
    cases he
  · rw [hafter x (List.mem_append_right _ (List.mem_singleton_self x))] at hx
    cases hx

/-- Only frames are written. -/
def frames (log : List TurnEvent) : List Frame := log.filterMap written

theorem frames_append (log more : List TurnEvent) : frames (log ++ more) = frames log ++ frames more :=
  List.filterMap_append

end TurnEvent

open TurnEvent

/-! ## The phases of a turn -/

/-- A turn starts; its receipt has had its chance; a stream is picked; nothing is; and after an end
or a stop. -/
inductive TurnPhase
  | fresh
  | looking
  | picked (st : Stream)
  | checking
  | finished
  deriving DecidableEq, Repr

/-- What a phase knows of the events so far. -/
def TurnPhase.Knows (log : List TurnEvent) : TurnPhase → Prop
  | .fresh => Cleared log
  | .looking => Due log
  | .picked st => lastData log = some st → ∃ before ready,
    log = before ++ [.look ready] ∧ ∀ st', st' ≠ st → ready.get st' = false
  | .checking => ∃ before, log = before ++ [.look (.both false)] ∧ Due before
  | .finished => True

/-- A sender with its preference, its phase and its frames, and what it has done. -/
structure Turns (preferStdout : Bool) (phase : TurnPhase) (sent : List Frame)
    (log : List TurnEvent) : Prop where
  fair : Fair log
  prefers : ∀ st, lastData log = some st → preferStdout = (st == .stderr)
  knows : phase.Knows log
  sent : frames log = sent

theorem turns_start (preferStdout : Bool) : Turns preferStdout .fresh [] [] where
  fair := Log.justified_nil
  prefers st h := by cases h
  knows := cleared_nil
  sent := rfl

namespace Turns

variable {prefer : Bool} {phase : TurnPhase} {sent : List Frame} {log : List TurnEvent}
  {st : Stream} {ready : PerStream Bool}

/-- An event that nothing is owed for, and that serves no stream. -/
theorem quiet (h : Turns prefer phase sent log) {x : TurnEvent} {next : TurnPhase}
    {sent' : List Frame} (receipt : x.isReceipt = true → Cleared log) (stream : x.stream = none)
    (knows : next.Knows (log ++ [x])) (more : sent' = sent ++ frames [x]) :
    Turns prefer next sent' (log ++ [x]) where
  fair := h.fair.snoc ⟨receipt, fun st hst => by rw [stream] at hst; cases hst⟩
  prefers st hst := by
    rw [lastData_snoc, stream, Option.none_or] at hst
    exact h.prefers st hst
  knows := knows
  sent := by
    rw [frames_append, h.sent, more]

theorem receipt (h : Turns prefer .fresh sent log) (offset : Nat) :
    Turns prefer .looking (sent ++ [.stdinPosition offset])
      (log ++ [.frame (.stdinPosition offset)]) := by
  have cleared : Cleared log := h.knows
  exact h.quiet (fun _ => cleared) rfl (cleared.receipt _) rfl

theorem skip (h : Turns prefer .fresh sent log) : Turns prefer .looking sent log :=
  ⟨h.fair, h.prefers, Cleared.due h.knows, h.sent⟩

theorem report (h : Turns prefer .fresh sent log) (fact : OutputFact) :
    Turns prefer .fresh (sent ++ [.outputState fact]) (log ++ [.frame (.outputState fact)]) := by
  have cleared : Cleared log := h.knows
  exact h.quiet nofun rfl (cleared.snoc rfl) rfl

/-- A stream is picked by the preference: the one that was served last only alone. -/
theorem pick (h : Turns prefer .looking sent log)
    (alone : prefer = (st == .stderr) → ∀ st', st' ≠ st → ready.get st' = false) :
    Turns prefer (.picked st) sent (log ++ [.look ready]) := by
  refine h.quiet nofun rfl (fun hlast => ?_) (List.append_nil sent).symm
  rw [lastData_snoc] at hlast
  exact ⟨log, ready, rfl, alone (h.prefers st hlast)⟩

/-- Neither stream has bytes. -/
theorem rest (h : Turns prefer .looking sent log) :
    Turns prefer .checking sent (log ++ [.look (.both false)]) :=
  h.quiet nofun rfl ⟨log, rfl, h.knows⟩ (List.append_nil sent).symm

theorem waits (h : Turns prefer .checking sent log) :
    Turns prefer .fresh sent (log ++ [.checked false]) := by
  obtain ⟨before, rfl, hdue⟩ := h.knows
  exact h.quiet nofun rfl hdue.idle (List.append_nil sent).symm

theorem ends (h : Turns prefer .checking sent log) :
    Turns prefer .finished sent (log ++ [.checked true]) :=
  h.quiet nofun rfl trivial (List.append_nil sent).symm

/-- The picked stream is served. -/
theorem data (h : Turns prefer (.picked st) sent log) (offset : Nat) (bytes : List UInt8) :
    Turns (st == .stderr) .fresh (sent ++ [.outputData st offset bytes])
      (log ++ [.frame (.outputData st offset bytes)]) where
  fair := by
    refine h.fair.snoc ⟨fun hr => ?_, fun st' hst hlast => ?_⟩
    · cases st <;> cases hr
    · have heq : st' = st := by
        rw [TurnEvent.stream, Frame.output_outputData] at hst
        exact (Option.some.inj hst).symm
      subst heq
      exact h.knows hlast
  prefers st' hst := by
    rw [lastData_snoc, TurnEvent.stream, Frame.output_outputData, Option.map_some,
      Option.some_or] at hst
    cases hst
    rfl
  knows := by
    refine cleared_served log ?_ ?_
    · rw [TurnEvent.serves, Frame.output_outputData]
      rfl
    · cases st <;> rfl
  sent := by
    rw [frames_append, h.sent]
    rfl

/-- The end, or anything else that the loop returns after. -/
theorem last (h : Turns prefer .finished sent log) {f : Frame} (output : f.output = none)
    (receipt : (TurnEvent.frame f).isReceipt = false) :
    Turns prefer .finished (sent ++ [f]) (log ++ [.frame f]) :=
  h.quiet (fun hr => by rw [receipt] at hr; cases hr) (by rw [TurnEvent.stream, output]; rfl) trivial
    rfl

/-- A sender that stops owes nothing more. -/
theorem stop (h : Turns prefer phase sent log) : Turns prefer .finished sent log :=
  ⟨h.fair, h.prefers, trivial, h.sent⟩

end Turns

end Pipekeep
