import Pipekeep.Cancellation
import Pipekeep.Lib.Log

/-!
# The cancellation operation is safe

`Advanced` says once what one advance of the group can do, with the calls it attempted, and
`Stepped` what one step can do. The invariant `Inv` ties the phase to the call log: what has been
attempted, what was delivered, and that a log is over once the group is gone or a call failed.
-/

namespace Pipekeep

namespace Cancellation

/-! ## What an advance can do -/

/-- The TERM a first step attempts. -/
def termCall (kernel : Kernel) (now : Nat) (first : Bool) : List Call :=
  if first then [⟨.term, now, kernel .term⟩] else []

/-- The state after calls that went through. -/
def sent (c : Cancellation) (calls : List Call) : Cancellation :=
  { c with signaled := c.signaled || calls.any Call.won }

/-- **What `advance_group` can do.** -/
inductive Advanced (c : Cancellation) (kernel : Kernel) (now : Nat) (reaped first : Bool) :
    Advance → Prop
  | zeroFailed {e : String} : kernel .zero = .error e →
      Advanced c kernel now reaped first ⟨c, [⟨.zero, now, .error e⟩], some e⟩
  | retired : kernel .zero = .ok false → reaped = true →
      Advanced c kernel now reaped first ⟨c.retire, [⟨.zero, now, .ok false⟩], none⟩
  | termFailed {present : Bool} {e : String} : kernel .zero = .ok present → first = true →
      kernel .term = .error e →
      Advanced c kernel now reaped first
        ⟨c, [⟨.zero, now, .ok present⟩, ⟨.term, now, .error e⟩], some e⟩
  /-- No KILL is due. -/
  | pressed {present : Bool} : kernel .zero = .ok present →
      (first = true → ∃ b, kernel .term = .ok b) →
      (c.phase = .term → ∃ grace, c.graceDeadline = some grace ∧ now < grace) →
      Advanced c kernel now reaped first
        ⟨c.sent (termCall kernel now first), ⟨.zero, now, .ok present⟩ :: termCall kernel now first,
          none⟩
  | killFailed {present : Bool} {e : String} {grace : Nat} : kernel .zero = .ok present →
      (first = true → ∃ b, kernel .term = .ok b) → c.phase = .term →
      c.graceDeadline = some grace → grace ≤ now → kernel .kill = .error e →
      Advanced c kernel now reaped first
        ⟨c.sent (termCall kernel now first),
          ⟨.zero, now, .ok present⟩ :: (termCall kernel now first ++ [⟨.kill, now, .error e⟩]),
          some e⟩
  | killed {present sent : Bool} {grace : Nat} : kernel .zero = .ok present →
      (first = true → ∃ b, kernel .term = .ok b) → c.phase = .term →
      c.graceDeadline = some grace → grace ≤ now → kernel .kill = .ok sent →
      Advanced c kernel now reaped first
        ⟨{ c.sent (termCall kernel now first ++ [⟨.kill, now, .ok sent⟩]) with phase := .kill },
          ⟨.zero, now, .ok present⟩ :: (termCall kernel now first ++ [⟨.kill, now, .ok sent⟩]),
          none⟩

/-- Where one part has failed the next is not run; else its calls come behind. -/
theorem Advance.andThen_eq_some {a b : Advance} {rest : Cancellation → Option Advance}
    (h : a.andThen rest = some b) :
    (∃ e, a.error = some e ∧ b = a) ∨
      ∃ b', a.error = none ∧ rest a.state = some b' ∧ b = { b' with calls := a.calls ++ b'.calls } := by
  unfold Advance.andThen at h
  split at h
  · rename_i e he
    exact .inl ⟨e, he, (Option.some.inj h).symm⟩
  · rename_i he
    obtain ⟨b', hb, rfl⟩ := Option.map_eq_some_iff.mp h
    exact .inr ⟨b', he, hb, rfl⟩

/-- TERM fails, or goes through on a first step, or is not tried. -/
theorem sendTerm_cases (c : Cancellation) (kernel : Kernel) (now : Nat) (first : Bool) :
    (∃ e, first = true ∧ kernel .term = .error e ∧
      c.sendTerm kernel now first = ⟨c, [⟨.term, now, .error e⟩], some e⟩) ∨
    ((first = true → ∃ b, kernel .term = .ok b) ∧
      c.sendTerm kernel now first =
        ⟨c.sent (termCall kernel now first), termCall kernel now first, none⟩) := by
  cases first with
  | false =>
    refine .inr ⟨nofun, ?_⟩
    simp only [sendTerm, termCall, sent, Bool.false_eq_true, if_false, List.any_nil, Bool.or_false]
  | true =>
    cases hk : kernel .term with
    | error e =>
      refine .inl ⟨e, rfl, rfl, ?_⟩
      simp only [sendTerm, if_true, hk]
    | ok b =>
      refine .inr ⟨fun _ => ⟨b, rfl⟩, ?_⟩
      simp only [sendTerm, termCall, sent, if_true, hk, List.any_cons, List.any_nil, Bool.or_false,
        Call.won]

/-- KILL is not due, or it fails, or it goes through. -/
theorem sendKill_cases {c : Cancellation} {kernel : Kernel} {now : Nat} {a : Advance}
    (h : c.sendKill kernel now = some a) :
    (a = ⟨c, [], none⟩ ∧ (c.phase = .term → ∃ grace, c.graceDeadline = some grace ∧ now < grace)) ∨
    (∃ grace, c.phase = .term ∧ c.graceDeadline = some grace ∧ grace ≤ now ∧
      ((∃ e, kernel .kill = .error e ∧ a = ⟨c, [⟨.kill, now, .error e⟩], some e⟩) ∨
        ∃ b, kernel .kill = .ok b ∧
          a = ⟨{ c.sent [⟨.kill, now, .ok b⟩] with phase := .kill }, [⟨.kill, now, .ok b⟩],
            none⟩)) := by
  unfold sendKill at h
  split at h
  · rename_i hphase
    split at h
    · cases h
    · rename_i grace hgrace
      split at h
      · rename_i hdue
        refine .inr ⟨grace, hphase, hgrace, hdue, ?_⟩
        dsimp only at h
        split at h
        · rename_i e hk
          rw [hk] at h
          exact .inl ⟨e, hk, (Option.some.inj h).symm⟩
        · rename_i b hk
          rw [hk] at h
          refine .inr ⟨b, hk, (Option.some.inj h).symm.trans ?_⟩
          simp only [sent, List.any_cons, List.any_nil, Bool.or_false, Call.won]
      · rename_i hdue
        cases h
        exact .inl ⟨rfl, fun _ => ⟨grace, hgrace, by omega⟩⟩
  · rename_i hphase
    cases h
    exact .inl ⟨rfl, fun he => absurd he hphase⟩

/-- Calls are logged in order. -/
theorem sent_sent (c : Cancellation) (xs ys : List Call) :
    (c.sent xs).sent ys = c.sent (xs ++ ys) := by
  simp only [sent, List.any_append, Bool.or_assoc]

/-- A group is advanced with its handle, by one of the branches of `Advanced`. -/
theorem advanceGroup_inv {c : Cancellation} {kernel : Kernel} {now : Nat} {reaped first : Bool}
    {a : Advance} (h : c.advanceGroup kernel now reaped first = some a) :
    c.handle = true ∧ Advanced c kernel now reaped first a := by
  unfold advanceGroup at h
  split at h
  · rename_i hheld
    refine ⟨hheld, ?_⟩
    dsimp only at h
    split at h
    · rename_i e hk
      rw [hk] at h
      cases h
      exact .zeroFailed hk
    · rename_i present hk
      rw [hk] at h
      split at h
      · rename_i hgone
        cases h
        simp only [Bool.and_eq_true, Bool.not_eq_true'] at hgone
        obtain ⟨rfl, hreaped⟩ := hgone
        exact .retired hk hreaped
      · rcases Advance.andThen_eq_some h with ⟨_, he, _⟩ | ⟨b, _, hb, rfl⟩
        · cases he
        rcases sendTerm_cases c kernel now first with ⟨e, hfirst, hterm, hs⟩ | ⟨hterm, hs⟩
        · rw [hs] at hb
          rcases Advance.andThen_eq_some hb with ⟨_, _, rfl⟩ | ⟨_, he, _⟩
          · exact .termFailed hk hfirst hterm
          · cases he
        · rw [hs] at hb
          rcases Advance.andThen_eq_some hb with ⟨_, he, _⟩ | ⟨b', _, hb', rfl⟩
          · cases he
          rcases sendKill_cases hb' with ⟨rfl, hdue⟩ | ⟨grace, hphase, hgrace, hle, hkill⟩
          · have ha : Advanced c kernel now reaped first _ := .pressed hk hterm hdue
            simpa only [List.append_nil, List.cons_append, List.nil_append] using ha
          · rcases hkill with ⟨e, hkill, rfl⟩ | ⟨b, hkill, rfl⟩
            · exact .killFailed hk hterm hphase hgrace hle hkill
            · rw [sent_sent]
              exact .killed hk hterm hphase hgrace hle hkill
  · cases h

/-! ## What a step can do -/

/-- The settled operation. -/
def completed (c : Cancellation) (exit : ExitResult) : Cancellation :=
  { c with
    phase := .complete
    result := some (.ok (if c.signaled then .cancelWon else .alreadyExited, exit)) }

/-- **What `step` can do**, with the calls it attempts. -/
inductive Stepped (c : Cancellation) (kernel : Kernel) (now : Nat) (exit : Option ExitResult)
    (terminal first : Bool) : Cancellation → List Call → Prop
  | idle : c.active = false → Stepped c kernel now exit terminal first c []
  /-- The wait failed or the deadline passed. -/
  | gaveUp {fault : ControlFault} {error : String} : c.active = true →
      Stepped c kernel now exit terminal first ({ c with fault := some fault }.fail error) []
  | broke {a : Advance} {e error : String} : c.active = true → c.phase ≠ .noSignal →
      c.handle = true → Advanced c kernel now exit.isSome first a → a.error = some e →
      Stepped c kernel now exit terminal first
        ({ a.state with fault := some .signal }.fail error) a.calls
  | advanced {a : Advance} : c.active = true → c.phase ≠ .noSignal → c.handle = true →
      Advanced c kernel now exit.isSome first a → a.error = none →
      Stepped c kernel now exit terminal first a.state a.calls
  /-- The group is gone, in this step or before, and both outputs are closed. -/
  | settled {a : Advance} {e : ExitResult} : c.active = true →
      ((c.phase = .noSignal ∧ a = ⟨c, [], none⟩) ∨ (c.phase ≠ .noSignal ∧ c.handle = true ∧
        Advanced c kernel now exit.isSome first a ∧ a.error = none)) →
      a.state.phase = .noSignal → terminal = true → exit = some e →
      Stepped c kernel now exit terminal first (a.state.completed e) a.calls
  | waited : c.phase = .noSignal → Stepped c kernel now exit terminal first c []

/-- Settling does nothing, or completes an operation that never had to signal. -/
theorem settle_cases {c c' : Cancellation} {exit : Option ExitResult} {terminal : Bool}
    (h : c.settle exit terminal = some c') :
    c' = c ∨ (c.phase = .noSignal ∧ terminal = true ∧ ∃ e, exit = some e ∧ c' = c.completed e) := by
  unfold settle at h
  split at h
  · rename_i hready
    split at h
    · cases h
    · rename_i e
      cases h
      exact .inr ⟨hready.1, hready.2, e, rfl, rfl⟩
  · cases h
    exact .inl rfl

/-- **One step of the operation**, with its guards and its calls. -/
theorem step_inv {c c' : Cancellation} {kernel : Kernel} {now : Nat} {exit : Option ExitResult}
    {terminal : Bool} {failure : Option String} {first : Bool} {calls : List Call}
    (h : c.step kernel now exit terminal failure first = some (c', calls)) :
    Stepped c kernel now exit terminal first c' calls := by
  unfold step at h
  split at h
  · rename_i hidle
    cases h
    exact .idle (by simpa using hidle)
  rename_i hactive
  replace hactive : c.active = true := by simpa using hactive
  split at h
  · cases h
    exact .gaveUp hactive
  split at h
  · cases h
  split at h
  · cases h
    exact .gaveUp hactive
  split at h
  · rename_i hphase
    split at h
    · cases h
    rename_i a ha
    obtain ⟨hheld, hadv⟩ := advanceGroup_inv ha
    split at h
    · rename_i e he
      cases h
      exact .broke hactive hphase hheld hadv he
    · rename_i he
      obtain ⟨c'', hs, heq⟩ := Option.map_eq_some_iff.mp h
      cases heq
      rcases settle_cases hs with rfl | ⟨hgone, hterm, e, hexit, rfl⟩
      · exact .advanced hactive hphase hheld hadv he
      · exact .settled hactive (.inr ⟨hphase, hheld, hadv, he⟩) hgone hterm hexit
  · rename_i hphase
    replace hphase : c.phase = .noSignal := by simpa using hphase
    obtain ⟨c'', hs, heq⟩ := Option.map_eq_some_iff.mp h
    cases heq
    rcases settle_cases hs with rfl | ⟨hgone, hterm, e, hexit, rfl⟩
    · exact .waited hphase
    · exact .settled (a := ⟨c, [], none⟩) hactive (.inl ⟨hphase, rfl⟩) hgone hterm hexit

end Cancellation

namespace Operation

open Log

/-! ## The invariant -/

/-- What the calls already attempted permit. -/
structure Permitted (past : List Call) (call : Call) : Prop where
  unfailed : ∀ x ∈ past, ∃ b, x.answer = .ok b
  termOnce : call.signal = .term → ∀ x ∈ past, x.signal ≠ .term
  killOnce : call.signal = .kill → ∀ x ∈ past, x.signal ≠ .kill
  killAfter : call.signal = .kill → ∃ x ∈ past, x.signal = .term

/-- How the log stands to the operation, whatever its phase. -/
structure Logged (c : Cancellation) (calls : List Call) : Prop where
  permitted : Justified Permitted calls
  graced : ∀ x ∈ calls, x.signal = .kill → ∃ grace, c.graceDeadline = some grace ∧ grace ≤ x.now
  signaled : c.signaled = calls.any Call.won

/-- All calls went through, whatever their answer was. -/
def Unfailed (calls : List Call) : Prop :=
  ∀ x ∈ calls, ∃ b, x.answer = .ok b

structure Inv (s : Operation) : Prop where
  logged : Logged s.cancellation s.calls
  unfailed : s.cancellation.phase ≠ .failed → Unfailed s.calls
  released : s.cancellation.groupAbsent = true → s.cancellation.handle = false
  held : s.cancellation.phase = .ready ∨ s.cancellation.phase = .term ∨
    s.cancellation.phase = .kill → s.cancellation.handle = true ∧ s.cancellation.groupAbsent = false
  gone : s.cancellation.phase = .noSignal ∨ s.cancellation.phase = .complete →
    s.cancellation.groupAbsent = true
  complete : s.cancellation.phase = .complete → ∃ exit, s.cancellation.result =
    some (.ok (if s.cancellation.signaled then .cancelWon else .alreadyExited, exit))
  failed : s.cancellation.phase = .failed → ∃ e, s.cancellation.result = some (.error e)
  pending : s.cancellation.phase ≠ .complete → s.cancellation.phase ≠ .failed →
    s.cancellation.result = none
  idle : s.task = none → (s.cancellation.phase = .ready ∨ s.cancellation.phase = .failed) ∧
    s.calls = [] ∧ s.cancellation.graceDeadline = none ∧ s.cancellation.finishDeadline = none
  running : s.task ≠ none → s.cancellation.phase ≠ .ready ∧
    s.cancellation.graceDeadline.isSome = true ∧ s.cancellation.finishDeadline.isSome = true
  first : s.task = some true → s.cancellation.phase = .term ∧ s.calls = []
  termed : s.task = some false → s.cancellation.phase = .term ∨ s.cancellation.phase = .kill →
    ∃ x ∈ s.calls, x.signal = .term
  unkilled : s.cancellation.phase = .term → ∀ x ∈ s.calls, x.signal ≠ .kill

/-- Two logs without a failed call make one. -/
theorem Unfailed.append {xs ys : List Call} (hx : Unfailed xs) (hy : Unfailed ys) :
    Unfailed (xs ++ ys) := by
  intro x hmem
  rcases List.mem_append.mp hmem with h | h
  · exact hx x h
  · exact hy x h

/-- A call that is answered has not failed. -/
theorem unfailed_singleton {signal : Signal} {now : Nat} {b : Bool} :
    Unfailed [⟨signal, now, .ok b⟩] := by
  intro x hx
  rw [List.mem_singleton.mp hx]
  exact ⟨b, rfl⟩

/-- The first TERM has not failed if the kernel answers it. -/
theorem unfailed_termCall {kernel : Kernel} {now : Nat} {first : Bool}
    (h : first = true → ∃ b, kernel .term = .ok b) :
    Unfailed (Cancellation.termCall kernel now first) := by
  cases first with
  | false => exact fun x hx => absurd hx (List.not_mem_nil)
  | true =>
    obtain ⟨b, hb⟩ := h rfl
    simp only [Cancellation.termCall, if_true, hb]
    exact unfailed_singleton

/-- A permitted call may follow a log, and a KILL once the grace is over. -/
theorem Logged.snoc {c : Cancellation} {calls : List Call} {call : Call} (h : Logged c calls)
    (now : Permitted calls call)
    (due : call.signal = .kill → ∃ grace, c.graceDeadline = some grace ∧ grace ≤ call.now) :
    Logged (c.sent [call]) (calls ++ [call]) := by
  refine ⟨h.permitted.snoc now, fun x hx hkill => ?_, ?_⟩
  · rcases List.mem_append.mp hx with hx | hx
    · exact h.graced x hx hkill
    · rw [List.mem_singleton.mp hx] at hkill ⊢
      exact due hkill
  · rw [List.any_append, ← h.signaled]
    rfl

/-- A call that could not win leaves the operation as it was. -/
theorem sent_lost {c : Cancellation} {call : Call} (h : call.won = false) : c.sent [call] = c := by
  simp only [Cancellation.sent, List.any_cons, List.any_nil, h, Bool.or_false]

/-- A probe may follow any log without a failed call. -/
theorem Logged.zero {c : Cancellation} {calls : List Call} (h : Logged c calls)
    (hok : Unfailed calls) (now : Nat) (answer : Except String Bool) :
    Logged c (calls ++ [⟨.zero, now, answer⟩]) := by
  have hlog : Logged (c.sent [⟨.zero, now, answer⟩]) _ :=
    h.snoc ⟨hok, nofun, nofun, nofun⟩ nofun
  rwa [sent_lost rfl] at hlog

/-- A TERM may follow where there was none. -/
theorem Logged.term {c : Cancellation} {calls : List Call} (h : Logged c calls)
    (hok : Unfailed calls) (fresh : ∀ x ∈ calls, x.signal ≠ .term) (now : Nat)
    (answer : Except String Bool) :
    Logged (c.sent [⟨.term, now, answer⟩]) (calls ++ [⟨.term, now, answer⟩]) :=
  h.snoc ⟨hok, fun _ => fresh, nofun, nofun⟩ nofun

/-- A KILL may follow a TERM whose grace is over. -/
theorem Logged.kill {c : Cancellation} {calls : List Call} (h : Logged c calls)
    (hok : Unfailed calls) (fresh : ∀ x ∈ calls, x.signal ≠ .kill)
    (termed : ∃ x ∈ calls, x.signal = .term) {now grace : Nat}
    (hgrace : c.graceDeadline = some grace) (due : grace ≤ now) (answer : Except String Bool) :
    Logged (c.sent [⟨.kill, now, answer⟩]) (calls ++ [⟨.kill, now, answer⟩]) :=
  h.snoc ⟨hok, nofun, fun _ => fresh, fun _ => termed⟩ fun _ => ⟨grace, hgrace, due⟩

/-- The log after the zero-probe and the TERM of a first step. -/
theorem Logged.termCall {c : Cancellation} {calls : List Call} (h : Logged c calls)
    (hok : Unfailed calls) {kernel : Kernel} {now : Nat} {first : Bool}
    (fresh : first = true → ∀ x ∈ calls, x.signal ≠ .term) :
    Logged (c.sent (Cancellation.termCall kernel now first))
      (calls ++ Cancellation.termCall kernel now first) := by
  cases first with
  | false =>
    have hsame : c.sent (Cancellation.termCall kernel now false) = c := by
      simp only [Cancellation.termCall, Cancellation.sent, Bool.false_eq_true, if_false,
        List.any_nil, Bool.or_false]
    rw [hsame]
    simpa only [Cancellation.termCall, Bool.false_eq_true, if_false, List.append_nil] using h
  | true => exact h.term hok (fresh rfl) now (kernel .term)

/-! ## The invariant is kept -/

/-- An operation at work holds the group's handle and knows its phase. -/
theorem Inv.working {s : Operation} (hi : Inv s) (hactive : s.cancellation.active = true)
    (hphase : s.cancellation.phase ≠ .noSignal) :
    (s.cancellation.phase = .term ∨ s.cancellation.phase = .kill) ∧
      s.cancellation.handle = true ∧ s.cancellation.groupAbsent = false := by
  have hwork : s.cancellation.phase = .term ∨ s.cancellation.phase = .kill := by
    cases hp : s.cancellation.phase with
    | term => exact .inl rfl
    | kill => exact .inr rfl
    | noSignal => exact absurd hp hphase
    | _ => simp only [Cancellation.active, hp, Bool.false_eq_true] at hactive
  exact ⟨hwork, hi.held (.inr hwork)⟩

/-- The calls named here are all TERM, and only a first step makes any. -/
theorem mem_termCall {kernel : Kernel} {now : Nat} {first : Bool} {x : Call}
    (h : x ∈ Cancellation.termCall kernel now first) : first = true ∧ x.signal = .term := by
  unfold Cancellation.termCall at h
  split at h
  · rename_i hfirst
    rw [List.mem_singleton.mp h]
    exact ⟨hfirst, rfl⟩
  · exact absurd h List.not_mem_nil

/-- After the TERM of its first step, and in every later one, TERM has been attempted. -/
theorem Inv.termed_after {s : Operation} (hi : Inv s) {first : Bool} (htask : s.task = some first)
    (hwork : s.cancellation.phase = .term ∨ s.cancellation.phase = .kill) (kernel : Kernel)
    (now : Nat) (probe : Call) :
    ∃ x ∈ (s.calls ++ [probe]) ++ Cancellation.termCall kernel now first, x.signal = .term := by
  cases first with
  | true =>
    exact ⟨⟨.term, now, kernel .term⟩, List.mem_append_right _ (List.mem_singleton.mpr rfl), rfl⟩
  | false =>
    obtain ⟨x, hx, hterm⟩ := hi.termed htask hwork
    exact ⟨x, List.mem_append_left _ (List.mem_append_left _ hx), hterm⟩

/-- A first step finds an empty log, so its TERM is the first. -/
theorem Inv.fresh_term {s : Operation} (hi : Inv s) {first : Bool} (htask : s.task = some first)
    (now : Nat) (answer : Except String Bool) :
    first = true → ∀ x ∈ s.calls ++ [⟨.zero, now, answer⟩], x.signal ≠ .term := by
  rintro rfl x hx
  rw [(hi.first htask).2, List.nil_append, List.mem_singleton] at hx
  rw [hx]
  exact nofun

/-- Before its KILL an operation has sent none. -/
theorem Inv.fresh_kill {s : Operation} (hi : Inv s) (hterm : s.cancellation.phase = .term)
    {kernel : Kernel} {now : Nat} {first : Bool} (answer : Except String Bool) :
    ∀ x ∈ (s.calls ++ [⟨.zero, now, answer⟩]) ++ Cancellation.termCall kernel now first,
      x.signal ≠ .kill := by
  intro x hx
  rcases List.mem_append.mp hx with hx | hx
  · rcases List.mem_append.mp hx with hx | hx
    · exact hi.unkilled hterm x hx
    · rw [List.mem_singleton.mp hx]
      exact nofun
  · rw [(mem_termCall hx).2]
    exact nofun

variable {s : Operation} {kernel : Kernel} {now : Nat} {reaped first : Bool}
  {a : Cancellation.Advance}

private theorem append_probe (calls : List Call) (probe : Call) (rest : List Call) :
    calls ++ probe :: rest = (calls ++ [probe]) ++ rest := by
  rw [List.append_assoc, List.singleton_append]

private theorem append_press (calls : List Call) (probe : Call) (terms : List Call) (kill : Call) :
    calls ++ probe :: (terms ++ [kill]) = ((calls ++ [probe]) ++ terms) ++ [kill] := by
  rw [append_probe, List.append_assoc _ terms]

/-- An advance is logged as the log permits, whether or not it went through. -/
theorem logged_advanced (hi : Inv s) (htask : s.task = some first)
    (hactive : s.cancellation.active = true) (hphase : s.cancellation.phase ≠ .noSignal)
    (h : s.cancellation.Advanced kernel now reaped first a) :
    Logged a.state (s.calls ++ a.calls) := by
  obtain ⟨hwork, _, _⟩ := hi.working hactive hphase
  have hok : Unfailed s.calls := hi.unfailed (by rcases hwork with h | h <;> rw [h] <;> exact nofun)
  have okZero : ∀ b, Unfailed (s.calls ++ [⟨.zero, now, .ok b⟩]) := fun b =>
    hok.append unfailed_singleton
  have logZero := hi.logged.zero hok now
  have logTerm : ∀ b, Logged (s.cancellation.sent (Cancellation.termCall kernel now first))
      ((s.calls ++ [⟨.zero, now, .ok b⟩]) ++ Cancellation.termCall kernel now first) := fun b =>
    (logZero (.ok b)).termCall (okZero b) (hi.fresh_term htask now _)
  cases h with
  | zeroFailed hk => exact logZero _
  | retired hk hreaped =>
    obtain ⟨hperm, hgrace, hsig⟩ := logZero (.ok false)
    exact ⟨hperm, hgrace, hsig⟩
  | @termFailed present e hk hfirst hterm =>
    have hlog := (logZero (.ok present)).term (okZero present)
      (hi.fresh_term htask now _ hfirst) now (.error e)
    rw [sent_lost rfl] at hlog
    rwa [append_probe]
  | pressed hk hterm hdue =>
    rw [append_probe]
    exact logTerm _
  | @killFailed present e grace hk hterm hp hgrace hle hkill =>
    have hlog := (logTerm present).kill ((okZero present).append (unfailed_termCall hterm))
      (hi.fresh_kill hp _) (hi.termed_after htask hwork kernel now _) hgrace hle (.error e)
    rw [sent_lost rfl] at hlog
    rwa [append_press]
  | @killed present sent grace hk hterm hp hgrace hle hkill =>
    have hlog := (logTerm present).kill ((okZero present).append (unfailed_termCall hterm))
      (hi.fresh_kill hp _) (hi.termed_after htask hwork kernel now _) hgrace hle (.ok sent)
    rw [Cancellation.sent_sent] at hlog
    obtain ⟨hperm, hgraced, hsig⟩ := hlog
    rw [append_press]
    exact ⟨hperm, hgraced, hsig⟩

/-- An advance touches nothing but the phase, the handle and what was signaled. -/
theorem advanced_keeps {c : Cancellation} (h : c.Advanced kernel now reaped first a) :
    a.state.graceDeadline = c.graceDeadline ∧ a.state.finishDeadline = c.finishDeadline ∧
      a.state.result = c.result ∧ (a.state.handle = c.handle ∧
        a.state.groupAbsent = c.groupAbsent ∨ a.state = c.retire) := by
  cases h with
  | retired hk hreaped => exact ⟨rfl, rfl, rfl, .inr rfl⟩
  | _ => exact ⟨rfl, rfl, rfl, .inl ⟨rfl, rfl⟩⟩

/-- Any failure leaves a failed operation, whatever was attempted before it. -/
theorem inv_failed {c : Cancellation} {calls : List Call} (hlog : Logged c calls)
    (hreleased : c.groupAbsent = true → c.handle = false)
    (hgrace : c.graceDeadline.isSome = true) (hfinish : c.finishDeadline.isSome = true)
    (fault : ControlFault) (error : String) :
    Inv ⟨{ c with fault := some fault }.fail error, calls, some false⟩ where
  logged := ⟨hlog.permitted, hlog.graced, hlog.signaled⟩
  unfailed h := absurd rfl h
  released := hreleased
  held h := by rcases h with h | h | h <;> cases h
  gone h := by rcases h with h | h <;> cases h
  complete h := by cases h
  failed _ := ⟨error, rfl⟩
  pending _ h := absurd rfl h
  idle h := by cases h
  running _ := ⟨nofun, hgrace, hfinish⟩
  first h := by cases h
  termed _ h := by rcases h with h | h <;> cases h
  unkilled h := by cases h

/-- An advance that went through leaves the group pressed, killed or gone. -/
theorem inv_advanced (hi : Inv s) (htask : s.task = some first)
    (hactive : s.cancellation.active = true) (hphase : s.cancellation.phase ≠ .noSignal)
    (h : s.cancellation.Advanced kernel now reaped first a) (hok : a.error = none) :
    Inv ⟨a.state, s.calls ++ a.calls, some false⟩ := by
  have hlog := logged_advanced hi htask hactive hphase h
  obtain ⟨hwork, hheld, habsent⟩ := hi.working hactive hphase
  have hgood : Unfailed s.calls := hi.unfailed (by rcases hwork with h | h <;> rw [h] <;> exact nofun)
  have hnone : s.cancellation.result = none := hi.pending
    (by rcases hwork with h | h <;> rw [h] <;> exact nofun)
    (by rcases hwork with h | h <;> rw [h] <;> exact nofun)
  obtain ⟨_, hgrace, hfinish⟩ := hi.running (by rw [htask]; exact nofun)
  cases h with
  | zeroFailed hk => cases hok
  | termFailed hk hfirst hterm => cases hok
  | killFailed hk hterm hp hg hle hkill => cases hok
  | retired hk hreaped =>
    exact {
      logged := hlog
      unfailed := fun _ => hgood.append unfailed_singleton
      released := fun _ => rfl
      held := fun h => by rcases h with h | h | h <;> cases h
      gone := fun _ => rfl
      complete := fun h => by cases h
      failed := fun h => by cases h
      pending := fun _ _ => hnone
      idle := fun h => by cases h
      running := fun _ => ⟨nofun, hgrace, hfinish⟩
      first := fun h => by cases h
      termed := fun _ h => by rcases h with h | h <;> cases h
      unkilled := fun h => by cases h }
  | pressed hk hterm hdue =>
    exact {
      logged := hlog
      unfailed := fun _ => by
        rw [append_probe]
        exact (hgood.append unfailed_singleton).append (unfailed_termCall hterm)
      released := hi.released
      held := fun _ => ⟨hheld, habsent⟩
      gone := hi.gone
      complete := fun h => by
        have hc : s.cancellation.phase = .complete := h
        rw [hc] at hwork
        exact hwork.elim nofun nofun
      failed := hi.failed
      pending := fun _ _ => hnone
      idle := fun h => by cases h
      running := fun _ => ⟨(hi.running (by rw [htask]; exact nofun)).1, hgrace, hfinish⟩
      first := fun h => by cases h
      termed := fun _ _ => by
        rw [append_probe]
        exact hi.termed_after htask hwork kernel now _
      unkilled := fun hp => by
        rw [append_probe]
        exact hi.fresh_kill hp _ }
  | killed hk hterm hp hg hle hkill =>
    exact {
      logged := hlog
      unfailed := fun _ => by
        rw [append_press]
        exact ((hgood.append unfailed_singleton).append (unfailed_termCall hterm)).append
          unfailed_singleton
      released := hi.released
      held := fun _ => ⟨hheld, habsent⟩
      gone := fun h => by rcases h with h | h <;> cases h
      complete := fun h => by cases h
      failed := fun h => by cases h
      pending := fun _ _ => hnone
      idle := fun h => by cases h
      running := fun _ => ⟨nofun, hgrace, hfinish⟩
      first := fun h => by cases h
      termed := fun _ _ => by
        rw [append_press]
        obtain ⟨x, hx, hsig⟩ := hi.termed_after htask hwork kernel now _
        exact ⟨x, List.mem_append_left _ hx, hsig⟩
      unkilled := fun h => by cases h }

/-- A group that is gone settles. -/
theorem inv_completed (hi : Inv s) (hgone : s.cancellation.phase = .noSignal) (exit : ExitResult)
    (htask : s.task = some false) :
    Inv ⟨s.cancellation.completed exit, s.calls, some false⟩ where
  logged := ⟨hi.logged.permitted, hi.logged.graced, hi.logged.signaled⟩
  unfailed _ := hi.unfailed (by rw [hgone]; exact nofun)
  released := hi.released
  held h := by rcases h with h | h | h <;> cases h
  gone _ := hi.gone (.inl hgone)
  complete _ := ⟨exit, rfl⟩
  failed h := by cases h
  pending h := absurd rfl h
  idle h := by cases h
  running _ := ⟨nofun, (hi.running (by rw [htask]; exact nofun)).2⟩
  first h := by cases h
  termed _ h := by rcases h with h | h <;> cases h
  unkilled h := by cases h

/-- A turn of the task, inverted. -/
theorem turn_inv {t : Operation} {m : Meta} (h : s.turn now m kernel = some t) :
    ∃ first c calls, s.task = some first ∧
      s.cancellation.Stepped kernel now m.status m.terminal first c calls ∧
      t = ⟨c, s.calls ++ calls, some false⟩ := by
  unfold turn at h
  split at h
  · cases h
  · rename_i first htask
    obtain ⟨⟨c, calls⟩, hs, rfl⟩ := Option.map_eq_some_iff.mp h
    exact ⟨first, c, calls, htask, Cancellation.step_inv hs, rfl⟩

/-- A turn that finds nothing to signal keeps the invariant. -/
theorem inv_quiet (hi : Inv s) (htask : s.task = some first)
    (hquiet : s.cancellation.phase ≠ .term ∧ s.cancellation.phase ≠ .kill) :
    Inv { s with task := some false } :=
  { hi with
    idle := nofun
    running := fun _ => hi.running (by rw [htask]; exact nofun)
    first := nofun
    termed := fun _ h => by
      rcases h with h | h
      · exact absurd h hquiet.1
      · exact absurd h hquiet.2 }

/-- **A turn of the operation's task keeps the invariant.** -/
theorem inv_turn {t : Operation} {m : Meta} (hi : Inv s) (h : s.turn now m kernel = some t) :
    Inv t := by
  obtain ⟨first, c, calls, htask, hstep, rfl⟩ := turn_inv h
  obtain ⟨_, hgrace, hfinish⟩ := hi.running (by rw [htask]; exact nofun)
  cases hstep with
  | idle hidle =>
    rw [List.append_nil]
    refine inv_quiet hi htask ⟨fun hp => ?_, fun hp => ?_⟩ <;>
      simp only [Cancellation.active, hp, Bool.true_eq_false] at hidle
  | gaveUp _ =>
    rw [List.append_nil]
    exact inv_failed hi.logged hi.released hgrace hfinish _ _
  | broke hactive hphase _ hadv _ =>
    obtain ⟨hg, hf, _, hgroup⟩ := advanced_keeps hadv
    refine inv_failed (logged_advanced hi htask hactive hphase hadv) ?_ (hg ▸ hgrace)
      (hf ▸ hfinish) _ _
    rcases hgroup with ⟨hh, ha⟩ | hr
    · rw [hh, ha]
      exact hi.released
    · rw [hr]
      exact fun _ => rfl
  | advanced hactive hphase _ hadv hok =>
    exact inv_advanced hi htask hactive hphase hadv hok
  | settled hactive how hgone hterm hexit =>
    rcases how with ⟨hphase, rfl⟩ | ⟨hphase, _, hadv, hok⟩
    · rw [List.append_nil]
      have hquiet : s.cancellation.phase ≠ .term ∧ s.cancellation.phase ≠ .kill := by
        rw [hphase]
        exact ⟨nofun, nofun⟩
      exact inv_completed (inv_quiet hi htask hquiet) hphase _ rfl
    · exact inv_completed (inv_advanced hi htask hactive hphase hadv hok) hgone _ rfl
  | waited hphase =>
    rw [List.append_nil]
    refine inv_quiet hi htask ?_
    rw [hphase]
    exact ⟨nofun, nofun⟩

/-- A start that is too late changes nothing; the first one arms both deadlines. -/
theorem start_cases (s : Operation) (now grace settlement : Nat) :
    (s.cancellation.phase ≠ .ready ∧ s.start now grace settlement = s) ∨
    (s.cancellation.phase = .ready ∧ s.start now grace settlement =
      { s with
        cancellation := { s.cancellation with
          phase := .term
          graceDeadline := some (now + grace)
          finishDeadline := some (now + grace + settlement) }
        task := some true }) := by
  unfold start Cancellation.start
  by_cases hp : s.cancellation.phase = .ready
  · refine .inr ⟨hp, ?_⟩
    simp only [hp, ne_eq, not_true_eq_false, if_false, if_true]
  · refine .inl ⟨hp, ?_⟩
    simp only [hp, ne_eq, not_false_eq_true, if_true, Bool.false_eq_true, if_false]

/-- An operation that is ready has no task and has called nothing. -/
theorem Inv.not_started (hi : Inv s) (hp : s.cancellation.phase = .ready) :
    s.task = none ∧ s.calls = [] := by
  cases ht : s.task with
  | none => exact ⟨rfl, (hi.idle ht).2.1⟩
  | some first => exact absurd hp (hi.running (by rw [ht]; exact nofun)).1

/-- **A start, or joining one, keeps the invariant.** -/
theorem inv_start (hi : Inv s) (now grace settlement : Nat) : Inv (s.start now grace settlement) := by
  rcases start_cases s now grace settlement with ⟨_, he⟩ | ⟨hp, he⟩
  · rw [he]
    exact hi
  · obtain ⟨_, hcalls⟩ := hi.not_started hp
    have hheld := hi.held (.inl hp)
    have hnone := hi.pending (by rw [hp]; exact nofun) (by rw [hp]; exact nofun)
    have hempty : ∀ {p : Call → Prop}, ∀ x ∈ s.calls, p x := by
      rw [hcalls]
      exact nofun
    rw [he]
    exact {
      logged := ⟨hi.logged.permitted, hempty, hi.logged.signaled⟩
      unfailed := fun _ => hempty
      released := hi.released
      held := fun _ => hheld
      gone := fun h => by rcases h with h | h <;> cases h
      complete := fun h => by cases h
      failed := fun h => by cases h
      pending := fun _ _ => hnone
      idle := fun h => by cases h
      running := fun _ => ⟨nofun, rfl, rfl⟩
      first := fun _ => ⟨rfl, hcalls⟩
      termed := fun h => by cases h
      unkilled := fun _ => hempty }

/-- An acquired operation that has not started is sound. -/
theorem inv_init (h : machine.init s) : Inv s := by
  obtain ⟨handle, probe, rfl⟩ := h
  have hnil : Justified Permitted [] := justified_nil
  cases handle with
  | error e =>
    exact ⟨⟨hnil, nofun, rfl⟩, fun _ => nofun, nofun, nofun, nofun, nofun, fun _ => ⟨e, rfl⟩,
      fun _ h => absurd rfl h, fun _ => ⟨.inr rfl, rfl, rfl, rfl⟩, fun h => absurd rfl h, nofun,
      nofun, nofun⟩
  | ok _ =>
    cases probe with
    | error e =>
      exact ⟨⟨hnil, nofun, rfl⟩, fun _ => nofun, nofun, nofun, nofun, nofun, fun _ => ⟨_, rfl⟩,
        fun _ h => absurd rfl h, fun _ => ⟨.inr rfl, rfl, rfl, rfl⟩, fun h => absurd rfl h, nofun,
        nofun, nofun⟩
    | ok present =>
      exact ⟨⟨hnil, nofun, rfl⟩, fun _ => nofun, nofun, fun _ => ⟨rfl, rfl⟩, nofun, nofun, nofun,
        fun _ _ => rfl, fun _ => ⟨.inl rfl, rfl, rfl, rfl⟩, fun h => absurd rfl h, nofun, nofun,
        nofun⟩

/-- Every step keeps the invariant. -/
theorem inv_step {t : Operation} {act : Act} (hi : Inv s) (h : step s act = some t) : Inv t := by
  cases act with
  | start now grace settlement =>
    cases h
    exact inv_start hi now grace settlement
  | turn now m kernel => exact inv_turn hi h

/-- Every reachable operation has the invariant. -/
theorem reachable_inv (h : machine.Reachable s) : Inv s :=
  h.invariant (fun _ => inv_init) fun _ _ _ _ hi _ hs => inv_step hi hs

/-! ## No panic -/

/-- With a grace deadline the KILL does not panic. -/
theorem sendKill_isSome {c : Cancellation} (hgrace : c.graceDeadline.isSome = true)
    (kernel : Kernel) (now : Nat) : ∃ a, c.sendKill kernel now = some a := by
  obtain ⟨grace, hg⟩ := Option.isSome_iff_exists.mp hgrace
  unfold Cancellation.sendKill
  rw [hg]
  dsimp only
  split
  · split
    · split <;> exact ⟨_, rfl⟩
    · exact ⟨_, rfl⟩
  · exact ⟨_, rfl⟩

/-- With its handle and a grace deadline the group can be advanced. -/
theorem advanceGroup_isSome {c : Cancellation} (hheld : c.handle = true)
    (hgrace : c.graceDeadline.isSome = true) (kernel : Kernel) (now : Nat) (reaped first : Bool) :
    ∃ a, c.advanceGroup kernel now reaped first = some a := by
  simp only [Cancellation.advanceGroup, hheld, if_true]
  split
  · exact ⟨_, rfl⟩
  · split
    · exact ⟨_, rfl⟩
    · simp only [Cancellation.Advance.andThen, Option.map_eq_some_iff]
      rcases Cancellation.sendTerm_cases c kernel now first with ⟨e, _, _, hs⟩ | ⟨_, hs⟩
      · rw [hs]
        exact ⟨_, _, rfl, rfl⟩
      · rw [hs]
        obtain ⟨b, hb⟩ := sendKill_isSome
          (c := c.sent (Cancellation.termCall kernel now first)) hgrace kernel now
        simp only [hb, Option.map_some, Option.some.injEq, exists_eq_left', exists_eq']

/-- A terminal session has an exit to settle with. -/
theorem settle_isSome {c : Cancellation} {exit : Option ExitResult} {terminal : Bool}
    (hterm : terminal = true → exit.isSome = true) : ∃ c', c.settle exit terminal = some c' := by
  unfold Cancellation.settle
  split
  · rename_i hready
    obtain ⟨e, rfl⟩ := Option.isSome_iff_exists.mp (hterm hready.2)
    exact ⟨_, rfl⟩
  · exact ⟨c, rfl⟩

/-- No `expect` of a turn can fail in a reachable operation. -/
theorem turn_enabled (h : machine.Reachable s) (htask : s.task = some first) (now : Nat) (m : Meta)
    (kernel : Kernel) : ∃ t, s.turn now m kernel = some t := by
  have hi := reachable_inv h
  obtain ⟨_, hgrace, hfinish⟩ := hi.running (by rw [htask]; exact nofun)
  have hterm : m.terminal = true → m.status.isSome = true := fun ht => by
    simp only [Meta.terminal, Bool.and_eq_true] at ht
    exact ht.1.1
  have hstep : ∃ p, s.cancellation.step kernel now m.status m.terminal m.failure first = some p := by
    obtain ⟨finish, hf⟩ := Option.isSome_iff_exists.mp hfinish
    unfold Cancellation.step
    rw [hf]
    split
    · exact ⟨_, rfl⟩
    rename_i hactive
    split
    · exact ⟨_, rfl⟩
    dsimp only
    split
    · exact ⟨_, rfl⟩
    split
    · rename_i hphase
      obtain ⟨_, hheld, _⟩ := hi.working (by simpa using hactive) hphase
      obtain ⟨a, ha⟩ := advanceGroup_isSome hheld hgrace kernel now m.status.isSome first
      rw [ha]
      dsimp only
      split
      · exact ⟨_, rfl⟩
      · obtain ⟨c', hc⟩ := settle_isSome (c := a.state) hterm
        exact ⟨_, by rw [hc]; rfl⟩
    · obtain ⟨c', hc⟩ := settle_isSome (c := s.cancellation) hterm
      exact ⟨_, by rw [hc]; rfl⟩
  obtain ⟨p, hp⟩ := hstep
  simp only [turn, htask, hp, Option.map_some, Option.some.injEq, exists_eq']

/-! ## Safety -/

/-- What holds of the log in every reachable state. -/
structure Safe (s : Operation) : Prop where
  termOnce : (s.calls.countP fun x => decide (x.signal = .term)) ≤ 1
  killOnce : (s.calls.countP fun x => decide (x.signal = .kill)) ≤ 1
  killAfter : ∀ before x after, s.calls = before ++ x :: after → x.signal = .kill →
    (∃ y ∈ before, y.signal = .term) ∧
      ∃ grace, s.cancellation.graceDeadline = some grace ∧ grace ≤ x.now
  failedLast : ∀ before x after e, s.calls = before ++ x :: after → x.answer = .error e →
    after = []
  settled : ∀ outcome exit, s.cancellation.result = some (.ok (outcome, exit)) →
    s.cancellation.groupAbsent = true ∧
      (outcome = .cancelWon ↔ ∃ x ∈ s.calls, x.signal ≠ .zero ∧ x.answer = .ok true)

/-- What holds of every step from a reachable state. -/
structure SafeStep (s : Operation) (act : Act) (t : Operation) : Prop where
  silent : s.cancellation.groupAbsent = true ∨ (∃ e, s.cancellation.result = some (.error e)) →
    t.calls = s.calls
  latch : s.cancellation.groupAbsent = false → t.cancellation.groupAbsent = true →
    ∃ now m kernel exit, act = .turn now m kernel ∧ m.status = some exit ∧
      kernel .zero = .ok false ∧ t.calls = s.calls ++ [⟨.zero, now, .ok false⟩]
  absent : s.cancellation.groupAbsent = true → t.cancellation.groupAbsent = true
  released : s.cancellation.handle = true → (t.cancellation.handle = false ↔
    s.cancellation.groupAbsent = false ∧ t.cancellation.groupAbsent = true)
  result : ∀ r, s.cancellation.result = some r → t.cancellation.result = some r
  settles : s.cancellation.result = none → ∀ outcome exit,
    t.cancellation.result = some (.ok (outcome, exit)) →
    ∃ now m kernel, act = .turn now m kernel ∧ m.closed = .both true ∧ m.status = some exit
  graceFixed : ∀ d, s.cancellation.graceDeadline = some d → t.cancellation.graceDeadline = some d
  finishFixed : ∀ d, s.cancellation.finishDeadline = some d →
    t.cancellation.finishDeadline = some d
  armed : s.cancellation.graceDeadline = none → t.cancellation.graceDeadline ≠ none →
    ∃ now grace settlement, act = .start now grace settlement ∧
      t.cancellation.graceDeadline = some (now + grace) ∧
      t.cancellation.finishDeadline = some (now + grace + settlement)

/-- A signal is won if it is one and the kernel has sent it. -/
theorem won_iff {x : Call} : x.won = true ↔ x.signal ≠ .zero ∧ x.answer = .ok true := by
  obtain ⟨signal, now, answer⟩ := x
  cases signal <;> cases answer <;> simp [Call.won]

/-- Every reachable operation is safe. -/
theorem safe_of_reachable (h : machine.Reachable s) : Safe s := by
  have hi := reachable_inv h
  have once : ∀ signal, Justified (fun past x => decide (x.signal = signal) = true →
      ∀ y ∈ past, decide (y.signal = signal) = false) s.calls →
      (s.calls.countP fun x => decide (x.signal = signal)) ≤ 1 := fun _ hj => hj.countP_le_one
  refine ⟨once .term (hi.logged.permitted.mono fun past x hp hx y hy => ?_),
    once .kill (hi.logged.permitted.mono fun past x hp hx y hy => ?_),
    fun before x after heq hkill => ?_, fun before x after e heq he => ?_,
    fun outcome exit hr => ?_⟩
  · exact decide_eq_false (hp.termOnce (of_decide_eq_true hx) y hy)
  · exact decide_eq_false (hp.killOnce (of_decide_eq_true hx) y hy)
  · refine ⟨(hi.logged.permitted before x after heq).killAfter hkill,
      hi.logged.graced x ?_ hkill⟩
    rw [heq]
    exact List.mem_append_right _ List.mem_cons_self
  · rcases List.eq_nil_or_concat after with rfl | ⟨after', y, rfl⟩
    · rfl
    · have hperm := hi.logged.permitted (before ++ x :: after') y [] (by
        rw [heq, List.concat_eq_append, List.append_assoc, List.cons_append])
      obtain ⟨b, hb⟩ := hperm.unfailed x (List.mem_append_right _ List.mem_cons_self)
      rw [he] at hb
      cases hb
  · have hphase : s.cancellation.phase = .complete := by
      by_contra hne
      by_cases hf : s.cancellation.phase = .failed
      · obtain ⟨e, he⟩ := hi.failed hf
        rw [he] at hr
        cases hr
      · rw [hi.pending hne hf] at hr
        cases hr
    obtain ⟨exit', hres⟩ := hi.complete hphase
    rw [hres] at hr
    cases hr
    refine ⟨hi.gone (.inr hphase), ?_⟩
    have hwon : (if s.cancellation.signaled = true then CancelOutcome.cancelWon
        else .alreadyExited) = .cancelWon ↔ s.cancellation.signaled = true := by
      split <;> simp_all
    rw [hwon, hi.logged.signaled, List.any_eq_true]
    simp only [won_iff]

/-- The state after an advance, as far as safety needs it. -/
theorem advanced_group {c : Cancellation} (hheld : c.handle = true)
    (habsent : c.groupAbsent = false) (h : c.Advanced kernel now reaped first a) :
    (a.state.handle = true ∧ a.state.groupAbsent = false) ∨
      (a.state = c.retire ∧ reaped = true ∧ kernel .zero = .ok false ∧
        a.calls = [⟨.zero, now, .ok false⟩] ∧ a.error = none) := by
  cases h with
  | retired hk hreaped => exact .inr ⟨rfl, hreaped, hk, rfl, rfl⟩
  | _ => exact .inl ⟨hheld, habsent⟩

section Stepped

variable {c c' : Cancellation} {exit : Option ExitResult} {terminal : Bool} {calls : List Call}

/-- A step of the task keeps both deadlines. -/
theorem stepped_deadlines (h : c.Stepped kernel now exit terminal first c' calls) :
    c'.graceDeadline = c.graceDeadline ∧ c'.finishDeadline = c.finishDeadline := by
  cases h with
  | idle _ => exact ⟨rfl, rfl⟩
  | gaveUp _ => exact ⟨rfl, rfl⟩
  | broke _ _ _ hadv _ => exact ⟨(advanced_keeps hadv).1, (advanced_keeps hadv).2.1⟩
  | advanced _ _ _ hadv _ => exact ⟨(advanced_keeps hadv).1, (advanced_keeps hadv).2.1⟩
  | settled _ how _ _ _ =>
    rcases how with ⟨_, rfl⟩ | ⟨_, _, hadv, _⟩
    · exact ⟨rfl, rfl⟩
    · exact ⟨(advanced_keeps hadv).1, (advanced_keeps hadv).2.1⟩
  | waited _ => exact ⟨rfl, rfl⟩

/-- An idle operation, and one whose group is gone, attempt nothing. -/
theorem stepped_silent (h : c.Stepped kernel now exit terminal first c' calls)
    (hquiet : c.active = false ∨ c.phase = .noSignal) : calls = [] := by
  cases h with
  | idle _ => rfl
  | gaveUp _ => rfl
  | broke hactive hphase _ _ _ =>
    rcases hquiet with h | h
    · rw [hactive] at h
      cases h
    · exact absurd h hphase
  | advanced hactive hphase _ _ _ =>
    rcases hquiet with h | h
    · rw [hactive] at h
      cases h
    · exact absurd h hphase
  | settled hactive how _ _ _ =>
    rcases how with ⟨_, rfl⟩ | ⟨hphase, _⟩
    · rfl
    · rcases hquiet with h | h
      · rw [hactive] at h
        cases h
      · exact absurd h hphase
  | waited _ => rfl

/-- A step keeps the group as it was or retires it, on an absent group with a reaped leader. -/
theorem stepped_group (working : c.active = true → c.phase ≠ .noSignal →
      c.handle = true ∧ c.groupAbsent = false)
    (h : c.Stepped kernel now exit terminal first c' calls) :
    (c'.handle = c.handle ∧ c'.groupAbsent = c.groupAbsent) ∨
      (c.handle = true ∧ c.groupAbsent = false ∧ c'.handle = false ∧ c'.groupAbsent = true ∧
        exit.isSome = true ∧ kernel .zero = .ok false ∧ calls = [⟨.zero, now, .ok false⟩]) := by
  have advance : ∀ {a : Cancellation.Advance}, c.active = true → c.phase ≠ .noSignal →
      c.Advanced kernel now exit.isSome first a →
      (a.state.handle = c.handle ∧ a.state.groupAbsent = c.groupAbsent) ∨
        (c.handle = true ∧ c.groupAbsent = false ∧ a.state.handle = false ∧
          a.state.groupAbsent = true ∧ exit.isSome = true ∧ kernel .zero = .ok false ∧
          a.calls = [⟨.zero, now, .ok false⟩]) := by
    intro a hactive hphase hadv
    obtain ⟨hheld, habsent⟩ := working hactive hphase
    rcases advanced_group hheld habsent hadv with ⟨hh, ha⟩ | ⟨hr, hreaped, hk, hcalls, _⟩
    · exact .inl ⟨hh.trans hheld.symm, ha.trans habsent.symm⟩
    · exact .inr ⟨hheld, habsent, by rw [hr]; rfl, by rw [hr]; rfl, hreaped, hk, hcalls⟩
  cases h with
  | idle _ => exact .inl ⟨rfl, rfl⟩
  | gaveUp _ => exact .inl ⟨rfl, rfl⟩
  | broke hactive hphase _ hadv _ => exact advance hactive hphase hadv
  | advanced hactive hphase _ hadv _ => exact advance hactive hphase hadv
  | settled hactive how _ _ _ =>
    rcases how with ⟨_, rfl⟩ | ⟨hphase, _, hadv, _⟩
    · exact .inl ⟨rfl, rfl⟩
    · exact advance hactive hphase hadv
  | waited _ => exact .inl ⟨rfl, rfl⟩

/-- An idle operation keeps its result; one at work gets none, an error, or the supplied exit over
closed outputs. -/
theorem stepped_result (h : c.Stepped kernel now exit terminal first c' calls) :
    (c.active = false ∧ c' = c) ∨ (c.active = true ∧
      (c'.result = c.result ∨ (∃ e, c'.result = some (.error e)) ∨
        ∃ outcome e, c'.result = some (.ok (outcome, e)) ∧ terminal = true ∧ exit = some e)) := by
  cases h with
  | idle hidle => exact .inl ⟨hidle, rfl⟩
  | gaveUp hactive => exact .inr ⟨hactive, .inr (.inl ⟨_, rfl⟩)⟩
  | broke hactive _ _ _ _ => exact .inr ⟨hactive, .inr (.inl ⟨_, rfl⟩)⟩
  | advanced hactive _ _ hadv _ => exact .inr ⟨hactive, .inl (advanced_keeps hadv).2.2.1⟩
  | settled hactive _ _ hterm hexit =>
    exact .inr ⟨hactive, .inr (.inr ⟨_, _, rfl, hterm, hexit⟩)⟩
  | waited hphase =>
    exact .inr ⟨by simp only [Cancellation.active, hphase], .inl rfl⟩

end Stepped

/-- An operation at work has no result yet. -/
theorem Inv.pending_of_active (hi : Inv s) (hactive : s.cancellation.active = true) :
    s.cancellation.result = none := by
  refine hi.pending (fun hp => ?_) (fun hp => ?_) <;>
    simp only [Cancellation.active, hp, Bool.false_eq_true] at hactive

/-- An operation whose group is gone, or that failed, is quiet. -/
theorem Inv.quiet (hi : Inv s) (h : s.cancellation.groupAbsent = true ∨
    ∃ e, s.cancellation.result = some (.error e)) :
    s.cancellation.active = false ∨ s.cancellation.phase = .noSignal := by
  by_cases hphase : s.cancellation.phase = .noSignal
  · exact .inr hphase
  · left
    by_contra hactive
    replace hactive : s.cancellation.active = true := by simpa using hactive
    rcases h with habsent | ⟨e, he⟩
    · rw [(hi.working hactive hphase).2.2] at habsent
      cases habsent
    · rw [hi.pending_of_active hactive] at he
      cases he

/-- A terminal session has both streams closed. -/
theorem closed_of_terminal {m : Meta} (h : m.terminal = true) : m.closed = .both true := by
  simp only [Meta.terminal, Bool.and_eq_true] at h
  obtain ⟨⟨_, hout⟩, herr⟩ := h
  cases hc : m.closed
  simp only [hc] at hout herr
  rw [hout, herr]
  rfl

/-- A turn of the task is a safe step. -/
theorem safeStep_turn {t : Operation} {m : Meta} (hi : Inv s) (h : s.turn now m kernel = some t) :
    SafeStep s (.turn now m kernel) t := by
  obtain ⟨first, c, calls, htask, hstep, rfl⟩ := turn_inv h
  obtain ⟨hgrace, hfinish⟩ := stepped_deadlines hstep
  have hgroup := stepped_group (fun ha hp => (hi.working ha hp).2) hstep
  have hresult := stepped_result hstep
  exact {
    silent := fun hq => by
      rw [stepped_silent hstep (hi.quiet hq)]
      exact List.append_nil _
    latch := fun hold hnew => by
      rcases hgroup with ⟨_, ha⟩ | ⟨_, _, _, _, hexit, hk, rfl⟩
      · rw [show c.groupAbsent = true from hnew, hold] at ha
        cases ha
      · obtain ⟨exit, he⟩ := Option.isSome_iff_exists.mp hexit
        exact ⟨now, m, kernel, exit, rfl, he, hk, rfl⟩
    absent := fun hold => by
      rcases hgroup with ⟨_, ha⟩ | ⟨_, _, _, ha, _⟩
      · exact ha.trans hold
      · exact ha
    released := fun hheld => by
      rcases hgroup with ⟨hh, ha⟩ | ⟨_, hold, hh, ha, _⟩
      · rw [hh, ha, hheld]
        simp
      · exact ⟨fun _ => ⟨hold, ha⟩, fun _ => hh⟩
    result := fun r hr => by
      rcases hresult with ⟨_, rfl⟩ | ⟨hactive, _⟩
      · exact hr
      · rw [hi.pending_of_active hactive] at hr
        cases hr
    settles := fun hnone outcome exit hr => by
      replace hr : c.result = some (.ok (outcome, exit)) := hr
      rcases hresult with ⟨_, rfl⟩ | ⟨_, hsame | ⟨e, he⟩ | ⟨outcome', e, hok, hterm, hexit⟩⟩
      · rw [hnone] at hr
        cases hr
      · rw [hsame, hnone] at hr
        cases hr
      · rw [he] at hr
        cases hr
      · rw [hok] at hr
        cases hr
        exact ⟨now, m, kernel, rfl, closed_of_terminal hterm, hexit⟩
    graceFixed := fun d hd => hgrace.trans hd
    finishFixed := fun d hd => hfinish.trans hd
    armed := fun hnone hsome => absurd (hgrace.trans hnone) hsome }

/-- A start, or joining one, is a safe step. -/
theorem safeStep_start (hi : Inv s) (now grace settlement : Nat) :
    SafeStep s (.start now grace settlement) (s.start now grace settlement) := by
  rcases start_cases s now grace settlement with ⟨_, he⟩ | ⟨hp, he⟩
  · rw [he]
    exact ⟨fun _ => rfl, fun h h' => absurd (h.symm.trans h') (by decide), id,
      fun h => by simp [h], fun _ => id, fun hn outcome exit hr => absurd (hn.symm.trans hr) nofun,
      fun _ => id, fun _ => id, fun h h' => absurd h h'⟩
  · have hnone := hi.pending (by rw [hp]; exact nofun) (by rw [hp]; exact nofun)
    obtain ⟨_, _, hgrace, hfinish⟩ := hi.idle (hi.not_started hp).1
    rw [he]
    exact ⟨fun _ => rfl, fun h h' => absurd (h.symm.trans h') (by decide), id,
      fun h => by simp [h], fun _ => id, fun hn outcome exit hr => absurd (hn.symm.trans hr) nofun,
      fun d hd => absurd (hgrace.symm.trans hd) nofun,
      fun d hd => absurd (hfinish.symm.trans hd) nofun,
      fun _ _ => ⟨now, grace, settlement, rfl, rfl, rfl⟩⟩

/-- **The operation is safe.** In every reachable state the log is one that a single TERM, a single
KILL after it and no retry explain; and every step from it keeps deadlines, absence and result,
signals nobody after absence or failure, and settles only on a gone group with closed outputs. -/
theorem cancellation_safe (h : machine.Reachable s) :
    Safe s ∧ ∀ act t, step s act = some t → SafeStep s act t := by
  refine ⟨safe_of_reachable h, fun act t hs => ?_⟩
  have hi := reachable_inv h
  cases act with
  | start now grace settlement =>
    cases hs
    exact safeStep_start hi now grace settlement
  | turn now m kernel => exact safeStep_turn hi hs

/-- A group that survives its TERM is killed at the grace deadline; its leader is reaped, and the
operation settles on the exit that was retained. -/
theorem cancellation_safe_killed :
    ∃ s, machine.Reachable s ∧ Safe s ∧
      s.calls.map Call.signal = [.zero, .term, .zero, .kill, .zero] ∧
      s.cancellation.result = some (.ok (.cancelWon, ⟨none, some 9⟩)) := by
  have started : machine.Reachable { cancellation := .verifyAcquired (.ok ()) (.ok true) } :=
    .init ⟨.ok (), .ok true, rfl⟩
  let labels : List Act := [.start 0 3 30, .turn 0 {} fun _ => .ok true,
    .turn 3 {} fun _ => .ok true,
    .turn 4 { status := some ⟨none, some 9⟩, closed := .both true } fun _ => .ok false]
  have reached := @Machine.Reachable.run _ _ machine _ _ started labels rfl
  exact ⟨_, reached, (cancellation_safe reached).1, rfl, rfl⟩

end Operation

end Pipekeep
