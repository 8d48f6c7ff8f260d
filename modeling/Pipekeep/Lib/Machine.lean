import Mathlib.Logic.Relation

/-!
# Labelled machines and their runs

A machine is a predicate of initial states and a partial step: `step s a = none` says that the
label `a` is not enabled in `s`. Everything a concurrent program is asked about here is a
property of the states its labels can reach, or of the runs between two of them, so the
inductions every such proof needs are stated once:

* `Reach.invariant`: what holds initially and survives every step holds of every reached state,
  also when the labels are restricted by a condition on the state they are taken in;
* `Reach.project`: when each step is a step of another machine on images of the states, or leaves
  the image, then the image of a reached state is reached there;
* `Reachable.bounded`: what every step keeps between its two states, a run keeps between its ends,
  and `Reachable.bounded_while` for steps that keep it only under a condition which they keep too;
* `run_decreasing`: steps that decrease a measure make a bounded run.

`recorded` runs a machine beside a record that its steps write and never read: a property of the
order of a run is a property of the record at its end.

`trace` is what a run emits, step by step, and `Reachable.traced` the invariant rule for a property
of the state and of what was emitted so far. `erase` deletes the labels a predicate calls stale, and
`run_erase` is the simulation rule that says when the run without them still goes through.
-/

/-- A labelled machine over states `σ` and labels `α`. -/
structure Machine (σ α : Type*) where
  init : σ → Prop
  step : σ → α → Option σ

namespace Machine

variable {σ α β : Type*} (M : Machine σ α)

/-- Take the labels in order; a label that is not enabled stops the run with no state. -/
def run : σ → List α → Option σ
  | s, [] => some s
  | s, a :: as => (M.step s a).bind fun t => run t as

@[simp] theorem run_nil (s : σ) : M.run s [] = some s := rfl

theorem run_cons (s : σ) (a : α) (as : List α) :
    M.run s (a :: as) = (M.step s a).bind fun t => M.run t as := rfl

/-- The states reached by labels that meet a condition in the state they are taken in. -/
inductive Reach (ok : σ → α → Prop) : σ → Prop
  | init {s : σ} : M.init s → Reach ok s
  | step {s t : σ} {a : α} : Reach ok s → ok s a → M.step s a = some t → Reach ok t

/-- The states reached by any labels. -/
abbrev Reachable (s : σ) : Prop := M.Reach (fun _ _ => True) s

variable {M}

/-- A stronger condition on the labels reaches fewer states. -/
theorem Reach.mono {ok ok' : σ → α → Prop} (weaker : ∀ s a, ok s a → ok' s a) {s : σ}
    (h : M.Reach ok s) : M.Reach ok' s := by
  induction h with
  | init h => exact .init h
  | step _ hok hs ih => exact .step ih (weaker _ _ hok) hs

theorem Reach.reachable {ok : σ → α → Prop} {s : σ} (h : M.Reach ok s) : M.Reachable s :=
  h.mono fun _ _ _ => trivial

/-- The invariant rule. -/
theorem Reach.invariant {ok : σ → α → Prop} {P : σ → Prop} (init : ∀ s, M.init s → P s)
    (step : ∀ s a t, M.Reach ok s → P s → ok s a → M.step s a = some t → P t) {s : σ}
    (h : M.Reach ok s) : P s := by
  induction h with
  | init h => exact init _ h
  | step h hok hs ih => exact step _ _ _ h ih hok hs

/-- The projection rule. -/
theorem Reach.project {τ β : Type*} {N : Machine τ β} {ok : σ → α → Prop} (f : σ → τ)
    (init : ∀ s, M.init s → N.init (f s))
    (step : ∀ s a t, M.Reach ok s → ok s a → M.step s a = some t →
      f t = f s ∨ ∃ b, N.step (f s) b = some (f t)) {s : σ} (h : M.Reach ok s) :
    N.Reachable (f s) := by
  refine h.invariant (P := fun s => N.Reachable (f s)) (fun s hs => .init (init s hs)) ?_
  intro s a t hs hN hok hstep
  rcases step s a t hs hok hstep with hsame | ⟨b, hb⟩
  · rw [hsame]
    exact hN
  · exact .step hN trivial hb

/-- A run from a reached state stays among the reached states, when its labels meet the
condition along the way. -/
def Meets (M : Machine σ α) (ok : σ → α → Prop) : σ → List α → Prop
  | _, [] => True
  | s, a :: as => ok s a ∧ ∀ t, M.step s a = some t → Meets M ok t as

/-- Labels that meet the condition in every state meet it along every run. -/
theorem meets_of_forall {ok : σ → α → Prop} {as : List α} (h : ∀ a ∈ as, ∀ s, ok s a) {s : σ} :
    M.Meets ok s as := by
  induction as generalizing s with
  | nil => trivial
  | cons a as ih =>
    exact ⟨h a List.mem_cons_self s, fun t _ => ih fun b hb => h b (List.mem_cons_of_mem _ hb)⟩

theorem meets_true (s : σ) (as : List α) : M.Meets (fun _ _ => True) s as :=
  meets_of_forall fun _ _ _ => trivial

theorem Reach.run {ok : σ → α → Prop} {s t : σ} (h : M.Reach ok s) (as : List α)
    (meets : M.Meets ok s as) (hr : M.run s as = some t) : M.Reach ok t := by
  induction as generalizing s with
  | nil =>
    cases hr
    exact h
  | cons a as ih =>
    obtain ⟨hok, hrest⟩ := meets
    rw [run_cons] at hr
    obtain ⟨m, hm, hr⟩ := Option.bind_eq_some_iff.mp hr
    exact ih (.step h hok hm) (hrest m hm) hr

theorem Reachable.run {s t : σ} (h : M.Reachable s) (as : List α) (hr : M.run s as = some t) :
    M.Reachable t :=
  Reach.run h as (meets_true s as) hr

/-- What every step from a reachable state keeps between its two states, every run keeps between
its ends. -/
theorem Reachable.bounded {R : σ → σ → Prop} (refl : ∀ s, R s s)
    (trans : ∀ {s t u}, R s t → R t u → R s u)
    (step : ∀ s a t, M.Reachable s → M.step s a = some t → R s t) {s t : σ}
    (h : M.Reachable s) {as : List α} (hr : M.run s as = some t) : R s t := by
  induction as generalizing s with
  | nil =>
    cases hr
    exact refl _
  | cons a as ih =>
    rw [run_cons] at hr
    obtain ⟨m, hm, hr⟩ := Option.bind_eq_some_iff.mp hr
    exact trans (step s a m h hm) (ih (.step h trivial hm) hr)

/-- The same for runs from a state that meets a condition which the steps keep. -/
theorem Reachable.bounded_while {P : σ → Prop} {R : σ → σ → Prop} (refl : ∀ s, R s s)
    (trans : ∀ {s t u}, R s t → R t u → R s u)
    (step : ∀ s a t, M.Reachable s → P s → M.step s a = some t → P t ∧ R s t) {s t : σ}
    (h : M.Reachable s) (start : P s) {as : List α} (hr : M.run s as = some t) : P t ∧ R s t := by
  refine Reachable.bounded (R := fun s t => P s → P t ∧ R s t) ?_ ?_ ?_ h hr start
  · intro s hs
    exact ⟨hs, refl s⟩
  · intro s t u h h' hs
    obtain ⟨ht, hst⟩ := h hs
    obtain ⟨hu, htu⟩ := h' ht
    exact ⟨hu, trans hst htu⟩
  · intro s a t h hstep hs
    exact step s a t h hs hstep

/-- The measure rule: while every step of some kind decreases a measure, a run of such steps is no
longer than the measure of its start. -/
theorem run_decreasing {ok : α → Prop} {P : σ → Prop} {μ : σ → Nat}
    (step : ∀ s a t, P s → ok a → M.step s a = some t → P t ∧ μ t < μ s) {s t : σ} (start : P s)
    {as : List α} (labels : ∀ a ∈ as, ok a) (hr : M.run s as = some t) :
    P t ∧ as.length + μ t ≤ μ s := by
  induction as generalizing s with
  | nil =>
    cases hr
    exact ⟨start, Nat.le_of_eq (Nat.zero_add _)⟩
  | cons a as ih =>
    rw [run_cons] at hr
    obtain ⟨m, hm, hr⟩ := Option.bind_eq_some_iff.mp hr
    obtain ⟨hmid, hless⟩ := step s a m start (labels a List.mem_cons_self) hm
    obtain ⟨hend, hle⟩ := ih hmid (fun b hb => labels b (List.mem_cons_of_mem a hb)) hr
    refine ⟨hend, ?_⟩
    rw [List.length_cons]
    omega

/-! ## Records -/

section Record

variable {ρ : Type*} {start : ρ} {record : σ → α → ρ → ρ}

/-- The machine beside a record of its run, which its steps write and do not read. -/
def recorded (M : Machine σ α) (start : ρ) (record : σ → α → ρ → ρ) : Machine (σ × ρ) α where
  init x := M.init x.1 ∧ x.2 = start
  step x a := (M.step x.1 a).map fun t => (t, record x.1 a x.2)

theorem recorded_step {x y : σ × ρ} {a : α} :
    (M.recorded start record).step x a = some y ↔
      M.step x.1 a = some y.1 ∧ record x.1 a x.2 = y.2 := by
  simp only [recorded, Option.map_eq_some_iff, Prod.ext_iff]
  constructor
  · rintro ⟨t, ht, rfl, hrecord⟩
    exact ⟨ht, hrecord⟩
  · rintro ⟨ht, hrecord⟩
    exact ⟨y.1, ht, rfl, hrecord⟩

/-- A recorded run is a run. -/
theorem Reach.unrecorded {ok : σ × ρ → α → Prop} {x : σ × ρ}
    (h : (M.recorded start record).Reach ok x) : M.Reachable x.1 := by
  refine Reach.project (M := M.recorded start record) Prod.fst (fun x hx => hx.1) ?_ h
  intro x a y _ _ hstep
  exact .inr ⟨a, (recorded_step.mp hstep).1⟩

/-- Every run has a record. -/
theorem Reachable.recorded {s : σ} (h : M.Reachable s) :
    ∃ r, (M.recorded start record).Reachable (s, r) := by
  induction h with
  | init h => exact ⟨start, .init ⟨h, rfl⟩⟩
  | @step s t a _ _ hs ih =>
    obtain ⟨r, hr⟩ := ih
    exact ⟨record s a r, .step hr trivial (recorded_step.mpr ⟨hs, rfl⟩)⟩

end Record

/-! ## What a run emits -/

/-- What the steps of a run emit, in order. -/
def trace (M : Machine σ α) (f : σ → α → List β) : σ → List α → List β
  | _, [] => []
  | s, a :: as => f s a ++ (M.step s a).elim [] fun t => trace M f t as

/-- The invariant rule for a state and what has been emitted on the way to it. -/
theorem Reachable.traced {f : σ → α → List β} {P : σ → List β → Prop}
    (step : ∀ s a t log, M.Reachable s → P s log → M.step s a = some t → P t (log ++ f s a))
    {s t : σ} (h : M.Reachable s) {log : List β} (start : P s log) {as : List α}
    (hr : M.run s as = some t) : P t (log ++ M.trace f s as) := by
  induction as generalizing s log with
  | nil =>
    cases hr
    rw [trace, List.append_nil]
    exact start
  | cons a as ih =>
    rw [run_cons] at hr
    obtain ⟨m, hm, hr⟩ := Option.bind_eq_some_iff.mp hr
    rw [trace, hm, ← List.append_assoc]
    exact ih (.step h trivial hm) (step s a m log h start hm) hr

/-! ## Erasing stale labels -/

/-- Delete the labels that are stale, judged in the state where the original run takes them and
in the one the shortened run has reached. -/
def erase (M : Machine σ α) (stale : σ → σ → α → Bool) : σ → σ → List α → List α
  | _, _, [] => []
  | s, r, a :: as =>
    match M.step s a with
    | none => []
    | some t =>
      if stale s r a then
        erase M stale t r as
      else
        match M.step r a with
        | none => [a]
        | some r' => a :: erase M stale t r' as

/-- **The erasure rule.** If a stale step keeps the relation with the run that did not take it,
and any other step can be followed, then the run without the stale labels goes through and ends
related to the original's end. -/
theorem run_erase {stale : σ → σ → α → Bool} {R : σ → σ → Prop}
    (skip : ∀ s r a t, R s r → stale s r a = true → M.step s a = some t → R t r)
    (keep : ∀ s r a t, R s r → stale s r a = false → M.step s a = some t →
      ∃ r', M.step r a = some r' ∧ R t r') {s r t : σ} (h : R s r) {as : List α}
    (hr : M.run s as = some t) : ∃ r', M.run r (M.erase stale s r as) = some r' ∧ R t r' := by
  induction as generalizing s r with
  | nil =>
    cases hr
    exact ⟨r, rfl, h⟩
  | cons a as ih =>
    rw [run_cons] at hr
    obtain ⟨m, hm, hr⟩ := Option.bind_eq_some_iff.mp hr
    cases hst : stale s r a with
    | true =>
      obtain ⟨r', hr', hR⟩ := ih (skip s r a m h hst hm) hr
      refine ⟨r', ?_, hR⟩
      simpa only [erase, hm, hst, if_true] using hr'
    | false =>
      obtain ⟨r₁, hs₁, hR₁⟩ := keep s r a m h hst hm
      obtain ⟨r', hr', hR⟩ := ih hR₁ hr
      refine ⟨r', ?_, hR⟩
      simpa only [erase, hm, hst, hs₁, Bool.false_eq_true, if_false, run_cons,
        Option.bind_some] using hr'

end Machine
