import Mathlib.Logic.Function.Basic
import Pipekeep.Lib.Machine

/-!
# Waiting for a notification

Tasks change a shared state, and then they notify. A waiter registers for the notification, looks at
the state and, if it finds nothing to do there, sleeps until the notification or another of its
sources wakes it. A notification reaches everyone who has registered before it, asleep or not yet,
and is not kept for later ones.

A machine that says of its labels which of these they are (`Role`) gets the notification by
`Watched.watched`: a task that has changed the state owes a notification and takes no other step
before it, and nobody looks without having registered. `Watched.informed` is what this order is for.
Whoever sleeps has been notified, or will be by a task that owes it, or has nothing to do.
-/

/-- What a step is to the notification. -/
inductive Role (τ ι : Type*)
  /-- A task's step, which changes what the waiters look at or does not. -/
  | task (task : τ) (changes : Bool)
  | look (i : ι)
  /-- A waiter is woken; another source than the notification may be ready. -/
  | wake (i : ι) (otherwise : Bool)
  | other
  deriving DecidableEq, Repr

/-- A machine with waiters: which of them are about to register, and which are asleep. -/
structure Watched (σ α τ ι : Type*) where
  machine : Machine σ α
  role : σ → α → Role τ ι
  registers : σ → ι → Bool
  asleep : σ → ι → Bool

namespace Watched

variable {σ α τ ι : Type*}

/-- `owing` are the tasks that have still to notify; `registered` says of a waiter's registration
whether a notification has come. -/
structure State (σ τ ι : Type*) where
  state : σ
  owing : τ → Bool
  registered : ι → Option Bool

inductive Act (α τ ι : Type*)
  | act (a : α)
  | notify (task : τ)
  | register (i : ι)
  deriving DecidableEq, Repr

variable [DecidableEq τ] [DecidableEq ι] (W : Watched σ α τ ι)

/-- A step of the machine. A look that is not followed by sleep drops the registration. -/
def act (s : State σ τ ι) (a : α) : Option (State σ τ ι) :=
  match W.role s.state a with
  | .task task changes =>
    if s.owing task then none
    else
      (W.machine.step s.state a).map fun t =>
        { s with
          state := t
          owing := if changes then Function.update s.owing task true else s.owing }
  | .look i =>
    if (s.registered i).isSome then
      (W.machine.step s.state a).map fun t =>
        { s with
          state := t
          registered := if W.asleep t i then s.registered else Function.update s.registered i none }
    else
      none
  | .wake i otherwise =>
    if otherwise || s.registered i == some true then
      (W.machine.step s.state a).map fun t =>
        { s with state := t, registered := Function.update s.registered i none }
    else
      none
  | .other => (W.machine.step s.state a).map fun t => { s with state := t }

def step (s : State σ τ ι) : Act α τ ι → Option (State σ τ ι)
  | .act a => W.act s a
  | .notify task =>
    some { s with
      owing := Function.update s.owing task false
      registered := fun i => (s.registered i).map fun _ => true }
  | .register i =>
    if W.registers s.state i && (s.registered i).isNone then
      some { s with registered := Function.update s.registered i (some false) }
    else
      none

/-- The machine with its notification. -/
def watched : Machine (State σ τ ι) (Act α τ ι) where
  init s := W.machine.init s.state ∧ s.owing = (fun _ => false) ∧ s.registered = fun _ => none
  step := W.step

variable {W}

/-- **What a step of the machine can do to the notification.** -/
inductive Acted (W : Watched σ α τ ι) (s : State σ τ ι) (a : α) (state : σ) :
    State σ τ ι → Prop
  | task {task : τ} (role : W.role s.state a = .task task false) (settled : s.owing task = false) :
      Acted W s a state { s with state := state }
  | changed {task : τ} (role : W.role s.state a = .task task true)
      (settled : s.owing task = false) :
      Acted W s a state { s with state := state, owing := Function.update s.owing task true }
  | slept {i : ι} (role : W.role s.state a = .look i) (registered : (s.registered i).isSome = true)
      (asleep : W.asleep state i = true) : Acted W s a state { s with state := state }
  | looked {i : ι} (role : W.role s.state a = .look i)
      (registered : (s.registered i).isSome = true) (awake : W.asleep state i = false) :
      Acted W s a state
        { s with state := state, registered := Function.update s.registered i none }
  | woken {i : ι} {otherwise : Bool} (role : W.role s.state a = .wake i otherwise)
      (source : otherwise = true ∨ s.registered i = some true) :
      Acted W s a state
        { s with state := state, registered := Function.update s.registered i none }
  | other (role : W.role s.state a = .other) : Acted W s a state { s with state := state }

theorem act_acted {s t : State σ τ ι} {a : α} (h : W.act s a = some t) :
    W.machine.step s.state a = some t.state ∧ Acted W s a t.state t := by
  unfold act at h
  split at h
  · rename_i task changes hrole
    split at h
    · cases h
    · rename_i hsettled
      obtain ⟨state, hstep, rfl⟩ := Option.map_eq_some_iff.mp h
      refine ⟨hstep, ?_⟩
      have hsettled : s.owing task = false := by simpa using hsettled
      cases changes with
      | false => exact .task hrole hsettled
      | true => exact .changed hrole hsettled
  · rename_i i hrole
    split at h
    · rename_i hregistered
      obtain ⟨state, hstep, rfl⟩ := Option.map_eq_some_iff.mp h
      refine ⟨hstep, ?_⟩
      dsimp only
      split
      · rename_i hasleep
        exact .slept hrole hregistered hasleep
      · rename_i hawake
        exact .looked hrole hregistered (by simpa using hawake)
    · cases h
  · rename_i i otherwise hrole
    split at h
    · rename_i hsource
      obtain ⟨state, hstep, rfl⟩ := Option.map_eq_some_iff.mp h
      exact ⟨hstep, .woken hrole (by simpa using hsource)⟩
    · cases h
  · rename_i hrole
    obtain ⟨state, hstep, rfl⟩ := Option.map_eq_some_iff.mp h
    exact ⟨hstep, .other hrole⟩

/-- A step that is nothing to the notification leaves it alone. -/
theorem act_other {s t : State σ τ ι} {a : α} (h : W.watched.step s (.act a) = some t)
    (role : W.role s.state a = .other) :
    W.machine.step s.state a = some t.state ∧ t.owing = s.owing ∧ t.registered = s.registered := by
  have h : W.act s a = some t := h
  simp only [act, role] at h
  obtain ⟨state, hstep, rfl⟩ := Option.map_eq_some_iff.mp h
  exact ⟨hstep, rfl, rfl⟩

theorem act_look {s t : State σ τ ι} {a : α} {i : ι} (h : W.watched.step s (.act a) = some t)
    (role : W.role s.state a = .look i) :
    W.machine.step s.state a = some t.state ∧ t.owing = s.owing ∧
      (s.registered i).isSome = true ∧
      (t.registered i = s.registered i ∨ t.registered i = none) := by
  have h : W.act s a = some t := h
  simp only [act, role] at h
  split at h
  · rename_i hregistered
    obtain ⟨state, hstep, rfl⟩ := Option.map_eq_some_iff.mp h
    refine ⟨hstep, rfl, hregistered, ?_⟩
    dsimp only
    split
    · exact .inl rfl
    · exact .inr (Function.update_self ..)
  · cases h

theorem act_wake {s t : State σ τ ι} {a : α} {i : ι} {otherwise : Bool}
    (h : W.watched.step s (.act a) = some t)
    (role : W.role s.state a = .wake i otherwise) :
    W.machine.step s.state a = some t.state ∧ t.owing = s.owing ∧
      (otherwise = true ∨ s.registered i = some true) ∧ t.registered i = none := by
  have h : W.act s a = some t := h
  simp only [act, role] at h
  split at h
  · rename_i hsource
    obtain ⟨state, hstep, rfl⟩ := Option.map_eq_some_iff.mp h
    exact ⟨hstep, rfl, by simpa using hsource, Function.update_self ..⟩
  · cases h

/-- A step goes through if the notification lets it. -/
theorem act_enabled {s : State σ τ ι} {a : α} {state : σ}
    (hstep : W.machine.step s.state a = some state)
    (task : ∀ task changes, W.role s.state a = .task task changes → s.owing task = false)
    (look : ∀ i, W.role s.state a = .look i → (s.registered i).isSome = true)
    (wake : ∀ i otherwise, W.role s.state a = .wake i otherwise →
      otherwise = true ∨ s.registered i = some true) :
    ∃ t, W.watched.step s (.act a) = some t := by
  show ∃ t, W.act s a = some t
  unfold act
  rw [hstep]
  split
  · rename_i task' changes hrole
    rw [if_neg (by simp [task _ _ hrole])]
    exact ⟨_, rfl⟩
  · rename_i i hrole
    rw [if_pos (look _ hrole)]
    exact ⟨_, rfl⟩
  · rename_i i otherwise hrole
    rw [if_pos (by simpa using wake _ _ hrole)]
    exact ⟨_, rfl⟩
  · exact ⟨_, rfl⟩

/-- A state of the machine with its notification is a state of the machine. -/
theorem reachable_state {s : State σ τ ι} (h : W.watched.Reachable s) :
    W.machine.Reachable s.state := by
  refine Machine.Reach.project (M := W.watched) State.state ?_ ?_ h
  · intro s hs
    exact hs.1
  intro s act t _ _ hstep
  cases act with
  | act a => exact .inr ⟨a, (act_acted hstep).1⟩
  | notify task =>
    cases hstep
    exact .inl rfl
  | register i =>
    have hstep : W.step s (.register i) = some t := hstep
    simp only [step] at hstep
    split at hstep <;> cases hstep
    exact .inl rfl

/-- Where a machine's waiters sleep: nobody sleeps at first, falls asleep but by a look that finds
nothing to do, or registers asleep; and nothing to do stays nothing to do until a task changes the
state. -/
structure Sleeps (W : Watched σ α τ ι) (idle : σ → ι → Prop) : Prop where
  init : ∀ s i, W.machine.init s → W.asleep s i = false
  registers : ∀ s i, W.registers s i = true → W.asleep s i = false
  falls : ∀ s a t i, W.machine.step s a = some t → W.asleep t i = true →
    (W.role s a = .look i → idle t i) ∧ (W.role s a ≠ .look i → W.asleep s i = true)
  wakes : ∀ s a t i otherwise, W.machine.step s a = some t → W.role s a = .wake i otherwise →
    W.asleep t i = false
  stays : ∀ s a t i, W.machine.step s a = some t → W.asleep s i = true → W.asleep t i = true →
    idle s i → (∀ task, W.role s a ≠ .task task true) → idle t i

/-- A sleeping waiter has registered, and is notified or will be, unless there is nothing to do. -/
structure Informed (W : Watched σ α τ ι) (idle : σ → ι → Prop) (s : State σ τ ι) (i : ι) : Prop where
  registered : (s.registered i).isSome = true
  source : s.registered i = some true ∨ (∃ task, s.owing task = true) ∨ idle s.state i

variable {idle : σ → ι → Prop} {s t : State σ τ ι}

theorem informed_acted (hw : W.Sleeps idle) {a : α} {i : ι} {state : σ}
    (hs : W.asleep s.state i = true → W.Informed idle s i)
    (hstep : W.machine.step s.state a = some state) (h : Acted W s a state t)
    (asleep : W.asleep state i = true) : W.Informed idle t i := by
  obtain ⟨hfell, hslept⟩ := hw.falls s.state a state i hstep asleep
  -- a step that is not the waiter's own look, and changes nothing that it looks at
  have still : W.role s.state a ≠ .look i → (∀ task, W.role s.state a ≠ .task task true) →
      ∀ t : State σ τ ι, t.state = state → t.registered i = s.registered i → t.owing = s.owing →
        W.Informed idle t i := by
    intro hlook hchange t hstate hregistered howing
    have hbefore := hslept hlook
    obtain ⟨hsome, hsource⟩ := hs hbefore
    refine ⟨hregistered ▸ hsome, ?_⟩
    rcases hsource with hnotified | hdebt | hidle
    · exact .inl (hregistered ▸ hnotified)
    · exact .inr (.inl (howing ▸ hdebt))
    · exact .inr (.inr (hstate ▸ hw.stays s.state a state i hstep hbefore asleep hidle hchange))
  cases h with
  | task role _ =>
    exact still (by rw [role]; exact nofun) (fun task => by rw [role]; exact nofun) _ rfl rfl rfl
  | @changed task role _ =>
    obtain ⟨hsome, -⟩ := hs (hslept (by rw [role]; exact nofun))
    exact ⟨hsome, .inr (.inl ⟨task, Function.update_self ..⟩)⟩
  | @slept j role hregistered _ =>
    by_cases hj : j = i
    · subst hj
      exact ⟨hregistered, .inr (.inr (hfell role))⟩
    · refine still ?_ (fun task => by rw [role]; exact nofun) _ rfl rfl rfl
      rw [role]
      intro heq
      exact hj (Role.look.inj heq)
  | @looked j role _ hawake =>
    have hj : j ≠ i := by
      rintro rfl
      rw [asleep] at hawake
      cases hawake
    refine still ?_ (fun task => by rw [role]; exact nofun) _ rfl (Function.update_of_ne hj.symm ..)
      rfl
    rw [role]
    intro heq
    exact hj (Role.look.inj heq)
  | @woken j otherwise role _ =>
    have hj : j ≠ i := by
      rintro rfl
      rw [hw.wakes s.state a _ j otherwise hstep role] at asleep
      cases asleep
    exact still (by rw [role]; exact nofun) (fun task => by rw [role]; exact nofun) _ rfl
      (Function.update_of_ne hj.symm ..) rfl
  | other role =>
    exact still (by rw [role]; exact nofun) (fun task => by rw [role]; exact nofun) _ rfl rfl rfl

/-- **No wakeup is lost.** Whoever sleeps has been notified, or a task owes a notification, or there
is nothing to do. -/
theorem informed (hw : W.Sleeps idle) (h : W.watched.Reachable s) {i : ι}
    (asleep : W.asleep s.state i = true) :
    s.registered i = some true ∨ (∃ task, s.owing task = true) ∨ idle s.state i := by
  have hall : ∀ i, W.asleep s.state i = true → W.Informed idle s i := by
    refine h.invariant (P := fun s => ∀ i, W.asleep s.state i = true → W.Informed idle s i) ?_ ?_
    · intro s hs i hasleep
      rw [hw.init s.state i hs.1] at hasleep
      cases hasleep
    · intro s act t _ hi _ hstep i hasleep
      cases act with
      | act a =>
        obtain ⟨hmachine, hacted⟩ := act_acted hstep
        exact informed_acted hw (hi i) hmachine hacted hasleep
      | notify task =>
        cases hstep
        obtain ⟨hsome, -⟩ := hi i hasleep
        obtain ⟨b, hb⟩ := Option.isSome_iff_exists.mp hsome
        refine ⟨?_, .inl ?_⟩ <;> simp [hb]
      | register j =>
        have hstep : W.step s (.register j) = some t := hstep
        simp only [step, Bool.and_eq_true] at hstep
        split at hstep <;> cases hstep
        rename_i hregisters
        have hj : i ≠ j := by
          rintro rfl
          rw [hw.registers s.state i hregisters.1] at hasleep
          cases hasleep
        obtain ⟨hsome, hsource⟩ := hi i hasleep
        refine ⟨?_, ?_⟩
        · simpa [Function.update_of_ne hj] using hsome
        · simpa [Function.update_of_ne hj] using hsource
  exact (hall i asleep).source

end Watched
