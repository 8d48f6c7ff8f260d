import Pipekeep.Expiry
import Pipekeep.Laws.Hardened
import Pipekeep.Lib.Log

/-!
# Idle expiry needs a full, uninterrupted idle TTL

The idle clock names a tick: while it runs, that tick is in the log, and it, every tick since and
nothing else are what the log holds from there on (`Since`). An admission clears the clock, so an
admission between two ticks needs no tick to have seen it.
-/

namespace Pipekeep.Expiry

variable {s t : State} {log : List Event} {ttl : Nat}

/-- Nothing uses the session, and nothing keeps it. -/
structure Unused (s : Hardened.State) : Prop where
  connections : s.activeAttachments = 0
  cancellation : s.operation.cancellation.active = false
  storage : ∀ p, s.output = some p → p.ioInflight = 0
  collection : ∀ p, s.output = some p → p.collected = true
  eligible : s.terminal = true ∨ s.operation.cancellation.finished = true

theorem unused_of_lifetime {s : Hardened.State} (idle : s.hardenedLifetimeState.1 = false)
    (eligible : s.hardenedLifetimeState.2 = true) : Unused s := by
  obtain ⟨hcalm, hpolicy⟩ := Bool.or_eq_false_iff.mp idle
  obtain ⟨hconnections, hcancel⟩ := Bool.or_eq_false_iff.mp hcalm
  have hpolicy : ∀ p, s.output = some p → p.ioInflight = 0 ∧ p.collected = true := by
    intro p hp
    rw [hp] at hpolicy
    simpa using hpolicy
  exact ⟨by simpa using hconnections, hcancel, fun p hp => (hpolicy p hp).1,
    fun p hp => (hpolicy p hp).2, Hardened.eligible_iff.mp eligible⟩

/-- A tick that has found the session unused. -/
def Event.Idle : Event → Prop
  | .admitted _ => False
  | .tick read _ _ => Unused read

/-- The log holds a tick at `since`, and from it on only idle ticks. -/
def Since (since : Nat) (log : List Event) : Prop :=
  ∃ before read breaks after, log = before ++ .tick read since breaks :: after ∧
    ∀ e ∈ Event.tick read since breaks :: after, e.Idle

theorem Since.snoc {since : Nat} (h : Since since log) {e : Event} (idle : e.Idle) :
    Since since (log ++ [e]) := by
  obtain ⟨before, read, breaks, after, rfl, hidle⟩ := h
  refine ⟨before, read, breaks, after ++ [e], by simp only [List.append_assoc, List.cons_append],
    fun x hx => ?_⟩
  rw [← List.cons_append] at hx
  rcases List.mem_append.mp hx with hx | hx
  · exact hidle x hx
  · rw [List.mem_singleton.mp hx]
    exact idle

/-- In a log in the order of time, every entry after `since` is an idle tick. -/
theorem Since.later {since : Nat} (h : Since since log)
    (ordered : log.Pairwise fun e e' => e.time ≤ e'.time) {e : Event} (he : e ∈ log)
    (late : since < e.time) : e.Idle := by
  obtain ⟨before, read, breaks, after, rfl, hidle⟩ := h
  rcases List.mem_append.mp he with hbefore | hafter
  · have hle := (List.pairwise_append.mp ordered).2.2 e hbefore _ List.mem_cons_self
    exact absurd hle (Nat.not_le.mpr late)
  · exact hidle e hafter

/-- Why a tick may break the loop. -/
def Permitted (ttl : Nat) (past : List Event) (entry : Event) : Prop :=
  ∀ read now, entry = .tick read now true →
    ∃ since, since + ttl ≤ now ∧ Since since (past ++ [entry])

/-- The loop and what it has done. -/
structure Kept (ttl : Nat) (s : State) (log : List Event) : Prop where
  past : ∀ e ∈ log, e.time ≤ s.now
  ordered : log.Pairwise fun e e' => e.time ≤ e'.time
  clock : ∀ since, s.idleSince = some since → since ≤ s.now ∧ Since since log
  permitted : Log.Justified (Permitted ttl) log
  broken : s.loop = .broken → ∃ past read now, log = past ++ [.tick read now true]

theorem kept_initial (session : Hardened.State) (now : Nat) :
    Kept ttl { session := session, now := now } [] where
  past _ he := nomatch he
  ordered := .nil
  clock _ hsince := nomatch hsince
  permitted := Log.justified_nil
  broken hbroken := nomatch hbroken

/-- A step that neither admits nor ticks. -/
theorem Kept.aside (h : Kept ttl s log) (later : s.now ≤ t.now) (clock : t.idleSince = s.idleSince)
    (loop : t.loop = .broken → s.loop = .broken) : Kept ttl t (log ++ []) where
  past e he := Nat.le_trans (h.past e (List.append_nil log ▸ he)) later
  ordered := (List.append_nil log).symm ▸ h.ordered
  clock since hsince := by
    obtain ⟨hle, hlog⟩ := h.clock since (clock ▸ hsince)
    exact ⟨Nat.le_trans hle later, (List.append_nil log).symm ▸ hlog⟩
  permitted := (List.append_nil log).symm ▸ h.permitted
  broken hbroken := (List.append_nil log).symm ▸ h.broken (loop hbroken)

theorem Kept.ordered_snoc (h : Kept ttl s log) {e : Event} (now : e.time = s.now) :
    (log ++ [e]).Pairwise fun e e' => e.time ≤ e'.time := by
  refine List.pairwise_append.mpr ⟨h.ordered, List.pairwise_singleton _ _, fun x hx y hy => ?_⟩
  rw [List.mem_singleton.mp hy, now]
  exact h.past x hx

theorem Kept.past_snoc (h : Kept ttl s log) {e : Event} (now : e.time = s.now) :
    ∀ x ∈ log ++ [e], x.time ≤ s.now := by
  intro x hx
  rcases List.mem_append.mp hx with hx | hx
  · exact h.past x hx
  · rw [List.mem_singleton.mp hx]
    exact Nat.le_of_eq now

/-- Admission resets the idle clock. -/
theorem Kept.admitted (h : Kept ttl s log) (selects : s.loop = .select)
    (session : Hardened.State) : Kept ttl (s.accepted session) (log ++ [.admitted s.now]) where
  past := h.past_snoc rfl
  ordered := h.ordered_snoc rfl
  clock _ hsince := nomatch hsince
  permitted := h.permitted.snoc fun _ _ heq => nomatch heq
  broken hbroken := nomatch selects.symm.trans hbroken

/-- What a tick does: it stops the clock, or it has found the session unused and the clock runs,
from now or from where it was. -/
theorem expired_cases (s : State) (ttl : Nat) (read : Hardened.State) :
    s.expired ttl read = (none, false) ∨
    Unused read ∧ ∃ since, (s.idleSince = some since ∨ s.idleSince = none ∧ since = s.now) ∧
      s.expired ttl read = (some since, decide (ttl ≤ s.now - since)) := by
  unfold State.expired Hardened.hardenedExpired
  cases hbusy : read.hardenedLifetimeState.1 with
  | true => exact .inl (by simp only [hbusy, Bool.true_or, if_true])
  | false =>
    cases heligible : read.hardenedLifetimeState.2 with
    | false => exact .inl (by simp only [hbusy, heligible, Bool.not_false, Bool.or_true, if_true])
    | true =>
      refine .inr ⟨unused_of_lifetime hbusy heligible, s.idleSince.getD s.now, ?_, ?_⟩
      · cases s.idleSince with
        | none => exact .inr ⟨rfl, rfl⟩
        | some since => exact .inl rfl
      · simp only [hbusy, heligible, Bool.not_true, Bool.or_false, Bool.false_eq_true, if_false]

/-- A tick. -/
theorem Kept.ticked (h : Kept ttl s log) (read : Hardened.State) :
    Kept ttl
      { s with
        idleSince := (s.expired ttl read).1
        loop := if (s.expired ttl read).2 then .broken else .select }
      (log ++ [.tick read s.now (s.expired ttl read).2]) := by
  have hclock : ∀ since, (s.expired ttl read).1 = some since →
      since ≤ s.now ∧ Since since (log ++ [.tick read s.now (s.expired ttl read).2]) := by
    intro since hsince
    rcases expired_cases s ttl read with hstopped | ⟨hunused, started, hfrom, hruns⟩
    · rw [hstopped] at hsince
      cases hsince
    · rw [hruns] at hsince
      cases hsince
      rcases hfrom with hbefore | ⟨-, rfl⟩
      · obtain ⟨hle, hlog⟩ := h.clock _ hbefore
        exact ⟨hle, hlog.snoc hunused⟩
      · refine ⟨Nat.le_refl _, log, read, _, [], rfl, fun e he => ?_⟩
        rw [List.mem_singleton.mp he]
        exact hunused
  constructor
  · exact h.past_snoc rfl
  · exact h.ordered_snoc rfl
  · exact hclock
  · refine h.permitted.snoc fun read' now heq => ?_
    rcases expired_cases s ttl read with hstopped | ⟨-, since, -, hruns⟩
    · rw [hstopped] at heq
      cases heq
    · obtain ⟨hle, hlog⟩ := hclock since (by rw [hruns])
      obtain ⟨-, rfl, hbreaks⟩ := Event.tick.inj heq
      rw [hruns] at hbreaks
      have hfull : ttl ≤ s.now - since := of_decide_eq_true hbreaks
      exact ⟨since, by omega, hlog⟩
  · intro hbroken
    cases hbreaks : (s.expired ttl read).2 with
    | false =>
      rw [hbreaks] at hbroken
      cases hbroken
    | true => exact ⟨log, read, s.now, rfl⟩

/-- The step lemma. -/
theorem kept_step (h : Kept ttl s log) {act : Act} (hs : step ttl s act = some t) :
    Kept ttl t (log ++ events ttl s act) := by
  cases act with
  | elapse time =>
    cases hs
    exact h.aside (Nat.le_add_right _ _) rfl id
  | other act =>
    obtain ⟨session, -, rfl⟩ := Option.map_eq_some_iff.mp hs
    exact h.aside (Nat.le_refl _) rfl id
  | accepted =>
    rw [step] at hs
    split at hs
    · rename_i hselect
      obtain ⟨session, -, rfl⟩ := Option.map_eq_some_iff.mp hs
      exact h.admitted hselect session
    · cases hs
  | acceptError =>
    rw [step] at hs
    split at hs
    · cases hs
      exact h.aside (Nat.le_refl _) rfl id
    · cases hs
  | lifetime =>
    rw [step] at hs
    split at hs
    · cases hs
      exact h.aside (Nat.le_refl _) rfl nofun
    · cases hs
  | expired =>
    rw [step] at hs
    split at hs
    · rename_i read hread
      cases hs
      rw [events, hread]
      exact h.ticked read
    · cases hs

/-- **Idle expiry needs a full uninterrupted idle TTL.** In every run of the accept loop the log is
in the order of time, a loop that has broken was broken by its last tick, and a tick that breaks it
comes at least the TTL after a tick since which every tick, itself included, has found no open
connection, no active cancellation, no storage operation in flight, no unfinished collection, and
the session eligible, and since which no connection was admitted. -/
theorem expiry_needs_idle_ttl (handle : Except String Unit) (probe : Except String Bool)
    (ttl : Nat) {s t : State} {as : List Act} (hinit : (machine handle probe ttl).init s)
    (hr : (machine handle probe ttl).run s as = some t) :
    let log := (machine handle probe ttl).trace (events ttl) s as
    log.Pairwise (fun e e' => e.time ≤ e'.time) ∧
    (t.loop = .broken → ∃ past read now, log = past ++ [.tick read now true]) ∧
    ∀ past read now rest, log = past ++ .tick read now true :: rest →
      ∃ since, since + ttl ≤ now ∧ Since since (past ++ [.tick read now true]) ∧
        (∀ time, .admitted time ∈ past → time ≤ since) ∧
        ∀ read' now' breaks, .tick read' now' breaks ∈ past → since < now' → Unused read' := by
  intro log
  obtain ⟨session, now, hsession, rfl⟩ := hinit
  have reached : (machine handle probe ttl).Reachable { session := session, now := now } :=
    .init ⟨session, now, hsession, rfl⟩
  have h : Kept ttl t ([] ++ log) := Machine.Reachable.traced (P := Kept ttl)
    (fun _ _ _ _ _ h hs => kept_step h hs) reached (kept_initial session now) hr
  rw [List.nil_append] at h
  refine ⟨h.ordered, h.broken, fun past read now rest heq => ?_⟩
  obtain ⟨since, hfull, hsince⟩ := h.permitted past _ rest heq read now rfl
  have hordered : (past ++ [Event.tick read now true]).Pairwise fun e e' => e.time ≤ e'.time := by
    have := h.ordered
    rw [heq, List.append_cons] at this
    exact (List.pairwise_append.mp this).1
  refine ⟨since, hfull, hsince, fun time hmem => ?_, fun read' now' breaks hmem hlater => ?_⟩
  · by_contra hlate
    exact hsince.later hordered (List.mem_append_left _ hmem) (Nat.not_le.mp hlate)
  · exact hsince.later hordered (List.mem_append_left _ hmem) hlater

/-- With a TTL of two, a connection between the first two ticks costs a third and a fourth one. -/
theorem expiry_needs_idle_ttl_admitted : ∃ (t : State) (log : List Event) (past : List Event)
    (read : Hardened.State), t.loop = .broken ∧
      log.map Event.time = [0, 1, 3, 5] ∧ log = past ++ [.tick read 5 true] ∧
      ∃ since, since + 2 ≤ 5 ∧ Since since (past ++ [.tick read 5 true]) := by
  let s : State := { session := Hardened.initial (.ok ()) (.ok true) none none }
  let labels : List Act := [.other (.wait (.ok ⟨some 0, none⟩)), .other (.close .stdout),
    .other (.close .stderr), .lifetime, .expired, .elapse 1, .accepted, .other .release, .elapse 2,
    .lifetime, .expired, .elapse 2, .lifetime, .expired]
  let broker := machine (.ok ()) (.ok true) 2
  have hinit : broker.init s := ⟨_, 0, ⟨none, none, rfl⟩, rfl⟩
  obtain ⟨t, hr, hbroken⟩ : ∃ t, broker.run s labels = some t ∧ t.loop = .broken := ⟨_, rfl, rfl⟩
  have htimes : (broker.trace (events 2) s labels).map Event.time = [0, 1, 3, 5] := rfl
  have hmain := expiry_needs_idle_ttl (.ok ()) (.ok true) 2 hinit hr
  obtain ⟨past, read, now, hlog⟩ := hmain.2.1 hbroken
  obtain ⟨since, hfull, hsince, -, -⟩ := hmain.2.2 past read now [] hlog
  have hnow : now = 5 := by
    have hlast := congrArg List.getLast? htimes
    rw [hlog, List.map_append, List.map_singleton, List.getLast?_concat] at hlast
    exact Option.some.inj hlast
  subst hnow
  exact ⟨t, _, past, read, hbroken, htimes, hlog, since, hfull, hsince⟩

end Pipekeep.Expiry
