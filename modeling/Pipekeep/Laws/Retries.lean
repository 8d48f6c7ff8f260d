import Pipekeep.Retries
import Pipekeep.Lib.Log

/-!
# The outer wrapper never re-creates an established session

`Settled` reads the run loop's three variables off the log of what it asked for and what it was
told, between two attempts: the delivered positions are the ones that the log leaves, a session that
was opened is established, and one that may be created is not established and is not thought lost.
An attempt that was opened is only left by a disconnection that sets two of them, so nothing is
asked of them meanwhile.
-/

namespace Pipekeep.Attempts.Retries

variable {s t : State} {log : List Event}

@[simp] theorem deliveredBy_snoc (log : List Event) (e : Event) :
    deliveredBy (log ++ [e]) = e.deliver (deliveredBy log) := by
  rw [deliveredBy, List.foldl_append]
  rfl

/-- No request is lost, or after each that was, the session was reported missing. -/
def Fresh (log : List Event) : Prop :=
  ∀ past opened rest, log = past ++ .disconnected opened :: rest → ∃ e ∈ rest, e.Missing

theorem Fresh.snoc (h : Fresh log) {e : Event} (kept : ∀ opened, e ≠ .disconnected opened) :
    Fresh (log ++ [e]) := by
  intro past opened rest heq
  rcases List.eq_nil_or_concat rest with rfl | ⟨rest', x, rfl⟩
  · obtain ⟨-, hlast⟩ := List.append_inj' heq rfl
    exact absurd (List.singleton_inj.mp hlast) (kept opened)
  · rw [List.concat_eq_append, ← List.cons_append, ← List.append_assoc] at heq
    obtain ⟨hpast, -⟩ := List.append_inj' heq rfl
    obtain ⟨e', he', hmissing⟩ := h past opened rest' hpast
    exact ⟨e', by simpa using .inl he', hmissing⟩

/-- A missing-session reply comes after every loss before it. -/
theorem fresh_missing {e : Event} (missing : e.Missing) : Fresh (log ++ [e]) := by
  intro past opened rest heq
  rcases List.eq_nil_or_concat rest with rfl | ⟨rest', x, rfl⟩
  · obtain ⟨-, hlast⟩ := List.append_inj' heq rfl
    cases List.singleton_inj.mp hlast
    cases missing
  · rw [List.concat_eq_append, ← List.cons_append, ← List.append_assoc] at heq
    obtain ⟨-, hlast⟩ := List.append_inj' heq rfl
    cases List.singleton_inj.mp hlast
    exact ⟨e, by simp, missing⟩

/-- What an attempt may ask for after such a log. -/
structure Allowed (past : List Event) (entry : Event) : Prop where
  unopened : entry = .asked none → ∀ offsets, .opened offsets ∉ past
  fresh : entry = .asked none → Fresh past
  zero : entry = .asked none → deliveredBy past = .both 0
  resumes : ∀ offsets, entry = .asked (some offsets) → offsets = deliveredBy past

theorem allowed_other {past : List Event} {entry : Event}
    (other : ∀ offsets, entry ≠ .asked offsets) : Allowed past entry :=
  ⟨fun h => absurd h (other _), fun h => absurd h (other _), fun h => absurd h (other _),
    fun _ h => absurd h (other _)⟩

/-- The run loop's variables between two attempts. -/
structure Settled (s : State) (log : List Event) : Prop where
  delivered : s.delivered = deliveredBy log
  unopened : s.established = false → s.delivered = .both 0
  opened : ∀ offsets, .opened offsets ∈ log → s.established = true
  creating : s.create = true → s.established = false ∧ Fresh log

/-- An entry that is not an opening, a count or a loss. -/
theorem Settled.snoc (h : Settled s log) {e : Event}
    (delivers : e.deliver (deliveredBy log) = deliveredBy log)
    (unopened : ∀ offsets, e ≠ .opened offsets) (kept : ∀ opened, e ≠ .disconnected opened)
    (delivered : t.delivered = s.delivered) (established : t.established = s.established)
    (create : t.create = s.create) : Settled t (log ++ [e]) where
  delivered := by rw [deliveredBy_snoc, delivers, delivered, h.delivered]
  unopened hest := delivered.trans (h.unopened (established ▸ hest))
  opened offsets hmem := by
    rcases List.mem_append.mp hmem with hmem | hmem
    · exact established.trans (h.opened offsets hmem)
    · exact absurd (List.mem_singleton.mp hmem).symm (unopened offsets)
  creating hcreate := by
    obtain ⟨hest, hfresh⟩ := h.creating (create ▸ hcreate)
    exact ⟨established.trans hest, hfresh.snoc kept⟩

/-- The same variables, and nothing happened. -/
theorem Settled.same (h : Settled s log) (delivered : t.delivered = s.delivered)
    (established : t.established = s.established) (create : t.create = s.create) :
    Settled t log where
  delivered := delivered.trans h.delivered
  unopened hest := delivered.trans (h.unopened (established ▸ hest))
  opened offsets hmem := established.trans (h.opened offsets hmem)
  creating hcreate := by
    obtain ⟨hest, hfresh⟩ := h.creating (create ▸ hcreate)
    exact ⟨established.trans hest, hfresh⟩

/-- What is known at each place of the run loop. -/
def Stands (s : State) (log : List Event) : Stage → Prop
  | .idle | .opening => Settled s log
  | .copying o => o.position = deliveredBy log
  | .exited _ | .failed _ => True

/-- The rest of the world moves no variable of the run loop. -/
theorem Stands.same {stage : Stage} (h : Stands s log stage) (delivered : t.delivered = s.delivered)
    (established : t.established = s.established) (create : t.create = s.create) :
    Stands t log stage := by
  cases stage with
  | idle => exact Settled.same h delivered established create
  | opening => exact Settled.same h delivered established create
  | copying o => exact h
  | exited code => trivial
  | failed error => trivial

structure Tracked (s : State) (log : List Event) : Prop where
  stage : Stands s log s.stage
  allowed : Log.Justified Allowed log

/-- An attempt asks for a new session, or for the delivered positions. -/
theorem requested_start (s : State) :
    requested s.start = [.asked (if s.create then none else some s.delivered)] := by
  have hself : s.start.remotes s.start.attempt =
      some { offsets := if s.create then none else some s.delivered } := Function.update_self ..
  rw [requested, hself]
  rfl

/-- A new attempt. -/
theorem Settled.start (h : Settled s log) :
    Allowed log (.asked (if s.create then none else some s.delivered)) := by
  cases hcreate : s.create with
  | true =>
    obtain ⟨hest, hfresh⟩ := h.creating hcreate
    refine ⟨fun _ offsets hmem => ?_, fun _ => hfresh, fun _ => ?_, fun _ heq => nomatch heq⟩
    · exact Bool.false_ne_true (hest.symm.trans (h.opened offsets hmem))
    · exact h.delivered.symm.trans (h.unopened hest)
  | false =>
    refine ⟨nofun, nofun, nofun, fun offsets heq => ?_⟩
    cases heq
    exact h.delivered

/-- A request is lost before its reply. -/
theorem Settled.lost (h : Settled s log) :
    Settled (s.disconnected false) (log ++ [.disconnected false]) where
  delivered := by
    rw [deliveredBy_snoc]
    exact h.delivered
  unopened hest := h.unopened ((Bool.or_false s.established).symm.trans hest)
  opened offsets hmem := by
    rcases List.mem_append.mp hmem with hmem | hmem
    · exact Bool.or_eq_true_iff.mpr (.inl (h.opened offsets hmem))
    · exact absurd (List.mem_singleton.mp hmem) nofun
  creating hcreate := nomatch hcreate

/-- An opened attempt is disconnected. -/
theorem settled_disconnected {position : PerStream Nat} (h : position = deliveredBy log) :
    Settled ({ s with delivered := position }.disconnected true)
      (log ++ [.disconnected true]) where
  delivered := by
    rw [deliveredBy_snoc]
    exact h
  unopened hest := absurd ((Bool.or_true s.established).symm.trans hest) Bool.noConfusion
  opened _ _ := Bool.or_true _
  creating hcreate := nomatch hcreate

/-- A reply that is an error: only a missing session, of which nothing was ever opened, is created
again. -/
theorem Settled.refused (h : Settled s log) (error : String) :
    Stands (s.serverError error) (log ++ [.refused error]) (s.serverError error).stage := by
  have same : ∀ t : State, t.delivered = s.delivered → t.established = s.established →
      t.create = s.create → Settled t (log ++ [.refused error]) := fun _ =>
    h.snoc rfl nofun nofun
  unfold State.serverError
  split
  · exact same _ rfl rfl rfl
  split
  · rename_i hmissing
    obtain ⟨-, hest, hmissing⟩ := hmissing
    exact ⟨by rw [deliveredBy_snoc]; exact h.delivered, h.unopened,
      (same s rfl rfl rfl).opened, fun _ => ⟨hest, fresh_missing hmissing⟩⟩
  · trivial

/-- A handshake. -/
theorem stands_accept (s : State) (hello : Requests.ServerHello) :
    Stands (s.accept hello) (log ++ [.opened hello.offsets]) (s.accept hello).stage := by
  unfold State.accept
  split
  · trivial
  split
  · trivial
  · show hello.offsets = _
    rw [deliveredBy_snoc]
    rfl

/-- A step of a copy: only a count moves the position, and it is logged. -/
theorem stands_copy {o : Opened} (h : o.position = deliveredBy log) {sent : List UInt8}
    {st : Stream} {act : CopyAct} (copying : s.stage = .copying o)
    (hs : s.copyStep o sent st act = some t) :
    Stands t (log ++ outerEvents s (.copy st act)) t.stage := by
  have unmoved : Stands s (log ++ []) (.copying o) := by
    rw [List.append_nil]
    exact h
  unfold State.copyStep at hs
  dsimp only at hs
  simp only [outerEvents, copying]
  split at hs
  · split at hs
    · cases hs
      exact unmoved
    · cases hs
  · cases hs
    exact unmoved
  · cases hs
    exact unmoved
  · cases hs
    exact unmoved
  · cases hs
    exact unmoved
  · rename_i count htask
    cases hs
    simp only [htask]
    show o.position.set st (o.position.get st + count) = _
    rw [deliveredBy_snoc, ← h]
    rfl
  · cases hs

/-- The end of an opened attempt. -/
theorem stands_finish {o : Opened} (h : o.position = deliveredBy log) (waitFailed : Bool)
    (copying : s.stage = .copying o) :
    Stands (s.finish o waitFailed) (log ++ outerEvents s (.finish waitFailed))
      (s.finish o waitFailed).stage := by
  have disconnected := settled_disconnected (s := s) h
  unfold outerEvents
  rw [copying]
  unfold State.finish
  dsimp only
  split
  · trivial
  split
  · split
    · trivial
    · exact disconnected
  · exact disconnected

/-- Only the start of an attempt asks for anything. -/
theorem outerEvents_allowed (h : Log.Justified Allowed log) (s : State) {act : OuterAct}
    (other : act ≠ .start) : Log.Justified Allowed (log ++ outerEvents s act) := by
  have still : Log.Justified Allowed (log ++ []) := (List.append_nil log).symm ▸ h
  have quiet : ∀ e : Event, (∀ offsets, e ≠ .asked offsets) →
      Log.Justified Allowed (log ++ [e]) := fun _ other => h.snoc (allowed_other other)
  unfold outerEvents
  split
  · exact absurd rfl other
  · exact quiet _ nofun
  · split
    · exact quiet _ nofun
    · exact quiet _ nofun
    · exact still
  · split
    · exact quiet _ nofun
    · exact still
  · split
    · exact quiet _ nofun
    · exact still
  · exact still

theorem outerEvents_control (s : State) (diagnostics : List UInt8) :
    outerEvents s (.control diagnostics) = [] := by
  unfold outerEvents
  cases s.stage with
  | _ => rfl

/-- A step of the run loop. -/
theorem tracked_outer (h : Tracked s log) {act : OuterAct} (hs : outerStep s act = some t) :
    Tracked t (log ++ outerEvents s act) := by
  obtain ⟨hstands, hallowed⟩ := h
  have allowed : act ≠ .start → Log.Justified Allowed (log ++ outerEvents s act) :=
    outerEvents_allowed hallowed s
  unfold outerStep at hs
  split at hs
  · rename_i hidle
    cases hs
    rw [hidle] at hstands
    have hevents : outerEvents s .start =
        [.asked (if s.create then none else some s.delivered)] := by
      simp only [outerEvents, hidle, requested_start]
    rw [hevents]
    exact ⟨hstands.snoc rfl nofun nofun rfl rfl rfl, hallowed.snoc hstands.start⟩
  · cases hs
    exact ⟨trivial, allowed nofun⟩
  · rename_i hopening
    cases hs
    refine ⟨?_, allowed nofun⟩
    rw [hopening] at hstands
    simp only [outerEvents, hopening]
    exact hstands.lost
  · rename_i hopening
    refine ⟨?_, allowed nofun⟩
    obtain ⟨r, hr, hline⟩ := Option.bind_eq_some_iff.mp hs
    obtain ⟨reply, hreply, heq⟩ := Option.map_eq_some_iff.mp hline
    rw [hopening] at hstands
    cases reply with
    | error error =>
      cases heq
      simp only [outerEvents, hopening, hr, Option.bind_some, hreply]
      exact hstands.refused error
    | hello hello =>
      cases heq
      simp only [outerEvents, hopening, hr, Option.bind_some, hreply]
      exact stands_accept s hello
  · rename_i hcopying
    refine ⟨?_, allowed nofun⟩
    obtain ⟨r, -, hcopy⟩ := Option.bind_eq_some_iff.mp hs
    rw [hcopying] at hstands
    exact stands_copy hstands hcopying hcopy
  · rename_i hcopying
    refine ⟨?_, allowed nofun⟩
    split at hs
    · cases hs
      rw [hcopying] at hstands
      exact stands_finish hstands _ hcopying
    · cases hs
  · cases hs
    refine ⟨?_, allowed nofun⟩
    rw [outerEvents_control, List.append_nil]
    exact hstands.same rfl rfl rfl
  · cases hs

/-- **The step lemma.** -/
theorem tracked_step (h : Tracked s log) {act : Act} (hs : step s act = some t) :
    Tracked t (log ++ events s act) := by
  cases act with
  | world broker presence remotes =>
    cases hs
    show Tracked _ (log ++ [])
    rw [List.append_nil]
    exact ⟨h.stage.same rfl rfl rfl, h.allowed⟩
  | invalid error =>
    rw [step] at hs
    split at hs
    · cases hs
      show Tracked _ (log ++ [])
      rw [List.append_nil]
      exact ⟨trivial, h.allowed⟩
    · cases hs
  | outer act => exact tracked_outer h hs

theorem tracked_initial (broker : Buffered.State) : Tracked { broker := broker } [] :=
  ⟨⟨rfl, fun _ => rfl, fun _ hmem => absurd hmem List.not_mem_nil,
    fun _ => ⟨rfl, fun _ _ _ heq => absurd heq (by simp)⟩⟩, Log.justified_nil⟩

/-- **The outer wrapper never re-creates an established session.** In every run against every remote
side, an attempt asks for a new session only when no attempt before it was opened, every loss before
it was followed by a missing-session reply, and nothing was delivered; any other attempt asks for
exactly the positions that the attempts before it have left. -/
theorem never_recreates {s t : State} {as : List Act} (hinit : machine.init s)
    (hr : machine.run s as = some t) :
    ∀ past entry rest, machine.trace events s as = past ++ entry :: rest →
      (entry = .asked none →
        (∀ offsets, .opened offsets ∉ past) ∧
        (∀ before opened after, past = before ++ .disconnected opened :: after →
          ∃ e ∈ after, e.Missing) ∧
        deliveredBy past = .both 0) ∧
      ∀ offsets, entry = .asked (some offsets) → offsets = deliveredBy past := by
  obtain ⟨broker, rfl⟩ := hinit
  have reached : machine.Reachable { broker := broker } := .init ⟨broker, rfl⟩
  have h : Tracked t ([] ++ _) := Machine.Reachable.traced (P := Tracked)
    (fun _ _ _ _ _ h hs => tracked_step h hs) reached (tracked_initial broker) hr
  rw [List.nil_append] at h
  intro past entry rest heq
  have hallowed := h.allowed past entry rest heq
  exact ⟨fun hentry => ⟨hallowed.unopened hentry, hallowed.fresh hentry, hallowed.zero hentry⟩,
    hallowed.resumes⟩

/-- A lost creation whose session is missing is created again, and then only resumed. -/
theorem never_recreates_resumed :
    let past : List Event := [.asked none, .disconnected false, .asked (some (.both 0)),
      .refused "session does not exist"]
    let log : List Event := past ++ [.asked none, .opened (.both 0), .delivered .stdout 2,
      .disconnected true]
    ∃ s as, machine.trace events s as = log ++ [.asked (some ⟨2, 0⟩)] ∧
      deliveredBy past = .both 0 ∧ (∃ e ∈ past.drop 2, e.Missing) ∧ ⟨2, 0⟩ = deliveredBy log := by
  intro past log
  let reply (i : Nat) (r : Reply) (written : List UInt8) : Act :=
    let remote : Remote := { offsets := none, reply := some r }
    let relay : Relay := { remote.relay with written := ⟨written, []⟩ }
    .world { session := {} } .live
      (Function.update (fun _ => none) i (some { remote with relay := relay }))
  let labels : List Act := [.outer .start, .outer .lost, .outer .start,
    reply 2 (.error "session does not exist") [], .outer .line, .outer .start,
    reply 3 (.hello (Attempts.hello { session := {} } (.both 0))) [1, 2], .outer .line,
    .outer (.copy .stdout (.read 2)), .outer (.copy .stdout .write), .outer (.copy .stdout .count),
    .outer (.copy .stdout .eof), .outer (.copy .stderr .eof), .outer (.finish false), .outer .start]
  let s : State := { broker := { session := {} } }
  have hlog : machine.trace events s labels = log ++ [.asked (some ⟨2, 0⟩)] := by decide +kernel
  obtain ⟨t, hr⟩ := Option.isSome_iff_exists.mp
    (show (machine.run s labels).isSome = true by decide +kernel)
  have hmain := never_recreates ⟨_, rfl⟩ hr
  obtain ⟨-, hmissing, hzero⟩ := (hmain past (.asked none) _ hlog).1 rfl
  exact ⟨s, labels, hlog, hzero, hmissing [.asked none] false (past.drop 2) rfl,
    (hmain log _ [] hlog).2 _ rfl⟩

/-! ## The full machine -/

/-- What a run of the full machine asks for, and is told. -/
def fullEvents (s : State) : Attempts.Act → List Event
  | .outer act => outerEvents s act
  | _ => []

section

variable {S : Serde} {hardened : Bool} {id : String}

/-- What is no step of the run loop is a step of the world. -/
theorem step_world {act : Attempts.Act} (hs : Attempts.step S hardened id s act = some t) :
    ∃ b, step s b = some t ∧ events s b = fullEvents s act := by
  cases act with
  | broker act =>
    rw [Attempts.step] at hs
    split at hs
    · obtain ⟨b, -, rfl⟩ := Option.map_eq_some_iff.mp hs
      exact ⟨.world _ _ _, rfl, rfl⟩
    · cases hs
  | expire =>
    rw [Attempts.step] at hs
    split at hs
    · cases hs
      exact ⟨.world _ _ _, rfl, rfl⟩
    · cases hs
  | remote i act =>
    obtain ⟨r, -, hs⟩ := Option.bind_eq_some_iff.mp hs
    dsimp only at hs
    split at hs
    · split at hs
      · obtain ⟨p, -, rfl⟩ := Option.map_eq_some_iff.mp hs
        exact ⟨.world _ _ _, rfl, rfl⟩
      · cases hs
    · split at hs
      · cases hs
      · obtain ⟨p, -, rfl⟩ := Option.map_eq_some_iff.mp hs
        exact ⟨.world _ _ _, rfl, rfl⟩
  | outer act => exact ⟨.outer act, hs, rfl⟩

/-- **The run loop against the repository's own remote side is one of these runs**, with the same
log. -/
theorem run_world {as : List Attempts.Act}
    (hr : (Attempts.machine S hardened id).run s as = some t) :
    ∃ bs, machine.run s bs = some t ∧
      machine.trace events s bs = (Attempts.machine S hardened id).trace fullEvents s as := by
  induction as generalizing s with
  | nil => exact ⟨[], hr, rfl⟩
  | cons act as ih =>
    rw [Machine.run_cons] at hr
    obtain ⟨m, hm, hr⟩ := Option.bind_eq_some_iff.mp hr
    obtain ⟨bs, hbs, hlog⟩ := ih hr
    obtain ⟨b, hb, hsame⟩ := step_world hm
    refine ⟨b :: bs, ?_, ?_⟩
    · rw [Machine.run_cons]
      exact Option.bind_eq_some_iff.mpr ⟨m, hb, hbs⟩
    · have hb : machine.step s b = some m := hb
      rw [Machine.trace, Machine.trace, hb, hm, hsame]
      exact congrArg _ hlog

end

end Pipekeep.Attempts.Retries
