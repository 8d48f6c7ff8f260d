import Pipekeep.Startup
import Pipekeep.Laws.ServerError

/-!
# Who disposes of a session that did not start

The proxy and the broker of a session with finite output share three facts: the marker, the broker's
exit, and the socket. The invariant ties them to the dispatch. Before the marker is removed nothing
was spawned (`Inv.before`), from then on it is not there (`Inv.after`), and nothing is spawned once
the broker is gone. So a proxy that has found the broker gone and the marker there may dispose, and
it disposes on nothing else.
-/

namespace Pipekeep.Startup

variable {l : Launch} {s t : State} {stage : BrokerStage}

/-- The error says that the workload may have started. -/
def MayHaveStarted (e : ServerError) : Prop :=
  ∀ printable : Char → Bool,
    Attempts.State.contains (e.text printable) "workload may have started" = true

/-- What the first text holds, the joined one holds. -/
theorem contains_append_left {a part : String} (h : Attempts.State.contains a part = true)
    (b : String) : Attempts.State.contains (a ++ b) part = true := by
  rw [ServerError.contains_iff, String.toList_append]
  exact (ServerError.contains_iff.mp h).trans (List.prefix_append _ _).isInfix

/-- What the second text holds, the joined one holds. -/
theorem contains_append_right {b part : String} (h : Attempts.State.contains b part = true)
    (a : String) : Attempts.State.contains (a ++ b) part = true := by
  rw [ServerError.contains_iff, String.toList_append]
  exact (ServerError.contains_iff.mp h).trans (List.suffix_append _ _).isInfix

/-- The error of an unknown readiness says that the workload may have started. -/
theorem mayHaveStarted_readinessUnknown : MayHaveStarted .readinessUnknown := by
  intro printable
  have hbody : Attempts.State.contains
      "workload may have started; query the same session, do not retry creation"
      "workload may have started" = true := by
    decide +kernel
  exact contains_append_right hbody
    "session broker readiness unknown after dispatch; session retained; "

/-- The error of a failed wait says that the workload may have started, whatever the cause. -/
theorem mayHaveStarted_waitFailed (error : String) : MayHaveStarted (.waitFailed error) := by
  intro printable
  have hbody : Attempts.State.contains
      "workload may have started; query the same session, do not retry creation"
      "workload may have started" = true := by
    decide +kernel
  exact contains_append_right hbody
    ("session broker wait failed after dispatch: " ++ error ++ "; session retained; ")

/-- The error of a broker that exits after the dispatch says it too, whatever the status. -/
theorem mayHaveStarted_exited (status : String) : MayHaveStarted (.exitedAfterDispatch status) := by
  intro printable
  have hbody : Attempts.State.contains "); workload may have started; "
      "workload may have started" = true := by
    decide +kernel
  exact contains_append_left
    (contains_append_right hbody ("session broker exited after dispatch (" ++ status))
    "session retained; do not retry creation"

/-! ## The invariant -/

/-- The broker has the marker's removal before it. -/
def BrokerStage.before : BrokerStage → Bool
  | .dispatch | .spawning | .guarding | .running | .exited _ => false
  | _ => true

/-- The broker has removed the marker. -/
def BrokerStage.after : BrokerStage → Bool
  | .dispatch | .spawning | .guarding | .running => true
  | _ => false

/-- There is no broker, or it has exited. -/
def Gone (s : State) : Prop :=
  ∀ stage, s.broker = some stage → stage.isExited = true

/-- What the place of the proxy says. -/
def Verdict (s : State) : ProxyStage → Prop
  | .connecting | .waiting | .connected => True
  | .failed e => MayHaveStarted e ∨ s.spawned = false ∧ Gone s
  | _ => s.broker = none

structure Inv (s : State) : Prop where
  unkilled : s.killed = false
  marked : s.spawned = true → s.dir.prelaunch = false
  before : ∀ stage, s.broker = some stage → stage.before = true → s.spawned = false
  after : ∀ stage, s.broker = some stage → stage.after = true → s.dir.prelaunch = false
  unborn : s.broker = none → s.spawned = false
  verdict : Verdict s s.proxy
  removed : s.removed = true → s.spawned = false ∧ Gone s ∧ ∃ e, s.proxy = .failed e

/-- A broker that steps has not exited. -/
theorem brokerStep_active {act : BrokerAct} (h : brokerStep l s stage act = some t) :
    stage.isExited = false := by
  cases stage with
  | exited status => cases act <;> cases h
  | _ => rfl

/-- A broker that has not exited is before the marker's removal or after it. -/
theorem before_or_after (active : stage.isExited = false) :
    stage.before = true ∨ stage.after = true := by
  cases stage with
  | exited status => cases active
  | dispatch | spawning | guarding | running => exact .inr rfl
  | _ => exact .inl rfl

/-- No stage has the removal before it again. -/
theorem before_of_next (h : (stage.next l).before = true) : stage.before = true := by
  cases stage with
  | dispatch | spawning | guarding | running => cases h
  | exited status => cases h
  | _ => rfl

/-- The dispatch comes after the removal. -/
theorem after_next (hb : l.outputLimit.isSome = true) (h : (stage.next l).after = true) :
    stage = .transition ∨ stage.after = true := by
  obtain ⟨hgroup, -⟩ := l.bounded hb
  cases stage with
  | transition => exact .inl rfl
  | dispatch | spawning | guarding | running => exact .inr rfl
  | exited status => cases h
  | _ =>
    simp only [BrokerStage.next, hb, hgroup, if_true] at h
    cases h

/-- After the removal, no step makes the marker again. -/
theorem write_after (h : stage.after = true) {dir : Dir} (marker : dir.prelaunch = false) :
    (stage.write l dir).prelaunch = false := by
  cases stage with
  | dispatch | spawning | guarding => exact marker
  | running => rfl
  | _ => cases h

/-- While the broker is there, the proxy has not disposed. -/
theorem Verdict.active {proxy : ProxyStage} (h : Verdict s proxy) (hs : s.broker = some stage)
    (active : stage.isExited = false) (t : State) : Verdict t proxy := by
  have hnone : s.broker ≠ none := by
    rw [hs]
    exact Option.some_ne_none stage
  cases proxy with
  | connecting | waiting | connected => trivial
  | failed e =>
    rcases h with h | ⟨-, hgone⟩
    · exact .inl h
    · exact absurd (active.symm.trans (hgone stage hs)) Bool.false_ne_true
  | _ => exact absurd h hnone

/-- While the broker is there, its directory is. -/
theorem Inv.unremoved (hi : Inv s) (hs : s.broker = some stage) (active : stage.isExited = false) :
    s.removed = false := by
  by_contra h
  obtain ⟨-, hgone, -⟩ := hi.removed (Bool.of_not_eq_false h)
  exact Bool.false_ne_true (active.symm.trans (hgone stage hs))

/-- The broker goes on. -/
theorem Inv.proceed (hi : Inv s) (hb : l.outputLimit.isSome = true) (hs : s.broker = some stage)
    (active : stage.isExited = false) :
    Inv { s with
      dir := stage.write l s.dir
      broker := some (stage.next l)
      spawned := s.spawned || stage == .dispatch } where
  unkilled := hi.unkilled
  marked hspawned := by
    have hafter : stage.after = true := by
      rcases before_or_after active with hbefore | hafter
      · have hclean := hi.before stage hs hbefore
        rcases Bool.or_eq_true_iff.mp hspawned with h | h
        · exact absurd (hclean.symm.trans h) Bool.false_ne_true
        · rw [beq_iff_eq.mp h] at hbefore
          cases hbefore
      · exact hafter
    exact write_after hafter (hi.after stage hs hafter)
  before stage' hs' hbefore := by
    cases hs'
    have hbefore := before_of_next hbefore
    have hne : stage ≠ .dispatch := by
      rintro rfl
      cases hbefore
    rw [hi.before stage hs hbefore, beq_eq_false_iff_ne.mpr hne]
    rfl
  after stage' hs' hafter := by
    cases hs'
    rcases after_next hb hafter with rfl | hafter
    · rfl
    · exact write_after hafter (hi.after stage hs hafter)
  unborn h := nomatch h
  verdict := hi.verdict.active hs active _
  removed hremoved := absurd ((hi.unremoved hs active).symm.trans hremoved) Bool.false_ne_true

/-- The broker is gone. -/
theorem Inv.exit (hi : Inv s) (hs : s.broker = some stage) (active : stage.isExited = false)
    {dir : Dir} (marker : s.dir.prelaunch = false → dir.prelaunch = false) (status : String) :
    Inv { s with dir := dir, broker := some (.exited status) } where
  unkilled := hi.unkilled
  marked hspawned := marker (hi.marked hspawned)
  before _ hs' hbefore := by
    cases hs'
    cases hbefore
  after _ hs' hafter := by
    cases hs'
    cases hafter
  unborn h := nomatch h
  verdict := hi.verdict.active hs active _
  removed hremoved := absurd ((hi.unremoved hs active).symm.trans hremoved) Bool.false_ne_true

/-- A line of the log leaves the marker. -/
theorem append_prelaunch (d : Dir) (text : String) :
    (State.append d text).prelaunch = d.prelaunch := by
  unfold State.append
  split
  · rfl
  · rfl

/-- A step of the broker. -/
theorem inv_broker (hi : Inv s) (hb : l.outputLimit.isSome = true) (hs : s.broker = some stage)
    {act : BrokerAct} (h : brokerStep l s stage act = some t) : Inv t := by
  have active := brokerStep_active h
  cases act with
  | proceed =>
    rw [brokerStep, active] at h
    cases h
    exact hi.proceed hb hs active
  | fail error =>
    rw [brokerStep] at h
    split at h
    · cases h
      refine hi.exit hs active (fun marker => ?_) _
      split
      · rfl
      · rw [append_prelaunch]
        exact marker
    · cases h
  | crash status text =>
    rw [brokerStep, active] at h
    cases h
    exact hi.exit hs active (fun marker => (append_prelaunch _ _).trans marker) status
  | print text =>
    rw [brokerStep, active] at h
    cases h
    have hmarker := append_prelaunch s.dir text
    exact ⟨hi.unkilled, fun h => hmarker.trans (hi.marked h), hi.before,
      fun stage hs h => hmarker.trans (hi.after stage hs h), hi.unborn, hi.verdict.active hs active _,
      hi.removed⟩

/-! ## The proxy -/

/-- A broker that was never launched is gone. -/
theorem gone_of_none (h : s.broker = none) : Gone s := by
  intro stage hs
  cases h.symm.trans hs

/-- A proxy that has not failed has removed nothing. -/
theorem Inv.undisposed (hi : Inv s) {proxy : ProxyStage} (hs : s.proxy = proxy)
    (open_ : ∀ e, proxy ≠ .failed e) : s.removed = false := by
  by_contra h
  obtain ⟨-, -, e, he⟩ := hi.removed (Bool.of_not_eq_false h)
  exact open_ e (hs.symm.trans he)

/-- The proxy goes on, and writes to the directory only while there is no broker. -/
theorem Inv.advance (hi : Inv s) {dir : Dir} {proxy : ProxyStage}
    (untouched : dir = s.dir ∨ s.broker = none) (unremoved : s.removed = false)
    (verdict : Verdict s proxy) : Inv { s with dir := dir, proxy := proxy } where
  unkilled := hi.unkilled
  marked hspawned := by
    rcases untouched with rfl | hnone
    · exact hi.marked hspawned
    · exact absurd ((hi.unborn hnone).symm.trans hspawned) Bool.false_ne_true
  before := hi.before
  after stage hs hafter := by
    rcases untouched with rfl | hnone
    · exact hi.after stage hs hafter
    · cases hnone.symm.trans hs
  unborn := hi.unborn
  verdict := verdict
  removed h := absurd (unremoved.symm.trans h) Bool.false_ne_true

/-- The proxy disposes. -/
theorem Inv.dispose (hi : Inv s) (unspawned : s.spawned = false) (gone : Gone s)
    (e : ServerError) : Inv (s.remove.fail e) where
  unkilled := hi.unkilled
  marked _ := rfl
  before _ _ _ := unspawned
  after _ _ _ := rfl
  unborn := hi.unborn
  verdict := .inr ⟨unspawned, gone⟩
  removed _ := ⟨unspawned, gone, e, rfl⟩

/-- The broker is started. -/
theorem Inv.launch (hi : Inv s) (hnone : s.broker = none) (unremoved : s.removed = false) :
    Inv { s with proxy := .connecting, broker := some .checking } where
  unkilled := hi.unkilled
  marked hspawned := absurd ((hi.unborn hnone).symm.trans hspawned) Bool.false_ne_true
  before _ _ _ := hi.unborn hnone
  after _ hs hafter := by
    cases hs
    cases hafter
  unborn h := nomatch h
  verdict := trivial
  removed h := absurd (unremoved.symm.trans h) Bool.false_ne_true

/-- What a step of the proxy does. -/
inductive ProxyMoved (s : State) : State → Prop
  | advanced {dir : Dir} {proxy : ProxyStage} (untouched : dir = s.dir ∨ s.broker = none)
      (unremoved : s.removed = false) (verdict : Verdict s proxy) :
      ProxyMoved s { s with dir := dir, proxy := proxy }
  | launched (unborn : s.broker = none) (unremoved : s.removed = false) :
      ProxyMoved s { s with proxy := .connecting, broker := some .checking }
  | disposed (unspawned : s.spawned = false) (gone : Gone s) (e : ServerError) :
      ProxyMoved s (s.remove.fail e)

/-- An error before there is a broker. -/
theorem Inv.unstarted (hi : Inv s) (hnone : s.broker = none) (unremoved : s.removed = false)
    (e : ServerError) : ProxyMoved s (s.fail e) :=
  .advanced (.inl rfl) unremoved (.inr ⟨hi.unborn hnone, gone_of_none hnone⟩)

/-- **The proxy disposes only of what was never dispatched**: before there is a broker, or when it
has found the broker gone and the marker there. -/
theorem proxyStep_moved (hi : Inv s) (hb : l.outputLimit.isSome = true) {act : ProxyAct}
    (h : proxyStep l s act = some t) : ProxyMoved s t := by
  obtain ⟨hgroup, -⟩ := l.bounded hb
  have hverdict := hi.verdict
  -- before its broker, the proxy's own steps and errors
  have early : ∀ {proxy}, s.proxy = proxy → (∀ e, proxy ≠ .failed e) → Verdict s proxy ∧
      s.removed = false := fun hs open_ => ⟨hs ▸ hverdict, hi.undisposed hs open_⟩
  -- and until it has spawned its broker, an error changes nothing else
  have fails : ∀ {proxy error}, s.proxy = proxy → (∀ e, proxy ≠ .failed e) →
      (Verdict s proxy → s.broker = none) → some (s.fail error) = some t → ProxyMoved s t :=
    fun hs open_ hnone h => by
      obtain ⟨hproxy, hopen⟩ := early hs open_
      cases h
      exact hi.unstarted (hnone hproxy) hopen _
  unfold proxyStep at h
  split at h
  · rename_i hs
    cases h
    obtain ⟨hnone, hopen⟩ := early hs nofun
    exact .advanced (.inl rfl) hopen hnone
  · rename_i hs
    rw [hgroup, if_pos rfl] at h
    exact fails hs nofun id h
  · rename_i hs
    obtain ⟨hnone, hopen⟩ := early hs nofun
    split at h
    · exact fails hs nofun id h
    · cases h
      exact .advanced (.inr hnone) hopen hnone
  · rename_i hs
    cases h
    obtain ⟨hnone, hopen⟩ := early hs nofun
    exact .advanced (.inl rfl) hopen hnone
  · rename_i hs
    cases h
    obtain ⟨hnone, hopen⟩ := early hs nofun
    rw [hb, if_pos rfl]
    exact .advanced (.inr hnone) hopen hnone
  · rename_i hs
    cases h
    obtain ⟨hnone, hopen⟩ := early hs nofun
    exact .advanced (.inr hnone) hopen hnone
  · rename_i hs
    exact fails hs nofun id h
  · rename_i hs
    exact fails hs nofun id h
  · rename_i hs
    exact fails hs nofun id h
  · rename_i hs
    exact fails hs nofun id h
  · rename_i hs
    cases h
    obtain ⟨hnone, hopen⟩ := early hs nofun
    exact .advanced (.inl rfl) hopen hnone
  · rename_i hs
    exact fails hs nofun id h
  · rename_i hs
    cases h
    obtain ⟨hnone, hopen⟩ := early hs nofun
    exact .launched hnone hopen
  · rename_i hs
    cases h
    obtain ⟨hnone, hopen⟩ := early hs nofun
    exact .disposed (hi.unborn hnone) (gone_of_none hnone) _
  -- the loop
  · rename_i hs
    obtain ⟨-, hopen⟩ := early hs nofun
    split at h
    · cases h
      exact .advanced (.inl rfl) hopen trivial
    · cases h
  · rename_i hs
    cases h
    obtain ⟨-, hopen⟩ := early hs nofun
    exact .advanced (.inl rfl) hopen trivial
  · rename_i hs
    rw [hgroup, if_pos rfl] at h
    cases h
    obtain ⟨-, hopen⟩ := early hs nofun
    exact .advanced (.inl rfl) hopen (.inl mayHaveStarted_readinessUnknown)
  · rename_i hs
    obtain ⟨-, hopen⟩ := early hs nofun
    split at h
    · cases h
    · cases h
      exact .advanced (.inl rfl) hopen trivial
  · rename_i error hs
    cases h
    obtain ⟨-, hopen⟩ := early hs nofun
    rw [hgroup, if_pos rfl]
    exact .advanced (.inl rfl) hopen (.inl (mayHaveStarted_waitFailed error))
  · rename_i marked hs
    obtain ⟨-, hopen⟩ := early hs nofun
    split at h
    · rename_i status hbroker
      rw [hb] at h
      cases marked with
      | false =>
        cases h
        exact .advanced (.inl rfl) hopen (.inl (mayHaveStarted_exited status))
      | true =>
        -- the marker is there, so nothing was spawned
        cases hmarker : s.dir.prelaunch with
        | false =>
          rw [hmarker] at h
          cases h
        | true =>
          rw [hmarker] at h
          cases h
          refine .disposed ?_ ?_ _
          · by_contra hspawned
            have hclean := hi.marked (Bool.of_not_eq_false hspawned)
            exact Bool.false_ne_true (hclean.symm.trans hmarker)
          · intro stage hs
            cases hbroker.symm.trans hs
            rfl
    · cases h
  · cases h

/-- The proxy's moves keep the invariant. -/
theorem ProxyMoved.inv (h : ProxyMoved s t) (hi : Inv s) : Inv t := by
  cases h with
  | advanced untouched unremoved verdict => exact hi.advance untouched unremoved verdict
  | launched unborn unremoved => exact hi.launch unborn unremoved
  | disposed unspawned gone e => exact hi.dispose unspawned gone e

/-- Once the command may be there, the directory is the broker's. -/
theorem ProxyMoved.dir (h : ProxyMoved s t) (hi : Inv s) (spawned : s.spawned = true) :
    t.dir = s.dir := by
  have born : s.broker ≠ none := fun hnone =>
    Bool.false_ne_true ((hi.unborn hnone).symm.trans spawned)
  cases h with
  | advanced untouched => exact untouched.resolve_right born
  | launched unborn => exact absurd unborn born
  | disposed unspawned => exact absurd (unspawned.symm.trans spawned) Bool.false_ne_true

/-- The step lemma. -/
theorem inv_step (hb : l.outputLimit.isSome = true) (hi : Inv s) {act : Act}
    (h : step l s act = some t) : Inv t := by
  cases act with
  | proxy act => exact (proxyStep_moved hi hb h).inv hi
  | broker act =>
    obtain ⟨stage, hs, h⟩ := Option.bind_eq_some_iff.mp h
    exact inv_broker hi hb hs h

/-- A creation starts with neither broker nor verdict. -/
theorem inv_initial (dir : Dir) : Inv { dir := dir } where
  unkilled := rfl
  marked h := nomatch h
  before _ hs := nomatch hs
  after _ hs := nomatch hs
  unborn _ := rfl
  verdict := rfl
  removed h := nomatch h

/-- The invariant holds in every reachable state of a bounded creation. -/
theorem inv_reachable (hb : l.outputLimit.isSome = true) (hr : (machine l).Reachable s) : Inv s := by
  refine Machine.Reach.invariant (P := Inv) ?_ (fun _ _ _ _ hi _ hs => inv_step hb hi hs) hr
  rintro s ⟨dir, rfl⟩
  exact inv_initial dir

/-- With a verdict and no broker, nothing moves any more. -/
theorem run_over {e : ServerError} (failed : s.proxy = .failed e) (gone : Gone s) {as : List Act}
    (hr : (machine l).run s as = some t) : t = s := by
  cases as with
  | nil => exact (Option.some.inj hr).symm
  | cons act as =>
    rw [Machine.run_cons] at hr
    obtain ⟨m, hm, -⟩ := Option.bind_eq_some_iff.mp hr
    cases act with
    | proxy act =>
      have hm : proxyStep l s act = some m := hm
      unfold proxyStep at hm
      rw [failed] at hm
      cases hm
    | broker act =>
      obtain ⟨stage, hs, hm⟩ := Option.bind_eq_some_iff.mp hm
      exact absurd ((brokerStep_active hm).symm.trans (gone stage hs)) Bool.false_ne_true

/-- **Startup disposal of a session with finite output.** Whatever fails, crashes or is killed, and
in any interleaving, the proxy never kills the broker. If the command may have been spawned, the
proxy has not deleted the directory and changes nothing in it, and the error that it reports says
that the workload may have started. And once it has deleted the directory, or reported any other
error, the command was not spawned and never is. -/
theorem startup_disposal (l : Launch) (hb : l.outputLimit.isSome = true) {s : State}
    (hr : (machine l).Reachable s) :
    s.killed = false ∧
    (s.spawned = true → s.removed = false ∧ (∀ e, s.proxy = .failed e → MayHaveStarted e) ∧
      ∀ act t, step l s (.proxy act) = some t → t.dir = s.dir) ∧
    ∀ as t, (s.removed = true ∨ ∃ e, s.proxy = .failed e ∧ ¬MayHaveStarted e) →
      (machine l).run s as = some t → t.spawned = false := by
  have hi := inv_reachable hb hr
  refine ⟨hi.unkilled, fun hspawned => ⟨?_, fun e he => ?_, fun act t hs => ?_⟩, ?_⟩
  · by_contra h
    obtain ⟨hclean, -⟩ := hi.removed (Bool.of_not_eq_false h)
    exact Bool.false_ne_true (hclean.symm.trans hspawned)
  · have hverdict := hi.verdict
    rw [he] at hverdict
    rcases hverdict with h | ⟨hclean, -⟩
    · exact h
    · exact absurd (hclean.symm.trans hspawned) Bool.false_ne_true
  · exact (proxyStep_moved hi hb hs).dir hi hspawned
  · intro as t hdisposed hrun
    have hover : s.spawned = false ∧ Gone s ∧ ∃ e, s.proxy = .failed e := by
      rcases hdisposed with hremoved | ⟨e, he, hplain⟩
      · exact hi.removed hremoved
      · have hverdict := hi.verdict
        rw [he] at hverdict
        obtain ⟨hclean, hgone⟩ := hverdict.resolve_left hplain
        exact ⟨hclean, hgone, e, he⟩
    obtain ⟨hclean, hgone, e, he⟩ := hover
    rw [run_over he hgone hrun]
    exact hclean

/-- The broker is killed between its fork and its guard: the directory stays. -/
theorem startup_disposal_killed : ∃ (l : Launch) (s : State), (machine l).Reachable s ∧
    s.spawned = true ∧ s.broker = some (.exited "signal: 9 (SIGKILL)") ∧ s.dir.present = true ∧
      s.proxy = .failed (.exitedAfterDispatch "signal: 9 (SIGKILL)") ∧ s.removed = false ∧
      s.killed = false := by
  let l : Launch :=
    { id := "a", command := "true", socket := "broker.sock", groupPidfd := true, nobuffer := false
      outputLimit := some 0, bounded := fun _ => ⟨rfl, rfl⟩ }
  let status := "signal: 9 (SIGKILL)"
  let labels : List Act := List.replicate 7 (.proxy .proceed) ++ [.proxy (.refused false)] ++
    List.replicate 13 (.broker .proceed) ++ [.proxy .alive, .broker (.crash status ""),
    .proxy (.refused false), .proxy (.gone false)]
  have start : (machine l).Reachable {} := .init ⟨{}, rfl⟩
  have hrun : (machine l).run {} labels = some
      { dir := { present := true }, proxy := .failed (.exitedAfterDispatch status)
        broker := some (.exited status), spawned := true } := by
    decide +kernel
  have reached := Machine.Reachable.run start labels hrun
  obtain ⟨hkilled, hspawned, -⟩ := startup_disposal l rfl reached
  exact ⟨l, _, reached, rfl, rfl, rfl, rfl, (hspawned rfl).1, hkilled⟩

end Pipekeep.Startup
