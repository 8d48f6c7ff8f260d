import Pipekeep.OpeningLine
import Pipekeep.Startup
import Pipekeep.Laws.ServerError

/-!
# Which opening lines a client can read

A line comes back from `read_line` exactly if it is within the reader's bound, and then what follows
its newline is left (`readLine_line`). Of a creation, every line is within it but those that embed a
long text of the system or of the broker's log. A creation that cannot name its directory, or whose
broker has been connected to and does not answer, has no line at all (`surfaces_iff`). The client
takes all of these for a lost connection, and tries again.
-/

namespace Pipekeep

open Json

variable {line text rest : List UInt8}

/-! ## Lines -/

/-- The reader takes the line behind what it has, as far as the bound allows. -/
theorem readLineFrom_line (hline : line.length ≤ maxJsonLine) (plain : newline ∉ text) :
    readLineFrom line (text ++ newline :: rest) =
      if line.length + text.length ≤ maxJsonLine then .ok (some (line ++ text, rest))
      else .error "opening JSON message is too large" := by
  induction text generalizing line with
  | nil =>
    rw [List.nil_append, readLineFrom, if_pos rfl, List.length_nil, Nat.add_zero, if_pos hline,
      List.append_nil]
  | cons byte text ih =>
    have hbyte : byte ≠ newline := fun heq => plain (heq ▸ List.mem_cons_self)
    have htext : newline ∉ text := fun hmem => plain (List.mem_cons_of_mem byte hmem)
    have hgrown : (line ++ [byte]).length = line.length + 1 := by
      rw [List.length_append, List.length_singleton]
    rw [List.cons_append, readLineFrom, if_neg hbyte, List.length_cons]
    by_cases hroom : line.length + 1 ≤ maxJsonLine
    · rw [if_neg (by omega), ih (by omega) htext, hgrown, List.append_assoc, List.singleton_append,
        Nat.add_assoc, Nat.add_comm 1]
    · rw [if_pos (by omega), if_neg (by omega)]

/-- A line is read back exactly if it is within the bound. -/
theorem readLine_line (plain : newline ∉ text) (rest : List UInt8) :
    readLine (text ++ newline :: rest) =
      if text.length ≤ maxJsonLine then .ok (some (text, rest))
      else .error "opening JSON message is too large" := by
  have h : readLineFrom [] (text ++ newline :: rest) = _ :=
    readLineFrom_line (Nat.zero_le _) plain
  rwa [List.length_nil, Nat.zero_add, List.nil_append] at h

/-! ## What a text takes in a line -/

/-- The bytes of a text in a JSON string. -/
def width (s : String) : Nat := (escaped (utf8 s)).length

/-- Two texts take the room of both. -/
theorem width_append (a b : String) : width (a ++ b) = width a + width b := by
  rw [width, utf8, String.toList_append, List.flatMap_append, escaped_append, List.length_append]
  rfl

/-- An escape makes six bytes of one, at most. -/
theorem width_le (s : String) : width s ≤ 6 * (utf8 s).length := length_escaped_le _

/-- A character takes one to four bytes. -/
theorem length_utf8EncodeChar (c : Char) :
    1 ≤ (String.utf8EncodeChar c).length ∧ (String.utf8EncodeChar c).length ≤ 4 := by
  fun_cases String.utf8EncodeChar <;> exact ⟨Nat.succ_pos _, Nat.le_of_ble_eq_true rfl⟩

/-- A text has at least as many bytes as characters. -/
theorem le_length_utf8 (cs : List Char) :
    cs.length ≤ (cs.flatMap String.utf8EncodeChar).length := by
  induction cs with
  | nil => exact Nat.le_refl 0
  | cons c cs ih =>
    have := (length_utf8EncodeChar c).1
    rw [List.flatMap_cons, List.length_append, List.length_cons]
    omega

/-- A text takes at least its characters. -/
theorem le_width (s : String) : s.toList.length ≤ width s :=
  (le_length_utf8 _).trans (le_length_escaped _)

/-- The bytes of a text are its UTF-8 bytes. -/
theorem length_utf8 (s : String) : (utf8 s).length = s.utf8ByteSize := by
  rw [← String.size_toByteArray, ← String.utf8Encode_toList]
  exact (List.size_toByteArray ..).symm

/-! ## Quoted names -/

/-- A character of the `Debug` format takes ten bytes at most. -/
theorem length_utf8_escapeDebug (printable : Char → Bool) (c : Char) :
    ((escapeDebug printable c).flatMap String.utf8EncodeChar).length ≤ 10 := by
  have single := (length_utf8EncodeChar c).2
  unfold escapeDebug
  split
  next hspecial =>
    rcases hspecial with rfl | rfl
    · decide
    · decide
  split
  · decide
  split
  · decide
  split
  · decide
  split
  · decide
  split
  · rw [List.flatMap_cons, List.flatMap_nil, List.append_nil]
    omega
  next =>
    have hascii : ∀ d < 16, (String.utf8EncodeChar (Nat.digitChar d)).length ≤ 1 := by decide
    have hdigits : ((hexDigits c).flatMap String.utf8EncodeChar).length ≤ 6 := by
      have hcount : (hexDigits c).length ≤ 6 := (List.dropWhile_suffix _).length_le
      have hbytes : ((hexDigits c).flatMap String.utf8EncodeChar).length ≤
          1 * (hexDigits c).length := by
        refine length_flatMap_le fun d hd => ?_
        obtain ⟨i, -, rfl⟩ := List.mem_map.mp ((List.dropWhile_suffix _).subset hd)
        exact hascii _ (Nat.mod_lt _ (by decide))
      omega
    have hopen : (['\\', 'u', '\x7b'].flatMap String.utf8EncodeChar).length = 3 := by decide
    have hclose : (['\x7d'].flatMap String.utf8EncodeChar).length = 1 := by decide
    rw [List.flatMap_append, List.flatMap_append, List.length_append, List.length_append, hopen,
      hclose]
    omega

/-- A session's name is within the bound of a line, however it is escaped. -/
theorem width_debugStr_le {printable : Char → Bool} {id : String} (h : id.utf8ByteSize ≤ 1024) :
    width (debugStr printable id) ≤ 61460 := by
  have hcount : id.toList.length ≤ 1024 := by
    have := le_length_utf8 id.toList
    have := length_utf8 id
    unfold utf8 at this
    omega
  have hname : ((id.toList.flatMap (escapeDebug printable)).flatMap
      String.utf8EncodeChar).length ≤ 10 * id.toList.length := by
    rw [List.flatMap_assoc]
    exact length_flatMap_le fun c _ => length_utf8_escapeDebug printable c
  have hquote : (['"'].flatMap String.utf8EncodeChar).length = 1 := by decide
  have hutf8 : (utf8 (debugStr printable id)).length ≤ 10 * id.toList.length + 2 := by
    rw [utf8, debugStr, String.toList_ofList, List.flatMap_append, List.flatMap_append,
      List.length_append, List.length_append, hquote]
    omega
  have := width_le (debugStr printable id)
  omega

/-! ## Starts -/

namespace Startup

open OpeningLine (Starting)

variable {l : Launch} {s t : State}

/-- The broker leaves the proxy's stage alone. -/
theorem brokerStep_proxy {stage : BrokerStage} {act : BrokerAct}
    (h : brokerStep l s stage act = some t) : t.proxy = s.proxy := by
  unfold brokerStep at h
  split at h
  · split at h
    · cases h
    · cases h
      rfl
  · split at h
    · cases h
      rfl
    · cases h
  · split at h
    · cases h
    · cases h
      rfl
  · split at h
    · cases h
    · cases h
      rfl

/-- The proxy reports the log, or the error that it has. -/
theorem dispose_starting {id : String} {otherwise e : ServerError} (h : Starting id otherwise)
    (he : (s.dispose otherwise).proxy = .failed e) : Starting id e := by
  have he : ProxyStage.failed (if (trim s.dir.log).isEmpty then otherwise else
      .brokerFailed s.dir.log) = .failed e := he
  split at he
  · cases he
    exact h
  · cases he
    exact trivial

/-- The errors of `start_broker` are its own. -/
theorem proxyStep_starting {act : ProxyAct} (h : proxyStep l s act = some t) {e : ServerError}
    (he : t.proxy = .failed e) : Starting l.id e := by
  have fails : ∀ {u : State} {error}, some (u.fail error) = some t → Starting l.id error →
      Starting l.id e := fun h hown => by
    cases h
    cases he
    exact hown
  have moves : ∀ {u : State} {proxy}, some u = some t → u.proxy = proxy →
      (∀ e, proxy ≠ .failed e) → Starting l.id e := fun h hu hopen => by
    cases h
    exact absurd (hu.symm.trans he) (hopen e)
  have disposes : ∀ {u : State} {otherwise}, some (u.dispose otherwise) = some t →
      Starting l.id otherwise → Starting l.id e := fun h hown => by
    cases h
    exact dispose_starting hown he
  unfold proxyStep at h
  split at h
  · exact moves h rfl nofun
  · split at h
    · exact fails h trivial
    · cases h
  · split at h
    · exact fails h rfl
    · exact moves h rfl nofun
  · exact moves h rfl nofun
  · refine moves h rfl ?_
    split <;> exact nofun
  · exact moves h rfl nofun
  · exact fails h trivial
  · exact fails h trivial
  · exact fails h trivial
  · exact fails h trivial
  · exact moves h rfl nofun
  · exact fails h trivial
  · exact moves h rfl nofun
  · exact fails h trivial
  · split at h
    · exact moves h rfl nofun
    · cases h
  · exact moves h rfl nofun
  · split at h
    · exact fails h trivial
    · exact disposes h trivial
  · split at h
    · cases h
    · exact moves h rfl nofun
  · refine fails h ?_
    split <;> exact trivial
  · split at h
    · split at h
      · exact fails h trivial
      · split at h
        · cases h
        · exact disposes h trivial
    · cases h
  · cases h

/-- Every failed start has an error of `start_broker`. -/
theorem starting_reachable (hr : (machine l).Reachable s) :
    ∀ e, s.proxy = .failed e → Starting l.id e := by
  refine Machine.Reach.invariant (P := fun s => ∀ e, s.proxy = .failed e → Starting l.id e)
    ?_ ?_ hr
  · rintro s ⟨dir, rfl⟩ e he
    cases he
  · intro s act t _ ih _ hs e he
    cases act with
    | proxy act => exact proxyStep_starting hs he
    | broker act =>
      obtain ⟨stage, -, hs⟩ := Option.bind_eq_some_iff.mp hs
      exact ih e ((brokerStep_proxy hs).symm.trans he)

/-- A broker that crashes at once has its log reported, whatever it has printed. -/
theorem crash_reported (l : Launch) (ordinary : l.outputLimit = none) (status : String)
    {text : String} (h : (trim text).isEmpty = false) :
    ∃ s, (machine l).Reachable s ∧ s.proxy = .failed (.brokerFailed text) := by
  have start : (machine l).Reachable {} := .init ⟨{}, rfl⟩
  have hspawned : (machine l).run {} (List.replicate 6 (.proxy .proceed)) = some
      { dir := { present := true }, proxy := .connecting, broker := some .checking } := by
    simp [machine, Machine.run, step, proxyStep, ordinary]
  have spawned := Machine.Reachable.run start _ hspawned
  have crashed := Machine.Reach.step (a := .broker (.crash status text)) spawned trivial rfl
  have waiting := Machine.Reach.step (a := .proxy (.refused false)) crashed trivial rfl
  have hgone : (machine l).step
      { dir := { present := true, log := "" ++ text }, proxy := .waiting
        broker := some (.exited status) } (.proxy (.gone true)) = some
      (({ dir := { present := true, log := "" ++ text }, proxy := .waiting
          broker := some (.exited status) } : State).dispose (.exitedDuringStartup status)) := by
    simp [machine, step, proxyStep, ordinary]
  refine ⟨_, .step waiting trivial hgone, ?_⟩
  simp [State.dispose, State.fail, h]

/-- The broker listens before it starts the command. So a command that cannot be started, and other
failures from there on, find the proxy connected, and the broker goes without an answer. -/
theorem connected_unanswered (l : Launch) (ordinary : l.outputLimit = none)
    (unguarded : l.groupPidfd = false) (error : String) :
    ∃ s, (machine l).Reachable s ∧ s.proxy = .connected ∧
      s.broker = some (.exited "exit status: 1") ∧ s.spawned = false ∧ s.dir.present = false := by
  have start : (machine l).Reachable {} := .init ⟨{}, rfl⟩
  let acts : List Act := List.replicate 6 (.proxy .proceed) ++
    List.replicate 5 (.broker .proceed) ++ [.proxy .proceed] ++
    List.replicate 2 (.broker .proceed) ++ [.broker (.fail error)]
  have hrun : (machine l).run {} acts = some
      { proxy := .connected, broker := some (.exited "exit status: 1") } := by
    simp [acts, machine, Machine.run, step, proxyStep, brokerStep, BrokerStage.next,
      BrokerStage.write, BrokerStage.isExited, BrokerStage.listening, BrokerStage.fallible,
      BrokerStage.guarded, ordinary, unguarded]
  exact ⟨_, Machine.Reachable.run start acts hrun, rfl, rfl, rfl, rfl⟩

end Startup

namespace OpeningLine

open Cli (Server)
open Requests (ServerHello)

variable {printable : Char → Bool} {S : LineSerde}

/-! ## The errors of a creation -/

/-- The text of the system or of the log in an error of `start_broker`, between what stands before
it and behind it. -/
def parts : ServerError → Option (String × String × String)
  | .unsupported error => some ("group pidfd unsupported; workload not started: ", error, "")
  | .system error => some ("", error, "")
  | .waitFailed error =>
    some ("session broker wait failed after dispatch: ", error, "; session retained; " ++
      "workload may have started; query the same session, do not retry creation")
  | .exitedAfterDispatch status =>
    some ("session broker exited after dispatch (", status, "); workload may have started; " ++
      "session retained; do not retry creation")
  | .exitedDuringStartup status => some ("session broker exited during startup (", status, ")")
  | .brokerFailed log => some ("session broker failed: ", trim log, "")
  | _ => none

/-- The text that an error embeds has room in a line. -/
def Brief (e : ServerError) : Prop :=
  ∀ front embedded back, parts e = some (front, embedded, back) →
    width front + width embedded + width back + 12 ≤ maxJsonLine

/-- An error's text has its embedded text between two texts of the source. -/
theorem text_parts {e : ServerError} {front embedded back : String}
    (h : parts e = some (front, embedded, back)) :
    e.text printable = front ++ embedded ++ back := by
  cases e with
  | system error =>
    simp only [parts, Option.some.injEq, Prod.mk.injEq] at h
    obtain ⟨rfl, rfl, rfl⟩ := h
    rw [String.empty_append, String.append_empty]
    rfl
  | unsupported error | brokerFailed error =>
    simp only [parts, Option.some.injEq, Prod.mk.injEq] at h
    obtain ⟨rfl, rfl, rfl⟩ := h
    rw [String.append_empty]
    rfl
  | waitFailed error | exitedAfterDispatch error =>
    simp only [parts, Option.some.injEq, Prod.mk.injEq] at h
    obtain ⟨rfl, rfl, rfl⟩ := h
    rw [← String.append_assoc]
    rfl
  | exitedDuringStartup status =>
    simp only [parts, Option.some.injEq, Prod.mk.injEq] at h
    obtain ⟨rfl, rfl, rfl⟩ := h
    rfl
  | _ => cases h

/-- An error line takes twelve bytes beside its text. -/
theorem length_errorLine (S : LineSerde) (text : String) :
    (S.lineToVec (.error text)).length = width text + 12 := by
  have hfront : "\x7b\"error\":".toList.length = 9 := by decide
  have hback : "\x7d".toList.length = 1 := by decide
  rw [LineSerde.lineToVec, List.length_append, List.length_append, length_toVec, length_toVec,
    length_quoted, hfront, hback, width]
  omega

/-- An error line has no newline. -/
theorem errorLine_plain (S : LineSerde) (text : String) :
    newline ∉ S.lineToVec (.error text) := by
  have hfront : newline ∉ toVec "\x7b\"error\":".toList := by decide
  have hback : newline ∉ toVec "\x7d".toList := by decide
  intro hmem
  rcases List.mem_append.mp hmem with hmem | hmem
  · rcases List.mem_append.mp hmem with hmem | hmem
    · exact hfront hmem
    · exact newline_not_mem_quoted _ hmem
  · exact hback hmem

/-- The texts of the source that embed nothing are short. -/
theorem fixed_size : ∀ e ∈ ServerError.fixedErrors,
    e.embedded = none ∧ (e.text fun _ => false).utf8ByteSize ≤ 200 := by
  decide +kernel

/-- A text of the source fits. -/
theorem short_fits {text : String} (h : text.utf8ByteSize ≤ 200) :
    width text + 12 ≤ maxJsonLine := by
  have hwidth := width_le text
  rw [length_utf8] at hwidth
  unfold maxJsonLine
  omega

/-- An error that embeds nothing fits. -/
theorem fixed_fits {e : ServerError} (h : e ∈ ServerError.fixedErrors) :
    width (e.text printable) + 12 ≤ maxJsonLine := by
  obtain ⟨hnone, hsize⟩ := fixed_size e h
  rw [ServerError.text_unnamed hnone]
  exact short_fits hsize

/-- A name that exists already fits. -/
theorem alreadyExists_fits {id : String} (h : id.utf8ByteSize ≤ 1024) :
    width ((ServerError.alreadyExists id).text printable) + 12 ≤ maxJsonLine := by
  have hname : width (debugStr printable id) ≤ 61460 := width_debugStr_le h
  have hfront : width "session " = 8 := by decide +kernel
  have hback : width " already exists" = 15 := by decide +kernel
  have htext : (ServerError.alreadyExists id).text printable =
      "session " ++ debugStr printable id ++ " already exists" := rfl
  rw [htext, width_append, width_append, hfront, hback]
  unfold maxJsonLine
  omega

/-- **A failed start fits its line exactly if its embedded text does.** -/
theorem start_fits {id : String} {e : ServerError} (hid : id.utf8ByteSize ≤ 1024)
    (starting : Starting id e) : width (e.text printable) + 12 ≤ maxJsonLine ↔ Brief e := by
  cases hparts : parts e with
  | some p =>
    obtain ⟨front, embedded, back⟩ := p
    rw [text_parts hparts, width_append, width_append]
    refine ⟨fun h _ _ _ heq => ?_, fun h => h _ _ _ hparts⟩
    cases hparts.symm.trans heq
    exact h
  | none =>
    have brief : Brief e := fun _ _ _ heq => nomatch hparts.symm.trans heq
    refine ⟨fun _ => brief, fun _ => ?_⟩
    cases e with
    | alreadyExists name =>
      obtain rfl : name = id := starting
      exact alreadyExists_fits hid
    | noExecutable | readinessUnknown | notReady => exact fixed_fits (by decide)
    | unsupported | system | waitFailed | exitedAfterDispatch | exitedDuringStartup
    | brokerFailed => cases hparts
    | _ => exact starting.elim

/-- A log has room for 65501 bytes, as escaped. -/
theorem brief_brokerFailed {log : String} :
    Brief (.brokerFailed log) ↔ width (trim log) ≤ 65501 := by
  have hfront : width "session broker failed: " = 23 := by decide +kernel
  have hback : width "" = 0 := by decide
  constructor
  · intro h
    have := h _ _ _ rfl
    unfold maxJsonLine at this
    omega
  · intro h _ _ _ heq
    cases heq
    unfold maxJsonLine
    omega

/-- The options are refused with texts of the source. -/
theorem check_fixed {server : Server} {hello : ClientHello} {e : ServerError}
    (h : check server hello = .error e) : e ∈ ServerError.fixedErrors := by
  unfold check at h
  simp only at h
  split at h
  · cases h
    decide
  split at h
  · cases h
    decide
  split at h
  · cases h
    decide
  split at h
  · cases h
    decide
  split at h
  · split at h
    · cases h
      decide
    · split at h
      · cases h
        decide
      · cases h
  · split at h
    · cases h
      decide
    split at h
    · cases h
      decide
    · cases h

/-! ## Reading what was written -/

/-- What serde promises of a value: its text has no newline, and reads back. -/
structure LineSerde.Carries (S : LineSerde) (value : Line) : Prop where
  plain : newline ∉ S.lineToVec value
  reads : S.fromSlice (S.lineToVec value) = .ok value

/-- The client's reader accepts the line and gets its value; the raw streams are left. -/
def Readable (S : LineSerde) (value : Line) (text : List UInt8) : Prop :=
  (∀ raw, readLine ((Opened.line value text).sent raw) = .ok (some (text, raw))) ∧
    S.fromSlice text = .ok value

/-- A line is readable exactly if it is within the bound. -/
theorem readable_iff {value : Line} {text : List UInt8} (plain : newline ∉ text)
    (reads : S.fromSlice text = .ok value) :
    Readable S value text ↔ text.length ≤ maxJsonLine := by
  constructor
  · rintro ⟨hline, -⟩
    by_contra hlong
    have h := hline []
    rw [Opened.sent, readLine_line plain, if_neg hlong] at h
    cases h
  · intro hroom
    refine ⟨fun raw => ?_, reads⟩
    rw [Opened.sent, readLine_line plain, if_pos hroom]

/-- The text of a line that is an error. -/
def Line.failure : Line → Option String
  | .error text | .unverified text _ => some text
  | .hello _ => none

/-- An error that can be read is a server error for the client. -/
theorem Readable.attempt {value : Line} {text : List UInt8} {error : String}
    (h : Readable S value text) (failure : value.failure = some error) (raw : List UInt8) :
    attempt S ((Opened.line value text).sent raw) = .serverError error := by
  rw [OpeningLine.attempt, h.1 raw]
  simp only [h.2]
  cases value with
  | error text | unverified text _ =>
    cases failure
    rfl
  | hello _ => cases failure

/-- The broker answers, within the bound of a line, and with a header, if with one, that the proxy
takes. -/
def Answered (S : LineSerde) (server : Server) (host : Host server.id) (hello : ClientHello) :
    Prop :=
  ∃ answer, host.answer (request server hello) = some answer ∧
    (S.lineToVec answer).length ≤ maxJsonLine ∧
    ∀ header, answer = .hello header → checkHeader server header = .ok ()

/-- The proxy has a line exactly for such an answer. -/
theorem proxyAttachment_isOk {server : Server} {host : Host server.id} {hello : ClientHello}
    (answers : ∀ value, host.answer (request server hello) = some value → S.Carries value) :
    (∃ value text, proxyAttachment S server host hello = .ok (value, text)) ↔
      Answered S server host hello := by
  unfold proxyAttachment Answered
  cases hanswer : host.answer (request server hello) with
  | none => simp [bind, Except.bind]
  | some answer =>
    have carries := answers answer hanswer
    simp only [bind, Except.bind, Option.elim_some, LineSerde.writeJsonLine,
      readLine_line carries.plain, Option.some.injEq, exists_eq_left']
    by_cases hroom : (S.lineToVec answer).length ≤ maxJsonLine
    · simp only [hroom, if_true, Option.elim_some, carries.reads, true_and]
      cases answer with
      | hello header =>
        cases hcheck : checkHeader server header with
        | error e => simp [hcheck]
        | ok _ => simp [hcheck, pure, Except.pure]
      | error | unverified => simp [pure, Except.pure]
    · simp [hroom]

/-- What the proxy hands on was within the bound on its way from the broker. -/
theorem proxyAttachment_readable {server : Server} {host : Host server.id} {hello : ClientHello}
    (answers : ∀ value, host.answer (request server hello) = some value → S.Carries value)
    {value : Line} {text : List UInt8}
    (h : proxyAttachment S server host hello = .ok (value, text)) : Readable S value text := by
  obtain ⟨answer, hanswer, h⟩ := bind_eq_ok.mp h
  obtain ⟨line, hline, h⟩ := bind_eq_ok.mp h
  obtain ⟨⟨response, rest⟩, hresponse, h⟩ := bind_eq_ok.mp h
  have hcarries : S.Carries answer := by
    refine answers answer ?_
    cases hnone : host.answer (request server hello) with
    | none =>
      rw [hnone] at hanswer
      cases hanswer
    | some value =>
      rw [hnone] at hanswer
      cases hanswer
      rfl
  rw [LineSerde.writeJsonLine, readLine_line hcarries.plain] at hline
  split at hline
  next hroom =>
    cases hline
    cases hresponse
    have readable := (readable_iff hcarries.plain hcarries.reads).mpr hroom
    simp only [hcarries.reads] at h
    cases answer with
    | hello header =>
      obtain ⟨_, -, h⟩ := bind_eq_ok.mp h
      cases h
      exact readable
    | error | unverified =>
      cases h
      exact readable
  · cases hline

/-! ## Creations -/

section

variable (printable S) (server : Server) (host : Host server.id) (hello : ClientHello)

/-- How a creation fails, with the text of its error: before it has a broker, or when the broker
goes, cannot be understood, or refuses the attachment. -/
inductive Fails : String → Prop
  | refused {e : ServerError} : check server hello = .error e → Fails (e.text printable)
  | directory {error : String} : check server hello = .ok none → sessionDir host = .error error →
      Fails error
  | broker {id : String} {e : ServerError} : check server hello = .ok none →
      sessionDir host = .ok id → host.startBroker = .error e → Fails (e.text printable)
  | unanswered {id error : String} : check server hello = .ok none → sessionDir host = .ok id →
      host.startBroker = .ok () → proxyAttachment S server host hello = .error error → Fails error
  | answered {id error : String} {value : Line} {text : List UInt8} :
      check server hello = .ok none → sessionDir host = .ok id → host.startBroker = .ok () →
      proxyAttachment S server host hello = .ok (value, text) → value.failure = some error →
      Fails error

/-- Every line is readable, and a failure is a server error for the client. -/
structure Surfaces : Prop where
  readable : ∀ value text,
    run printable S server host (.ok hello) = .line value text → Readable S value text
  reported : ∀ error raw, Fails printable S server host hello error →
    attempt S ((run printable S server host (.ok hello)).sent raw) = .serverError error

/-- The name can be a directory's, there is a place for it, the error of a start is brief, and a
broker that has started answers. -/
structure Fits : Prop where
  named : 0 < server.id.utf8ByteSize ∧ server.id.utf8ByteSize ≤ 1024
  rooted : host.rootDir = .ok ()
  brief : ∀ e, host.startBroker = .error e → Brief e
  answered : host.startBroker = .ok () → Answered S server host hello

end

/-- A directory can be named exactly for an id of 1 to 1024 bytes, where there is a root. -/
theorem sessionDir_isOk {id : String} {host : Host id} : (∃ name, sessionDir host = .ok name) ↔
    (0 < id.utf8ByteSize ∧ id.utf8ByteSize ≤ 1024) ∧ host.rootDir = .ok () := by
  have hempty : id.isEmpty = true ↔ id.utf8ByteSize = 0 := by
    rw [String.isEmpty_iff, String.utf8ByteSize_eq_zero_iff]
  unfold sessionDir sessionId
  by_cases hsize : id.utf8ByteSize = 0
  · rw [if_pos (hempty.mpr hsize)]
    simp [bind, Except.bind, hsize]
  rw [if_neg fun h => hsize (hempty.mp h)]
  by_cases hlong : id.utf8ByteSize > 1024
  · rw [if_pos hlong]
    have hover : ¬id.utf8ByteSize ≤ 1024 := Nat.not_le.mpr hlong
    simp [bind, Except.bind, hover]
  rw [if_neg hlong]
  have hnamed : 0 < id.utf8ByteSize ∧ id.utf8ByteSize ≤ 1024 := by omega
  cases host.rootDir with
  | error e => simp [bind, Except.bind]
  | ok _ => simp [bind, Except.bind, pure, Except.pure, hnamed]

/-! ## Which creations surface -/

section

variable {server : Server} {host : Host server.id} {hello : ClientHello}

/-- Options that are refused are answered with an error line. -/
theorem run_refused {e : ServerError} (h : check server hello = .error e) :
    run printable S server host (.ok hello) = refuse printable S e := by
  simp only [run, h]

/-- A directory that cannot be named ends the server without a line. -/
theorem run_directory {error : String} (passed : check server hello = .ok none)
    (h : sessionDir host = .error error) :
    run printable S server host (.ok hello) = .failed error := by
  simp only [run, passed, h]

/-- A broker that cannot be started is answered with an error line. -/
theorem run_broker {id : String} {e : ServerError} (creation : hello.offsets = none)
    (passed : check server hello = .ok none) (dir : sessionDir host = .ok id)
    (h : host.startBroker = .error e) :
    run printable S server host (.ok hello) = refuse printable S e := by
  simp only [run, passed, dir, creation, Option.isNone_none, if_true, h]

/-- A broker that does not answer ends the server without a line. -/
theorem run_unproxied {id error : String} (creation : hello.offsets = none)
    (passed : check server hello = .ok none) (dir : sessionDir host = .ok id)
    (started : host.startBroker = .ok ())
    (h : proxyAttachment S server host hello = .error error) :
    run printable S server host (.ok hello) = .failed error := by
  simp only [run, passed, dir, creation, Option.isNone_none, if_true, started, h]

/-- A broker's answer is passed on. -/
theorem run_proxied {id : String} {value : Line} {text : List UInt8}
    (creation : hello.offsets = none) (passed : check server hello = .ok none)
    (dir : sessionDir host = .ok id) (started : host.startBroker = .ok ())
    (h : proxyAttachment S server host hello = .ok (value, text)) :
    run printable S server host (.ok hello) = .line value text := by
  simp only [run, passed, dir, creation, Option.isNone_none, if_true, started, h]

/-- Without an answer the proxy has no line. -/
theorem proxyAttachment_unanswered (gone : host.answer (request server hello) = none) :
    proxyAttachment S server host hello = .error "broker closed before the opening response" := by
  simp [proxyAttachment, gone, bind, Except.bind]

/-- A broker that goes without an answer leaves the client with the end of its transport. -/
theorem unanswered_lost {id : String} (creation : hello.offsets = none)
    (passed : check server hello = .ok none) (dir : sessionDir host = .ok id)
    (started : host.startBroker = .ok ()) (gone : host.answer (request server hello) = none)
    (raw : List UInt8) :
    attempt S ((run printable S server host (.ok hello)).sent raw) = .disconnected := by
  rw [run_unproxied creation passed dir started (proxyAttachment_unanswered gone)]
  rfl

/-- A line of `write_error_line` is readable exactly if its text has room. -/
theorem refuse_readable {e : ServerError}
    (reads : S.fromSlice (S.lineToVec (.error (e.text printable))) =
      .ok (.error (e.text printable))) :
    Readable S (.error (e.text printable)) (S.lineToVec (.error (e.text printable))) ↔
      width (e.text printable) + 12 ≤ maxJsonLine := by
  rw [readable_iff (errorLine_plain S _) reads, length_errorLine]

/-- Whatever a server writes to a client that resumes is readable. -/
theorem resumption_readable {offsets : PerStream Nat} (resumption : hello.offsets = some offsets)
    (errors : ∀ e : ServerError, S.fromSlice (S.lineToVec (.error (e.text printable))) =
      .ok (.error (e.text printable)))
    (answers : ∀ value, host.answer (request server hello) = some value → S.Carries value)
    {value : Line} {text : List UInt8}
    (line : run printable S server host (.ok hello) = .line value text) :
    Readable S value text := by
  have refused : ∀ {e : ServerError}, width (e.text printable) + 12 ≤ maxJsonLine →
      refuse printable S e = .line value text → Readable S value text := fun hroom h => by
    cases h
    exact (refuse_readable (errors _)).mpr hroom
  simp only [run, resumption, Option.isNone_some, Bool.false_eq_true, if_false] at line
  split at line
  next hcheck => exact refused (fixed_fits (check_fixed hcheck)) line
  next => cases line
  next =>
    split at line
    next => cases line
    next =>
      split at line
      next e hconnect =>
        refine refused ?_ line
        unfold connectExisting at hconnect
        split at hconnect
        · cases hconnect
          exact short_fits (show "session does not exist".utf8ByteSize ≤ 200 by decide +kernel)
        split at hconnect
        · cases hconnect
        · cases hconnect
          exact fixed_fits (by decide)
      next =>
        split at line
        next => cases line
        next hproxied =>
          cases line
          exact proxyAttachment_readable answers hproxied

/-- A failure of a creation that fits is a readable line. -/
theorem failed_readable (creation : hello.offsets = none)
    (fits : check server hello = .ok none → Fits S server host hello)
    (errors : ∀ error, Fails printable S server host hello error →
      S.fromSlice (S.lineToVec (.error error)) = .ok (.error error))
    (answers : ∀ value, host.answer (request server hello) = some value → S.Carries value)
    {error : String} (failed : Fails printable S server host hello error) :
    ∃ value text, value.failure = some error ∧
      run printable S server host (.ok hello) = .line value text ∧ Readable S value text := by
  have reads := errors error failed
  cases failed with
  | refused he =>
    exact ⟨_, _, rfl, run_refused he, (refuse_readable reads).mpr (fixed_fits (check_fixed he))⟩
  | directory passed dir =>
    have hfits := fits passed
    obtain ⟨id, hdir⟩ := sessionDir_isOk.mpr ⟨hfits.named, hfits.rooted⟩
    cases hdir.symm.trans dir
  | broker passed dir he =>
    have hfits := fits passed
    refine ⟨_, _, rfl, run_broker creation passed dir he, (refuse_readable reads).mpr ?_⟩
    exact (start_fits hfits.named.2 (host.starting _ he)).mpr (hfits.brief _ he)
  | unanswered passed dir started hproxy =>
    obtain ⟨value, text, hok⟩ := (proxyAttachment_isOk answers).mpr ((fits passed).answered started)
    cases hok.symm.trans hproxy
  | answered passed dir started hproxy failure =>
    exact ⟨_, _, failure, run_proxied creation passed dir started hproxy,
      proxyAttachment_readable answers hproxy⟩

/-- A creation that fits surfaces. -/
theorem surfaces_of_fits (creation : hello.offsets = none)
    (errors : ∀ error, Fails printable S server host hello error →
      S.fromSlice (S.lineToVec (.error error)) = .ok (.error error))
    (answers : ∀ value, host.answer (request server hello) = some value → S.Carries value)
    (fits : check server hello = .ok none → Fits S server host hello) :
    Surfaces printable S server host hello := by
  have failed : ∀ {error value text}, Fails printable S server host hello error →
      run printable S server host (.ok hello) = .line value text → Readable S value text :=
    fun hfails line => by
      obtain ⟨_, _, -, hrun, readable⟩ := failed_readable creation fits errors answers hfails
      cases hrun.symm.trans line
      exact readable
  constructor
  · intro value text line
    cases hcheck : check server hello with
    | error e => exact failed (.refused hcheck) line
    | ok control =>
      cases control with
      | some offset =>
        rw [run, hcheck] at line
        cases line
      | none =>
        have hfits := fits hcheck
        obtain ⟨id, dir⟩ := sessionDir_isOk.mpr ⟨hfits.named, hfits.rooted⟩
        cases hstart : host.startBroker with
        | error e => exact failed (.broker hcheck dir hstart) line
        | ok _ =>
          obtain ⟨value', text', hproxy⟩ :=
            (proxyAttachment_isOk answers).mpr (hfits.answered hstart)
          cases (run_proxied creation hcheck dir hstart hproxy).symm.trans line
          exact proxyAttachment_readable answers hproxy
  · intro error raw hfails
    obtain ⟨value, text, failure, hrun, readable⟩ :=
      failed_readable creation fits errors answers hfails
    rw [hrun]
    exact readable.attempt failure raw

/-- A creation that surfaces fits. -/
theorem fits_of_surfaces (creation : hello.offsets = none)
    (errors : ∀ error, Fails printable S server host hello error →
      S.fromSlice (S.lineToVec (.error error)) = .ok (.error error))
    (answers : ∀ value, host.answer (request server hello) = some value → S.Carries value)
    (h : Surfaces printable S server host hello) (passed : check server hello = .ok none) :
    Fits S server host hello := by
  -- where nothing is written, the client finds the end of its transport
  have reaches : ∀ error, Fails printable S server host hello error →
      run printable S server host (.ok hello) ≠ .failed error := by
    intro error hfails hrun
    have hlost := h.reported error [] hfails
    rw [hrun] at hlost
    cases hlost
  obtain ⟨id, dir⟩ : ∃ name, sessionDir host = .ok name := by
    cases dir : sessionDir host with
    | ok id => exact ⟨id, rfl⟩
    | error error => exact absurd (run_directory passed dir) (reaches error (.directory passed dir))
  obtain ⟨named, rooted⟩ := sessionDir_isOk.mp ⟨id, dir⟩
  refine ⟨named, rooted, fun e he => ?_, fun started => (proxyAttachment_isOk answers).mp ?_⟩
  · have readable := h.readable _ _ (run_broker creation passed dir he)
    have hroom := (refuse_readable (errors _ (.broker passed dir he))).mp readable
    exact (start_fits named.2 (host.starting e he)).mp hroom
  · cases hproxy : proxyAttachment S server host hello with
    | ok p => exact ⟨p.1, p.2, rfl⟩
    | error error =>
      exact absurd (run_unproxied creation passed dir started hproxy)
        (reaches error (.unanswered passed dir started hproxy))

end

/-- **Which creations surface**: one that gets past the checks of its options needs a name and a
place for its directory, room in a line for what the system or the broker's log say of its start,
and, once the broker listens, an answer of it that the proxy can pass on. -/
theorem surfaces_iff (printable : Char → Bool) (S : LineSerde) (server : Server)
    (host : Host server.id) (hello : ClientHello) (creation : hello.offsets = none)
    (errors : ∀ error, Fails printable S server host hello error →
      S.fromSlice (S.lineToVec (.error error)) = .ok (.error error))
    (answers : ∀ value, host.answer (request server hello) = some value → S.Carries value) :
    Surfaces printable S server host hello ↔
      (check server hello = .ok none → Fits S server host hello) :=
  ⟨fits_of_surfaces creation errors answers, surfaces_of_fits creation errors answers⟩

/-- A start that fails, and says why in its log. -/
theorem surfaces_iff_failed : ∃ (S : LineSerde) (host : Host "a"),
    host.startBroker = .error (.brokerFailed "pipekeep: no memory\n") ∧
      Surfaces (fun _ => true) S { id := "a", command := ["true"] } host {} := by
  let server : Server := { id := "a", command := ["true"] }
  let e : ServerError := .brokerFailed "pipekeep: no memory\n"
  let text := e.text fun _ => true
  let line : List UInt8 := toVec "\x7b\"error\":".toList ++ quoted (utf8 text) ++ toVec "\x7d".toList
  let S : LineSerde :=
    { helloToVec := fun _ => []
      fromSlice := fun received =>
        if received = line then .ok (.error text) else .error "expected value" }
  let host : Host server.id :=
    { startBroker := .error e
      starting := fun _ h => by cases h; exact trivial
      isDir := false
      connects := false
      answer := fun _ => none }
  refine ⟨S, host, rfl, ?_⟩
  refine (surfaces_iff (fun _ => true) S server host {} rfl ?_ ?_).mpr ?_
  · intro error failed
    obtain rfl : error = text := by
      cases failed with
      | refused h => cases h
      | directory _ h => cases h
      | broker _ _ h =>
        cases h
        rfl
      | unanswered _ _ h => cases h
      | answered _ _ h => cases h
    exact if_pos rfl
  · intro value h
    cases h
  · intro _
    refine ⟨by decide +kernel, rfl, fun e he => ?_, nofun⟩
    cases he
    exact brief_brokerFailed.mpr (by decide +kernel)

/-- The text of a log with so many letters. -/
theorem trim_replicate (n : Nat) :
    trim (String.ofList (List.replicate n 'a')) = String.ofList (List.replicate n 'a') := by
  have hletter : isWhitespace 'a' = false := by decide
  have hkept : (List.replicate n 'a').dropWhile isWhitespace = List.replicate n 'a' := by
    cases n with
    | zero => rfl
    | succ n => rw [List.replicate_succ, List.dropWhile_cons_of_neg (by simp [hletter])]
  rw [trim, String.toList_ofList, hkept, List.reverse_replicate, hkept, List.reverse_replicate]

/-- A broker that prints 64 KiB and is killed, a session without a name, and a broker that is
connected to and goes before it answers. -/
theorem surfaces_iff_lost : ∃ (l : Startup.Launch) (s t : Startup.State) (e : ServerError)
    (host : Host l.id), (Startup.machine l).Reachable s ∧ s.proxy = .failed e ∧
      host.rootDir = .ok () ∧ host.startBroker = .error e ∧ (∀ request, host.answer request = none) ∧
      (Startup.machine l).Reachable t ∧ t.proxy = .connected ∧
      t.broker = some (.exited "exit status: 1") ∧
      ∀ (printable : Char → Bool) (S : LineSerde),
        (∀ raw, attempt S ((run printable S { id := l.id, command := ["true"] } host
          (.ok {})).sent raw) = .disconnected) ∧
        ¬Surfaces printable S { id := l.id, command := ["true"] } host {} ∧
        (∀ host : Host "",
          (∀ raw, attempt S ((run printable S { id := "", command := ["true"] } host
            (.ok {})).sent raw) = .disconnected) ∧
          ¬Surfaces printable S { id := "", command := ["true"] } host {}) ∧
        ∀ host : Host l.id, host.rootDir = .ok () → host.startBroker = .ok () →
          (∀ request, host.answer request = none) →
          (∀ raw, attempt S ((run printable S { id := l.id, command := ["true"] } host
            (.ok {})).sent raw) = .disconnected) ∧
          ¬Surfaces printable S { id := l.id, command := ["true"] } host {} := by
  let l : Startup.Launch :=
    { id := "a", command := "true", socket := "broker.sock", groupPidfd := false, nobuffer := false
      outputLimit := none, bounded := nofun }
  let log := String.ofList (List.replicate 65536 'a')
  have htrim : trim log = log := trim_replicate 65536
  have hcount : log.toList.length = 65536 := by rw [String.toList_ofList, List.length_replicate]
  have hlog : (trim log).isEmpty = false := by
    rw [htrim, Bool.eq_false_iff, ne_eq, String.isEmpty_iff]
    intro hempty
    rw [hempty] at hcount
    cases hcount
  obtain ⟨s, reached, failed⟩ := Startup.crash_reported l rfl "signal: 6 (SIGABRT)" hlog
  let host : Host l.id :=
    { startBroker := .error (.brokerFailed log)
      starting := fun _ h => by cases h; exact trivial
      isDir := false
      connects := false
      answer := fun _ => none }
  obtain ⟨t, ended, connected, gone, -, -⟩ := Startup.connected_unanswered l rfl rfl
    "No such file or directory (os error 2)"
  refine ⟨l, s, t, .brokerFailed log, host, reached, failed, rfl, rfl, fun _ => rfl, ended,
    connected, gone, ?_⟩
  intro printable S
  have named : ∀ host : Host l.id, host.rootDir = .ok () → sessionDir host = .ok "a" :=
    fun host hroot => by
      show (do host.rootDir; return "a" : Except String String) = _
      rw [hroot]
      rfl
  have unnamed : ∀ host : Host "", sessionDir host = .error "session ID may not be empty" :=
    fun _ => rfl
  have unread : ∀ raw, attempt S ((run printable S { id := l.id, command := ["true"] } host
      (.ok {})).sent raw) = .disconnected := by
    intro raw
    have hlong : ¬width ((ServerError.brokerFailed log).text printable) + 12 ≤ maxJsonLine := by
      rw [text_parts rfl, width_append, width_append, htrim]
      have := le_width log
      unfold maxJsonLine
      omega
    rw [run_broker rfl rfl (named host rfl) rfl, refuse, Opened.sent, attempt,
      readLine_line (errorLine_plain S _), length_errorLine, if_neg hlong]
  have nameless : ∀ (host : Host "") raw, attempt S ((run printable S
      { id := "", command := ["true"] } host (.ok {})).sent raw) = .disconnected := by
    intro host raw
    rw [run_directory rfl (unnamed host)]
    rfl
  refine ⟨unread, fun h => ?_, fun host => ⟨nameless host, fun h => ?_⟩,
    fun host rooted started silent => ?_⟩
  · have := h.reported _ [] (.broker rfl (named host rfl) rfl)
    cases (unread []).symm.trans this
  · have := h.reported _ [] (.directory rfl (unnamed host))
    cases (nameless host []).symm.trans this
  · have lost : ∀ raw, attempt S ((run printable S { id := l.id, command := ["true"] } host
        (.ok {})).sent raw) = .disconnected :=
      unanswered_lost rfl rfl (named host rooted) started (silent _)
    refine ⟨lost, fun h => ?_⟩
    have := h.reported _ [] (.unanswered rfl (named host rooted) started
      (proxyAttachment_unanswered (silent _)))
    cases (lost []).symm.trans this

/-! ## What follows a lost creation -/

section

open Attempts (outerStep)

variable {s : Attempts.State}

/-- The run loop takes a lost connection as the attempt reports it. -/
theorem outerStep_lost (opening : s.stage = .opening) :
    outerStep s .lost = some (Response.disconnected.settle s) := by
  simp only [outerStep, opening]
  rfl

/-- The run loop takes a server error as the attempt reports it. -/
theorem outerStep_error {r : Attempts.Remote} {error : String} (opening : s.stage = .opening)
    (remote : s.remotes s.attempt = some r) (reply : r.reply = some (.error error)) :
    outerStep s .line = some ((Response.serverError error).settle s) := by
  simp only [outerStep, opening, remote, Option.bind_some, reply, Option.map_some]
  rfl

/-- An attempt that resumes what was never opened, and finds no session, has the next one create. -/
theorem settle_missing (resumes : s.create = false) (unopened : s.established = false) :
    (Response.serverError "session does not exist").settle s =
      { s with create := true, stage := .idle } := by
  have hbusy : Attempts.State.contains "session does not exist"
      "session already has an attached client" = false := by decide +kernel
  have hmissing : Attempts.State.contains "session does not exist" "session does not exist" =
      true := by decide +kernel
  rw [Response.settle, Attempts.State.serverError, hbusy, if_neg Bool.false_ne_true,
    if_pos ⟨resumes, unopened, hmissing⟩]

/-- **A lost creation comes again, without an end**: the attempt after it resumes, is told that
there is no session, and the one after that creates. -/
theorem lost_forever (n : Nat) : ∃ t, Attempts.Retries.machine.Reachable t ∧
    t.attempt = 2 * n ∧ t.stage = .idle ∧ t.create = true ∧ t.established = false := by
  induction n with
  | zero => exact ⟨{ broker := { session := {} } }, .init ⟨_, rfl⟩, rfl, rfl, rfl, rfl⟩
  | succ n ih =>
    obtain ⟨t, hr, hattempt, hidle, hcreate, hunopened⟩ := ih
    have starts : ∀ u : Attempts.State, u.stage = .idle →
        Attempts.Retries.machine.step u (.outer .start) = some u.start := fun u hu => by
      show outerStep u .start = _
      simp only [outerStep, hu]
    have created := Machine.Reach.step hr trivial (starts t hidle)
    have hlost : Attempts.Retries.machine.step t.start (.outer .lost) =
        some (Response.disconnected.settle t.start) := by
      show outerStep t.start .lost = _
      exact outerStep_lost rfl
    have lost := Machine.Reach.step created trivial hlost
    have resumed := Machine.Reach.step lost trivial (starts _ rfl)
    let u := (Response.disconnected.settle t.start).start
    let reply : Attempts.Remote :=
      { offsets := some t.delivered, reply := some (.error "session does not exist") }
    let v := { u with remotes := Function.update u.remotes u.attempt (some reply) }
    have replied := Machine.Reach.step resumed (t := v) (a := .world _ _ _) trivial rfl
    have hline : Attempts.Retries.machine.step v (.outer .line) =
        some ((Response.serverError "session does not exist").settle v) := by
      show outerStep v .line = _
      exact outerStep_error rfl (Function.update_self ..) rfl
    have hestablished : (t.established || false) = false := by
      rw [hunopened]
      rfl
    rw [settle_missing rfl hestablished] at hline
    refine ⟨_, .step replied trivial hline, ?_, rfl, rfl, hestablished⟩
    show t.attempt + 1 + 1 = _
    omega

end

end OpeningLine

end Pipekeep
