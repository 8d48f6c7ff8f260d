import Pipekeep.ServerError
import Pipekeep.Retries
import Pipekeep.Lib.Infix
import Pipekeep.Laws.Stdin

/-!
# The outer wrapper reads causes off texts

`run` looks for two phrases in an error line. Neither occurs in what the source writes of any other
error, and none of these texts can complete one with what it embeds: so a line holds a phrase only
if the embedded text does (`text_embeds`). The name's quotes and escapes, and the trimmed ends of a
log, hide none and make none.
-/

namespace Pipekeep

open Infix

namespace ServerError

variable {printable : Char → Bool} {part : List Char}

/-- The two phrases. -/
def phrases : List (List Char) :=
  ["session already has an attached client".toList, "session does not exist".toList]

/-- `contains` looks for an infix of characters. -/
theorem contains_iff {text part : String} :
    Attempts.State.contains text part = true ↔ part.toList <:+: text.toList := by
  unfold Attempts.State.contains
  rw [List.any_eq_true, List.infix_iff_prefix_suffix]
  constructor
  · rintro ⟨i, -, hprefix⟩
    exact ⟨_, List.isPrefixOf_iff_prefix.mp hprefix, List.drop_suffix i _⟩
  · rintro ⟨rest, hprefix, hsuffix⟩
    refine ⟨text.toList.length - rest.length, ?_, ?_⟩
    · rw [List.mem_range, ← String.length_toList]
      omega
    · rw [← List.suffix_iff_eq_drop.mp hsuffix]
      exact List.isPrefixOf_iff_prefix.mpr hprefix

/-! ## Escaped names -/

/-- A letter that the quoted form leaves alone, and that begins and ends no escape. -/
def Plain (c : Char) : Prop :=
  0x20 ≤ c.toNat ∧ c.toNat < 0x7f ∧ c ≠ '"' ∧ c ≠ '\\'

instance (c : Char) : Decidable (Plain c) := inferInstanceAs (Decidable (_ ∧ _))

/-- A plain letter is its own quoted form. -/
theorem escapeDebug_plain {c : Char} (h : Plain c) : escapeDebug printable c = [c] := by
  obtain ⟨hlow, hhigh, hquote, hslash⟩ := h
  have other : ∀ d : Char, d.toNat < 0x20 → c ≠ d := fun d hd heq =>
    absurd hlow (by rw [heq]; exact Nat.not_le.mpr hd)
  rw [escapeDebug, if_neg (by rintro (h | h); exacts [hquote h, hslash h]),
    if_neg (other _ (by decide)), if_neg (other _ (by decide)), if_neg (other _ (by decide)),
    if_neg (other _ (by decide)), if_pos (.inl ⟨hlow, hhigh⟩)]

/-- No hex digit is an `s`. -/
theorem hexDigits_not_mem (c : Char) : 's' ∉ hexDigits c := by
  intro hmem
  have hmem := (List.dropWhile_suffix _).subset hmem
  obtain ⟨i, -, hi⟩ := List.mem_map.mp hmem
  have hdigit : ∀ d < 16, Nat.digitChar d ≠ 's' := by decide
  exact hdigit _ (Nat.mod_lt _ (by decide)) hi

/-- An escape starts with a backslash and has no letter that a phrase begins with. -/
theorem escapeDebug_cases (printable : Char → Bool) (c : Char) :
    escapeDebug printable c = [c] ∨
      ¬Plain c ∧ (∃ rest, escapeDebug printable c = '\\' :: rest) ∧
        's' ∉ escapeDebug printable c := by
  by_cases hplain : Plain c
  · exact .inl (escapeDebug_plain hplain)
  have escape : ∀ d : Char, d ≠ 's' → (∃ rest, ['\\', d] = '\\' :: rest) ∧ 's' ∉ ['\\', d] :=
    fun d hd => ⟨⟨[d], rfl⟩, by simp [hd.symm]⟩
  unfold escapeDebug
  split
  · rename_i hspecial
    refine .inr ⟨hplain, escape c ?_⟩
    rintro rfl
    revert hspecial
    decide
  split
  · exact .inr ⟨hplain, escape '0' (by decide)⟩
  split
  · exact .inr ⟨hplain, escape 't' (by decide)⟩
  split
  · exact .inr ⟨hplain, escape 'n' (by decide)⟩
  split
  · exact .inr ⟨hplain, escape 'r' (by decide)⟩
  split
  · exact .inl rfl
  · refine .inr ⟨hplain, ⟨_, rfl⟩, fun hmem => ?_⟩
    rcases List.mem_append.mp hmem with hmem | hmem
    · rcases List.mem_append.mp hmem with hmem | hmem
      · revert hmem
        decide
      · exact hexDigits_not_mem c hmem
    · revert hmem
      decide

/-- A plain text begins an escaped name exactly if it begins the name. -/
theorem prefix_escaped (hpart : ∀ c ∈ part, Plain c) (id : List Char) :
    part <+: id.flatMap (escapeDebug printable) ↔ part <+: id := by
  induction part generalizing id with
  | nil => exact ⟨fun _ => List.nil_prefix, fun _ => List.nil_prefix⟩
  | cons x part ih =>
    have hx := hpart x List.mem_cons_self
    have hpart := fun c hc => hpart c (List.mem_cons_of_mem x hc)
    cases id with
    | nil => rfl
    | cons c id =>
      rw [List.flatMap_cons]
      rcases escapeDebug_cases printable c with hsame | ⟨hplain, ⟨rest, hescape⟩, -⟩
      · rw [hsame, List.singleton_append, List.cons_prefix_cons, List.cons_prefix_cons,
          ih hpart]
      · rw [hescape, List.cons_append, List.cons_prefix_cons, List.cons_prefix_cons]
        refine ⟨fun h => absurd h.1 ?_, fun h => absurd (h.1 ▸ hx) hplain⟩
        rintro rfl
        exact hx.2.2.2 rfl

/-- A phrase occurs in an escaped name exactly if it occurs in the name. -/
theorem infix_escaped (hpart : ∀ c ∈ 's' :: part, Plain c) (id : List Char) :
    's' :: part <:+: id.flatMap (escapeDebug printable) ↔ 's' :: part <:+: id := by
  induction id with
  | nil => rfl
  | cons c id ih =>
    have hprefix : 's' :: part <+: (c :: id).flatMap (escapeDebug printable) ↔ _ :=
      prefix_escaped hpart (c :: id)
    have hname : 's' :: part <:+: c :: id ↔ _ := List.infix_cons_iff
    rw [List.flatMap_cons] at hprefix ⊢
    rw [hname]
    rcases escapeDebug_cases printable c with hsame | ⟨hplain, -, hhead⟩
    · rw [hsame, List.singleton_append] at hprefix ⊢
      rw [List.infix_cons_iff, hprefix, ih]
    · rw [append_of_head_not_mem hhead, ih]
      refine ⟨.inr, fun h => h.resolve_left fun hpre => hplain ?_⟩
      exact (List.cons_prefix_cons.mp hpre).1 ▸ hpart 's' List.mem_cons_self

/-! ## The texts -/

/-- Both phrases begin with an `s` and end with a `t`, so that neither touches white space. -/
theorem phrase_ends : ∀ p ∈ phrases, p.head? = some 's' ∧ p.reverse.head? = some 't' := by
  decide +kernel

/-- The phrases are of plain letters and hold no digit. -/
theorem phrase_letters (hp : part ∈ phrases) : ∀ c ∈ part, Plain c ∧ c.isDigit = false := by
  -- as a test of letters: the instance of a bounded quantifier counts all characters
  have hall : ∀ p ∈ phrases, p.all (fun c => decide (Plain c) && !c.isDigit) = true := by
    decide +kernel
  intro c hc
  have hletter := List.all_eq_true.mp (hall part hp) c hc
  simpa using hletter

/-- Trimming a text cuts no phrase. -/
theorem infix_trim (hp : part ∈ phrases) (s : String) :
    part <:+: (trim s).toList ↔ part <:+: s.toList := by
  obtain ⟨hfirst, hlast⟩ := phrase_ends part hp
  obtain ⟨front, hfront⟩ := List.head?_eq_some_iff.mp hfirst
  obtain ⟨back, hback⟩ := List.head?_eq_some_iff.mp hlast
  rw [trim, String.toList_ofList, ← List.reverse_infix, List.reverse_reverse, hback,
    dropWhile_iff (by decide), ← hback, List.reverse_infix, hfront, dropWhile_iff (by decide)]

/-- What stands before an embedded text. -/
def heads : List String :=
  ["invalid opening JSON message: ", "group pidfd unsupported; workload not started: ", "session \"",
    "session broker wait failed after dispatch: ", "session broker exited after dispatch (",
    "session broker exited during startup (", "session broker failed: ",
    "buffered stdin contains a gap at byte ", "stdin EOF was already declared at byte ",
    "stdin EOF at byte ", " is behind accepted byte "]

/-- What stands behind one. -/
def tails : List String :=
  ["\" already exists", "; session retained; ", "); workload may have started; ", ")",
    "workload may have started; query the same session, do not retry creation",
    "session retained; do not retry creation"]

/-- No phrase begins inside a text that stands before an embedded one. -/
theorem heads_close : ∀ p ∈ phrases, ∀ a ∈ heads, Closes p a.toList := by
  decide +kernel

/-- No phrase ends inside a text that stands behind an embedded one. -/
theorem tails_open : ∀ p ∈ phrases, ∀ b ∈ tails, Opens p b.toList := by
  decide +kernel

/-- A phrase in a text with a fixed head is in the rest. -/
theorem closes_head (hp : part ∈ phrases) (a : String) (ha : a ∈ heads) (xs : String) :
    part <:+: (a ++ xs).toList ↔ part <:+: xs.toList := by
  rw [String.toList_append]
  exact (heads_close part hp a ha).append _

/-- A phrase in a text with a fixed tail is in the text before it. -/
theorem opens_tail (hp : part ∈ phrases) (b : String) (hb : b ∈ tails) (xs : String) :
    part <:+: (xs ++ b).toList ↔ part <:+: xs.toList := by
  rw [String.toList_append]
  exact (tails_open part hp b hb).append _

/-- The quotes are apart from every phrase, and the escapes are. -/
theorem quoted_embeds (hp : part ∈ phrases) (id : String) :
    part <:+: ("session " ++ debugStr printable id ++ " already exists").toList ↔
      part <:+: id.toList := by
  have hletters := phrase_letters hp
  obtain ⟨front, rfl⟩ := List.head?_eq_some_iff.mp (phrase_ends part hp).1
  have hsplit : "session " ++ debugStr printable id ++ " already exists" =
      "session \"" ++ (String.ofList (id.toList.flatMap (escapeDebug printable)) ++
        "\" already exists") := by
    have hquote : String.ofList ['"'] = "\"" := rfl
    have hhead : "session " ++ "\"" = "session \"" := rfl
    have htail : "\"" ++ " already exists" = "\" already exists" := rfl
    rw [debugStr, String.ofList_append, String.ofList_append, hquote, ← hhead, ← htail]
    simp only [String.append_assoc]
  rw [hsplit, closes_head hp _ (by simp [heads]), opens_tail hp _ (by simp [tails]),
    String.toList_ofList, infix_escaped fun c hc => (hletters c hc).1]

/-- **An error line holds a phrase only if the text that it embeds does.** -/
theorem text_embeds (hp : part ∈ phrases) {e : ServerError} {x : String}
    (h : e.embedded = some x) : part <:+: (e.text printable).toList ↔ part <:+: x.toList := by
  cases e with
  | invalidOpening error =>
    cases h
    exact closes_head hp "invalid opening JSON message: " (by simp [heads]) x
  | unsupported error =>
    cases h
    exact closes_head hp "group pidfd unsupported; workload not started: " (by simp [heads]) x
  | alreadyExists id =>
    cases h
    exact quoted_embeds hp x
  | system error =>
    cases h
    rfl
  | waitFailed error =>
    cases h
    have last := opens_tail hp
      "workload may have started; query the same session, do not retry creation" (by simp [tails])
      ("session broker wait failed after dispatch: " ++ x ++ "; session retained; ")
    have middle := opens_tail hp "; session retained; " (by simp [tails])
      ("session broker wait failed after dispatch: " ++ x)
    have first := closes_head hp "session broker wait failed after dispatch: " (by simp [heads]) x
    exact last.trans (middle.trans first)
  | exitedAfterDispatch status =>
    cases h
    have last := opens_tail hp "session retained; do not retry creation" (by simp [tails])
      ("session broker exited after dispatch (" ++ x ++ "); workload may have started; ")
    have middle := opens_tail hp "); workload may have started; " (by simp [tails])
      ("session broker exited after dispatch (" ++ x)
    have first := closes_head hp "session broker exited after dispatch (" (by simp [heads]) x
    exact last.trans (middle.trans first)
  | exitedDuringStartup status =>
    cases h
    have last := opens_tail hp ")" (by simp [tails]) ("session broker exited during startup (" ++ x)
    have first := closes_head hp "session broker exited during startup (" (by simp [heads]) x
    exact last.trans first
  | brokerFailed log =>
    cases h
    have first := closes_head hp "session broker failed: " (by simp [heads]) (trim x)
    exact first.trans (infix_trim hp x)
  | _ => cases h

/-- The errors that embed nothing, but for the two that the phrases are of, and those that embed
positions. -/
def fixedErrors : List ServerError :=
  [boundedCreation, outputLimitRetrofit, groupPidfdRetrofit, framedAction, forcedEof,
    eofWithoutOffset, forcedCreation, eofBeforeStart, noExecutable, readinessUnknown, notReady,
    cannotConnect, outputUnaware, notOptedIn, unverified, framedNobuffer, aheadOfStream, superseded,
    beyondRecordedEof, beyondDeclaredEof]

/-- No fixed text but the two causes' own holds a phrase. -/
theorem fixed_apart : ∀ e ∈ fixedErrors, ∀ p ∈ phrases,
    ¬p <:+: (e.text fun _ => false).toList := by
  decide +kernel

/-- A position has no letter of a phrase. -/
theorem number_apart (hp : part ∈ phrases) (n : Nat) : ∀ c ∈ (toString n).toList, c ∉ part := by
  intro c hc hmem
  have hdigit : c.isDigit = true := by
    rw [Nat.toString_eq_ofList_toDigits, String.toList_ofList] at hc
    exact Nat.isDigit_of_mem_toDigits (by decide) (by decide) hc
  exact Bool.false_ne_true ((phrase_letters hp c hmem).2.symm.trans hdigit)

/-- A text that ends in a position. -/
theorem position_apart (hp : part ∈ phrases) (a : String) (ha : a ∈ heads) (n : Nat) :
    ¬part <:+: (a ++ toString n).toList := by
  rw [closes_head hp a ha]
  intro hin
  have hfirst := (phrase_ends part hp).1
  have hs : 's' ∈ part := List.mem_of_mem_head? hfirst
  exact number_apart hp n 's' (hin.subset hs) hs

/-- A text with two. -/
theorem positions_apart (hp : part ∈ phrases) (a b : String) (ha : a ∈ heads) (hb : b ∈ heads)
    (n m : Nat) : ¬part <:+: (a ++ toString n ++ b ++ toString m).toList := by
  have hfirst := (phrase_ends part hp).1
  have hne : part ≠ [] := by
    rintro rfl
    cases hfirst
  have hdigits : (toString n).toList ≠ [] := by
    rw [Nat.toString_eq_ofList_toDigits, String.toList_ofList]
    exact Nat.toDigits_ne_nil
  have hclosed := closes_append (heads_close part hp a ha) hdigits (number_apart hp n) hne
  have hrest := position_apart hp b hb m
  rw [String.toList_append] at hrest
  rw [String.toList_append, String.toList_append, String.toList_append, List.append_assoc,
    hclosed.append]
  exact hrest

/-- A text without a name is the same for every table. -/
theorem text_unnamed {e : ServerError} (h : e.embedded = none) :
    e.text printable = e.text fun _ => false := by
  cases e with
  | alreadyExists id => cases h
  | _ => rfl

/-- **Every other error line holds no phrase.** -/
theorem text_apart (hp : part ∈ phrases) {e : ServerError} (h : e.embedded = none)
    (busy : e ≠ .busy) (missing : e ≠ .missing) : ¬part <:+: (e.text printable).toList := by
  by_cases hfixed : e ∈ fixedErrors
  · rw [text_unnamed h]
    exact fixed_apart e hfixed part hp
  cases e with
  | busy => exact absurd rfl busy
  | missing => exact absurd rfl missing
  | gap position =>
    exact position_apart hp "buffered stdin contains a gap at byte " (by simp [heads]) position
  | eofDeclared existing =>
    exact position_apart hp "stdin EOF was already declared at byte " (by simp [heads]) existing
  | eofBehind offset position =>
    exact positions_apart hp "stdin EOF at byte " " is behind accepted byte " (by simp [heads])
      (by simp [heads]) offset position
  | invalidOpening | unsupported | alreadyExists | system | waitFailed | exitedAfterDispatch
  | exitedDuringStartup | brokerFailed => cases h
  | _ => exact absurd (by decide) hfixed

end ServerError

/-! ## The run loop -/

namespace Attempts.State

open ServerError

variable {printable : Char → Bool} {s : State}

/-- A line with an embedded text holds a phrase exactly if that text does. -/
theorem contains_embedded {e : ServerError} {x phrase : String} (hp : phrase.toList ∈ phrases)
    (h : e.embedded = some x) : contains (e.text printable) phrase = contains x phrase := by
  rw [Bool.eq_iff_iff, contains_iff, contains_iff]
  exact text_embeds hp h

/-- A line with no embedded text holds no phrase, the two causes' own apart. -/
theorem contains_apart {e : ServerError} {phrase : String} (hp : phrase.toList ∈ phrases)
    (h : e.embedded = none) (busy : e ≠ .busy) (missing : e ≠ .missing) :
    contains (e.text printable) phrase = false := by
  rw [Bool.eq_false_iff, ne_eq, contains_iff]
  exact text_apart hp h busy missing

/-- An error that is neither cause's ends the run by its line. -/
theorem byCause_other {e : ServerError} (busy : e ≠ .busy) (missing : e ≠ .missing) :
    s.byCause printable e = s.fail (e.text printable) := by
  unfold byCause
  split
  · exact absurd rfl busy
  · exact absurd rfl missing
  · rfl

/-- What the run loop makes of a text that is no cause's own: it ends the run with it exactly if
neither phrase that it then looks for is in it. -/
theorem serverError_fails (s : State) (error : String) :
    s.serverError error = s.fail error ↔
      contains error "session already has an attached client" = false ∧
      (s.create = false → s.established = false →
        contains error "session does not exist" = false) := by
  have fails : (s.fail error).stage ≠ .idle := nofun
  unfold serverError
  split
  · rename_i hbusy
    refine ⟨fun heq => ?_, fun h => ?_⟩
    · exact absurd (congrArg State.stage heq).symm fails
    · rw [hbusy] at h
      cases h.1
  · rename_i hbusy
    split
    · rename_i hmissing
      obtain ⟨hcreate, hestablished, hmissing⟩ := hmissing
      refine ⟨fun heq => ?_, fun h => ?_⟩
      · exact absurd (congrArg State.stage heq).symm fails
      · exact Bool.noConfusion (hmissing.symm.trans (h.2 hcreate hestablished))
    · rename_i hmissing
      refine ⟨fun _ => ⟨Bool.eq_false_iff.mpr hbusy, fun hcreate hestablished => ?_⟩, fun _ => rfl⟩
      exact Bool.eq_false_iff.mpr fun hcontains => hmissing ⟨hcreate, hestablished, hcontains⟩

/-- **An error line is acted on by its cause exactly if the text that it embeds holds no phrase**
which the run loop looks for: the busy refusal's, and, before a first opening, the missing
session's in an attempt that resumes. -/
theorem serverError_byCause (printable : Char → Bool) (s : State) (e : ServerError) :
    s.serverError (e.text printable) = s.byCause printable e ↔
      ∀ x, e.embedded = some x →
        contains x "session already has an attached client" = false ∧
        (s.create = false → s.established = false →
          contains x "session does not exist" = false) := by
  have hbusy : "session already has an attached client".toList ∈ phrases := List.mem_cons_self
  have hmissing : "session does not exist".toList ∈ phrases :=
    List.mem_cons_of_mem _ List.mem_cons_self
  cases h : e.embedded with
  | some x =>
    have other : e ≠ .busy ∧ e ≠ .missing := by
      constructor
      · rintro rfl
        cases h
      · rintro rfl
        cases h
    rw [byCause_other other.1 other.2, serverError_fails, contains_embedded hbusy h,
      contains_embedded hmissing h]
    exact ⟨fun hclean _ heq => Option.some.inj heq ▸ hclean, fun hclean => hclean x rfl⟩
  | none =>
    refine ⟨fun _ x heq => (by cases heq), fun _ => ?_⟩
    by_cases hb : e = .busy
    · subst hb
      have hfound : contains (ServerError.busy.text printable)
          "session already has an attached client" = true := by
        show contains "session already has an attached client" _ = true
        decide +kernel
      rw [serverError, if_pos hfound]
      rfl
    by_cases hm : e = .missing
    · subst hm
      have hlost : contains (ServerError.missing.text printable)
          "session already has an attached client" = false := by
        show contains "session does not exist" _ = false
        decide +kernel
      have hfound : contains (ServerError.missing.text printable) "session does not exist" = true := by
        show contains "session does not exist" _ = true
        decide +kernel
      rw [serverError, hlost, if_neg Bool.false_ne_true, hfound]
      simp only [and_true]
      rfl
    · rw [byCause_other hb hm, serverError_fails]
      exact ⟨contains_apart hbusy h hb hm, fun _ _ => contains_apart hmissing h hb hm⟩

/-- A session with the busy refusal's name exists, or the broker's log quotes the refusal: the line
is retried. -/
theorem serverError_byCause_named : ∃ phrase : String, sessionId phrase = .ok phrase ∧
    ∀ (printable : Char → Bool) (s : State),
      ∀ e ∈ [ServerError.alreadyExists phrase, .brokerFailed phrase],
        s.serverError (e.text printable) = { s with stage := .idle } ∧
          s.serverError (e.text printable) ≠ s.byCause printable e := by
  let phrase := "session already has an attached client"
  have hfound : contains phrase phrase = true := by decide +kernel
  refine ⟨phrase, by decide +kernel, fun printable s e he => ?_⟩
  have hembedded : e.embedded = some phrase ∧ e ≠ .busy ∧ e ≠ .missing := by
    rcases List.mem_cons.mp he with rfl | he
    · exact ⟨rfl, nofun, nofun⟩
    · cases List.mem_singleton.mp he
      exact ⟨rfl, nofun, nofun⟩
  obtain ⟨hembedded, hbusy, hmissing⟩ := hembedded
  have hretried : s.serverError (e.text printable) = { s with stage := .idle } := by
    rw [serverError, if_pos]
    rw [contains_embedded List.mem_cons_self hembedded]
    exact hfound
  refine ⟨hretried, fun heq => ?_⟩
  rw [hretried, byCause_other hbusy hmissing] at heq
  exact nomatch congrArg State.stage heq

end Attempts.State

namespace Attempts

open Retries

/-- Such a creation is retried without an end. -/
theorem retried_forever (printable : Char → Bool) {id : String}
    (named : State.contains id "session already has an attached client" = true) (n : Nat) :
    ∃ t, Retries.machine.Reachable t ∧ t.attempt = n ∧ t.stage = .idle ∧ t.create = true := by
  induction n with
  | zero => exact ⟨{ broker := { session := {} } }, .init ⟨_, rfl⟩, rfl, rfl, rfl⟩
  | succ n ih =>
    obtain ⟨t, hr, hattempt, hidle, hcreate⟩ := ih
    let reply : Remote :=
      { offsets := none
        reply := some (.error ((ServerError.alreadyExists id).text printable)) }
    let replied : State :=
      { t.start with remotes := Function.update t.start.remotes t.start.attempt (some reply) }
    have hstart : Retries.machine.step t (.outer .start) = some t.start := by
      show outerStep t .start = _
      simp only [outerStep, hidle]
    have hline : Retries.machine.step replied (.outer .line) =
        some (replied.serverError ((ServerError.alreadyExists id).text printable)) := by
      have hself : replied.remotes replied.attempt = some reply := Function.update_self ..
      show (replied.remotes replied.attempt).bind _ = _
      rw [hself]
      rfl
    have hretried : replied.serverError ((ServerError.alreadyExists id).text printable) =
        { replied with stage := .idle } := by
      rw [State.serverError, if_pos]
      rw [State.contains_embedded List.mem_cons_self rfl]
      exact named
    rw [hretried] at hline
    have hasked := Machine.Reach.step hr trivial hstart
    have hworld := Machine.Reach.step hasked (t := replied) (a := .world _ _ _) trivial rfl
    exact ⟨_, .step hworld trivial hline, by rw [← hattempt]; rfl, rfl, hcreate⟩

end Attempts

/-! ## The errors of the model -/

namespace ServerError

variable {printable : Char → Bool}

/-- A proxy that connects is refused with one of these texts. -/
theorem connect_error {id error : String} {presence presence' : Attempts.Presence}
    {r r' : Attempts.Remote} (unreplied : r.reply = none)
    (h : Attempts.connect (debugStr printable id) presence r = some (presence', r'))
    (hreply : r'.reply = some (.error error)) :
    error = (alreadyExists id).text printable ∨ error = missing.text printable := by
  unfold Attempts.connect at h
  split at h
  · cases h
    cases unreplied.symm.trans hreply
  · cases h
    cases hreply
    exact .inl rfl
  · cases h
  · cases h
    cases unreplied.symm.trans hreply
  · cases h
    cases hreply
    exact .inr rfl

/-- An opening's input is refused with one of these texts. -/
theorem openingChecks_error {nobuffer : Bool} {m : Meta} {stdinStart : Nat} {stdinEof : Option Nat}
    {error : String} (h : Stdin.openingChecks nobuffer m stdinStart stdinEof = .error error) :
    ∃ e : ServerError, error = e.text printable := by
  unfold Stdin.openingChecks at h
  cases hposition : Stdin.openingPosition nobuffer m stdinStart with
  | error e =>
    rw [hposition] at h
    cases h
    unfold Stdin.openingPosition at hposition
    split at hposition
    · split at hposition
      · cases hposition
        exact ⟨.beyondRecordedEof, rfl⟩
      split at hposition
      · cases hposition
        exact ⟨.gap _, rfl⟩
      split at hposition
      · cases hposition
        exact ⟨.beyondDeclaredEof, rfl⟩
      · cases hposition
    · cases hposition
  | ok position =>
    rw [hposition] at h
    cases hdeclared : stdinEof.forM (Stdin.checkDeclared m) with
    | error e =>
      simp only [bind, Except.bind, hdeclared] at h
      cases h
      cases stdinEof with
      | none => cases hdeclared
      | some requested =>
        simp only [Option.forM, Stdin.checkDeclared] at hdeclared
        split at hdeclared
        · split at hdeclared
          · cases hdeclared
            exact ⟨.eofDeclared _, rfl⟩
          · cases hdeclared
        · cases hdeclared
    | ok _ =>
      simp only [bind, Except.bind, hdeclared] at h
      cases heffective : stdinEof.or m.stdinEofAt with
      | none =>
        simp only [heffective, Option.forM, pure, Except.pure] at h
        cases h
      | some offset =>
        simp only [heffective, Option.forM, Stdin.checkBehind] at h
        split at h
        · rename_i hbehind
          split at hbehind
          · cases h
            cases hbehind
            exact ⟨.eofBehind _ _, rfl⟩
          · cases hbehind
        · cases h

/-- The broker refuses an attachment with one of these texts. -/
theorem attach_error {s : Requests.State} {o : Requests.Opening} {framed : Bool} {error : String}
    (h : (s.attach o framed).2 = .error error) : ∃ e : ServerError, error = e.text printable := by
  unfold Requests.State.attach at h
  split at h
  · cases h
    exact ⟨.busy, rfl⟩
  dsimp only at h
  split at h
  · cases h
    exact ⟨.aheadOfStream, rfl⟩
  split at h
  · cases h
    exact ⟨.superseded, rfl⟩
  split at h
  · rename_i hopening
    cases h
    unfold Requests.State.applyOpeningStdin at hopening
    split at hopening
    · cases hopening
    · rw [Stdin.applyOpeningLocked_on] at hopening
      cases hchecks : Stdin.openingChecks _ _ o.stdinStart o.stdinEof with
      | error e =>
        rw [hchecks] at hopening
        cases hopening
        exact openingChecks_error hchecks
      | ok position =>
        rw [hchecks] at hopening
        cases hopening
  split at h
  · cases h
    exact ⟨.superseded, rfl⟩
  · cases h

end ServerError

end Pipekeep
