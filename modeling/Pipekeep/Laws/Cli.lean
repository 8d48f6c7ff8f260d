import Pipekeep.Cli

/-!
# Reading the command line

A run of either option loop is the options it has taken, complete and in order, and the way it ends.
From that follow the results here: a server's command is what stands after the first separator in
the place of an option, the broker gets the invocation that its proxy had, and an index is out of
range for one kind of argument list only.
-/

namespace Pipekeep.Cli

variable {printable : Char → Bool} {arms : List Arm} {args rest command : List String}
  {o o' : Options} {tokens : List Token}

/-! ## The option loop -/

/-- The loop goes round once for each option. -/
theorem optionLoop_turns : (optionLoop printable arms).Turns (o, args) (o', rest) ↔
    ∃ tokens : List Token, (∀ t ∈ tokens, t.arm ∈ arms) ∧
      args = tokens.flatMap Token.render ++ rest ∧ tokens.foldlM Token.apply o = .ok o' := by
  constructor
  · intro h
    apply Loop.Turns.invariant h (P := fun s => ∃ tokens : List Token, (∀ t ∈ tokens, t.arm ∈ arms) ∧
      args = tokens.flatMap Token.render ++ s.2 ∧ tokens.foldlM Token.apply o = .ok s.1)
    · exact ⟨[], fun _ h => absurd h List.not_mem_nil, rfl, rfl⟩
    · rintro s ⟨next, tail⟩ ⟨tokens, known, hargs, hfold⟩ _ hbody
      obtain ⟨t, hmem, hs, happly⟩ := optionTurn_yield hbody
      refine ⟨tokens ++ [t], ?_, ?_, ?_⟩
      · intro u hu
        rcases List.mem_append.mp hu with hu | hu
        · exact known u hu
        · rw [List.mem_singleton.mp hu]
          exact hmem
      · rw [hargs, hs, List.flatMap_append, List.flatMap_singleton, List.append_assoc]
      · rw [List.foldlM_append, hfold]
        simp only [List.foldlM_cons, happly, bind, Except.bind]
        rfl
  · rintro ⟨tokens, known, rfl, hfold⟩
    induction tokens generalizing o with
    | nil =>
      cases hfold
      exact .refl
    | cons t tokens ih =>
      rw [List.foldlM_cons] at hfold
      obtain ⟨next, happly, hfold⟩ := bind_eq_ok.mp hfold
      have turn : (optionLoop printable arms).Turn
          (o, (t :: tokens).flatMap Token.render ++ rest)
          (next, tokens.flatMap Token.render ++ rest) := by
        obtain ⟨tail, htail⟩ := t.render_eq_cons
        rw [List.flatMap_cons, List.append_assoc]
        constructor
        · rw [htail]
          rfl
        · exact (optionTurn_token (known t List.mem_cons_self)).trans (by rw [happly]; rfl)
      exact .head turn (ih (fun u hu => known u (List.mem_cons_of_mem _ hu)) hfold)

/-- The loop ends at the separator, or at a command where there is no identifier, and leaves the
options as they are. -/
theorem optionTurn_done {s : Options × List String}
    (h : optionTurn printable arms s = .ok (.done (o', rest))) :
    o' = s.1 ∧ (s.2 = Arm.separator.name :: rest ∨ s.1.id = none ∧ s.2 = rest) := by
  obtain ⟨o, args⟩ := s
  cases args with
  | nil => cases h
  | cons arg args =>
    rcases optionTurn_cases printable arms o arg args with
      ⟨t, tail, _, _, hturn⟩ | ⟨rfl, hturn⟩ | ⟨_, hid, hturn⟩ | ⟨_, hturn⟩
    · obtain ⟨next, -, heq⟩ := map_eq_ok.mp (hturn.symm.trans h)
      cases heq
    · cases hturn.symm.trans h
      exact ⟨rfl, .inl rfl⟩
    · cases hturn.symm.trans h
      exact ⟨rfl, .inr ⟨hid, rfl⟩⟩
    · cases hturn.symm.trans h

/-- A loop that ends has taken its options up to the separator, up to a command, or all of them. -/
theorem optionLoop_run (h : (optionLoop printable arms).run (o, args) = .ok (o', rest)) :
    ∃ tokens : List Token, (∀ t ∈ tokens, t.arm ∈ arms) ∧ tokens.foldlM Token.apply o = .ok o' ∧
      (args = tokens.flatMap Token.render ++ Arm.separator.name :: rest ∨
        (o'.id = none ∨ rest = []) ∧ args = tokens.flatMap Token.render ++ rest) := by
  obtain ⟨⟨last, tail⟩, turns, leaves⟩ := Loop.run_eq_iff.mp h
  obtain ⟨tokens, known, rfl, hfold⟩ := optionLoop_turns.mp turns
  refine ⟨tokens, known, ?_⟩
  cases leaves with
  | ended hguard =>
    have empty : rest = [] := List.eq_nil_of_length_eq_zero (by
      have := of_decide_eq_false hguard
      simpa using this)
    exact ⟨hfold, .inr ⟨.inr empty, rfl⟩⟩
  | done _ hbody =>
    obtain ⟨rfl, heq | ⟨hid, heq⟩⟩ := optionTurn_done hbody
    · exact ⟨hfold, .inl (by rw [← heq])⟩
    · exact ⟨hfold, .inr ⟨.inl hid, by rw [← heq]⟩⟩

/-! ## What an option does -/

/-- An option that is taken, and what it leaves. -/
inductive Applies (o : Options) : Token → Options → Prop
  | id {value : String} : Applies o (.id value) { o with id := some value }
  | nobuffer : Applies o .nobuffer { o with nobuffer := true }
  | groupPidfd : Applies o .groupPidfd
      { o with groupBeforeId := o.groupBeforeId || o.id.isNone, groupPidfd := true }
  | outputBounded : o.id ≠ none →
      Applies o .outputBounded { o with outputBounded := true, framed := true }
  | outputLimit {value : String} {limit : Nat} : o.id ≠ none → o.outputLimit = none →
      parseLimit (some value) = .ok limit →
      Applies o (.outputLimit value) { o with outputLimit := some limit }
  | framed : o.id ≠ none → Applies o .framed { o with framed := true }
  | force : Applies o .force { o with force := true }

/-- What an option does, with the conditions under which it is taken. -/
theorem applies {t : Token} (h : t.apply o = .ok o') : Applies o t o' := by
  cases t with
  | id value =>
    cases h
    exact .id
  | nobuffer =>
    cases h
    exact .nobuffer
  | groupPidfd =>
    cases h
    exact .groupPidfd
  | force =>
    cases h
    exact .force
  | outputBounded =>
    rw [Token.apply] at h
    split at h
    · cases h
    next hid =>
      cases h
      exact .outputBounded (by simpa using hid)
  | framed =>
    rw [Token.apply] at h
    split at h
    · cases h
    next hid =>
      cases h
      exact .framed (by simpa using hid)
  | outputLimit value =>
    rw [Token.apply] at h
    split at h
    · cases h
    next hid =>
      split at h
      · cases h
      next hlimit =>
        obtain ⟨limit, hvalue, rfl⟩ := map_eq_ok.mp h
        exact .outputLimit (by simpa using hid) (by simpa using hlimit) hvalue

/-- What holds at first and survives each of the options holds after them. -/
theorem foldlM_invariant {P : Options → Prop} (h : tokens.foldlM Token.apply o = .ok o')
    (first : P o) (step : ∀ o t o', t ∈ tokens → Applies o t o' → P o → P o') : P o' := by
  induction tokens generalizing o with
  | nil =>
    cases h
    exact first
  | cons t tokens ih =>
    rw [List.foldlM_cons] at h
    obtain ⟨next, happly, h⟩ := bind_eq_ok.mp h
    exact ih h (step o t next List.mem_cons_self (applies happly) first)
      fun o u o' hu => step o u o' (List.mem_cons_of_mem _ hu)

/-! ## Modes -/

/-- The options of a server, before its command. -/
structure Options.Serves (o : Options) (server : Server) : Prop where
  id : o.id = some server.id
  command : server.command ≠ []
  nobuffer : server.nobuffer = o.nobuffer
  groupPidfd : server.groupPidfd = o.groupPidfd
  framed : server.framed = o.framed
  outputBounded : server.outputBounded = o.outputBounded
  outputLimit : server.outputLimit = o.outputLimit
  ordered : o.outputBounded = true → o.groupBeforeId = false
  finite : o.outputLimit.isSome = true →
    o.outputBounded = true ∧ o.groupPidfd = true ∧ o.nobuffer = false

/-- A server has its options from the loop and its command from what is left. -/
theorem mode_server {server : Server} (h : o.mode args = .ok (.server server)) :
    o.Serves server ∧ args = server.command := by
  unfold Options.mode at h
  split at h
  · cases h
  split at h
  · cases h
  next hordered =>
    split at h
    · cases h
    next hfinite =>
      split at h
      · cases h
      next hempty =>
        split at h
        next id hid =>
          cases h
          refine ⟨⟨hid, by simpa using hempty, rfl, rfl, rfl, rfl, rfl, ?_, ?_⟩, rfl⟩
          · intro bounded
            simpa [bounded] using hordered
          · intro limited
            simpa [limited, and_assoc] using hfinite
        · split at h
          · cases h
          · split at h <;> cases h

/-- A parser that bails, or gives a mode that is no server. -/
def Minor (r : Except Abort Mode) : Prop :=
  (∃ error, r = bail error) ∨ ∃ mode, r = .ok mode ∧ ∀ server, mode ≠ .server server

/-- A minor result is no server. -/
theorem Minor.ne_server {r : Except Abort Mode} {server : Server} (h : Minor r) :
    r ≠ .ok (.server server) := by
  rintro rfl
  rcases h with ⟨error, h⟩ | ⟨mode, h, hmode⟩
  · cases h
  · cases h
    exact hmode server rfl

/-- The session query has no server's result. -/
theorem parseSession_minor (args : List String) : Minor (parseSession args) := by
  unfold parseSession
  split
  · exact .inl ⟨_, rfl⟩
  next hlength =>
    obtain ⟨first, second, rfl⟩ := List.length_eq_two.mp (not_not.mp hlength)
    simp only [index, List.getElem?_cons_zero, List.getElem?_cons_succ, bind, Except.bind]
    split
    · exact .inl ⟨_, rfl⟩
    · exact .inr ⟨_, rfl, fun _ => by simp⟩

/-- The result of a control's options is not a server's. -/
theorem controlMode_minor (cancel bounded required : Bool) (args : List String) :
    Minor (controlMode cancel bounded required args) := by
  unfold controlMode
  split
  · exact .inl ⟨_, rfl⟩
  next hlength =>
    obtain ⟨first, second, rfl⟩ := List.length_eq_two.mp (not_not.mp hlength)
    simp only [index, List.getElem?_cons_zero, List.getElem?_cons_succ, bind, Except.bind]
    split
    · exact .inl ⟨_, rfl⟩
    · cases cancel with
      | true => exact .inr ⟨_, rfl, fun _ => by simp⟩
      | false => exact .inr ⟨_, rfl, fun _ => by simp⟩

/-- Cancel and pid have no server's result. -/
theorem parseControl_minor (args : List String) (cancel : Bool) :
    Minor (parseControl args cancel) :=
  controlMode_minor _ _ _ _

/-- The capabilities query has no server's result. -/
theorem parseCapabilities_minor (args : List String) : Minor (parseCapabilities args) := by
  unfold parseCapabilities
  split
  · exact .inl ⟨_, rfl⟩
  · split
    · exact .inr ⟨_, rfl, fun _ => by simp⟩
    · exact .inl ⟨_, rfl⟩
  · exact .inl ⟨_, rfl⟩

/-- The broker's own form has no server's result. -/
theorem brokerMode_minor (o : BrokerOptions) (command : List String) : Minor (o.mode command) := by
  unfold BrokerOptions.mode
  split
  · exact .inl ⟨_, rfl⟩
  split
  · exact .inl ⟨_, rfl⟩
  split
  · exact .inl ⟨_, rfl⟩
  · exact .inl ⟨_, rfl⟩
  · exact .inr ⟨_, rfl, fun _ => by simp⟩

/-- The broker's form is never taken for a server's. -/
theorem parseBroker_ne (args : List String) (server : Server) :
    parseBroker printable args ≠ .ok (.server server) := by
  intro h
  obtain ⟨⟨o, i⟩, _, h⟩ := bind_eq_ok.mp h
  obtain ⟨command, _, h⟩ := bind_eq_ok.mp h
  exact (brokerMode_minor o command).ne_server h

/-- Options that agree with one another make a broker. -/
theorem brokerMode_eq {o : BrokerOptions} {id sessionDir : String} (hcommand : command ≠ [])
    (hid : o.id = some id) (hdir : o.sessionDir = some sessionDir)
    (finite : o.outputLimit.isSome = true → o.groupPidfd = true ∧ o.nobuffer = false) :
    o.mode command = .ok (.broker {
      id := id
      groupPidfd := o.groupPidfd
      sessionDir := sessionDir
      outputLimit := o.outputLimit
      command := command
      nobuffer := o.nobuffer }) := by
  have hempty : ¬ command.isEmpty = true := by simpa using hcommand
  have hfinite : ¬ (o.outputLimit.isSome && (!o.groupPidfd || o.nobuffer)) = true := by
    intro h
    obtain ⟨limited, h⟩ := Bool.and_eq_true_iff.mp h
    obtain ⟨hgroup, hnobuffer⟩ := finite limited
    rw [hgroup, hnobuffer] at h
    cases h
  rw [BrokerOptions.mode, if_neg hempty, if_neg hfinite, hid, hdir]

/-- Only the option loop leads to a server. -/
theorem parseWith_server {server : Server}
    (h : parseWith printable arms args = .ok (.server server)) :
    ∃ o, (optionLoop printable arms).run ({}, args) = .ok (o, server.command) ∧
      o.Serves server := by
  unfold parseWith at h
  split at h
  · cases h
  · obtain ⟨first, _, h⟩ := bind_eq_ok.mp h
    split at h
    · cases h
    · cases h
    · cases h
    · cases h
    · obtain ⟨rest, _, h⟩ := bind_eq_ok.mp h
      exact absurd h (parseControl_minor _ _).ne_server
    · obtain ⟨rest, _, h⟩ := bind_eq_ok.mp h
      exact absurd h (parseSession_minor _).ne_server
    · obtain ⟨rest, _, h⟩ := bind_eq_ok.mp h
      exact absurd h (parseControl_minor _ _).ne_server
    · obtain ⟨rest, _, h⟩ := bind_eq_ok.mp h
      exact absurd h (parseCapabilities_minor _).ne_server
    · obtain ⟨rest, _, h⟩ := bind_eq_ok.mp h
      exact absurd h (parseBroker_ne _ _)
    · obtain ⟨⟨o, rest⟩, hrun, h⟩ := bind_eq_ok.mp h
      obtain ⟨serves, rfl⟩ := mode_server h
      exact ⟨o, hrun, serves⟩

/-- A server's options, and the command that stands after the first separator in the place of an
option. -/
theorem parse_server {server : Server} (h : parse printable args = .ok (.server server)) :
    ∃ (tokens : List Token) (o : Options),
      args = tokens.flatMap Token.render ++ Arm.separator.name :: server.command ∧
      tokens.foldlM Token.apply {} = .ok o ∧ o.Serves server := by
  obtain ⟨o, hrun, serves⟩ := parseWith_server h
  obtain ⟨tokens, _, hfold, hargs | ⟨hid | hempty, _⟩⟩ := optionLoop_run hrun
  · exact ⟨tokens, o, hargs, hfold, serves⟩
  · rw [serves.id] at hid
    cases hid
  · exact absurd hempty serves.command

/-- A list that begins as the options do is left to the option loop. -/
theorem parseWith_arm (a : Arm) (tail : List String) :
    parseWith printable arms (a.name :: tail) =
      ((optionLoop printable arms).run ({}, a.name :: tail)).bind fun s => s.1.mode s.2 := by
  cases a <;> rfl

/-- An option in the first place leads into the option loop. -/
theorem parseWith_tokens (tokens : List Token) (tail : List String) :
    parseWith printable arms (tokens.flatMap Token.render ++ "--" :: tail) =
      ((optionLoop printable arms).run ({}, tokens.flatMap Token.render ++ "--" :: tail)).bind
        fun s => s.1.mode s.2 := by
  cases tokens with
  | nil => exact parseWith_arm .separator tail
  | cons t tokens =>
    obtain ⟨values, hrender⟩ := t.render_eq_cons
    rw [List.flatMap_cons, hrender]
    exact parseWith_arm t.arm _

/-- Options before a separator, and the command after it. -/
theorem parseWith_eq (known : ∀ t ∈ tokens, t.arm ∈ arms) (separator : .separator ∈ arms)
    (hfold : tokens.foldlM Token.apply {} = .ok o) :
    parseWith printable arms (tokens.flatMap Token.render ++ "--" :: command) =
      o.mode command := by
  have turns : (optionLoop printable arms).Turns
      ({}, tokens.flatMap Token.render ++ "--" :: command) (o, "--" :: command) :=
    optionLoop_turns.mpr ⟨tokens, known, rfl, hfold⟩
  have stops : optionTurn printable arms (o, Arm.separator.name :: command) =
      .ok (.done (o, command)) := by
    simp only [optionTurn, index, List.getElem?_cons_zero, bind, Except.bind,
      Arm.find_name separator]
    rfl
  rw [parseWith_tokens, Loop.run_eq_iff.mpr ⟨_, turns, .done rfl stops⟩]
  rfl

/-- Options, the separator and a command are parsed into what the options make of the command. -/
theorem parse_eq (hfold : tokens.foldlM Token.apply {} = .ok o) :
    parse printable (tokens.flatMap Token.render ++ "--" :: command) = o.mode command :=
  parseWith_eq (fun t _ => t.arm_mem_all) (by decide) hfold

/-! ## The separator -/

/-- An option can be read off the front of a command line in one way only. -/
theorem render_append_inj {t t' : Token} {tail tail' : List String}
    (h : t.render ++ tail = t'.render ++ tail') : t = t' ∧ tail = tail' := by
  obtain ⟨values, hrender⟩ := t.render_eq_cons
  obtain ⟨values', hrender'⟩ := t'.render_eq_cons
  have harm : t.arm = t'.arm := by
    rw [hrender, hrender'] at h
    exact Arm.name_injective (List.cons.inj h).1
  cases t <;> cases t' <;> cases harm <;>
    simp only [Token.render, List.cons_append, List.nil_append, List.cons.injEq, true_and] at h ⊢
  case id.id => exact ⟨congrArg _ h.1, h.2⟩
  case outputLimit.outputLimit => exact ⟨congrArg _ h.1, h.2⟩
  all_goals exact h

/-- No option begins with the separator. -/
theorem render_ne_separator (t : Token) (tail rest : List String) :
    t.render ++ tail ≠ "--" :: rest := by
  obtain ⟨values, hrender⟩ := t.render_eq_cons
  intro h
  rw [hrender] at h
  have harm : t.arm = .separator := Arm.name_injective (List.cons.inj h).1
  cases t <;> cases harm

/-- There is one way to split a list at the first separator in the place of an option. -/
theorem split_unique {tokens tokens' : List Token} {command command' : List String}
    (h : tokens.flatMap Token.render ++ "--" :: command =
      tokens'.flatMap Token.render ++ "--" :: command') :
    tokens = tokens' ∧ command = command' := by
  induction tokens generalizing tokens' with
  | nil =>
    cases tokens' with
    | nil => exact ⟨rfl, (List.cons.inj h).2⟩
    | cons t tokens' =>
      rw [List.flatMap_cons, List.append_assoc] at h
      exact absurd h.symm (render_ne_separator _ _ _)
  | cons t tokens ih =>
    rw [List.flatMap_cons, List.append_assoc] at h
    cases tokens' with
    | nil => exact absurd h (render_ne_separator _ _ _)
    | cons t' tokens' =>
      rw [List.flatMap_cons, List.append_assoc] at h
      obtain ⟨rfl, htail⟩ := render_append_inj h
      obtain ⟨htokens, hcommand⟩ := ih htail
      exact ⟨congrArg _ htokens, hcommand⟩

/-! ## The broker's loop -/

section

variable {o o' : BrokerOptions} {tokens : List BrokerToken} {i : Nat}

/-- An option of the broker's form has an argument at least. -/
theorem brokerToken_render_ne (t : BrokerToken) : t.render ≠ [] := by
  cases t <;> exact List.cons_ne_nil _ _

/-- The broker's loop takes its options one after the other. -/
theorem brokerLoop_turns (h : args.drop i = tokens.flatMap BrokerToken.render ++ rest)
    (hfold : tokens.foldlM BrokerToken.apply o = .ok o') :
    (brokerLoop printable args).Turns (o, i)
      (o', i + (tokens.flatMap BrokerToken.render).length) := by
  induction tokens generalizing o i with
  | nil =>
    cases hfold
    exact .refl
  | cons t tokens ih =>
    rw [List.foldlM_cons] at hfold
    obtain ⟨next, happly, hfold⟩ := bind_eq_ok.mp hfold
    rw [List.flatMap_cons, List.append_assoc] at h
    have guarded : i < args.length := by
      have longer := congrArg List.length h
      have := List.length_pos_iff.mpr (brokerToken_render_ne t)
      rw [List.length_drop, List.length_append] at longer
      omega
    have turn : (brokerLoop printable args).Turn (o, i) (next, i + t.render.length) :=
      ⟨decide_eq_true guarded, (brokerTurn_token h).trans (by rw [happly]; rfl)⟩
    have later : args.drop (i + t.render.length) = tokens.flatMap BrokerToken.render ++ rest := by
      rw [← List.drop_drop, h, List.drop_left]
    rw [List.flatMap_cons, List.length_append, ← Nat.add_assoc]
    exact .head turn (ih later hfold)

/-- The loop stands after complete options, or past the end for want of a value. -/
def Stands (args : List String) (s : BrokerOptions × Nat) : Prop :=
  (∃ (tokens : List BrokerToken) (rest : List String), tokens.foldlM BrokerToken.apply {} = .ok s.1 ∧
    args = tokens.flatMap BrokerToken.render ++ rest ∧
    s.2 = (tokens.flatMap BrokerToken.render).length) ∨
  ∃ (tokens : List BrokerToken) (last : String) (o : BrokerOptions),
    tokens.foldlM BrokerToken.apply {} = .ok o ∧
    args = tokens.flatMap BrokerToken.render ++ [last] ∧ last ∈ valueless ∧
    s.2 = args.length + 1

/-- Wherever the broker's loop stands, it has taken whole options. -/
theorem brokerLoop_stands (h : (brokerLoop printable args).Turns ({}, 0) (o, i)) :
    Stands args (o, i) := by
  apply Loop.Turns.invariant h (P := Stands args)
  · exact .inl ⟨[], args, rfl, rfl, rfl⟩
  · rintro ⟨o, i⟩ s hstands guarded hbody
    have inside : i < args.length := of_decide_eq_true guarded
    rcases hstands with ⟨tokens, rest, hfold, hargs, hi⟩ | ⟨_, _, _, _, _, _, hi⟩
    · change i = _ at hi
      have hdrop : args.drop i = rest := by rw [hargs, hi, List.drop_left]
      cases rest with
      | nil =>
        have := congrArg List.length hdrop
        rw [List.length_drop, List.length_nil] at this
        omega
      | cons arg rest =>
        have hturn : brokerTurn printable args (o, i) = .ok (.yield s) := hbody
        rcases brokerTurn_cases printable o hdrop with
          ⟨t, tail, heq, hcase⟩ | ⟨_, hcase⟩ | ⟨rfl, hlast, next, hcase⟩ | ⟨_, hcase⟩
        · obtain ⟨next, happly, rfl⟩ : ∃ next, t.apply o = .ok next ∧
              (next, i + t.render.length) = s := by
            obtain ⟨next, happly, heq⟩ := map_eq_ok.mp (hcase.symm.trans hturn)
            cases heq
            exact ⟨next, happly, rfl⟩
          refine .inl ⟨tokens ++ [t], tail, ?_, ?_, ?_⟩
          · rw [List.foldlM_append, hfold]
            simp only [List.foldlM_cons, happly, bind, Except.bind]
            rfl
          · rw [hargs, heq, List.flatMap_append, List.flatMap_singleton, List.append_assoc]
          · rw [List.flatMap_append, List.flatMap_singleton, List.length_append, ← hi]
        · cases hcase.symm.trans hturn
        · cases hcase.symm.trans hturn
          refine .inr ⟨tokens, arg, o, hfold, hargs, hlast, ?_⟩
          rw [hargs, List.length_append, List.length_singleton, ← hi]
        · cases hcase.symm.trans hturn
    · dsimp only at hi
      omega

/-- The broker's form has a parser of its own. -/
theorem parse_broker (rest : List String) :
    parse printable ("__broker" :: rest) = parseBroker printable rest := rfl

/-- Options, the separator and a command are parsed into what the broker's options make of it. -/
theorem parseBroker_eq (hfold : tokens.foldlM BrokerToken.apply {} = .ok o) :
    parseBroker printable (tokens.flatMap BrokerToken.render ++ "--" :: command) =
      o.mode command := by
  set options := tokens.flatMap BrokerToken.render with hoptions
  have hdrop : (options ++ "--" :: command).drop options.length = "--" :: command :=
    List.drop_left
  have hdrop₀ : (options ++ "--" :: command).drop 0 = options ++ "--" :: command := rfl
  have turns : (brokerLoop printable (options ++ "--" :: command)).Turns ({}, 0)
      (o, 0 + options.length) :=
    brokerLoop_turns hdrop₀ hfold
  rw [Nat.zero_add] at turns
  have guarded : options.length < (options ++ "--" :: command).length := by
    rw [List.length_append, List.length_cons]
    omega
  have stops : brokerTurn printable (options ++ "--" :: command) (o, options.length) =
      .ok (.done (o, options.length + 1)) := by
    have first := getElem?_of_drop (n := 0) hdrop
    rw [Nat.add_zero, List.getElem?_cons_zero] at first
    simp only [brokerTurn, index, first, bind, Except.bind]
    rfl
  have hrun := Loop.run_eq_iff.mpr ⟨_, turns, .done (decide_eq_true guarded) stops⟩
  have tail : (options ++ "--" :: command).drop (options.length + 1) = command := by
    rw [← List.drop_drop, hdrop]
    rfl
  have hslice : slice (options ++ "--" :: command) (options.length + 1) = .ok command := by
    rw [slice, if_pos (Nat.succ_le_of_lt guarded), tail]
  simp only [parseBroker, hrun, bind, Except.bind, hslice]

end

/-! ## The hand-over -/

/-- An accepted limit is within 63 bits. -/
theorem parseLimit_le {value : Option String} {limit : Nat} (h : parseLimit value = .ok limit) :
    limit ≤ i64Max := by
  unfold parseLimit at h
  split at h
  · cases h
  · split at h
    · cases h
    · split at h
      · cases h
      · split at h
        · cases h
        next hle =>
          cases h
          exact Nat.le_of_not_lt hle

/-- **A limit that is printed is parsed back.** -/
theorem parseLimit_toString {limit : Nat} (h : limit ≤ i64Max) :
    parseLimit (some (toString limit)) = .ok limit := by
  have hlist : (toString limit).toList = Nat.toDigits 10 limit := by
    rw [Nat.toString_eq_ofList_toDigits, String.toList_ofList]
  have hempty : (toString limit).isEmpty = false := by
    rw [Bool.eq_false_iff]
    intro h
    rw [String.isEmpty_iff] at h
    rw [h] at hlist
    exact Nat.toDigits_ne_nil hlist.symm
  have hall : (toString limit).toList.all Char.isDigit = true := by
    rw [hlist, List.all_eq_true]
    exact fun c hc => Nat.isDigit_of_mem_toDigits (by decide) (by decide) hc
  have hparse : Decimal.parse u64Max (toString limit).toList = .ok limit := by
    rw [hlist]
    exact Decimal.parse_toDigits (Nat.le_trans h (by decide))
  simp only [parseLimit, hempty, hall, hparse]
  exact if_neg (Nat.not_lt.mpr h)

/-- A limit that the options have is a file offset. -/
theorem foldlM_outputLimit_le (h : tokens.foldlM Token.apply {} = .ok o) :
    ∀ limit ∈ o.outputLimit, limit ≤ i64Max := by
  apply foldlM_invariant (P := fun o => ∀ limit ∈ o.outputLimit, limit ≤ i64Max) h
  · intro _ hmem
    cases hmem
  · intro o t o' _ applies first
    cases applies with
    | outputLimit _ _ hlimit =>
      intro _ hmem
      cases hmem
      exact parseLimit_le hlimit
    | _ => exact first

/-- The options that `start_broker` hands over. -/
def brokerTokens (server : Server) (sessionDir : String) : List BrokerToken :=
  [.id server.id, .sessionDir sessionDir] ++
    (if server.groupPidfd then [.groupPidfd] else []) ++
    server.outputLimit.elim [] (fun limit => [.outputLimit (toString limit)]) ++
    (if server.nobuffer then [.nobuffer] else [])

/-- What `start_broker` passes are options, the separator and the command. -/
theorem brokerArgs_eq (server : Server) (sessionDir : String) :
    brokerArgs server sessionDir = "__broker" ::
      ((brokerTokens server sessionDir).flatMap BrokerToken.render ++ "--" :: server.command) := by
  unfold brokerArgs brokerTokens
  cases server.groupPidfd <;> cases server.outputLimit <;> cases server.nobuffer <;> rfl

/-- The broker takes every one of these options. -/
theorem brokerTokens_fold {server : Server} (sessionDir : String)
    (hlimit : ∀ limit ∈ server.outputLimit, limit ≤ i64Max) :
    (brokerTokens server sessionDir).foldlM BrokerToken.apply {} = .ok
      { id := some server.id
        sessionDir := some sessionDir
        outputLimit := server.outputLimit
        groupPidfd := server.groupPidfd
        nobuffer := server.nobuffer } := by
  unfold brokerTokens
  cases hoption : server.outputLimit with
  | none => cases server.groupPidfd <;> cases server.nobuffer <;> rfl
  | some limit =>
    have happly (o : BrokerOptions) (h : o.outputLimit = none) :
        BrokerToken.apply o (.outputLimit (toString limit)) =
          .ok { o with outputLimit := some limit } := by
      rw [BrokerToken.apply, h, parseLimit_toString (hlimit limit hoption)]
      rfl
    have hfold (o : BrokerOptions) (h : o.outputLimit = none) (later : List BrokerToken) :
        (BrokerToken.outputLimit (toString limit) :: later).foldlM BrokerToken.apply o =
          later.foldlM BrokerToken.apply { o with outputLimit := some limit } := by
      rw [List.foldlM_cons, happly o h]
      rfl
    cases server.groupPidfd <;> cases server.nobuffer <;> exact hfold _ rfl _

/-- **The broker gets the invocation of its proxy.** A server's command is what stands after the
first separator in the place of an option, and from the arguments of `start_broker` the broker reads
the same identifier, directory, command, flags and limit. -/
theorem arguments_handed_over {server : Server} (h : parse printable args = .ok (.server server)) :
    server.command ≠ [] ∧
    (∃ tokens : List Token, args = tokens.flatMap Token.render ++ "--" :: server.command) ∧
    (∀ (tokens : List Token) (command : List String),
      args = tokens.flatMap Token.render ++ "--" :: command → command = server.command) ∧
    ∀ sessionDir : String, parse printable (brokerArgs server sessionDir) = .ok (.broker {
      id := server.id
      groupPidfd := server.groupPidfd
      sessionDir := sessionDir
      outputLimit := server.outputLimit
      command := server.command
      nobuffer := server.nobuffer }) := by
  obtain ⟨tokens, o, rfl, hfold, serves⟩ := parse_server h
  have hlimit : ∀ limit ∈ server.outputLimit, limit ≤ i64Max := by
    rw [serves.outputLimit]
    exact foldlM_outputLimit_le hfold
  refine ⟨serves.command, ⟨tokens, rfl⟩, ?_, ?_⟩
  · intro tokens' command heq
    exact (split_unique heq).2.symm
  · intro sessionDir
    rw [brokerArgs_eq, parse_broker, parseBroker_eq (brokerTokens_fold sessionDir hlimit)]
    apply brokerMode_eq serves.command rfl rfl
    intro limited
    have finite := serves.finite (by rw [← serves.outputLimit]; exact limited)
    exact ⟨serves.groupPidfd.trans finite.2.1, serves.nobuffer.trans finite.2.2⟩

/-- An identifier, a directory and a command that are spelled like options. -/
theorem arguments_handed_over_options :
    parse (fun _ => true) (brokerArgs
      { id := "--session-dir", command := ["--", "--framed"], groupPidfd := true, framed := true
        outputBounded := true, outputLimit := some 65536 } "/tmp/--nobuffer") =
    .ok (.broker {
      id := "--session-dir", groupPidfd := true, sessionDir := "/tmp/--nobuffer"
      outputLimit := some 65536, command := ["--", "--framed"], nobuffer := false }) := by
  have hfold : [Token.id "--session-dir", .outputBounded, .groupPidfd, .outputLimit "65536"].foldlM
      Token.apply {} = .ok { id := some "--session-dir", groupPidfd := true, framed := true
                             outputBounded := true, outputLimit := some 65536 } := by rfl
  have accepted : parse (fun _ => true) ["--id", "--session-dir", "--output-bounded",
      "--group-pidfd", "--output-limit", "65536", "--", "--", "--framed"] = _ := parse_eq hfold
  exact (arguments_handed_over accepted).2.2.2 "/tmp/--nobuffer"

/-! ## Out of range -/

/-- A refusal is no panic. -/
theorem bail_ne_outOfRange {α : Type} {error : String} :
    (bail error : Except Abort α) ≠ .error .outOfRange := by
  simp [bail]

/-- A check that bails. -/
theorem check_inRange {α : Type} {c : Prop} [Decidable c] {error : String} {r : Except Abort α}
    (h : r ≠ .error .outOfRange) : (if c then bail error else r) ≠ .error .outOfRange := by
  split
  · exact bail_ne_outOfRange
  · exact h

/-- A limit is parsed without an index. -/
theorem parseLimit_inRange (value : Option String) : parseLimit value ≠ .error .outOfRange := by
  unfold parseLimit
  split
  · exact bail_ne_outOfRange
  · refine check_inRange ?_
    split
    · exact bail_ne_outOfRange
    · exact check_inRange (by simp)

/-- A map does not panic. -/
theorem map_inRange {α β : Type} {f : α → β} {r : Except Abort α} (h : r ≠ .error .outOfRange) :
    r.map f ≠ .error .outOfRange := by
  cases r with
  | ok a => simp [Except.map]
  | error e => simpa [Except.map] using h

/-- Taking an option does not panic. -/
theorem Token.apply_inRange (o : Options) (t : Token) : t.apply o ≠ .error .outOfRange := by
  cases t with
  | id | nobuffer | groupPidfd | force => simp [Token.apply]
  | outputBounded | framed => exact check_inRange (by simp)
  | outputLimit value =>
    exact check_inRange (check_inRange (map_inRange (parseLimit_inRange _)))

/-- Taking an option of the broker's form does not panic. -/
theorem BrokerToken.apply_inRange (o : BrokerOptions) (t : BrokerToken) :
    t.apply o ≠ .error .outOfRange := by
  cases t with
  | id | sessionDir | groupPidfd | nobuffer => simp [BrokerToken.apply]
  | outputLimit value => exact check_inRange (map_inRange (parseLimit_inRange _))

/-- The option loop stays inside its vector. -/
theorem optionLoop_inRange (s : Options × List String) :
    (optionLoop printable arms).run s ≠ .error .outOfRange := by
  intro h
  obtain ⟨⟨o, args⟩, _, leaves⟩ := Loop.run_eq_iff.mp h
  cases leaves with
  | error guarded hbody =>
    have turn : optionTurn printable arms (o, args) = .error .outOfRange := hbody
    cases args with
    | nil => cases guarded
    | cons arg args =>
      rcases optionTurn_cases printable arms o arg args with
        ⟨t, tail, _, _, hturn⟩ | ⟨_, hturn⟩ | ⟨_, _, hturn⟩ | ⟨error, hturn⟩
      · exact map_inRange (t.apply_inRange o) (hturn.symm.trans turn)
      · cases hturn.symm.trans turn
      · cases hturn.symm.trans turn
      · cases hturn.symm.trans turn

/-- The broker's loop itself stays within its arguments. -/
theorem brokerLoop_inRange (s : BrokerOptions × Nat) :
    (brokerLoop printable args).run s ≠ .error .outOfRange := by
  intro h
  obtain ⟨⟨o, i⟩, _, leaves⟩ := Loop.run_eq_iff.mp h
  cases leaves with
  | error guarded hbody =>
    have turn : brokerTurn printable args (o, i) = .error .outOfRange := hbody
    have inside : i < args.length := of_decide_eq_true guarded
    rcases brokerTurn_cases printable o (List.drop_eq_getElem_cons inside) with
      ⟨t, tail, _, hturn⟩ | ⟨_, hturn⟩ | ⟨_, _, _, hturn⟩ | ⟨error, hturn⟩
    · exact map_inRange (t.apply_inRange o) (hturn.symm.trans turn)
    · cases hturn.symm.trans turn
    · cases hturn.symm.trans turn
    · cases hturn.symm.trans turn

/-- A minor result is no panic. -/
theorem Minor.inRange {r : Except Abort Mode} (h : Minor r) : r ≠ .error .outOfRange := by
  rcases h with ⟨error, rfl⟩ | ⟨mode, rfl, _⟩
  · exact bail_ne_outOfRange
  · simp

/-- The checks after the option loop do not panic. -/
theorem mode_inRange (o : Options) (args : List String) : o.mode args ≠ .error .outOfRange := by
  refine check_inRange (check_inRange (check_inRange (check_inRange ?_)))
  split
  · simp
  · exact check_inRange (check_inRange (by simp))

/-- The slice of `parse_broker` is what can be out of range. -/
theorem parseBroker_outOfRange : parseBroker printable args = .error .outOfRange ↔
    ∃ o i, (brokerLoop printable args).run ({}, 0) = .ok (o, i) ∧ args.length < i := by
  unfold parseBroker
  cases hrun : (brokerLoop printable args).run ({}, 0) with
  | error e =>
    have inRange : (brokerLoop printable args).run ({}, 0) ≠ .error .outOfRange :=
      brokerLoop_inRange _
    rw [hrun] at inRange
    simpa [bind, Except.bind] using inRange
  | ok s =>
    obtain ⟨o, i⟩ := s
    have inRange := (brokerMode_minor o (args.drop i)).inRange
    by_cases hi : i ≤ args.length
    · simpa [bind, Except.bind, slice, hi, Nat.not_lt.mpr hi] using inRange
    · simpa [bind, Except.bind, slice, hi] using Nat.lt_of_not_le hi

/-- A flag as the last argument takes the broker's loop past the end. -/
theorem brokerTurn_valueless {o : BrokerOptions} {i : Nat} {last : String}
    (h : args.drop i = [last]) (hlast : last ∈ valueless) :
    ∃ o', brokerTurn printable args (o, i) = .ok (.yield (o', i + 2)) := by
  have first := getElem?_of_drop (n := 0) h
  rw [Nat.add_zero, List.getElem?_cons_zero] at first
  simp only [valueless, List.mem_cons, List.not_mem_nil, or_false] at hlast
  rcases hlast with rfl | rfl
  · exact ⟨_, by simp only [brokerTurn, index, first, bind, Except.bind]; rfl⟩
  · exact ⟨_, by simp only [brokerTurn, index, first, bind, Except.bind]; rfl⟩

/-- The loop of `parse_broker` passes the end where its last option has no value. -/
theorem brokerLoop_pastEnd :
    (∃ o i, (brokerLoop printable args).run ({}, 0) = .ok (o, i) ∧ args.length < i) ↔
    ∃ (tokens : List BrokerToken) (last : String) (o : BrokerOptions),
      tokens.foldlM BrokerToken.apply {} = .ok o ∧
      args = tokens.flatMap BrokerToken.render ++ [last] ∧ last ∈ valueless := by
  constructor
  · rintro ⟨o, i, hrun, hi⟩
    obtain ⟨⟨o₁, i₁⟩, turns, leaves⟩ := Loop.run_eq_iff.mp hrun
    cases leaves with
    | ended hguard =>
      rcases brokerLoop_stands turns with ⟨tokens, rest, _, hargs, hlength⟩ |
        ⟨tokens, last, o, hfold, hargs, hlast, _⟩
      · have := congrArg List.length hargs
        rw [List.length_append] at this
        dsimp only at hlength
        omega
      · exact ⟨tokens, last, o, hfold, hargs, hlast⟩
    | done guarded hbody =>
      have turn : brokerTurn printable args (o₁, i₁) = .ok (.done (o, i)) := hbody
      have inside : i₁ < args.length := of_decide_eq_true guarded
      rcases brokerTurn_cases printable o₁ (List.drop_eq_getElem_cons inside) with
        ⟨t, tail, _, hturn⟩ | ⟨_, hturn⟩ | ⟨_, _, _, hturn⟩ | ⟨error, hturn⟩
      · obtain ⟨next, -, heq⟩ := map_eq_ok.mp (hturn.symm.trans turn)
        cases heq
      · cases hturn.symm.trans turn
        omega
      · cases hturn.symm.trans turn
      · cases hturn.symm.trans turn
  · rintro ⟨tokens, last, o, hfold, rfl, hlast⟩
    set options := tokens.flatMap BrokerToken.render with hoptions
    have hdrop : (options ++ [last]).drop options.length = [last] := List.drop_left
    have hdrop₀ : (options ++ [last]).drop 0 = options ++ [last] := rfl
    obtain ⟨o', hturn⟩ : ∃ o', brokerTurn printable (options ++ [last]) (o, options.length) =
        .ok (.yield (o', options.length + 2)) := brokerTurn_valueless hdrop hlast
    have turns : (brokerLoop printable (options ++ [last])).Turns ({}, 0)
        (o, 0 + options.length) := brokerLoop_turns hdrop₀ hfold
    rw [Nat.zero_add] at turns
    have length : (options ++ [last]).length = options.length + 1 := by
      rw [List.length_append, List.length_singleton]
    have turn : (brokerLoop printable (options ++ [last])).Turn (o, options.length)
        (o', options.length + 2) :=
      ⟨decide_eq_true (by dsimp only; omega), hturn⟩
    refine ⟨o', options.length + 2, Loop.run_eq_iff.mpr ⟨_, turns.tail turn, .ended ?_⟩, by omega⟩
    exact decide_eq_false (by dsimp only; omega)

/-- The texts of the limits among the options. -/
def limits (tokens : List BrokerToken) : List String :=
  tokens.filterMap fun
    | .outputLimit value => some value
    | _ => none

/-- The options are taken if there is one limit at most, and it is valid. -/
theorem foldlM_isOk {tokens : List BrokerToken} {o : BrokerOptions} :
    (∃ o', tokens.foldlM BrokerToken.apply o = .ok o') ↔
      o.outputLimit.toList.length + (limits tokens).length ≤ 1 ∧
        ∀ value ∈ limits tokens, ∃ limit, parseLimit (some value) = .ok limit := by
  induction tokens generalizing o with
  | nil =>
    refine ⟨fun _ => ⟨?_, fun _ h => absurd h List.not_mem_nil⟩, fun _ => ⟨o, rfl⟩⟩
    cases o.outputLimit <;> simp [limits]
  | cons t tokens ih =>
    cases t with
    | id | sessionDir | groupPidfd | nobuffer => exact ih
    | outputLimit value =>
      have hlimits : limits (.outputLimit value :: tokens) = value :: limits tokens := rfl
      rw [hlimits, List.length_cons, List.foldlM_cons, List.forall_mem_cons]
      cases hoption : o.outputLimit with
      | some limit =>
        have happly : BrokerToken.apply o (.outputLimit value) =
            bail "duplicate --output-limit" := by
          rw [BrokerToken.apply, hoption]
          rfl
        rw [happly]
        constructor
        · rintro ⟨_, h⟩
          cases h
        · rintro ⟨h, _⟩
          rw [Option.toList_some, List.length_singleton] at h
          omega
      | none =>
        have happly : BrokerToken.apply o (.outputLimit value) = (parseLimit (some value)).map
            fun limit => { o with outputLimit := some limit } := by
          rw [BrokerToken.apply, hoption]
          rfl
        rw [happly]
        cases hvalue : parseLimit (some value) with
        | error e =>
          constructor
          · rintro ⟨_, h⟩
            cases h
          · rintro ⟨_, ⟨limit, h⟩, _⟩
            cases h
        | ok limit =>
          refine Iff.trans ih ?_
          simp only [Option.toList_some, Option.toList_none, List.length_singleton, List.length_nil,
            Except.ok.injEq, exists_eq', true_and]
          exact and_congr_left fun _ => by omega

/-- Only the broker's form of the command line can be out of range. -/
theorem parse_outOfRange : parse printable args = .error .outOfRange ↔
    ∃ rest, args = "__broker" :: rest ∧ parseBroker printable rest = .error .outOfRange := by
  constructor
  · intro h
    cases args with
    | nil => cases h
    | cons first rest =>
      have hslice : slice (first :: rest) 1 = .ok rest := by simp [slice]
      unfold parse parseWith at h
      simp only [List.isEmpty_cons, Bool.false_eq_true, if_false, index, List.getElem?_cons_zero,
        bind, Except.bind, hslice] at h
      split at h
      · cases h
      · cases h
      · cases h
      · cases h
      · exact absurd h (parseControl_minor _ _).inRange
      · exact absurd h (parseSession_minor _).inRange
      · exact absurd h (parseControl_minor _ _).inRange
      · exact absurd h (parseCapabilities_minor _).inRange
      · exact ⟨rest, rfl, h⟩
      · split at h
        next e hrun =>
          cases h
          exact absurd hrun (optionLoop_inRange _)
        next s hrun => exact absurd h (mode_inRange _ _)
  · rintro ⟨rest, rfl, h⟩
    rw [parse_broker, h]

/-- A command line for the broker that ends with an option for want of its value. The options before
it are complete, with one limit at most, and a valid one. -/
def Dangling (args : List String) : Prop :=
  ∃ (tokens : List BrokerToken) (last : String),
    args = "__broker" :: (tokens.flatMap BrokerToken.render ++ [last]) ∧ last ∈ valueless ∧
      (limits tokens).length ≤ 1 ∧
      ∀ value ∈ limits tokens, ∃ limit, parseLimit (some value) = .ok limit

/-- **Where an index can be out of range**: every other list gives a mode or an error. -/
theorem parse_inRange : parse printable args ≠ .error .outOfRange ↔ ¬ Dangling args := by
  rw [not_iff_not, parse_outOfRange]
  constructor
  · rintro ⟨rest, rfl, h⟩
    obtain ⟨tokens, last, o, hfold, rfl, hlast⟩ :=
      brokerLoop_pastEnd.mp (parseBroker_outOfRange.mp h)
    obtain ⟨hcount, hvalid⟩ := foldlM_isOk.mp ⟨o, hfold⟩
    exact ⟨tokens, last, rfl, hlast, by simpa using hcount, hvalid⟩
  · rintro ⟨tokens, last, rfl, hlast, hcount, hvalid⟩
    obtain ⟨o, hfold⟩ := foldlM_isOk (o := {}).mpr ⟨by simpa using hcount, hvalid⟩
    exact ⟨_, rfl, parseBroker_outOfRange.mpr
      (brokerLoop_pastEnd.mpr ⟨tokens, last, o, hfold, rfl, hlast⟩)⟩

/-- The identifier's option as the last argument. -/
theorem parse_inRange_dangling :
    ¬ ∀ args, parse (fun _ => true) args ≠ .error .outOfRange := by
  intro h
  apply h ["__broker", "--id"]
  exact parse_outOfRange.mpr ⟨_, rfl, parseBroker_outOfRange.mpr
    (brokerLoop_pastEnd.mpr ⟨[], "--id", {}, rfl, rfl, by decide⟩)⟩

end Pipekeep.Cli
