import Pipekeep.Laws.Cli

/-!
# New options and older programs

An older program runs the same option loop without the arms of the newer options. What this program
accepts with framing, a bounded output or a limit gives the identifier before the first of them, so
that the older loop finds an option that it does not know where it can no longer be a command.
-/

namespace Pipekeep.Cli

variable {printable : Char → Bool} {args : List String} {o o' : Options} {tokens : List Token}
  {t : Token} {server : Server} {removed : List Arm}

/-- The invocation has framing, a bounded output or a limit. -/
def Mode.selects : Mode → Bool
  | .server server => server.framed || server.outputBounded || server.outputLimit.isSome
  | .cancel _ _ outputBounded => outputBounded
  | .broker b => b.outputLimit.isSome
  | _ => false

def Mode.outputBounded : Mode → Bool
  | .server server => server.outputBounded
  | .cancel _ _ outputBounded => outputBounded
  | _ => false

/-- The arms that an older program may lack. -/
def newArms (outputBounded : Bool) : List Arm :=
  [.framed, .outputBounded, .outputLimit] ++ if outputBounded then [.groupPidfd] else []

def olderArms (removed : List Arm) : List Arm :=
  Arm.all.filter fun a => !removed.contains a

theorem mem_olderArms {a : Arm} (hall : a ∈ Arm.all) : a ∈ olderArms removed ↔ a ∉ removed := by
  simp [olderArms, hall]

/-! ## What the options leave -/

theorem foldlM_groupBeforeId (h : tokens.foldlM Token.apply o = .ok o')
    (first : o.groupBeforeId = true) : o'.groupBeforeId = true := by
  apply foldlM_invariant (P := fun o => o.groupBeforeId = true) h first
  intro o t o' _ applies first
  cases applies with
  | groupPidfd => exact Bool.or_eq_true_iff.mpr (.inl first)
  | _ => exact first

/-- Only its own option sets the identifier. -/
theorem foldlM_id (h : tokens.foldlM Token.apply o = .ok o') (first : o.id = none)
    (absent : ∀ t ∈ tokens, t.arm ≠ .id) : o'.id = none := by
  apply foldlM_invariant (P := fun o => o.id = none) h first
  intro o t o' hmem applies first
  cases applies with
  | id => exact absurd rfl (absent _ hmem)
  | _ => exact first

/-- Only the new options select framing, a bounded output or a limit. -/
theorem foldlM_selects (h : tokens.foldlM Token.apply o = .ok o')
    (first : o.framed = false ∧ o.outputBounded = false ∧ o.outputLimit = none)
    (absent : ∀ t ∈ tokens, t.arm ∉ newArms false) :
    o'.framed = false ∧ o'.outputBounded = false ∧ o'.outputLimit = none := by
  apply foldlM_invariant
    (P := fun o => o.framed = false ∧ o.outputBounded = false ∧ o.outputLimit = none) h first
  intro o t o' hmem applies first
  cases applies with
  | framed | outputBounded | outputLimit =>
    exact absurd (by simp [newArms, Token.arm]) (absent _ hmem)
  | _ => exact first

/-- The identifier is there before a new option. -/
theorem id_before_new {after : List Token} {next : Options} (hnew : t.arm ∈ newArms o'.outputBounded)
    (happly : t.apply o = .ok next) (hafter : after.foldlM Token.apply next = .ok o')
    (ordered : o'.outputBounded = true → o'.groupBeforeId = false) : o.id ≠ none := by
  intro hid
  cases applies happly with
  | framed h | outputBounded h | outputLimit h => exact h hid
  | groupPidfd =>
    have early : o'.groupBeforeId = true := foldlM_groupBeforeId hafter (by simp [hid])
    cases hbounded : o'.outputBounded with
    | true => exact absurd (ordered hbounded) (by rw [early]; exact Bool.noConfusion)
    | false =>
      rw [hbounded] at hnew
      exact absurd hnew (by decide)
  | id | nobuffer | force =>
    cases hbounded : o'.outputBounded <;> simp [hbounded, newArms, Token.arm] at hnew

/-! ## The older loop -/

theorem find_olderArms {a : Arm} (h : a ∈ removed) : Arm.find (olderArms removed) a.name = none := by
  rw [Arm.find, List.find?_eq_none]
  intro b hb hname
  rw [beq_iff_eq] at hname
  rw [Arm.name_injective hname] at hb
  have hall := List.mem_of_mem_filter hb
  exact (mem_olderArms hall).mp hb h

/-- The first option of a kind, with those before it. -/
theorem first_option {p : Token → Prop} [DecidablePred p] (h : ∃ t ∈ tokens, p t) :
    ∃ before t after, tokens = before ++ t :: after ∧ p t ∧ ∀ u ∈ before, ¬ p u := by
  obtain ⟨u, hmem, hu⟩ := h
  cases hfind : tokens.find? (fun t => decide (p t)) with
  | none =>
    have := List.find?_eq_none.mp hfind u hmem
    exact absurd (decide_eq_true hu) this
  | some t =>
    obtain ⟨ht, before, after, heq, hbefore⟩ := List.find?_eq_some_iff_append.mp hfind
    exact ⟨before, t, after, heq, of_decide_eq_true ht, fun u hu => by simpa using hbefore u hu⟩

/-- The options before one that is taken, and those after it. -/
theorem foldlM_split {before after : List Token}
    (h : (before ++ t :: after).foldlM Token.apply o = .ok o') :
    ∃ o₁ o₂, before.foldlM Token.apply o = .ok o₁ ∧ t.apply o₁ = .ok o₂ ∧
      after.foldlM Token.apply o₂ = .ok o' := by
  rw [List.foldlM_append] at h
  obtain ⟨o₁, hbefore, h⟩ := bind_eq_ok.mp h
  rw [List.foldlM_cons] at h
  obtain ⟨o₂, happly, h⟩ := bind_eq_ok.mp h
  exact ⟨o₁, o₂, hbefore, happly, h⟩

/-- The older loop bails at the first option that it does not know. -/
theorem older_rejects {command : List String} (hfold : tokens.foldlM Token.apply {} = .ok o)
    (ordered : o.outputBounded = true → o.groupBeforeId = false)
    (hremoved : ∀ a ∈ removed, a ∈ newArms o.outputBounded) (hmeets : ∃ t ∈ tokens, t.arm ∈ removed) :
    ∃ a ∈ removed, parseWith printable (olderArms removed)
      (tokens.flatMap Token.render ++ "--" :: command) = bail (unknownOption printable a.name) := by
  obtain ⟨before, t, after, rfl, ht, hbefore⟩ := first_option hmeets
  obtain ⟨o₁, o₂, hfirst, happly, hafter⟩ := foldlM_split hfold
  have hid : o₁.id ≠ none := id_before_new (hremoved _ ht) happly hafter ordered
  obtain ⟨values, hrender⟩ := t.render_eq_cons
  have split : (before ++ t :: after).flatMap Token.render ++ "--" :: command =
      before.flatMap Token.render ++
        t.arm.name :: (values ++ after.flatMap Token.render ++ "--" :: command) := by
    simp only [List.flatMap_append, List.flatMap_cons, hrender, List.append_assoc, List.cons_append]
  have known : ∀ u ∈ before, u.arm ∈ olderArms removed := fun u hu =>
    (mem_olderArms u.arm_mem_all).mpr (hbefore u hu)
  have turns : (optionLoop printable (olderArms removed)).Turns
      ({}, before.flatMap Token.render ++
        t.arm.name :: (values ++ after.flatMap Token.render ++ "--" :: command))
      (o₁, t.arm.name :: (values ++ after.flatMap Token.render ++ "--" :: command)) :=
    optionLoop_turns.mpr ⟨before, known, rfl, hfirst⟩
  have rejects : optionTurn printable (olderArms removed)
      (o₁, t.arm.name :: (values ++ after.flatMap Token.render ++ "--" :: command)) =
        bail (unknownOption printable t.arm.name) := by
    obtain ⟨id, hid⟩ := Option.ne_none_iff_exists'.mp hid
    simp only [optionTurn, index, List.getElem?_cons_zero, bind, Except.bind, find_olderArms ht,
      optionArm, hid]
    rfl
  refine ⟨t.arm, ht, ?_⟩
  rw [parseWith_tokens, split, Loop.run_eq_iff.mpr ⟨_, turns, .error rfl rejects⟩]
  rfl

theorem mode_cases {mode : Mode} (h : o.mode args = .ok mode) :
    (∃ server, mode = .server server) ∨ ∃ command nobuffer, mode = .outer command nobuffer := by
  unfold Options.mode at h
  split at h
  · cases h
  split at h
  · cases h
  split at h
  · cases h
  split at h
  · cases h
  split at h
  · cases h
    exact .inl ⟨_, rfl⟩
  · split at h
    · cases h
    · split at h
      · cases h
      · cases h
        exact .inr ⟨_, _, rfl⟩

/-- What is neither a server nor a transport does not come from the option loop. -/
theorem parse_subcommand {mode : Mode} (h : parse printable args = .ok mode) :
    (∃ server, mode = .server server) ∨ (∃ command nobuffer, mode = .outer command nobuffer) ∨
      ∀ arms, parseWith printable arms args = .ok mode := by
  cases args with
  | nil => exact .inr (.inr fun _ => h)
  | cons first rest =>
    have hslice : slice (first :: rest) 1 = .ok rest := by simp [slice]
    have hparse := h
    unfold parse parseWith at h
    simp only [List.isEmpty_cons, Bool.false_eq_true, if_false, index, List.getElem?_cons_zero,
      bind, Except.bind] at h
    split at h
    iterate 9 exact .inr (.inr fun _ => hparse)
    split at h
    · cases h
    next s hrun =>
      rcases mode_cases h with server | outer
      · exact .inl server
      · exact .inr (.inl outer)

/-- The identifier comes before the new options. -/
theorem id_precedes (hfold : tokens.foldlM Token.apply {} = .ok o) (serves : o.Serves server) :
    ∃ before value after, tokens = before ++ .id value :: after ∧
      ∀ t ∈ before, t.arm ∉ newArms server.outputBounded := by
  have present : ∃ t ∈ tokens, t.arm = .id := by
    by_contra absent
    push Not at absent
    have hid := foldlM_id hfold rfl absent
    rw [serves.id] at hid
    cases hid
  obtain ⟨before, t, after, rfl, ht, hbefore⟩ := first_option present
  obtain ⟨value, rfl⟩ : ∃ value, t = .id value := by
    cases t <;> first | exact ⟨_, rfl⟩ | cases ht
  refine ⟨before, value, after, rfl, fun u hu hnew => ?_⟩
  obtain ⟨first, later, rfl⟩ := List.append_of_mem hu
  rw [List.append_assoc, List.cons_append] at hfold
  obtain ⟨o₁, o₂, hfirst, happly, hafter⟩ := foldlM_split hfold
  rw [serves.outputBounded] at hnew
  exact id_before_new hnew happly hafter serves.ordered
    (foldlM_id hfirst rfl fun t ht => hbefore t (List.mem_append_left _ ht))

/-- The invocation has one of the new options. -/
theorem new_option_present (hfold : tokens.foldlM Token.apply {} = .ok o) (serves : o.Serves server)
    (hnew : (Mode.server server).selects = true) : ∃ t ∈ tokens, t.arm ∈ newArms false := by
  by_contra absent
  push Not at absent
  obtain ⟨hframed, hbounded, hlimit⟩ := foldlM_selects hfold ⟨rfl, rfl, rfl⟩ absent
  simp [Mode.selects, serves.framed, serves.outputBounded, serves.outputLimit, hframed, hbounded,
    hlimit] at hnew

/-- An older loop that meets none of its missing options does what this one does. -/
theorem older_agrees {command : List String} (hfold : tokens.foldlM Token.apply {} = .ok o)
    (hseparator : .separator ∉ removed) (hmisses : ∀ t ∈ tokens, t.arm ∉ removed) :
    parseWith printable (olderArms removed) (tokens.flatMap Token.render ++ "--" :: command) =
      parse printable (tokens.flatMap Token.render ++ "--" :: command) := by
  rw [parse_eq hfold]
  exact parseWith_eq (fun t ht => (mem_olderArms t.arm_mem_all).mpr (hmisses t ht))
    ((mem_olderArms (by decide)).mpr hseparator) hfold

/-- **New options need the strict context.** In a server's command line with framing, a bounded
output or a limit, the identifier with its value comes before the first of them, and with a bounded
output also before every `--group-pidfd`. An older loop that lacks them, or those of them that it
meets, bails at an option that it does not know; it never takes a transport's command from a command
line that selects any of them. -/
theorem new_options_strict {mode : Mode} (h : parse printable args = .ok mode)
    (hnew : mode.selects = true) :
    (∀ server, mode = .server server → ∃ tokens : List Token,
      args = tokens.flatMap Token.render ++ "--" :: server.command ∧
      (∃ before value after, tokens = before ++ .id value :: after ∧
        ∀ t ∈ before, t.arm ∉ newArms server.outputBounded) ∧
      (∃ a ∈ newArms server.outputBounded,
        parseWith printable (olderArms (newArms server.outputBounded)) args =
          bail (unknownOption printable a.name)) ∧
      ∀ removed : List Arm, (∀ a ∈ removed, a ∈ newArms server.outputBounded) →
        (∃ t ∈ tokens, t.arm ∈ removed) →
        ∃ a ∈ removed, parseWith printable (olderArms removed) args =
          bail (unknownOption printable a.name)) ∧
    ∀ removed : List Arm, (∀ a ∈ removed, a ∈ newArms mode.outputBounded) →
      ∀ command nobuffer,
        parseWith printable (olderArms removed) args ≠ .ok (.outer command nobuffer) := by
  by_cases hserver : ∃ server, mode = .server server
  · obtain ⟨server, rfl⟩ := hserver
    obtain ⟨tokens, o, rfl, hfold, serves⟩ := parse_server h
    have rejects (removed : List Arm) (hremoved : ∀ a ∈ removed, a ∈ newArms server.outputBounded)
        (hmeets : ∃ t ∈ tokens, t.arm ∈ removed) :
        ∃ a ∈ removed, parseWith printable (olderArms removed)
          (tokens.flatMap Token.render ++ Arm.separator.name :: server.command) =
            bail (unknownOption printable a.name) :=
      older_rejects hfold serves.ordered (by rwa [← serves.outputBounded]) hmeets
    refine ⟨?_, ?_⟩
    · rintro _ ⟨rfl⟩
      obtain ⟨t, ht, hnew⟩ := new_option_present hfold serves hnew
      exact ⟨tokens, rfl, id_precedes hfold serves,
        rejects _ (fun _ h => h) ⟨t, ht, List.mem_append_left _ (by simpa [newArms] using hnew)⟩,
        rejects⟩
    · intro removed hremoved command nobuffer hold
      by_cases hmeets : ∃ t ∈ tokens, t.arm ∈ removed
      · obtain ⟨a, _, hbail⟩ := rejects removed hremoved hmeets
        rw [hold] at hbail
        cases hbail
      · push Not at hmeets
        have hseparator : Arm.separator ∉ removed := fun h => by
          have := hremoved _ h
          cases hbounded : (Mode.server server).outputBounded <;> simp [hbounded, newArms] at this
        cases hold.symm.trans ((older_agrees hfold hseparator hmeets).trans h)
  · refine ⟨fun server h => absurd ⟨server, h⟩ hserver, fun removed _ command nobuffer hold => ?_⟩
    rcases parse_subcommand h with server | ⟨_, _, rfl⟩ | same
    · exact hserver server
    · cases hnew
    · rw [same] at hold
      cases hold
      cases hnew

/-- Without the loop's order: a cancel request is accepted with its option before the identifier,
and no older loop rejects it. -/
theorem new_options_strict_cancel : ∃ (args : List String) (mode : Mode),
    args = ["cancel", "--output-bounded", "--id", "x"] ∧ parse (fun _ => true) args = .ok mode ∧
      mode.selects = true ∧ mode.outputBounded = true ∧
      (¬∃ before value after, args = before ++ Arm.id.name :: value :: after ∧
        ∀ a ∈ newArms mode.outputBounded, a.name ∉ before) ∧
      ∀ removed error, parseWith (fun _ => true) (olderArms removed) args ≠ bail error := by
  refine ⟨_, .cancel "x" false true, rfl, rfl, rfl, rfl, ?_, ?_⟩
  · rintro ⟨_ | ⟨_, _ | ⟨option, before⟩⟩, value, after, hargs, hbefore⟩
    · exact absurd (List.cons.inj hargs).1 (by decide)
    · exact absurd (List.cons.inj (List.cons.inj hargs).2).1 (by decide)
    · obtain rfl : "--output-bounded" = option := (List.cons.inj (List.cons.inj hargs).2).1
      exact hbefore .outputBounded (by decide) (.tail _ (.head _))
  · intro removed error h
    cases h

/-- The identifier may be spelled like an option. -/
theorem new_options_strict_groupPidfd : ∃ a ∈ newArms true,
    parseWith (fun _ => true) (olderArms (newArms true))
      ["--id", "--framed", "--group-pidfd", "--output-bounded", "--", "cat"] =
        bail (unknownOption (fun _ => true) a.name) := by
  have hfold : [Token.id "--framed", .groupPidfd, .outputBounded].foldlM Token.apply {} =
      .ok { id := some "--framed", groupPidfd := true, framed := true, outputBounded := true } := rfl
  have accepted : parse (fun _ => true)
      ["--id", "--framed", "--group-pidfd", "--output-bounded", "--", "cat"] = .ok (.server {
        id := "--framed", command := ["cat"], groupPidfd := true, framed := true
        outputBounded := true }) := parse_eq hfold
  obtain ⟨_, _, _, rejects, _⟩ := (new_options_strict accepted rfl).1 _ rfl
  exact rejects

end Pipekeep.Cli
