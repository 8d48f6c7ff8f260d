import Pipekeep.Lib.Decimal
import Pipekeep.Lib.Loop
import Pipekeep.ServerError

/-!
# The command line

`parse` with its sub-parsers, and the arguments that `start_broker` hands to the broker. A vector of
arguments is a list. An index, a range or a position past its end is a panic, `outOfRange`.

The option loop has the arms of its match as an argument: a program without some of the options runs
the same loop with fewer arms. Paths are texts, as everything is that a program gets from its
command line.
-/

namespace Pipekeep.Cli

/-- How a parser ends without a mode. -/
inductive Abort
  | bail (error : String)
  | outOfRange
  deriving DecidableEq, Repr

def bail {α : Type} (error : String) : Except Abort α := .error (.bail error)

/-! ## Vectors -/

/-- `args[i]`. -/
def index (args : List String) (i : Nat) : Except Abort String :=
  match args[i]? with
  | some arg => .ok arg
  | none => .error .outOfRange

/-- `args[start..]`. -/
def slice (args : List String) (start : Nat) : Except Abort (List String) :=
  if start ≤ args.length then .ok (args.drop start) else .error .outOfRange

/-- `args.remove(i)`. -/
def remove (args : List String) (i : Nat) : Except Abort (List String) :=
  if i < args.length then .ok (args.eraseIdx i) else .error .outOfRange

/-- `args.drain(first..=last)`. -/
def drain (args : List String) (first last : Nat) : Except Abort (List String) :=
  if first ≤ last + 1 ∧ last + 1 ≤ args.length then
    .ok (args.take first ++ args.drop (last + 1))
  else
    .error .outOfRange

@[simp] theorem remove_zero {arg : String} {rest : List String} :
    remove (arg :: rest) 0 = .ok rest := by
  rw [remove, List.length_cons, if_pos (Nat.succ_pos _)]
  rfl

@[simp] theorem drain_zero_one {arg value : String} {rest : List String} :
    drain (arg :: value :: rest) 0 1 = .ok rest := by
  rw [drain, if_pos ⟨Nat.zero_le _, by simp⟩]
  rfl

/-! ## Modes -/

structure Server where
  id : String
  command : List String
  nobuffer : Bool := false
  force : Bool := false
  groupPidfd : Bool := false
  framed : Bool := false
  outputBounded : Bool := false
  outputLimit : Option Nat := none
  deriving DecidableEq, Repr

structure Broker where
  id : String
  groupPidfd : Bool
  sessionDir : String
  outputLimit : Option Nat
  command : List String
  nobuffer : Bool
  deriving DecidableEq, Repr

inductive Mode
  | outer (command : List String) (nobuffer : Bool)
  | server (server : Server)
  | cancel (id : String) (requireGroupPidfd outputBounded : Bool)
  | session (id : String)
  | pid (id : String)
  | broker (broker : Broker)
  | help
  | version
  | capabilities
  deriving DecidableEq, Repr

/-- `parse_limit`. A byte of the text is an ASCII digit just where its character is. -/
def parseLimit (value : Option String) : Except Abort Nat :=
  match value with
  | none => bail "--output-limit requires decimal bytes"
  | some value =>
    if value.isEmpty || !value.toList.all Char.isDigit then bail "invalid output limit"
    else
      match Decimal.parse u64Max value.toList with
      | .error error => bail error.text
      | .ok limit =>
        if limit > i64Max then bail "output limit exceeds file offset range" else .ok limit

/-! ## The options of a server -/

/-- What the option loop has read. -/
structure Options where
  id : Option String := none
  nobuffer : Bool := false
  force : Bool := false
  groupPidfd : Bool := false
  framed : Bool := false
  outputBounded : Bool := false
  groupBeforeId : Bool := false
  outputLimit : Option Nat := none
  deriving DecidableEq, Repr

/-- The arms of the option loop that match an argument by name. -/
inductive Arm
  | id
  | nobuffer
  | groupPidfd
  | outputBounded
  | outputLimit
  | framed
  | force
  | separator
  deriving DecidableEq, Repr

namespace Arm

def name : Arm → String
  | .id => "--id"
  | .nobuffer => "--nobuffer"
  | .groupPidfd => "--group-pidfd"
  | .outputBounded => "--output-bounded"
  | .outputLimit => "--output-limit"
  | .framed => "--framed"
  | .force => "--force"
  | .separator => "--"

def all : List Arm :=
  [.id, .nobuffer, .groupPidfd, .outputBounded, .outputLimit, .framed, .force, .separator]

/-- The arm that an argument takes. -/
def find (arms : List Arm) (arg : String) : Option Arm :=
  arms.find? (·.name == arg)

variable {arms : List Arm} {a b : Arm} {arg : String}

theorem name_injective (h : a.name = b.name) : a = b := by
  cases a <;> cases b <;> first | rfl | exact absurd h (by decide)

theorem find_name (h : a ∈ arms) : find arms a.name = some a := by
  induction arms with
  | nil => exact absurd h List.not_mem_nil
  | cons b arms ih =>
    rw [find, List.find?_cons]
    split
    next heq => rw [name_injective (beq_iff_eq.mp heq)]
    next hne =>
      rcases List.mem_cons.mp h with rfl | h
      · exact absurd rfl (beq_eq_false_iff_ne.mp hne)
      · exact ih h

theorem of_find (h : find arms arg = some a) : a ∈ arms ∧ arg = a.name := by
  have named := List.find?_some h
  exact ⟨List.mem_of_find?_eq_some h, (beq_iff_eq.mp named).symm⟩

end Arm

section

variable (printable : Char → Bool) (arms : List Arm)

/-- `{other:?}` in the error of the last arm. -/
def unknownOption (arg : String) : String :=
  "unknown server option " ++ debugStr printable arg ++ "; put the command after --"

/-- The body of the arm that an argument takes, or of the last two arms. -/
def optionArm (o : Options) (args : List String) (arg : String) :
    Option Arm → Except Abort (ForInStep (Options × List String))
  | some .id =>
    match args[1]? with
    | none => bail "--id requires a value"
    | some value => do return .yield ({ o with id := some value }, ← drain args 0 1)
  | some .nobuffer => do return .yield ({ o with nobuffer := true }, ← remove args 0)
  | some .groupPidfd => do
    let o := { o with groupBeforeId := o.groupBeforeId || o.id.isNone, groupPidfd := true }
    return .yield (o, ← remove args 0)
  | some .outputBounded =>
    if o.id.isNone then bail "--output-bounded must follow --id ID"
    else do return .yield ({ o with outputBounded := true, framed := true }, ← remove args 0)
  | some .outputLimit =>
    if o.id.isNone then bail "--output-limit must follow --id ID"
    else if o.outputLimit.isSome then bail "duplicate --output-limit"
    else do
      let limit ← parseLimit args[1]?
      return .yield ({ o with outputLimit := some limit }, ← drain args 0 1)
  | some .framed =>
    if o.id.isNone then bail "--framed must follow --id ID"
    else do return .yield ({ o with framed := true }, ← remove args 0)
  | some .force => do return .yield ({ o with force := true }, ← remove args 0)
  | some .separator => do return .done (o, ← remove args 0)
  | none => if o.id.isNone then .ok (.done (o, args)) else bail (unknownOption printable arg)

/-- One turn of the option loop; its `index` stays zero. -/
def optionTurn (s : Options × List String) : Except Abort (ForInStep (Options × List String)) := do
  let arg ← index s.2 0
  optionArm printable s.1 s.2 arg (Arm.find arms arg)

/-! ### Complete options -/

/-- An option with its value. -/
inductive Token
  | id (value : String)
  | nobuffer
  | groupPidfd
  | outputBounded
  | outputLimit (value : String)
  | framed
  | force
  deriving DecidableEq, Repr

namespace Token

def arm : Token → Arm
  | .id _ => .id
  | .nobuffer => .nobuffer
  | .groupPidfd => .groupPidfd
  | .outputBounded => .outputBounded
  | .outputLimit _ => .outputLimit
  | .framed => .framed
  | .force => .force

/-- The arguments of an option. -/
def render : Token → List String
  | .id value => [Arm.id.name, value]
  | .outputLimit value => [Arm.outputLimit.name, value]
  | t => [t.arm.name]

/-- What an option does to those before it. -/
def apply (o : Options) : Token → Except Abort Options
  | .id value => .ok { o with id := some value }
  | .nobuffer => .ok { o with nobuffer := true }
  | .groupPidfd =>
    .ok { o with groupBeforeId := o.groupBeforeId || o.id.isNone, groupPidfd := true }
  | .outputBounded =>
    if o.id.isNone then bail "--output-bounded must follow --id ID"
    else .ok { o with outputBounded := true, framed := true }
  | .outputLimit value =>
    if o.id.isNone then bail "--output-limit must follow --id ID"
    else if o.outputLimit.isSome then bail "duplicate --output-limit"
    else (parseLimit (some value)).map fun limit => { o with outputLimit := some limit }
  | .framed =>
    if o.id.isNone then bail "--framed must follow --id ID" else .ok { o with framed := true }
  | .force => .ok { o with force := true }

theorem arm_mem_all (t : Token) : t.arm ∈ Arm.all := by
  cases t <;> simp [arm, Arm.all]

theorem render_eq_cons (t : Token) : ∃ tail, t.render = t.arm.name :: tail := by
  cases t <;> exact ⟨_, rfl⟩

end Token

variable {printable arms}

/-- A turn takes a complete option. -/
theorem optionTurn_token {t : Token} {o : Options} {rest : List String} (h : t.arm ∈ arms) :
    optionTurn printable arms (o, t.render ++ rest) =
      (t.apply o).map fun o => .yield (o, rest) := by
  have found := Arm.find_name h
  obtain ⟨tail, htail⟩ := t.render_eq_cons
  have turn : optionTurn printable arms (o, t.render ++ rest) =
      optionArm printable o (t.render ++ rest) t.arm.name (some t.arm) := by
    rw [← found, htail]
    rfl
  rw [turn]
  cases t with
  | id value =>
    simp only [Token.render, optionArm, Token.arm, List.cons_append, List.nil_append,
      drain_zero_one, List.getElem?_cons_succ, List.getElem?_cons_zero]
    rfl
  | nobuffer | groupPidfd | force =>
    simp only [Token.render, optionArm, Token.arm, List.cons_append, List.nil_append, remove_zero]
    rfl
  | outputBounded | framed =>
    simp only [Token.render, optionArm, Token.arm, List.cons_append, List.nil_append, remove_zero,
      Token.apply]
    split <;> rfl
  | outputLimit value =>
    simp only [Token.render, optionArm, Token.arm, List.cons_append, List.nil_append,
      drain_zero_one, List.getElem?_cons_succ, List.getElem?_cons_zero, Token.apply]
    split
    · rfl
    · split
      · rfl
      · cases parseLimit (some value) <;> rfl

/-- What an argument of an arm begins: an option, unless its value is missing, or the separator. -/
theorem begins_option (a : Arm) (rest : List String) :
    a = .separator ∨ (∃ (t : Token) (tail : List String),
      t.arm = a ∧ a.name :: rest = t.render ++ tail) ∨
      rest = [] ∧ (a = .id ∨ a = .outputLimit) := by
  cases a with
  | separator => exact .inl rfl
  | id =>
    cases rest with
    | nil => exact .inr (.inr ⟨rfl, .inl rfl⟩)
    | cons value tail => exact .inr (.inl ⟨.id value, tail, rfl, rfl⟩)
  | outputLimit =>
    cases rest with
    | nil => exact .inr (.inr ⟨rfl, .inr rfl⟩)
    | cons value tail => exact .inr (.inl ⟨.outputLimit value, tail, rfl, rfl⟩)
  | nobuffer => exact .inr (.inl ⟨.nobuffer, rest, rfl, rfl⟩)
  | groupPidfd => exact .inr (.inl ⟨.groupPidfd, rest, rfl, rfl⟩)
  | outputBounded => exact .inr (.inl ⟨.outputBounded, rest, rfl, rfl⟩)
  | framed => exact .inr (.inl ⟨.framed, rest, rfl, rfl⟩)
  | force => exact .inr (.inl ⟨.force, rest, rfl, rfl⟩)

/-- All that a turn can do: take an option, break at the separator or before a command, or bail. -/
theorem optionTurn_cases (printable : Char → Bool) (arms : List Arm) (o : Options) (arg : String)
    (rest : List String) :
    (∃ (t : Token) (tail : List String), t.arm ∈ arms ∧ arg :: rest = t.render ++ tail ∧
      optionTurn printable arms (o, arg :: rest) = (t.apply o).map fun o => .yield (o, tail)) ∨
    (arg = Arm.separator.name ∧ optionTurn printable arms (o, arg :: rest) = .ok (.done (o, rest))) ∨
    (Arm.find arms arg = none ∧ o.id = none ∧
      optionTurn printable arms (o, arg :: rest) = .ok (.done (o, arg :: rest))) ∨
    ∃ error, optionTurn printable arms (o, arg :: rest) = bail error := by
  have turn : optionTurn printable arms (o, arg :: rest) =
      optionArm printable o (arg :: rest) arg (Arm.find arms arg) := rfl
  cases found : Arm.find arms arg with
  | none =>
    rw [turn, found, optionArm]
    cases hid : o.id with
    | none => exact .inr (.inr (.inl ⟨rfl, rfl, rfl⟩))
    | some id => exact .inr (.inr (.inr ⟨_, rfl⟩))
  | some a =>
    obtain ⟨hmem, rfl⟩ := Arm.of_find found
    rcases begins_option a rest with rfl | ⟨t, tail, rfl, heq⟩ | ⟨rfl, rfl | rfl⟩
    · exact .inr (.inl ⟨rfl, by rw [turn, found, optionArm, remove_zero]; rfl⟩)
    · exact .inl ⟨t, tail, hmem, heq, by rw [heq]; exact optionTurn_token hmem⟩
    · exact .inr (.inr (.inr ⟨_, by rw [turn, found]; rfl⟩))
    · rw [turn, found]
      simp only [optionArm]
      split
      · exact .inr (.inr (.inr ⟨_, rfl⟩))
      · split
        · exact .inr (.inr (.inr ⟨_, rfl⟩))
        · exact .inr (.inr (.inr ⟨_, rfl⟩))

theorem optionTurn_yield {s : Options × List String} {o' : Options} {rest : List String}
    (h : optionTurn printable arms s = .ok (.yield (o', rest))) :
    ∃ t : Token, t.arm ∈ arms ∧ s.2 = t.render ++ rest ∧ t.apply s.1 = .ok o' := by
  obtain ⟨o, args⟩ := s
  cases args with
  | nil => cases h
  | cons arg args =>
    rcases optionTurn_cases printable arms o arg args with
      ⟨t, tail, hmem, heq, hturn⟩ | ⟨_, hturn⟩ | ⟨_, _, hturn⟩ | ⟨_, hturn⟩
    · obtain ⟨next, happly, heq'⟩ := map_eq_ok.mp (hturn.symm.trans h)
      cases heq'
      exact ⟨t, hmem, heq, happly⟩
    · cases hturn.symm.trans h
    · cases hturn.symm.trans h
    · cases hturn.symm.trans h

variable (printable arms)

/-- The `while` of `parse`. -/
def optionLoop : Loop Abort (Options × List String) where
  guard s := decide (0 < s.2.length)
  body := optionTurn printable arms
  size s := s.2.length
  shrinks {s t} _ h := by
    obtain ⟨token, _, hargs, _⟩ := optionTurn_yield h
    obtain ⟨tail, htail⟩ := token.render_eq_cons
    rw [hargs, htail, List.cons_append, List.length_cons, List.length_append]
    omega

/-! ## The broker's options -/

structure BrokerOptions where
  id : Option String := none
  sessionDir : Option String := none
  outputLimit : Option Nat := none
  groupPidfd : Bool := false
  nobuffer : Bool := false
  deriving DecidableEq, Repr

/-- The arm of `parse_broker` that an argument takes, at its index. -/
def brokerArm (args : List String) (o : BrokerOptions) (i : Nat) :
    String → Except Abort (ForInStep (BrokerOptions × Nat))
  | "--id" => .ok (.yield ({ o with id := args[i + 1]? }, i + 2))
  | "--group-pidfd" => .ok (.yield ({ o with groupPidfd := true }, i + 1))
  | "--output-limit" =>
    if o.outputLimit.isSome then bail "duplicate --output-limit"
    else do
      let limit ← parseLimit args[i + 1]?
      return .yield ({ o with outputLimit := some limit }, i + 2)
  | "--session-dir" => .ok (.yield ({ o with sessionDir := args[i + 1]? }, i + 2))
  | "--nobuffer" => .ok (.yield ({ o with nobuffer := true }, i + 1))
  | "--" => .ok (.done (o, i + 1))
  | other => bail ("unknown broker option " ++ debugStr printable other)

def brokerTurn (args : List String) (s : BrokerOptions × Nat) :
    Except Abort (ForInStep (BrokerOptions × Nat)) := do
  let arg ← index args s.2
  brokerArm printable args s.1 s.2 arg

/-! ### Complete options of the broker -/

inductive BrokerToken
  | id (value : String)
  | sessionDir (value : String)
  | outputLimit (value : String)
  | groupPidfd
  | nobuffer
  deriving DecidableEq, Repr

namespace BrokerToken

def render : BrokerToken → List String
  | .id value => ["--id", value]
  | .sessionDir value => ["--session-dir", value]
  | .outputLimit value => ["--output-limit", value]
  | .groupPidfd => ["--group-pidfd"]
  | .nobuffer => ["--nobuffer"]

def apply (o : BrokerOptions) : BrokerToken → Except Abort BrokerOptions
  | .id value => .ok { o with id := some value }
  | .sessionDir value => .ok { o with sessionDir := some value }
  | .outputLimit value =>
    if o.outputLimit.isSome then bail "duplicate --output-limit"
    else (parseLimit (some value)).map fun limit => { o with outputLimit := some limit }
  | .groupPidfd => .ok { o with groupPidfd := true }
  | .nobuffer => .ok { o with nobuffer := true }

end BrokerToken

/-- The options that are left without a value where the list ends. -/
def valueless : List String := ["--id", "--session-dir"]

section

variable {printable} {args rest : List String} {o : BrokerOptions} {i : Nat}

theorem getElem?_of_drop {n : Nat} (h : args.drop i = rest) : args[i + n]? = rest[n]? := by
  rw [← h, List.getElem?_drop]

/-- A turn takes a complete option. -/
theorem brokerTurn_token {t : BrokerToken} (h : args.drop i = t.render ++ rest) :
    brokerTurn printable args (o, i) =
      (t.apply o).map fun o => .yield (o, i + t.render.length) := by
  have first := getElem?_of_drop (n := 0) h
  have second := getElem?_of_drop (n := 1) h
  rw [Nat.add_zero] at first
  cases t with
  | id value | sessionDir value =>
    simp only [BrokerToken.render, List.cons_append, List.nil_append, List.getElem?_cons_zero,
      List.getElem?_cons_succ] at first second
    simp only [brokerTurn, index, first, bind, Except.bind, brokerArm, second]
    rfl
  | groupPidfd | nobuffer =>
    simp only [BrokerToken.render, List.cons_append, List.getElem?_cons_zero] at first
    simp only [brokerTurn, index, first, bind, Except.bind, brokerArm]
    rfl
  | outputLimit value =>
    simp only [BrokerToken.render, List.cons_append, List.nil_append, List.getElem?_cons_zero,
      List.getElem?_cons_succ] at first second
    simp only [brokerTurn, index, first, bind, Except.bind, brokerArm, second, BrokerToken.apply]
    split
    · rfl
    · cases parseLimit (some value) <;> rfl

/-- All that a turn can do: take an option, with its value or past the end, break, or bail. -/
theorem brokerTurn_cases (printable : Char → Bool) (o : BrokerOptions) {arg : String}
    (h : args.drop i = arg :: rest) :
    (∃ (t : BrokerToken) (tail : List String), arg :: rest = t.render ++ tail ∧
      brokerTurn printable args (o, i) =
        (t.apply o).map fun o => .yield (o, i + t.render.length)) ∨
    (arg = "--" ∧ brokerTurn printable args (o, i) = .ok (.done (o, i + 1))) ∨
    (rest = [] ∧ arg ∈ valueless ∧ ∃ o', brokerTurn printable args (o, i) =
      .ok (.yield (o', i + 2))) ∨
    ∃ error, brokerTurn printable args (o, i) = bail error := by
  have token {t : BrokerToken} {tail : List String} (heq : arg :: rest = t.render ++ tail) :
      brokerTurn printable args (o, i) =
        (t.apply o).map fun o => .yield (o, i + t.render.length) :=
    brokerTurn_token (h.trans heq)
  have first := getElem?_of_drop (n := 0) h
  have second := getElem?_of_drop (n := 1) h
  rw [Nat.add_zero, List.getElem?_cons_zero] at first
  rw [List.getElem?_cons_succ] at second
  have turn : brokerTurn printable args (o, i) = brokerArm printable args o i arg := by
    simp only [brokerTurn, index, first, bind, Except.bind]
  rw [brokerArm.eq_def] at turn
  split at turn
  · cases rest with
    | nil => exact .inr (.inr (.inl ⟨rfl, by decide, _, turn⟩))
    | cons value tail => exact .inl ⟨.id value, tail, rfl, token rfl⟩
  · exact .inl ⟨.groupPidfd, rest, rfl, token rfl⟩
  · cases rest with
    | nil =>
      rw [second] at turn
      split at turn
      · exact .inr (.inr (.inr ⟨_, turn⟩))
      · exact .inr (.inr (.inr ⟨_, turn⟩))
    | cons value tail => exact .inl ⟨.outputLimit value, tail, rfl, token rfl⟩
  · cases rest with
    | nil => exact .inr (.inr (.inl ⟨rfl, by decide, _, turn⟩))
    | cons value tail => exact .inl ⟨.sessionDir value, tail, rfl, token rfl⟩
  · exact .inl ⟨.nobuffer, rest, rfl, token rfl⟩
  · exact .inr (.inl ⟨rfl, turn⟩)
  · exact .inr (.inr (.inr ⟨_, turn⟩))

/-- A turn goes on. -/
theorem brokerTurn_yield {s t : BrokerOptions × Nat} (guarded : s.2 < args.length)
    (h : brokerTurn printable args s = .ok (.yield t)) : s.2 < t.2 := by
  obtain ⟨o, i⟩ := s
  have split : args.drop i = args[i] :: args.drop (i + 1) := List.drop_eq_getElem_cons guarded
  rcases brokerTurn_cases printable o split with
    ⟨token, tail, _, hturn⟩ | ⟨_, hturn⟩ | ⟨_, _, o', hturn⟩ | ⟨_, hturn⟩
  · have longer : 0 < token.render.length := by cases token <;> exact Nat.succ_pos _
    obtain ⟨next, -, heq⟩ := map_eq_ok.mp (hturn.symm.trans h)
    cases heq
    exact Nat.lt_add_of_pos_right longer
  · cases hturn.symm.trans h
  · cases hturn.symm.trans h
    exact Nat.lt_add_of_pos_right (Nat.succ_pos _)
  · cases hturn.symm.trans h

end

/-- The `while` of `parse_broker`. -/
def brokerLoop (args : List String) : Loop Abort (BrokerOptions × Nat) where
  guard s := decide (s.2 < args.length)
  body := brokerTurn printable args
  size s := args.length - s.2
  shrinks {s t} guarded h := by
    have inside := of_decide_eq_true guarded
    have := brokerTurn_yield inside h
    omega

/-! ## The parsers -/

def parseSession (args : List String) : Except Abort Mode := do
  if args.length ≠ 2 then bail "expected --id ID"
  else if (← index args 0) ≠ "--id" then bail "expected --id ID"
  else return .session (← index args 1)

/-- The end of `parse_control`, after its flags are gone. -/
def controlMode (cancel outputBounded requireGroupPidfd : Bool) (args : List String) :
    Except Abort Mode := do
  if args.length ≠ 2 then bail "expected --id ID [--require-group-pidfd for cancel]"
  else if (← index args 0) ≠ "--id" then
    bail "expected --id ID [--require-group-pidfd for cancel]"
  else if cancel then return .cancel (← index args 1) requireGroupPidfd outputBounded
  else return .pid (← index args 1)

def parseControl (args : List String) (cancel : Bool) : Except Abort Mode :=
  let outputBounded := cancel && args.any (· == "--output-bounded")
  let args := if outputBounded then args.filter (· != "--output-bounded") else args
  let requireGroupPidfd := cancel && args.any (· == "--require-group-pidfd")
  let args := if requireGroupPidfd then args.filter (· != "--require-group-pidfd") else args
  controlMode cancel outputBounded requireGroupPidfd args

/-- What `parse_broker` makes of the options and the command. -/
def BrokerOptions.mode (o : BrokerOptions) (command : List String) : Except Abort Mode :=
  if command.isEmpty then bail "broker command is missing"
  else if o.outputLimit.isSome && (!o.groupPidfd || o.nobuffer) then
    bail "finite output requires buffered group pidfd session"
  else
    match o.id, o.sessionDir with
    | none, _ => bail "broker ID is missing"
    | some _, none => bail "broker session directory is missing"
    | some id, some sessionDir =>
      .ok (.broker {
        id := id
        groupPidfd := o.groupPidfd
        sessionDir := sessionDir
        outputLimit := o.outputLimit
        command := command
        nobuffer := o.nobuffer })

def parseBroker (args : List String) : Except Abort Mode := do
  let (o, i) ← (brokerLoop printable args).run ({}, 0)
  let command ← slice args i
  o.mode command

def parseCapabilities : List String → Except Abort Mode
  | [] => bail "capabilities requires --json; only machine-readable output is provided"
  | [flag] =>
    if flag = "--json" then .ok .capabilities
    else bail "capabilities accepts exactly one argument: --json"
  | _ => bail "capabilities accepts exactly one argument: --json"

/-- What `parse` makes of the options and the arguments that its loop leaves. -/
def Options.mode (o : Options) (args : List String) : Except Abort Mode :=
  if o.framed && (o.nobuffer || o.id.isNone) then
    bail "--framed requires --id and buffered sessions (no --nobuffer)"
  else if o.outputBounded && o.groupBeforeId then
    bail "finite output requires --id ID before --group-pidfd"
  else if o.outputLimit.isSome && (!o.outputBounded || !o.groupPidfd || o.nobuffer) then
    bail "--output-limit requires --output-bounded, --group-pidfd and buffering"
  else if args.isEmpty then bail "a command is required"
  else
    match o.id with
    | some id =>
      .ok (.server {
        id := id
        command := args
        nobuffer := o.nobuffer
        force := o.force
        groupPidfd := o.groupPidfd
        framed := o.framed
        outputBounded := o.outputBounded
        outputLimit := o.outputLimit })
    | none =>
      if o.groupPidfd then bail "--group-pidfd requires --id and new-session creation"
      else if o.force then bail "--force requires --id and only applies to attach-only sessions"
      else .ok (.outer args o.nobuffer)

/-- `parse`, with the arms that its option loop has. -/
def parseWith (args : List String) : Except Abort Mode := do
  if args.isEmpty then return .help
  else
    match ← index args 0 with
    | "--help" | "-h" => return .help
    | "--version" | "-V" => return .version
    | "cancel" => parseControl (← slice args 1) true
    | "session" => parseSession (← slice args 1)
    | "pid" => parseControl (← slice args 1) false
    | "capabilities" => parseCapabilities (← slice args 1)
    | "__broker" => parseBroker printable (← slice args 1)
    | _ =>
      let (o, args) ← (optionLoop printable arms).run ({}, args)
      o.mode args

def parse (args : List String) : Except Abort Mode :=
  parseWith printable Arm.all args

end

/-- The arguments that `start_broker` gives to the broker's program. -/
def brokerArgs (server : Server) (sessionDir : String) : List String :=
  ["__broker", "--id", server.id, "--session-dir", sessionDir] ++
    (if server.groupPidfd then ["--group-pidfd"] else []) ++
    server.outputLimit.elim [] (fun limit => ["--output-limit", toString limit]) ++
    (if server.nobuffer then ["--nobuffer"] else []) ++
    ["--"] ++ server.command

end Pipekeep.Cli
