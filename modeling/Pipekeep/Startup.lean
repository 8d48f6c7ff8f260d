import Pipekeep.ServerError
import Pipekeep.Lib.Machine

/-!
# Starting a broker

`start_broker` of the creating proxy and the startup of the broker's `run`, as two processes that
share the session directory. A step is one system call of either; each may fail where the source
lets it, and the broker may crash, or be killed, after any of them.

Of the directory, the model has its presence, the `prelaunch` marker and the broker's log. The guard
of the broker removes it: an ordinary session has one from its first files on, one with finite
output only after its dispatch.
-/

namespace Pipekeep.Startup

/-- The options of a new session, as the command line admits them. `command` is quoted by the
source. -/
structure Launch where
  id : String
  command : String
  socket : String
  groupPidfd : Bool
  nobuffer : Bool
  outputLimit : Option Nat
  bounded : outputLimit.isSome = true → groupPidfd = true ∧ nobuffer = false

structure Dir where
  present : Bool := false
  prelaunch : Bool := false
  log : String := ""
  deriving DecidableEq, Repr

/-! ## The broker -/

/-- The next thing that `run` does. `spawning` is between the fork and the return of `spawn`, and
`guarding` from there to the guard. -/
inductive BrokerStage
  | checking
  | marking
  | preflight
  | permissions
  | stdoutSpool
  | stderrSpool
  | stdoutReplay
  | stderrReplay
  | binding
  | socketPermissions
  | pidFile
  | transition
  | dispatch
  | spawning
  | guarding
  | running
  | exited (status : String)
  deriving DecidableEq, Repr

namespace BrokerStage

def next (l : Launch) : BrokerStage → BrokerStage
  | .checking =>
    if l.outputLimit.isSome then .marking else if l.groupPidfd then .preflight else .permissions
  | .marking => if l.groupPidfd then .preflight else .permissions
  | .preflight => .permissions
  | .permissions => .stdoutSpool
  | .stdoutSpool => .stderrSpool
  | .stderrSpool => if l.outputLimit.isSome then .stdoutReplay else .binding
  | .stdoutReplay => .stderrReplay
  | .stderrReplay => .binding
  | .binding => .socketPermissions
  | .socketPermissions => .pidFile
  | .pidFile => if l.outputLimit.isSome then .transition else .dispatch
  | .transition => .dispatch
  | .dispatch => .spawning
  | .spawning => .guarding
  | .guarding => .running
  | .running => .exited "exit status: 0"
  | .exited status => .exited status

/-- The context of a failure. -/
def context (l : Launch) : BrokerStage → Option String
  | .marking => some "prelaunch setup; workload not started"
  | .preflight => some "group pidfd unsupported; workload not started"
  | .stdoutSpool => some "storage_open stdout; workload not started"
  | .stderrSpool => some "storage_open stderr; workload not started"
  | .stdoutReplay => some "storage_open stdout replay; workload not started"
  | .stderrReplay => some "storage_open stderr replay; workload not started"
  | .binding => some s!"cannot bind broker socket {l.socket}"
  | .transition => some "prelaunch transition; workload not started"
  | .dispatch | .spawning => some s!"cannot start command {l.command}"
  | _ => none

/-- `run` may return an error. -/
def fallible (l : Launch) : BrokerStage → Bool
  | .guarding | .running => !l.groupPidfd
  | .exited _ => false
  | _ => true

/-- The directory's guard is up. -/
def guarded (l : Launch) : BrokerStage → Bool
  | .checking | .marking | .preflight | .exited _ => false
  | .running => true
  | _ => l.outputLimit.isNone

def isExited : BrokerStage → Bool
  | .exited _ => true
  | _ => false

/-- The socket listens. -/
def listening : BrokerStage → Bool
  | .socketPermissions | .pidFile | .transition | .dispatch | .spawning | .guarding | .running =>
    true
  | _ => false

/-- What a step leaves of the directory. -/
def write (l : Launch) (stage : BrokerStage) (dir : Dir) : Dir :=
  match stage with
  | .marking => { dir with prelaunch := true }
  | .transition => { dir with prelaunch := false }
  | .running => if stage.guarded l then {} else dir
  | _ => dir

/-- What `main` prints of an error. -/
def report (l : Launch) (stage : BrokerStage) (error : String) : String :=
  match stage.context l with
  | some context => s!"pipekeep: {context}: {error}\n"
  | none => s!"pipekeep: {error}\n"

end BrokerStage

inductive BrokerAct
  | proceed
  | fail (error : String)
  /-- It is killed, or aborts: nothing unwinds. -/
  | crash (status text : String)
  /-- A line for its log. -/
  | print (text : String)
  deriving DecidableEq, Repr

/-! ## The proxy -/

/-- The next thing that `start_broker` does. -/
inductive ProxyStage
  | policy
  | creating
  | permissions
  | logging
  | marking
  | locating
  | spawning
  | connecting
  | waiting
  | connected
  | failed (error : ServerError)
  deriving DecidableEq, Repr

inductive ProxyAct
  | proceed
  | fail (error : String)
  /-- The socket refuses, before or after the deadline. -/
  | refused (late : Bool)
  /-- `try_wait` finds the broker running, or fails, or finds it gone; then the marker is there, or
  is not seen. -/
  | alive
  | waitError (error : String)
  | gone (marked : Bool)
  deriving DecidableEq, Repr

/-- `spawned` is whether the command was forked. `removed` and `killed` log what the proxy has done
to the directory and to the broker. -/
structure State where
  dir : Dir := {}
  proxy : ProxyStage := .policy
  broker : Option BrokerStage := none
  spawned : Bool := false
  removed : Bool := false
  killed : Bool := false
  deriving DecidableEq, Repr

inductive Act
  | proxy (act : ProxyAct)
  | broker (act : BrokerAct)
  deriving DecidableEq, Repr

namespace State

def append (d : Dir) (text : String) : Dir :=
  if d.present then { d with log := d.log ++ text } else d

def fail (s : State) (error : ServerError) : State :=
  { s with proxy := .failed error }

/-- `remove_dir_all`. -/
def remove (s : State) : State :=
  { s with dir := {}, removed := true }

/-- The proxy removes the directory and reports what the log had, or else this. -/
def dispose (s : State) (otherwise : ServerError) : State :=
  s.remove.fail (if (trim s.dir.log).isEmpty then otherwise else .brokerFailed s.dir.log)

end State

def brokerStep (l : Launch) (s : State) (stage : BrokerStage) : BrokerAct → Option State
  | .proceed =>
    if stage.isExited then none
    else
      some { s with
        dir := stage.write l s.dir
        broker := some (stage.next l)
        spawned := s.spawned || stage == .dispatch }
  | .fail error =>
    if stage.fallible l then
      some { s with
        dir := if stage.guarded l then {} else State.append s.dir (stage.report l error)
        broker := some (.exited "exit status: 1") }
    else
      none
  | .crash status text =>
    if stage.isExited then none
    else
      some { s with
        dir := State.append s.dir text
        broker := some (.exited status) }
  | .print text => if stage.isExited then none else some { s with dir := State.append s.dir text }

def proxyStep (l : Launch) (s : State) (act : ProxyAct) : Option State :=
  match s.proxy, act with
  | .policy, .proceed => some { s with proxy := .creating }
  | .policy, .fail error => if l.groupPidfd then some (s.fail (.unsupported error)) else none
  | .creating, .proceed =>
    if s.dir.present then some (s.fail (.alreadyExists l.id))
    else some { s with dir := { present := true }, proxy := .permissions }
  | .permissions, .proceed => some { s with proxy := .logging }
  | .logging, .proceed =>
    some { s with
      dir := { s.dir with log := "" }
      proxy := if l.outputLimit.isSome then .marking else .locating }
  | .marking, .proceed =>
    some { s with dir := { s.dir with prelaunch := true }, proxy := .locating }
  | .creating, .fail error | .permissions, .fail error | .logging, .fail error
  | .marking, .fail error => some (s.fail (.system error))
  | .locating, .proceed => some { s with proxy := .spawning }
  | .locating, .fail _ => some (s.fail .noExecutable)
  | .spawning, .proceed => some { s with proxy := .connecting, broker := some .checking }
  | .spawning, .fail error => some (s.remove.fail (.system error))
  | .connecting, .proceed =>
    if s.broker.any BrokerStage.listening then some { s with proxy := .connected } else none
  | .connecting, .refused false => some { s with proxy := .waiting }
  | .connecting, .refused true =>
    if l.groupPidfd then some (s.fail .readinessUnknown)
    else some ({ s with killed := true }.dispose .notReady)
  | .waiting, .alive =>
    if s.broker.any BrokerStage.isExited then none else some { s with proxy := .connecting }
  | .waiting, .waitError error =>
    some (s.fail (if l.groupPidfd then .waitFailed error else .system error))
  | .waiting, .gone marked =>
    match s.broker with
    | some (.exited status) =>
      if l.outputLimit.isSome && !marked then some (s.fail (.exitedAfterDispatch status))
      else if l.outputLimit.isSome && !s.dir.prelaunch then none
      else some (s.dispose (.exitedDuringStartup status))
    | _ => none
  | _, _ => none

def step (l : Launch) (s : State) : Act → Option State
  | .proxy act => proxyStep l s act
  | .broker act => s.broker.bind fun stage => brokerStep l s stage act

/-- The directory of another session may have the name. -/
def machine (l : Launch) : Machine State Act where
  init s := ∃ dir : Dir, s = { dir := dir }
  step := step l

end Pipekeep.Startup
