import Pipekeep.Lib.Json
import Pipekeep.Output

/-!
# What serde writes

The texts of an exit and of a fact, as their derived serializers write them: members in the order
of the fields, enumerations in snake case, `Collection` and `GroupControl` as a `state` with its
`cause`. Every character of these texts is ASCII.
-/

namespace Pipekeep

open Json

namespace StopReason

def name : StopReason → String
  | .outputLimit => "output_limit"
  | .storageFault => "storage_fault"
  | .outputReadFault => "output_read_fault"
  | .pipeSetupFault => "pipe_setup_fault"

end StopReason

namespace StorageFault

def name : StorageFault → String
  | .write => "write"
  | .partialWrite => "partial_write"
  | .flush => "flush"
  | .replayOpen => "replay_open"
  | .replayRead => "replay_read"
  | .workerLost => "worker_lost"

end StorageFault

namespace CollectionCause

def name : CollectionCause → String
  | .tailBytes => "tail_bytes"
  | .tailTime => "tail_time"
  | .operationDeadline => "operation_deadline"
  | .groupUnconfirmed => "group_unconfirmed"
  | .storagePending => "storage_pending"
  | .outputRead => "output_read"
  | .pipeSetup => "pipe_setup"

end CollectionCause

namespace ControlFault

def name : ControlFault → String
  | .unavailable => "unavailable"
  | .wait => "wait"
  | .signal => "signal"
  | .deadline => "deadline"

end ControlFault

/-! ## Texts -/

/-- A tagged enumeration: its state, and the cause of one that has it. -/
def tagged (state : String) (cause : Option String) : List Char :=
  object (("state", string state) :: cause.elim [] fun cause => [("cause", string cause)])

def Collection.toJson : Collection → List Char
  | .reading => tagged "reading" none
  | .eof => tagged "eof" none
  | .unconfirmed cause => tagged "unconfirmed" (some cause.name)

def GroupControl.toJson : GroupControl → List Char
  | .ready => tagged "ready" none
  | .running => tagged "running" none
  | .settled => tagged "settled" none
  | .unconfirmed cause => tagged "unconfirmed" (some cause.name)

/-- Absent members are skipped. -/
def ExitResult.toJson (e : ExitResult) : List Char :=
  object ((e.code.elim [] fun code => [("code", integer code)]) ++
    e.signal.elim [] fun signal => [("signal", integer signal)])

def StreamFact.toJson (s : StreamFact) : List Char :=
  object [
    ("retained", number s.retained),
    ("reserved", number s.reserved),
    ("discarded", number s.discarded),
    ("storage_fault", optional (string ·.name) s.storageFault),
    ("collection", s.collection.toJson),
    ("prefix_complete", boolean s.prefixComplete)]

def OutputFact.toJson (p : OutputFact) : List Char :=
  object [
    ("limit", number p.limit),
    ("first_stop", optional (string ·.name) p.firstStop),
    ("stdout", p.streams.stdout.toJson),
    ("stderr", p.streams.stderr.toJson),
    ("io_inflight", number p.ioInflight),
    ("sealed", boolean p.sealed),
    ("tail_read", number p.tailRead),
    ("leader_exit", optional ExitResult.toJson p.leaderExit),
    ("original_group_absent", boolean p.originalGroupAbsent),
    ("group_control", p.groupControl.toJson)]

/-- `serde_json::to_vec`, of an ASCII text. -/
def toVec (text : List Char) : List UInt8 := text.map Char.toUInt8

theorem length_toVec (text : List Char) : (toVec text).length = text.length :=
  List.length_map _

/-! ## Lengths -/

theorem length_collection_le (c : Collection) : c.toJson.length ≤ 64 := by
  rcases c with _ | _ | cause
  · decide
  · decide
  · cases cause <;> decide

theorem length_groupControl_le (c : GroupControl) : c.toJson.length ≤ 64 := by
  rcases c with _ | _ | _ | cause
  · decide
  · decide
  · decide
  · cases cause <;> decide

/-- A `u64` has at most twenty digits. -/
theorem length_u64_le {n : Nat} (h : n ≤ u64Max) : (number n).length ≤ 20 :=
  length_number_le 20 (Nat.lt_of_le_of_lt h (by decide)) (by decide)

theorem length_exit_le {e : ExitResult} (h : e.validate = .ok ()) : e.toJson.length ≤ 32 := by
  rcases ExitResult.validate_eq_ok.mp h with ⟨code, rfl, hlow, hhigh⟩ | ⟨signal, rfl, hlow, hhigh⟩
  · have hcode : (integer code).length ≤ 4 :=
      length_integer_le 3 (by omega) (by decide)
    have hsize := length_object_le [("code", integer code)]
    simp only [size, String.reduceToList, List.length_cons, List.length_nil] at hsize
    exact Nat.le_trans hsize (by omega)
  · have hsignal : (integer signal).length ≤ 4 :=
      length_integer_le 3 (by omega) (by decide)
    have hsize := length_object_le [("signal", integer signal)]
    simp only [size, String.reduceToList, List.length_cons, List.length_nil] at hsize
    exact Nat.le_trans hsize (by omega)

theorem length_stream_le {s : StreamFact} (hretained : s.retained ≤ u64Max)
    (hreserved : s.reserved ≤ u64Max) (hdiscarded : s.discarded ≤ u64Max) :
    s.toJson.length ≤ 256 := by
  have hfault : (optional (string ·.name) s.storageFault).length ≤ 20 :=
    length_optional_le (by decide) fun fault _ => by cases fault <;> decide
  have := length_u64_le hretained
  have := length_u64_le hreserved
  have := length_u64_le hdiscarded
  have := length_collection_le s.collection
  have := length_boolean_le s.prefixComplete
  have hsize := length_object_le [
    ("retained", number s.retained),
    ("reserved", number s.reserved),
    ("discarded", number s.discarded),
    ("storage_fault", optional (string ·.name) s.storageFault),
    ("collection", s.collection.toJson),
    ("prefix_complete", boolean s.prefixComplete)]
  simp only [size, String.reduceToList, List.length_cons, List.length_nil] at hsize
  exact Nat.le_trans hsize (by omega)

/-- The numbers of a fact fit their type and its exit is one. -/
structure OutputFact.Typed (p : OutputFact) : Prop where
  limit : p.limit ≤ u64Max
  retained : ∀ st, (p.streams.get st).retained ≤ u64Max
  reserved : ∀ st, (p.streams.get st).reserved ≤ u64Max
  discarded : ∀ st, (p.streams.get st).discarded ≤ u64Max
  ioInflight : p.ioInflight ≤ u64Max
  tailRead : p.tailRead ≤ u64Max
  leaderExit : ∀ e, p.leaderExit = some e → e.validate = .ok ()

/-- A fact fits its frame. -/
theorem OutputFact.Typed.length_toJson_le {p : OutputFact} (h : p.Typed) :
    p.toJson.length ≤ 4096 := by
  have hstop : (optional (string ·.name) p.firstStop).length ≤ 20 :=
    length_optional_le (by decide) fun reason _ => by cases reason <;> decide
  have hexit : (optional ExitResult.toJson p.leaderExit).length ≤ 32 :=
    length_optional_le (by decide) fun e he => length_exit_le (h.leaderExit e he)
  have := length_u64_le h.limit
  have := length_stream_le (h.retained .stdout) (h.reserved .stdout) (h.discarded .stdout)
  have := length_stream_le (h.retained .stderr) (h.reserved .stderr) (h.discarded .stderr)
  have := length_u64_le h.ioInflight
  have := length_boolean_le p.sealed
  have := length_u64_le h.tailRead
  have := length_boolean_le p.originalGroupAbsent
  have := length_groupControl_le p.groupControl
  have hsize := length_object_le [
    ("limit", number p.limit),
    ("first_stop", optional (string ·.name) p.firstStop),
    ("stdout", p.streams.stdout.toJson),
    ("stderr", p.streams.stderr.toJson),
    ("io_inflight", number p.ioInflight),
    ("sealed", boolean p.sealed),
    ("tail_read", number p.tailRead),
    ("leader_exit", optional ExitResult.toJson p.leaderExit),
    ("original_group_absent", boolean p.originalGroupAbsent),
    ("group_control", p.groupControl.toJson)]
  simp only [size, String.reduceToList, List.length_cons, List.length_nil, PerStream.get_stdout,
    PerStream.get_stderr] at *
  exact Nat.le_trans hsize (by omega)

theorem length_toJson_pos (p : OutputFact) : 1 ≤ p.toJson.length := Nat.succ_le_succ (Nat.zero_le _)

end Pipekeep
