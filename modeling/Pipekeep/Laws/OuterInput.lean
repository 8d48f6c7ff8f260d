import Pipekeep.Lib.Parties
import Pipekeep.Lib.Slice
import Pipekeep.Outer

/-!
# What the outer wrapper tells the broker of its input

`Held` ties the input buffer to what local stdin gave, `Reads` the reader's stage to both. Raw bytes
carry no offsets: `Numbered` says that an attempt's sender and its proxy, which count from one
number of the opening, still agree with local stdin on every byte. EOFs are reported from the
buffer's flag, which does not say why the reader has returned: `eof_truthful` is the condition under
which they are the end of local stdin.
-/

namespace Pipekeep.Outer

open Slice

variable {s t : State}

/-! ## The buffer -/

/-- What the buffer holds of the input. -/
structure Held (b : InputBuffer) (input : List UInt8) : Prop where
  stop : b.metadata.stop ≤ input.length
  file : ∀ file, b.file = some file → input.take b.metadata.stop <+: file
  live : b.file = none → b.metadata.live = stretch input b.metadata.liveBase b.metadata.stop
  base : b.file = none → b.metadata.liveBase + b.metadata.live.length = b.metadata.stop
  window : b.file = none → b.metadata.liveBase ≠ 0 → b.metadata.live ≠ []

/-- Trimming drops what exceeds the window's capacity, and moves its base by as much. -/
theorem trimLive_eq (live : List UInt8) (base : Nat) : trimLive live base =
    (live.drop (live.length - liveStdinCapacity), base + (live.length - liveStdinCapacity)) := by
  induction live generalizing base with
  | nil =>
    rw [trimLive, List.drop_nil]
    exact Prod.ext rfl (by simp only [List.length_nil, Nat.zero_sub, Nat.add_zero])
  | cons b live ih =>
    rw [trimLive]
    split
    · rename_i hover
      have hover : live.length + 1 > liveStdinCapacity := hover
      rw [ih, List.length_cons,
        show live.length + 1 - liveStdinCapacity = live.length - liveStdinCapacity + 1 by omega,
        List.drop_succ_cons]
      exact Prod.ext rfl (by dsimp only; omega)
    · rename_i hfits
      have hfits : ¬(live.length + 1 > liveStdinCapacity) := hfits
      have hzero : (b :: live).length - liveStdinCapacity = 0 := by
        rw [List.length_cons]
        omega
      rw [hzero, List.drop_zero, Nat.add_zero]

/-- A part of the input is what local stdin gave there, and lies behind the position only where the
window no longer holds it. -/
theorem next_data {b : InputBuffer} {input : List UInt8} (h : Held b input) {position read : Nat}
    {offset : Nat} {data : List UInt8} (hn : b.next position read = .data offset data) :
    offset + data.length ≤ b.metadata.stop ∧
      stretch input offset (offset + data.length) = data ∧
      (offset ≠ position → b.file = none ∧ position < b.metadata.liveBase) := by
  have hstop := h.stop
  unfold InputBuffer.next at hn
  dsimp only at hn
  split at hn
  · rename_i file hfile
    split at hn
    · rename_i hbefore
      cases hn
      have htake := h.file file hfile
      obtain ⟨rest, rfl⟩ := htake
      have hlen : (input.take b.metadata.stop).length = b.metadata.stop := by
        rw [List.length_take]
        omega
      -- The part lies within what has been counted, whatever else is in the file.
      have hpart : ∀ n ≤ b.metadata.stop - position,
          ((input.take b.metadata.stop ++ rest).drop position).take n =
            stretch input position (position + n) := by
        intro n hn
        have hwhole : stretch (input.take b.metadata.stop ++ rest) position (position + n) =
            stretch (input.take b.metadata.stop) position (position + n) :=
          stretch_of_isPrefix (List.prefix_append _ _) (by omega)
        have hinput : stretch input position (position + n) =
            stretch (input.take b.metadata.stop) position (position + n) :=
          stretch_of_isPrefix (List.take_prefix _ _) (by omega)
        rw [hinput, ← hwhole, stretch, Nat.add_sub_cancel_left]
      rw [hpart _ (by omega)]
      have hlength : (stretch input position
          (position + min read (min (b.metadata.stop - position) chunkSize))).length =
          min read (min (b.metadata.stop - position) chunkSize) := by
        rw [length_stretch (by omega), Nat.add_sub_cancel_left]
      rw [hlength]
      exact ⟨by omega, rfl, fun hne => absurd rfl hne⟩
    · split at hn <;> cases hn
  · rename_i hfile
    split at hn
    · rename_i hbefore
      cases hn
      have hlive := h.live hfile
      have hbase := h.base hfile
      have hoffset : b.metadata.liveBase +
          (max position b.metadata.liveBase - b.metadata.liveBase) =
          max position b.metadata.liveBase := by omega
      rw [hlive, drop_stretch, hoffset, take_stretch _ (by omega)]
      have hlength : (stretch input (max position b.metadata.liveBase)
          (max position b.metadata.liveBase +
            min (b.metadata.stop - max position b.metadata.liveBase) chunkSize)).length =
          min (b.metadata.stop - max position b.metadata.liveBase) chunkSize := by
        rw [length_stretch (by omega), Nat.add_sub_cancel_left]
      rw [hlength]
      exact ⟨by omega, rfl, fun hne => ⟨hfile, by omega⟩⟩
    · split at hn <;> cases hn

/-- Below its base the window is asked for its first byte. -/
theorem next_window {b : InputBuffer} {input : List UInt8} (h : Held b input)
    (hfile : b.file = none) {position : Nat} (below : position < b.metadata.liveBase) (read : Nat) :
    ∃ data, b.next position read = .data b.metadata.liveBase data := by
  have hbase := h.base hfile
  have hlive := List.length_pos_iff.mpr (h.window hfile (by omega))
  have hmax : max position b.metadata.liveBase = b.metadata.liveBase := by omega
  unfold InputBuffer.next
  rw [hfile]
  dsimp only
  rw [hmax, if_pos (by omega)]
  exact ⟨_, rfl⟩

/-- What `next` says of the end is the buffer's flag. -/
theorem next_eof {b : InputBuffer} {position read offset : Nat}
    (hn : b.next position read = .eof offset) :
    b.metadata.eof = true ∧ offset = b.metadata.stop := by
  have rest : ∀ {part : InputPart}, part = (if b.metadata.eof then .eof b.metadata.stop else .wait) →
      part = .eof offset → b.metadata.eof = true ∧ offset = b.metadata.stop := by
    rintro part rfl hpart
    split at hpart
    · rename_i heof
      cases hpart
      exact ⟨heof, rfl⟩
    · cases hpart
  unfold InputBuffer.next at hn
  dsimp only at hn
  split at hn
  · split at hn
    · cases hn
    · exact rest rfl hn
  · split at hn
    · cases hn
    · exact rest rfl hn

/-! ## The reader -/

/-- What the buffer holds it still holds when more was read. -/
theorem Held.grow {b : InputBuffer} {input input' : List UInt8} (h : Held b input)
    (more : input <+: input') : Held b input' where
  stop := Nat.le_trans h.stop more.length_le
  file file hfile := by
    obtain ⟨rest, rfl⟩ := more
    rw [List.take_append_of_le_length h.stop]
    exact h.file file hfile
  live hfile := by
    rw [stretch_of_isPrefix more h.stop]
    exact h.live hfile
  base := h.base
  window := h.window

/-- More was written to the file, and the flag may have been set. -/
theorem Held.spool {b : InputBuffer} {input : List UInt8} (h : Held b input)
    (added : List UInt8) : Held { b with file := b.file.map (· ++ added) } input where
  stop := h.stop
  file file hfile := by
    obtain ⟨file', hfile', rfl⟩ := Option.map_eq_some_iff.mp hfile
    exact (h.file file' hfile').trans (List.prefix_append _ _)
  live hfile := h.live (Option.map_eq_none_iff.mp hfile)
  base hfile := h.base (Option.map_eq_none_iff.mp hfile)
  window hfile := h.window (Option.map_eq_none_iff.mp hfile)

/-- The flag says nothing of the bytes. -/
theorem Held.setEof {b : InputBuffer} {input : List UInt8} (h : Held b input) (eof : Bool) :
    Held { b with metadata := { b.metadata with eof := eof } } input :=
  ⟨h.stop, h.file, h.live, h.base, h.window⟩

/-- **The window rolls** over what was read. -/
theorem Held.retain {b : InputBuffer} {input data : List UInt8} (h : Held b input)
    (hfile : b.file = none) (hdata : input = input.take b.metadata.stop ++ data) :
    Held { b with metadata := (InputMeta.retainLiveTail { b.metadata with
      stop := b.metadata.stop + data.length } data) } input := by
  have hstop := h.stop
  have hbase := h.base hfile
  have hlength : input.length = b.metadata.stop + data.length := by
    have hcount := congrArg List.length hdata
    rw [List.length_append, List.length_take] at hcount
    omega
  have hdrop : input.drop b.metadata.stop = data := by
    have hsplit : input.take b.metadata.stop ++ input.drop b.metadata.stop =
        input.take b.metadata.stop ++ data := by
      rw [List.take_append_drop]
      exact hdata
    exact List.append_cancel_left hsplit
  have hpart : data = stretch input b.metadata.stop (b.metadata.stop + data.length) := by
    rw [stretch, Nat.add_sub_cancel_left, hdrop, List.take_length]
  have hlive : b.metadata.live ++ data =
      stretch input b.metadata.liveBase (b.metadata.stop + data.length) :=
    calc b.metadata.live ++ data
        = stretch input b.metadata.liveBase b.metadata.stop ++
          stretch input b.metadata.stop (b.metadata.stop + data.length) := by
          rw [← hpart, h.live hfile]
      _ = _ := stretch_append input (by omega) (by omega)
  have hmeta : InputMeta.retainLiveTail { b.metadata with stop := b.metadata.stop + data.length }
      data = { b.metadata with
        stop := b.metadata.stop + data.length
        live := (b.metadata.live ++ data).drop
          ((b.metadata.live ++ data).length - liveStdinCapacity)
        liveBase := b.metadata.liveBase +
          ((b.metadata.live ++ data).length - liveStdinCapacity) } := by
    rw [InputMeta.retainLiveTail, trimLive_eq]
  rw [hmeta]
  refine ⟨Nat.le_of_eq hlength.symm, fun file hsome => ?_, fun _ => ?_, fun _ => ?_, fun _ hne => ?_⟩
  · have hsome : b.file = some file := hsome
    rw [hfile] at hsome
    cases hsome
  · rw [hlive, drop_stretch]
  · dsimp only
    rw [List.length_drop, List.length_append]
    omega
  · -- A trimmed window is full, and one that was not trimmed was not empty before.
    dsimp only
    intro hnil
    have hcap : 0 < liveStdinCapacity := Nat.mul_pos (by omega) (by omega)
    have hshort := List.drop_eq_nil_iff.mp hnil
    have hempty : b.metadata.live ++ data = [] := List.eq_nil_of_length_eq_zero (by omega)
    have hlive := (List.append_eq_nil_iff.mp hempty).1
    refine h.window hfile ?_ hlive
    rw [hempty] at hne
    exact hne

/-- A running reader has said nothing yet. -/
structure Running (s : State) : Prop where
  eof : s.buffer.metadata.eof = false
  ended : s.ended = false
  failed : s.failed = false
  reports : s.reports = []

/-- What the reader's stage says of the buffer, of local stdin and of what was reported. -/
def State.Stands (s : State) : ReaderStage → Prop
  | .reading => Running s ∧ s.buffer.metadata.stop = s.input.length ∧
    ∀ file, s.buffer.file = some file → file = s.input
  | .spooling data => Running s ∧ s.buffer.file.isSome = true ∧
    s.input = s.input.take s.buffer.metadata.stop ++ data ∧
    ∀ file, s.buffer.file = some file → file = s.input.take s.buffer.metadata.stop
  | .counting data => Running s ∧ s.input = s.input.take s.buffer.metadata.stop ++ data ∧
    ∀ file, s.buffer.file = some file → file = s.input
  | .returned => s.buffer.metadata.eof = true ∧
    ((s.ended = true ∧ s.failed = false ∧ s.buffer.metadata.stop = s.input.length) ∨
      (s.ended = false ∧ s.failed = true)) ∧
    ∀ n ∈ s.reports, n = s.buffer.metadata.stop

structure Reads (s : State) : Prop where
  held : Held s.buffer s.input
  stage : s.Stands s.reader

/-- What a step of the reader does. -/
inductive ReaderMoved (s : State) : ReaderAct → State → Prop
  | failed (stage : s.reader = .reading) :
      ReaderMoved s (.read none) { s.setEof with failed := true }
  | ended (stage : s.reader = .reading) :
      ReaderMoved s (.read (some [])) { s.setEof with ended := true }
  | read {data : List UInt8} (stage : s.reader = .reading) (some : data ≠ []) :
      ReaderMoved s (.read (.some data)) { s with
        input := s.input ++ data
        reader := if s.buffer.file.isSome then .spooling data else .counting data }
  | spooled {data : List UInt8} (stage : s.reader = .spooling data) :
      ReaderMoved s (.spool none) { s with
        buffer := { s.buffer with file := s.buffer.file.map (· ++ data) }
        reader := .counting data }
  | spoolFailed {data added : List UInt8} (stage : s.reader = .spooling data) :
      ReaderMoved s (.spool (.some added)) { State.setEof { s with
        buffer := { s.buffer with file := s.buffer.file.map (· ++ added) } } with failed := true }
  | counted {data : List UInt8} (stage : s.reader = .counting data) :
      ReaderMoved s .count (s.count data)

/-- Every step of the reader is one of its moves. -/
theorem readerStep_moved {act : ReaderAct} (h : readerStep s act = some t) :
    ReaderMoved s act t := by
  unfold readerStep at h
  split at h
  · rename_i hstage
    cases h
    exact .failed hstage
  · rename_i hstage
    cases h
    exact .ended hstage
  · rename_i data hsome hstage
    split at h
    · cases h
      exact .read hstage fun hnil => hsome hnil
    · cases h
  · rename_i data hstage
    cases h
    exact .spooled hstage
  · rename_i data added hstage
    cases h
    exact .spoolFailed hstage
  · rename_i data hstage
    cases h
    exact .counted hstage
  · cases h

/-- A reader that returns for a failure. -/
theorem reads_failed {b : InputBuffer} (held : Held b s.input) (running : Running s) :
    Reads { State.setEof { s with buffer := b } with failed := true } := by
  refine ⟨held.setEof true, rfl, .inr ⟨running.ended, rfl⟩, fun n hn => ?_⟩
  have hn : n ∈ s.reports := hn
  rw [running.reports] at hn
  cases hn

/-- The reader's steps keep what it has read in the buffer. -/
theorem reads_reader (hr : Reads s) {act : ReaderAct} (h : ReaderMoved s act t) : Reads t := by
  have hstage := hr.stage
  cases h with
  | failed stage =>
    rw [stage] at hstage
    exact reads_failed hr.held hstage.1
  | ended stage =>
    rw [stage] at hstage
    obtain ⟨running, hstop, -⟩ := hstage
    refine ⟨hr.held.setEof true, rfl, .inl ⟨rfl, running.failed, hstop⟩, fun n hn => ?_⟩
    have hn : n ∈ s.reports := hn
    rw [running.reports] at hn
    cases hn
  | @read data stage hsome =>
    rw [stage] at hstage
    obtain ⟨running, hstop, hfile⟩ := hstage
    have htake : (s.input ++ data).take s.buffer.metadata.stop = s.input := by
      rw [hstop]
      exact List.take_left
    have hrunning : ∀ stage, Running { s with input := s.input ++ data, reader := stage } :=
      fun _ => ⟨running.eof, running.ended, running.failed, running.reports⟩
    refine ⟨hr.held.grow (List.prefix_append s.input data), ?_⟩
    dsimp only
    split
    · rename_i hbuffered
      refine ⟨hrunning _, hbuffered, ?_, fun file hf => ?_⟩
      · show s.input ++ data = _
        rw [htake]
      · show file = (s.input ++ data).take s.buffer.metadata.stop
        rw [htake]
        exact hfile file hf
    · rename_i hlive
      refine ⟨hrunning _, ?_, fun file hf => ?_⟩
      · show s.input ++ data = _
        rw [htake]
      · have hf : s.buffer.file = some file := hf
        rw [hf] at hlive
        exact absurd rfl hlive
  | @spooled data stage =>
    rw [stage] at hstage
    obtain ⟨running, -, hinput, hfile⟩ := hstage
    refine ⟨hr.held.spool data, ⟨running.eof, running.ended, running.failed, running.reports⟩,
      hinput, fun file hf => ?_⟩
    obtain ⟨file', hf', rfl⟩ := Option.map_eq_some_iff.mp hf
    rw [hfile file' hf']
    exact hinput.symm
  | @spoolFailed data added stage =>
    rw [stage] at hstage
    exact reads_failed (hr.held.spool added) hstage.1
  | @counted data stage =>
    rw [stage] at hstage
    obtain ⟨running, hinput, hfile⟩ := hstage
    have hlength : s.buffer.metadata.stop + data.length = s.input.length := by
      have := congrArg List.length hinput
      rw [List.length_append, List.length_take] at this
      have := hr.held.stop
      omega
    have hrunning : Running (s.count data) := by
      refine ⟨?_, running.ended, running.failed, running.reports⟩
      unfold State.count
      dsimp only
      split
      · exact running.eof
      · exact running.eof
    have hstop : (s.count data).buffer.metadata.stop = s.input.length := by
      unfold State.count
      dsimp only
      split
      · exact hlength
      · exact hlength
    refine ⟨?_, hrunning, hstop, hfile⟩
    cases hf : s.buffer.file with
    | none =>
      have hretain := hr.held.retain hf hinput
      simp only [State.count, hf, Option.isNone_none, if_true]
      rw [hf] at hretain
      exact hretain
    | some file =>
      simp only [State.count, hf, Option.isNone_some, Bool.false_eq_true, if_false]
      refine ⟨Nat.le_of_eq hlength, fun file' hf' => ?_, fun hno => ?_, fun hno => ?_, fun hno => ?_⟩
      · cases hf'
        rw [hfile file hf]
        exact List.take_prefix _ _
      · cases hno
      · cases hno
      · cases hno

/-- A step of another party keeps what it does not look at. -/
theorem Reads.keep (hr : Reads s) (buffer : t.buffer = s.buffer) (reader : t.reader = s.reader)
    (input : t.input = s.input) (ended : t.ended = s.ended) (failed : t.failed = s.failed)
    (reports : ∀ n ∈ t.reports, n ∈ s.reports ∨
      s.buffer.metadata.eof = true ∧ n = s.buffer.metadata.stop) : Reads t := by
  have hstage := hr.stage
  have hrunning : Running s → Running t := by
    intro running
    refine ⟨by rw [buffer, running.eof], by rw [ended, running.ended], by rw [failed, running.failed],
      List.eq_nil_iff_forall_not_mem.mpr fun n hn => ?_⟩
    rcases reports n hn with hold | ⟨heof, -⟩
    · rw [running.reports] at hold
      cases hold
    · rw [running.eof] at heof
      cases heof
  refine ⟨by rw [buffer, input]; exact hr.held, ?_⟩
  rw [reader]
  cases hreader : s.reader <;> rw [hreader] at hstage <;>
    simp only [State.Stands, buffer, input, ended, failed] at hstage ⊢
  · exact ⟨hrunning hstage.1, hstage.2⟩
  · exact ⟨hrunning hstage.1, hstage.2⟩
  · exact ⟨hrunning hstage.1, hstage.2⟩
  · refine ⟨hstage.1, hstage.2.1, fun n hn => ?_⟩
    rcases reports n hn with hold | ⟨-, hnew⟩
    · exact hstage.2.2 n hold
    · exact hnew

/-! ## Steps -/

/-- What a step does. -/
inductive Moved (s : State) : Act → State → Prop
  | reader {act : ReaderAct} {t : State} (moved : ReaderMoved s act t) : Moved s (.reader act) t
  | attempt : Moved s .attempt s.begin
  | opened {position : Nat} {serverEof : Bool} {state : InputState}
      (opening : s.opening = some state) :
      Moved s (.opened position serverEof)
        { s.setAttempt s.attempt (.new state position serverEof) with opening := none }
  | sent {read : Nat} {a : Attempt} {sender : Sender} {data : List UInt8} {eof : Option Nat}
      (current : s.attempts s.attempt = some a) (sending : a.sender.stage = .sending)
      (turn : a.sender.send (s.buffer.next a.sender.position read) = (sender, data, eof)) :
      Moved s (.send read) { s.setAttempt s.attempt { a with
          sender := sender, written := a.written ++ data, pipe := a.pipe ++ data } with
        reports := s.reports ++ eof.toList }
  | failed {a : Attempt} (current : s.attempts s.attempt = some a) :
      Moved s .fail
        (s.setAttempt s.attempt { a with sender := { a.sender with stage := .failed } })
  | closed {i : Nat} {a : Attempt} (proxy : s.attempts i = some a) :
      Moved s (.forward i 0) (s.setAttempt i { a with proxy := { a.proxy with stage := .returned } })
  | forwarded {i count : Nat} {a : Attempt} (proxy : s.attempts i = some a)
      (forwarding : a.proxy.stage = .forwarding) (limit : count ≤ a.proxy.limit)
      (some : 0 < count) (piped : count ≤ a.pipe.length) :
      Moved s (.forward i count) (s.setAttempt i { a with
        proxy := a.proxy.forward (a.pipe.take count), pipe := a.pipe.drop count })

/-- Every step of the wrapper is one of its moves. -/
theorem step_moved {act : Act} (h : step s act = some t) : Moved s act t := by
  cases act with
  | reader act => exact .reader (readerStep_moved h)
  | attempt =>
    cases h
    exact .attempt
  | opened position serverEof =>
    obtain ⟨state, hstate, rfl⟩ := Option.map_eq_some_iff.mp h
    exact .opened hstate
  | send read =>
    rw [step] at h
    split at h
    · rename_i a ha
      split at h
      · rename_i hsending
        cases h
        exact .sent ha hsending rfl
      · cases h
    · cases h
  | fail =>
    rw [step] at h
    split at h
    · rename_i a ha
      split at h
      · cases h
        exact .failed ha
      · cases h
    · cases h
  | forward i count =>
    rw [step] at h
    split at h
    · rename_i a ha
      split at h
      · rename_i hready
        obtain ⟨hforwarding, -, hlimit, hpiped⟩ := hready
        split at h
        · rename_i hzero
          subst hzero
          cases h
          exact .closed ha
        · rename_i hsome
          cases h
          exact .forwarded ha hforwarding hlimit (by omega) hpiped
      · cases h
    · cases h

/-- What a turn of the sender writes and reports. -/
theorem send_cases {sender sender' : Sender} {part : InputPart} {data : List UInt8}
    {eof : Option Nat} (h : sender.send part = (sender', data, eof)) :
    (part = .data sender.position data ∧ eof = none ∧
      sender' = { sender with position := sender.position + data.length }) ∨
    (data = [] ∧ sender'.position = sender.position ∧
      ∀ n ∈ eof, part = .eof n) := by
  unfold Sender.send at h
  split at h
  · rename_i offset part
    split at h
    · cases h
      exact .inr ⟨rfl, rfl, fun n hn => (by cases hn)⟩
    · rename_i hoffset
      cases h
      have hoffset : offset = sender.position := Decidable.not_not.mp hoffset
      exact .inl ⟨by rw [hoffset], rfl, rfl⟩
  · rename_i offset
    split at h
    · cases h
      exact .inr ⟨rfl, rfl, fun n hn => (by cases hn)⟩
    · split at h
      · split at h
        · cases h
          exact .inr ⟨rfl, rfl, fun n hn => (by cases hn)⟩
        · cases h
          exact .inr ⟨rfl, rfl, fun n hn => (by cases hn)⟩
      · cases h
        exact .inr ⟨rfl, rfl, fun n hn => by cases hn; rfl⟩
  · cases h
    exact .inr ⟨rfl, rfl, fun n hn => (by cases hn)⟩

/-- Every step keeps what was read in the buffer: an attempt only looks at it. -/
theorem reads_step (hr : Reads s) {act : Act} (h : Moved s act t) : Reads t := by
  have same : ∀ n ∈ s.reports, n ∈ s.reports ∨
      s.buffer.metadata.eof = true ∧ n = s.buffer.metadata.stop := fun _ => .inl
  cases h with
  | reader moved => exact reads_reader hr moved
  | attempt =>
    refine hr.keep rfl rfl rfl rfl rfl fun n hn => ?_
    refine (List.mem_append.mp hn).imp_right fun hnew => ?_
    have hnew := Option.mem_toList.mp hnew
    dsimp only [InputBuffer.attachmentState] at hnew
    split at hnew
    · rename_i heof
      cases hnew
      exact ⟨heof, rfl⟩
    · cases hnew
  | opened => exact hr.keep rfl rfl rfl rfl rfl same
  | sent current sending turn =>
    refine hr.keep rfl rfl rfl rfl rfl fun n hn => ?_
    refine (List.mem_append.mp hn).imp_right fun hnew => ?_
    have hnew := Option.mem_toList.mp hnew
    rcases send_cases turn with ⟨-, rfl, -⟩ | ⟨-, -, heof⟩
    · cases hnew
    · exact next_eof (heof n hnew)
  | failed => exact hr.keep rfl rfl rfl rfl rfl same
  | closed => exact hr.keep rfl rfl rfl rfl rfl same
  | forwarded => exact hr.keep rfl rfl rfl rfl rfl same

/-- In every reachable state the buffer holds what was read. -/
theorem reads_reachable (h : machine.Reachable s) : Reads s := by
  refine h.invariant (P := Reads) (fun s hinit => ?_)
    fun s act t _ hr _ hs => reads_step hr (step_moved hs)
  obtain ⟨nobuffer, rfl⟩ := hinit
  refine ⟨⟨Nat.le_refl _, fun file hfile => ?_, fun _ => rfl, fun _ => rfl,
      fun _ hne => (hne rfl).elim⟩,
    ⟨rfl, rfl, rfl, rfl⟩, rfl, fun file hfile => ?_⟩
  · exact List.nil_prefix
  · cases nobuffer <;> cases hfile
    rfl

/-! ## Numbers -/

/-- Frames that follow one another from one position to another. -/
def Contiguous : Nat → List (Nat × List UInt8) → Nat → Prop
  | lo, [], hi => lo = hi
  | lo, (offset, data) :: frames, hi => offset = lo ∧ Contiguous (lo + data.length) frames hi

/-- A frame at the end of a contiguous run goes on from it. -/
theorem Contiguous.snoc {lo hi : Nat} {frames : List (Nat × List UInt8)}
    (h : Contiguous lo frames hi) (data : List UInt8) :
    Contiguous lo (frames ++ [(hi, data)]) (hi + data.length) := by
  induction frames generalizing lo with
  | nil =>
    cases h
    exact ⟨rfl, rfl⟩
  | cons frame frames ih => exact ⟨h.1, ih h.2⟩

/-- The bytes of a frame are those of local stdin at its offset, below the counted end and below
a declared one. -/
structure Placed (b : InputBuffer) (input : List UInt8) (declared : Option Nat)
    (frame : Nat × List UInt8) : Prop where
  bytes : frame.2 = stretch input frame.1 (frame.1 + frame.2.length)
  counted : frame.1 + frame.2.length ≤ b.metadata.stop
  declared : ∀ stop ∈ declared, frame.1 + frame.2.length ≤ stop

/-- **The two ends of an attempt agree with local stdin** on what they have counted since the
opening. -/
structure Numbered (b : InputBuffer) (input : List UInt8) (a : Attempt) : Prop where
  position : a.start + a.written.length = a.sender.position
  written : a.written = stretch input a.start a.sender.position
  counted : a.start = a.sender.position ∨ a.sender.position ≤ b.metadata.stop
  started : a.start ≤ a.proxy.position
  pipe : a.proxy.stage = .forwarding → a.proxy.position ≤ a.sender.position ∧
    a.pipe = stretch input a.proxy.position a.sender.position
  declared : a.proxy.stage = .forwarding → ∀ stop ∈ a.proxy.eof, a.proxy.position ≤ stop
  contiguous : Contiguous a.start a.proxy.forwarded a.proxy.position
  placed : ∀ frame ∈ a.proxy.forwarded, Placed b input a.proxy.eof frame

/-- A frame stays in its place when more was read. -/
theorem Placed.grow {b b' : InputBuffer} {input input' : List UInt8} {declared : Option Nat}
    {frame : Nat × List UInt8} (h : Placed b input declared frame) (held : Held b input)
    (stop : b.metadata.stop ≤ b'.metadata.stop) (more : input <+: input') :
    Placed b' input' declared frame := by
  refine ⟨?_, Nat.le_trans h.counted stop, h.declared⟩
  rw [stretch_of_isPrefix more (Nat.le_trans h.counted held.stop)]
  exact h.bytes

/-- Reading on does not renumber anything. -/
theorem Numbered.grow {b b' : InputBuffer} {input input' : List UInt8} {a : Attempt}
    (h : Numbered b input a) (held : Held b input) (stop : b.metadata.stop ≤ b'.metadata.stop)
    (more : input <+: input') : Numbered b' input' a := by
  have same : ∀ lo, a.start ≤ lo → lo ≤ a.sender.position →
      stretch input' lo a.sender.position = stretch input lo a.sender.position := by
    intro lo hlo hle
    rcases h.counted with heq | hcounted
    · have heq : lo = a.sender.position := by omega
      rw [heq, stretch_self, stretch_self]
    · exact stretch_of_isPrefix more (Nat.le_trans hcounted held.stop)
  refine ⟨h.position, ?_, h.counted.imp_right fun hle => Nat.le_trans hle stop, h.started,
    fun hstage => ?_, h.declared, h.contiguous,
    fun frame hf => (h.placed frame hf).grow held stop more⟩
  · have hposition := h.position
    rw [same _ (Nat.le_refl _) (by omega)]
    exact h.written
  · obtain ⟨hle, hpipe⟩ := h.pipe hstage
    rw [same _ h.started hle]
    exact ⟨hle, hpipe⟩

/-- Both ends start from the opening's number, whatever it is. -/
theorem numbered_new (b : InputBuffer) (input : List UInt8) (state : InputState) (position : Nat)
    (serverEof : Bool) : Numbered b input (.new state position serverEof) where
  position := rfl
  written := (stretch_self input position).symm
  counted := .inl rfl
  started := Nat.le_refl _
  pipe _ := ⟨Nat.le_refl _, (stretch_self input position).symm⟩
  declared hstage stop hstop := by
    have hstop : state.eof = some stop := hstop
    have hstage : (if serverEof = true then ProxyStage.pending
      else if state.eof.any fun stop => decide (position > stop) then .returned
        else .forwarding) = .forwarding := hstage
    split at hstage
    · cases hstage
    · split at hstage
      · cases hstage
      · rename_i hany
        rw [hstop, Option.any_some, decide_eq_true_eq] at hany
        exact Nat.le_of_not_gt hany
  contiguous := rfl
  placed _ hf := by cases hf

/-- **A turn of the sender** writes the bytes at its own position. -/
theorem Numbered.send {b : InputBuffer} {input : List UInt8} {a : Attempt} (h : Numbered b input a)
    (held : Held b input) {read : Nat} {sender : Sender} {data : List UInt8} {eof : Option Nat}
    (turn : a.sender.send (b.next a.sender.position read) = (sender, data, eof)) :
    Numbered b input
      { a with sender := sender, written := a.written ++ data, pipe := a.pipe ++ data } := by
  have hposition := h.position
  rcases send_cases turn with ⟨hpart, -, rfl⟩ | ⟨rfl, hsender, -⟩
  · obtain ⟨hcounted, hdata, -⟩ := next_data held hpart
    refine ⟨?_, ?_, .inr hcounted, h.started, fun hstage => ?_, h.declared, h.contiguous, h.placed⟩
    · rw [List.length_append]
      dsimp only
      omega
    · dsimp only
      rw [h.written, ← stretch_append input (show a.start ≤ a.sender.position by omega)
        (Nat.le_add_right a.sender.position data.length), hdata]
    · obtain ⟨hle, hpipe⟩ := h.pipe hstage
      refine ⟨Nat.le_trans hle (Nat.le_add_right _ _), ?_⟩
      dsimp only
      rw [hpipe, ← stretch_append input hle (Nat.le_add_right a.sender.position data.length), hdata]
  · rw [List.append_nil, List.append_nil]
    refine ⟨?_, ?_, ?_, h.started, fun hstage => ?_, h.declared, h.contiguous, h.placed⟩
    all_goals
      dsimp only
      rw [hsender]
    · exact h.position
    · exact h.written
    · exact h.counted
    · exact h.pipe hstage

/-- **A frame of the proxy** carries the bytes at its own position, and leaves the rest in the
pipe. -/
theorem Numbered.forward {b : InputBuffer} {input : List UInt8} {a : Attempt}
    (h : Numbered b input a) (held : Held b input) {count : Nat}
    (forwarding : a.proxy.stage = .forwarding) (limit : count ≤ a.proxy.limit) (some : 0 < count)
    (piped : count ≤ a.pipe.length) :
    Numbered b input
      { a with proxy := a.proxy.forward (a.pipe.take count), pipe := a.pipe.drop count } := by
  obtain ⟨hle, hpipe⟩ := h.pipe forwarding
  have hstarted := h.started
  have hcounted : a.sender.position ≤ b.metadata.stop := by
    refine h.counted.resolve_left fun heq => ?_
    have hself : a.proxy.position = a.sender.position := by omega
    rw [hpipe, hself, stretch_self, List.length_nil] at piped
    omega
  have hend : a.proxy.position + count ≤ a.sender.position := by
    rw [hpipe, length_stretch (Nat.le_trans hcounted held.stop)] at piped
    omega
  have hlength : (a.pipe.take count).length = count := by
    rw [List.length_take]
    omega
  have hdata : a.pipe.take count = stretch input a.proxy.position (a.proxy.position + count) := by
    rw [hpipe, take_stretch input hend]
  unfold Proxy.forward
  split
  · exact ⟨h.position, h.written, h.counted, h.started, nofun, nofun, h.contiguous, h.placed⟩
  · rename_i position hok
    obtain ⟨-, rfl⟩ := checkedEnd_eq_ok.mp hok
    have hdeclared : ∀ stop ∈ a.proxy.eof, a.proxy.position + count ≤ stop := by
      intro stop hstop
      have hbefore := h.declared forwarding stop hstop
      rw [Proxy.limit, Option.mem_def.mp hstop] at limit
      have hlimit : count ≤ min (stop - a.proxy.position) chunkSize := limit
      omega
    refine ⟨h.position, h.written, h.counted, Nat.le_trans h.started (Nat.le_add_right _ _),
      fun _ => ⟨?_, ?_⟩, fun _ => ?_, h.contiguous.snoc _, fun frame hf => ?_⟩
    · rw [hlength]
      exact hend
    · dsimp only
      rw [hlength, hpipe, drop_stretch]
    · rw [hlength]
      exact hdeclared
    · rcases List.mem_append.mp hf with hf | hf
      · exact h.placed frame hf
      · rw [List.mem_singleton.mp hf]
        refine ⟨?_, ?_, fun stop hstop => ?_⟩
        · dsimp only
          rw [hlength]
          exact hdata
        · dsimp only
          rw [hlength]
          omega
        · dsimp only
          rw [hlength]
          exact hdeclared stop hstop

/-! ## Runs -/

/-- A step reads on, if anything. -/
theorem step_grows {act : Act} (h : Moved s act t) :
    s.buffer.metadata.stop ≤ t.buffer.metadata.stop ∧ s.input <+: t.input := by
  cases h with
  | reader moved =>
    cases moved with
    | read => exact ⟨Nat.le_refl _, List.prefix_append _ _⟩
    | counted =>
      refine ⟨?_, List.prefix_refl _⟩
      unfold State.count InputMeta.retainLiveTail
      dsimp only
      split
      · exact Nat.le_add_right _ _
      · exact Nat.le_add_right _ _
    | _ => exact ⟨Nat.le_refl _, List.prefix_refl _⟩
  | _ => exact ⟨Nat.le_refl _, List.prefix_refl _⟩

def AllNumbered (s : State) : Prop :=
  ∀ i a, s.attempts i = some a → Numbered s.buffer s.input a

/-- Numbers are kept attempt by attempt. -/
theorem AllNumbered.setAttempt {i : Nat} {a : Attempt} (h : AllNumbered s)
    (ha : Numbered s.buffer s.input a) : AllNumbered (s.setAttempt i a) := by
  apply Parties.forall_update_some
  · exact ha
  · intro j a' _ ha'
    exact h j a' ha'

/-- Every step keeps the numbers of all attempts. -/
theorem numbered_step (hr : Reads s) (hs : AllNumbered s) {act : Act} (h : Moved s act t) :
    AllNumbered t := by
  have hgrows := step_grows h
  have frame : t.attempts = s.attempts → AllNumbered t := by
    intro hsame i a ha
    rw [hsame] at ha
    exact (hs i a ha).grow hr.held hgrows.1 hgrows.2
  cases h with
  | reader moved =>
    cases moved with
    | _ => exact frame rfl
  | attempt => exact frame rfl
  | opened => exact hs.setAttempt (numbered_new _ _ _ _ _)
  | sent current sending turn => exact hs.setAttempt ((hs _ _ current).send hr.held turn)
  | failed current =>
    have hn := hs _ _ current
    exact hs.setAttempt ⟨hn.position, hn.written, hn.counted, hn.started, hn.pipe, hn.declared,
      hn.contiguous, hn.placed⟩
  | closed proxy =>
    have hn := hs _ _ proxy
    exact hs.setAttempt ⟨hn.position, hn.written, hn.counted, hn.started, nofun, nofun,
      hn.contiguous, hn.placed⟩
  | forwarded proxy forwarding limit some piped =>
    exact hs.setAttempt ((hs _ _ proxy).forward hr.held forwarding limit some piped)

/-- In every reachable state both ends of every attempt agree with local stdin. -/
theorem numbered_reachable (h : machine.Reachable s) : AllNumbered s := by
  refine h.invariant (P := AllNumbered) (fun s hinit => ?_)
    fun s act t hreach hs _ hstep => numbered_step (reads_reachable hreach) hs (step_moved hstep)
  obtain ⟨nobuffer, rfl⟩ := hinit
  intro i a ha
  cases ha

/-- Every report is of the counted end. -/
theorem Reads.reported (hr : Reads s) : ∀ n ∈ s.reports, n = s.buffer.metadata.stop := by
  have hstage := hr.stage
  intro n hn
  have silent : Running s → n = s.buffer.metadata.stop := by
    intro running
    rw [running.reports] at hn
    cases hn
  cases hreader : s.reader <;> rw [hreader] at hstage
  · exact silent hstage.1
  · exact silent hstage.1
  · exact silent hstage.1
  · exact hstage.2.2 n hn

/-- Asked below its base, the window makes the sender reattach. -/
theorem send_window {b : InputBuffer} {input : List UInt8} (held : Held b input)
    (hfile : b.file = none) {sender : Sender} (below : sender.position < b.metadata.liveBase)
    (read : Nat) :
    sender.send (b.next sender.position read) = ({ sender with stage := .reattach }, [], none) := by
  obtain ⟨data, hnext⟩ := next_window held hfile below read
  rw [hnext]
  exact if_pos (by omega)

/-- **Raw stdin keeps its numbers.** Whatever local stdin gave, however the attempts were cut, and
whatever positions the broker returned: the frames that a proxy forwards follow one another from
the position of its opening, each of their bytes is the one that local stdin has at its offset, and
none lies at or behind an EOF that this attachment or any other declared. What was written to the
transport starts at that position too, also by a sender whose next byte has left the window: its
turn writes nothing and reattaches. -/
theorem input_numbered (hr : machine.Reachable s) {i : Nat} {a : Attempt}
    (ha : s.attempts i = some a) :
    Contiguous a.start a.proxy.forwarded a.proxy.position ∧
    (∀ offset data, (offset, data) ∈ a.proxy.forwarded →
      (∀ k < data.length, data[k]? = s.input[offset + k]?) ∧
      offset + data.length ≤ s.input.length ∧
      ∀ stop, a.proxy.eof = some stop ∨ stop ∈ s.reports → offset + data.length ≤ stop) ∧
    (∀ k < a.written.length, a.written[k]? = s.input[a.start + k]?) ∧
    (s.buffer.file = none → s.attempt = i → a.sender.stage = .sending →
      a.sender.position < s.buffer.metadata.liveBase →
      ∀ read, step s (.send read) = some
        (s.setAttempt i { a with sender := { a.sender with stage := .reattach } })) := by
  have hreads := reads_reachable hr
  have hn := numbered_reachable hr i a ha
  refine ⟨hn.contiguous, fun offset data hf => ⟨fun k hk => ?_, ?_, fun stop hstop => ?_⟩,
    fun k hk => ?_, fun hfile hcurrent hsending below read => ?_⟩
  · have hplaced := hn.placed _ hf
    have hget := getElem?_stretch s.input (Nat.le_add_right offset k) (Nat.add_lt_add_left hk offset)
    rw [← hplaced.bytes, Nat.add_sub_cancel_left] at hget
    exact hget
  · exact Nat.le_trans (hn.placed _ hf).counted hreads.held.stop
  · rcases hstop with hstop | hstop
    · exact (hn.placed _ hf).declared stop hstop
    · rw [hreads.reported stop hstop]
      exact (hn.placed _ hf).counted
  · have hposition := hn.position
    have hget := getElem?_stretch s.input (Nat.le_add_right a.start k)
      (show a.start + k < a.sender.position by omega)
    rw [← hn.written, Nat.add_sub_cancel_left] at hget
    exact hget
  · subst hcurrent
    have hturn := send_window hreads.held hfile below read
    rw [step, ha]
    dsimp only
    rw [if_pos hsending, hturn]
    simp only [List.append_nil, Option.toList_none]
    rfl

/-- The first attempt is cut after a byte, the second goes on at the second. -/
theorem input_numbered_cut : ∃ (s : State) (a : Attempt), s.attempts 2 = some a ∧
    s.input = [7, 8, 9] ∧ a.proxy.forwarded = [(1, [8]), (2, [9])] ∧
      Contiguous 1 a.proxy.forwarded 3 ∧
      ∀ k < a.written.length, a.written[k]? = s.input[1 + k]? := by
  let first : List Act := [.reader (.read (some [7, 8, 9])), .reader (.spool none), .reader .count,
    .attempt, .opened 0 false, .send 3, .forward 1 1, .forward 1 0]
  let second : List Act := [.attempt, .opened 1 false, .send 3, .forward 2 1, .forward 2 1]
  have start : machine.Reachable (initial false) := .init ⟨false, rfl⟩
  have reached := Machine.Reachable.run start (first ++ second) rfl
  obtain ⟨hcontiguous, -, hwritten, -⟩ := input_numbered (i := 2) reached rfl
  exact ⟨_, _, rfl, rfl, rfl, hcontiguous, hwritten⟩

/-! ## EOF -/

/-- The buffer's flag, and what was reported from it, is the end of local stdin at the number of
bytes that were read. -/
structure Truthful (s : State) : Prop where
  flag : s.buffer.metadata.eof = true →
    s.ended = true ∧ s.input.length = s.buffer.metadata.stop
  reports : ∀ n ∈ s.reports, s.ended = true ∧ s.input.length = n

/-- A read of local stdin or a write of the spool that fails. -/
def Act.fails : Act → Bool
  | .reader (.read none) => true
  | .reader (.spool (some _)) => true
  | _ => false

/-- A step fails the run exactly if it is a failing read or spool write. -/
theorem step_failed {act : Act} (h : Moved s act t) : t.failed = (s.failed || act.fails) := by
  cases h with
  | reader moved =>
    cases moved with
    | failed => exact (Bool.or_true _).symm
    | spoolFailed => exact (Bool.or_true _).symm
    | counted => exact (Bool.or_false s.failed).symm
    | _ => exact (Bool.or_false _).symm
  | _ => exact (Bool.or_false _).symm

/-- A whole run has failed if it had before or one of its steps does. -/
theorem run_failed {as : List Act} (h : machine.run s as = some t) :
    t.failed = (s.failed || as.any Act.fails) := by
  induction as generalizing s with
  | nil =>
    cases h
    rw [List.any_nil, Bool.or_false]
  | cons act as ih =>
    obtain ⟨m, hm, hrest⟩ := Option.bind_eq_some_iff.mp (machine.run_cons s act as ▸ h)
    rw [ih hrest, step_failed (step_moved hm), List.any_cons, Bool.or_assoc]

/-- The EOF flag is truthful until the reader fails, and never after. -/
theorem Reads.truthful (hr : Reads s) : Truthful s ↔ s.failed = false := by
  have hstage := hr.stage
  have silent : Running s → (Truthful s ↔ s.failed = false) := by
    intro running
    refine ⟨fun _ => running.failed, fun _ => ⟨fun heof => ?_, fun n hn => ?_⟩⟩
    · rw [running.eof] at heof
      cases heof
    · rw [running.reports] at hn
      cases hn
  cases hreader : s.reader <;> rw [hreader] at hstage
  · exact silent hstage.1
  · exact silent hstage.1
  · exact silent hstage.1
  · obtain ⟨heof, ⟨hended, hfailed, hstop⟩ | ⟨hended, hfailed⟩, hreports⟩ := hstage
    · refine ⟨fun _ => hfailed, fun _ => ⟨fun _ => ⟨hended, hstop.symm⟩, fun n hn => ?_⟩⟩
      rw [hreports n hn]
      exact ⟨hended, hstop.symm⟩
    · constructor
      · intro htruthful
        have hno := (htruthful.flag heof).1
        rw [hended] at hno
        cases hno
      · intro hno
        rw [hfailed] at hno
        cases hno

/-- **EOF is the end of local stdin in exactly the runs without a failing read or spool write.** The
reader's error branches set the same flag as its end. -/
theorem eof_truthful (hinit : machine.init s) {as : List Act} (hrun : machine.run s as = some t) :
    Truthful t ↔ ∀ act ∈ as, act.fails = false := by
  have hreads := reads_reachable (Machine.Reachable.run (.init hinit) as hrun)
  have hstart : s.failed = false := by
    obtain ⟨nobuffer, rfl⟩ := hinit
    rfl
  rw [hreads.truthful, run_failed hrun, hstart, Bool.false_or]
  exact List.any_eq_false.trans (forall₂_congr fun act _ => Bool.eq_false_iff.symm)

/-- Local stdin gives three bytes and ends, and the next attempt reports the end at three. -/
theorem eof_truthful_ended : ∃ t : State, t.reports = [3] ∧ t.input = [1, 2, 3] ∧ Truthful t := by
  let reading : List Act := [.reader (.read (some [1, 2])), .reader .count,
    .reader (.read (some [3])), .reader .count, .reader (.read (some [])), .attempt]
  refine ⟨_, ?_, ?_, (eof_truthful ⟨true, rfl⟩
    (show machine.run (initial true) reading = some _ from rfl)).mpr ?_⟩
  · rfl
  · rfl
  · decide

/-- The spool's disk is full after three of five bytes: the opening that follows declares EOF there,
and local stdin has not ended. -/
theorem spool_failure_ends_input : ∃ t : State, machine.Reachable t ∧ ¬Truthful t ∧
    t.reports = [3] ∧ t.input = [1, 2, 3, 4, 5] ∧ t.ended = false := by
  let reading : List Act := [.reader (.read (some [1, 2, 3])), .reader (.spool none),
    .reader .count, .reader (.read (some [4, 5])), .reader (.spool (some [])), .attempt]
  have start : machine.Reachable (initial false) := .init ⟨false, rfl⟩
  have reached := Machine.Reachable.run start reading rfl
  refine ⟨_, reached, fun htruthful => ?_, rfl, rfl, rfl⟩
  cases (htruthful.reports 3 (List.mem_singleton_self 3)).1

end Pipekeep.Outer
