import Pipekeep.Asking
import Pipekeep.Laws.OuterInput

/-!
# The local stdin buffer

`Keeps` is what the buffer keeps of the stream: all of it in the file, or its last
`liveStdinCapacity` bytes. What `next` answers follows from it (`next_serves`, `next_rest`), and a
run of questions from both: the parts join up as long as the window has not passed the position that
is asked for.
-/

namespace Pipekeep.Outer

open Slice

variable {b : InputBuffer} {stream data : List UInt8} {position offset read : Nat}

/-! ## What is kept -/

/-- The buffer keeps the stream: the file has all of it, and maybe a chunk that is not counted yet;
the window has its last `liveStdinCapacity` bytes. -/
structure Keeps (b : InputBuffer) (stream : List UInt8) : Prop where
  stop : b.metadata.stop = stream.length
  file : ∀ file, b.file = some file → stream <+: file
  base : b.file = none → b.metadata.liveBase = stream.length - liveStdinCapacity
  live : b.file = none → b.metadata.live = stream.drop (stream.length - liveStdinCapacity)

/-- A new buffer keeps the empty stream. -/
theorem keeps_empty (nobuffer : Bool) :
    Keeps { file := if nobuffer then none else some [] } [] where
  stop := rfl
  file _ _ := List.nil_prefix
  base _ := rfl
  live _ := rfl

/-- Writing ahead to the file keeps the stream. -/
theorem Keeps.spool (h : Keeps b stream) (data : List UInt8) : Keeps (b.spool data) stream where
  stop := h.stop
  file file hfile := by
    obtain ⟨file', hfile', rfl⟩ := Option.map_eq_some_iff.mp hfile
    exact (h.file file' hfile').trans (List.prefix_append _ _)
  base hfile := h.base (Option.map_eq_none_iff.mp hfile)
  live hfile := h.live (Option.map_eq_none_iff.mp hfile)

/-- The flag says nothing of the stream. -/
theorem Keeps.setEof (h : Keeps b stream) : Keeps b.setEof stream :=
  ⟨h.stop, h.file, h.base, h.live⟩

/-- The last bytes of a stream that grows are among its last bytes before and the new ones. -/
theorem drop_drop_append {α : Type} (xs ys : List α) (cap : Nat) :
    (xs.drop (xs.length - cap) ++ ys).drop ((xs.drop (xs.length - cap) ++ ys).length - cap) =
      (xs ++ ys).drop ((xs ++ ys).length - cap) := by
  rw [← List.drop_append_of_le_length (Nat.sub_le _ _), List.drop_drop, List.length_drop,
    List.length_append]
  congr 1
  omega

/-- **The window rolls**, over a chunk of any size. -/
theorem Keeps.count (h : Keeps b stream)
    (spooled : ∀ file, b.file = some file → stream ++ data <+: file) :
    Keeps (b.count data) (stream ++ data) := by
  have hstop : b.metadata.stop + data.length = (stream ++ data).length := by
    rw [h.stop, List.length_append]
  cases hfile : b.file with
  | some file =>
    have hcount : b.count data =
        { b with metadata := { b.metadata with stop := b.metadata.stop + data.length } } := by
      rw [InputBuffer.count, hfile]
      rfl
    rw [hcount]
    have hsome : ¬ b.file = none := by
      rw [hfile]
      exact Option.some_ne_none file
    exact ⟨hstop, spooled, fun hnone => absurd hnone hsome, fun hnone => absurd hnone hsome⟩
  | none =>
    have hcount : b.count data = { b with metadata := { b.metadata with
        stop := b.metadata.stop + data.length
        live := (b.metadata.live ++ data).drop
          ((b.metadata.live ++ data).length - liveStdinCapacity)
        liveBase := b.metadata.liveBase +
          ((b.metadata.live ++ data).length - liveStdinCapacity) } } := by
      rw [InputBuffer.count, hfile, InputMeta.retainLiveTail, trimLive_eq]
      rfl
    have hlive := h.live hfile
    have hbase := h.base hfile
    rw [hcount]
    refine ⟨hstop, spooled, fun _ => ?_, fun _ => ?_⟩
    · dsimp only
      rw [hbase, hlive, List.length_append, List.length_append, List.length_drop]
      omega
    · dsimp only
      rw [hlive, drop_drop_append]

/-! ## What is answered -/

/-- The buffer starts within the stream. -/
theorem Keeps.start_le (h : Keeps b stream) : b.attachmentState.start ≤ stream.length := by
  unfold InputBuffer.attachmentState
  cases hfile : b.file with
  | some file => exact Nat.zero_le _
  | none =>
    show b.metadata.liveBase ≤ _
    rw [h.base hfile]
    exact Nat.sub_le _ _

/-- A chunk has room for a byte. -/
theorem chunkSize_pos : 0 < chunkSize := Nat.mul_pos (by omega) (by omega)

/-- What keeps the whole stream holds it, in the outer process's sense. -/
theorem Keeps.held (h : Keeps b stream) : Held b stream where
  stop := Nat.le_of_eq h.stop
  file file hfile := by
    rw [h.stop, List.take_length]
    exact h.file file hfile
  live hfile := by
    rw [h.live hfile, h.base hfile, h.stop, stretch, List.take_of_length_le]
    exact Nat.le_of_eq List.length_drop
  base hfile := by
    rw [h.live hfile, h.base hfile, h.stop, List.length_drop]
    omega
  window hfile hbase := by
    rw [h.base hfile] at hbase
    have hcap : 0 < liveStdinCapacity := Nat.mul_pos (by omega) (by omega)
    rw [h.live hfile]
    exact List.ne_nil_of_length_pos (by rw [List.length_drop]; omega)

/-- A position before the end is served, from the window's first byte if the window has passed
it. -/
theorem next_serves (h : Keeps b stream) (before : position < stream.length) (hread : 0 < read) :
    ∃ data, data ≠ [] ∧
      b.next position read = .data (max position b.attachmentState.start) data ∧
      data <+: stream.drop (max position b.attachmentState.start) := by
  have hchunk := chunkSize_pos
  have hstop := h.stop
  have hle := h.start_le
  obtain ⟨data, some, hnext⟩ : ∃ data, data ≠ [] ∧
      b.next position read = .data (max position b.attachmentState.start) data := by
    unfold InputBuffer.next InputBuffer.attachmentState
    cases hfile : b.file with
    | some file =>
      have hlength := (h.file file hfile).length_le
      dsimp only [Option.isSome_some]
      rw [if_pos (by omega), if_pos rfl, Nat.max_zero]
      refine ⟨_, List.ne_nil_of_length_pos ?_, rfl⟩
      rw [List.length_take, List.length_drop]
      omega
    | none =>
      have hbase := h.base hfile
      have hcap : 0 < liveStdinCapacity := Nat.mul_pos (by omega) (by omega)
      dsimp only [Option.isSome_none]
      rw [if_pos (by omega), if_neg Bool.false_ne_true]
      refine ⟨_, List.ne_nil_of_length_pos ?_, rfl⟩
      rw [List.length_take, List.length_drop, h.live hfile, List.length_drop]
      omega
  refine ⟨data, some, hnext, ?_⟩
  obtain ⟨-, hdata, -⟩ := next_data h.held hnext
  rw [← hdata, stretch, Nat.add_sub_cancel_left]
  exact List.take_prefix _ _

/-- At and after the end there is nothing to give. -/
theorem next_rest (h : Keeps b stream) (past : stream.length ≤ position) :
    b.next position read = if b.metadata.eof then .eof stream.length else .wait := by
  have hstop := h.stop
  unfold InputBuffer.next
  cases hfile : b.file with
  | some file =>
    dsimp only
    rw [if_neg (by omega), hstop]
  | none =>
    dsimp only
    rw [if_neg (by omega), hstop]

/-- No part starts before the first byte that is kept. -/
theorem start_le_offset (hnext : b.next position read = .data offset data) :
    b.attachmentState.start ≤ offset := by
  unfold InputBuffer.next at hnext
  unfold InputBuffer.attachmentState
  cases hfile : b.file with
  | some file => exact Nat.zero_le _
  | none =>
    rw [hfile] at hnext
    dsimp only [Option.isSome_none] at hnext ⊢
    split at hnext
    · cases hnext
      rw [if_neg Bool.false_ne_true]
      exact Nat.le_max_right _ _
    · split at hnext <;> cases hnext

/-! ## Runs -/

namespace Asking

variable {s t : State} {a : Act}

/-- The buffer keeps what was counted, and the file has nothing else than what is spooled. -/
structure Inv (s : State) : Prop where
  keeps : Keeps s.buffer s.stream
  file : s.buffer.metadata.eof = false → ∀ file, s.buffer.file = some file →
    file = s.stream ++ s.spooled.getD []

/-- A new buffer keeps what it should. -/
theorem inv_init (h : machine.init s) : Inv s := by
  obtain ⟨nobuffer, position, rfl⟩ := h
  refine ⟨keeps_empty nobuffer, fun _ file hfile => ?_⟩
  cases nobuffer with
  | true => cases hfile
  | false =>
    cases hfile
    rfl

/-- What the buffer's operations leave of its flag and its file. -/
theorem count_eof (b : InputBuffer) (data : List UInt8) :
    (b.count data).metadata.eof = b.metadata.eof := by
  unfold InputBuffer.count
  split <;> rfl

/-- Taking a part leaves the buffer and the stream. -/
theorem take_buffer (s : State) (part : InputPart) :
    (s.take part).buffer = s.buffer ∧ (s.take part).stream = s.stream ∧
      (s.take part).spooled = s.spooled := by
  cases part <;> exact ⟨rfl, rfl, rfl⟩

/-- Every step keeps the stream in the buffer. -/
theorem inv_step (hi : Inv s) (h : step s a = some t) : Inv t := by
  cases a with
  | spool data =>
    simp only [step] at h
    split at h
    · rename_i free
      cases h
      refine ⟨hi.keeps.spool data, fun heof file hfile => ?_⟩
      obtain ⟨file', hfile', rfl⟩ := Option.map_eq_some_iff.mp hfile
      rw [hi.file heof file' hfile', free.2.2]
      simp only [Option.getD_none, List.append_nil, Option.getD_some]
    · cases h
  | count data =>
    simp only [step] at h
    split at h
    · rename_i ready
      cases h
      have hfile : ∀ file, s.buffer.file = some file → file = s.stream ++ data := by
        intro file hfile
        have hspooled := ready.2 (by rw [hfile]; rfl)
        rw [hi.file ready.1 file hfile, hspooled, Option.getD_some]
      refine ⟨hi.keeps.count fun file hf => ⟨[], ?_⟩, fun _ file hf => ?_⟩
      · rw [hfile file hf, List.append_nil]
      · rw [hfile file hf, Option.getD_none, List.append_nil]
    · cases h
  | eof =>
    cases h
    exact ⟨hi.keeps.setEof, fun heof => by cases heof⟩
  | ask read =>
    cases h
    obtain ⟨hbuffer, hstream, hspooled⟩ := take_buffer s (s.buffer.next s.position read)
    refine ⟨?_, ?_⟩
    · rw [hbuffer, hstream]
      exact hi.keeps
    · rw [hbuffer, hstream, hspooled]
      exact hi.file

/-- In every reachable state the buffer keeps the stream. -/
theorem reachable_inv (h : machine.Reachable s) : Inv s :=
  h.invariant (fun _ => inv_init) fun _ _ _ _ hi _ hs => inv_step hi hs

/-- The window has not passed the position that is asked for, from the second part on. -/
def Follows (s : State) (a : Act) : Prop :=
  ∀ read, a = .ask read → s.first ≠ none → s.buffer.attachmentState.start ≤ s.position

/-- What was given is the stream from the first part's offset to the position. -/
def Given (s : State) : Prop :=
  match s.first with
  | none => s.given = []
  | some first =>
    first ≤ s.position ∧ s.position ≤ s.stream.length ∧ s.given = stretch s.stream first s.position

/-- More of the stream changes nothing of what was given. -/
theorem Given.grow (h : Given s) (same : t.first = s.first ∧ t.position = s.position ∧
    t.given = s.given) (more : s.stream <+: t.stream) : Given t := by
  obtain ⟨hfirst, hposition, hgiven⟩ := same
  unfold Given at h ⊢
  rw [hfirst, hposition, hgiven]
  cases hf : s.first with
  | none =>
    rw [hf] at h
    exact h
  | some first =>
    rw [hf] at h
    obtain ⟨hle, hbound, hall⟩ := h
    exact ⟨hle, Nat.le_trans hbound more.length_le, by rw [stretch_of_isPrefix more hbound, hall]⟩

/-- The next part goes on where the last one ended. -/
theorem given_ask (hi : Inv s) (h : Given s) {read : Nat} (follows : Follows s (.ask read)) :
    Given (s.take (s.buffer.next s.position read)) := by
  cases hnext : s.buffer.next s.position read with
  | data offset data =>
    obtain ⟨hbound, hdata, hskips⟩ := next_data hi.keeps.held hnext
    rw [hi.keeps.stop] at hbound
    unfold Given at h ⊢
    cases hfirst : s.first with
    | none =>
      rw [hfirst] at h
      simp only [State.take, hfirst, Option.none_or]
      refine ⟨Nat.le_add_right _ _, hbound, ?_⟩
      rw [h, List.nil_append, hdata]
    | some first =>
      rw [hfirst] at h
      obtain ⟨hle, -, hall⟩ := h
      have hstart := follows read rfl (by rw [hfirst]; exact Option.some_ne_none first)
      have hoffset : offset = s.position := by
        by_contra hne
        obtain ⟨hfile, hpassed⟩ := hskips hne
        have hbase : s.buffer.attachmentState.start = s.buffer.metadata.liveBase := by
          rw [InputBuffer.attachmentState, hfile]
          rfl
        omega
      subst hoffset
      simp only [State.take, hfirst, Option.some_or]
      refine ⟨by omega, hbound, ?_⟩
      have hjoin := stretch_append s.stream hle (Nat.le_add_right s.position data.length)
      rw [hdata] at hjoin
      rw [hall, hjoin]
  | eof offset => exact h
  | wait => exact h

/-- Every step leaves what was given a stretch of the stream, if the questions follow on. -/
theorem given_step (hi : Inv s) (h : Given s) (follows : Follows s a) (hs : step s a = some t) :
    Given t := by
  cases a with
  | spool data =>
    simp only [step] at hs
    split at hs
    · cases hs
      exact h.grow ⟨rfl, rfl, rfl⟩ (List.prefix_refl _)
    · cases hs
  | count data =>
    simp only [step] at hs
    split at hs
    · cases hs
      exact h.grow ⟨rfl, rfl, rfl⟩ (List.prefix_append _ _)
    · cases hs
  | eof =>
    cases hs
    exact h.grow ⟨rfl, rfl, rfl⟩ (List.prefix_refl _)
  | ask read =>
    cases hs
    exact given_ask hi h follows

/-- What was given is a stretch of the stream in every run whose questions follow on. -/
theorem reach_given (h : machine.Reach Follows s) : Given s := by
  refine h.invariant ?_ fun s a t hreach hg follows hs =>
    given_step (reachable_inv hreach.reachable) hg follows hs
  rintro s ⟨nobuffer, position, rfl⟩
  rfl

/-- **The local stdin buffer**, in every state that chunks of any sizes, questions and the end of
the input lead to.

Without a file the window holds exactly the last `min(end, 64 KiB)` bytes of the stream, and its
base and its length add up to the end. A position before the end is answered with bytes of the
stream from there, or from the window's base when that is past it; a position at or after the end
with the recorded end, or else with waiting. The advertised start is the first byte that is
answered with.

Asked on from the last byte it gave, and as long as the window has not passed that, the buffer gives
the stream from the first part's offset, without repetition or loss. -/
theorem input_buffer_serves (h : machine.Reachable s) :
    (s.buffer.file = none →
      s.buffer.metadata.liveBase + s.buffer.metadata.live.length = s.buffer.metadata.stop ∧
      s.buffer.metadata.live.length = min s.buffer.metadata.stop liveStdinCapacity ∧
      s.buffer.metadata.live <:+ s.stream) ∧
    s.buffer.metadata.stop = s.stream.length ∧
    (∀ position read, position < s.buffer.metadata.stop → 0 < read → ∃ data, data ≠ [] ∧
      s.buffer.next position read = .data (max position s.buffer.attachmentState.start) data ∧
      data <+: s.stream.drop (max position s.buffer.attachmentState.start)) ∧
    (∀ position read, s.buffer.metadata.stop ≤ position → s.buffer.next position read =
      if s.buffer.metadata.eof then .eof s.buffer.metadata.stop else .wait) ∧
    s.buffer.attachmentState.start =
      (if s.buffer.file.isSome then 0 else s.buffer.metadata.liveBase) ∧
    (∀ position read offset data, s.buffer.next position read = .data offset data →
      s.buffer.attachmentState.start ≤ offset) ∧
    (machine.Reach Follows s → Given s) := by
  have hkeeps := (reachable_inv h).keeps
  refine ⟨fun hfile => ?_, hkeeps.stop, fun position read before hread => ?_,
    fun position read past => ?_, rfl, fun position read offset data => start_le_offset,
    reach_given⟩
  · have hlive := hkeeps.live hfile
    have hbase := hkeeps.base hfile
    have hstop := hkeeps.stop
    have hlength := congrArg List.length hlive
    rw [List.length_drop] at hlength
    exact ⟨by omega, by omega, hlive ▸ List.drop_suffix _ _⟩
  · rw [hkeeps.stop] at before
    exact next_serves hkeeps before hread
  · rw [hkeeps.stop] at past ⊢
    exact next_rest hkeeps past

/-- A spool that is asked between two sections of its reader. -/
theorem input_buffer_serves_spooled : ∃ s : State, machine.Reach Follows s ∧ s.first = some 1 ∧
    s.position = 5 ∧ s.given = [2, 3, 4, 5] ∧ Given s := by
  have start : machine.Reach Follows { buffer := { file := some [] }, position := 1 } :=
    .init ⟨false, 1, rfl⟩
  have meets : machine.Meets Follows { buffer := { file := some [] }, position := 1 }
      [.spool [1, 2, 3], .count [1, 2, 3], .spool [4, 5], .ask 9, .count [4, 5], .ask 9] := by
    refine ⟨nofun, fun t ht => ?_⟩
    obtain rfl := Option.some.inj ht
    refine ⟨nofun, fun t ht => ?_⟩
    obtain rfl := Option.some.inj ht
    refine ⟨nofun, fun t ht => ?_⟩
    obtain rfl := Option.some.inj ht
    refine ⟨fun _ _ _ => Nat.zero_le _, fun t ht => ?_⟩
    obtain rfl := Option.some.inj ht
    refine ⟨nofun, fun t ht => ?_⟩
    obtain rfl := Option.some.inj ht
    exact ⟨fun _ _ _ => Nat.zero_le _, fun _ _ => trivial⟩
  have reached := start.run _ meets rfl
  exact ⟨_, reached, rfl, rfl, rfl,
    (input_buffer_serves reached.reachable).2.2.2.2.2.2 reached⟩

end Asking

/-! ## The outer process -/

/-- Where the outer process's reader stands, in the terms of `Asking`. -/
def Mirrors (s : State) (q : Asking.State) : ReaderStage → Prop
  | .reading => s.buffer.metadata.eof = false ∧ q.spooled = none ∧ s.input = q.stream
  | .spooling data => s.buffer.metadata.eof = false ∧ s.buffer.file.isSome = true ∧
    q.spooled = none ∧ s.input = q.stream ++ data
  | .counting data => s.buffer.metadata.eof = false ∧
    (s.buffer.file.isSome = true → q.spooled = some data) ∧ s.input = q.stream ++ data
  | .returned => q.stream <+: s.input

/-- A state of the outer process and a run of `Asking` with its buffer, in which nobody has asked
yet. -/
structure Mirrored (position : Nat) (s : State) (q : Asking.State) : Prop where
  reachable : Asking.machine.Reachable q
  buffer : q.buffer = s.buffer
  unasked : q.position = position ∧ q.first = none
  stage : Mirrors s q s.reader

variable {s t : State} {q : Asking.State}

/-- A step of the outer process that is not its reader's. -/
theorem Mirrored.keep (h : Mirrored position s q) (buffer : t.buffer = s.buffer)
    (reader : t.reader = s.reader) (input : t.input = s.input) : Mirrored position t q := by
  refine ⟨h.reachable, h.buffer.trans buffer.symm, h.unasked, ?_⟩
  have same : Mirrors t q s.reader = Mirrors s q s.reader := by
    unfold Mirrors
    rw [buffer, input]
  rw [reader, same]
  exact h.stage

/-- The reader has returned. -/
theorem mirrored_returned {b : InputBuffer} (h : Asking.machine.Reachable q) (buffer : q.buffer = b)
    (unasked : q.position = position ∧ q.first = none) (stream : q.stream <+: t.input)
    (hbuffer : t.buffer = b.setEof) (hreader : t.reader = .returned) :
    ∃ q, Mirrored position t q := by
  refine ⟨{ q with buffer := q.buffer.setEof }, .step h trivial (a := .eof) rfl, ?_, unasked, ?_⟩
  · rw [hbuffer, ← buffer]
  · rw [hreader]
    exact stream

/-- **The reader's steps** are the buffer's own, so that they reach its states only. -/
theorem mirrored_reader (h : Mirrored position s q) {act : ReaderAct}
    (hm : ReaderMoved s act t) : ∃ q, Mirrored position t q := by
  obtain ⟨reachable, buffer, unasked, stage⟩ := h
  cases hm with
  | failed reading =>
    rw [reading] at stage
    exact mirrored_returned reachable buffer unasked (by rw [← stage.2.2]; exact List.prefix_refl _)
      rfl rfl
  | ended reading =>
    rw [reading] at stage
    exact mirrored_returned reachable buffer unasked (by rw [← stage.2.2]; exact List.prefix_refl _)
      rfl rfl
  | @read data reading _ =>
    rw [reading] at stage
    obtain ⟨heof, hspooled, hinput⟩ := stage
    refine ⟨q, reachable, buffer, unasked, ?_⟩
    dsimp only
    rw [hinput]
    split
    · rename_i hfile
      exact ⟨heof, hfile, hspooled, rfl⟩
    · rename_i hfile
      exact ⟨heof, fun hsome => absurd hsome hfile, rfl⟩
  | @spooled data spooling =>
    rw [spooling] at stage
    obtain ⟨heof, hfile, hspooled, hinput⟩ := stage
    refine ⟨{ q with buffer := q.buffer.spool data, spooled := some data },
      .step reachable trivial (a := .spool data) ?_, ?_, unasked, heof, fun _ => rfl, hinput⟩
    · exact if_pos ⟨by rw [buffer]; exact heof, by rw [buffer]; exact hfile, hspooled⟩
    · rw [buffer]
      rfl
  | @spoolFailed data added spooling =>
    rw [spooling] at stage
    obtain ⟨heof, hfile, hspooled, hinput⟩ := stage
    have hspool : Asking.machine.step q (.spool added) =
        some { q with buffer := q.buffer.spool added, spooled := some added } :=
      if_pos ⟨by rw [buffer]; exact heof, by rw [buffer]; exact hfile, hspooled⟩
    exact mirrored_returned (.step reachable trivial hspool) (congrArg (·.spool added) buffer)
      unasked ⟨data, hinput.symm⟩ rfl rfl
  | @counted data counting =>
    rw [counting] at stage
    obtain ⟨heof, hspooled, hinput⟩ := stage
    refine ⟨{ q with
        buffer := q.buffer.count data, spooled := none, stream := q.stream ++ data },
      .step reachable trivial (a := .count data) ?_, ?_, unasked, ?_, rfl, hinput⟩
    · exact if_pos ⟨by rw [buffer]; exact heof, by rw [buffer]; exact hspooled⟩
    · rw [buffer]
      rfl
    · exact (Asking.count_eof s.buffer data).trans heof

/-- **The outer process's buffer is one that is asked**: whatever its attempts do meanwhile, its
buffer is that of a run of `Asking` that has counted a first part of the input. -/
theorem buffer_mirrored (h : machine.Reachable s) (position : Nat) :
    ∃ q, Mirrored position s q := by
  refine h.invariant (P := fun s => ∃ q, Mirrored position s q) ?_ ?_
  · rintro s ⟨nobuffer, rfl⟩
    exact ⟨_, .init ⟨nobuffer, position, rfl⟩, rfl, ⟨rfl, rfl⟩, rfl, rfl, rfl⟩
  · rintro s a t - ⟨q, hq⟩ - hs
    cases step_moved hs with
    | reader moved => exact mirrored_reader hq moved
    | _ => exact ⟨q, hq.keep rfl rfl rfl⟩

end Pipekeep.Outer
