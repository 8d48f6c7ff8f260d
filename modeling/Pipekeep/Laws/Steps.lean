import Pipekeep.Bounds

/-!
# What a step of a finite-output session does

One relation for each task, with a constructor for each branch that its step function takes, and
the conditions of the branch. The invariants go by cases on these and never unfold a step function.
-/

namespace Pipekeep.Bounds

variable {s t : State}

/-! ## The collector -/

/-- What a turn decides from its snapshot and the cancellation's flags. -/
inductive Looked (s : State) (p : OutputFact) (now : Nat) : State → Prop
  | finished
      (late : s.operation.cancellation.finishDeadline.any (fun stop => decide (stop ≤ now)) = true) :
      Looked s p now { s with
        collector := .closing (if p.ioInflight ≠ 0 then .storagePending else .operationDeadline) }
  | unconfirmed (finished : s.operation.cancellation.finished = true)
      (present : s.operation.cancellation.groupAbsent = false)
      (started : p.firstStop.isSome = true ∨
        s.operation.cancellation.finishDeadline.isSome = true) :
      Looked s p now { s with collector := .closing .groupUnconfirmed }
  | tailTime (stopped : p.firstStop.isSome = true)
      (late : (s.tailDeadlineAt p now).any (fun stop => decide (stop ≤ now)) = true) :
      Looked s p now { s with
        tailDeadline := s.tailDeadlineAt p now, collector := .closing .tailTime }
  | tailBytes (stopped : p.firstStop.isSome = true)
      (started : (s.tailDeadlineAt p now).isSome = true) (spent : p.tailRead = tailBytes) :
      Looked s p now { s with
        tailDeadline := s.tailDeadlineAt p now, collector := .closing .tailBytes }
  | select {tail : Bool} {available : Nat}
      (early : s.operation.cancellation.finishDeadline.any (fun stop => decide (stop ≤ now)) = false)
      (phase : tail = (p.firstStop.isSome && (s.tailDeadlineAt p now).isSome))
      (running : tail = true → (s.tailDeadlineAt p now).any (fun stop => decide (stop ≤ now)) = false)
      (unspent : tail = true → p.tailRead ≠ tailBytes) (left : p.available = some available) :
      Looked s p now { s with
        tailDeadline := s.tailDeadlineAt p now
        collector := .select
          (State.turn { s with tailDeadline := s.tailDeadlineAt p now } p tail available) }

/-- A look closes the collections for one of its four reasons, or goes on to a turn. -/
theorem look_looked {p : OutputFact} {now : Nat} (h : s.look p now = some t) : Looked s p now t := by
  unfold State.look at h
  dsimp only at h
  split at h
  · rename_i hlate
    cases h
    exact .finished hlate
  rename_i hearly
  split at h
  · rename_i hfinished
    cases h
    simp only [Bool.and_eq_true, Bool.not_eq_true', Bool.or_eq_true] at hfinished
    exact .unconfirmed hfinished.1.1 hfinished.1.2 hfinished.2
  split at h
  · rename_i htail
    cases h
    simp only [Bool.and_eq_true] at htail
    exact .tailTime htail.1.1 htail.2
  rename_i hrunning
  split at h
  · rename_i hspent
    cases h
    simp only [Bool.and_eq_true, beq_iff_eq] at hspent
    exact .tailBytes hspent.1.1 hspent.1.2 hspent.2
  rename_i hunspent
  obtain ⟨available, hleft, rfl⟩ := Option.map_eq_some_iff.mp h
  refine .select (Bool.eq_false_iff.mpr hearly) rfl (fun htail => ?_) (fun htail hspent => ?_) hleft
  · exact Bool.eq_false_iff.mpr fun hlate => hrunning (by rw [htail, hlate]; rfl)
  · exact hunspent (by rw [htail, hspent]; rfl)

/-- What a step of `collect` does. -/
inductive CollectorMoved (s : State) : CollectorAct → State → Prop
  | called {call : Call} {next : Collector} {clock : Clock}
      (stage : s.collector = .calling call next) :
      CollectorMoved s (.call clock) { (s.call call clock).1 with
        collector := ((s.call call clock).2.map (Collector.calling · next)).getD next }
  | present {st : Stream} (stage : s.collector = .setup st) (pipe : s.pipes.get st = true) :
      CollectorMoved s .setup { s with collector := .afterSetup st }
  | missing {st : Stream} (stage : s.collector = .setup st) (pipe : s.pipes.get st = false) :
      CollectorMoved s .setup { s with
        policy := s.policy.missingPipe st
        collector := .calling (.stop .pipeSetupFault) (.afterSetup st) }
  | enabled (stage : s.collector = .top) :
      CollectorMoved s .enable { s with notified := false, collector := .snapshot }
  | returned (stage : s.collector = .snapshot) (collected : s.fact.collected = true)
      (joined : ∀ st, s.writes.get st = false) :
      CollectorMoved s .snapshot { s with collector := .returned }
  | snapshot (stage : s.collector = .snapshot)
      (opened : s.fact.collected = true → ∃ st, s.writes.get st = true) :
      CollectorMoved s .snapshot { s with collector := .clock s.fact }
  | looked {p : OutputFact} {now : Nat} {s' : State} (stage : s.collector = .clock p)
      (h : Looked s p now s') : CollectorMoved s (.look now) s'
  | closed {cause : CollectionCause} (stage : s.collector = .closing cause) :
      CollectorMoved s .close { s with
        policy := s.policy.closeCollection cause
        collector := .calling .notify .returned }
  | lost {turn : Turn} {st : Stream} {w : Writer} (stage : s.collector = .select turn)
      (joins : s.writes.get st = true) (worker : s.writers.get st = some w) (lost : w.lost = true) :
      CollectorMoved s (.joined st) { s with
        writes := s.writes.set st false
        collector := .calling (.storageFault st .workerLost) .top }
  | joined {turn : Turn} {st : Stream} {w : Writer} (stage : s.collector = .select turn)
      (joins : s.writes.get st = true) (worker : s.writers.get st = some w) (live : w.lost = false)
      (finished : w.stage = .finished) :
      CollectorMoved s (.joined st) { s with
        writes := s.writes.set st false
        held := s.held.set st true
        writers := s.writers.set st none
        collector := .top }
  | woken {turn : Turn} (stage : s.collector = .select turn)
      (source : s.notified = true ∨ turn.deadline.isSome = true) :
      CollectorMoved s .wake { s with collector := .top }
  | read {turn : Turn} {st : Stream} {data : List UInt8} (stage : s.collector = .select turn)
      (enabled : turn.enabled.get st = true) (fits : data.length ≤ turn.readSize) :
      CollectorMoved s (.read st (.bytes data)) { s with
        read := s.read.set st (s.read.get st ++ data)
        collector := .observing st (.bytes data) turn.tail }
  | readError {turn : Turn} {st : Stream} (stage : s.collector = .select turn)
      (enabled : turn.enabled.get st = true) :
      CollectorMoved s (.read st .error) { s with collector := .observing st .error turn.tail }
  | observed {st : Stream} {result : ReadResult} {tail : Bool}
      (stage : s.collector = .observing st result tail) :
      CollectorMoved s .observe (s.observe st result tail)
  | admitted {st : Stream} {data : List UInt8} {p : OutputFact} {retained : Nat}
      (stage : s.collector = .admitting st data)
      (accepted : s.policy.admitRead st data.length = some (p, retained)) :
      CollectorMoved s .admitRead { s with
        policy := p
        writers :=
          if retained ≠ 0 then s.writers.set st (some { data := data.take retained })
          else s.writers
        admissions := s.admissions ++ [⟨st, data.length, retained⟩]
        collector := .admitted st data.length retained }
  | spawned {st : Stream} {w : Writer} (stage : s.collector = .spawning st)
      (file : s.held.get st = true) (worker : s.writers.get st = some w) :
      CollectorMoved s .spawn { s with
        held := s.held.set st false
        writes := s.writes.set st true
        writers := s.writers.set st (some { w with stage := .writing })
        collector := .top }

/-- **A step of the collector**, with its guards and all that it changes. -/
theorem collectorStep_moved {act : CollectorAct} (h : collectorStep s act = some t) :
    CollectorMoved s act t := by
  unfold collectorStep at h
  split at h
  · rename_i call next clock hc
    have hcalled := @CollectorMoved.called s call next clock hc
    split at h
    · rename_i s' rest heq
      rw [heq] at hcalled
      cases h
      exact hcalled
    · rename_i s' heq
      rw [heq] at hcalled
      cases h
      exact hcalled
  · rename_i st hc
    split at h
    · rename_i hpipe
      cases h
      exact .present hc hpipe
    · rename_i hpipe
      cases h
      exact .missing hc (Bool.eq_false_iff.mpr hpipe)
  · rename_i hc
    cases h
    exact .enabled hc
  · rename_i hc
    split at h
    · rename_i hdone
      cases h
      simp only [Bool.and_eq_true, Bool.not_eq_true'] at hdone
      refine .returned hc hdone.1.1 fun st => ?_
      cases st with
      | stdout => exact hdone.1.2
      | stderr => exact hdone.2
    · rename_i hopen
      cases h
      refine .snapshot hc fun hcollected => ?_
      by_contra hno
      have hjoined : ∀ st, s.writes.get st = false := fun st =>
        Bool.eq_false_iff.mpr fun hst => hno ⟨st, hst⟩
      have hout : s.writes.stdout = false := hjoined .stdout
      have herr : s.writes.stderr = false := hjoined .stderr
      exact hopen (by rw [hcollected, hout, herr]; rfl)
  · rename_i p now hc
    exact .looked hc (look_looked h)
  · rename_i cause hc
    cases h
    exact .closed hc
  · rename_i turn st hc
    unfold State.joined at h
    split at h
    · rename_i w hwrites hw
      split at h
      · rename_i hlost
        cases h
        exact .lost hc hwrites hw hlost
      · rename_i hlive
        split at h
        · rename_i hstage
          cases h
          exact .joined hc hwrites hw (Bool.eq_false_iff.mpr hlive) hstage
        · cases h
    · cases h
  · rename_i turn hc
    split at h
    · rename_i hsource
      cases h
      exact .woken hc ((Bool.or_eq_true _ _).mp hsource)
    · cases h
  · rename_i turn st result hc
    split at h
    · rename_i henabled
      split at h
      · split at h
        · rename_i hfits
          cases h
          exact .read hc henabled hfits
        · cases h
      · cases h
        exact .readError hc henabled
    · cases h
  · rename_i st result tail hc
    cases h
    exact .observed hc
  · rename_i st data hc
    obtain ⟨⟨p, retained⟩, hsection, rfl⟩ := Option.map_eq_some_iff.mp h
    exact .admitted hc hsection
  · rename_i st hc
    unfold State.spawn at h
    split at h
    · rename_i w hheld hw
      cases h
      exact .spawned hc hheld hw
    · cases h
  · cases h

/-! ## The write workers -/

/-- What a step of `write_prefix` does. -/
inductive WriterMoved (s : State) (st : Stream) (w : Writer) : WriterAct → State → Prop
  | wrote {count : Nat} (stage : w.stage = .writing) (positive : count ≠ 0)
      (fits : count ≤ w.data.length - w.recorded) :
      WriterMoved s st w (.write count) (State.setWriter { s with
        files := s.files.set st (s.files.get st ++ (w.data.drop w.recorded).take count) }
        st (some { w with stage := .recording count }))
  | refused (stage : w.stage = .writing) (more : w.data.length - w.recorded ≠ 0) :
      WriterMoved s st w (.write 0)
        (s.setWriter st (some { w with stage := .settling (some (writeFault w.recorded)) }))
  | failed {added : List UInt8} (stage : w.stage = .writing)
      (more : w.data.length - w.recorded ≠ 0) :
      WriterMoved s st w (.writeError added) (State.setWriter
        { s with files := s.files.set st (s.files.get st ++ added) }
        st (some { w with stage := .settling (some (writeFault w.recorded)) }))
  | recorded {count : Nat} {p : OutputFact} (stage : w.stage = .recording count)
      (accepted : s.policy.recordWrite st count = some p) :
      WriterMoved s st w .record { s with
        policy := p
        metadata := { s.metadata with
          ends := s.metadata.ends.set st (p.streams.get st).retained }
        writers := s.writers.set st
          (some { w with recorded := w.recorded + count, stage := .notifying }) }
  | notified (stage : w.stage = .notifying) :
      WriterMoved s st w .notify
        (State.setWriter { s with notified := true } st (some { w with stage := .writing }))
  | flushed {ok : Bool} (stage : w.stage = .writing) (all : w.data.length - w.recorded = 0) :
      WriterMoved s st w (.flush ok)
        (s.setWriter st (some { w with stage := .settling (if ok then none else some .flush) }))
  | settled {p : OutputFact} (stage : w.stage = .settling none)
      (accepted : s.policy.settleWrite st (w.data.length - w.recorded) false = some p) :
      WriterMoved s st w .settle
        (State.setWriter { s with policy := p } st (some { w with stage := .unpinning }))
  | faulted {fault : StorageFault} {p : OutputFact} (stage : w.stage = .settling (some fault))
      (accepted : s.policy.settleWrite st (w.data.length - w.recorded) true = some p) :
      WriterMoved s st w .settle (State.setWriter { s with policy := p } st
        (some { w with stage := .calling (.storageFault st fault) }))
  | called {call : Call} {clock : Clock} (stage : w.stage = .calling call) :
      WriterMoved s st w (.call clock) (State.setWriter (s.call call clock).1 st
        (some { w with
          stage := ((s.call call clock).2.map WriterStage.calling).getD .unpinning }))
  | unpinned {p : OutputFact} (stage : w.stage = .unpinning) (accepted : s.policy.unpin = some p) :
      WriterMoved s st w .unpin
        (State.setWriter { s with policy := p } st (some { w with stage := .finishing }))
  | finished (stage : w.stage = .finishing) :
      WriterMoved s st w .notify
        (State.setWriter { s with notified := true } st (some { w with stage := .finished }))
  | lost (spawned : w.stage ≠ .queued) (unfinished : w.stage ≠ .finished) :
      WriterMoved s st w .lose (s.setWriter st (some { w with lost := true }))

/-- **A step of a write worker**: one that was lost takes none. -/
theorem writerStep_moved {st : Stream} {w : Writer} {act : WriterAct}
    (h : writerStep s st w act = some t) : w.lost = false ∧ WriterMoved s st w act t := by
  unfold writerStep at h
  dsimp only at h
  split at h
  · cases h
  rename_i hlive
  refine ⟨Bool.eq_false_iff.mpr hlive, ?_⟩
  split at h
  · rename_i count hstage
    split at h
    · cases h
    rename_i hmore
    split at h
    · rename_i hzero
      cases h
      subst hzero
      exact .refused hstage hmore
    rename_i hsome
    split at h
    · rename_i hfits
      cases h
      exact .wrote hstage hsome hfits
    · cases h
  · rename_i added hstage
    split at h
    · cases h
    · rename_i hmore
      cases h
      exact .failed hstage hmore
  · rename_i count hstage
    obtain ⟨p, hp, rfl⟩ := Option.map_eq_some_iff.mp h
    exact .recorded hstage hp
  · rename_i hstage
    cases h
    exact .notified hstage
  · rename_i ok hstage
    split at h
    · rename_i hall
      cases h
      exact .flushed hstage hall
    · cases h
  · rename_i fault hstage
    obtain ⟨p, hp, rfl⟩ := Option.map_eq_some_iff.mp h
    cases fault with
    | none => exact .settled hstage hp
    | some fault => exact .faulted hstage hp
  · rename_i call clock hstage
    have hcalled := @WriterMoved.called s st w call clock hstage
    split at h
    · rename_i s' rest heq
      rw [heq] at hcalled
      cases h
      exact hcalled
    · rename_i s' heq
      rw [heq] at hcalled
      cases h
      exact hcalled
  · rename_i hstage
    obtain ⟨p, hp, rfl⟩ := Option.map_eq_some_iff.mp h
    exact .unpinned hstage hp
  · rename_i hstage
    cases h
    exact .finished hstage
  · cases h
  · cases h
  · rename_i hspawned hunfinished
    cases h
    exact .lost hspawned hunfinished
  · cases h

/-! ## The replay -/

/-- What a step of `replay` does. -/
inductive ReplayMoved (s : State) (r : Replay) : ReplayAct → State → Prop
  | openFailed (stage : r.stage = .reading) :
      ReplayMoved s r .openError { s with
        replay := some { r with stage := .calling (.storageFault r.st .replayOpen) .replayOpen } }
  | readFailed {count : Nat} (stage : r.stage = .reading)
      (answer : Buffered.readAt (s.files.get r.st) r.offset r.stop count = some []) :
      ReplayMoved s r (.read count) { s with
        replay := some { r with stage := .calling (.storageFault r.st .replayRead) .replayRead } }
  | read {count : Nat} {data : List UInt8} (stage : r.stage = .reading) (nonempty : data ≠ [])
      (answer : Buffered.readAt (s.files.get r.st) r.offset r.stop count = some data) :
      ReplayMoved s r (.read count) { s with
        replay := some { r with stage := .unpinning (.ok data) } }
  | called {call : Call} {fault : StorageFault} {clock : Clock}
      (stage : r.stage = .calling call fault) :
      ReplayMoved s r (.call clock) { (s.call call clock).1 with
        replay := some { r with
          stage := ((s.call call clock).2.map (ReplayStage.calling · fault)).getD
            (.unpinning (.error fault)) } }
  | unpinned {result : Except StorageFault (List UInt8)} {p : OutputFact}
      (stage : r.stage = .unpinning result) (accepted : s.policy.unpin = some p) :
      ReplayMoved s r .unpin { s with
        policy := p
        replay := some { r with stage := .finishing result } }
  | finished {result : Except StorageFault (List UInt8)} (stage : r.stage = .finishing result) :
      ReplayMoved s r .finish { s with
        notified := true
        replay := none
        senders := Function.update s.senders r.generation
          ((s.senders r.generation).map (·.deliver result)) }

/-- **A step of a replay**, which reads, reports a failure, gives its pin back and hands the result
on. -/
theorem replayStep_moved {r : Replay} {act : ReplayAct} (h : replayStep s r act = some t) :
    ReplayMoved s r act t := by
  unfold replayStep at h
  dsimp only at h
  split at h
  · rename_i hstage
    cases h
    exact .openFailed hstage
  · rename_i count hstage
    split at h
    · cases h
    · rename_i hdata
      cases h
      exact .readFailed hstage hdata
    · rename_i data hnonempty hdata
      cases h
      exact .read hstage hnonempty hdata
  · rename_i call fault clock hstage
    have hcalled := @ReplayMoved.called s r call fault clock hstage
    split at h
    · rename_i s' rest heq
      rw [heq] at hcalled
      cases h
      exact hcalled
    · rename_i s' heq
      rw [heq] at hcalled
      cases h
      exact hcalled
  · rename_i result hstage
    obtain ⟨p, hp, rfl⟩ := Option.map_eq_some_iff.mp h
    exact .unpinned hstage hp
  · rename_i result hstage
    cases h
    exact .finished hstage
  · cases h

/-! ## The senders -/

/-- What a step of `send_output` does. -/
inductive SenderMoved (s : State) (g : Nat) (sender : Sender) : SenderAct → State → Prop
  | turn (stage : sender.stage = .top) (current : s.attachment.isCurrent g = true) :
      SenderMoved s g sender .turn (s.setSender g { sender with stage := .snapshot })
  | displaced (stage : sender.stage = .top) (superseded : s.attachment.isCurrent g = false) :
      SenderMoved s g sender .turn (s.setSender g { sender with stage := .done })
  | snapshot (stage : sender.stage = .snapshot) :
      SenderMoved s g sender .snapshot (s.setSender g { sender with
        missedExit := false, missedAbsence := false, stage := .report s.fact })
  | unchanged {p : OutputFact} (stage : sender.stage = .report p) (same : sender.last = some p) :
      SenderMoved s g sender .report (s.setSender g { sender with stage := .receipt p })
  | reported {p : OutputFact} (stage : sender.stage = .report p) (changed : sender.last ≠ some p) :
      SenderMoved s g sender .report (s.setSender g { sender with
        last := some p, frames := sender.frames ++ [.outputState p], stage := .receipt p })
  | receipt {p : OutputFact} (stage : sender.stage = .receipt p)
      (changed : sender.acknowledgements.changed = true) :
      SenderMoved s g sender .receipt (s.setSender g { sender with
        acknowledgements := sender.acknowledgements.take
        frames := sender.frames ++ [.stdinPosition sender.acknowledgements.latest]
        stage := .choose p })
  | noReceipt {p : OutputFact} (stage : sender.stage = .receipt p)
      (seen : sender.acknowledgements.changed = false) :
      SenderMoved s g sender .receipt (s.setSender g { sender with stage := .choose p })
  | chosen {p : OutputFact} {st : Stream} (stage : sender.stage = .choose p)
      (stream : sender.stream p = some st) :
      SenderMoved s g sender .choose
        (s.setSender g { sender with stage := .gate st (p.streams.get st).retained })
  | drained {p : OutputFact} (stage : sender.stage = .choose p) (stream : sender.stream p = none) :
      SenderMoved s g sender .choose (s.setSender g { sender with stage := .ending p })
  | replaying {st : Stream} {stop : Nat} (stage : sender.stage = .gate st stop)
      (free : s.replay = none) :
      SenderMoved s g sender .replay { s.setSender g { sender with stage := .replaying st } with
        policy := s.policy.pin
        replay := some ⟨g, st, sender.position.get st, stop, .reading⟩ }
  | faulted {st : Stream} {fault : StorageFault} (stage : sender.stage = .replayed st (.error fault)) :
      SenderMoved s g sender .emit (s.setSender g { sender with stage := .done })
  | emitted {st : Stream} {data : List UInt8} (stage : sender.stage = .replayed st (.ok data))
      (current : s.attachment.isCurrent g = true) :
      SenderMoved s g sender .emit (s.setSender g { sender with
        position := sender.position.set st (sender.position.get st + data.length)
        preferStdout := st == .stderr
        frames := sender.frames ++ [.outputData st (sender.position.get st) data]
        stage := .top })
  | silenced {st : Stream} {data : List UInt8} (stage : sender.stage = .replayed st (.ok data))
      (superseded : s.attachment.isCurrent g = false) :
      SenderMoved s g sender .emit (s.setSender g { sender with stage := .done })
  | ending {p : OutputFact} (stage : sender.stage = .ending p)
      (ended : ended p s.operation.cancellation.finished = true) :
      SenderMoved s g sender .finish (s.setSender g { sender with stage := .emitting p })
  | waiting {p : OutputFact} (stage : sender.stage = .ending p)
      (running : ended p s.operation.cancellation.finished = false) :
      SenderMoved s g sender .finish (s.setSender g { sender with stage := .waiting })
  | replayEnd {p : OutputFact} (stage : sender.stage = .emitting p) :
      SenderMoved s g sender .replayEnd
        { s.setSender g { sender with frames := sender.frames ++ [.outputEnd p], stage := .done } with
          ends := s.ends ++ [⟨p, s.operation.cancellation.result, s.metadata.status⟩] }
  | woken (stage : sender.stage = .waiting) :
      SenderMoved s g sender .wake (s.setSender g { sender with stage := .top })
  | stopped (live : sender.stage ≠ .done) :
      SenderMoved s g sender .stop (s.setSender g { sender with stage := .done })

/-- **A step of a sender**, with the frame that it writes, if it does. -/
theorem senderStep_moved {g : Nat} {sender : Sender} {act : SenderAct}
    (h : senderStep s g sender act = some t) : SenderMoved s g sender act t := by
  unfold senderStep at h
  dsimp only at h
  split at h
  · rename_i hstage
    cases h
    split
    · rename_i hcurrent
      exact .turn hstage hcurrent
    · rename_i hcurrent
      exact .displaced hstage (Bool.eq_false_iff.mpr hcurrent)
  · rename_i hstage
    cases h
    exact .snapshot hstage
  · rename_i p hstage
    split at h
    · rename_i hsame
      cases h
      exact .unchanged hstage hsame
    · rename_i hchanged
      cases h
      exact .reported hstage hchanged
  · rename_i p hstage
    split at h
    · rename_i hchanged
      cases h
      exact .receipt hstage hchanged
    · rename_i hseen
      cases h
      exact .noReceipt hstage (Bool.eq_false_iff.mpr hseen)
  · rename_i p hstage
    split at h
    · rename_i st hstream
      cases h
      exact .chosen hstage hstream
    · rename_i hstream
      cases h
      exact .drained hstage hstream
  · rename_i st stop hstage
    split at h
    · cases h
    · rename_i hfree
      cases h
      exact .replaying hstage hfree
  · rename_i st fault hstage
    cases h
    exact .faulted hstage
  · rename_i st data hstage
    split at h
    · rename_i hcurrent
      cases h
      exact .emitted hstage hcurrent
    · rename_i hcurrent
      cases h
      exact .silenced hstage (Bool.eq_false_iff.mpr hcurrent)
  · rename_i p hstage
    split at h
    · rename_i hended
      cases h
      exact .ending hstage hended
    · rename_i hrunning
      cases h
      exact .waiting hstage (Bool.eq_false_iff.mpr hrunning)
  · rename_i p hstage
    cases h
    exact .replayEnd hstage
  · rename_i hstage
    cases h
    exact .woken hstage
  · cases h
  · rename_i hlive
    cases h
    exact .stopped hlive
  · cases h

/-! ## The machine -/

/-- What a step of the session does. -/
inductive Moved (s : State) : Act → State → Prop
  | installed {force : Bool} {g : Nat} {a : AttachmentState}
      (accepted : s.attachment.install force = .ok (g, a)) :
      Moved s (.install force) { s with attachment := a }
  | refused {force : Bool} (rejected : s.attachment.install force = .error ()) :
      Moved s (.install force) s
  | cleared {g : Nat} : Moved s (.clear g) { s with attachment := s.attachment.compareClear g }
  | waited {result : Except String ExitResult} (first : s.waited = false) :
      Moved s (.wait result) (s.wait result)
  | waitNotified (pending : s.waitNotify = true) :
      Moved s .waitNotify { s with notified := true, waitNotify := false }
  | cancelled {clock : Clock} : Moved s (.cancel clock) { s with
      operation := s.operation.start clock.now clock.grace clock.settlement }
  | operationRead (spawned : s.operation.task.isSome = true) (idle : s.loop = .read)
      (unfinished : s.operation.cancellation.finished = false) :
      Moved s .operationRead { s with loop := .step s.metadata }
  | operationStep {m : Meta} {now : Nat} {kernel : Kernel} {s' : State} (read : s.loop = .step m)
      (h : s.operationStep m now kernel = some s') : Moved s (.operationStep now kernel) s'
  | operationNotified (stepped : s.loop = .notify) :
      Moved s .operationNotify { s with notified := true, loop := .read }
  | collector {act : CollectorAct} {s' : State} (h : CollectorMoved s act s') :
      Moved s (.collector act) s'
  | writer {st : Stream} {w : Writer} {act : WriterAct} {s' : State}
      (worker : s.writers.get st = some w) (live : w.lost = false)
      (h : WriterMoved s st w act s') : Moved s (.writer st act) s'
  | replay {r : Replay} {act : ReplayAct} {s' : State} (gate : s.replay = some r)
      (h : ReplayMoved s r act s') : Moved s (.replay act) s'
  | attached {g : Nat} {offsets : PerStream Nat} {stdin : Nat}
      (current : s.attachment.isCurrent g = true) (fresh : s.senders g = none)
      (behind : Buffered.offsetsAreAhead s.metadata offsets = false) :
      Moved s (.attach g offsets stdin) (s.attach g offsets stdin)
  | published {g position : Nat} {sender : Sender} (attached : s.senders g = some sender) :
      Moved s (.publish g position) (s.setSender g
        { sender with acknowledgements := sender.acknowledgements.publish position })
  | sender {g : Nat} {sender : Sender} {act : SenderAct} {s' : State}
      (attached : s.senders g = some sender) (h : SenderMoved s g sender act s') :
      Moved s (.sender g act) s'

/-- **Every step of the session is one of these.** -/
theorem step_moved {a : Act} (h : step s a = some t) : Moved s a t := by
  cases a with
  | install force =>
    simp only [step] at h
    split at h
    · rename_i g a haccepted
      cases h
      exact .installed haccepted
    · rename_i hrejected
      cases h
      exact .refused hrejected
  | clear g =>
    cases h
    exact .cleared
  | wait result =>
    simp only [step] at h
    split at h
    · cases h
    · rename_i hfirst
      cases h
      exact .waited (Bool.eq_false_iff.mpr hfirst)
  | waitNotify =>
    simp only [step] at h
    split at h
    · rename_i hpending
      cases h
      exact .waitNotified hpending
    · cases h
  | cancel clock =>
    cases h
    exact .cancelled
  | operationRead =>
    simp only [step] at h
    split at h
    · rename_i hready
      cases h
      exact .operationRead hready.1 hready.2.1 hready.2.2
    · cases h
  | operationStep now kernel =>
    simp only [step] at h
    split at h
    · rename_i m hread
      exact .operationStep hread h
    · cases h
  | operationNotify =>
    simp only [step] at h
    split at h
    · rename_i hstepped
      cases h
      exact .operationNotified hstepped
    · cases h
  | collector act => exact .collector (collectorStep_moved h)
  | writer st act =>
    simp only [step] at h
    split at h
    · rename_i w hw
      obtain ⟨hlive, hmoved⟩ := writerStep_moved h
      exact .writer hw hlive hmoved
    · cases h
  | replay act =>
    simp only [step] at h
    split at h
    · rename_i r hr
      exact .replay hr (replayStep_moved h)
    · cases h
  | attach g offsets stdin =>
    simp only [step] at h
    split at h
    · rename_i hready
      cases h
      exact .attached hready.1 hready.2.1 hready.2.2
    · cases h
  | publish g position =>
    simp only [step] at h
    split at h
    · rename_i sender hsender
      cases h
      exact .published hsender
    · cases h
  | sender g act =>
    simp only [step] at h
    split at h
    · rename_i sender hsender
      exact .sender hsender (senderStep_moved h)
    · cases h

end Pipekeep.Bounds
