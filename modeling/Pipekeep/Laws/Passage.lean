import Pipekeep.Laws.OuterInput
import Pipekeep.Laws.StdinReach
import Pipekeep.Passage

/-!
# What the child has received is local stdin

`Moved` says what a step of the joined machine does, with its guard. Its two projections are steps
of the wrapper and of the broker, so everything that was proved of the two holds here as well. What
the joint adds is that the broker's labels are not arbitrary: an opening is what an attempt asked, a
frame is one that a proxy forwarded, a control is one that the wrapper reported (`Carried`).
-/

namespace Pipekeep.Passage

variable {nobuffer : Bool} {s t : State}

/-! ## Steps -/

/-- A label of the broker that neither takes the lock nor gives it back. -/
def free : Stdin.Act → Bool
  | .acquire _ => false
  | .install _ => false
  | .hello _ => false
  | .release => false
  | _ => true

/-- What a step does. -/
inductive Moved (nobuffer : Bool) (s : State) : State → Prop
  | outer {act : Outer.Act} {outer : Outer.State} (plain : act ≠ .attempt)
      (own : ∀ position eof, act ≠ .opened position eof)
      (wrapper : Outer.step s.outer act = some outer) : Moved nobuffer s { s with outer := outer }
  | attempt {outer : Outer.State} (wrapper : Outer.step s.outer .attempt = some outer) :
      Moved nobuffer s (State.ask { s with outer := outer })
  | opened {l : Link} {position : Nat} {eof : Bool} {outer : Outer.State}
      (link : s.links s.outer.attempt = some l) (hello : l.hello = some (position, eof))
      (wrapper : Outer.step s.outer (.opened position eof) = some outer) :
      Moved nobuffer s { s with outer := outer }
  | free {act : Stdin.Act} {broker : Stdin.State} (alone : free act = true)
      (section_ : Stdin.step nobuffer s.broker act = some broker) :
      Moved nobuffer s { s with broker := broker }
  | reaped {broker : Stdin.State}
      (section_ : Stdin.step nobuffer s.broker (.acquire .reap) = some broker) :
      Moved nobuffer s { s with broker := broker, turn := none }
  | installed {i generation : Nat} {l : Link} {a : AttachmentState} {broker : Stdin.State}
      (link : s.links i = some l) (asked : l.stage = .asked)
      (lease : s.broker.attachment.install false = .ok (generation, a))
      (section_ : Stdin.step nobuffer s.broker (.install false) = some broker) :
      Moved nobuffer s
        (State.setLink { s with broker := broker } i { l with stage := .installed generation })
  | refused {i : Nat} {l : Link} (link : s.links i = some l) (asked : l.stage = .asked) :
      Moved nobuffer s (s.setLink i { l with stage := .closed none })
  | opening {i generation : Nat} {l : Link} {broker : Stdin.State} (link : s.links i = some l)
      (installed : l.stage = .installed generation)
      (section_ : Stdin.step nobuffer s.broker
        (.acquire (.opening generation l.asked.start l.asked.eof)) = some broker) :
      Moved nobuffer s { s with broker := broker, turn := some i }
  | hello {i generation : Nat} {l : Link} {broker : Stdin.State} (link : s.links i = some l)
      (applied : l.stage = .applied generation)
      (current : s.broker.attachment.isCurrent generation = true)
      (section_ : Stdin.step nobuffer s.broker (.hello generation) = some broker) :
      Moved nobuffer s (State.setLink { s with broker := broker } i { l with
        stage := .serving generation
        hello := some (s.broker.metadata.stdinPosition, s.broker.metadata.stdinEof) })
  | frame {i generation offset : Nat} {l : Link} {a : Outer.Attempt} {data : List UInt8}
      {broker : Stdin.State} (link : s.links i = some l) (serving : l.stage = .serving generation)
      (attempt : s.outer.attempts i = some a)
      (next : a.proxy.forwarded[l.read]? = some (offset, data))
      (section_ : Stdin.step nobuffer s.broker (.acquire (.data generation offset data)) =
        some broker) :
      Moved nobuffer s (State.setLink { s with broker := broker, turn := some i } i
        { l with read := l.read + 1 })
  | control {offset : Nat} {broker : Stdin.State} (reported : offset ∈ s.outer.reports)
      (section_ : Stdin.step nobuffer s.broker (.acquire (.control offset)) = some broker) :
      Moved nobuffer s { s with broker := broker, turn := none }
  | released {holder : Stdin.Holder} {broker : Stdin.State} (held : s.broker.lock = some holder)
      (section_ : Stdin.step nobuffer s.broker .release = some broker) :
      Moved nobuffer s { s with
        broker := broker
        links := fun i =>
          if s.turn = some i then (s.links i).map (·.returned holder.stage) else s.links i
        turn := none }
  | closed {i : Nat} {l : Link} (link : s.links i = some l) (elsewhere : s.turn ≠ some i) :
      Moved nobuffer s (s.setLink i { l with stage := .closed l.stage.generation })

/-- A step of the wrapper is a move, an opening only with the broker's own answer. -/
theorem wrap_moved {act : Outer.Act} (h : s.wrap act = some t) : Moved nobuffer s t := by
  unfold State.wrap at h
  split at h
  · cases h
  · obtain ⟨outer, houter, rfl⟩ := Option.map_eq_some_iff.mp h
    exact .attempt houter
  · rename_i hopened hattempt
    obtain ⟨outer, houter, rfl⟩ := Option.map_eq_some_iff.mp h
    exact .outer hattempt (fun position eof heq => hopened position eof heq) houter

/-- A label of the broker that needs no link is a move. -/
theorem stdin_moved {act : Stdin.Act} (alone : free act = true)
    (h : s.stdin nobuffer act = some t) : Moved nobuffer s t := by
  obtain ⟨broker, hbroker, rfl⟩ := Option.map_eq_some_iff.mp h
  exact .free alone hbroker

/-- Every step of the joined system is one of its moves. -/
theorem step_moved {act : Act} (h : step nobuffer s act = some t) : Moved nobuffer s t := by
  cases act with
  | outer act => exact wrap_moved h
  | install i =>
    rw [step] at h
    split at h
    · rename_i l hl
      split at h
      · rename_i hasked
        unfold State.install at h
        split at h
        · rename_i generation a hlease
          obtain ⟨m, hm, rfl⟩ := Option.map_eq_some_iff.mp h
          obtain ⟨broker, hbroker, rfl⟩ := Option.map_eq_some_iff.mp hm
          exact .installed hl hasked hlease hbroker
        · cases h
          exact .refused hl hasked
      · cases h
    · cases h
  | opening i =>
    rw [step] at h
    split at h
    · rename_i l hl
      split at h
      · rename_i g hstage
        obtain ⟨m, hm, rfl⟩ := Option.map_eq_some_iff.mp h
        obtain ⟨broker, hbroker, rfl⟩ := Option.map_eq_some_iff.mp hm
        exact .opening hl hstage hbroker
      · cases h
    · cases h
  | hello i =>
    rw [step] at h
    split at h
    · rename_i l hl
      split at h
      · rename_i g hstage
        unfold State.hello at h
        split at h
        · rename_i hcurrent
          obtain ⟨m, hm, rfl⟩ := Option.map_eq_some_iff.mp h
          obtain ⟨broker, hbroker, rfl⟩ := Option.map_eq_some_iff.mp hm
          exact .hello hl hstage hcurrent hbroker
        · cases h
      · cases h
    · cases h
  | opened =>
    rw [step] at h
    split at h
    · rename_i position eof hhello
      obtain ⟨l, hl, hhello⟩ := Option.bind_eq_some_iff.mp hhello
      obtain ⟨outer, houter, rfl⟩ := Option.map_eq_some_iff.mp h
      exact .opened hl hhello houter
    · cases h
  | frame i =>
    rw [step] at h
    split at h
    · rename_i l hl
      split at h
      · rename_i g offset data hstage hnext
        obtain ⟨a, ha, hnext⟩ := Option.bind_eq_some_iff.mp hnext
        obtain ⟨_, htaken, rfl⟩ := Option.map_eq_some_iff.mp h
        obtain ⟨_, hm, rfl⟩ := Option.map_eq_some_iff.mp htaken
        obtain ⟨broker, hbroker, rfl⟩ := Option.map_eq_some_iff.mp hm
        exact .frame hl hstage ha hnext hbroker
      · cases h
    · cases h
  | control offset =>
    rw [step] at h
    split at h
    · rename_i hreported
      obtain ⟨m, hm, rfl⟩ := Option.map_eq_some_iff.mp h
      obtain ⟨broker, hbroker, rfl⟩ := Option.map_eq_some_iff.mp hm
      exact .control hreported hbroker
    · cases h
  | reap =>
    obtain ⟨m, hm, rfl⟩ := Option.map_eq_some_iff.mp h
    obtain ⟨broker, hbroker, rfl⟩ := Option.map_eq_some_iff.mp hm
    exact .reaped hbroker
  | critical poll => exact stdin_moved rfl h
  | release =>
    rw [step] at h
    split at h
    · rename_i holder hheld
      obtain ⟨m, hm, rfl⟩ := Option.map_eq_some_iff.mp h
      obtain ⟨broker, hbroker, rfl⟩ := Option.map_eq_some_iff.mp hm
      exact .released hheld hbroker
    · cases h
  | takeReceipt g => exact stdin_moved rfl h
  | close i =>
    rw [step] at h
    split at h
    · rename_i l hl
      split at h
      · cases h
      · rename_i hturn
        cases h
        exact .closed hl hturn
    · cases h
  | clear i =>
    rw [step] at h
    split at h
    · exact stdin_moved rfl h
    · cases h
  | waited => exact stdin_moved rfl h

/-! ## The two sides -/

/-- What the broker is asked to do comes from the wrapper. -/
def Carried (s : State) : Stdin.Act → Prop
  | .acquire (.opening _ start eof) => ∃ i l, s.links i = some l ∧ l.asked = ⟨start, eof⟩
  | .acquire (.data _ offset data) => ∃ i a, s.outer.attempts i = some a ∧
      (offset, data) ∈ a.proxy.forwarded
  | .acquire (.eof _ _) => False
  | .acquire (.control offset) => offset ∈ s.outer.reports
  | _ => True

/-- A step is one of the wrapper, one of the broker, or one between the two. -/
inductive Sides (nobuffer : Bool) (s t : State) : Prop
  | wrapper {act : Outer.Act} (outer : Outer.step s.outer act = some t.outer)
      (broker : t.broker = s.broker)
  | broker {act : Stdin.Act} (broker : Stdin.step nobuffer s.broker act = some t.broker)
      (carried : Carried s act) (outer : t.outer = s.outer)
  | link (outer : t.outer = s.outer) (broker : t.broker = s.broker)

/-- Every move is the wrapper's, the broker's, or the link's between them. -/
theorem Moved.sides (h : Moved nobuffer s t) : Sides nobuffer s t := by
  cases h with
  | outer _ _ wrapper => exact .wrapper wrapper rfl
  | attempt wrapper => exact .wrapper wrapper rfl
  | opened _ _ wrapper => exact .wrapper wrapper rfl
  | @free act broker alone hstep =>
    refine .broker hstep ?_ rfl
    cases act with
    | acquire op => cases alone
    | _ => trivial
  | reaped hstep => exact .broker hstep trivial rfl
  | installed _ _ _ hstep => exact .broker hstep trivial rfl
  | refused => exact .link rfl rfl
  | opening link _ hstep => exact .broker hstep ⟨_, _, link, rfl⟩ rfl
  | hello _ _ _ hstep => exact .broker hstep trivial rfl
  | frame _ _ attempt next hstep =>
    exact .broker hstep ⟨_, _, attempt, List.mem_of_getElem? next⟩ rfl
  | control reported hstep => exact .broker hstep reported rfl
  | released _ hstep => exact .broker hstep trivial rfl
  | closed => exact .link rfl rfl

/-- The wrapper of a reached state is reached on its own. -/
theorem reachable_outer (h : (machine nobuffer).Reachable s) :
    Outer.machine.Reachable s.outer := by
  refine h.project State.outer (fun s hinit => ?_) fun s _ t _ _ hstep => ?_
  · obtain ⟨wrapper, childStdin, rfl⟩ := hinit
    exact ⟨wrapper, rfl⟩
  · cases (step_moved hstep).sides with
    | wrapper houter _ => exact .inr ⟨_, houter⟩
    | broker _ _ houter => exact .inl houter
    | link houter _ => exact .inl houter

/-- So is the broker. -/
theorem reachable_broker (h : (machine nobuffer).Reachable s) :
    (Stdin.machine nobuffer).Reachable s.broker := by
  refine h.project State.broker (fun s hinit => ?_) fun s _ t _ _ hstep => ?_
  · obtain ⟨wrapper, childStdin, rfl⟩ := hinit
    exact ⟨childStdin, rfl⟩
  · cases (step_moved hstep).sides with
    | wrapper _ hbroker => exact .inl hbroker
    | broker hbroker _ _ => exact .inr ⟨_, hbroker⟩
    | link _ hbroker => exact .inl hbroker

/-! ## The invariant -/

/-- A stream that goes on from a list. -/
def Continues (input : List UInt8) (S : Nat → UInt8) : Prop :=
  ∀ k b, input[k]? = some b → S k = b

/-- A stream that goes on from more goes on from less. -/
theorem Continues.of_isPrefix {input input' : List UInt8} {S : Nat → UInt8}
    (h : Continues input' S) (more : input <+: input') : Continues input S := by
  intro k b hk
  obtain ⟨rest, rfl⟩ := more
  refine h k b ?_
  rw [List.getElem?_append_left (List.getElem?_eq_some_iff.mp hk).1]
  exact hk

/-- Inside the list, its stretches are the stream's slices. -/
theorem Continues.stretch_eq {input : List UInt8} {S : Nat → UInt8} (h : Continues input S)
    {lo hi : Nat} (counted : hi ≤ input.length) :
    Slice.stretch input lo hi = Slice.slice S lo (hi - lo) := by
  refine List.ext_getElem (by rw [Slice.length_stretch counted, Slice.length_slice]) ?_
  intro k hk hk'
  rw [Slice.length_slice] at hk'
  have hget := Slice.getElem?_stretch input (Nat.le_add_right lo k) (show lo + k < hi by omega)
  rw [Nat.add_sub_cancel_left, List.getElem?_eq_getElem hk] at hget
  have hstream := h (lo + k) _ hget.symm
  simp only [Slice.slice, List.getElem_map, List.getElem_range', Nat.one_mul]
  exact hstream.symm

/-- What an operation reaches has been counted, and the end that it declares was reported. -/
structure Known (outer : Outer.State) (reach : Nat) (declares : Option Nat) : Prop where
  counted : reach ≤ outer.buffer.metadata.stop
  reported : ∀ e, declares = some e → e ∈ outer.reports

/-- What the broker has of local stdin. -/
structure Joined (nobuffer : Bool) (outer : Outer.State) (broker : Stdin.State)
    (links : Nat → Option Link) : Prop where
  asked : ∀ i l, links i = some l → Known outer l.asked.start l.asked.eof
  accepted : broker.metadata.stdinPosition ≤ outer.buffer.metadata.stop
  declared : ∀ e, broker.metadata.stdinEofAt = some e → e ∈ outer.reports
  held : ∀ op stage, broker.lock = some ⟨op, stage⟩ → Known outer op.reach op.declares
  delivered : ∀ S, Continues outer.input S → Stdin.Delivered nobuffer S broker

/-- A report stands. -/
theorem reports_grow {outer outer' : Outer.State} {act : Outer.Act}
    (h : Outer.Moved outer act outer') : ∀ n ∈ outer.reports, n ∈ outer'.reports := by
  intro n hn
  cases h with
  | reader moved => cases moved <;> exact hn
  | attempt => exact List.mem_append_left _ hn
  | sent => exact List.mem_append_left _ hn
  | _ => exact hn

/-- What is known of an operation stays known when the wrapper moves. -/
theorem Known.grow {outer outer' : Outer.State} {act : Outer.Act} {reach : Nat}
    {declares : Option Nat} (hk : Known outer reach declares)
    (h : Outer.Moved outer act outer') : Known outer' reach declares :=
  ⟨Nat.le_trans hk.counted (Outer.step_grows h).1, fun e he => reports_grow h e (hk.reported e he)⟩

/-- The wrapper's steps keep what the broker has of local stdin. -/
theorem Joined.wrapper {outer outer' : Outer.State} {broker : Stdin.State}
    {links : Nat → Option Link} {act : Outer.Act} (hj : Joined nobuffer outer broker links)
    (h : Outer.Moved outer act outer') : Joined nobuffer outer' broker links where
  asked i l hl := (hj.asked i l hl).grow h
  accepted := Nat.le_trans hj.accepted (Outer.step_grows h).1
  declared e he := reports_grow h e (hj.declared e he)
  held op stage hl := (hj.held op stage hl).grow h
  delivered S hS := hj.delivered S (hS.of_isPrefix (Outer.step_grows h).2)

/-- The input state of an attempt is of bytes that were counted and of an end that is reported. -/
theorem known_ask {outer outer' : Outer.State} {asked : Outer.InputState}
    (hr : Outer.Reads outer) (h : Outer.Moved outer .attempt outer')
    (opening : outer'.opening = some asked) : Known outer' asked.start asked.eof := by
  cases h
  cases opening
  refine ⟨?_, fun e he => List.mem_append_right _ (Option.mem_toList.mpr he)⟩
  show (if outer.buffer.file.isSome then 0 else outer.buffer.metadata.liveBase) ≤
    outer.buffer.metadata.stop
  cases hfile : outer.buffer.file with
  | some file => exact Nat.zero_le _
  | none =>
    have hbase := hr.held.base hfile
    simp only [Option.isSome_none, Bool.false_eq_true, if_false]
    omega

/-- What the broker is asked for is known. -/
theorem Carried.known {s : State} {op : Stdin.Op} (hn : Outer.AllNumbered s.outer)
    (asked : ∀ i l, s.links i = some l → Known s.outer l.asked.start l.asked.eof)
    (h : Carried s (.acquire op)) : Known s.outer op.reach op.declares := by
  cases op with
  | opening g start eof =>
    obtain ⟨i, l, hl, hasked⟩ := h
    have hknown := asked i l hl
    rw [hasked] at hknown
    exact hknown
  | data g offset data =>
    obtain ⟨i, a, ha, hframe⟩ := h
    exact ⟨((hn i a ha).placed _ hframe).counted, nofun⟩
  | eof => exact h.elim
  | control offset =>
    refine ⟨Nat.zero_le _, fun e he => ?_⟩
    cases he
    exact h
  | reap => exact ⟨Nat.zero_le _, nofun⟩

/-- A frame of a proxy agrees with every stream that goes on from local stdin. -/
theorem Carried.agree {s : State} {act : Stdin.Act} {S : Nat → UInt8} (hr : Outer.Reads s.outer)
    (hn : Outer.AllNumbered s.outer) (hS : Continues s.outer.input S) (h : Carried s act) :
    Stdin.FramesAgree S s.broker act := by
  rintro g offset data rfl
  obtain ⟨i, a, ha, hframe⟩ := h
  have hplaced := (hn i a ha).placed _ hframe
  have hbytes := hplaced.bytes
  rw [hS.stretch_eq (Nat.le_trans hplaced.counted hr.held.stop), Nat.add_sub_cancel_left] at hbytes
  exact hbytes

/-- **The broker's steps**, whoever holds the lock, keep what it has of local stdin. -/
theorem Joined.broker {s : State} {act : Stdin.Act} {broker : Stdin.State}
    (hr : Outer.Reads s.outer) (hn : Outer.AllNumbered s.outer) (hi : Stdin.Inv s.broker)
    (hj : Joined nobuffer s.outer s.broker s.links) (carried : Carried s act)
    (h : Stdin.step nobuffer s.broker act = some broker) :
    Joined nobuffer s.outer broker s.links where
  asked := hj.asked
  accepted := by
    rcases Stdin.step_within h with heq | ⟨op, stage, hlock, hwithin⟩
    · rw [heq]
      exact hj.accepted
    · have hreach := (hj.held op stage hlock).counted
      exact Nat.le_trans hwithin.position (Nat.max_le.mpr ⟨hj.accepted, hreach⟩)
  declared e he := by
    rcases Stdin.step_within h with heq | ⟨op, stage, hlock, hwithin⟩
    · rw [heq] at he
      exact hj.declared e he
    · rcases hwithin.declared e he with hold | hnew
      · exact hj.declared e hold
      · exact (hj.held op stage hlock).reported e hnew
  held op stage hlock := by
    by_cases hcritical : ∃ poll, act = .critical poll
    · obtain ⟨poll, rfl⟩ := hcritical
      obtain ⟨op', stage', t', stage'', hlock', -, rfl⟩ := Stdin.critical_inv hi.coherent h
      cases hlock
      exact hj.held op stage' hlock'
    · have hquiet := Stdin.step_quiet (fun poll heq => hcritical ⟨poll, heq⟩) h
      rcases hquiet.held hlock with hold | ⟨rfl, -, -⟩
      · exact hj.held op stage hold
      · exact carried.known hn hj.asked
  delivered S hS :=
    Stdin.delivered_step hi (hj.delivered S hS) (carried.agree hr hn hS) h

/-- Links may go on as long as they do not change what they asked. -/
theorem Joined.relink {outer : Outer.State} {broker : Stdin.State} {links links' : Nat → Option Link}
    (hj : Joined nobuffer outer broker links)
    (kept : ∀ i l, links' i = some l → ∃ l', links i = some l' ∧ l.asked = l'.asked) :
    Joined nobuffer outer broker links' where
  asked i l hl := by
    obtain ⟨l', hl', hasked⟩ := kept i l hl
    rw [hasked]
    exact hj.asked i l' hl'
  accepted := hj.accepted
  declared := hj.declared
  held := hj.held
  delivered := hj.delivered

/-- A link that is replaced by one of the same request keeps all requests. -/
theorem relink_kept {links : Nat → Option Link} {i : Nat} {l l' : Link} (hl : links i = some l)
    (same : l'.asked = l.asked) : ∀ j k, Function.update links i (some l') j = some k →
      ∃ k', links j = some k' ∧ k.asked = k'.asked := by
  intro j k hk
  by_cases hj : j = i
  · subst hj
    rw [Function.update_self] at hk
    cases hk
    exact ⟨l, hl, same⟩
  · rw [Function.update_of_ne hj] at hk
    exact ⟨k, hk, rfl⟩

/-- A returning operation leaves its link's request. -/
@[simp] theorem Link.returned_asked (l : Link) (stage : Stdin.Stage) :
    (l.returned stage).asked = l.asked := by
  unfold Link.returned
  split <;> rfl

/-- Every step of the joined system keeps what the broker has of local stdin. -/
theorem joined_step (hr : Outer.Reads s.outer) (hn : Outer.AllNumbered s.outer)
    (hi : Stdin.Inv s.broker) (hj : Joined nobuffer s.outer s.broker s.links)
    (h : Moved nobuffer s t) : Joined nobuffer t.outer t.broker t.links := by
  have joined : ∀ act broker, Carried s act → Stdin.step nobuffer s.broker act = some broker →
      Joined nobuffer s.outer broker s.links := fun _ _ carried hstep =>
    hj.broker hr hn hi carried hstep
  cases h with
  | outer _ _ wrapper => exact hj.wrapper (Outer.step_moved wrapper)
  | @attempt outer wrapper =>
    have hmoved := Outer.step_moved wrapper
    have hgrown := hj.wrapper hmoved
    refine ⟨fun i l hl => ?_, hgrown.accepted, hgrown.declared, hgrown.held, hgrown.delivered⟩
    have hl : Function.update s.links outer.attempt
      (outer.opening.map fun asked => ({ asked := asked } : Link)) i = some l := hl
    by_cases hi : i = outer.attempt
    · subst hi
      rw [Function.update_self] at hl
      obtain ⟨asked, hasked, rfl⟩ := Option.map_eq_some_iff.mp hl
      exact known_ask hr hmoved hasked
    · rw [Function.update_of_ne hi] at hl
      exact hgrown.asked i l hl
  | opened _ _ wrapper => exact hj.wrapper (Outer.step_moved wrapper)
  | @free act broker alone hstep =>
    refine joined _ _ ?_ hstep
    cases act with
    | acquire op => cases alone
    | _ => trivial
  | @reaped broker hstep => exact joined (.acquire .reap) broker trivial hstep
  | @installed _ _ _ _ broker link _ _ hstep =>
    exact (joined (.install false) broker trivial hstep).relink (relink_kept link rfl)
  | refused link => exact hj.relink (relink_kept link rfl)
  | @opening i g l broker link _ hstep =>
    have hcarried : Carried s (.acquire (.opening g l.asked.start l.asked.eof)) := ⟨i, l, link, rfl⟩
    exact joined _ broker hcarried hstep
  | @hello _ g _ broker link _ _ hstep =>
    exact (joined (.hello g) broker trivial hstep).relink (relink_kept link rfl)
  | @frame i g offset _ a data broker link _ attempt next hstep =>
    have hcarried : Carried s (.acquire (.data g offset data)) :=
      ⟨i, a, attempt, List.mem_of_getElem? next⟩
    exact (joined _ broker hcarried hstep).relink (relink_kept link rfl)
  | @control offset broker reported hstep =>
    exact joined (.acquire (.control offset)) broker reported hstep
  | @released _ broker held hstep =>
    refine (joined .release broker trivial hstep).relink fun i l hl => ?_
    dsimp only at hl
    split at hl
    · obtain ⟨l', hl', rfl⟩ := Option.map_eq_some_iff.mp hl
      exact ⟨l', hl', Link.returned_asked _ _⟩
    · exact ⟨l, hl, rfl⟩
  | closed link => exact hj.relink (relink_kept link rfl)

/-- A broker starts with nothing of local stdin. -/
theorem joined_init (h : (machine nobuffer).init s) : Joined nobuffer s.outer s.broker s.links := by
  obtain ⟨wrapper, childStdin, rfl⟩ := h
  exact ⟨nofun, Nat.le_refl _, nofun, nofun, fun S _ => Stdin.delivered_init ⟨childStdin, rfl⟩⟩

/-- In every reachable state the broker has a part of local stdin that was counted. -/
theorem joined_reachable (h : (machine nobuffer).Reachable s) :
    Joined nobuffer s.outer s.broker s.links := by
  refine h.invariant (P := fun s => Joined nobuffer s.outer s.broker s.links)
    (fun _ => joined_init) fun s _ t hs hj _ hstep => ?_
  exact joined_step (Outer.reads_reachable (reachable_outer hs))
    (Outer.numbered_reachable (reachable_outer hs)) (Stdin.reachable_inv (reachable_broker hs)) hj
    (step_moved hstep)

/-! ## Exactly once, from end to end -/

/-- Local stdin, continued with zeros. -/
def stream (input : List UInt8) (k : Nat) : UInt8 := (input[k]?).getD 0

/-- Local stdin goes on into its own stream. -/
theorem continues_stream (input : List UInt8) : Continues input (stream input) := by
  intro k b hk
  simp only [stream, hk, Option.getD_some]

/-- The broker never accepts past what local stdin gave. -/
theorem accepted_le (h : (machine nobuffer).Reachable s) :
    s.broker.metadata.stdinPosition ≤ s.outer.input.length :=
  Nat.le_trans (joined_reachable h).accepted (Outer.reads_reachable (reachable_outer h)).held.stop

/-- What a buffered session's child has been given. -/
theorem received_eq (h : (machine nobuffer).Reachable s) (buffered : nobuffer = false) :
    s.broker.received.map Prod.snd =
      s.outer.input.take s.broker.metadata.stdinPosition := by
  have hstream := continues_stream s.outer.input
  have hstretch : Slice.stretch s.outer.input 0 s.broker.metadata.stdinPosition = _ :=
    hstream.stretch_eq (accepted_le h)
  rw [Nat.sub_zero] at hstretch
  rw [((joined_reachable h).delivered _ hstream).full buffered, Slice.map_snd_tag, ← hstretch,
    Slice.stretch, List.drop_zero, Nat.sub_zero]

/-- **The child reads local stdin.** However the attempts were cut, and whichever of them the broker
served and when: the bytes that the child has been given have increasing positions, and each is the
one that local stdin has at its position; the broker never accepts past what local stdin gave; and a
buffered session's child has been given exactly the first `stdin_position` bytes. -/
theorem child_reads_input (h : (machine nobuffer).Reachable s) :
    (s.broker.received.Pairwise fun x y => x.1 < y.1) ∧
    (∀ x ∈ s.broker.received, s.outer.input[x.1]? = some x.2 ∧
      x.1 < s.broker.metadata.stdinPosition) ∧
    s.broker.metadata.stdinPosition ≤ s.outer.input.length ∧
    (nobuffer = false → s.broker.received.map Prod.snd =
      s.outer.input.take s.broker.metadata.stdinPosition) := by
  have hcounted := accepted_le h
  have hd := (joined_reachable h).delivered _ (continues_stream s.outer.input)
  refine ⟨hd.tagged.increasing, fun x hx => ⟨?_, hd.tagged.below x hx⟩, hcounted, received_eq h⟩
  have hbelow : x.1 < s.outer.input.length := Nat.lt_of_lt_of_le (hd.tagged.below x hx) hcounted
  rw [hd.tagged.agrees x hx, stream, List.getElem?_eq_getElem hbelow, Option.getD_some]

/-- The broker accepts a byte; the wrapper reconnects, and the new attempt starts behind it. -/
theorem child_reads_input_reconnect : ∃ s : State, (machine false).Reachable s ∧
    s.outer.attempt = 2 ∧ s.outer.input = [7, 8, 9] ∧
    s.broker.received.map Prod.snd = s.outer.input.take s.broker.metadata.stdinPosition ∧
    s.broker.metadata.stdinPosition = 3 := by
  let attempt (i : Nat) : List Act := [.outer .attempt, .install i, .opening i, .critical .pending,
    .release, .hello i, .opened, .outer (.send 3)]
  let first : List Act := [.outer (.reader (.read (some [7, 8, 9]))),
    .outer (.reader (.spool none)), .outer (.reader .count)] ++ attempt 1 ++
    [.outer (.forward 1 3), .frame 1, .critical (.wrote 1), .release, .clear 1]
  let second : List Act := attempt 2 ++
    [.outer (.forward 2 2), .frame 2, .critical (.wrote 2), .release]
  have start : (machine false).Reachable
      { outer := Outer.initial false, broker := { childStdin := true } } := .init ⟨false, true, rfl⟩
  have reached := Machine.Reachable.run start (first ++ second) rfl
  exact ⟨_, reached, rfl, rfl, (child_reads_input reached).2.2.2 rfl, rfl⟩

/-! ## The end, from end to end -/

/-- Every step keeps the child's pipe settled. -/
theorem settled_step (hi : Stdin.Inv s.broker) (hs : Stdin.Settled s.broker)
    (h : Moved nobuffer s t) : Stdin.Settled t.broker := by
  cases h.sides with
  | wrapper _ hbroker =>
    rw [hbroker]
    exact hs
  | broker hstep _ _ => exact hs.step hi hstep
  | link _ hbroker =>
    rw [hbroker]
    exact hs

/-- **The child's end of input is the end of local stdin.** When the pipe of a command that still
runs has been dropped, and no read of local stdin and no write of its spool has failed, local stdin
has ended and the broker has accepted all of it; a buffered session's child has been given every
byte before it is told the end. -/
theorem child_end_truthful {start : State} (hinit : (machine nobuffer).init start)
    (piped : start.broker.childStdin = true) {as : List Act}
    (hrun : (machine nobuffer).run start as = some s) (unfailed : s.outer.failed = false)
    (dropped : s.broker.childStdin = false) (running : s.broker.waited = false) :
    s.outer.ended = true ∧ s.broker.metadata.stdinPosition = s.outer.input.length ∧
      (nobuffer = false → s.broker.received.map Prod.snd = s.outer.input) := by
  have hstart : (machine nobuffer).Reachable start := .init hinit
  have reached := hstart.run as hrun
  have hsettled : Stdin.Settled s.broker := by
    refine (hstart.bounded_while (P := fun s => Stdin.Settled s.broker) (R := fun _ _ => True)
      (fun _ => trivial) (fun _ _ => trivial) ?_ (.inl piped) hrun).1
    intro s _ t hs hsettled hstep
    exact ⟨settled_step (Stdin.reachable_inv (reachable_broker hs)) hsettled (step_moved hstep),
      trivial⟩
  have heof : s.broker.metadata.stdinEof = true := by
    rcases hsettled with hopen | heof | hwaited
    · rw [dropped] at hopen
      cases hopen
    · exact heof
    · rw [running] at hwaited
      cases hwaited
  have hdeclared := (Stdin.reachable_inv (reachable_broker reached)).coherent.eof_iff.mp heof
  have htruthful := (Outer.reads_reachable (reachable_outer reached)).truthful.mpr unfailed
  obtain ⟨hended, hlength⟩ := htruthful.reports _ ((joined_reachable reached).declared _ hdeclared)
  refine ⟨hended, hlength.symm, fun hnb => ?_⟩
  rw [received_eq reached hnb, ← hlength, List.take_length]

/-- Two bytes, then the end, which reaches the broker as a control of its own. -/
theorem child_end_truthful_control : ∃ s : State, s.broker.childStdin = false ∧
    s.outer.ended = true ∧ s.broker.metadata.stdinPosition = s.outer.input.length ∧
    s.broker.received.map Prod.snd = [7, 8] := by
  let labels : List Act := [.outer (.reader (.read (some [7, 8]))), .outer (.reader (.spool none)),
    .outer (.reader .count), .outer .attempt, .install 1, .opening 1, .critical .pending, .release,
    .hello 1, .opened, .outer (.send 2), .outer (.forward 1 2), .frame 1, .critical (.wrote 2),
    .release, .outer (.reader (.read (some []))), .outer (.send 0), .control 2,
    .critical .pending, .critical .pending, .release]
  let start : State := { outer := Outer.initial false, broker := { childStdin := true } }
  obtain ⟨s, hrun, hfailed, hdropped, hrunning, hinput⟩ : ∃ s,
      (machine false).run start labels = some s ∧ s.outer.failed = false ∧
      s.broker.childStdin = false ∧ s.broker.waited = false ∧ s.outer.input = [7, 8] :=
    ⟨_, rfl, rfl, rfl, rfl, rfl⟩
  have hinit : (machine false).init start := ⟨false, true, rfl⟩
  have hend := child_end_truthful hinit rfl hrun hfailed hdropped hrunning
  exact ⟨s, hdropped, hend.1, hend.2.1, (hend.2.2 rfl).trans hinput⟩

end Pipekeep.Passage
