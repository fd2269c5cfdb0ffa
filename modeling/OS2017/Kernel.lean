/-
**The scheduler and the paged memory together.**

`schedule()` chooses the next thread from its queues, frees the pages of a thread that exits and
protects those of the thread that was running. Here the two models run side by side: which thread's
pages are touched is no longer an event of its own but what the pointers of the run queues say, and
a create or an exit is one step of both.

Each step of the whole is a step of the scheduler and a lawful step of the memory
(`Coupled.library`): the node `schedule()` picks is in its hands, and who is in its hands is alive
for the memory. So over whole runs of the real scheduler the memory of a thread that stays inside
its allocations is its own, whatever the others write, and also while it waits and its pages are in
the swap file (`kernel_private`).
-/

import OS2017.Sched.Values
import OS2017.Paging.Trespass
import OS2017.Paging.Acts

namespace OS2017.Kernel

open OS2017.Intrusive OS2017.Run OS2017.Sched OS2017.Paging

open Scheduler (Outcome)

/-! ### Both models side by side -/

/-- The scheduler with its log, and the paged memory of its threads. -/
structure System where
  run : Logged
  memory : Tracked

/-- What user code does with its memory. -/
inductive Access
  | allocate (size : Nat)
  | write (address : Nat) (value : BitVec 8)
  | read (address : Nat)

/-- The same as an event of the memory. -/
def Access.event : Access → ThreadEvent
  | .allocate size => .allocate size
  | .write address value => .write address value
  | .read address => .read address

/-- A library call, the timer, or user code. -/
inductive Event
  | library (e : Scheduler.Event)
  | access (a : Access)

/-- The end of `schedule()`, once it has gone from `s` to `s'`: `freePages` if the running thread
exits, and `protectAllPages` if another one is next. -/
def handOver (s s' : Scheduler) : ThreadEvent :=
  if s.nodes.status s.current = .exiting then .exit (s'.idOf s'.current)
  else .switch (s'.idOf s'.current)

/-- What a library call does to the pages. -/
def paging (s s' : Scheduler) : Scheduler.Event → Option ThreadEvent
  | .create _ _ .succeeds => some .create
  | .enterSchedule _ => some (handOver s s')
  | .timer _ => some (handOver s s')
  | _ => none

/-- The memory behind an event, if there is one. -/
def follow (memory : Tracked) : Option ThreadEvent → Option Tracked
  | none => some memory
  | some moved => memory.next moved

/-- One event. -/
def System.next (w : System) : Event → Option System
  | .library e =>
    (w.run.next e).bind fun t =>
      (follow w.memory (paging w.run.sched t.sched e)).map fun memory => ⟨t, memory⟩
  | .access a =>
    if w.run.sched.running.frame = .code then
      (w.memory.next a.event).map fun memory => { w with memory := memory }
    else none

/-- The scheduler and the tables are just made. -/
def SystemStarted (w : System) : Prop := LoggedStarted w.run ∧ TrackedStarted w.memory

/-- An exiting thread leaves another one to run. -/
def LeavesHeir (s : Scheduler) (e : Scheduler.Event) : Prop :=
  s.nodes.status s.current = .exiting → FindsNext s e

instance (s : Scheduler) (e : Scheduler.Event) : Decidable (LeavesHeir s e) := by
  unfold LeavesHeir
  infer_instance

/-- The id of a new thread fits into the eight bits of a page entry. -/
def IdFits (s : Scheduler) : Scheduler.Event → Prop
  | .create _ _ _ => s.threadNum < 256
  | _ => True

instance (s : Scheduler) : (e : Scheduler.Event) → Decidable (IdFits s e)
  | .create _ _ _ => inferInstanceAs (Decidable (s.threadNum < 256))
  | .yield => isTrue trivial
  | .exit _ => isTrue trivial
  | .functionReturn => isTrue trivial
  | .join _ => isTrue trivial
  | .enterSchedule _ => isTrue trivial
  | .joinReturn => isTrue trivial
  | .timer _ => isTrue trivial

/-- The joins are orderly, an exiting thread is not the last one, ids fit; and user code reads and
writes where it likes, with allocations that are tolerated. -/
def Admissible (w : System) : Event → Prop
  | .library e => JoinsOrderly w.run e ∧ LeavesHeir w.run.sched e ∧ IdFits w.run.sched e
  | .access a => Tolerated w.memory a.event

instance (w : System) (e : Event) : Decidable (Admissible w e) := by
  cases e <;> unfold Admissible <;> infer_instance

/-- The scheduler has the node: it is `current`, on a run queue, or on the join list. -/
def InHands (s : Scheduler) (p : NodePtr) : Prop :=
  p = s.current ∨ (∃ k, OnList s.nodes.next (s.queues (.runQ k)).head p) ∨
    OnList s.nodes.next s.joinList p

/-- **Memory and scheduler agree.** The memory runs the thread of the node that is `current`, and
its pages are its own. Every thread the scheduler has that stays inside its allocations finds there
what it has written, also while it waits. -/
structure Isolated (w : System) : Prop where
  thread : w.memory.threads.machine.thread = w.run.sched.idOf w.run.sched.current
  running : Integrity w.memory
  waiting : ∀ p, InHands w.run.sched p →
    w.memory.trespassed (w.run.sched.idOf p) = false → ∀ address value,
      w.memory.threads.written (w.run.sched.idOf p) address = some value →
        w.memory.threads.machine.view (w.run.sched.idOf p) address = value

/-! ### The invariant -/

/-- **The coupling**: the memory runs the thread of `current`, and whoever the scheduler has is
alive for it. The `n`-th node is the thread `n + 1`. -/
structure Coupled (w : System) (layout : Layout) : Prop where
  sound : Sound w.run layout
  own : Integral w.memory
  thread : w.memory.threads.machine.thread = w.run.sched.current + 1
  threadNum : w.memory.threads.threadNum = w.run.sched.nodeNum + 1
  live : ∀ p, p = w.run.sched.current ∨ layout.Placed p → w.memory.threads.live (p + 1) = true

/-- The nodes on the pointers' lists are in their places, and allocated. -/
theorem held_of_inHands {s : Scheduler} {layout : Layout} (wf : Wf s layout) {p : NodePtr}
    (held : InHands s p) : (p = s.current ∨ layout.Placed p) ∧ p < s.nodeNum := by
  rcases held with rfl | ⟨k, queued⟩ | joined
  · exact ⟨Or.inl rfl, wf.allocated⟩
  · have member := ((wf.rep.queued (.runQ k)).linked.onList_iff p).mp queued
    exact ⟨Or.inr ⟨_, member⟩, wf.rep.bounded _ p member⟩
  · have member := (wf.rep.joined.onList_iff p).mp joined
    exact ⟨Or.inr ⟨_, member⟩, wf.rep.bounded _ p member⟩

section Steps

variable {memory memory' : Tracked}

/-- **A switch of the memory.** -/
theorem next_switch {next : Nat} (taken : memory.next (.switch next) = some memory') :
    memory'.threads.machine.thread = next ∧
      memory'.threads.threadNum = memory.threads.threadNum ∧
      memory'.threads.live = memory.threads.live := by
  obtain ⟨threads, moved, rfl⟩ := Option.map_eq_some_iff.mp taken
  rw [Paging.Threads.next] at moved
  obtain ⟨⟨_, m⟩, ran, rfl⟩ := Option.map_eq_some_iff.mp moved
  exact ⟨(switchTo_run ran).thread, rfl, rfl⟩

/-- **An exit of the memory.** -/
theorem next_exit {next : Nat} (taken : memory.next (.exit next) = some memory') :
    memory'.threads.machine.thread = next ∧
      memory'.threads.threadNum = memory.threads.threadNum ∧
      memory'.threads.live
        = Function.update memory.threads.live memory.threads.machine.thread false := by
  obtain ⟨threads, moved, rfl⟩ := Option.map_eq_some_iff.mp taken
  rw [Paging.Threads.next] at moved
  obtain ⟨⟨_, m⟩, ran, rfl⟩ := Option.map_eq_some_iff.mp moved
  exact ⟨(switchTo_run ran).thread, rfl, rfl⟩

/-- **A new thread of the memory.** -/
theorem next_create (taken : memory.next .create = some memory') :
    memory'.threads.machine.thread = memory.threads.machine.thread ∧
      memory'.threads.threadNum = memory.threads.threadNum + 1 ∧
      memory'.threads.live = Function.update memory.threads.live memory.threads.threadNum true := by
  obtain ⟨threads, moved, rfl⟩ := Option.map_eq_some_iff.mp taken
  cases moved
  exact ⟨rfl, rfl, rfl⟩

/-- **User code** changes neither the running thread nor who is alive. -/
theorem next_access {a : Access} (integral : Integral memory)
    (taken : memory.next a.event = some memory') :
    memory'.threads.machine.thread = memory.threads.machine.thread ∧
      memory'.threads.threadNum = memory.threads.threadNum ∧
      memory'.threads.live = memory.threads.live := by
  have sheltered := integral.sheltered
  obtain ⟨threads, moved, rfl⟩ := Option.map_eq_some_iff.mp taken
  cases a with
  | allocate size =>
    rw [Access.event, Paging.Threads.next] at moved
    obtain ⟨⟨result, m⟩, ran, rfl⟩ := Option.map_eq_some_iff.mp moved
    have kept := keepsOnce_myallocate size _ _ _ ran _ _ sheltered.labelled sheltered.running
    exact ⟨kept.1.2, rfl, rfl⟩
  | write address value =>
    rw [Access.event, Paging.Threads.next] at moved
    obtain ⟨⟨_, m⟩, ran, rfl⟩ := Option.map_eq_some_iff.mp moved
    exact ⟨(writeByte_anywhere sheltered ran).thread, rfl, rfl⟩
  | read address =>
    rw [Access.event, Paging.Threads.next] at moved
    obtain ⟨⟨_, m⟩, ran, rfl⟩ := Option.map_eq_some_iff.mp moved
    exact ⟨(readByte_anywhere sheltered ran).thread, rfl, rfl⟩

end Steps

namespace Coupled

variable {w : System} {layout layout' : Layout} {memory : Tracked}

/-- **The coupling gives isolation.** -/
theorem isolated (coupled : Coupled w layout) : Isolated w := by
  have ids := coupled.sound.registered.ids
  refine ⟨?_, coupled.own.secure, fun p inHands stays address value wrote => ?_⟩
  · rw [ids _ coupled.sound.wf.allocated]
    exact coupled.thread
  · obtain ⟨held, allocated⟩ := held_of_inHands coupled.sound.wf inHands
    rw [ids p allocated] at stays wrote ⊢
    exact ((coupled.own.intact _ (coupled.live p held) stays).written address value wrote).1

/-- **User code.** -/
theorem access (coupled : Coupled w layout) {a : Access} (tolerated : Tolerated w.memory a.event)
    (taken : w.memory.next a.event = some memory) : Coupled { w with memory := memory } layout := by
  obtain ⟨thread, threadNum, live⟩ := next_access coupled.own taken
  refine ⟨coupled.sound, coupled.own.step tolerated taken, thread.trans coupled.thread,
    threadNum.trans coupled.threadNum, fun p held => ?_⟩
  show memory.threads.live (p + 1) = true
  rw [live]
  exact coupled.live p held

/-! ### The library -/

/-- Between its parts, a call moves nobody and leaves the memory alone. -/
theorem still (coupled : Coupled w layout) {t : Logged} (sound' : Sound t layout)
    (current : t.sched.current = w.run.sched.current)
    (nodeNum : t.sched.nodeNum = w.run.sched.nodeNum) : Coupled ⟨t, w.memory⟩ layout := by
  refine ⟨sound', coupled.own, ?_, ?_, fun p held => ?_⟩
  · rw [current]
    exact coupled.thread
  · rw [nodeNum]
    exact coupled.threadNum
  · rw [current] at held
    exact coupled.live p held

/-- **A create** is one of both. -/
theorem create (coupled : Coupled w layout) {t : Logged} {thread : Handle}
    (fits : w.run.sched.threadNum < 256) (new : Created w.run.sched thread t.sched)
    (sound' : Sound t (layout.push (.queue (.runQ 0)) w.run.sched.nodeNum))
    (taken : w.memory.next .create = some memory) :
    Coupled ⟨t, memory⟩ (layout.push (.queue (.runQ 0)) w.run.sched.nodeNum) := by
  have tolerated : Tolerated w.memory .create := by
    show w.memory.threads.threadNum < 256
    rw [coupled.threadNum, ← coupled.sound.registered.threadNum]
    exact fits
  have own' : Integral memory := coupled.own.step tolerated taken
  obtain ⟨same, threadNum, live⟩ := next_create taken
  refine ⟨sound', own', ?_, ?_, fun p held => ?_⟩
  · rw [same, new.current]
    exact coupled.thread
  · rw [threadNum, new.nodeNum, coupled.threadNum]
  · rw [live, coupled.threadNum]
    by_cases here : p = w.run.sched.nodeNum
    · rw [here, Function.update_self]
    · rw [Function.update_of_ne fun same => here (Nat.succ.inj same)]
      refine coupled.live p ?_
      rw [new.current] at held
      refine held.imp_right ?_
      rintro ⟨place, member⟩
      exact ⟨place, (Layout.mem_push.mp member).resolve_right fun equal => here equal.1⟩

/-- **A call of `schedule()`** that a thread survives: whoever is next was in the scheduler's
hands. -/
theorem switch (coupled : Coupled w layout) {t : Logged} {now : Int} {resume : Context}
    (survives : w.run.sched.nodes.status w.run.sched.current ≠ .exiting)
    (step : Scheduled w.run.sched layout now resume t.sched layout') (sound' : Sound t layout')
    (taken : w.memory.next (.switch (t.sched.idOf t.sched.current)) = some memory) :
    Coupled ⟨t, memory⟩ layout' := by
  have before : ∀ p, p = t.sched.current ∨ layout'.Placed p → w.memory.threads.live (p + 1) = true := by
    intro p held
    rcases step.places with places | ⟨_, exits, _⟩
    · refine coupled.live p ?_
      rcases (places p).mp held with placed | ⟨current, _⟩
      · exact Or.inr placed
      · exact Or.inl current
    · exact absurd exits survives
  rw [sound'.registered.ids _ sound'.wf.allocated] at taken
  have tolerated : Tolerated w.memory (.switch (t.sched.current + 1)) := before _ (Or.inl rfl)
  have own' : Integral memory := coupled.own.step tolerated taken
  obtain ⟨thread, threadNum, live⟩ := next_switch taken
  refine ⟨sound', own', thread, ?_, fun p held => ?_⟩
  · rw [threadNum, step.nodeNum]
    exact coupled.threadNum
  · rw [live]
    exact before p held

/-- **A call of `schedule()` of an exiting thread** that finds another one: that one is alive, and
nobody but the old thread dies. -/
theorem exit (coupled : Coupled w layout) {t : Logged} {now : Int} {resume : Context}
    (exits : w.run.sched.nodes.status w.run.sched.current = .exiting)
    (finds : FindsNextAt w.run.sched now)
    (step : Scheduled w.run.sched layout now resume t.sched layout') (sound' : Sound t layout')
    (taken : w.memory.next (.exit (t.sched.idOf t.sched.current)) = some memory) :
    Coupled ⟨t, memory⟩ layout' := by
  have before : ∀ p, p = t.sched.current ∨ layout'.Placed p →
      w.memory.threads.live (p + 1) = true ∧ p ≠ w.run.sched.current := by
    intro p held
    rcases step.places with places | ⟨⟨s₁, requeued, nobody⟩, _⟩
    · rcases (places p).mp held with placed | ⟨_, survives⟩
      · refine ⟨coupled.live p (Or.inr placed), ?_⟩
        rintro rfl
        obtain ⟨place, member⟩ := placed
        exact coupled.sound.wf.off place member
      · exact absurd exits survives
    · exact absurd nobody (finds s₁ requeued)
  rw [sound'.registered.ids _ sound'.wf.allocated] at taken
  have tolerated : Tolerated w.memory (.exit (t.sched.current + 1)) := by
    obtain ⟨alive, other⟩ := before _ (Or.inl rfl)
    refine ⟨alive, ?_⟩
    rw [coupled.thread]
    exact fun same => other (Nat.succ.inj same)
  have own' : Integral memory := coupled.own.step tolerated taken
  obtain ⟨thread, threadNum, live⟩ := next_exit taken
  refine ⟨sound', own', thread, ?_, fun p held => ?_⟩
  · rw [threadNum, step.nodeNum]
    exact coupled.threadNum
  · obtain ⟨alive, other⟩ := before p held
    rw [live, coupled.thread, Function.update_of_ne fun same => other (Nat.succ.inj same)]
    exact alive

/-- Both, behind `handOver`. -/
theorem schedule (coupled : Coupled w layout) {t : Logged} {now : Int} {resume : Context}
    (finds : w.run.sched.nodes.status w.run.sched.current = .exiting → FindsNextAt w.run.sched now)
    (step : Scheduled w.run.sched layout now resume t.sched layout') (sound' : Sound t layout')
    (taken : w.memory.next (handOver w.run.sched t.sched) = some memory) :
    Coupled ⟨t, memory⟩ layout' := by
  unfold handOver at taken
  by_cases exits : w.run.sched.nodes.status w.run.sched.current = .exiting
  · rw [if_pos exits] at taken
    exact coupled.exit exits (finds exits) step sound' taken
  · rw [if_neg exits] at taken
    exact coupled.switch exits step sound' taken

/-- **One event of the library**, with what it does to the pages. -/
theorem library (coupled : Coupled w layout) {e : Scheduler.Event} {t : Logged}
    (orderly : JoinsOrderly w.run e) (heir : LeavesHeir w.run.sched e)
    (fits : IdFits w.run.sched e) (stepped : w.run.next e = some t)
    (followed : follow w.memory (paging w.run.sched t.sched e) = some memory) :
    ∃ layout', Coupled ⟨t, memory⟩ layout' := by
  obtain ⟨s', moved, rfl⟩ := Option.map_eq_some_iff.mp stepped
  obtain ⟨out, result⟩ := Scheduler.exec_of_next moved
  obtain ⟨layout', effect, wf'⟩ := coupled.sound.wf.exec orderly.2 result
  have sound' := coupled.sound.step orderly effect wf'
  refine ⟨layout', ?_⟩
  cases effect with
  | createFailed address now allocation =>
    cases allocation with
    | succeeds =>
      -- with its allocations a create succeeds
      obtain ⟨s₁, created, _⟩ :=
        coupled.sound.wf.rep.my_pthread_create (.user address) now
      simp only [Scheduler.exec, created] at result
      split at result
      · cases result
      · cases result
    | _ =>
      cases followed
      exact coupled.still sound' rfl rfl
  | created address now _ runs new => exact coupled.create fits new sound' followed
  | entered now frame _ _ runs step => exact coupled.schedule heir step sound' followed
  | interrupted now _ _ step => exact coupled.schedule heir step sound' followed
  | _ =>
    cases followed
    exact coupled.still sound' rfl rfl

end Coupled

/-! ### Runs -/

theorem SystemStarted.coupled {w : System} (started : SystemStarted w) : Coupled w noLayout := by
  obtain ⟨run, memory, fresh⟩ := started
  have current : w.run.sched.current = 0 := by
    obtain ⟨⟨nodes, threads, now, initial⟩, _⟩ := run
    rw [initial]
    rfl
  have nodeNum : w.run.sched.nodeNum = 1 := by
    obtain ⟨⟨nodes, threads, now, initial⟩, _⟩ := run
    rw [initial]
    rfl
  refine ⟨run.sound, TrackedStarted.integral ⟨memory, fresh⟩, ?_, ?_, fun p held => ?_⟩
  · rw [current]
    exact memory.thread
  · rw [nodeNum]
    exact memory.threadNum
  · rcases held with rfl | ⟨place, member⟩
    · rw [current, memory.live]
      rfl
    · cases member

/-- **Thread-private memory under the real scheduler.** In every run in which the joins are orderly,
no thread exits as the last one, ids fit and allocations are tolerated, with user code that writes
anywhere in user space, the pages are those of the thread `schedule()` has chosen, and every thread
that stays inside its allocations keeps what it has written. -/
theorem kernel_private {w : System}
    (reached : Reach SystemStarted Admissible (execStep System.next) w) : Isolated w := by
  obtain ⟨layout, coupled⟩ : ∃ layout, Coupled w layout := by
    refine reached.invariant (fun w => ∃ layout, Coupled w layout)
      (fun w started => ⟨noLayout, started.coupled⟩) ?_
    rintro w e w' ⟨layout, coupled⟩ admissible taken
    cases e with
    | library e =>
      obtain ⟨orderly, heir, fits⟩ := admissible
      obtain ⟨t, stepped, rest⟩ := Option.bind_eq_some_iff.mp taken
      obtain ⟨memory, followed, rfl⟩ := Option.map_eq_some_iff.mp rest
      exact coupled.library orderly heir fits stepped followed
    | access a =>
      have moved : (if w.run.sched.running.frame = .code then
          (w.memory.next a.event).map fun memory => { w with memory := memory } else none)
            = some w' := taken
      split at moved
      · obtain ⟨memory, accessed, rfl⟩ := Option.map_eq_some_iff.mp moved
        exact ⟨layout, coupled.access admissible accessed⟩
      · cases moved
  exact coupled.isolated

/-- Both just made, over zeroed memory. -/
def zeroSystem : System := ⟨⟨zeroed, fun _ => none⟩, ⟨zeroThreads, fun _ => false⟩⟩

/-- The main thread writes and creates thread `2`, which the timer switches to; that one writes at
the same address and over its block header, and exits, and the main thread goes on. -/
def handOverRun : List Event :=
  [.access (.allocate 100), .access (.write 4 7), .library (.create 0 0 .succeeds),
    .library (.timer 0), .access (.allocate 50), .access (.write 4 9), .access (.write 1 255),
    .library (.exit 0), .library (.enterSchedule 0)]

theorem kernel_private_handOver : ∃ w, w.run.sched.current = 0 ∧ w.memory.trespassed 2 = true ∧
    w.memory.threads.written 1 4 = some 7 ∧ w.memory.threads.live 2 = false ∧ Isolated w := by
  have start : Reach SystemStarted Admissible (execStep System.next) zeroSystem :=
    .init ⟨⟨zeroed_started, rfl⟩, zeroThreads_started, rfl⟩
  obtain ⟨w, reached, found⟩ := start.exists_of_execAll handOverRun
    (fun w => w.run.sched.current = 0 ∧ w.memory.trespassed 2 = true ∧
      w.memory.threads.written 1 4 = some 7 ∧ w.memory.threads.live 2 = false) (by decide +kernel)
  obtain ⟨current, guilty, wrote, died⟩ := of_decide_eq_true found
  exact ⟨w, current, guilty, wrote, died, kernel_private reached⟩

end OS2017.Kernel
