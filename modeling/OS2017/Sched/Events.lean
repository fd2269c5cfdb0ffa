/-
**The events of the scheduler, inverted.**

`Executed s e out s'` has one constructor for each thing an event can run (`executed_of_exec`), and
`Effect s layout e out s' layout'` has, for a state between two events, all that it changes
(`Wf.exec`). The invariants of the runs are proved by cases on these, without looking into the model
again.

`Joined` is the guard the wellformedness of the next state needs: a thread that blocks in
`my_pthread_join` leaves another one to run.
-/

import OS2017.Lib.Run
import OS2017.Sched.Steps

namespace OS2017.Sched

open OS2017.Intrusive OS2017.Run

/-- The events that call `schedule`. -/
def Schedules : Scheduler.Event → Prop
  | .enterSchedule _ => True
  | .timer _ => True
  | _ => False

instance (e : Scheduler.Event) : Decidable (Schedules e) := by
  cases e <;> unfold Schedules <;> infer_instance

/-- **A joining thread leaves another one to run.** -/
def LeavesSuccessor (s : Scheduler) (e : Scheduler.Event) : Prop :=
  Schedules e → s.nodes.status s.current = .joining → SomeRunnable s

instance (s : Scheduler) (e : Scheduler.Event) : Decidable (LeavesSuccessor s e) := by
  unfold LeavesSuccessor
  infer_instance

/-- **What a successful `my_pthread_create` changes.** The new node is the next one allocated. -/
structure Created (s : Scheduler) (thread : Handle) (s' : Scheduler) : Prop where
  threadID : s'.nodes.threadID = Function.update s.nodes.threadID s.nodeNum thread
  ut : s'.nodes.ut = Function.update s.nodes.ut s.nodeNum ⟨false, .code⟩
  status : s'.nodes.status = Function.update s.nodes.status s.nodeNum .neutral
  joinee : s'.nodes.joinee = Function.update s.nodes.joinee s.nodeNum none
  threads : s'.threads = s.setThread thread s.threadNum s.threadList
  threadList : s'.threadList = some thread
  threadNum : s'.threadNum = s.threadNum + 1
  nodeNum : s'.nodeNum = s.nodeNum + 1
  current : s'.current = s.current
  running : s'.running = s.running

/-- `my_pthread_join` on a live thread, up to its call of `schedule`. -/
def joinWait (s : Scheduler) (id : Nat) (ptr : Handle) : Scheduler :=
  ({ s.setCurrentStatus .joining with nodes := { (s.setCurrentStatus .joining).nodes with
      joinee := Function.update s.nodes.joinee s.current (some ptr) } }).enter (.joinCall id ptr)

open Scheduler (Event Outcome Allocation)

/-- **What an event runs**, whatever the queues look like. -/
inductive Executed (s : Scheduler) : Event → Outcome → Scheduler → Prop
  | createFailed (address : Nat) (now : Int) (allocation : Allocation)
      (runs : s.running.frame = .code) :
      Executed s (.create address now allocation) (.created 1) s
  | created (address : Nat) (now : Int) (s' : Scheduler) (runs : s.running.frame = .code)
      (ran : s.my_pthread_create (.user address) now .succeeds = some (0, s')) :
      Executed s (.create address now .succeeds) (.created 0) s'
  | yielded (runs : s.running.frame = .code) :
      Executed s .yield .pending ((s.setCurrentStatus .yielding).enter .yieldCall)
  | exited (value_ptr : Nat) (runs : s.running.frame = .code) :
      Executed s (.exit value_ptr) .pending ((s.my_pthread_exit value_ptr).enter .exitCall)
  | returned (runs : s.running = ⟨false, .code⟩) :
      Executed s .functionReturn .pending ((s.setCurrentStatus .exiting).enter .termCall)
  | joinUnknown (id : Nat) (runs : s.running.frame = .code) (missing : s.findThread id = some none) :
      Executed s (.join id) (.unknown id) s
  | joinDead (id : Nat) (ptr : Handle) (runs : s.running.frame = .code)
      (found : s.findThread id = some (some ptr)) (dead : s.threads.isDead ptr = true) :
      Executed s (.join id) (.joined id ptr (s.threads.exitArg ptr)) s
  | joinWaits (id : Nat) (ptr : Handle) (runs : s.running.frame = .code)
      (found : s.findThread id = some (some ptr)) (alive : s.threads.isDead ptr = false) :
      Executed s (.join id) .pending (joinWait s id ptr)
  | joinReturned (id : Nat) (ptr : Handle) (runs : s.running.frame = .joinWoken id ptr) :
      Executed s .joinReturn (.joined id ptr (s.threads.exitArg ptr)) (s.enter .code)
  | entered (now : Int) (frame : Frame) (s' : Scheduler)
      (runs : Scheduler.afterSchedule s.running.frame = some frame)
      (ran : s.schedule now { s.running with frame := frame } = some s') :
      Executed s (.enterSchedule now) .pending s'
  | interrupted (now : Int) (s' : Scheduler) (runs : s.running.frame ≠ .termDone)
      (ran : s.schedule now s.running = some s') :
      Executed s (.timer now) .pending s'

/-- **The inversion of `exec`.** -/
theorem executed_of_exec {s s' : Scheduler} {e : Event} {out : Outcome}
    (taken : s.exec e = some (out, s')) : Executed s e out s' := by
  cases e with
  | create address now allocation =>
    simp only [Scheduler.exec] at taken
    split at taken
    · rename_i runs
      obtain ⟨⟨code, s₁⟩, result, same⟩ := Option.map_eq_some_iff.mp taken
      cases same
      cases allocation with
      | noContext =>
        cases result
        exact .createFailed _ _ _ runs
      | noStack =>
        cases result
        exact .createFailed _ _ _ runs
      | noNode => cases result
      | succeeds =>
        obtain ⟨_, _, same⟩ := Option.map_eq_some_iff.mp result
        cases same
        exact .created _ _ _ runs result
    · cases taken
  | yield =>
    simp only [Scheduler.exec] at taken
    split at taken
    · rename_i runs
      cases taken
      exact .yielded runs
    · cases taken
  | exit value_ptr =>
    simp only [Scheduler.exec] at taken
    split at taken
    · rename_i runs
      cases taken
      exact .exited value_ptr runs
    · cases taken
  | functionReturn =>
    simp only [Scheduler.exec] at taken
    split at taken
    · rename_i runs
      cases taken
      exact .returned runs
    · cases taken
  | join id =>
    simp only [Scheduler.exec] at taken
    split at taken
    · rename_i runs
      obtain ⟨found, search, same⟩ := Option.map_eq_some_iff.mp taken
      cases found with
      | none =>
        cases same
        exact .joinUnknown id runs search
      | some ptr =>
        by_cases dead : s.threads.isDead ptr = true
        · simp only [dead, if_true] at same
          cases same
          exact .joinDead id ptr runs search dead
        · simp only [dead] at same
          cases same
          exact .joinWaits id ptr runs search (by simpa using dead)
    · cases taken
  | joinReturn =>
    simp only [Scheduler.exec] at taken
    split at taken
    · rename_i id ptr runs
      cases taken
      exact .joinReturned id ptr runs
    · cases taken
  | enterSchedule now =>
    simp only [Scheduler.exec] at taken
    obtain ⟨frame, runs, rest⟩ := Option.bind_eq_some_iff.mp taken
    obtain ⟨s₁, result, same⟩ := Option.map_eq_some_iff.mp rest
    cases same
    exact .entered now frame _ runs result
  | timer now =>
    simp only [Scheduler.exec] at taken
    split at taken
    · cases taken
    · rename_i runs
      obtain ⟨s₁, result, same⟩ := Option.map_eq_some_iff.mp taken
      cases same
      exact .interrupted now _ runs result

/-- **One event, and all it changes.** -/
inductive Effect (s : Scheduler) (layout : Layout) : Event → Outcome → Scheduler → Layout → Prop
  | createFailed (address : Nat) (now : Int) (allocation : Allocation) :
      Effect s layout (.create address now allocation) (.created 1) s layout
  | created (address : Nat) (now : Int) (s' : Scheduler) (runs : s.running.frame = .code)
      (new : Created s (.user address) s') :
      Effect s layout (.create address now .succeeds) (.created 0) s'
        (layout.push (.queue (.runQ 0)) s.nodeNum)
  | yielded (runs : s.running.frame = .code) :
      Effect s layout .yield .pending ((s.setCurrentStatus .yielding).enter .yieldCall) layout
  | exited (value_ptr : Nat) (runs : s.running.frame = .code) :
      Effect s layout (.exit value_ptr) .pending ((s.my_pthread_exit value_ptr).enter .exitCall)
        layout
  | returned (runs : s.running = ⟨false, .code⟩) :
      Effect s layout .functionReturn .pending ((s.setCurrentStatus .exiting).enter .termCall)
        layout
  | joinUnknown (id : Nat) (missing : s.findThread id = some none) :
      Effect s layout (.join id) (.unknown id) s layout
  | joinDead (id : Nat) (ptr : Handle) (found : s.findThread id = some (some ptr))
      (dead : s.threads.isDead ptr = true) :
      Effect s layout (.join id) (.joined id ptr (s.threads.exitArg ptr)) s layout
  | joinWaits (id : Nat) (ptr : Handle) (runs : s.running.frame = .code)
      (found : s.findThread id = some (some ptr)) (alive : s.threads.isDead ptr = false) :
      Effect s layout (.join id) .pending (joinWait s id ptr) layout
  | joinReturned (id : Nat) (ptr : Handle) (runs : s.running.frame = .joinWoken id ptr) :
      Effect s layout .joinReturn (.joined id ptr (s.threads.exitArg ptr)) (s.enter .code) layout
  | entered (now : Int) (frame : Frame) (s' : Scheduler) (layout' : Layout)
      (runs : Scheduler.afterSchedule s.running.frame = some frame)
      (step : Scheduled s layout now { s.running with frame := frame } s' layout') :
      Effect s layout (.enterSchedule now) .pending s' layout'
  | interrupted (now : Int) (s' : Scheduler) (layout' : Layout)
      (step : Scheduled s layout now s.running s' layout') :
      Effect s layout (.timer now) .pending s' layout'

/-! ### Wellformedness of the next state -/

/-- Changing statuses, joinees and thread records of a wellformed state, with nothing moved. -/
theorem Wf.retag {s s' : Scheduler} {layout : Layout} (wf : Wf s layout)
    (next : s'.nodes.next = s.nodes.next) (priority : s'.nodes.priority = s.nodes.priority)
    (queues : s'.queues = s.queues) (joinList : s'.joinList = s.joinList)
    (current : s'.current = s.current) (nodeNum : s'.nodeNum = s.nodeNum)
    (status : ∀ p, p ≠ s.current → s'.nodes.status p = s.nodes.status p)
    (joinee : ∀ p, p ≠ s.current → s'.nodes.joinee p = s.nodes.joinee p)
    (target : s'.nodes.status s.current = .joining → s'.nodes.joinee s.current ≠ none) :
    Wf s' layout := by
  have apart : ∀ place, ∀ p ∈ layout place, p ≠ s.current := fun place p member same =>
    wf.off place (same ▸ member)
  refine ⟨⟨fun slot => ?_, fun k => ?_, ?_, wf.rep.nodup, wf.rep.apart, fun k p member => ?_,
    fun place p member => ?_⟩, current.symm ▸ wf.off, ?_, wf.promotion, fun p bound => ?_,
    fun p bound joining => ?_, fun slot p member => ?_, fun p member => ?_⟩
  · rw [next, queues]
    exact wf.rep.queued slot
  · rw [queues]
    exact wf.rep.level k
  · rw [next, joinList]
    exact wf.rep.joined
  · rw [priority]
    exact wf.rep.ranked k p member
  · rw [nodeNum]
    exact wf.rep.bounded place p member
  · rw [current, nodeNum]
    exact wf.allocated
  · rw [priority]
    exact wf.ranked p (nodeNum ▸ bound)
  · by_cases same : p = s.current
    · rw [same] at joining ⊢
      exact target joining
    · rw [joinee p same]
      exact wf.target p (nodeNum ▸ bound) (status p same ▸ joining)
  · rw [status p (apart _ p member)]
    exact wf.awake slot p member
  · rw [status p (apart _ p member)]
    exact wf.blocked p member

/-- Setting the status of `current`, to anything but joining. -/
theorem Wf.setCurrentStatus {s : Scheduler} {layout : Layout} (wf : Wf s layout) {status : Status}
    (notJoining : status ≠ .joining) (frame : Frame) :
    Wf ((s.setCurrentStatus status).enter frame) layout := by
  refine wf.retag rfl rfl rfl rfl rfl rfl (fun p different => ?_) (fun _ _ => rfl) fun joining => ?_
  · exact Function.update_of_ne different _ _
  · refine absurd ?_ notJoining
    simpa [Scheduler.setCurrentStatus, Scheduler.enter, Nodes.setStatus] using joining

theorem Wf.my_pthread_exit {s : Scheduler} {layout : Layout} (wf : Wf s layout) (value_ptr : Nat) :
    Wf ((s.my_pthread_exit value_ptr).enter .exitCall) layout := by
  refine wf.retag rfl rfl rfl rfl rfl rfl (fun p different => ?_) (fun _ _ => rfl) fun joining => ?_
  · exact Function.update_of_ne different _ _
  · simp [Scheduler.my_pthread_exit, Scheduler.setCurrentStatus, Scheduler.enter,
      Nodes.setStatus] at joining

theorem Wf.joinWait {s : Scheduler} {layout : Layout} (wf : Wf s layout) (id : Nat) (ptr : Handle) :
    Wf (joinWait s id ptr) layout := by
  refine wf.retag rfl rfl rfl rfl rfl rfl (fun p different => ?_) (fun p different => ?_) fun _ => ?_
  · exact Function.update_of_ne different _ _
  · exact Function.update_of_ne different _ _
  · simp [Sched.joinWait, Scheduler.enter]

/-- **`my_pthread_create` appends the new node to `runQ[0]`**, whatever the running thread does. -/
theorem Rep.my_pthread_create {s : Scheduler} {layout : Layout} (rep : Rep s layout)
    (thread : Handle) (now : Int) :
    ∃ s', s.my_pthread_create thread now .succeeds = some (0, s') ∧ Created s thread s' ∧
      Rep s' (layout.push (.queue (.runQ 0)) s.nodeNum) ∧
      s'.nodes.priority = Function.update s.nodes.priority s.nodeNum 0 := by
  set s₁ := ((s.register thread).createNode ⟨false, .code⟩ thread now).2 with s₁_eq
  have off : layout.Off s.nodeNum := fun place member =>
    absurd (rep.bounded place _ member) (lt_irrefl _)
  have apart : ∀ place, ∀ p ∈ layout place, p ≠ s.nodeNum := fun place p member same =>
    off place (same ▸ member)
  have next : ∀ place, ∀ p ∈ layout place, s₁.nodes.next p = s.nodes.next p :=
    fun place p member => Function.update_of_ne (apart place p member) _ _
  have rep₁ : Rep s₁ layout := by
    refine ⟨fun slot => (rep.queued slot).frame (next _), rep.level,
      rep.joined.frame (next _), rep.nodup, rep.apart, fun k p member => ?_,
      fun place p member => lt_trans (rep.bounded place p member) (Nat.lt_succ_self _)⟩
    exact (Function.update_of_ne (apart _ p member) _ _).trans (rep.ranked k p member)
  have newStatus : s₁.nodes.status s.nodeNum = .neutral := Function.update_self _ _ _
  obtain ⟨s', pushed, rep', kept, priority, _⟩ := rep₁.enQ (k := 0) off (Nat.lt_succ_self _)
    fun yielding => by
      rw [newStatus] at yielding
      cases yielding
  refine ⟨s', ?_, ⟨kept.threadID, kept.ut, kept.status, kept.joinee, kept.threads, kept.threadList,
    kept.threadNum, kept.nodeNum, kept.current, kept.running⟩, rep', ?_⟩
  · have same : (s.register thread).createNode ⟨false, .code⟩ thread now = (s.nodeNum, s₁) := rfl
    simp only [Scheduler.my_pthread_create, same, pushed, Option.map_some]
  · rw [priority]
    exact Function.update_idem _ _ _

/-- The same between two events. -/
theorem Wf.my_pthread_create {s : Scheduler} {layout : Layout} (wf : Wf s layout) (thread : Handle)
    (now : Int) :
    ∃ s', s.my_pthread_create thread now .succeeds = some (0, s') ∧ Created s thread s' ∧
      Wf s' (layout.push (.queue (.runQ 0)) s.nodeNum) := by
  obtain ⟨s', result, new, rep', priority⟩ := wf.rep.my_pthread_create thread now
  have apart : ∀ place, ∀ p ∈ layout place, p ≠ s.nodeNum := fun place p member =>
    ne_of_lt (wf.rep.bounded place p member)
  have status : ∀ p, p ≠ s.nodeNum → s'.nodes.status p = s.nodes.status p := fun p different => by
    rw [new.status]
    exact Function.update_of_ne different _ _
  have joinee : ∀ p, p ≠ s.nodeNum → s'.nodes.joinee p = s.nodes.joinee p := fun p different => by
    rw [new.joinee]
    exact Function.update_of_ne different _ _
  have statusNew : s'.nodes.status s.nodeNum = .neutral := by
    rw [new.status]
    exact Function.update_self _ _ _
  have nodeNum : s'.nodeNum = s.nodeNum + 1 := new.nodeNum
  refine ⟨s', result, new, rep', fun place member => ?_, ?_, fun i => ?_, fun p bound => ?_,
    fun p bound joining => ?_, fun slot p member => ?_, fun p member => ?_⟩
  · rw [new.current] at member
    rcases Layout.mem_push.mp member with before | ⟨equal, _⟩
    · exact wf.off place before
    · exact ne_of_lt wf.allocated equal
  · rw [new.current, nodeNum]
    exact lt_trans wf.allocated (Nat.lt_succ_self _)
  · rw [Layout.push, Function.update_of_ne (by simp)]
    exact wf.promotion i
  · rw [priority]
    by_cases same : p = s.nodeNum
    · rw [same, Function.update_self]
      decide
    · rw [Function.update_of_ne same]
      exact wf.ranked p (by omega)
  · by_cases same : p = s.nodeNum
    · rw [same, statusNew] at joining
      cases joining
    · rw [joinee p same]
      exact wf.target p (by omega) (status p same ▸ joining)
  · rcases Layout.mem_push.mp member with before | ⟨equal, _⟩
    · rw [status p (apart _ p before)]
      exact wf.awake slot p before
    · rw [equal, statusNew]
      simp
  · rcases Layout.mem_push.mp member with before | ⟨_, other⟩
    · rw [status p (apart _ p before)]
      exact wf.blocked p before
    · cases other

/-- **The inversion on a wellformed state.** -/
theorem Wf.exec {s s' : Scheduler} {layout : Layout} (wf : Wf s layout) {e : Event} {out : Outcome}
    (leaves : LeavesSuccessor s e) (taken : s.exec e = some (out, s')) :
    ∃ layout', Effect s layout e out s' layout' ∧ Wf s' layout' := by
  cases executed_of_exec taken with
  | createFailed => exact ⟨layout, .createFailed _ _ _, wf⟩
  | created address now _ runs ran =>
    obtain ⟨s₁, result, new, wf'⟩ := wf.my_pthread_create (.user address) now
    rw [result] at ran
    cases ran
    exact ⟨_, .created address now _ runs new, wf'⟩
  | yielded runs => exact ⟨layout, .yielded runs, wf.setCurrentStatus (by simp) _⟩
  | exited value_ptr runs => exact ⟨layout, .exited value_ptr runs, wf.my_pthread_exit value_ptr⟩
  | returned runs => exact ⟨layout, .returned runs, wf.setCurrentStatus (by simp) _⟩
  | joinUnknown id _ missing => exact ⟨layout, .joinUnknown id missing, wf⟩
  | joinDead id ptr _ found dead => exact ⟨layout, .joinDead id ptr found dead, wf⟩
  | joinWaits id ptr runs found alive =>
    exact ⟨layout, .joinWaits id ptr runs found alive, wf.joinWait id ptr⟩
  | joinReturned id ptr runs =>
    exact ⟨layout, .joinReturned id ptr runs, wf.retag rfl rfl rfl rfl rfl rfl (fun _ _ => rfl)
      (fun _ _ => rfl) (wf.target s.current wf.allocated)⟩
  | entered now frame _ runs ran =>
    obtain ⟨layout', step⟩ := wf.schedule (leaves trivial) ran
    exact ⟨layout', .entered now frame _ layout' runs step, step.wf⟩
  | interrupted now _ _ ran =>
    obtain ⟨layout', step⟩ := wf.schedule (leaves trivial) ran
    exact ⟨layout', .interrupted now _ layout' step, step.wf⟩

/-! ### The start -/

/-- The scheduler just initialised, whatever the memory held before. -/
def Started (s : Scheduler) : Prop :=
  ∃ nodes threads now, s = Scheduler.initializeScheduler nodes threads now

/-- Nothing is placed. -/
def noLayout : Layout := fun _ => []

theorem Started.wf {s : Scheduler} (started : Started s) : Wf s noLayout := by
  obtain ⟨nodes, threads, now, rfl⟩ := started
  refine ⟨⟨fun slot => ?_, fun _ => rfl, rfl, fun _ => List.nodup_nil, fun _ _ _ member => ?_,
    fun _ _ member => ?_, fun _ _ member => ?_⟩, fun _ member => ?_, Nat.one_pos, fun _ => rfl,
    fun p bound => ?_, fun p bound joining => ?_, fun _ _ member => ?_, fun _ member => ?_⟩
  · cases slot <;> exact queued_nil _
  · cases member
  · cases member
  · cases member
  · cases member
  · have : p = 0 := Nat.lt_one_iff.mp bound
    subst this
    show 0 < RUN_QUEUE_SIZE
    decide
  · have : p = 0 := Nat.lt_one_iff.mp bound
    subst this
    cases joining
  · cases member
  · cases member

end OS2017.Sched
