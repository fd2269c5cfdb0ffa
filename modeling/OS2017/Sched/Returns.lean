/-
**When a join returns the value of its thread.**

A `my_pthread_join` whose `schedule()` finds no other thread to run returns at once, and so does one
whose thread has died, however often its thread is parked again behind a stale `JOINING`. In every run
in which a `schedule()` called by `my_pthread_join` finds another thread to run, and no `my_pthread_t`
is passed again while a thread the scheduler has was created with it, or is in a join of it, a join
that returns `0` has waited for a dead thread and stores the value that thread passed to
`my_pthread_exit`, or `NULL` (`join_sound`).

Nothing is asked of timer signals. So a thread with a stale `JOINING` may be parked while nobody else
can run, and the queues may come apart (`Tame`); but who enters a run queue in the middle of a join
has been taken from the join list by the exit of the thread it waits for (`Turned.members`).
-/

import OS2017.Sched.Rounds
import OS2017.Sched.Handles
import OS2017.Sched.Stale

namespace OS2017.Sched

open OS2017.Intrusive OS2017.Run

open Scheduler (Event Outcome Allocation)

/-- **Join correctness.** A join that returns `0` found the thread dead, and stored its value. -/
def JoinSound (t : Logged) : Prop :=
  ∀ e id ptr value s', t.sched.exec e = some (.joined id ptr value, s') →
    t.sched.threads.id ptr = id ∧ t.sched.threads.isDead ptr = true ∧ t.ended id = some value

/-! ### The condition -/

/-- The record of the thread that a join waits for, inside it. -/
def Frame.joins : Frame → Option Handle
  | .joinCall _ ptr => some ptr
  | .joinWoken _ ptr => some ptr
  | _ => none

/-- In front of the `schedule()` of a `my_pthread_join`. -/
def Frame.isJoinCall : Frame → Bool
  | .joinCall _ _ => true
  | _ => false

/-- `current` is inside a `my_pthread_join`, in front of its `schedule()`. -/
def InJoin (s : Scheduler) : Prop := s.running.frame.isJoinCall = true

instance (s : Scheduler) : Decidable (InJoin s) :=
  inferInstanceAs (Decidable (s.running.frame.isJoinCall = true))

/-- A `schedule()` that `my_pthread_join` calls finds another thread to run. -/
def JoinLeaves (s : Scheduler) : Event → Prop
  | .enterSchedule _ => InJoin s → SomeRunnable s
  | _ => True

instance (s : Scheduler) : (e : Event) → Decidable (JoinLeaves s e)
  | .create _ _ _ => isTrue trivial
  | .yield => isTrue trivial
  | .exit _ => isTrue trivial
  | .functionReturn => isTrue trivial
  | .join _ => isTrue trivial
  | .enterSchedule _ => inferInstanceAs (Decidable (InJoin s → SomeRunnable s))
  | .joinReturn => isTrue trivial
  | .timer _ => isTrue trivial

/-- No thread the scheduler has was created with the handle of a new one, or is in a join of it. -/
def HandleFree (s : Scheduler) : Event → Prop
  | .create address _ .succeeds => ∀ p < s.nodeNum, Held s p →
      s.nodes.threadID p ≠ .user address ∧ (s.context p).frame.joins ≠ some (.user address)
  | _ => True

/-- **Joins wait**, for a thread that nobody shares its handle with. -/
def JoinsWait (t : Logged) (e : Event) : Prop := JoinLeaves t.sched e ∧ HandleFree t.sched e

/-! ### The state between two events -/

theorem Tame.held {s : Scheduler} {lists : Lists} (tame : Tame s lists) {p : NodePtr}
    (present : Present s p) : Held s p := by
  rcases present with own | ⟨slot, found⟩ | found
  · exact Or.inl own
  · have member := ((tame.frayed.loose slot).linked.onList_iff p).mp found
    obtain ⟨k, inRange, rfl⟩ := tame.frayed.level_lt tame.settled tame.ranked member
    exact Or.inr (Or.inl ⟨k, inRange, found⟩)
  · exact Or.inr (Or.inr found)

theorem Tame.present {s : Scheduler} {lists : Lists} (tame : Tame s lists) {p : NodePtr}
    (either : p = s.current ∨ lists.Has p) : Present s p :=
  either.imp_right tame.frayed.reached

/-! ### Library calls -/

/-- **What a library call leaves alone** up to its `schedule()`. -/
structure Untouched (s s' : Scheduler) : Prop where
  links : s'.nodes.next = s.nodes.next
  priority : s'.nodes.priority = s.nodes.priority
  queues : s'.queues = s.queues
  joinList : s'.joinList = s.joinList
  threadID : s'.nodes.threadID = s.nodes.threadID
  ut : s'.nodes.ut = s.nodes.ut
  id : s'.threads.id = s.threads.id
  next : s'.threads.next = s.threads.next
  isDead : s'.threads.isDead = s.threads.isDead
  threadList : s'.threadList = s.threadList
  threadNum : s'.threadNum = s.threadNum
  nodeNum : s'.nodeNum = s.nodeNum
  current : s'.current = s.current

/-- **Such a call**, or the return of a join: the status, the joinee and the context of `current`
change, and what its thread has ended with. -/
structure Tagged (t t' : Logged) : Prop extends Untouched t.sched t'.sched where
  status : ∀ p, p ≠ t.sched.current → t'.sched.nodes.status p = t.sched.nodes.status p
  joinee : ∀ p, p ≠ t.sched.current → t'.sched.nodes.joinee p = t.sched.nodes.joinee p
  exitArg : ∀ ptr, ptr ≠ t.sched.nodes.threadID t.sched.current →
    t'.sched.threads.exitArg ptr = t.sched.threads.exitArg ptr
  ended : ∀ id, id ≠ t.sched.idOf t.sched.current → t'.ended id = t.ended id
  value : t.sched.threads.exitArg (t.sched.nodes.threadID t.sched.current)
      = (t.ended (t.sched.idOf t.sched.current)).getD 0 →
    t'.sched.threads.exitArg (t.sched.nodes.threadID t.sched.current)
      = (t'.ended (t.sched.idOf t.sched.current)).getD 0
  exits : t'.sched.nodes.status t.sched.current = .exiting →
    t.sched.nodes.status t.sched.current = .exiting ∨
      t'.ended (t.sched.idOf t.sched.current) ≠ none
  still : t.ended (t.sched.idOf t.sched.current) ≠ none →
    t'.ended (t.sched.idOf t.sched.current) ≠ none
  calls : ∀ id ptr, t'.sched.running.frame = .joinCall id ptr →
    t'.sched.nodes.status t.sched.current = .joining ∧
      t'.sched.nodes.joinee t.sched.current = some ptr ∧ t.sched.findThread id = some (some ptr)
  returned : ∀ id ptr, t'.sched.running.frame ≠ .joinWoken id ptr

/-- A step that leaves the log, the thread records and the joinees as they are. -/
theorem Tagged.of_status (t : Logged) {status : Status} {frame : Frame} (lives : status ≠ .exiting)
    (outside : ∀ id ptr, frame ≠ .joinCall id ptr) (notWoken : ∀ id ptr, frame ≠ .joinWoken id ptr) :
    Tagged t ⟨(t.sched.setCurrentStatus status).enter frame, t.ended⟩ where
  toUntouched := by constructor <;> rfl
  status _ different := Function.update_of_ne different _ _
  joinee _ _ := rfl
  exitArg _ _ := rfl
  ended _ _ := rfl
  value holds := holds
  exits exiting := absurd ((Function.update_self _ _ _).symm.trans exiting) lives
  still known := known
  calls id ptr inCall := absurd inCall (outside id ptr)
  returned := notWoken

/-- The same, with the status left alone too. -/
theorem Tagged.of_frame (t : Logged) {frame : Frame} (outside : ∀ id ptr, frame ≠ .joinCall id ptr)
    (notWoken : ∀ id ptr, frame ≠ .joinWoken id ptr) : Tagged t ⟨t.sched.enter frame, t.ended⟩ where
  toUntouched := by constructor <;> rfl
  status _ _ := rfl
  joinee _ _ := rfl
  exitArg _ _ := rfl
  ended _ _ := rfl
  value holds := holds
  exits := Or.inl
  still known := known
  calls id ptr inCall := absurd inCall (outside id ptr)
  returned := notWoken

/-- A `my_pthread_exit`, up to its `schedule()`. -/
theorem Tagged.exited (t : Logged) (value_ptr : Nat) :
    Tagged t ⟨(t.sched.my_pthread_exit value_ptr).enter .exitCall, t.log (.exit value_ptr)⟩ where
  toUntouched := by constructor <;> rfl
  status _ different := Function.update_of_ne different _ _
  joinee _ _ := rfl
  exitArg _ different := Function.update_of_ne different _ _
  ended _ different := Function.update_of_ne different _ _
  value _ := by
    simp [Scheduler.my_pthread_exit, Scheduler.enter, Scheduler.setCurrentStatus, Nodes.setStatus,
      Logged.log]
  exits _ := Or.inr (by simp [Logged.log])
  still _ := by simp [Logged.log]
  calls id ptr inCall := by cases inCall
  returned id ptr woken := by cases woken

/-- The return of the thread's function, up to its `schedule()`. -/
theorem Tagged.functionReturned (t : Logged) :
    Tagged t ⟨(t.sched.setCurrentStatus .exiting).enter .termCall, t.log .functionReturn⟩ where
  toUntouched := by constructor <;> rfl
  status _ different := Function.update_of_ne different _ _
  joinee _ _ := rfl
  exitArg _ _ := rfl
  ended _ different := Function.update_of_ne different _ _
  value holds := by
    simpa [Logged.log, Scheduler.setCurrentStatus, Scheduler.enter] using holds
  exits _ := Or.inr (by simp [Logged.log])
  still _ := by simp [Logged.log]
  calls id ptr inCall := by cases inCall
  returned id ptr woken := by cases woken

/-- A `my_pthread_join` on a live thread, up to its `schedule()`. -/
theorem Tagged.joinWaits (t : Logged) {id : Nat} {ptr : Handle}
    (found : t.sched.findThread id = some (some ptr)) :
    Tagged t ⟨joinWait t.sched id ptr, t.ended⟩ where
  toUntouched := by constructor <;> rfl
  status _ different := Function.update_of_ne different _ _
  joinee _ different := Function.update_of_ne different _ _
  exitArg _ _ := rfl
  ended _ _ := rfl
  value holds := holds
  exits exiting := by
    have joining : (joinWait t.sched id ptr).nodes.status t.sched.current = .joining :=
      Function.update_self _ _ _
    cases joining.symm.trans exiting
  still known := known
  calls id' ptr' inCall := by
    cases inCall
    exact ⟨Function.update_self _ _ _, Function.update_self _ _ _, found⟩
  returned id ptr woken := by cases woken

/-- **A library call up to its `schedule()`** keeps the queues tame. -/
theorem Tame.untouched {s s' : Scheduler} {lists : Lists} (tame : Tame s lists)
    (same : Untouched s s')
    (status : ∀ p, p ≠ s.current → s'.nodes.status p = s.nodes.status p) : Tame s' lists := by
  have present : ∀ p, Present s' p → Present s p := fun p either =>
    either.imp (fun own => own.trans same.current) fun found =>
      found.of_same same.links same.queues same.joinList
  refine ⟨tame.frayed.of_same same.links same.priority same.queues same.nodeNum, tame.settled, ?_,
    ?_, fun p apart found => ?_, fun p either => ?_, fun p q left right sameId => ?_⟩
  · intro p bound
    rw [same.priority]
    exact tame.ranked p (same.nodeNum ▸ bound)
  · rw [same.current]
    exact tame.unqueued.of_same same.queues
  · rw [same.current] at apart
    rw [status p apart]
    exact tame.awake p apart (found.of_same same.links same.queues same.joinList)
  · rw [same.nodeNum]
    exact tame.allocated p (present p either)
  · refine tame.distinct p q (present p left) (present q right) ?_
    unfold Scheduler.idOf at sameId ⊢
    rwa [same.id, same.threadID] at sameId

/-- **The context of a node** is changed by `schedule` for its caller only. -/
theorem Turned.context {s s' : Scheduler} {lists lists' : Lists} {resume : Context}
    (turned : Turned s lists resume s' lists') (p : NodePtr) :
    s'.context p = if p = s.current then resume else s.context p := by
  unfold Scheduler.context
  rcases turned.switch with ⟨same, running, ut⟩ | ⟨different, running, ut⟩
  · rw [same, running, ut]
    by_cases own : p = s.current
    · rw [if_pos own, if_pos own]
    · rw [if_neg own, if_neg own, if_neg own]
  · rw [running, ut]
    by_cases own : p = s.current
    · have elsewhere : p ≠ s'.current := fun other => different (other.symm.trans own)
      rw [if_pos own, if_neg elsewhere, own, Function.update_self]
    · rw [if_neg own, if_neg own, Function.update_of_ne own]
      by_cases next : p = s'.current
      · rw [if_pos next, next]
      · rw [if_neg next]

theorem Passed.still_dead {s s' : Scheduler} (passed : Passed s s') {ptr : Handle}
    (dead : s.threads.isDead ptr = true) : s'.threads.isDead ptr = true := by
  by_cases exits : s.nodes.status s.current = .exiting
  · exact (passed.died exits).still ptr dead
  · rw [passed.alive exits]
    exact dead

/-- A status other than yielding is what it was. -/
theorem Passed.status_eq {s s' : Scheduler} (passed : Passed s s') {p : NodePtr} {status : Status}
    (notYielding : status ≠ .yielding) (notNeutral : status ≠ .neutral) :
    s'.nodes.status p = status ↔ s.nodes.status p = status := by
  rw [passed.status]
  by_cases yields : s.nodes.status s.current = .yielding
  · rw [if_pos yields]
    by_cases own : p = s.current
    · rw [own, Function.update_self, yields]
      exact ⟨fun same => absurd same.symm notNeutral, fun same => absurd same.symm notYielding⟩
    · rw [Function.update_of_ne own]
  · rw [if_neg yields]

/-- **`createNode`** leaves the queues alone, and reaches nothing new. -/
theorem Frayed.createNode {s : Scheduler} {lists : Lists} (frayed : Frayed s lists)
    (context : Context) (thread : Handle) (now : Int) :
    Frayed (s.createNode context thread now).2 lists where
  loose slot := (frayed.loose slot).frame fun p member =>
    Function.update_of_ne (ne_of_lt (frayed.bounded slot p member)) _ _
  proper := frayed.proper
  level := frayed.level
  apart := frayed.apart
  ranked k p member :=
    (Function.update_of_ne (ne_of_lt (frayed.bounded _ p member)) _ _).trans (frayed.ranked k p member)
  bounded slot p member := Nat.lt_succ_of_lt (frayed.bounded slot p member)
  rears := frayed.rears
  rearRanked k r isRear :=
    (Function.update_of_ne (ne_of_lt (frayed.rearBounded _ r isRear)) _ _).trans
      (frayed.rearRanked k r isRear)
  rearBounded slot r isRear := Nat.lt_succ_of_lt (frayed.rearBounded slot r isRear)

theorem Reached.of_createNode {s : Scheduler} {context : Context} {thread : Handle} {now : Int}
    {p : NodePtr} (found : Reached (s.createNode context thread now).2 p) :
    Reached s p ∨ p = s.nodeNum := by
  refine found.of_closed (S := fun p => Reached s p ∨ p = s.nodeNum)
    (fun slot q isHead => Or.inl (.head isHead)) (fun q isHead => Or.inl (.joinList isHead))
    fun q either z link => Or.inl ?_
  have link' : Function.update s.nodes.next s.nodeNum none q = some z := link
  by_cases last : q = s.nodeNum
  · rw [last, Function.update_self] at link'
    cases link'
  · rw [Function.update_of_ne last] at link'
    exact (either.resolve_right last).follow link'

/-- **What a `my_pthread_create` does** to queues that have come apart. -/
structure Enlarged (s : Scheduler) (lists : Lists) (thread : Handle) (s' : Scheduler) (lists' : Lists) :
    Prop where
  tame : Tame s' lists'
  new : Created s thread s'
  members : ∀ p, lists'.Has p → lists.Has p ∨ p = s.nodeNum
  present : ∀ p, Present s' p → Present s p ∨ p = s.nodeNum

/-- **A create keeps the state tame**, when no node of the scheduler has the handle. -/
theorem Tame.my_pthread_create {s s' : Scheduler} {lists : Lists} {thread : Handle} {now : Int}
    (tame : Tame s lists) (ids : ∀ p, Present s p → s.idOf p < s.threadNum)
    (unused : ∀ p, Present s p → s.nodes.threadID p ≠ thread)
    (ran : s.my_pthread_create thread now .succeeds = some (0, s')) :
    ∃ lists', Enlarged s lists thread s' lists' := by
  obtain ⟨s₂, pushed, same⟩ := Option.map_eq_some_iff.mp ran
  cases same
  have frayed₁ : Frayed ((s.register thread).createNode ⟨false, .code⟩ thread now).2 lists :=
    (tame.frayed.of_same rfl rfl rfl rfl : Frayed (s.register thread) lists).createNode _ _ _
  have back : ∀ p, Reached ((s.register thread).createNode ⟨false, .code⟩ thread now).2 p →
      Reached s p ∨ p = s.nodeNum := fun p found =>
    found.of_createNode.imp_left fun before => before.of_same rfl rfl rfl
  have unqueued : Unqueued ((s.register thread).createNode ⟨false, .code⟩ thread now).2 lists s.nodeNum :=
    ⟨fun slot member => lt_irrefl _ (tame.frayed.bounded slot _ member),
      fun slot isRear => lt_irrefl _ (tame.frayed.rearBounded slot _ isRear)⟩
  have newStatus : ((s.register thread).createNode ⟨false, .code⟩ thread now).2.nodes.status s.nodeNum
      = .neutral := Function.update_self _ _ _
  obtain ⟨xs, _, adds⟩ := frayed₁.enQ (k := 0) (unqueued.takes _) (Nat.lt_succ_self _) (by decide)
    (fun yields => by
      rw [newStatus] at yields
      cases yields) pushed
  have kept := adds.kept
  have new : Created s thread s' := ⟨kept.threadID, kept.ut, kept.status, kept.joinee, kept.threads,
    kept.threadList, kept.threadNum, kept.nodeNum, kept.current, kept.running⟩
  have current : s.current < s.nodeNum := tame.allocated _ (Or.inl rfl)
  have reached : ∀ p, Reached s' p → Reached s p ∨ p = s.nodeNum := fun p found =>
    (adds.reached p found).elim (back p) Or.inr
  have present : ∀ p, Present s' p → Present s p ∨ p = s.nodeNum := by
    rintro p (own | found)
    · exact Or.inl (Or.inl (own.trans new.current))
    · exact (reached p found).imp_left Or.inr
  have older : ∀ p, Present s p → s'.idOf p = s.idOf p := fun p has => by
    unfold Scheduler.idOf
    rw [new.threadID, Function.update_of_ne (ne_of_lt (tame.allocated p has)), new.threads]
    exact Function.update_of_ne (unused p has) _ _
  have newest : s'.idOf s.nodeNum = s.threadNum := by
    unfold Scheduler.idOf
    rw [new.threadID, Function.update_self, new.threads]
    exact Function.update_self _ _ _
  refine ⟨_, ⟨adds.frayed, fun i => ?_, adds.ranked fun p bound => ?_, ⟨fun slot member => ?_,
    fun slot isRear => ?_⟩, fun p apart found => ?_, fun p has => ?_, fun p q left right same => ?_⟩,
    new, fun p has => adds.members p has, present⟩
  · rw [Function.update_of_ne (by simp)]
    exact tame.settled i
  · show Function.update s.nodes.priority s.nodeNum 0 p < RUN_QUEUE_SIZE
    by_cases last : p = s.nodeNum
    · rw [last, Function.update_self]
      decide
    · rw [Function.update_of_ne last]
      exact tame.ranked p (Nat.lt_of_le_of_ne (Nat.lt_succ_iff.mp bound) last)
  · rw [new.current] at member
    rcases adds.members _ ⟨slot, member⟩ with ⟨other, before⟩ | same
    · exact tame.unqueued.off other before
    · exact ne_of_lt current same
  · rw [new.current] at isRear
    rcases adds.rears slot _ isRear with ⟨other, before⟩ | ⟨other, before⟩ | same
    · exact tame.unqueued.rear other before
    · exact tame.unqueued.off other before
    · exact ne_of_lt current same
  · rw [new.current] at apart
    rw [new.status]
    rcases reached p found with before | rfl
    · rw [Function.update_of_ne (ne_of_lt (tame.allocated p (Or.inr before)))]
      exact tame.awake p apart before
    · rw [Function.update_self]
      simp
  · rw [new.nodeNum]
    rcases present p has with before | rfl
    · exact Nat.lt_succ_of_lt (tame.allocated p before)
    · exact Nat.lt_succ_self _
  · rcases present p left with first | rfl <;> rcases present q right with second | rfl
    · rw [older p first, older q second] at same
      exact tame.distinct p q first second same
    · rw [older p first, newest] at same
      exact absurd same (ne_of_lt (ids p first))
    · rw [newest, older q second] at same
      exact absurd same.symm (ne_of_lt (ids q second))
    · rfl

/-! ### The invariant -/

/-- **The invariant.** The nodes the scheduler has bear the ids of their turn; a record holds what its
thread has ended with; a context inside a join knows the record it waits for; and once it is behind
`schedule()` and can run again, that record is dead. -/
structure Honest (t : Logged) (lists : Lists) : Prop where
  tame : Tame t.sched lists
  roster : Roster t.sched
  ids : ∀ p, Present t.sched p → t.sched.idOf p = p + 1
  unused : ∀ id, t.sched.nodeNum < id → t.ended id = none
  values : ∀ ptr, Recorded t.sched ptr →
    t.sched.threads.exitArg ptr = (t.ended (t.sched.threads.id ptr)).getD 0
  dead : ∀ ptr, Recorded t.sched ptr → t.sched.threads.isDead ptr = true →
    t.ended (t.sched.threads.id ptr) ≠ none
  exiting : ∀ p, Present t.sched p → t.sched.nodes.status p = .exiting → t.ended (p + 1) ≠ none
  calls : ∀ p, Present t.sched p → ∀ id ptr, (t.sched.context p).frame = .joinCall id ptr →
    t.sched.nodes.status p = .joining ∧ t.sched.nodes.joinee p = some ptr ∧ Given t.sched ptr ∧
      t.sched.threads.id ptr = id
  woken : ∀ p, Present t.sched p → ∀ id ptr, (t.sched.context p).frame = .joinWoken id ptr →
    t.sched.nodes.joinee p = some ptr ∧ Given t.sched ptr ∧ t.sched.threads.id ptr = id
  answered : ∀ p, p = t.sched.current ∨ lists.Has p → ∀ id ptr,
    (t.sched.context p).frame = .joinWoken id ptr → t.sched.threads.isDead ptr = true

/-- The record of a dead thread holds the value the thread ended with. -/
theorem Honest.joined {t : Logged} {lists : Lists} (honest : Honest t lists) {ptr : Handle}
    (given : Given t.sched ptr) (dead : t.sched.threads.isDead ptr = true) :
    t.ended (t.sched.threads.id ptr) = some (t.sched.threads.exitArg ptr) := by
  obtain ⟨value, ended⟩ := Option.ne_none_iff_exists'.mp (honest.dead ptr given.recorded dead)
  rw [honest.values ptr given.recorded, ended]
  rfl

/-- **The invariant is join correctness.** -/
theorem Honest.joinSound {t : Logged} {lists : Lists} (honest : Honest t lists) : JoinSound t := by
  intro e id ptr value s' returned
  cases executed_of_exec returned with
  | joinDead _ _ _ found dead =>
    have sameId : t.sched.threads.id ptr = id := findThreadLoop_id _ _ _ found
    have given := honest.roster.given ptr (findThreadLoop_onList _ _ _ found)
    exact ⟨sameId, dead, sameId ▸ honest.joined given dead⟩
  | joinReturned _ _ runs =>
    have frame : (t.sched.context t.sched.current).frame = .joinWoken id ptr := by
      rw [Scheduler.context, if_pos rfl, runs]
    obtain ⟨_, given, sameId⟩ := honest.woken _ (Or.inl rfl) id ptr frame
    have dead := honest.answered _ (Or.inl rfl) id ptr frame
    exact ⟨sameId, dead, sameId ▸ honest.joined given dead⟩

/-! ### Every event -/

/-- **`schedule` keeps the invariant**, when its caller goes on inside the same join, or behind it
where another thread can run. -/
theorem Honest.schedule {t : Logged} {lists lists' : Lists} {s' : Scheduler} {resume : Context}
    (honest : Honest t lists) (turned : Turned t.sched lists resume s' lists')
    (inCall : ∀ id ptr, resume.frame = .joinCall id ptr → t.sched.running.frame = .joinCall id ptr)
    (behind : ∀ id ptr, resume.frame = .joinWoken id ptr →
      t.sched.running.frame = .joinWoken id ptr ∨
        (t.sched.running.frame = .joinCall id ptr ∧ SomeRunnable t.sched)) :
    Honest ⟨s', t.ended⟩ lists' := by
  have passed := turned.passed
  have own : t.sched.context t.sched.current = t.sched.running := if_pos rfl
  have here : Present t.sched t.sched.current := Or.inl rfl
  have recorded : ∀ ptr, Recorded s' ptr → Recorded t.sched ptr := by
    rintro ptr ⟨q, bound, handle⟩
    exact ⟨q, passed.nodeNum ▸ bound, passed.threadID ▸ handle⟩
  have given : ∀ {ptr}, Given t.sched ptr → Given s' ptr := fun known => by
    unfold Given
    rw [passed.nodeNum, passed.threadID]
    exact known
  refine ⟨turned.tame, honest.roster.of_same passed.threadID passed.id passed.next passed.threadList
    passed.threadNum passed.nodeNum, fun p has => ?_, fun id bound => ?_, fun ptr known => ?_,
    fun ptr known isDead => ?_, fun p has exits => ?_, fun p has id ptr frame => ?_,
    fun p has id ptr frame => ?_, fun p either id ptr frame => ?_⟩
  · rw [show (⟨s', t.ended⟩ : Logged).sched = s' from rfl, passed.idOf]
    exact honest.ids p (turned.present p has)
  · exact honest.unused id (passed.nodeNum ▸ bound)
  · show s'.threads.exitArg ptr = (t.ended (s'.threads.id ptr)).getD 0
    rw [passed.exitArg, passed.id]
    exact honest.values ptr (recorded ptr known)
  · show t.ended (s'.threads.id ptr) ≠ none
    rw [passed.id]
    by_cases exits : t.sched.nodes.status t.sched.current = .exiting
    · rcases (passed.died exits).only ptr isDead with already | sameId
      · exact honest.dead ptr (recorded ptr known) already
      · rw [sameId, honest.ids _ here]
        exact honest.exiting _ here exits
    · rw [show (⟨s', t.ended⟩ : Logged).sched = s' from rfl, passed.alive exits] at isDead
      exact honest.dead ptr (recorded ptr known) isDead
  · exact honest.exiting p (turned.present p has)
      ((passed.status_eq (by simp) (by simp)).mp exits)
  · have before : (t.sched.context p).frame = .joinCall id ptr := by
      have frame' : (s'.context p).frame = .joinCall id ptr := frame
      rw [turned.context p] at frame'
      by_cases same : p = t.sched.current
      · rw [if_pos same] at frame'
        rw [same, own]
        exact inCall id ptr frame'
      · rw [if_neg same] at frame'
        exact frame'
    obtain ⟨joining, target, known, sameId⟩ := honest.calls p (turned.present p has) id ptr before
    refine ⟨(passed.status_eq (by simp) (by simp)).mpr joining, ?_, given known, ?_⟩
    · exact (congrFun passed.joinee p).trans target
    · exact (congrFun passed.id ptr).trans sameId
  · have frame' : (s'.context p).frame = .joinWoken id ptr := frame
    rw [turned.context p] at frame'
    have before : t.sched.nodes.joinee p = some ptr ∧ Given t.sched ptr ∧ t.sched.threads.id ptr = id := by
      by_cases same : p = t.sched.current
      · rw [if_pos same] at frame'
        subst same
        rcases behind id ptr frame' with runs | ⟨runs, _⟩
        · exact honest.woken _ here id ptr (by rw [own, runs])
        · exact (honest.calls _ here id ptr (by rw [own, runs])).2
      · rw [if_neg same] at frame'
        exact honest.woken p (turned.present p has) id ptr frame'
    exact ⟨(congrFun passed.joinee p).trans before.1, given before.2.1,
      (congrFun passed.id ptr).trans before.2.2⟩
  · have frame' : (s'.context p).frame = .joinWoken id ptr := frame
    rw [turned.context p] at frame'
    by_cases same : p = t.sched.current
    · rw [if_pos same] at frame'
      subst same
      rcases behind id ptr frame' with runs | ⟨runs, runnable⟩
      · exact passed.still_dead (honest.answered _ (Or.inl rfl) id ptr (by rw [own, runs]))
      · -- the caller is on the join list now, and cannot run
        obtain ⟨joining, _⟩ := honest.calls _ here id ptr (by rw [own, runs])
        obtain ⟨gone, off⟩ := turned.parted joining runnable
        rcases either with next | has
        · exact absurd next.symm gone
        · exact absurd has off
    · rw [if_neg same] at frame'
      rcases turned.members p either with before | current | ⟨exits, joinee, target, sameId⟩
      · exact passed.still_dead (honest.answered p (Or.inr before) id ptr frame')
      · exact absurd current same
      · -- the thread that exits has woken `p`, and it is the one `p` waits for
        obtain ⟨waits, known, _⟩ :=
          honest.woken p (turned.present p (turned.tame.present either)) id ptr frame'
        rw [waits] at target
        cases target
        have found := honest.roster.find known (by rw [sameId]; exact passed.searched exits)
        rw [sameId] at found
        exact (passed.died exits).marked ptr found

/-- **A successful create keeps the invariant**, when nobody has the handle or waits by it. -/
theorem Honest.created {t : Logged} {lists lists' : Lists} {s' : Scheduler} {thread : Handle}
    (honest : Honest t lists) (enlarged : Enlarged t.sched lists thread s' lists')
    (free : ∀ p, Present t.sched p →
      t.sched.nodes.threadID p ≠ thread ∧ (t.sched.context p).frame.joins ≠ some thread) :
    Honest ⟨s', t.ended⟩ lists' := by
  have new := enlarged.new
  have tame := honest.tame
  have threadNum := honest.roster.threadNum
  have id' : s'.threads.id = Function.update t.sched.threads.id thread t.sched.threadNum := by
    rw [new.threads]
    rfl
  have exitArg' : s'.threads.exitArg = Function.update t.sched.threads.exitArg thread 0 := by
    rw [new.threads]
    rfl
  have isDead' : s'.threads.isDead = Function.update t.sched.threads.isDead thread false := by
    rw [new.threads]
    rfl
  have context : ∀ p, Present t.sched p → s'.context p = t.sched.context p := fun p has => by
    unfold Scheduler.context
    rw [new.current, new.running, new.ut, Function.update_of_ne (ne_of_lt (tame.allocated p has))]
  have userCode : (s'.context t.sched.nodeNum).frame = .code := by
    unfold Scheduler.context
    rw [new.current, if_neg (ne_of_gt (tame.allocated _ (Or.inl rfl))), new.ut, Function.update_self]
  have given : ∀ {ptr}, Given t.sched ptr → Given s' ptr := fun known =>
    (new.given honest.roster.started).mpr (Or.inr known)
  have apart : ∀ {p id ptr}, Present t.sched p → (t.sched.context p).frame = .joinCall id ptr ∨
      (t.sched.context p).frame = .joinWoken id ptr → ptr ≠ thread := by
    intro p id ptr has frame same
    refine (free p has).2 ?_
    rcases frame with frame | frame <;> rw [frame, same] <;> rfl
  have joinee : ∀ p, Present t.sched p → s'.nodes.joinee p = t.sched.nodes.joinee p := fun p has => by
    rw [new.joinee, Function.update_of_ne (ne_of_lt (tame.allocated p has))]
  refine ⟨enlarged.tame, honest.roster.created new, fun p has => ?_, fun id bound => ?_,
    fun ptr known => ?_, fun ptr known dead => ?_, fun p has exits => ?_,
    fun p has id ptr frame => ?_, fun p has id ptr frame => ?_, fun p either id ptr frame => ?_⟩
  · show s'.threads.id (s'.nodes.threadID p) = p + 1
    rw [new.threadID, id']
    rcases enlarged.present p has with before | rfl
    · rw [Function.update_of_ne (ne_of_lt (tame.allocated p before)),
        Function.update_of_ne (free p before).1]
      exact honest.ids p before
    · rw [Function.update_self, Function.update_self, threadNum]
  · apply honest.unused
    have bound' : s'.nodeNum < id := bound
    rw [new.nodeNum] at bound'
    omega
  · show s'.threads.exitArg ptr = (t.ended (s'.threads.id ptr)).getD 0
    rw [exitArg', id']
    by_cases same : ptr = thread
    · rw [same, Function.update_self, Function.update_self, honest.unused _ (by omega)]
      rfl
    · rw [Function.update_of_ne same, Function.update_of_ne same]
      exact honest.values ptr ((new.recorded known).resolve_left same)
  · have dead' : s'.threads.isDead ptr = true := dead
    show t.ended (s'.threads.id ptr) ≠ none
    rw [isDead'] at dead'
    by_cases same : ptr = thread
    · rw [same, Function.update_self] at dead'
      cases dead'
    · rw [Function.update_of_ne same] at dead'
      rw [id', Function.update_of_ne same]
      exact honest.dead ptr ((new.recorded known).resolve_left same) dead'
  · have exits' : s'.nodes.status p = .exiting := exits
    rw [new.status] at exits'
    rcases enlarged.present p has with before | rfl
    · rw [Function.update_of_ne (ne_of_lt (tame.allocated p before))] at exits'
      exact honest.exiting p before exits'
    · rw [Function.update_self] at exits'
      cases exits'
  · rcases enlarged.present p has with before | rfl
    · have frame' := (congrArg Context.frame (context p before)).symm.trans frame
      obtain ⟨joining, target, known, sameId⟩ := honest.calls p before id ptr frame'
      refine ⟨?_, (joinee p before).trans target, given known, ?_⟩
      · show s'.nodes.status p = .joining
        rw [new.status, Function.update_of_ne (ne_of_lt (tame.allocated p before))]
        exact joining
      · show s'.threads.id ptr = id
        rw [id', Function.update_of_ne (apart before (Or.inl frame'))]
        exact sameId
    · cases userCode.symm.trans frame
  · rcases enlarged.present p has with before | rfl
    · have frame' := (congrArg Context.frame (context p before)).symm.trans frame
      obtain ⟨target, known, sameId⟩ := honest.woken p before id ptr frame'
      refine ⟨(joinee p before).trans target, given known, ?_⟩
      show s'.threads.id ptr = id
      rw [id', Function.update_of_ne (apart before (Or.inr frame'))]
      exact sameId
    · cases userCode.symm.trans frame
  · have has : p = t.sched.current ∨ lists.Has p ∨ p = t.sched.nodeNum := by
      rcases either with own | inside
      · exact Or.inl (own.trans new.current)
      · exact Or.inr (enlarged.members p inside)
    rcases or_assoc.mpr has with before | rfl
    · have present := tame.present before
      have frame' := (congrArg Context.frame (context p present)).symm.trans frame
      show s'.threads.isDead ptr = true
      rw [isDead', Function.update_of_ne (apart present (Or.inr frame'))]
      exact honest.answered p before id ptr frame'
    · cases userCode.symm.trans frame

/-- **A library call up to its `schedule()` keeps the invariant.** -/
theorem Honest.tagged {t t' : Logged} {lists : Lists} (honest : Honest t lists) (step : Tagged t t') :
    Honest t' lists := by
  have here : Present t.sched t.sched.current := Or.inl rfl
  have current := honest.ids _ here
  have bound : t.sched.current < t.sched.nodeNum := honest.tame.allocated _ here
  have present : ∀ p, Present t'.sched p → Present t.sched p := fun p either =>
    either.imp (fun own => own.trans step.current) fun found =>
      found.of_same step.links step.queues step.joinList
  have recorded : ∀ ptr, Recorded t'.sched ptr → Recorded t.sched ptr := by
    rintro ptr ⟨q, bound, handle⟩
    exact ⟨q, step.nodeNum ▸ bound, step.threadID ▸ handle⟩
  have given : ∀ {ptr}, Given t.sched ptr → Given t'.sched ptr := fun known => by
    unfold Given
    rw [step.nodeNum, step.threadID]
    exact known
  have context : ∀ p, p ≠ t.sched.current → t'.sched.context p = t.sched.context p := by
    intro p different
    unfold Scheduler.context
    rw [step.current, if_neg different, if_neg different, step.ut]
  have own : t'.sched.context t.sched.current = t'.sched.running := if_pos step.current.symm
  -- the log changes for the thread of `current` only, whose record is the one with its id
  have others : ∀ ptr, Recorded t.sched ptr → ptr ≠ t.sched.nodes.threadID t.sched.current →
      t'.ended (t.sched.threads.id ptr) = t.ended (t.sched.threads.id ptr) :=
    fun ptr known different => step.ended _ fun same =>
      different (honest.roster.distinct ptr _ known ⟨t.sched.current, bound, rfl⟩ same)
  refine ⟨honest.tame.untouched step.toUntouched step.status, honest.roster.of_same step.threadID
    step.id step.next step.threadList step.threadNum step.nodeNum, fun p has => ?_, fun id beyond => ?_,
    fun ptr known => ?_, fun ptr known dead => ?_, fun p has exits => ?_,
    fun p has id ptr frame => ?_, fun p has id ptr frame => ?_, fun p either id ptr frame => ?_⟩
  · unfold Scheduler.idOf
    rw [step.id, step.threadID]
    exact honest.ids p (present p has)
  · rw [step.nodeNum] at beyond
    have other : id ≠ t.sched.idOf t.sched.current := fun same => by
      rw [same, current] at beyond
      exact not_lt_of_ge (Nat.succ_le_of_lt bound) beyond
    rw [step.ended id other]
    exact honest.unused id beyond
  · rw [step.id]
    by_cases same : ptr = t.sched.nodes.threadID t.sched.current
    · rw [same]
      exact step.value (honest.values _ ⟨t.sched.current, bound, rfl⟩)
    · rw [step.exitArg ptr same, others ptr (recorded ptr known) same]
      exact honest.values ptr (recorded ptr known)
  · rw [step.isDead] at dead
    have ended := honest.dead ptr (recorded ptr known) dead
    rw [step.id]
    by_cases same : ptr = t.sched.nodes.threadID t.sched.current
    · rw [same] at ended ⊢
      exact step.still ended
    · rw [others ptr (recorded ptr known) same]
      exact ended
  · by_cases same : p = t.sched.current
    · rw [same] at exits
      rw [same, ← current]
      exact (step.exits exits).elim
        (fun before => step.still (current.symm ▸ honest.exiting _ here before)) id
    · rw [step.ended _ fun equal => same (Nat.succ.inj (equal.trans current))]
      exact honest.exiting p (present p has) ((step.status p same).symm.trans exits)
  · by_cases same : p = t.sched.current
    · rw [same, own] at frame
      obtain ⟨joining, target, found⟩ := step.calls id ptr frame
      have known := honest.roster.given ptr (findThreadLoop_onList _ _ _ found)
      rw [same]
      exact ⟨joining, target, given known,
        (congrFun step.id ptr).trans (findThreadLoop_id _ _ _ found)⟩
    · rw [context p same] at frame
      obtain ⟨joining, target, known, sameId⟩ := honest.calls p (present p has) id ptr frame
      exact ⟨(step.status p same).trans joining, (step.joinee p same).trans target, given known,
        (congrFun step.id ptr).trans sameId⟩
  · by_cases same : p = t.sched.current
    · rw [same, own] at frame
      exact absurd frame (step.returned id ptr)
    · rw [context p same] at frame
      obtain ⟨target, known, sameId⟩ := honest.woken p (present p has) id ptr frame
      exact ⟨(step.joinee p same).trans target, given known, (congrFun step.id ptr).trans sameId⟩
  · by_cases same : p = t.sched.current
    · rw [same, own] at frame
      exact absurd frame (step.returned id ptr)
    · rw [context p same] at frame
      rw [step.isDead]
      exact honest.answered p (either.imp_left fun own' => own'.trans step.current) id ptr frame

/-- **One event keeps the invariant.** -/
theorem Honest.step {t : Logged} {lists : Lists} {s' : Scheduler} {e : Event} {out : Outcome}
    (honest : Honest t lists) (waits : JoinsWait t e) (executed : Executed t.sched e out s') :
    ∃ lists', Honest ⟨s', t.log e⟩ lists' := by
  cases executed with
  | createFailed => exact ⟨lists, honest⟩
  | created address now s' runs ran =>
    have bounded : ∀ p, Present t.sched p → t.sched.idOf p < t.sched.threadNum := fun p has =>
      honest.roster.bounded _ ⟨p, honest.tame.allocated p has, rfl⟩
    have free : ∀ p, Present t.sched p → t.sched.nodes.threadID p ≠ .user address ∧
        (t.sched.context p).frame.joins ≠ some (.user address) := fun p has =>
      waits.2 p (honest.tame.allocated p has) (honest.tame.held has)
    obtain ⟨lists', enlarged⟩ := honest.tame.my_pthread_create bounded (fun p has => (free p has).1) ran
    exact ⟨lists', honest.created enlarged free⟩
  | yielded => exact ⟨lists, honest.tagged (.of_status t (by simp) (by simp) (by simp))⟩
  | exited value_ptr => exact ⟨lists, honest.tagged (.exited t value_ptr)⟩
  | returned => exact ⟨lists, honest.tagged (.functionReturned t)⟩
  | joinUnknown => exact ⟨lists, honest⟩
  | joinDead => exact ⟨lists, honest⟩
  | joinWaits id ptr runs found => exact ⟨lists, honest.tagged (.joinWaits t found)⟩
  | joinReturned id ptr runs => exact ⟨lists, honest.tagged (.of_frame t (by simp) (by simp))⟩
  | entered now frame s' runs ran =>
    obtain ⟨lists', turned⟩ := honest.tame.schedule ran
    refine ⟨lists', honest.schedule turned (fun id ptr inCall => ?_) fun id ptr woken => Or.inr ?_⟩
    · simp only at inCall
      subst inCall
      cases running : t.sched.running.frame <;> simp [running, Scheduler.afterSchedule] at runs
    · simp only at woken
      subst woken
      cases running : t.sched.running.frame <;> simp [running, Scheduler.afterSchedule] at runs
      refine ⟨by simp [runs], waits.1 ?_⟩
      unfold InJoin
      rw [running]
      rfl
  | interrupted now s' runs ran =>
    obtain ⟨lists', turned⟩ := honest.tame.schedule ran
    exact ⟨lists', honest.schedule turned (fun _ _ inCall => inCall) fun _ _ woken => Or.inl woken⟩

/-! ### Runs -/

theorem Started.tame {s : Scheduler} (started : Started s) : Tame s fun _ => [] := by
  obtain ⟨nodes, threads, now, rfl⟩ := started
  have nobody : ∀ p, ¬ Reached (Scheduler.initializeScheduler nodes threads now) p := by
    rintro p (⟨slot, found⟩ | found)
    · cases slot <;> cases found
    · cases found
  have only : ∀ p, Present (Scheduler.initializeScheduler nodes threads now) p → p = 0 := fun p has =>
    has.resolve_right (nobody p)
  refine ⟨⟨fun slot => ?_, fun _ => rfl, fun _ => rfl, fun _ _ _ member => ?_, fun _ _ member => ?_,
    fun _ _ member => ?_, fun slot r isRear => ?_, fun _ _ isRear => ?_, fun slot r isRear => ?_⟩,
    fun _ => rfl, fun p bound => ?_, ⟨fun _ member => ?_, fun slot isRear => ?_⟩,
    fun p _ found => absurd found (nobody p), fun p has => ?_, fun p q left right _ => ?_⟩
  · cases slot <;> exact (queued_nil _).loose
  · cases member
  · cases member
  · cases member
  · cases slot <;> cases isRear
  · cases isRear
  · cases slot <;> cases isRear
  · rw [Nat.lt_one_iff.mp bound]
    show 0 < RUN_QUEUE_SIZE
    decide
  · cases member
  · cases slot <;> cases isRear
  · rw [only p has]
    exact Nat.one_pos
  · rw [only p left, only q right]

theorem LoggedStarted.honest {t : Logged} (started : LoggedStarted t) : Honest t fun _ => [] := by
  obtain ⟨s, ended⟩ := t
  obtain ⟨start, nobody⟩ := started
  simp only at start nobody
  subst nobody
  have tame := start.tame
  obtain ⟨nodes, threads, now, rfl⟩ := start
  have only : ∀ p < (Scheduler.initializeScheduler nodes threads now).nodeNum, p = 0 :=
    fun p bound => Nat.lt_one_iff.mp bound
  have main : ∀ ptr, Recorded (Scheduler.initializeScheduler nodes threads now) ptr → ptr = .main := by
    rintro ptr ⟨q, bound, handle⟩
    rw [only q bound] at handle
    exact handle.symm
  have given : ∀ ptr, ¬ Given (Scheduler.initializeScheduler nodes threads now) ptr := by
    rintro ptr ⟨q, positive, bound, _⟩
    exact absurd (only q bound) (Nat.one_le_iff_ne_zero.mp positive)
  have first : ∀ p, Present (Scheduler.initializeScheduler nodes threads now) p → p = 0 := fun p has =>
    only p (tame.allocated p has)
  refine ⟨tame, ⟨le_refl _, rfl, fun ptr known => ?_, fun ptr other left right _ => ?_,
    fun ptr onList => ?_, Or.inl fun ptr known => absurd known (given ptr)⟩, fun p has => ?_,
    fun _ _ => rfl, fun ptr known => ?_, fun ptr known dead => ?_, fun p has exits => ?_,
    fun p has id ptr frame => ?_, fun p has id ptr frame => ?_, fun p either id ptr frame => ?_⟩
  · rw [main ptr known]
    exact Nat.lt_succ_self 1
  · rw [main ptr left, main other right]
  · cases onList
  · rw [first p has]
    rfl
  · rw [main ptr known]
    rfl
  · rw [main ptr known] at dead
    cases dead
  · rw [first p has] at exits
    cases exits
  · rw [first p has] at frame
    cases frame
  · rw [first p has] at frame
    cases frame
  · rw [first p (tame.present either)] at frame
    cases frame

/-- **Join correctness**, in every run whose joins wait, for a thread that nobody shares its handle
with. -/
theorem join_sound (t : Logged)
    (reached : Reach LoggedStarted JoinsWait (execStep Logged.next) t) : JoinSound t := by
  obtain ⟨lists, honest⟩ : ∃ lists, Honest t lists := by
    refine reached.invariant (fun t => ∃ lists, Honest t lists)
      (fun t started => ⟨_, started.honest⟩) ?_
    rintro t e t' ⟨lists, honest⟩ waits taken
    obtain ⟨s', moved, rfl⟩ := Option.map_eq_some_iff.mp taken
    obtain ⟨out, result⟩ := Scheduler.exec_of_next moved
    exact honest.step waits (executed_of_exec result)
  exact honest.joinSound

/-- What can be computed of `HandleFree`. -/
def HandleUnread (s : Scheduler) : Event → Prop
  | .create address _ _ => ∀ p < s.nodeNum, (s.context p).frame.joins ≠ some (.user address)
  | _ => True

instance (s : Scheduler) : (e : Event) → Decidable (HandleUnread s e)
  | .create address _ _ => inferInstanceAs (Decidable (
      ∀ p < s.nodeNum, (s.context p).frame.joins ≠ some (.user address)))
  | .yield => isTrue trivial
  | .exit _ => isTrue trivial
  | .functionReturn => isTrue trivial
  | .join _ => isTrue trivial
  | .enterSchedule _ => isTrue trivial
  | .joinReturn => isTrue trivial
  | .timer _ => isTrue trivial

theorem HandleSpare.free {s : Scheduler} {e : Event} (spare : HandleSpare s e)
    (unread : HandleUnread s e) : HandleFree s e := by
  cases e with
  | create address now allocation =>
    cases allocation with
    | succeeds => exact fun p bound held => ⟨spare.idle p bound held, unread p bound⟩
    | _ => trivial
  | _ => trivial

/-- The main thread joins thread `2`, and then thread `3`, which has the same `my_pthread_t` and passes
`9` to `my_pthread_exit`; the timer fires before the second join returns. -/
def reusedRun : List Event :=
  [.create 0 0 .succeeds, .join 2, .enterSchedule 0, .exit 7, .enterSchedule 0, .joinReturn,
    .create 0 0 .succeeds, .join 3, .enterSchedule 0, .exit 9, .enterSchedule 0, .timer 0]

theorem join_sound_reusedRun :
    ∃ t, Reach LoggedStarted JoinsWait (execStep Logged.next) t ∧
      (t.sched.exec .joinReturn).map Prod.fst = some (.joined 3 (.user 0) 9) ∧ JoinSound t := by
  have start : Reach LoggedStarted (fun t e => JoinLeaves t.sched e ∧ HandleSpare t.sched e ∧
      HandleUnread t.sched e) (execStep Logged.next) ⟨zeroed, fun _ => none⟩ :=
    .init ⟨zeroed_started, rfl⟩
  obtain ⟨t, reached, returns⟩ := start.exists_of_execAll reusedRun
    (fun t => (t.sched.exec .joinReturn).map Prod.fst = some (.joined 3 (.user 0) 9)) (by decide)
  have waits : Reach LoggedStarted JoinsWait (execStep Logged.next) t :=
    reached.mono fun t e met => ⟨met.1, met.2.1.free met.2.2⟩
  exact ⟨t, waits, of_decide_eq_true returns, join_sound t waits⟩

/-- Thread `2` joins itself, then the main thread joins it too, and nobody is left to run. -/
def cycleRun : List Event :=
  [.create 0 0 .succeeds, .yield, .enterSchedule 0, .join 2, .enterSchedule 0, .join 2,
    .enterSchedule 0]

/-- **The join of a live thread returns**: the main thread's join of thread `2`, which waits for
itself. -/
theorem joined_alive :
    ¬ ∀ t, Reach LoggedStarted anyStep (execStep Logged.next) t → JoinSound t := by
  intro always
  have start : Reach LoggedStarted anyStep (execStep Logged.next) ⟨zeroed, fun _ => none⟩ :=
    .init ⟨zeroed_started, rfl⟩
  obtain ⟨t, reached, found⟩ := start.exists_of_execAll cycleRun
    (fun t => (t.sched.exec .joinReturn).map Prod.fst = some (.joined 2 (.user 0) 0) ∧
      t.sched.threads.isDead (.user 0) = false) (by decide)
  obtain ⟨returns, alive⟩ := of_decide_eq_true found
  obtain ⟨⟨out, s'⟩, returned, same⟩ := Option.map_eq_some_iff.mp returns
  cases same
  obtain ⟨_, dead, _⟩ := always t reached .joinReturn 2 (.user 0) 0 s' returned
  rw [alive] at dead
  cases dead

end OS2017.Sched
