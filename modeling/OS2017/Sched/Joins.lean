/-
**Waiting for a thread.**

`schedule()` parks `current` on the join list whenever its status is `JOINING`. As long as it is
entered with a joining thread only while its joinee lives, and leaves another thread to run
(`JoinsLive`), every node on the join list waits for a live thread (`Alive`): a record that dies has
the id of the exiting thread, and who waits for that id has left the list.
-/

import OS2017.Sched.Events

namespace OS2017.Sched

open OS2017.Intrusive OS2017.Run

open Scheduler (Event Outcome Allocation)

/-- The scheduler's step on an event, without its outcome. -/
def Scheduler.next (s : Scheduler) (e : Event) : Option Scheduler := (s.exec e).map Prod.snd

theorem Scheduler.exec_of_next {s s' : Scheduler} {e : Event} (taken : s.next e = some s') :
    ∃ out, s.exec e = some (out, s') := by
  obtain ⟨⟨out, s₁⟩, result, rfl⟩ := Option.map_eq_some_iff.mp taken
  exact ⟨out, result⟩

/-- **Every node on the join list waits for a thread that is not dead.** -/
def JoinListAlive (s : Scheduler) : Prop :=
  ∀ p, OnList s.nodes.next s.joinList p →
    ∃ joinee, s.nodes.joinee p = some joinee ∧ s.threads.isDead joinee = false

/-- The thread `current` waits for is not dead. -/
def JoineeAlive (s : Scheduler) : Prop :=
  ∃ joinee, s.nodes.joinee s.current = some joinee ∧ s.threads.isDead joinee = false

/-- **`schedule()` is entered with a joining thread only while its joinee lives**, and then another
thread can run. -/
def JoinsLive (s : Scheduler) (e : Event) : Prop :=
  Schedules e → s.nodes.status s.current = .joining → JoineeAlive s ∧ SomeRunnable s

theorem JoinsLive.leaves {s : Scheduler} {e : Event} (joins : JoinsLive s e) :
    LeavesSuccessor s e := fun schedules joining => (joins schedules joining).2

/-- On a wellformed state, the invariant: the joinees of the join list live. -/
def Alive (s : Scheduler) (layout : Layout) : Prop :=
  ∀ p ∈ layout .join, ∀ joinee, s.nodes.joinee p = some joinee → s.threads.isDead joinee = false

/-- **`schedule` keeps it.** A record that dies has the id of the exiting thread, and whoever waits
for that id has left the list. -/
theorem Alive.schedule {s s' : Scheduler} {layout layout' : Layout} {now : Int} {resume : Context}
    (alive : Alive s layout) (step : Scheduled s layout now resume s' layout')
    (joins : s.nodes.status s.current = .joining → JoineeAlive s) : Alive s' layout' := by
  intro p member joinee target
  rw [step.joinee] at target
  have before : s.threads.isDead joinee = false := by
    rcases step.join p member with old | ⟨rfl, joining⟩
    · exact alive p old joinee target
    · obtain ⟨other, same, live⟩ := joins joining
      rw [target] at same
      cases same
      exact live
  by_cases exiting : s.nodes.status s.current = .exiting
  · rw [Bool.eq_false_iff]
    intro dead
    rcases (step.died exiting).only joinee dead with already | same
    · rw [already] at before
      cases before
    · exact step.left exiting p member ⟨joinee, target, same⟩
  · rw [step.alive exiting]
    exact before

/-- A node that is placed is not `current`. -/
theorem Wf.ne_current {s : Scheduler} {layout : Layout} (wf : Wf s layout) {place : Place}
    {p : NodePtr} (member : p ∈ layout place) : p ≠ s.current :=
  fun same => wf.off place (same ▸ member)

/-- **One event keeps it.** -/
theorem Alive.step {s s' : Scheduler} {layout layout' : Layout} {e : Event} {out : Outcome}
    (alive : Alive s layout) (wf : Wf s layout) (joins : JoinsLive s e)
    (effect : Effect s layout e out s' layout') : Alive s' layout' := by
  cases effect with
  | createFailed => exact alive
  | created address now s' runs new =>
    intro p member joinee target
    have old : p ∈ layout .join := by
      rcases Layout.mem_push.mp member with old | ⟨_, other⟩
      · exact old
      · cases other
    rw [new.joinee, Function.update_of_ne (ne_of_lt (wf.rep.bounded _ p old))] at target
    rw [new.threads]
    show Function.update s.threads.isDead _ false joinee = false
    by_cases same : joinee = .user address
    · rw [same, Function.update_self]
    · rw [Function.update_of_ne same]
      exact alive p old joinee target
  | yielded => exact alive
  | exited => exact alive
  | returned => exact alive
  | joinUnknown => exact alive
  | joinDead => exact alive
  | joinWaits id ptr =>
    intro p member joinee target
    refine alive p member joinee ?_
    rw [← target]
    exact (Function.update_of_ne (wf.ne_current member) _ _).symm
  | joinReturned => exact alive
  | entered now frame s' layout' runs step =>
    exact alive.schedule step fun joining => (joins trivial joining).1
  | interrupted now s' layout' step =>
    exact alive.schedule step fun joining => (joins trivial joining).1

/-- **The invariant says who is waited for.** -/
theorem Alive.joinListAlive {s : Scheduler} {layout : Layout} (alive : Alive s layout)
    (wf : Wf s layout) : JoinListAlive s := by
  intro p onList
  have member : p ∈ layout .join := (wf.rep.joined.onList_iff p).mp onList
  obtain ⟨joinee, target⟩ := Option.ne_none_iff_exists'.mp
    (wf.target p (wf.rep.bounded _ p member) (wf.blocked p member))
  exact ⟨joinee, target, alive p member joinee target⟩

/-! ### Runs -/

/-- A scheduler initialised in zeroed memory. -/
def zeroed : Scheduler :=
  Scheduler.initializeScheduler
    { threadID := fun _ => .main
      ut := fun _ => ⟨true, .code⟩
      priority := fun _ => 0
      timeCreated := fun _ => 0
      runtime := fun _ => 0
      status := fun _ => .neutral
      joinee := fun _ => none
      next := fun _ => none }
    { id := fun _ => 0
      isDead := fun _ => false
      exitArg := fun _ => 0
      pageNum := fun _ => 0
      next := fun _ => none } 0

theorem zeroed_started : Started zeroed := ⟨_, _, _, rfl⟩

/-- The main thread creates thread `2` and joins it; thread `2` exits with the value `7`. -/
def joinRun : List Event :=
  [.create 0 0 .succeeds, .join 2, .enterSchedule 0, .exit 7, .enterSchedule 0]

end OS2017.Sched
