/-
**Deadlocked joins.**

A thread on the join list is woken by the exit of the thread it waits for, and by nothing else. When
each thread of a set waits for another one of the set, or for one that is gone, then none of them ever
leaves the join list, whatever the other threads do (`deadlock_forever`): a thread that joins itself, a
cycle of joins, a thread that is parked again behind a dead one, and whoever waits for one of these.
-/

import OS2017.Sched.Values

namespace OS2017.Sched

open OS2017.Intrusive OS2017.Run

open Scheduler (Event Outcome)

/-- The thread is nowhere: it has exited, and another one has taken the processor. -/
def Gone (s : Scheduler) (p : NodePtr) : Prop :=
  p ≠ s.current ∧ ¬ OnList s.nodes.next s.joinList p ∧
    ∀ slot, ¬ OnList s.nodes.next (s.queues slot).head p

/-- **A deadlock.** Each thread of the set is on the join list, and the one it waits for is in the set or
gone. -/
def Deadlocked (s : Scheduler) (threads : Set NodePtr) : Prop :=
  ∀ p ∈ threads, OnList s.nodes.next s.joinList p ∧
    ∃ q < s.nodeNum, s.nodes.joinee p = some (s.nodes.threadID q) ∧ (q ∈ threads ∨ Gone s q)

/-- The same in terms of the layout. -/
def Stuck (s : Scheduler) (layout : Layout) (threads : Set NodePtr) : Prop :=
  ∀ p ∈ threads, p ∈ layout .join ∧ ∃ q < s.nodeNum,
    s.nodes.joinee p = some (s.nodes.threadID q) ∧
      (q ∈ threads ∨ (q ≠ s.current ∧ ¬ layout.Placed q))

section Step

variable {s s' : Scheduler} {layout layout' : Layout} {threads : Set NodePtr}

theorem Wf.gone_iff (wf : Wf s layout) (p : NodePtr) :
    Gone s p ↔ p ≠ s.current ∧ ¬ layout.Placed p := by
  refine and_congr_right fun _ => ?_
  constructor
  · rintro ⟨unparked, unqueued⟩ ⟨place, member⟩
    cases place with
    | queue slot => exact unqueued slot (((wf.rep.queued slot).linked.onList_iff p).mpr member)
    | join => exact unparked ((wf.rep.joined.onList_iff p).mpr member)
  · intro nowhere
    exact ⟨fun parked => nowhere ⟨.join, (wf.rep.joined.onList_iff p).mp parked⟩, fun slot queued =>
      nowhere ⟨.queue slot, ((wf.rep.queued slot).linked.onList_iff p).mp queued⟩⟩

theorem Wf.deadlocked_iff (wf : Wf s layout) : Deadlocked s threads ↔ Stuck s layout threads := by
  refine forall₂_congr fun p _ => and_congr (wf.rep.joined.onList_iff p) ?_
  refine exists_congr fun q => and_congr_right fun _ => and_congr_right fun _ => ?_
  exact or_congr Iff.rfl (wf.gone_iff q)

/-- Who a deadlocked thread waits for does not run. -/
theorem Stuck.target_ne (stuck : Stuck s layout threads) (wf : Wf s layout) {q : NodePtr}
    (target : q ∈ threads ∨ (q ≠ s.current ∧ ¬ layout.Placed q)) : q ≠ s.current := by
  rcases target with member | ⟨other, _⟩
  · exact wf.ne_current (stuck q member).1
  · exact other

/-- **A step that moves nobody** and changes the joinee of `current` only. -/
theorem Stuck.retag (stuck : Stuck s layout threads) (wf : Wf s layout)
    (threadID : s'.nodes.threadID = s.nodes.threadID) (nodeNum : s'.nodeNum = s.nodeNum)
    (current : s'.current = s.current)
    (joinee : ∀ p, p ≠ s.current → s'.nodes.joinee p = s.nodes.joinee p) :
    Stuck s' layout threads := by
  intro p member
  obtain ⟨parked, q, bound, waits, target⟩ := stuck p member
  refine ⟨parked, q, nodeNum.symm ▸ bound, ?_, ?_⟩
  · rw [joinee p (wf.ne_current parked), threadID]
    exact waits
  · rw [current]
    exact target

/-- **A call of `schedule`** wakes none of them: it would be for the exit of `current`. -/
theorem Stuck.schedule {now : Int} {resume : Context} (stuck : Stuck s layout threads)
    (wf : Wf s layout) (registered : Registered s)
    (step : Scheduled s layout now resume s' layout') : Stuck s' layout' threads := by
  intro p member
  obtain ⟨parked, q, bound, waits, target⟩ := stuck p member
  have other : q ≠ s.current := stuck.target_ne wf target
  refine ⟨?_, q, step.nodeNum.symm ▸ bound, ?_, ?_⟩
  · by_contra woken
    obtain ⟨_, waiter, waiting, sameId, joinee, hasTarget, isCurrent⟩ := step.woke p parked woken
    have equal : waiter = p := registered.node_inj (wf.rep.bounded _ waiter waiting)
      (wf.rep.bounded _ p parked) sameId
    rw [equal, waits] at hasTarget
    cases hasTarget
    exact other (registered.node_inj bound wf.allocated isCurrent)
  · rw [step.joinee, step.threadID]
    exact waits
  · refine target.imp_right fun ⟨_, nowhere⟩ => ?_
    rcases step.places with placed | ⟨_, _, current, placed⟩
    · have elsewhere : ¬ (q = s'.current ∨ layout'.Placed q) := fun somewhere =>
        ((placed q).mp somewhere).elim nowhere fun both => other both.1
      exact not_or.mp elsewhere
    · rw [current, placed q]
      exact ⟨other, nowhere⟩

/-- A new thread is not one of them, and does not wait. -/
theorem Stuck.created {thread : Handle} (stuck : Stuck s layout threads) (wf : Wf s layout)
    (new : Created s thread s') :
    Stuck s' (layout.push (.queue (.runQ 0)) s.nodeNum) threads := by
  intro p member
  obtain ⟨parked, q, bound, waits, target⟩ := stuck p member
  have old : p ≠ s.nodeNum := ne_of_lt (wf.rep.bounded _ p parked)
  refine ⟨Layout.mem_push.mpr (Or.inl parked), q, ?_, ?_, ?_⟩
  · rw [new.nodeNum]
    exact Nat.lt_succ_of_lt bound
  · rw [new.joinee, new.threadID, Function.update_of_ne old, Function.update_of_ne (ne_of_lt bound)]
    exact waits
  · refine target.imp_right fun ⟨other, nowhere⟩ => ⟨new.current.symm ▸ other, fun placed => ?_⟩
    exact (Layout.placed_push.mp placed).elim nowhere (ne_of_lt bound)

/-- **One event.** -/
theorem Stuck.step {e : Event} {out : Outcome} (stuck : Stuck s layout threads) (wf : Wf s layout)
    (registered : Registered s) (effect : Effect s layout e out s' layout') :
    Stuck s' layout' threads := by
  cases effect with
  | createFailed => exact stuck
  | created address now _ runs new => exact stuck.created wf new
  | yielded => exact stuck.retag wf rfl rfl rfl fun _ _ => rfl
  | exited => exact stuck.retag wf rfl rfl rfl fun _ _ => rfl
  | returned => exact stuck.retag wf rfl rfl rfl fun _ _ => rfl
  | joinUnknown => exact stuck
  | joinDead => exact stuck
  | joinWaits => exact stuck.retag wf rfl rfl rfl fun _ other => Function.update_of_ne other _ _
  | joinReturned => exact stuck.retag wf rfl rfl rfl fun _ _ => rfl
  | entered now frame _ _ runs step => exact stuck.schedule wf registered step
  | interrupted now _ _ step => exact stuck.schedule wf registered step

end Step

/-- **A deadlock is for ever.** In every continuation of an orderly run the threads stay on the join
list, and none of them runs. -/
theorem deadlock_forever {t u : Logged} {threads : Set NodePtr}
    (reached : Reach LoggedStarted JoinsOrderly (execStep Logged.next) t)
    (deadlocked : Deadlocked t.sched threads)
    (later : Reach (fun v => v = t) JoinsOrderly (execStep Logged.next) u) :
    Deadlocked u.sched threads ∧ u.sched.current ∉ threads := by
  have invariant : ∃ layout, Sound u layout ∧ Stuck u.sched layout threads := by
    refine later.invariant (fun v => ∃ layout, Sound v layout ∧ Stuck v.sched layout threads)
      (fun v same => ?_) ?_
    · obtain ⟨layout, sound⟩ := sound_of_reach reached
      rw [same]
      exact ⟨layout, sound, sound.wf.deadlocked_iff.mp deadlocked⟩
    · rintro v e v' ⟨layout, sound, stuck⟩ orderly taken
      obtain ⟨s', moved, rfl⟩ := Option.map_eq_some_iff.mp taken
      obtain ⟨out, result⟩ := Scheduler.exec_of_next moved
      obtain ⟨layout', effect, wf'⟩ := sound.wf.exec orderly.2 result
      exact ⟨layout', sound.step orderly effect wf', stuck.step sound.wf sound.registered effect⟩
  obtain ⟨layout, sound, stuck⟩ := invariant
  exact ⟨sound.wf.deadlocked_iff.mpr stuck, fun member => sound.wf.off .join (stuck _ member).1⟩

/-- Threads `2` and `3` join each other. -/
def crossedRun : List Event :=
  [.create 0 0 .succeeds, .create 1 0 .succeeds, .yield, .enterSchedule 0, .join 3, .enterSchedule 0,
    .join 2, .enterSchedule 0]

/-- The main thread goes on alone, with a timer signal that finds nobody else. -/
theorem deadlock_forever_crossed : ∃ t u : Logged,
    Reach (fun v => v = t) JoinsOrderly (execStep Logged.next) u ∧ Deadlocked t.sched {1, 2} ∧
      u.sched.current = 0 ∧ Deadlocked u.sched {1, 2} ∧ u.sched.current ∉ ({1, 2} : Set NodePtr) := by
  have start : Reach LoggedStarted JoinsOrderly (execStep Logged.next) ⟨zeroed, fun _ => none⟩ :=
    .init ⟨zeroed_started, rfl⟩
  obtain ⟨t, reached, found⟩ := start.exists_of_execAll crossedRun
    (fun t => t.sched.joinList = some 2 ∧ t.sched.nodes.next 2 = some 1 ∧ t.sched.nodeNum = 3 ∧
      t.sched.nodes.joinee 1 = some (t.sched.nodes.threadID 2) ∧
      t.sched.nodes.joinee 2 = some (t.sched.nodes.threadID 1) ∧
      (execAll JoinsOrderly Logged.next t [.timer 0]).any (fun u => u.sched.current = 0) = true)
    (by decide)
  obtain ⟨head, second, nodeNum, first, other, rest⟩ := of_decide_eq_true found
  have deadlocked : Deadlocked t.sched {1, 2} := by
    rintro p (rfl | rfl)
    · refine ⟨?_, 2, nodeNum ▸ by decide, first, Or.inl (Or.inr rfl)⟩
      rw [head]
      exact .there (second ▸ .here 1)
    · refine ⟨?_, 1, nodeNum ▸ by decide, other, Or.inl (Or.inl rfl)⟩
      rw [head]
      exact .here 2
  have here : Reach (fun v => v = t) JoinsOrderly (execStep Logged.next) t := .init rfl
  obtain ⟨u, later, runs⟩ := here.exists_of_execAll [.timer 0] (fun u => u.sched.current = 0) rest
  exact ⟨t, u, later, deadlocked, of_decide_eq_true runs, deadlock_forever reached deadlocked later⟩

end OS2017.Sched
