/-
**How long a thread can wait for the processor.**

A thread on a run queue has others ahead of it, each as often as it can run before it has come down
behind it (`Feedback.State.cost`). While everybody computes until the timer fires or exits, each call
of `schedule()` that does not pick the thread takes one of these away, and `maintenance`, every hundred
calls, at most starts the count again. With up to 26 threads the count ends before the next one:
the thread runs within eight calls for each thread there is (`served_within`).
-/

import OS2017.Sched.Refinement

namespace OS2017.Sched

open OS2017.Intrusive OS2017.Run OS2017.Feedback

open Scheduler (Event Outcome)

/-! ### The count of calls -/

/-- The count of the calls and the times of creation are the same. -/
def Steady (s s' : Scheduler) : Prop :=
  s'.cycles = s.cycles ∧ s'.nodes.timeCreated = s.nodes.timeCreated

namespace Steady

variable {s s' s'' : Scheduler}

theorem refl (s : Scheduler) : Steady s s := ⟨rfl, rfl⟩

theorem trans (first : Steady s s') (second : Steady s' s'') : Steady s s'' :=
  ⟨second.1.trans first.1, second.2.trans first.2⟩

/-- Writing `next` fields. -/
theorem of_next (written : s'.cycles = s.cycles ∧ ∃ next, s'.nodes = { s.nodes with next := next }) :
    Steady s s' := by
  obtain ⟨cycles, next, nodes⟩ := written
  exact ⟨cycles, by rw [nodes]⟩

theorem enQ {slot : Slot} {p : NodePtr} (ran : s.enQ slot p = some s') : Steady s s' := by
  obtain ⟨⟨nodes, q⟩, pushed, rfl⟩ := Option.map_eq_some_iff.mp ran
  refine ⟨rfl, ?_⟩
  show nodes.timeCreated = s.nodes.timeCreated
  unfold Sched.enQ at pushed
  split at pushed
  · cases pushed
    rfl
  · obtain ⟨rear, _, same⟩ := Option.map_eq_some_iff.mp pushed
    cases same
    split <;> rfl

theorem collect (now : Int) (i : Nat) :
    ∀ {fuel count n : Nat} {s s' : Scheduler}, Scheduler.collect now i fuel s count = some (n, s') →
      Steady s s' := by
  intro fuel
  induction fuel with
  | zero =>
    intro count n s s' ran
    unfold Scheduler.collect at ran
    split at ran
    · cases ran
      exact refl _
    · cases ran
  | succ fuel ih =>
    intro count n s s' ran
    unfold Scheduler.collect at ran
    split at ran
    · cases ran
      exact refl _
    · rename_i ptr s₁ popped
      obtain ⟨s₂, inserted, rest⟩ := Option.bind_eq_some_iff.mp ran
      have aged : Steady s₁ (s₁.age now ptr) := ⟨rfl, rfl⟩
      exact (of_next (Scheduler.deQ_next popped)).trans
        (aged.trans ((of_next (Scheduler.insertByTime_next inserted)).trans (ih rest)))

theorem collectAll (now : Int) :
    ∀ {levels counts : List Nat} {s s' : Scheduler},
      Scheduler.collectAll now levels s = some (counts, s') → Steady s s' := by
  intro levels
  induction levels with
  | nil =>
    intro counts s s' ran
    cases ran
    exact refl _
  | cons i levels ih =>
    intro counts s s' ran
    obtain ⟨⟨count, s₁⟩, first, rest⟩ := Option.bind_eq_some_iff.mp ran
    obtain ⟨⟨more, s₂⟩, later, same⟩ := Option.map_eq_some_iff.mp rest
    cases same
    exact (collect now i first).trans (ih later)

theorem promote (i level : Nat) :
    ∀ {count : Nat} {s s' : Scheduler}, Scheduler.promote i level count s = some s' →
      Steady s s' := by
  intro count
  induction count with
  | zero =>
    intro s s' ran
    cases ran
    exact refl _
  | succ count ih =>
    intro s s' ran
    unfold Scheduler.promote at ran
    split at ran
    · exact ih ran
    · rename_i ptr s₁ popped
      obtain ⟨s₂, pushed, rest⟩ := Option.bind_eq_some_iff.mp ran
      exact (of_next (Scheduler.deQ_next popped)).trans ((enQ pushed).trans (ih rest))

theorem spread (i arr : Nat) :
    ∀ {levels : List Nat} {s s' : Scheduler}, Scheduler.spread i arr levels s = some s' →
      Steady s s' := by
  intro levels
  induction levels with
  | nil =>
    intro s s' ran
    exact promote i 0 ran
  | cons level levels ih =>
    intro s s' ran
    obtain ⟨s₁, first, rest⟩ := Option.bind_eq_some_iff.mp ran
    exact (promote i level first).trans (ih rest)

theorem spreadAll :
    ∀ {pairs : List (Nat × Nat)} {s s' : Scheduler}, Scheduler.spreadAll pairs s = some s' →
      Steady s s' := by
  intro pairs
  induction pairs with
  | nil =>
    intro s s' ran
    cases ran
    exact refl _
  | cons pair pairs ih =>
    intro s s' ran
    obtain ⟨s₁, first, rest⟩ := Option.bind_eq_some_iff.mp ran
    exact (spread pair.1 pair.2 first).trans (ih rest)

theorem maintenance {now : Int} (ran : s.maintenance now = some s') : Steady s s' := by
  obtain ⟨⟨counts, s₁⟩, collected, rest⟩ := Option.bind_eq_some_iff.mp ran
  exact (collectAll now collected).trans (spreadAll rest)

theorem removeFromListLoop {id : Nat} {found : Option NodePtr} :
    ∀ {fuel : Nat} {prev ptr : Option NodePtr},
      s.removeFromListLoop id fuel prev ptr = some (found, s') → Steady s s' := by
  intro fuel
  induction fuel with
  | zero =>
    intro prev ptr ran
    cases ptr with
    | none =>
      cases ran
      exact refl _
    | some ptr => cases ran
  | succ fuel ih =>
    intro prev ptr ran
    cases ptr with
    | none =>
      cases ran
      exact refl _
    | some ptr =>
      unfold Scheduler.removeFromListLoop at ran
      split at ran
      · cases prev <;> cases ran <;> exact ⟨rfl, rfl⟩
      · exact ih ran

theorem wakeLoop (id : Nat) :
    ∀ {fuel : Nat} {s s' : Scheduler} {jptr : Option NodePtr},
      Scheduler.wakeLoop id fuel s jptr = some s' → Steady s s' := by
  intro fuel
  induction fuel with
  | zero =>
    intro s s' jptr ran
    cases jptr with
    | none =>
      cases ran
      exact refl _
    | some jptr => cases ran
  | succ fuel ih =>
    intro s s' jptr ran
    cases jptr with
    | none =>
      cases ran
      exact refl _
    | some jptr =>
      obtain ⟨joinee, _, body⟩ := Option.bind_eq_some_iff.mp ran
      split at body
      · obtain ⟨⟨removed, s₁⟩, first, rest⟩ := Option.bind_eq_some_iff.mp body
        obtain ⟨returnToQ, _, rest⟩ := Option.bind_eq_some_iff.mp rest
        obtain ⟨s₂, pushed, rest⟩ := Option.bind_eq_some_iff.mp rest
        exact (removeFromListLoop first).trans ((enQ pushed).trans (ih rest))
      · exact ih body

theorem requeue (ran : s.requeue = some s') : Steady s s' := by
  simp only [Scheduler.requeue] at ran
  split at ran
  · obtain ⟨s₁, pushed, rfl⟩ := Option.map_eq_some_iff.mp ran
    obtain ⟨cycles, times⟩ := enQ pushed
    exact ⟨cycles, times⟩
  · obtain ⟨s₁, died, rest⟩ := Option.bind_eq_some_iff.mp ran
    obtain ⟨_, _, rfl⟩ := threadDied_spec died
    obtain ⟨cycles, times⟩ := wakeLoop _ rest
    exact ⟨cycles, times⟩
  · cases ran
    exact ⟨rfl, rfl⟩
  · exact enQ ran

theorem getNextNodeFrom {p : NodePtr} :
    ∀ {levels : List Nat}, s.getNextNodeFrom levels = some (p, s') → Steady s s' := by
  intro levels
  induction levels with
  | nil =>
    intro ran
    cases ran
  | cons i levels ih =>
    intro ran
    unfold Scheduler.getNextNodeFrom at ran
    split at ran
    · rename_i popped
      cases ran
      exact of_next (Scheduler.deQ_next popped)
    · exact ih ran

theorem switchTo (s : Scheduler) (resume : Context) : Steady s (s.switchTo resume) := by
  unfold Scheduler.switchTo
  split
  · exact ⟨rfl, rfl⟩
  · rename_i found
    obtain ⟨cycles, times⟩ := getNextNodeFrom found
    simp only
    split
    · exact ⟨cycles, times⟩
    · exact ⟨cycles, times⟩

end Steady

/-- **`schedule` counts its calls**, and starts again after a hundred. -/
theorem Scheduler.schedule_cycles {s s' : Scheduler} {now : Int} {resume : Context}
    (ran : s.schedule now resume = some s') :
    s'.cycles = (if s.cycles < 100 then s.cycles + 1 else 0) ∧
      s'.nodes.timeCreated = s.nodes.timeCreated := by
  obtain ⟨s₂, before, rfl⟩ := Option.map_eq_some_iff.mp ran
  obtain ⟨s₁, ticked, requeued⟩ := Option.bind_eq_some_iff.mp before
  obtain ⟨cycles, times⟩ := (Steady.requeue requeued).trans (Steady.switchTo s₂ resume)
  rw [cycles, times]
  simp only [Scheduler.tick] at ticked
  split at ticked
  · rename_i late
    rw [if_neg (by omega)]
    exact Steady.maintenance ticked
  · rename_i early
    cases ticked
    rw [if_pos (by omega)]
    exact ⟨rfl, rfl⟩

/-! ### How many there are -/

variable {s s' : Scheduler} {layout layout' : Layout}

/-- **There are no more threads than nodes.** -/
theorem Wf.population_le (wf : Wf s layout) :
    (layout.feedback s).population (RUN_QUEUE_SIZE - 1) ≤ s.nodeNum := by
  have nodup : (s.current :: (layout.runQueues ++ layout .join)).Nodup := by
    refine List.nodup_cons.mpr ⟨fun member => ?_, List.nodup_append.mpr ⟨?_, wf.rep.nodup .join, ?_⟩⟩
    · rcases List.mem_append.mp member with queued | joined
      · obtain ⟨k, _, inside⟩ := List.mem_flatMap.mp queued
        exact wf.off _ inside
      · exact wf.off _ joined
    · refine List.nodup_flatMap.mpr ⟨fun k _ => wf.rep.nodup _, ?_⟩
      refine List.nodup_range.imp fun different => ?_
      refine List.disjoint_left.mpr fun p first second => different ?_
      have same := wf.rep.apart p _ _ first second
      exact Slot.runQ.inj (Place.queue.inj same)
    · intro p queued q joined same
      obtain ⟨k, _, inside⟩ := List.mem_flatMap.mp queued
      exact wf.rep.not_mem inside (by simp) (same ▸ joined)
  have bounded : s.current :: (layout.runQueues ++ layout .join) ⊆ List.range s.nodeNum := by
    intro p member
    refine List.mem_range.mpr ?_
    rcases List.mem_cons.mp member with rfl | placed
    · exact wf.allocated
    · rcases List.mem_append.mp placed with queued | joined
      · obtain ⟨k, _, inside⟩ := List.mem_flatMap.mp queued
        exact wf.rep.bounded _ p inside
      · exact wf.rep.bounded _ p joined
  have length := (List.subperm_of_subset nodup bounded).length_le
  have queues : layout.runQueues.length
      = ∑ k ∈ Finset.range RUN_QUEUE_SIZE, (layout (.queue (.runQ k))).length := by
    rw [Layout.runQueues, List.length_flatMap]
    rfl
  rw [List.length_range, List.length_cons, List.length_append, queues] at length
  refine le_trans (le_of_eq ?_) length
  show ∑ k ∈ Finset.range RUN_QUEUE_SIZE, (layout (.queue (.runQ k))).length
    + ((layout .join).map _).length + 1 = _
  rw [List.length_map]

/-- **A call deals a queued thread a place on a run queue**, and what is ahead of it there is bounded
by the number of threads. -/
theorem Wf.dealt (wf : Wf s layout) (now : Int) {p : NodePtr} {k : Nat}
    (member : p ∈ (layout.feedback s).levels k) :
    ∃ j < RUN_QUEUE_SIZE, p ∈ ((layout.feedback s).redeal (s.dealing now)).levels j ∧
      ((layout.feedback s).redeal (s.dealing now)).cost j p ≤ 4 * (s.nodeNum - 1) := by
  obtain ⟨s₁, layout₁, ticked, wf₁, kept, join, placed⟩ := wf.tick now
  obtain ⟨s₂, layout₂, again, wf₂, _, dealt⟩ := wf.tick_deals now
  cases ticked.symm.trans again
  rw [← dealt, ← wf₁.rep.implements.unique wf₂.rep.implements]
  obtain ⟨place, inside⟩ := (placed p).mpr ⟨_, member⟩
  have queued : ∃ j, place = .queue (.runQ j) := by
    cases place with
    | join =>
      rw [join] at inside
      exact absurd inside (wf.rep.not_mem member (by simp))
    | queue slot =>
      cases slot with
      | runQ j => exact ⟨j, rfl⟩
      | promotionQ i =>
        rw [wf₁.promotion i] at inside
        cases inside
  obtain ⟨j, rfl⟩ := queued
  have inRange : j < RUN_QUEUE_SIZE := by
    by_contra beyond
    rw [wf₁.beyond (not_lt.mp beyond)] at inside
    cases inside
  have few := wf₁.population_le
  rw [kept.nodeNum] at few
  refine ⟨j, inRange, inside, ?_⟩
  refine (State.cost_le inside (Nat.le_sub_one_of_lt inRange) (by decide)).trans ?_
  exact Nat.mul_le_mul_left _ (Nat.sub_le_sub_right few 1)

/-! ### What is ahead of a thread -/

/-- **The thread `p` waits in level `k`**, `since` calls after the queues have been dealt or it has
come, and `calls` calls in all. -/
structure Ahead (p : NodePtr) (f : State NodePtr) (threads cycles calls k since : Nat) : Prop where
  inRange : k < RUN_QUEUE_SIZE
  member : p ∈ f.levels k
  paid : f.cost k p + (since - 1) ≤ 4 * (threads - 1)
  level : 1 ≤ since → f.current.2 ≤ k
  counted : threads ≤ 26 →
    calls = since ∨ (since = cycles + 1 ∧ calls ≤ 4 * (threads - 1) + 1 + since)

namespace Ahead

variable {p : NodePtr} {f : State NodePtr} {threads cycles calls k since : Nat}

/-- Nobody waits for long. -/
theorem calls_le (ahead : Ahead p f threads cycles calls k since) (few : threads ≤ 26) :
    calls ≤ 2 * (4 * (threads - 1) + 1) := by
  have paid := ahead.paid
  rcases ahead.counted few with first | ⟨_, second⟩ <;> omega

/-- A new thread starts in front of it, and is one more. -/
theorem create (ahead : Ahead p f threads cycles calls k since) (positive : 1 ≤ threads)
    (new : NodePtr) : Ahead p (f.push 0 new) (threads + 1) cycles calls k since := by
  refine ⟨ahead.inRange, State.mem_push ahead.member 0 new, ?_, ahead.level, fun few => ?_⟩
  · have costs : (f.push 0 new).cost k p = f.cost k p + k := by
      show (f.push 0 new).delay k p + State.turns k f.current.2 = _
      rw [State.delay_push ahead.member, State.cost]
      omega
    have inRange : k < 5 := ahead.inRange
    have paid := ahead.paid
    rw [costs]
    omega
  · rcases ahead.counted (by omega) with first | ⟨since, second⟩
    · exact Or.inl first
    · exact Or.inr ⟨since, by omega⟩

/-- **A call without `maintenance`** that does not pick the thread. -/
theorem call (ahead : Ahead p f threads cycles calls k since) {how : Leave NodePtr}
    (busy : how = .expires ∨ ∃ wakes, how = .ends wakes)
    (other : (f.schedule (RUN_QUEUE_SIZE - 1) id how).current.1 ≠ p) :
    Ahead p (f.schedule (RUN_QUEUE_SIZE - 1) id how) threads (cycles + 1) (calls + 1) k
      (since + 1) := by
  obtain ⟨level, later⟩ :=
    State.cost_schedule ahead.member (Nat.le_sub_one_of_lt ahead.inRange) busy
  obtain ⟨costs, member⟩ := later other
  refine ⟨ahead.inRange, member, ?_, fun _ => level, fun few => ?_⟩
  · have paid := ahead.paid
    by_cases first : since = 0
    · split at costs <;> omega
    · rw [if_pos (ahead.level (by omega))] at costs
      omega
  · rcases ahead.counted few with first | ⟨since, second⟩
    · exact Or.inl (by omega)
    · exact Or.inr ⟨by omega, by omega⟩

/-- **A call with `maintenance`**, which puts the thread into the level `j`. With so few threads
there is only one before it runs. -/
theorem redealt (ahead : Ahead p f threads cycles calls k since) (due : ¬ cycles < 100)
    {deal : (Nat → List NodePtr) → Nat → List NodePtr} {j : Nat} (inRange : j < RUN_QUEUE_SIZE)
    (dealt : p ∈ (f.redeal deal).levels j)
    (bound : (f.redeal deal).cost j p ≤ 4 * (threads - 1)) {how : Leave NodePtr}
    (busy : how = .expires ∨ ∃ wakes, how = .ends wakes)
    (other : (f.schedule (RUN_QUEUE_SIZE - 1) deal how).current.1 ≠ p) :
    Ahead p (f.schedule (RUN_QUEUE_SIZE - 1) deal how) threads 0 (calls + 1) j 1 := by
  obtain ⟨level, later⟩ := State.cost_schedule dealt (Nat.le_sub_one_of_lt inRange) busy
  obtain ⟨costs, member⟩ := later other
  refine ⟨inRange, member, ?_, fun _ => level, fun few => Or.inr ⟨rfl, ?_⟩⟩
  · refine le_trans (Nat.le_trans (Nat.le_add_right _ _) costs) bound
  · have paid := ahead.paid
    rcases ahead.counted few with first | ⟨again, _⟩
    · omega
    · -- a second time: who runs is ahead, too
      have running : 1 ≤ f.cost k p := by
        have level := ahead.level (by omega)
        unfold State.cost State.turns
        split <;> omega
      omega

end Ahead

/-! ### The watch -/

/-- A run watched for the thread of a node: the calls of `schedule()` so far, and whether it has
run. -/
structure Watched where
  run : Logged
  calls : Nat
  seen : Bool

/-- One event. -/
def Watched.next (p : NodePtr) (w : Watched) (e : Event) : Option Watched :=
  (w.run.next e).map fun t =>
    ⟨t, if Schedules e then w.calls + 1 else w.calls, w.seen || t.sched.current == p⟩

/-- The watch begins in a run, with the thread on a run queue. -/
def WatchStarted (p : NodePtr) (w : Watched) : Prop :=
  Reach LoggedStarted JoinsOrderly (execStep Logged.next) w.run ∧
    (∃ f k, Implements w.run.sched f ∧ p ∈ f.levels k) ∧ w.calls = 0 ∧ w.seen = false

/-- **Everybody computes**: who is in `schedule()` has used up its time or exits. -/
def Computes (w : Watched) (e : Event) : Prop :=
  JoinsOrderly w.run e ∧ (Schedules e →
    w.run.sched.nodes.status w.run.sched.current = .neutral ∨
      w.run.sched.nodes.status w.run.sched.current = .exiting)

instance (w : Watched) (e : Event) : Decidable (Computes w e) := by
  unfold Computes
  infer_instance

/-- The invariant of the watch. -/
def Watching (p : NodePtr) (w : Watched) : Prop :=
  ∃ layout, Sound w.run layout ∧ (w.seen = false → ∃ k since,
    Ahead p (layout.feedback w.run.sched) w.run.sched.nodeNum w.run.sched.cycles w.calls k since)

/-- Who computes leaves by the end of its time or for good. -/
theorem leaving_busy (busy : s.nodes.status s.current = .neutral ∨
    s.nodes.status s.current = .exiting) :
    s.leaving = .expires ∨ ∃ wakes, s.leaving = .ends wakes := by
  unfold Scheduler.leaving
  rcases busy with status | status
  · rw [status]
    exact Or.inl rfl
  · rw [status]
    exact Or.inr ⟨_, rfl⟩

/-- An event that does not call `schedule` leaves the count, and adds a thread at most. -/
theorem exec_quiet {e : Event} {out : Outcome} (quiet : ¬ Schedules e)
    (ran : s.exec e = some (out, s')) :
    s'.cycles = s.cycles ∧ (((∀ f, s.follow f e = f) ∧ s'.nodeNum = s.nodeNum) ∨
      ((∀ f, s.follow f e = f.push 0 s.nodeNum) ∧ s'.nodeNum = s.nodeNum + 1)) := by
  cases e with
  | create address now allocation =>
    simp only [Scheduler.exec] at ran
    split at ran
    · obtain ⟨⟨code, s₁⟩, result, same⟩ := Option.map_eq_some_iff.mp ran
      cases same
      cases allocation with
      | succeeds =>
        obtain ⟨s₂, pushed, same⟩ := Option.map_eq_some_iff.mp result
        cases same
        obtain ⟨_, _, rfl⟩ := Option.map_eq_some_iff.mp pushed
        exact ⟨rfl, Or.inr ⟨fun _ => rfl, rfl⟩⟩
      | noNode => cases result
      | noContext =>
        cases result
        exact ⟨rfl, Or.inl ⟨fun _ => rfl, rfl⟩⟩
      | noStack =>
        cases result
        exact ⟨rfl, Or.inl ⟨fun _ => rfl, rfl⟩⟩
    · cases ran
  | join id =>
    simp only [Scheduler.exec] at ran
    split at ran
    · obtain ⟨found, _, same⟩ := Option.map_eq_some_iff.mp ran
      cases found with
      | none =>
        cases same
        exact ⟨rfl, Or.inl ⟨fun _ => rfl, rfl⟩⟩
      | some ptr =>
        simp only at same
        split at same <;> cases same <;> exact ⟨rfl, Or.inl ⟨fun _ => rfl, rfl⟩⟩
    · cases ran
  | joinReturn =>
    simp only [Scheduler.exec] at ran
    split at ran
    · cases ran
      exact ⟨rfl, Or.inl ⟨fun _ => rfl, rfl⟩⟩
    · cases ran
  | enterSchedule now => exact absurd trivial quiet
  | timer now => exact absurd trivial quiet
  | _ =>
    simp only [Scheduler.exec] at ran
    split at ran
    · cases ran
      exact ⟨rfl, Or.inl ⟨fun _ => rfl, rfl⟩⟩
    · cases ran

/-- The others are a call of `schedule`. -/
theorem exec_schedules {e : Event} {out : Outcome} (calls : Schedules e)
    (ran : s.exec e = some (out, s')) :
    ∃ now resume, s.schedule now resume = some s' ∧ ∀ f, s.follow f e = s.scheduled now f := by
  cases e with
  | enterSchedule now =>
    obtain ⟨frame, _, rest⟩ := Option.bind_eq_some_iff.mp ran
    obtain ⟨_, result, same⟩ := Option.map_eq_some_iff.mp rest
    cases same
    exact ⟨now, _, result, fun _ => rfl⟩
  | timer now =>
    simp only [Scheduler.exec] at ran
    split at ran
    · cases ran
    · obtain ⟨_, result, same⟩ := Option.map_eq_some_iff.mp ran
      cases same
      exact ⟨now, _, result, fun _ => rfl⟩
  | _ => cases calls

theorem WatchStarted.watching {p : NodePtr} {w : Watched} (started : WatchStarted p w) :
    Watching p w := by
  obtain ⟨reached, ⟨f, k, implements, member⟩, calls, _⟩ := started
  obtain ⟨layout, sound⟩ := sound_of_reach reached
  cases implements.unique sound.wf.rep.implements
  have inRange : k < RUN_QUEUE_SIZE := by
    by_contra beyond
    have empty : (layout.feedback w.run.sched).levels k = [] := sound.wf.beyond (not_lt.mp beyond)
    rw [empty] at member
    cases member
  refine ⟨layout, sound, fun _ => ⟨k, 0, inRange, member, ?_, fun later => by omega,
    fun _ => Or.inl calls⟩⟩
  refine (State.cost_le member (Nat.le_sub_one_of_lt inRange) (by decide)).trans ?_
  exact Nat.mul_le_mul_left _ (Nat.sub_le_sub_right sound.wf.population_le 1)

/-- **One call of `schedule`** that picks somebody else. -/
theorem Ahead.schedule {p : NodePtr} {calls k since : Nat} {now : Int} {resume : Context}
    (wf : Wf s layout)
    (ahead : Ahead p (layout.feedback s) s.nodeNum s.cycles calls k since)
    (busy : s.nodes.status s.current = .neutral ∨ s.nodes.status s.current = .exiting)
    (ran : s.schedule now resume = some s') (nodeNum : s'.nodeNum = s.nodeNum)
    (implements : Implements s' (s.scheduled now (layout.feedback s))) (other : s'.current ≠ p) :
    ∃ k since, Ahead p (s.scheduled now (layout.feedback s)) s'.nodeNum s'.cycles (calls + 1) k
      since := by
  have leaves := leaving_busy busy
  have cycles := (Scheduler.schedule_cycles ran).1
  have other : (s.scheduled now (layout.feedback s)).current.1 ≠ p := by
    rw [implements.current]
    exact other
  rw [nodeNum, cycles]
  by_cases due : s.cycles < 100
  · have keeps : s.dealing now = id := if_pos due
    rw [if_pos due]
    unfold Scheduler.scheduled at other ⊢
    rw [keeps] at other ⊢
    exact ⟨k, since + 1, ahead.call leaves other⟩
  · obtain ⟨j, inRange, dealt, bound⟩ := wf.dealt now ahead.member
    rw [if_neg due]
    exact ⟨j, 1, ahead.redealt due inRange dealt bound leaves other⟩

/-- **One event** of the watch. -/
theorem Watching.step {p : NodePtr} {w w' : Watched} {e : Event} (watching : Watching p w)
    (computes : Computes w e) (taken : w.next p e = some w') : Watching p w' := by
  obtain ⟨layout, sound, waits⟩ := watching
  obtain ⟨orderly, busy⟩ := computes
  obtain ⟨t, stepped, rfl⟩ := Option.map_eq_some_iff.mp taken
  obtain ⟨layout', sound', same⟩ := sound.next orderly stepped
  obtain ⟨s', moved, rfl⟩ := Option.map_eq_some_iff.mp stepped
  obtain ⟨out, result⟩ := Scheduler.exec_of_next moved
  have follows := sound'.wf.rep.implements
  refine ⟨layout', sound', fun unseen => ?_⟩
  obtain ⟨before, other⟩ : w.seen = false ∧ s'.current ≠ p := by simpa using unseen
  obtain ⟨k, since, ahead⟩ := waits before
  show ∃ k since, Ahead p (layout'.feedback s') s'.nodeNum s'.cycles _ k since
  rw [same] at follows ⊢
  by_cases calls : Schedules e
  · obtain ⟨now, resume, ran, following⟩ := exec_schedules calls result
    obtain ⟨_, step⟩ := sound.wf.schedule (orderly.2 calls) ran
    rw [following] at follows ⊢
    simp only [if_pos calls]
    exact ahead.schedule sound.wf (busy calls) ran step.nodeNum follows other
  · obtain ⟨cycles, quiet | created⟩ := exec_quiet calls result
    · simp only [if_neg calls]
      rw [quiet.1, quiet.2, cycles]
      exact ⟨k, since, ahead⟩
    · simp only [if_neg calls]
      rw [created.1, created.2, cycles]
      exact ⟨k, since, ahead.create (Nat.one_le_of_lt sound.wf.allocated) _⟩

/-- **A queued thread runs soon.** While everybody computes, a thread that is on a run queue has run
before there have been eight calls of `schedule()` for each thread, if there are at most 26 threads. -/
theorem served_within {p : NodePtr} {w : Watched}
    (reached : Reach (WatchStarted p) Computes (execStep (Watched.next p)) w)
    (few : w.run.sched.nodeNum ≤ 26) (long : 8 * w.run.sched.nodeNum ≤ w.calls) :
    w.seen = true := by
  obtain ⟨layout, sound, waits⟩ := reached.invariant (Watching p)
    (fun _ started => started.watching) fun _ _ _ watching computes taken =>
      watching.step computes taken
  by_contra unseen
  obtain ⟨k, since, ahead⟩ := waits (Bool.eq_false_of_not_eq_true unseen)
  have calls := ahead.calls_le few
  have positive : 1 ≤ w.run.sched.nodeNum := Nat.one_le_of_lt sound.wf.allocated
  omega

/-- The main thread has created thread `2`. -/
def twoThreads : Logged :=
  ((⟨zeroed, fun _ => none⟩ : Logged).next (.create 0 0 .succeeds)).getD ⟨zeroed, fun _ => none⟩

/-- Both compute, and the timer fires sixteen times. -/
theorem served_within_twoThreads : ∃ w : Watched,
    Reach (WatchStarted 1) Computes (execStep (Watched.next 1)) w ∧ w.calls = 16 ∧
      w.run.sched.nodeNum = 2 ∧ w.seen = true := by
  have initial : Reach LoggedStarted JoinsOrderly (execStep Logged.next) ⟨zeroed, fun _ => none⟩ :=
    .init ⟨zeroed_started, rfl⟩
  have began : Reach LoggedStarted JoinsOrderly (execStep Logged.next) twoThreads :=
    .next initial (e := .create 0 0 .succeeds) (by decide) rfl
  obtain ⟨layout, sound⟩ := sound_of_reach began
  have queued : layout (.queue (.runQ 0)) = [1] :=
    (sound.wf.rep.queued (.runQ 0)).linked.unique ⟨rfl, rfl⟩
  have start : Reach (WatchStarted 1) Computes (execStep (Watched.next 1)) ⟨twoThreads, 0, false⟩ := by
    refine .init ⟨began, ⟨layout.feedback twoThreads.sched, 0, sound.wf.rep.implements, ?_⟩, rfl, rfl⟩
    show 1 ∈ layout (.queue (.runQ 0))
    rw [queued]
    exact List.mem_singleton_self 1
  obtain ⟨w, reached, found⟩ := start.exists_of_execAll (List.replicate 16 (.timer 0))
    (fun w => w.calls = 16 ∧ w.run.sched.nodeNum = 2) (by decide +kernel)
  obtain ⟨calls, nodeNum⟩ := of_decide_eq_true found
  exact ⟨w, reached, calls, nodeNum, served_within reached (by omega) (by omega)⟩

end OS2017.Sched
