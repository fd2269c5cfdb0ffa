/-
**Thread conservation.**

Every thread that has been created and has not exited is in exactly one place: it is `current`, on
one run queue, or on the join list; a thread that has exited is in none; the promotion queues are
empty between two events, and every node of `runQ[k]` has priority `k` (`threads_conserved`). This
is up to the first `schedule()` that finds nothing to run, and for creates with handles that no
earlier thread uses.

The node of the thread with id `n + 1` is the `n`-th one allocated, so the count of a thread's
occurrences is the count of one node in a list without duplicates.
-/

import Mathlib
import OS2017.Sched.Joins

namespace OS2017.Sched

open OS2017.Intrusive OS2017.Run

open Scheduler (Event Outcome Allocation)

/-- The scheduler with the ids of the threads that have exited. -/
structure Traced where
  sched : Scheduler
  exited : List Nat

/-- A step; `schedule()` on an exiting thread records its id. -/
def Traced.next (t : Traced) (e : Event) : Option Traced :=
  (t.sched.next e).map fun s' =>
    { sched := s'
      exited := if Schedules e ∧ t.sched.nodes.status t.sched.current = .exiting
        then t.sched.idOf t.sched.current :: t.exited else t.exited }

/-- A thread is created with a handle that no thread has yet. -/
def FreshHandle (s : Scheduler) : Event → Prop
  | .create address _ _ => ∀ p < s.nodeNum, s.nodes.threadID p ≠ .user address
  | _ => True

instance (s : Scheduler) : (e : Event) → Decidable (FreshHandle s e)
  | .create address _ _ =>
    inferInstanceAs (Decidable (∀ p < s.nodeNum, s.nodes.threadID p ≠ .user address))
  | .yield => isTrue trivial
  | .exit _ => isTrue trivial
  | .functionReturn => isTrue trivial
  | .join _ => isTrue trivial
  | .enterSchedule _ => isTrue trivial
  | .joinReturn => isTrue trivial
  | .timer _ => isTrue trivial

/-- The call of `schedule` at the clock value `now` finds a node to run. -/
def FindsNextAt (s : Scheduler) (now : Int) : Prop :=
  ∀ s', s.beforeNext now = some s' → s'.getNextNode ≠ none

instance (s : Scheduler) (now : Int) : Decidable (FindsNextAt s now) :=
  match result : s.beforeNext now with
  | none => isTrue fun s' same => by rw [result] at same; cases same
  | some s₁ =>
    if found : s₁.getNextNode.isSome then isTrue fun s' same => by
      rw [result] at same
      cases same
      exact Option.isSome_iff_ne_none.mp found
    else isFalse fun all => found (Option.isSome_iff_ne_none.mpr (all s₁ result))

/-- An event that calls `schedule` finds a node to run. -/
def FindsNext (s : Scheduler) : Event → Prop
  | .enterSchedule now => FindsNextAt s now
  | .timer now => FindsNextAt s now
  | _ => True

instance (s : Scheduler) : (e : Event) → Decidable (FindsNext s e)
  | .enterSchedule now => inferInstanceAs (Decidable (FindsNextAt s now))
  | .timer now => inferInstanceAs (Decidable (FindsNextAt s now))
  | .create _ _ _ => isTrue trivial
  | .yield => isTrue trivial
  | .exit _ => isTrue trivial
  | .functionReturn => isTrue trivial
  | .join _ => isTrue trivial
  | .joinReturn => isTrue trivial

/-- The runs of the claim: distinct handles, up to the first empty `schedule()`. -/
def Orderly (t : Traced) (e : Event) : Prop := FreshHandle t.sched e ∧ FindsNext t.sched e

instance (t : Traced) (e : Event) : Decidable (Orderly t e) := by
  unfold Orderly
  infer_instance

/-- All nodes in the hands of the scheduler: `current`, the run queues, the join list. -/
def everywhere (s : Scheduler) (run : Nat → List NodePtr) (join : List NodePtr) : List NodePtr :=
  s.current :: ((List.range RUN_QUEUE_SIZE).flatMap run ++ join)

/-- **Conservation.** -/
def Conserved (t : Traced) : Prop :=
  ∃ (run : Nat → List NodePtr) (join : List NodePtr),
    (∀ k < RUN_QUEUE_SIZE, Linked t.sched.nodes.next (t.sched.queues (.runQ k)).head (run k)) ∧
    Linked t.sched.nodes.next t.sched.joinList join ∧
    (∀ id, 1 ≤ id → id < t.sched.threadNum →
      (everywhere t.sched run join).countP (fun p => t.sched.idOf p = id)
        = if id ∈ t.exited then 0 else 1) ∧
    (∀ i < RUN_QUEUE_SIZE - 1, (t.sched.queues (.promotionQ i)).head = none ∧
      (t.sched.queues (.promotionQ i)).rear = none) ∧
    ∀ k < RUN_QUEUE_SIZE, ∀ p ∈ run k, t.sched.nodes.priority p = k

/-! ### The invariant -/

/-- A `schedule` that finds a node leaves a successor to a joining thread. -/
theorem Wf.leaves_of_findsNextAt {s : Scheduler} {layout : Layout} (wf : Wf s layout) {now : Int}
    (finds : FindsNextAt s now) (joining : s.nodes.status s.current = .joining) :
    SomeRunnable s := by
  obtain ⟨s₀, layout₀, ticked, wf₀, kept, join, placed⟩ := wf.tick now
  have joining₀ : s₀.nodes.status s₀.current = .joining := by
    rw [kept.status, kept.current]
    exact joining
  obtain ⟨result, requeued₀⟩ := wf₀.requeue_joining joining₀
  have requeued := requeued₀.of_kept kept join placed wf
  have before : s.beforeNext now = some (s₀.insertToList s₀.current) := by
    simp only [Scheduler.beforeNext, ticked, Option.bind_some, result]
  rcases requeued.rep.getNextNode with ⟨_, none⟩ | ⟨k, _, p, xs, s₂, first, _⟩
  · exact absurd none (finds _ before)
  · have member : p ∈ Function.update layout₀ .join (s₀.current :: layout₀ .join)
        (.queue (.runQ k)) := by
      rw [first]
      exact List.mem_cons_self
    rw [Function.update_of_ne (by simp)] at member
    obtain ⟨place, inside⟩ := (placed p).mp ⟨_, member⟩
    cases place with
    | queue slot => exact wf.runnable_iff.mpr ⟨slot, p, inside⟩
    | join => exact absurd (join.symm ▸ inside) (wf₀.rep.not_mem member (by simp))

theorem Wf.leaves_of_findsNext {s : Scheduler} {layout : Layout} (wf : Wf s layout) {e : Event}
    (finds : FindsNext s e) : LeavesSuccessor s e := by
  intro schedules joining
  cases e with
  | enterSchedule now => exact wf.leaves_of_findsNextAt finds joining
  | timer now => exact wf.leaves_of_findsNextAt finds joining
  | _ => exact schedules.elim

/-- **The invariant**: the `n`-th node is the thread `n + 1`, and it is somewhere exactly while the
thread has not exited. -/
structure Accounted (t : Traced) (layout : Layout) : Prop where
  wf : Wf t.sched layout
  ids : ∀ p < t.sched.nodeNum, t.sched.idOf p = p + 1
  threadNum : t.sched.threadNum = t.sched.nodeNum + 1
  exited : ∀ id ∈ t.exited, id ≤ t.sched.nodeNum
  conserved : ∀ p < t.sched.nodeNum,
    (p = t.sched.current ∨ layout.Placed p) ↔ p + 1 ∉ t.exited

/-- **`schedule` keeps it**, when it finds a node. -/
theorem Accounted.schedule {t : Traced} {layout layout' : Layout} {s' : Scheduler} {now : Int}
    {resume : Context} (accounted : Accounted t layout)
    (step : Scheduled t.sched layout now resume s' layout') (finds : FindsNextAt t.sched now) :
    Accounted ⟨s', if t.sched.nodes.status t.sched.current = .exiting
      then t.sched.idOf t.sched.current :: t.exited else t.exited⟩ layout' := by
  have idOf : ∀ p, s'.idOf p = t.sched.idOf p := fun p => by
    unfold Scheduler.idOf
    rw [step.id, step.threadID]
  have currentId := accounted.ids _ accounted.wf.allocated
  have places : ∀ p, p = s'.current ∨ layout'.Placed p ↔ layout.Placed p ∨
      (p = t.sched.current ∧ t.sched.nodes.status t.sched.current ≠ .exiting) := by
    rcases step.places with places | ⟨⟨s₁, before, none⟩, _⟩
    · exact places
    · exact absurd none (finds s₁ before)
  refine ⟨step.wf, fun p bound => ?_, ?_, fun id member => ?_, fun p bound => ?_⟩
  · rw [idOf]
    exact accounted.ids p (step.nodeNum ▸ bound)
  · show s'.threadNum = s'.nodeNum + 1
    rw [step.threadNum, step.nodeNum]
    exact accounted.threadNum
  · show id ≤ s'.nodeNum
    rw [step.nodeNum]
    by_cases exiting : t.sched.nodes.status t.sched.current = .exiting
    · simp only [exiting, if_true, List.mem_cons] at member
      rcases member with rfl | old
      · rw [currentId]
        exact accounted.wf.allocated
      · exact accounted.exited id old
    · simp only [exiting, if_false] at member
      exact accounted.exited id member
  · have bound₀ : p < t.sched.nodeNum := step.nodeNum ▸ bound
    have before := accounted.conserved p bound₀
    rw [places p]
    by_cases exiting : t.sched.nodes.status t.sched.current = .exiting
    · simp only [exiting, if_true, List.mem_cons, not_or, ← before, ne_eq, not_true_eq_false,
        and_false, or_false, currentId]
      constructor
      · rintro ⟨place, member⟩
        have different := accounted.wf.ne_current member
        exact ⟨fun same => different (Nat.succ.inj same), Or.inr ⟨place, member⟩⟩
      · rintro ⟨different, equal | placed⟩
        · exact absurd (by rw [equal]) different
        · exact placed
    · simp only [exiting, if_false, ne_eq, not_false_eq_true, and_true]
      rw [← before, or_comm]

/-- **One event keeps it.** -/
theorem Accounted.step {t : Traced} {layout layout' : Layout} {s' : Scheduler} {e : Event}
    {out : Outcome} (accounted : Accounted t layout) (orderly : Orderly t e)
    (effect : Effect t.sched layout e out s' layout') (wf' : Wf s' layout') :
    Accounted ⟨s', if Schedules e ∧ t.sched.nodes.status t.sched.current = .exiting
      then t.sched.idOf t.sched.current :: t.exited else t.exited⟩ layout' := by
  cases effect with
  | created address now s' runs new =>
    have fresh := orderly.1
    have older : ∀ p < t.sched.nodeNum, p ≠ t.sched.nodeNum := fun p bound => ne_of_lt bound
    have idOld : ∀ p < t.sched.nodeNum, s'.idOf p = t.sched.idOf p := by
      intro p bound
      unfold Scheduler.idOf
      rw [new.threads, new.threadID, Function.update_of_ne (older p bound)]
      exact Function.update_of_ne (fresh p bound) _ _
    have idNew : s'.idOf t.sched.nodeNum = t.sched.threadNum := by
      unfold Scheduler.idOf
      rw [new.threads, new.threadID, Function.update_self]
      exact Function.update_self _ _ _
    simp only [Schedules, false_and, if_false]
    refine ⟨wf', fun p bound => ?_, ?_, fun id member => ?_, fun p bound => ?_⟩
    · rcases Nat.lt_succ_iff_lt_or_eq.mp (new.nodeNum ▸ bound) with old | same
      · rw [idOld p old]
        exact accounted.ids p old
      · rw [same, idNew]
        exact accounted.threadNum
    · show s'.threadNum = s'.nodeNum + 1
      rw [new.threadNum, new.nodeNum, accounted.threadNum]
    · show id ≤ s'.nodeNum
      rw [new.nodeNum]
      exact Nat.le_succ_of_le (accounted.exited id member)
    · show p = s'.current ∨ _ ↔ _
      rw [new.current, Layout.placed_push]
      rcases Nat.lt_succ_iff_lt_or_eq.mp (new.nodeNum ▸ bound) with old | same
      · rw [← accounted.conserved p old]
        simp only [older p old, or_false]
      · have notExited : p + 1 ∉ t.exited := fun member => by
          have := accounted.exited _ member
          omega
        simp only [same, or_true, true_iff]
        rw [← same]
        exact notExited
  | entered now frame s' layout' runs step =>
    simpa only [Schedules, true_and] using accounted.schedule step orderly.2
  | interrupted now s' layout' step =>
    simpa only [Schedules, true_and] using accounted.schedule step orderly.2
  | createFailed | yielded | exited | returned | joinUnknown | joinDead | joinWaits |
      joinReturned =>
    simp only [Schedules, false_and, if_false]
    exact ⟨wf', accounted.ids, accounted.threadNum, accounted.exited, accounted.conserved⟩

/-! ### Counting -/

/-- No node occurs twice. -/
theorem Wf.everywhere_nodup {s : Scheduler} {layout : Layout} (wf : Wf s layout) :
    (everywhere s (fun k => layout (.queue (.runQ k))) (layout .join)).Nodup := by
  have inQueue : ∀ p, p ∈ (List.range RUN_QUEUE_SIZE).flatMap
      (fun k => layout (.queue (.runQ k))) → ∃ k, p ∈ layout (.queue (.runQ k)) := by
    intro p member
    obtain ⟨k, _, inside⟩ := List.mem_flatMap.mp member
    exact ⟨k, inside⟩
  refine List.nodup_cons.mpr ⟨fun member => ?_, List.nodup_append.mpr ⟨?_, wf.rep.nodup .join, ?_⟩⟩
  · rcases List.mem_append.mp member with queued | joined
    · obtain ⟨k, inside⟩ := inQueue _ queued
      exact wf.off _ inside
    · exact wf.off _ joined
  · refine List.nodup_flatMap.mpr ⟨fun k _ => wf.rep.nodup _, ?_⟩
    refine List.nodup_range.pairwise_of_forall_ne fun j _ k _ different => ?_
    intro p inFirst inSecond
    have same := wf.rep.apart p _ _ inFirst inSecond
    cases same
    exact different rfl
  · intro p queued q joined same
    obtain ⟨k, inside⟩ := inQueue p queued
    exact wf.rep.not_mem inside (by simp) (same ▸ joined)

theorem Wf.mem_everywhere {s : Scheduler} {layout : Layout} (wf : Wf s layout) (p : NodePtr) :
    p ∈ everywhere s (fun k => layout (.queue (.runQ k))) (layout .join) ↔
      p = s.current ∨ layout.Placed p := by
  unfold everywhere
  rw [List.mem_cons, List.mem_append, List.mem_flatMap]
  refine or_congr Iff.rfl ⟨?_, ?_⟩
  · rintro (⟨k, _, inside⟩ | joined)
    · exact ⟨_, inside⟩
    · exact ⟨_, joined⟩
  · rintro ⟨place, member⟩
    cases place with
    | join => exact Or.inr member
    | queue slot =>
      cases slot with
      | promotionQ i =>
        rw [wf.promotion i] at member
        cases member
      | runQ k =>
        have level := wf.rep.ranked k p member
        exact Or.inl ⟨k, List.mem_range.mpr (level ▸ wf.ranked p (wf.rep.bounded _ p member)),
          member⟩

/-- **The invariant is conservation.** -/
theorem Accounted.conservation {t : Traced} {layout : Layout} (accounted : Accounted t layout) :
    Conserved t := by
  have wf := accounted.wf
  refine ⟨fun k => layout (.queue (.runQ k)), layout .join,
    fun k _ => (wf.rep.queued (.runQ k)).linked, wf.rep.joined, fun id positive below => ?_,
    fun i _ => ?_, fun k _ p member => wf.rep.ranked k p member⟩
  · obtain ⟨p, rfl⟩ : ∃ p, id = p + 1 := ⟨id - 1, by omega⟩
    have bound : p < t.sched.nodeNum := by
      rw [accounted.threadNum] at below
      omega
    -- among the nodes in hand, those of the thread `p + 1` are the node `p`
    have only : (everywhere t.sched (fun k => layout (.queue (.runQ k))) (layout .join)).countP
        (fun q => t.sched.idOf q = p + 1)
        = (everywhere t.sched (fun k => layout (.queue (.runQ k))) (layout .join)).count p := by
      refine List.countP_congr fun q member => ?_
      have allocated : q < t.sched.nodeNum := by
        rcases (wf.mem_everywhere q).mp member with rfl | ⟨place, inside⟩
        · exact wf.allocated
        · exact wf.rep.bounded place q inside
      rw [decide_eq_true_eq, beq_iff_eq, accounted.ids q allocated]
      omega
    rw [only]
    by_cases gone : p + 1 ∈ t.exited
    · rw [if_pos gone]
      refine List.count_eq_zero.mpr fun member => ?_
      exact (accounted.conserved p bound).mp ((wf.mem_everywhere p).mp member) gone
    · rw [if_neg gone]
      refine List.count_eq_one_of_mem wf.everywhere_nodup ?_
      exact (wf.mem_everywhere p).mpr ((accounted.conserved p bound).mpr gone)
  · have queued := wf.rep.queued (.promotionQ i)
    rw [wf.promotion i] at queued
    exact ⟨queued.linked, queued.rear_eq⟩

/-- The scheduler just initialised; nobody has exited. -/
def TracedStarted (t : Traced) : Prop := Started t.sched ∧ t.exited = []

theorem TracedStarted.accounted {t : Traced} (started : TracedStarted t) :
    Accounted t noLayout := by
  obtain ⟨s, exited⟩ := t
  obtain ⟨start, nobody⟩ := started
  simp only at start nobody
  subst nobody
  have wf := start.wf
  obtain ⟨nodes, threads, now, rfl⟩ := start
  refine ⟨wf, fun p bound => ?_, rfl, (fun _ member => by cases member), fun p bound => ?_⟩
  · have zero : p = 0 := Nat.lt_one_iff.mp bound
    subst zero
    rfl
  · have zero : p = 0 := Nat.lt_one_iff.mp bound
    subst zero
    exact ⟨fun _ => List.not_mem_nil, fun _ => Or.inl rfl⟩

/-- **Thread conservation.** -/
theorem threads_conserved (t : Traced)
    (reached : Reach TracedStarted Orderly (execStep Traced.next) t) : Conserved t := by
  obtain ⟨layout, accounted⟩ : ∃ layout, Accounted t layout := by
    refine reached.invariant (fun t => ∃ layout, Accounted t layout)
      (fun t started => ⟨noLayout, started.accounted⟩) ?_
    rintro t e t' ⟨layout, accounted⟩ orderly taken
    obtain ⟨s', moved, rfl⟩ := Option.map_eq_some_iff.mp taken
    obtain ⟨out, result⟩ := Scheduler.exec_of_next moved
    obtain ⟨layout', effect, wf'⟩ :=
      accounted.wf.exec (accounted.wf.leaves_of_findsNext orderly.2) result
    exact ⟨layout', accounted.step orderly effect wf'⟩
  exact accounted.conservation

/-- The main thread creates two threads and joins the first, which exits. -/
theorem threads_conserved_joinRun :
    ∃ t, Reach TracedStarted Orderly (execStep Traced.next) t ∧ t.exited = [2] ∧ Conserved t := by
  have start : Reach TracedStarted Orderly (execStep Traced.next) ⟨zeroed, []⟩ :=
    .init ⟨zeroed_started, rfl⟩
  obtain ⟨t, reached, gone⟩ := start.exists_of_execAll (.create 1 0 .succeeds :: joinRun)
    (fun t => t.exited = [2]) (by decide)
  exact ⟨t, reached, of_decide_eq_true gone, threads_conserved t reached⟩

end OS2017.Sched
