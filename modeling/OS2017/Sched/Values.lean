/-
**What each thread ends with, and the threads of an orderly run.**

`Logged` is the scheduler with the value each thread has passed to `my_pthread_exit`. In every run in
which a joining thread leaves another one to run, and every thread is created with a `my_pthread_t` of
its own, the state between two events is wellformed, the `n`-th node has the id `n + 1`, and the
registry holds the records of all created threads (`Sound`).

The context of a node is what is running for `current` and `ut` for the others.
-/

import OS2017.Sched.Conservation

namespace OS2017.Sched

open OS2017.Intrusive OS2017.Run

open Scheduler (Event Outcome Allocation)

/-- The scheduler with the value each thread has ended with, by its id. -/
structure Logged where
  sched : Scheduler
  ended : Nat → Option Nat

/-- The log after an event: `my_pthread_exit` passes a value; a thread whose function returns has
passed none, unless a `my_pthread_exit` of it came back before. -/
def Logged.log (t : Logged) : Event → Nat → Option Nat
  | .exit value_ptr =>
    Function.update t.ended (t.sched.idOf t.sched.current) (some value_ptr)
  | .functionReturn =>
    Function.update t.ended (t.sched.idOf t.sched.current)
      (some ((t.ended (t.sched.idOf t.sched.current)).getD 0))
  | _ => t.ended

/-- A step of the scheduler and its log. -/
def Logged.next (t : Logged) (e : Event) : Option Logged :=
  (t.sched.next e).map fun s' => ⟨s', t.log e⟩

/-- A joining thread leaves another one to run, and a new thread has a handle of its own. -/
def JoinsOrderly (t : Logged) (e : Event) : Prop :=
  FreshHandle t.sched e ∧ LeavesSuccessor t.sched e

instance (t : Logged) (e : Event) : Decidable (JoinsOrderly t e) := by
  unfold JoinsOrderly
  infer_instance

/-! ### The registry -/

/-- **The search of the registry**, when it is a list no longer than the fuel. -/
theorem findThreadLoop_linked {s : Scheduler} {id : Nat} {records : List Handle} {fuel : Nat}
    {start : Option Handle} (linked : Linked s.threads.next start records)
    (enough : records.length ≤ fuel) :
    s.findThreadLoop id fuel start = some (records.find? fun ptr => s.threads.id ptr = id) := by
  induction records generalizing fuel start with
  | nil =>
    have none : start = none := linked
    rw [none]
    cases fuel <;> rfl
  | cons first records ih =>
    obtain ⟨rfl, rest⟩ := linked
    obtain ⟨fuel, rfl⟩ : ∃ less, fuel = less + 1 := ⟨fuel - 1, by simp at enough; omega⟩
    unfold Scheduler.findThreadLoop
    by_cases same : s.threads.id first = id
    · rw [if_pos same, List.find?_cons_of_pos (by simpa using same)]
    · rw [if_neg same, List.find?_cons_of_neg (by simpa using same)]
      exact ih rest (by simpa using enough)

/-- **The created threads**: the `n`-th node has a record of its own with the id `n + 1`, and the
registry holds those of all but the main thread. -/
structure Registered (s : Scheduler) : Prop where
  ids : ∀ p < s.nodeNum, s.idOf p = p + 1
  threadNum : s.threadNum = s.nodeNum + 1
  records : ∃ records : List Handle, Linked s.threads.next s.threadList records ∧
    records.length + 1 = s.nodeNum ∧
    ∀ ptr, ptr ∈ records ↔ ∃ q, 1 ≤ q ∧ q < s.nodeNum ∧ s.nodes.threadID q = ptr

namespace Registered

variable {s : Scheduler}

theorem node_inj (registered : Registered s) {p q : NodePtr} (left : p < s.nodeNum)
    (right : q < s.nodeNum) (same : s.idOf p = s.idOf q) : p = q := by
  rw [registered.ids p left, registered.ids q right] at same
  exact Nat.succ.inj same

/-- What does not touch the registry keeps it. -/
theorem of_same {s' : Scheduler} (registered : Registered s)
    (threadID : s'.nodes.threadID = s.nodes.threadID) (id : s'.threads.id = s.threads.id)
    (next : s'.threads.next = s.threads.next) (threadList : s'.threadList = s.threadList)
    (threadNum : s'.threadNum = s.threadNum) (nodeNum : s'.nodeNum = s.nodeNum) : Registered s' := by
  refine ⟨fun p bound => ?_, ?_, ?_⟩
  · unfold Scheduler.idOf
    rw [id, threadID]
    exact registered.ids p (nodeNum ▸ bound)
  · rw [threadNum, nodeNum]
    exact registered.threadNum
  · rw [next, threadList, nodeNum, threadID]
    exact registered.records

end Registered

/-- **`my_pthread_create` keeps the registry**, when the handle is a new one. -/
theorem Registered.created {s s' : Scheduler} {thread : Handle} (registered : Registered s)
    (new : Created s thread s') (some : 0 < s.nodeNum)
    (fresh : ∀ p < s.nodeNum, s.nodes.threadID p ≠ thread) : Registered s' := by
  have older : ∀ p < s.nodeNum, s'.nodes.threadID p = s.nodes.threadID p := fun p bound => by
    rw [new.threadID, Function.update_of_ne (ne_of_lt bound)]
  have newest : s'.nodes.threadID s.nodeNum = thread := by
    rw [new.threadID, Function.update_self]
  refine ⟨fun p bound => ?_, ?_, ?_⟩
  · unfold Scheduler.idOf
    rw [new.threads]
    show Function.update s.threads.id thread s.threadNum _ = _
    rcases Nat.lt_succ_iff_lt_or_eq.mp (new.nodeNum ▸ bound) with old | same
    · rw [older p old, Function.update_of_ne (fresh p old)]
      exact registered.ids p old
    · rw [same, newest, Function.update_self]
      exact registered.threadNum
  · rw [new.threadNum, new.nodeNum, registered.threadNum]
  · obtain ⟨records, linked, length, members⟩ := registered.records
    have outside : thread ∉ records := fun member => by
      obtain ⟨q, _, bound, handle⟩ := (members thread).mp member
      exact fresh q bound handle
    refine ⟨thread :: records, ?_, ?_, fun ptr => ?_⟩
    · rw [new.threads, new.threadList]
      exact linked.push outside
    · rw [new.nodeNum, List.length_cons, length]
    · rw [List.mem_cons, members]
      constructor
      · rintro (rfl | ⟨q, positive, bound, handle⟩)
        · exact ⟨s.nodeNum, some, by rw [new.nodeNum]; omega, newest⟩
        · exact ⟨q, positive, by rw [new.nodeNum]; omega, (older q bound).trans handle⟩
      · rintro ⟨q, positive, bound, handle⟩
        rcases Nat.lt_succ_iff_lt_or_eq.mp (new.nodeNum ▸ bound) with old | same
        · exact Or.inr ⟨q, positive, old, (older q old).symm.trans handle⟩
        · exact Or.inl (by rw [← handle, same, newest])

/-! ### Contexts -/

/-- The context a node goes on with. -/
def Scheduler.context (s : Scheduler) (p : NodePtr) : Context :=
  if p = s.current then s.running else s.nodes.ut p

/-- **`schedule` changes no context** but that of its caller, when the next node has another id. -/
theorem Scheduled.context {s s' : Scheduler} {layout layout' : Layout} {now : Int}
    {resume : Context} (step : Scheduled s layout now resume s' layout')
    (own : s.idOf s'.current = s.idOf s.current → s'.current = s.current) (p : NodePtr) :
    s'.context p = if p = s.current then resume else s.context p := by
  have idOf : s'.idOf s'.current = s.idOf s'.current := by
    unfold Scheduler.idOf
    rw [step.id, step.threadID]
  unfold Scheduler.context
  rcases step.switch with ⟨sameId, running, ut⟩ | ⟨otherId, running, ut⟩
  · have same : s'.current = s.current := own (idOf ▸ sameId)
    rw [same, running, ut]
    by_cases equal : p = s.current
    · rw [if_pos equal, if_pos equal]
    · rw [if_neg equal, if_neg equal, if_neg equal]
  · have different : s'.current ≠ s.current := fun same => otherId (by rw [idOf, same])
    rw [running, ut]
    by_cases equal : p = s.current
    · have elsewhere : p ≠ s'.current := fun other => different (other.symm.trans equal)
      rw [if_pos equal, if_neg elsewhere, equal, Function.update_self]
    · rw [if_neg equal, if_neg equal, Function.update_of_ne equal]
      by_cases next : p = s'.current
      · rw [if_pos next, next]
      · rw [if_neg next]

/-- The next node is the old one if it has its id. -/
theorem Registered.next_eq {s s' : Scheduler} {layout layout' : Layout} {now : Int} {resume : Context}
    (registered : Registered s) (step : Scheduled s layout now resume s' layout') (wf : Wf s layout) :
    s.idOf s'.current = s.idOf s.current → s'.current = s.current :=
  registered.node_inj (step.nodeNum ▸ step.wf.allocated) wf.allocated

/-- **`schedule` keeps the dead**, and buries the record of an exiting thread. -/
theorem Scheduled.still_dead {s s' : Scheduler} {layout layout' : Layout} {now : Int}
    {resume : Context} (step : Scheduled s layout now resume s' layout') {ptr : Handle}
    (dead : s.threads.isDead ptr = true) : s'.threads.isDead ptr = true := by
  by_cases exiting : s.nodes.status s.current = .exiting
  · exact (step.died exiting).still ptr dead
  · rw [step.alive exiting]
    exact dead

/-! ### The invariant -/

/-- **The invariant** of an orderly run. -/
structure Sound (t : Logged) (layout : Layout) : Prop where
  wf : Wf t.sched layout
  registered : Registered t.sched

/-- **One event keeps it.** -/
theorem Sound.step {t : Logged} {layout layout' : Layout} {s' : Scheduler} {e : Event}
    {out : Outcome} (sound : Sound t layout) (orderly : JoinsOrderly t e)
    (effect : Effect t.sched layout e out s' layout') (wf' : Wf s' layout') :
    Sound ⟨s', t.log e⟩ layout' := by
  have registered := sound.registered
  refine ⟨wf', ?_⟩
  cases effect with
  | createFailed => exact registered
  | created address now s' runs new =>
    exact registered.created new (Nat.zero_lt_of_lt sound.wf.allocated) orderly.1
  | yielded => exact registered.of_same rfl rfl rfl rfl rfl rfl
  | exited => exact registered.of_same rfl rfl rfl rfl rfl rfl
  | returned => exact registered.of_same rfl rfl rfl rfl rfl rfl
  | joinUnknown => exact registered
  | joinDead => exact registered
  | joinWaits => exact registered.of_same rfl rfl rfl rfl rfl rfl
  | joinReturned => exact registered.of_same rfl rfl rfl rfl rfl rfl
  | entered now frame s' layout' runs step =>
    exact registered.of_same step.threadID step.id step.next step.threadList step.threadNum step.nodeNum
  | interrupted now s' layout' step =>
    exact registered.of_same step.threadID step.id step.next step.threadList step.threadNum step.nodeNum

/-- The scheduler just initialised; nobody has ended. -/
def LoggedStarted (t : Logged) : Prop := Started t.sched ∧ t.ended = fun _ => none

theorem LoggedStarted.sound {t : Logged} (started : LoggedStarted t) : Sound t noLayout := by
  obtain ⟨s, ended⟩ := t
  obtain ⟨start, _⟩ := started
  have wf := start.wf
  obtain ⟨nodes, threads, now, rfl⟩ := start
  have only : ∀ p < (Scheduler.initializeScheduler nodes threads now).nodeNum, p = 0 :=
    fun p bound => Nat.lt_one_iff.mp bound
  refine ⟨wf, fun p bound => ?_, rfl, [], rfl, rfl, fun ptr => ⟨fun member => (by cases member), ?_⟩⟩
  · rw [only p bound]
    rfl
  · rintro ⟨q, positive, bound, _⟩
    exact absurd (only q bound) (Nat.one_le_iff_ne_zero.mp positive)

/-- **Every state of such a run meets the invariant.** -/
theorem sound_of_reach {t : Logged}
    (reached : Reach LoggedStarted JoinsOrderly (execStep Logged.next) t) :
    ∃ layout, Sound t layout := by
  refine reached.invariant (fun t => ∃ layout, Sound t layout)
    (fun t started => ⟨noLayout, started.sound⟩) ?_
  rintro t e t' ⟨layout, sound⟩ orderly taken
  obtain ⟨s', moved, rfl⟩ := Option.map_eq_some_iff.mp taken
  obtain ⟨out, result⟩ := Scheduler.exec_of_next moved
  obtain ⟨layout', effect, wf'⟩ := sound.wf.exec orderly.2 result
  exact ⟨layout', sound.step orderly effect wf'⟩

end OS2017.Sched
