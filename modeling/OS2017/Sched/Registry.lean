/-
**The registry of threads.**

`scd->threads` is threaded through the `next` field of the `my_pthread_t` the caller passes, and no
record ever leaves it. A handle that is passed to `my_pthread_create` again is pushed while it is
still on the list: the list becomes a cycle, everything behind the first insertion is lost, and the
search for an id that is not on the cycle never ends (`registry_endless`).

In every run, the registry is searchable exactly when no handle has been passed twice
(`registry_searchable_iff`): nothing but a create touches it (`Scheduler.registry_of_exec`), and a
push keeps a list a list exactly when the record is not on it yet.
-/

import OS2017.Sched.Values

namespace OS2017.Sched

open OS2017.Intrusive OS2017.Run

open Scheduler (Event Outcome Allocation)

/-! ### Only creates touch the registry -/

namespace Scheduler

/-- What the registry consists of: the ids and links of the records, the head, and the next id. -/
def registry (s : Scheduler) : (Handle → Nat) × (Handle → Option Handle) × Option Handle × Nat :=
  (s.threads.id, s.threads.next, s.threadList, s.threadNum)

theorem registry_of_enQ {s s' : Scheduler} {slot : Slot} {p : NodePtr}
    (result : s.enQ slot p = some s') : s'.registry = s.registry := by
  obtain ⟨_, _, rfl⟩ := Option.map_eq_some_iff.mp result
  rfl

theorem registry_of_insertByTime {s s' : Scheduler} {slot : Slot} {p : NodePtr}
    (result : s.insertByTime slot p = some s') : s'.registry = s.registry := by
  obtain ⟨_, _, rfl⟩ := Option.map_eq_some_iff.mp result
  rfl

theorem registry_of_deQ {s s' : Scheduler} {slot : Slot} {p : NodePtr}
    (result : s.deQ slot = some (p, s')) : s'.registry = s.registry := by
  obtain ⟨_, _, same⟩ := Option.map_eq_some_iff.mp result
  cases same
  rfl

theorem registry_of_removeFromListLoop {s s' : Scheduler} {id : Nat} {removed : Option NodePtr} :
    ∀ {fuel : Nat} {prev ptr : Option NodePtr},
      s.removeFromListLoop id fuel prev ptr = some (removed, s') → s'.registry = s.registry := by
  intro fuel
  induction fuel with
  | zero =>
    intro prev ptr result
    cases ptr with
    | none =>
      cases result
      rfl
    | some _ => cases result
  | succ fuel ih =>
    intro prev ptr result
    cases ptr with
    | none =>
      cases result
      rfl
    | some ptr =>
      simp only [removeFromListLoop] at result
      split at result
      · cases prev <;> cases result <;> rfl
      · exact ih result

theorem registry_of_threadDied {s s' : Scheduler} {id : Nat} (died : s.threadDied id = some s') :
    s'.registry = s.registry := by
  obtain ⟨_, _, rfl⟩ := threadDied_spec died
  rfl

/-! ### Maintenance -/

theorem registry_of_collect {now : Int} {i : Nat} :
    ∀ {fuel : Nat} {s s' : Scheduler} {count arr : Nat},
      collect now i fuel s count = some (arr, s') → s'.registry = s.registry := by
  intro fuel
  induction fuel with
  | zero =>
    intro s s' count arr result
    unfold collect at result
    split at result
    · cases result
      rfl
    · cases result
  | succ fuel ih =>
    intro s s' count arr result
    unfold collect at result
    split at result
    · cases result
      rfl
    · rename_i popped
      obtain ⟨s₁, inserted, rest⟩ := Option.bind_eq_some_iff.mp result
      have before := registry_of_deQ popped
      have after := registry_of_insertByTime inserted
      exact (ih rest).trans (after.trans before)

theorem registry_of_promote {i level : Nat} :
    ∀ {count : Nat} {s s' : Scheduler}, promote i level count s = some s' →
      s'.registry = s.registry := by
  intro count
  induction count with
  | zero =>
    intro s s' result
    cases result
    rfl
  | succ count ih =>
    intro s s' result
    simp only [promote] at result
    split at result
    · exact ih result
    · rename_i popped
      obtain ⟨s₁, pushed, rest⟩ := Option.bind_eq_some_iff.mp result
      exact (ih rest).trans ((registry_of_enQ pushed).trans (registry_of_deQ popped))

theorem registry_of_spread {i arr : Nat} :
    ∀ {levels : List Nat} {s s' : Scheduler}, spread i arr levels s = some s' →
      s'.registry = s.registry := by
  intro levels
  induction levels with
  | nil => exact fun result => registry_of_promote result
  | cons level levels ih =>
    intro s s' result
    obtain ⟨s₁, promoted, rest⟩ := Option.bind_eq_some_iff.mp result
    exact (ih rest).trans (registry_of_promote promoted)

theorem registry_of_collectAll {now : Int} :
    ∀ {levels : List Nat} {s s' : Scheduler} {arr : List Nat},
      collectAll now levels s = some (arr, s') → s'.registry = s.registry := by
  intro levels
  induction levels with
  | nil =>
    intro s s' arr result
    cases result
    rfl
  | cons i levels ih =>
    intro s s' arr result
    obtain ⟨⟨count, s₁⟩, collected, rest⟩ := Option.bind_eq_some_iff.mp result
    obtain ⟨⟨arr₁, s₂⟩, later, same⟩ := Option.map_eq_some_iff.mp rest
    cases same
    exact (ih later).trans (registry_of_collect collected)

theorem registry_of_spreadAll :
    ∀ {pairs : List (Nat × Nat)} {s s' : Scheduler}, spreadAll pairs s = some s' →
      s'.registry = s.registry := by
  intro pairs
  induction pairs with
  | nil =>
    intro s s' result
    cases result
    rfl
  | cons pair pairs ih =>
    intro s s' result
    obtain ⟨s₁, spread, rest⟩ := Option.bind_eq_some_iff.mp result
    exact (ih rest).trans (registry_of_spread spread)

theorem registry_of_tick {s s' : Scheduler} {now : Int} (result : s.tick now = some s') :
    s'.registry = s.registry := by
  simp only [tick] at result
  split at result
  · obtain ⟨⟨arr, s₁⟩, collected, rest⟩ := Option.bind_eq_some_iff.mp result
    have before := registry_of_collectAll collected
    exact (registry_of_spreadAll rest).trans before
  · cases result
    rfl

/-! ### `schedule` -/

theorem registry_of_wakeLoop {id : Nat} :
    ∀ {fuel : Nat} {s s' : Scheduler} {jptr : Option NodePtr},
      wakeLoop id fuel s jptr = some s' → s'.registry = s.registry := by
  intro fuel
  induction fuel with
  | zero =>
    intro s s' jptr result
    cases jptr with
    | none =>
      cases result
      rfl
    | some _ => cases result
  | succ fuel ih =>
    intro s s' jptr result
    cases jptr with
    | none =>
      cases result
      rfl
    | some jptr =>
      obtain ⟨joinee, _, rest⟩ := Option.bind_eq_some_iff.mp result
      split at rest
      · obtain ⟨⟨removed, s₁⟩, found, rest⟩ := Option.bind_eq_some_iff.mp rest
        obtain ⟨returnToQ, _, rest⟩ := Option.bind_eq_some_iff.mp rest
        obtain ⟨s₂, pushed, rest⟩ := Option.bind_eq_some_iff.mp rest
        exact (ih rest).trans ((registry_of_enQ pushed).trans (registry_of_removeFromListLoop found))
      · exact ih rest

theorem registry_of_requeue {s s' : Scheduler} (result : s.requeue = some s') :
    s'.registry = s.registry := by
  simp only [requeue] at result
  split at result
  · obtain ⟨s₁, pushed, rfl⟩ := Option.map_eq_some_iff.mp result
    have before := registry_of_enQ pushed
    exact before
  · obtain ⟨s₁, died, rest⟩ := Option.bind_eq_some_iff.mp result
    exact (registry_of_wakeLoop rest).trans (registry_of_threadDied died)
  · cases result
    rfl
  · exact registry_of_enQ result

theorem registry_of_getNextNodeFrom {s s' : Scheduler} {p : NodePtr} :
    ∀ {levels : List Nat}, s.getNextNodeFrom levels = some (p, s') → s'.registry = s.registry := by
  intro levels
  induction levels with
  | nil => exact fun result => nomatch result
  | cons k levels ih =>
    intro result
    simp only [getNextNodeFrom] at result
    split at result
    · rename_i popped
      cases result
      exact registry_of_deQ popped
    · exact ih result

theorem registry_switchTo (s : Scheduler) (resume : Context) :
    (s.switchTo resume).registry = s.registry := by
  unfold switchTo
  split
  · rfl
  · rename_i found
    have before := registry_of_getNextNodeFrom found
    simp only
    split
    · exact before
    · exact before

theorem registry_of_schedule {s s' : Scheduler} {now : Int} {resume : Context}
    (result : s.schedule now resume = some s') : s'.registry = s.registry := by
  obtain ⟨s₁, before, rfl⟩ := Option.map_eq_some_iff.mp result
  obtain ⟨s₀, ticked, requeued⟩ := Option.bind_eq_some_iff.mp before
  exact (registry_switchTo s₁ resume).trans
    ((registry_of_requeue requeued).trans (registry_of_tick ticked))

/-- **One event, and the registry**: a create that returns `0` pushes the record it was passed, and
nothing else touches it. -/
theorem registry_of_exec {s s' : Scheduler} {e : Event} {out : Outcome}
    (result : s.exec e = some (out, s')) :
    (∃ address now allocation, e = .create address now allocation ∧ out = .created 0 ∧
      s'.registry = (s.register (.user address)).registry) ∨
    ((∀ address now allocation, e = .create address now allocation → out ≠ .created 0) ∧
      s'.registry = s.registry) := by
  cases e with
  | create address now allocation =>
    simp only [exec] at result
    split at result
    · obtain ⟨⟨code, s₁⟩, created, same⟩ := Option.map_eq_some_iff.mp result
      cases same
      cases allocation with
      | noContext =>
        cases created
        exact Or.inr ⟨fun _ _ _ _ other => (by cases other), rfl⟩
      | noStack =>
        cases created
        exact Or.inr ⟨fun _ _ _ _ other => (by cases other), rfl⟩
      | noNode => cases created
      | succeeds =>
        obtain ⟨s₂, pushed, same⟩ := Option.map_eq_some_iff.mp created
        cases same
        have before := registry_of_enQ pushed
        exact Or.inl ⟨address, now, _, rfl, rfl, before⟩
    · cases result
  | yield =>
    refine Or.inr ⟨fun _ _ _ other => (by cases other), ?_⟩
    simp only [exec] at result
    split at result <;> cases result
    rfl
  | exit value_ptr =>
    refine Or.inr ⟨fun _ _ _ other => (by cases other), ?_⟩
    simp only [exec] at result
    split at result <;> cases result
    rfl
  | functionReturn =>
    refine Or.inr ⟨fun _ _ _ other => (by cases other), ?_⟩
    simp only [exec] at result
    split at result <;> cases result
    rfl
  | join id =>
    refine Or.inr ⟨fun _ _ _ other => (by cases other), ?_⟩
    simp only [exec] at result
    split at result
    · obtain ⟨found, _, same⟩ := Option.map_eq_some_iff.mp result
      cases found with
      | none =>
        cases same
        rfl
      | some ptr =>
        simp only at same
        split at same <;> cases same <;> rfl
    · cases result
  | enterSchedule now =>
    refine Or.inr ⟨fun _ _ _ other => (by cases other), ?_⟩
    obtain ⟨frame, _, rest⟩ := Option.bind_eq_some_iff.mp result
    obtain ⟨s₁, scheduled, same⟩ := Option.map_eq_some_iff.mp rest
    cases same
    exact registry_of_schedule scheduled
  | joinReturn =>
    refine Or.inr ⟨fun _ _ _ other => (by cases other), ?_⟩
    simp only [exec] at result
    split at result <;> cases result
    rfl
  | timer now =>
    refine Or.inr ⟨fun _ _ _ other => (by cases other), ?_⟩
    simp only [exec] at result
    split at result
    · cases result
    · obtain ⟨s₁, scheduled, same⟩ := Option.map_eq_some_iff.mp result
      cases same
      exact registry_of_schedule scheduled

end Scheduler

/-! ### The handles passed -/

/-- The scheduler with the handles passed to `my_pthread_create` and the ids they got, the newest
first, and the ids of the threads joined. -/
structure Enrolled where
  sched : Scheduler
  passed : List (Handle × Nat)
  joined : List Nat

namespace Enrolled

/-- The log after an event and its outcome. -/
def log (t : Enrolled) : Event → Outcome → List (Handle × Nat) × List Nat
  | .create address _ _, .created 0 => ((.user address, t.sched.threadNum) :: t.passed, t.joined)
  | _, .joined id _ _ => (t.passed, id :: t.joined)
  | _, _ => (t.passed, t.joined)

/-- A step of the scheduler and its log. -/
def next (t : Enrolled) (e : Event) : Option Enrolled :=
  (t.sched.exec e).map fun result => ⟨result.2, (t.log e result.1).1, (t.log e result.1).2⟩

/-- The handles alone. -/
def handles (t : Enrolled) : List Handle := t.passed.map Prod.fst

end Enrolled

/-- **The registry is searchable**: it is a list, every id whose handle has not been reused is
found, and every search ends. -/
structure Searchable (t : Enrolled) : Prop where
  acyclic : ∃ records, Linked t.sched.threads.next t.sched.threadList records
  found : ∀ ptr id, (ptr, id) ∈ t.passed → t.handles.count ptr = 1 →
    t.sched.findThread id = some (some ptr)
  ends : ∀ id, t.sched.findThread id ≠ none

/-- A handle is passed again only once all threads it was passed for have been joined. -/
def ReusesJoined (t : Enrolled) : Event → Prop
  | .create address _ _ => ∀ pair ∈ t.passed, pair.1 = .user address → pair.2 ∈ t.joined
  | _ => True

instance (t : Enrolled) : (e : Event) → Decidable (ReusesJoined t e)
  | .create address _ _ =>
    inferInstanceAs (Decidable (∀ pair ∈ t.passed, pair.1 = .user address → pair.2 ∈ t.joined))
  | .yield => isTrue trivial
  | .exit _ => isTrue trivial
  | .functionReturn => isTrue trivial
  | .join _ => isTrue trivial
  | .enterSchedule _ => isTrue trivial
  | .joinReturn => isTrue trivial
  | .timer _ => isTrue trivial

/-- **The registry of a run that has passed no handle twice**: the records passed, the newest first,
each with its id. -/
structure Listed (t : Enrolled) : Prop where
  linked : Linked t.sched.threads.next t.sched.threadList t.handles
  ids : ∀ pair ∈ t.passed, t.sched.threads.id pair.1 = pair.2
  distinct : ∀ first ∈ t.passed, ∀ second ∈ t.passed, first.2 = second.2 → first = second
  below : ∀ pair ∈ t.passed, pair.2 < t.sched.threadNum
  counted : t.passed.length ≤ t.sched.threadNum

/-- **The invariant**: the registry ends exactly when no handle has been passed twice, and then it
lists the handles. -/
structure Kempt (t : Enrolled) : Prop where
  acyclic : (∃ records, Linked t.sched.threads.next t.sched.threadList records) ↔ t.handles.Nodup
  listed : t.handles.Nodup → Listed t

/-- A registry that lists its handles is searchable. -/
theorem Listed.searchable {t : Enrolled} (listed : Listed t) : Searchable t := by
  have search : ∀ id, t.sched.findThread id
      = some (t.handles.find? fun ptr => t.sched.threads.id ptr = id) := fun id =>
    findThreadLoop_linked listed.linked (by
      rw [Enrolled.handles, List.length_map]
      exact listed.counted)
  refine ⟨⟨_, listed.linked⟩, fun ptr id member _ => ?_, fun id => by rw [search]; simp⟩
  rw [search]
  cases result : t.handles.find? fun ptr => t.sched.threads.id ptr = id with
  | none =>
    have absent := List.find?_eq_none.mp result ptr (List.mem_map.mpr ⟨_, member, rfl⟩)
    exact absurd (decide_eq_true (listed.ids _ member)) absent
  | some other =>
    obtain ⟨pair, inside, rfl⟩ := List.mem_map.mp (List.mem_of_find?_eq_some result)
    have passes : t.sched.threads.id pair.1 = id := by
      have passes := List.find?_some result
      simpa using passes
    have same := listed.distinct pair inside (ptr, id) member
      ((listed.ids pair inside).symm.trans passes)
    rw [same]

/-- **A create keeps the invariant.** -/
theorem Kempt.register {t t' : Enrolled} (kempt : Kempt t) {ptr : Handle}
    (passed : t'.passed = (ptr, t.sched.threadNum) :: t.passed)
    (same : t'.sched.registry = (t.sched.register ptr).registry) : Kempt t' := by
  obtain ⟨id, next, head, num⟩ : t'.sched.threads.id
        = Function.update t.sched.threads.id ptr t.sched.threadNum ∧
      t'.sched.threads.next = Function.update t.sched.threads.next ptr t.sched.threadList ∧
      t'.sched.threadList = some ptr ∧ t'.sched.threadNum = t.sched.threadNum + 1 := by
    simp only [Scheduler.registry, Scheduler.register, Scheduler.setThread, Prod.mk.injEq] at same
    exact same
  have handles : t'.handles = ptr :: t.handles := by
    rw [Enrolled.handles, passed]
    rfl
  refine ⟨?_, fun nodup => ?_⟩
  · rw [next, head, linked_push_iff, handles, List.nodup_cons]
    constructor
    · rintro ⟨records, linked, outside⟩
      have nodup := kempt.acyclic.mp ⟨records, linked⟩
      rw [linked.unique (kempt.listed nodup).linked] at outside
      exact ⟨outside, nodup⟩
    · rintro ⟨outside, nodup⟩
      exact ⟨_, (kempt.listed nodup).linked, outside⟩
  · rw [handles] at nodup
    obtain ⟨outside, rest⟩ := List.nodup_cons.mp nodup
    have listed := kempt.listed rest
    have apart : ∀ pair ∈ t.passed, pair.1 ≠ ptr := fun pair member same =>
      outside (same ▸ List.mem_map.mpr ⟨pair, member, rfl⟩)
    refine ⟨?_, fun pair member => ?_, fun first inFirst second inSecond equal => ?_,
      fun pair member => ?_, ?_⟩
    · rw [next, head, handles]
      exact listed.linked.push outside
    · rw [passed] at member
      rw [id]
      rcases List.mem_cons.mp member with rfl | inside
      · exact Function.update_self _ _ _
      · rw [Function.update_of_ne (apart pair inside)]
        exact listed.ids pair inside
    · rw [passed] at inFirst inSecond
      rcases List.mem_cons.mp inFirst with rfl | inFirst <;>
        rcases List.mem_cons.mp inSecond with rfl | inSecond
      · rfl
      · exact absurd equal (ne_of_gt (listed.below second inSecond))
      · exact absurd equal (ne_of_lt (listed.below first inFirst))
      · exact listed.distinct first inFirst second inSecond equal
    · rw [passed] at member
      rw [num]
      rcases List.mem_cons.mp member with rfl | inside
      · exact Nat.lt_succ_self _
      · exact Nat.lt_succ_of_lt (listed.below pair inside)
    · rw [passed, num, List.length_cons]
      exact Nat.succ_le_succ listed.counted

/-- **One event keeps it.** -/
theorem Kempt.step {t t' : Enrolled} {e : Event} (kempt : Kempt t) (taken : t.next e = some t') :
    Kempt t' := by
  obtain ⟨⟨out, s'⟩, result, rfl⟩ := Option.map_eq_some_iff.mp taken
  rcases Scheduler.registry_of_exec result with ⟨address, now, allocation, rfl, rfl, pushed⟩ |
    ⟨noCreate, same⟩
  · exact kempt.register rfl pushed
  · have passed : (t.log e out).1 = t.passed := by
      unfold Enrolled.log
      split
      · exact absurd rfl (noCreate _ _ _ rfl)
      · rfl
      · rfl
    simp only [Scheduler.registry, Prod.mk.injEq] at same
    obtain ⟨id, next, head, num⟩ := same
    have handles : Enrolled.handles ⟨s', (t.log e out).1, (t.log e out).2⟩ = t.handles := by
      simp only [Enrolled.handles, passed]
    refine ⟨?_, fun nodup => ?_⟩
    · rw [handles]
      simp only [next, head]
      exact kempt.acyclic
    · rw [handles] at nodup
      have listed := kempt.listed nodup
      refine ⟨?_, ?_, ?_, ?_, ?_⟩
      · rw [handles]
        simp only [next, head]
        exact listed.linked
      · simp only [passed, id]
        exact listed.ids
      · simp only [passed]
        exact listed.distinct
      · simp only [passed, num]
        exact listed.below
      · simp only [passed, num]
        exact listed.counted

/-- The scheduler just initialised; no handle has been passed. -/
def EnrolledStarted (t : Enrolled) : Prop := Started t.sched ∧ t.passed = [] ∧ t.joined = []

/-- **The registry is searchable exactly while no handle has been passed twice**, in every run. -/
theorem registry_searchable_iff (t : Enrolled)
    (reached : Reach EnrolledStarted anyStep (execStep Enrolled.next) t) :
    Searchable t ↔ t.handles.Nodup := by
  have kempt : Kempt t := by
    refine reached.invariant Kempt (fun t started => ?_) fun t e t' kempt _ taken =>
      kempt.step taken
    obtain ⟨s, passed, joined⟩ := t
    obtain ⟨⟨nodes, threads, now, rfl⟩, rfl, _⟩ := started
    have empty : Linked (Scheduler.initializeScheduler nodes threads now).threads.next
        (Scheduler.initializeScheduler nodes threads now).threadList [] := rfl
    exact ⟨⟨fun _ => List.nodup_nil, fun _ => ⟨[], empty⟩⟩, fun _ =>
      ⟨empty, fun _ member => (by cases member), fun _ member => (by cases member),
        fun _ member => (by cases member), Nat.zero_le _⟩⟩
  exact ⟨fun searchable => kempt.acyclic.mp searchable.acyclic,
    fun nodup => (kempt.listed nodup).searchable⟩

/-- Two threads with handles of their own, the first of which has been joined. -/
theorem registry_searchable_iff_joinRun :
    ∃ t, Reach EnrolledStarted anyStep (execStep Enrolled.next) t ∧
      t.passed = [(.user 0, 3), (.user 1, 2)] ∧ (Searchable t ↔ t.handles.Nodup) := by
  have start : Reach EnrolledStarted anyStep (execStep Enrolled.next) ⟨zeroed, [], []⟩ :=
    .init ⟨zeroed_started, rfl, rfl⟩
  obtain ⟨t, reached, passed⟩ := start.exists_of_execAll (.create 1 0 .succeeds :: joinRun)
    (fun t => t.passed = [(.user 0, 3), (.user 1, 2)]) (by decide)
  exact ⟨t, reached, of_decide_eq_true passed, registry_searchable_iff t reached⟩

/-- Thread `2` exits and is joined, and its handle is passed again. -/
def reuseRun : List Event :=
  joinRun ++ [.joinReturn, .create 0 0 .succeeds]

/-- **The record points to itself**, and the search for an id that no thread has never ends. -/
theorem registry_endless :
    ¬ ∀ t, Reach EnrolledStarted ReusesJoined (execStep Enrolled.next) t → Searchable t := by
  intro always
  have start : Reach EnrolledStarted ReusesJoined (execStep Enrolled.next) ⟨zeroed, [], []⟩ :=
    .init ⟨zeroed_started, rfl, rfl⟩
  obtain ⟨t, reached, found⟩ := start.exists_of_execAll reuseRun
    (fun t => t.sched.threads.next (.user 0) = some (.user 0) ∧ t.sched.findThread 4 = none)
    (by decide)
  exact (always t reached).ends 4 (of_decide_eq_true found).2

end OS2017.Sched
