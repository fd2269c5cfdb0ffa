/-
**An exit wakes exactly the waiters.**

The loop of `schedule()` over the join list removes from the list it walks, starts again at the head
after each removal, and uses the same `next` fields for the run queues. On layouts it is one
filter: `wake s id` keeps on the join list who does not wait for the thread `id`, in order, and puts
each of the others behind the run queue of its own priority (`Rep.wakeLoop_exact`).

Before the loop, `threadDied` searches the registry for the record to mark. When the node ids on the
join list are distinct, the branch of an exiting thread terminates, does just that, and marks the
thread's own record dead, if and only if this search ends, with that record if it has to be marked
(`exit_wakes_iff`). A record that has been passed to `my_pthread_create` twice makes the registry a
cycle, and the search for an id that is not on it spins (`exit_spins`).
-/

import OS2017.Sched.Values

namespace OS2017.Sched

open OS2017.Intrusive OS2017.Run

open Scheduler (Event)

instance (s : Scheduler) (id : Nat) (p : NodePtr) : Decidable (Waits s id p) :=
  match joinee : s.nodes.joinee p with
  | none => isFalse fun ⟨_, same, _⟩ => by rw [joinee] at same; cases same
  | some ptr =>
    if same : s.threads.id ptr = id then isTrue ⟨ptr, joinee, same⟩
    else isFalse fun ⟨_, found, other⟩ => by
      rw [joinee] at found
      cases found
      exact same other

/-- **The places once everybody who waits for the thread `id` is woken.** -/
def wake (s : Scheduler) (id : Nat) (layout : Layout) : Layout
  | .join => (layout .join).filter fun p => ¬ Waits s id p
  | .queue (.runQ k) =>
    layout (.queue (.runQ k))
      ++ (layout .join).filter fun p => Waits s id p ∧ s.nodes.priority p = k
  | .queue (.promotionQ i) => layout (.queue (.promotionQ i))

/-- Nobody waits, and nothing moves. -/
theorem wake_of_nobody {s : Scheduler} {id : Nat} {layout : Layout}
    (nobody : ∀ p ∈ layout .join, ¬ Waits s id p) : wake s id layout = layout := by
  funext place
  match place with
  | .join => exact List.filter_eq_self.mpr fun p member => decide_eq_true (nobody p member)
  | .queue (.runQ k) =>
    have none : (layout .join).filter (fun p => Waits s id p ∧ s.nodes.priority p = k) = [] :=
      List.filter_eq_nil_iff.mpr fun p member found =>
        nobody p member (of_decide_eq_true found).1
    rw [wake, none, List.append_nil]
  | .queue (.promotionQ i) => rfl

/-- **One wake-up is the first of the rest**: waking the first waiter and then the others is waking
them all. -/
theorem wake_first {s s' : Scheduler} {id : Nat} {layout : Layout} {front rest : List NodePtr}
    {p : NodePtr} (split : layout .join = front ++ p :: rest) (outside : p ∉ front)
    (passed : ∀ q ∈ front, ¬ Waits s id q) (waits : Waits s id p) (kept : Kept s s')
    (priority : s'.nodes.priority = s.nodes.priority) :
    wake s' id (Layout.push (Function.update layout .join ((layout .join).erase p))
      (.queue (.runQ (s.nodes.priority p))) p) = wake s id layout := by
  have erased : (layout .join).erase p = front ++ rest := by
    rw [split, List.erase_append_right _ outside, List.erase_cons_head]
  have same : ∀ q, Waits s' id q ↔ Waits s id q := kept.waits id
  have frontStays : front.filter (fun q => ¬ Waits s id q) = front :=
    List.filter_eq_self.mpr fun q member => decide_eq_true (passed q member)
  have frontSleeps : ∀ k, front.filter (fun q => Waits s id q ∧ s.nodes.priority q = k) = [] :=
    fun k => List.filter_eq_nil_iff.mpr fun q member found =>
      passed q member (of_decide_eq_true found).1
  funext place
  match place with
  | .join =>
    simp only [wake, Layout.push, same]
    rw [Function.update_of_ne (by simp), Function.update_self, erased, split, List.filter_append,
      List.filter_append, List.filter_cons_of_neg (by simpa using waits)]
  | .queue (.promotionQ i) =>
    simp only [wake, Layout.push]
    rw [Function.update_of_ne (by simp), Function.update_of_ne (by simp)]
  | .queue (.runQ k) =>
    have join : Layout.push (Function.update layout .join ((layout .join).erase p))
        (.queue (.runQ (s.nodes.priority p))) p .join = front ++ rest := by
      rw [Layout.push, Function.update_of_ne (by simp), Function.update_self, erased]
    simp only [wake, same, priority]
    rw [join, split, List.filter_append, List.filter_append, frontSleeps k, List.nil_append,
      List.nil_append]
    by_cases level : s.nodes.priority p = k
    · rw [List.filter_cons_of_pos (by simpa using ⟨waits, level⟩), Layout.push, level,
        Function.update_self, Function.update_of_ne (by simp), List.append_assoc]
      rfl
    · rw [List.filter_cons_of_neg (by simp [level]), Layout.push,
        Function.update_of_ne (by simpa using Ne.symm level), Function.update_of_ne (by simp)]

/-- **The loop from the node after `front` on**, when nobody in `front` waits and the ids on the
list are distinct. The measure is that of `Rep.wakeLoop`. -/
theorem Rep.wakeLoop_exact (id : Nat) :
    ∀ (fuel : Nat) (s : Scheduler) (layout : Layout) (front rest : List NodePtr)
      (jptr : Option NodePtr), Rep s layout → layout .join = front ++ rest →
      Linked s.nodes.next jptr rest → (∀ p ∈ front, ¬ Waits s id p) →
      (∀ p ∈ layout .join, s.nodes.joinee p ≠ none) →
      (∀ p ∈ layout .join, ∀ q ∈ layout .join, s.idOf p = s.idOf q → p = q) →
      rest.length + (layout .join).length * (s.nodeNum + 1) ≤ fuel →
      ∃ s', Scheduler.wakeLoop id fuel s jptr = some s' ∧ Rep s' (wake s id layout) ∧ Kept s s' ∧
        s'.nodes.priority = s.nodes.priority := by
  intro fuel
  -- the loop is over: everybody on the list has been passed
  have ended : ∀ (fuel : Nat) (s : Scheduler) (layout : Layout) (front : List NodePtr)
      (jptr : Option NodePtr), Rep s layout → layout .join = front ++ [] →
      Linked s.nodes.next jptr [] → (∀ p ∈ front, ¬ Waits s id p) →
      ∃ s', Scheduler.wakeLoop id fuel s jptr = some s' ∧ Rep s' (wake s id layout) ∧ Kept s s' ∧
        s'.nodes.priority = s.nodes.priority := by
    intro fuel s layout front jptr rep split linked passed
    have stop : jptr = none := linked
    rw [List.append_nil] at split
    rw [stop, wake_of_nobody (split ▸ passed)]
    exact ⟨s, by cases fuel <;> rfl, rep, .refl s, rfl⟩
  induction fuel with
  | zero =>
    intro s layout front rest jptr rep split linked passed _ _ enough
    have empty : rest = [] := List.length_eq_zero_iff.mp (by omega)
    subst empty
    exact ended 0 s layout front jptr rep split linked passed
  | succ fuel ih =>
    intro s layout front rest jptr rep split linked passed joinees distinct enough
    cases rest with
    | nil => exact ended (fuel + 1) s layout front jptr rep split linked passed
    | cons y ys =>
      obtain ⟨rfl, linked⟩ := linked
      have member : y ∈ layout .join := by rw [split]; simp
      have nodup := rep.nodup .join
      rw [split] at nodup
      have outside : y ∉ front := fun inside =>
        (List.nodup_append.mp nodup).2.2 y inside y List.mem_cons_self rfl
      obtain ⟨joinee, joinee_eq⟩ := Option.ne_none_iff_exists'.mp (joinees y member)
      by_cases here : s.threads.id joinee = id
      · -- `y` is the node removed, and the loop starts again
        obtain ⟨p, s₁, s₂, removed, pushed, inside, sameId, rep₂, kept, priority⟩ :=
          rep.wakeOne ⟨y, member, rfl⟩
        obtain rfl : p = y := distinct p inside y member sameId
        set layout₂ := Layout.push (Function.update layout .join ((layout .join).erase p))
          (.queue (.runQ (s.nodes.priority p))) p with layout₂_eq
        have join₂ : layout₂ .join = (layout .join).erase p := by
          rw [layout₂_eq, Layout.push, Function.update_of_ne (by simp), Function.update_self]
        have still : ∀ q ∈ layout₂ .join, q ∈ layout .join := fun q remains => by
          rw [join₂] at remains
          exact List.mem_of_mem_erase remains
        have shorter : ((layout .join).erase p).length + 1 = (layout .join).length := by
          rw [List.length_erase_of_mem inside]
          have := List.length_pos_of_mem inside
          omega
        obtain ⟨s', result, rep', kept', priority'⟩ := ih s₂ layout₂ [] (layout₂ .join) s₂.joinList
          rep₂ rfl rep₂.joined (by simp)
          (fun q remains => by rw [kept.joinee]; exact joinees q (still q remains))
          (fun q first q' second same => by
            rw [kept.idOf, kept.idOf] at same
            exact distinct q (still q first) q' (still q' second) same) (by
            have room := rep.length_le .join
            rw [join₂, kept.nodeNum]
            rw [← shorter, Nat.add_mul] at enough
            simp only [List.length_cons] at enough
            omega)
        rw [wake_first split outside passed ⟨joinee, joinee_eq, here⟩ kept priority] at rep'
        refine ⟨s', ?_, rep', kept.trans kept', priority'.trans priority⟩
        simp only [Scheduler.wakeLoop, joinee_eq, Option.bind_some, here, if_true, removed, pushed]
        exact result
      · obtain ⟨s', result, after⟩ := ih s layout (front ++ [y]) ys (s.nodes.next y) rep
          (by rw [split]; simp) linked (fun p inside => by
            rcases List.mem_append.mp inside with before | single
            · exact passed p before
            · rw [List.mem_singleton.mp single]
              rintro ⟨other, other_eq, same⟩
              rw [joinee_eq] at other_eq
              cases other_eq
              exact here same) joinees distinct
          (by simp only [List.length_cons] at enough; omega)
        refine ⟨s', ?_, after⟩
        simp only [Scheduler.wakeLoop, joinee_eq, Option.bind_some, here, if_false]
        exact result

/-! ### The branch of an exiting thread -/

/-- **The running thread exits.** The nodes are in one place each and the ids on the join list are
distinct; every node there has set its joinee. -/
structure Exiting (s : Scheduler) (layout : Layout) : Prop where
  rep : Rep s layout
  exiting : s.nodes.status s.current = .exiting
  joinees : ∀ p ∈ layout .join, s.nodes.joinee p ≠ none
  distinct : ∀ p ∈ layout .join, ∀ q ∈ layout .join, s.idOf p = s.idOf q → p = q

/-- The record of the running thread is registered. -/
def OwnRegistered (s : Scheduler) : Prop :=
  OnList s.threads.next s.threadList (s.nodes.threadID s.current)

/-- **What the branch has to do.** Who waits for the thread leaves the join list for the end of the run
queue of its priority, nobody else moves; the thread's record is dead if it is registered, and no record
with another id has died. -/
structure WakesExactly (s : Scheduler) (layout : Layout) (s' : Scheduler) : Prop where
  places : Rep s' (wake s (s.idOf s.current) layout)
  dead : OwnRegistered s → s'.threads.isDead (s.nodes.threadID s.current) = true
  others : ∀ ptr, s.threads.id ptr ≠ s.idOf s.current → s'.threads.isDead ptr = s.threads.isDead ptr
  kept : Kept { s with threads := { s.threads with isDead := s'.threads.isDead } } s'
  priority : s'.nodes.priority = s.nodes.priority

/-- **The search of `threads` ends**, and with the thread's own record if that is registered and not
dead yet. -/
def FindsOwn (s : Scheduler) : Prop :=
  ∃ found, s.findThread (s.idOf s.current) = some found ∧
    (OwnRegistered s → s.threads.isDead (s.nodes.threadID s.current) = true ∨
      found = some (s.nodes.threadID s.current))

/-- The wake-up loop on a state whose records have been marked. -/
theorem Exiting.wakeLoop {s : Scheduler} {layout : Layout} (exiting : Exiting s layout)
    (isDead : Handle → Bool) :
    ∃ s', Scheduler.wakeLoop (s.idOf s.current) s.wakeFuel
        { s with threads := { s.threads with isDead := isDead } } s.joinList = some s' ∧
      Rep s' (wake s (s.idOf s.current) layout) ∧
      Kept { s with threads := { s.threads with isDead := isDead } } s' ∧
      s'.nodes.priority = s.nodes.priority := by
  have room : (layout .join).length + (layout .join).length * (s.nodeNum + 1) ≤ s.wakeFuel := by
    have bound := exiting.rep.length_le .join
    have := Nat.mul_le_mul_right (s.nodeNum + 1) bound
    show _ ≤ (s.nodeNum + 1) * (s.nodeNum + 1)
    rw [Nat.succ_mul s.nodeNum]
    exact (Nat.add_comm _ _).trans_le (Nat.add_le_add this (Nat.le_succ_of_le bound))
  have marked : Rep { s with threads := { s.threads with isDead := isDead } } layout :=
    ⟨exiting.rep.queued, exiting.rep.level, exiting.rep.joined, exiting.rep.nodup,
      exiting.rep.apart, exiting.rep.ranked, exiting.rep.bounded⟩
  obtain ⟨s', looped, rep, kept, priority⟩ := Rep.wakeLoop_exact (s.idOf s.current) s.wakeFuel _
    layout [] (layout .join) s.joinList marked rfl marked.joined (by simp) exiting.joinees
    exiting.distinct room
  refine ⟨s', looped, ?_, kept, priority⟩
  have same : wake { s with threads := { s.threads with isDead := isDead } } (s.idOf s.current)
      layout = wake s (s.idOf s.current) layout := by
    funext place
    match place with
    | .join => rfl
    | .queue (.runQ k) => rfl
    | .queue (.promotionQ i) => rfl
  exact same ▸ rep

/-- The same with a registry that is a list, no longer than the number of ids given out, in which no
other record has the thread's id. -/
structure Exits (s : Scheduler) (layout : Layout) (records : List Handle) : Prop
    extends Exiting s layout where
  registry : Linked s.threads.next s.threadList records
  counted : records.length ≤ s.threadNum
  named : ∀ ptr ∈ records, s.threads.id ptr = s.idOf s.current → ptr = s.nodes.threadID s.current

/-- The thread records once the running thread has died. -/
def buried (s : Scheduler) (records : List Handle) : Threads :=
  if s.nodes.threadID s.current ∈ records then
    { s.threads with
      isDead := Function.update s.threads.isDead (s.nodes.threadID s.current) true }
  else s.threads

/-- **`threadDied` on the running thread.** -/
theorem Exits.threadDied {s : Scheduler} {layout : Layout} {records : List Handle}
    (exits : Exits s layout records) :
    s.threadDied (s.idOf s.current) = some { s with threads := buried s records } := by
  have search : s.findThread (s.idOf s.current)
      = some (records.find? fun ptr => s.threads.id ptr = s.idOf s.current) :=
    findThreadLoop_linked exits.registry exits.counted
  by_cases registered : s.nodes.threadID s.current ∈ records
  · have found : records.find? (fun ptr => s.threads.id ptr = s.idOf s.current)
        = some (s.nodes.threadID s.current) := by
      cases result : records.find? fun ptr => s.threads.id ptr = s.idOf s.current with
      | none =>
        have absent := List.find?_eq_none.mp result _ registered
        exact absurd (decide_eq_true rfl) absent
      | some ptr =>
        have sameId : s.threads.id ptr = s.idOf s.current := by
          have passes := List.find?_some result
          simpa using passes
        rw [exits.named ptr (List.mem_of_find?_eq_some result) sameId]
    simp only [Scheduler.threadDied, search, found, Option.map_some, buried, if_pos registered]
    rfl
  · have missing : records.find? (fun ptr => s.threads.id ptr = s.idOf s.current) = none := by
      refine List.find?_eq_none.mpr fun ptr member same => registered ?_
      rw [← exits.named ptr member (of_decide_eq_true same)]
      exact member
    simp only [Scheduler.threadDied, search, missing, Option.map_some, buried, if_neg registered]

/-- The marks of `threadDied` after a search that has found so much. -/
def marked (s : Scheduler) : Option Handle → Handle → Bool
  | some ptr => Function.update s.threads.isDead ptr true
  | none => s.threads.isDead

theorem threadDied_of_found {s : Scheduler} {id : Nat} {found : Option Handle}
    (search : s.findThread id = some found) :
    s.threadDied id = some { s with threads := { s.threads with isDead := marked s found } } := by
  unfold Scheduler.threadDied
  rw [search]
  cases found <;> rfl

/-- Once the search has returned, the branch is the wake-up loop on the marked records. -/
theorem Exiting.requeue {s s' : Scheduler} {layout : Layout} (exiting : Exiting s layout)
    {found : Option Handle} (search : s.findThread (s.idOf s.current) = some found) :
    s.requeue = some s' ↔ Scheduler.wakeLoop (s.idOf s.current) s.wakeFuel
      { s with threads := { s.threads with isDead := marked s found } } s.joinList = some s' := by
  simp only [Scheduler.requeue, exiting.exiting, threadDied_of_found search, Option.bind_some]
  rfl

/-- **An exit wakes exactly the waiters if and only if the search of `threads` ends**, with the thread's
own record where that has to be marked. -/
theorem exit_wakes_iff {s : Scheduler} {layout : Layout} (exiting : Exiting s layout) :
    (∃ s', s.requeue = some s' ∧ WakesExactly s layout s') ↔ FindsOwn s := by
  constructor
  · rintro ⟨s', ran, exact⟩
    have died : s.threadDied (s.idOf s.current) ≠ none := fun none => by
      simp only [Scheduler.requeue, exiting.exiting, none, Option.bind_none] at ran
      cases ran
    obtain ⟨found, search⟩ : ∃ found, s.findThread (s.idOf s.current) = some found := by
      refine Option.ne_none_iff_exists'.mp fun none => died ?_
      rw [Scheduler.threadDied, none, Option.map_none]
    refine ⟨found, search, fun registered => ?_⟩
    obtain ⟨s₁, looped, _, kept, _⟩ := exiting.wakeLoop (marked s found)
    cases looped.symm.trans ((exiting.requeue search).mp ran)
    have dead := exact.dead registered
    rw [kept.threads] at dead
    cases found with
    | none => exact Or.inl dead
    | some ptr =>
      by_cases own : s.nodes.threadID s.current = ptr
      · exact Or.inr (congrArg some own.symm)
      · have before : Function.update s.threads.isDead ptr true (s.nodes.threadID s.current) = true :=
          dead
        rw [Function.update_of_ne own] at before
        exact Or.inl before
  · rintro ⟨found, search, finds⟩
    obtain ⟨s', looped, rep, kept, priority⟩ := exiting.wakeLoop (marked s found)
    have isDead : s'.threads.isDead = marked s found := by rw [kept.threads]
    refine ⟨s', (exiting.requeue search).mpr looped, rep, fun registered => ?_, fun ptr other => ?_, ?_,
      priority⟩
    · rw [isDead]
      rcases finds registered with already | same
      · cases found with
        | none => exact already
        | some ptr =>
          show Function.update s.threads.isDead ptr true _ = true
          by_cases own : s.nodes.threadID s.current = ptr
          · rw [own, Function.update_self]
          · rw [Function.update_of_ne own]
            exact already
      · rw [same]
        exact Function.update_self ..
    · rw [isDead]
      cases found with
      | none => rfl
      | some own =>
        have id : s.threads.id own = s.idOf s.current := findThreadLoop_id _ _ _ search
        exact Function.update_of_ne (fun same => other ((congrArg s.threads.id same).trans id)) ..
    · rw [isDead]
      exact kept

/-- A thread that exits between two events of a run exits so, with the records of all created threads
in the registry. -/
theorem Wf.exits {s : Scheduler} {layout : Layout} (wf : Wf s layout) (registered : Registered s)
    (exiting : s.nodes.status s.current = .exiting) :
    ∃ records, Exits s layout records ∧
      ∀ ptr, ptr ∈ records ↔ ∃ q, 1 ≤ q ∧ q < s.nodeNum ∧ s.nodes.threadID q = ptr := by
  obtain ⟨records, linked, length, members⟩ := registered.records
  refine ⟨records,
    { rep := wf.rep
      exiting := exiting
      joinees := fun p member =>
        wf.target p (wf.rep.bounded _ p member) (wf.blocked p member)
      distinct := fun p first q second same =>
        registered.node_inj (wf.rep.bounded _ p first) (wf.rep.bounded _ q second) same
      registry := linked
      counted := by rw [registered.threadNum]; omega
      named := fun ptr member same => ?_ }, members⟩
  obtain ⟨q, _, bound, rfl⟩ := (members ptr).mp member
  rw [registered.node_inj bound wf.allocated same]

/-- The main thread has joined thread `2`, which exits. -/
def exitRun : List Event := [.create 0 0 .succeeds, .join 2, .enterSchedule 0, .exit 7]

/-- The main thread is on the join list before, and at the end of its run queue after. -/
theorem exit_wakes_iff_exitRun :
    ∃ s layout s', layout .join = [0] ∧ Waits s (s.idOf s.current) 0 ∧ s.requeue = some s' ∧
      WakesExactly s layout s' ∧ wake s (s.idOf s.current) layout .join = [] ∧
      s'.threads.isDead (.user 0) = true := by
  have start : Reach LoggedStarted JoinsOrderly (execStep Logged.next) ⟨zeroed, fun _ => none⟩ :=
    .init ⟨zeroed_started, rfl⟩
  obtain ⟨t, reached, found⟩ := start.exists_of_execAll exitRun
    (fun t => t.sched.nodes.status t.sched.current = .exiting ∧ t.sched.joinList = some 0 ∧
      t.sched.nodes.next 0 = none ∧ Waits t.sched (t.sched.idOf t.sched.current) 0 ∧
      t.sched.findThread (t.sched.idOf t.sched.current) = some (some (.user 0)) ∧
      t.sched.threadList = some (.user 0) ∧
      t.sched.nodes.threadID t.sched.current = .user 0) (by decide)
  obtain ⟨exiting, head, last, waits, search, first, own⟩ := of_decide_eq_true found
  obtain ⟨layout, sound⟩ := sound_of_reach reached
  obtain ⟨records, exits, _⟩ := sound.wf.exits sound.registered exiting
  have finds : FindsOwn t.sched := ⟨_, search, fun _ => Or.inr (congrArg some own.symm)⟩
  obtain ⟨s', result, exact⟩ := (exit_wakes_iff exits.toExiting).mpr finds
  have join : layout .join = [0] := sound.wf.rep.joined.unique ⟨head, last⟩
  have registered : OwnRegistered t.sched := by
    unfold OwnRegistered
    rw [first, own]
    exact .here _
  refine ⟨t.sched, layout, s', join, waits, result, exact, ?_, own ▸ exact.dead registered⟩
  simp [wake, join, waits]

/-- The main thread has joined thread `2`, and passes the record again to `my_pthread_create`; then it
exits. -/
def againRun : List Event :=
  [.create 0 0 .succeeds, .join 2, .enterSchedule 0, .exit 7, .enterSchedule 0, .joinReturn,
    .create 0 0 .succeeds, .exit 0]

/-- **The branch never ends**: the registry is a cycle, and the main thread's id is not on it. -/
theorem exit_spins : ¬ ∀ s layout, Exiting s layout →
    ∃ s', s.requeue = some s' ∧ WakesExactly s layout s' := by
  intro always
  have start : Reach Started LeavesSuccessor (execStep Scheduler.next) zeroed := .init zeroed_started
  obtain ⟨s, reached, found⟩ := start.exists_of_execAll againRun
    (fun s => s.nodes.status s.current = .exiting ∧ s.joinList = none ∧
      s.requeue.isNone = true) (by decide)
  obtain ⟨exiting, nobody, spins⟩ := of_decide_eq_true found
  obtain ⟨layout, wf⟩ : ∃ layout, Wf s layout := by
    refine reached.invariant (fun s => ∃ layout, Wf s layout)
      (fun s started => ⟨noLayout, started.wf⟩) ?_
    rintro s e s' ⟨layout, wf⟩ leaves taken
    obtain ⟨out, result⟩ := Scheduler.exec_of_next taken
    obtain ⟨layout', _, wf'⟩ := wf.exec leaves result
    exact ⟨layout', wf'⟩
  have empty : layout .join = [] := wf.rep.joined.unique nobody
  have none : ∀ p, p ∉ layout .join := fun p => empty ▸ List.not_mem_nil
  obtain ⟨s', ran, _⟩ := always s layout
    ⟨wf.rep, exiting, fun p member => absurd member (none p), fun p member => absurd member (none p)⟩
  rw [ran] at spins
  cases spins

end OS2017.Sched
