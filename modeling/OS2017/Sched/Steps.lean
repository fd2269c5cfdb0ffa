/-
**What one event of the scheduler can do.**

`Wf s layout` is the state between two events: the pointers represent the layout, `current` is in
no place, the promotion queues are empty. `Scheduled` lists everything a call of `schedule()` does
to such a state, and every invariant of the runs is derived from it alone; `Wf.schedule` proves it
from the model. The one thing a run must not do is to enter `schedule()` with a joining thread and
nothing to run: the source then returns to the caller although the node is on the join list.
-/

import OS2017.Sched.Moves

namespace OS2017.Sched

open OS2017.Intrusive

/-- **The state between two events.** -/
structure Wf (s : Scheduler) (layout : Layout) : Prop where
  rep : Rep s layout
  off : layout.Off s.current
  allocated : s.current < s.nodeNum
  promotion : ∀ i, layout (.queue (.promotionQ i)) = []
  ranked : Ranked s
  /-- a joining thread has set its joinee -/
  target : ∀ p < s.nodeNum, s.nodes.status p = .joining → s.nodes.joinee p ≠ none
  awake : ∀ slot, ∀ p ∈ layout (.queue slot), s.nodes.status p ≠ .yielding
  blocked : ∀ p ∈ layout .join, s.nodes.status p = .joining

/-- Some run queue has a node. -/
def SomeRunnable (s : Scheduler) : Prop :=
  ∃ k < RUN_QUEUE_SIZE, (s.queues (.runQ k)).head ≠ none

instance (s : Scheduler) : Decidable (SomeRunnable s) := by
  unfold SomeRunnable
  infer_instance

namespace Wf

variable {s : Scheduler} {layout : Layout}

/-- A placed node does not yield. -/
theorem notYielding (wf : Wf s layout) {p : NodePtr} (placed : layout.Placed p) :
    s.nodes.status p ≠ .yielding := by
  obtain ⟨place, member⟩ := placed
  cases place with
  | queue slot => exact wf.awake slot p member
  | join =>
    rw [wf.blocked p member]
    simp

/-- A node on a run queue is on one of the five. -/
theorem runnable_iff (wf : Wf s layout) :
    SomeRunnable s ↔ ∃ slot p, p ∈ layout (.queue slot) := by
  constructor
  · rintro ⟨k, _, nonempty⟩
    have queue : layout (.queue (.runQ k)) ≠ [] := fun empty =>
      nonempty ((wf.rep.queued (.runQ k)).head_none_iff.mpr empty)
    exact ⟨.runQ k, List.exists_mem_of_ne_nil _ queue⟩
  · rintro ⟨slot, p, member⟩
    cases slot with
    | promotionQ i =>
      rw [wf.promotion i] at member
      cases member
    | runQ k =>
      have level := wf.rep.ranked k p member
      refine ⟨k, level ▸ wf.ranked p (wf.rep.bounded _ p member), fun none => ?_⟩
      rw [(wf.rep.queued (.runQ k)).head_none_iff.mp none] at member
      cases member

end Wf

/-! ### The registry -/

/-- The search of the registry finds a record with the id. -/
theorem findThreadLoop_id {s : Scheduler} {id : Nat} :
    ∀ (fuel : Nat) (start : Option Handle) (ptr : Handle),
      s.findThreadLoop id fuel start = some (some ptr) → s.threads.id ptr = id := by
  intro fuel
  induction fuel with
  | zero =>
    intro start ptr found
    cases start with
    | none => simp [Scheduler.findThreadLoop] at found
    | some _ => simp [Scheduler.findThreadLoop] at found
  | succ fuel ih =>
    intro start ptr found
    cases start with
    | none => simp [Scheduler.findThreadLoop] at found
    | some first =>
      unfold Scheduler.findThreadLoop at found
      split at found
      · rename_i same
        cases found
        exact same
      · exact ih _ ptr found

/-- The search of the registry finds a record of it. -/
theorem findThreadLoop_onList {s : Scheduler} {id : Nat} :
    ∀ (fuel : Nat) (start : Option Handle) (ptr : Handle),
      s.findThreadLoop id fuel start = some (some ptr) → OnList s.threads.next start ptr := by
  intro fuel
  induction fuel with
  | zero =>
    intro start ptr found
    cases start <;> simp [Scheduler.findThreadLoop] at found
  | succ fuel ih =>
    intro start ptr found
    cases start with
    | none => simp [Scheduler.findThreadLoop] at found
    | some first =>
      unfold Scheduler.findThreadLoop at found
      split at found
      · cases found
        exact .here _
      · exact .there (ih _ ptr found)

/-- **What a thread's death changes**: the registered record of its id is dead. -/
structure Died (s : Scheduler) (id : Nat) (isDead : Handle → Bool) : Prop where
  only : ∀ ptr, isDead ptr = true → s.threads.isDead ptr = true ∨ s.threads.id ptr = id
  still : ∀ ptr, s.threads.isDead ptr = true → isDead ptr = true
  marked : ∀ ptr, s.findThread id = some (some ptr) → isDead ptr = true

theorem threadDied_spec {s s' : Scheduler} {id : Nat} (died : s.threadDied id = some s') :
    ∃ isDead, Died s id isDead ∧ s' = { s with threads := { s.threads with isDead := isDead } } := by
  unfold Scheduler.threadDied at died
  cases search : s.findThread id with
  | none => simp [search] at died
  | some found =>
    simp only [search, Option.map_some] at died
    cases found with
    | none =>
      cases died
      exact ⟨s.threads.isDead, ⟨fun _ => Or.inl, fun _ dead => dead, fun ptr found => by
        rw [search] at found
        cases found⟩, rfl⟩
    | some ptr =>
      cases died
      have same : s.threads.id ptr = id := findThreadLoop_id _ _ _ search
      refine ⟨Function.update s.threads.isDead ptr true, ⟨fun other dead => ?_, fun other dead => ?_,
        fun other found => ?_⟩, rfl⟩
      · by_cases equal : other = ptr
        · exact Or.inr (equal ▸ same)
        · rw [Function.update_of_ne equal] at dead
          exact Or.inl dead
      · by_cases equal : other = ptr
        · rw [equal, Function.update_self]
        · rw [Function.update_of_ne equal]
          exact dead
      · rw [search] at found
        cases found
        exact Function.update_self _ _ _

/-- Moving nodes leaves the registry alone. -/
theorem Kept.findThread {s s' : Scheduler} (kept : Kept s s') (id : Nat) :
    s'.findThread id = s.findThread id := by
  have same : ∀ fuel start, s'.findThreadLoop id fuel start = s.findThreadLoop id fuel start := by
    intro fuel
    induction fuel with
    | zero => intro start; cases start <;> rfl
    | succ fuel ih =>
      intro start
      cases start with
      | none => rfl
      | some first => simp only [Scheduler.findThreadLoop, kept.threads, ih]
  unfold Scheduler.findThread
  rw [same, kept.threadNum, kept.threadList]

/-- Whoever has died behind moved nodes has died. -/
theorem Died.of_kept {s s' : Scheduler} {id : Nat} {isDead : Handle → Bool} (kept : Kept s s')
    (died : Died s' id isDead) : Died s id isDead := by
  refine ⟨fun ptr dead => ?_, fun ptr dead => died.still ptr (by rwa [kept.threads]),
    fun ptr found => died.marked ptr ((kept.findThread id).trans found)⟩
  rw [← kept.threads]
  exact died.only ptr dead

/-! ### `schedule` up to the next node -/

/-- Wellformedness does not read `cycles`. -/
theorem Wf.setCycles {s : Scheduler} {layout : Layout} (wf : Wf s layout) (cycles : Nat) :
    Wf { s with cycles := cycles } layout :=
  ⟨⟨wf.rep.queued, wf.rep.level, wf.rep.joined, wf.rep.nodup, wf.rep.apart, wf.rep.ranked,
    wf.rep.bounded⟩, wf.off, wf.allocated, wf.promotion, wf.ranked, wf.target, wf.awake, wf.blocked⟩

/-- **The head of `schedule`** moves nodes between the run queues at most. -/
theorem Wf.tick {s : Scheduler} {layout : Layout} (wf : Wf s layout) (now : Int) :
    ∃ s' layout', s.tick now = some s' ∧ Wf s' layout' ∧ Kept s s' ∧
      layout' .join = layout .join ∧ ∀ p, layout'.Placed p ↔ layout.Placed p := by
  by_cases due : s.cycles + 1 > 100
  · have wf₀ := wf.setCycles 0
    obtain ⟨s', result, moved⟩ :=
      wf₀.rep.maintenance now (fun i _ => wf₀.promotion i) fun k _ => wf₀.awake (.runQ k)
    have empty := fun i => Rep.maintained_promotion (s := { s with cycles := 0 }) now
      (wf₀.promotion i)
    refine ⟨s', _, by simp [Scheduler.tick, due, result], ?_,
      Kept.trans (by constructor <;> rfl) moved.kept, moved.join, moved.placed⟩
    refine ⟨moved.rep, fun place member => ?_, ?_, empty, moved.ranked wf₀.ranked,
      fun p bound joining => ?_, fun slot p member => ?_, fun p member => ?_⟩
    · rw [moved.kept.current] at member
      obtain ⟨before, inside⟩ := (moved.placed _).mp ⟨place, member⟩
      exact wf.off before inside
    · rw [moved.kept.current, moved.kept.nodeNum]
      exact wf.allocated
    · rw [moved.kept.nodeNum] at bound
      rw [moved.kept.status] at joining
      rw [moved.kept.joinee]
      exact wf.target p bound joining
    · rw [moved.kept.status]
      exact wf₀.notYielding ((moved.placed p).mp ⟨_, member⟩)
    · rw [moved.kept.status]
      rw [moved.join] at member
      exact wf.blocked p member
  · exact ⟨{ s with cycles := s.cycles + 1 }, layout, by simp [Scheduler.tick, due],
      wf.setCycles _, by constructor <;> rfl, rfl, fun _ => Iff.rfl⟩

/-- **What `schedule` does before it chooses the next node.** -/
structure Requeued (s : Scheduler) (layout : Layout) (s' : Scheduler) (layout' : Layout) : Prop where
  rep : Rep s' layout'
  threadID : s'.nodes.threadID = s.nodes.threadID
  ut : s'.nodes.ut = s.nodes.ut
  joinee : s'.nodes.joinee = s.nodes.joinee
  status : s'.nodes.status = if s.nodes.status s.current = .yielding
    then Function.update s.nodes.status s.current .neutral else s.nodes.status
  id : s'.threads.id = s.threads.id
  exitArg : s'.threads.exitArg = s.threads.exitArg
  next : s'.threads.next = s.threads.next
  died : s.nodes.status s.current = .exiting → Died s (s.idOf s.current) s'.threads.isDead
  alive : s.nodes.status s.current ≠ .exiting → s'.threads.isDead = s.threads.isDead
  threadList : s'.threadList = s.threadList
  current : s'.current = s.current
  threadNum : s'.threadNum = s.threadNum
  nodeNum : s'.nodeNum = s.nodeNum
  running : s'.running = s.running
  ranked : Ranked s'
  promotion : ∀ i, layout' (.queue (.promotionQ i)) = []
  placed : ∀ p, layout'.Placed p ↔
    layout.Placed p ∨ (p = s.current ∧ s.nodes.status s.current ≠ .exiting)
  join : ∀ p ∈ layout' .join, p ∈ layout .join ∨ (p = s.current ∧ s.nodes.status p = .joining)
  inserted : s.nodes.status s.current = .joining → s.current ∈ layout' .join
  left : s.nodes.status s.current = .exiting →
    ∀ p ∈ layout' .join, ¬ Waits s (s.idOf s.current) p
  woke : ∀ p ∈ layout .join, p ∉ layout' .join → s.nodes.status s.current = .exiting ∧
    ∃ q ∈ layout .join, s.idOf q = s.idOf p ∧ Waits s (s.idOf s.current) q
  unplaced : s.nodes.status s.current = .exiting → layout'.Off s.current
  runnable : s.nodes.status s.current = .joining →
    ∀ slot, ∀ p ∈ layout (.queue slot), ∃ other, p ∈ layout' (.queue other)

/-- Enqueueing `current`, which is yielding or ran out of time, at some level. -/
theorem Wf.requeue_current {s : Scheduler} {layout : Layout} (wf : Wf s layout) {k : Nat}
    (inRange : k < RUN_QUEUE_SIZE) (notExiting : s.nodes.status s.current ≠ .exiting)
    (notJoining : s.nodes.status s.current ≠ .joining)
    (yielding : s.nodes.status s.current = .yielding → s.nodes.priority s.current = k) :
    ∃ s₁, s.enQ (.runQ k) s.current = some s₁ ∧ ∀ s', s' = (if s.nodes.status s.current = .yielding
        then { s₁ with nodes := s₁.nodes.setStatus s.current .neutral } else s₁) →
      ∃ layout', Requeued s layout s' layout' := by
  obtain ⟨s₁, pushed, rep, kept, priority, _⟩ := wf.rep.enQ wf.off wf.allocated yielding
  refine ⟨s₁, pushed, fun s' s'_eq => ⟨layout.push (.queue (.runQ k)) s.current, ?_⟩⟩
  -- the status of `current` is the only field the second step can change
  have same : Rep s' (layout.push (.queue (.runQ k)) s.current) ∧
      s'.nodes.threadID = s₁.nodes.threadID ∧ s'.nodes.ut = s₁.nodes.ut ∧
      s'.nodes.joinee = s₁.nodes.joinee ∧ s'.nodes.priority = s₁.nodes.priority ∧
      s'.threads = s₁.threads ∧ s'.threadList = s₁.threadList ∧ s'.current = s₁.current ∧
      s'.threadNum = s₁.threadNum ∧ s'.nodeNum = s₁.nodeNum ∧ s'.running = s₁.running := by
    split at s'_eq
    · subst s'_eq
      exact ⟨⟨rep.queued, rep.level, rep.joined, rep.nodup, rep.apart, rep.ranked, rep.bounded⟩,
        rfl, rfl, rfl, rfl, rfl, rfl, rfl, rfl, rfl, rfl⟩
    · subst s'_eq
      exact ⟨rep, rfl, rfl, rfl, rfl, rfl, rfl, rfl, rfl, rfl, rfl⟩
  obtain ⟨rep', threadID, ut, joinee, priority', threads, threadList, current, threadNum, nodeNum,
    running⟩ := same
  have join : layout.push (.queue (.runQ k)) s.current .join = layout .join := by
    rw [Layout.push, Function.update_of_ne (by simp)]
  refine
    { rep := rep'
      threadID := threadID.trans kept.threadID
      ut := ut.trans kept.ut
      joinee := joinee.trans kept.joinee
      status := ?_
      id := by rw [threads, kept.threads]
      exitArg := by rw [threads, kept.threads]
      next := by rw [threads, kept.threads]
      died := fun exiting => absurd exiting notExiting
      alive := fun _ => by rw [threads, kept.threads]
      threadList := threadList.trans kept.threadList
      current := current.trans kept.current
      threadNum := threadNum.trans kept.threadNum
      nodeNum := nodeNum.trans kept.nodeNum
      running := running.trans kept.running
      ranked := ?_
      promotion := ?_
      placed := ?_
      join := fun p member => Or.inl (join ▸ member)
      inserted := fun joining => absurd joining notJoining
      left := fun exiting => absurd exiting notExiting
      woke := fun p member gone => absurd (join.symm ▸ member) gone
      unplaced := fun exiting => absurd exiting notExiting
      runnable := fun joining => absurd joining notJoining }
  · split at s'_eq
    · rename_i isYielding
      rw [if_pos isYielding, s'_eq]
      simp [Nodes.setStatus, kept.status]
    · rename_i notYielding
      rw [if_neg notYielding, s'_eq]
      exact kept.status
  · intro p bound
    rw [priority', priority]
    by_cases equal : p = s.current
    · rw [equal, Function.update_self]
      exact inRange
    · rw [Function.update_of_ne equal]
      exact wf.ranked p (by rw [nodeNum, kept.nodeNum] at bound; exact bound)
  · intro i
    rw [Layout.push, Function.update_of_ne (by simp)]
    exact wf.promotion i
  · intro p
    rw [Layout.placed_push]
    exact or_congr Iff.rfl ⟨fun equal => ⟨equal, notExiting⟩, fun both => both.1⟩

/-- The branch of an exiting thread. -/
theorem Wf.requeue_exiting {s s' : Scheduler} {layout : Layout} (wf : Wf s layout)
    (exiting : s.nodes.status s.current = .exiting) (result : s.requeue = some s') :
    ∃ layout', Requeued s layout s' layout' := by
  simp only [Scheduler.requeue, exiting] at result
  obtain ⟨s₁, death, loop⟩ := Option.bind_eq_some_iff.mp result
  obtain ⟨isDead, died, rfl⟩ := threadDied_spec death
  set s₁ : Scheduler := { s with threads := { s.threads with isDead := isDead } } with s₁_eq
  have rep₁ : Rep s₁ layout := ⟨wf.rep.queued, wf.rep.level, wf.rep.joined, wf.rep.nodup,
    wf.rep.apart, wf.rep.ranked, wf.rep.bounded⟩
  have sameId : s₁.idOf s.current = s.idOf s.current := rfl
  have waiting : ∀ p ∈ layout .join,
      s₁.nodes.joinee p ≠ none ∧ s₁.nodes.status p ≠ .yielding := fun p member =>
    ⟨wf.target p (wf.rep.bounded _ p member) (wf.blocked p member),
      wf.notYielding ⟨.join, member⟩⟩
  have room : (layout .join).length + (layout .join).length * (s₁.nodeNum + 1) ≤ s₁.wakeFuel := by
    have bound := wf.rep.length_le .join
    have := Nat.mul_le_mul_right (s.nodeNum + 1) bound
    show _ ≤ (s.nodeNum + 1) * (s.nodeNum + 1)
    rw [Nat.succ_mul s.nodeNum]
    exact (Nat.add_comm _ _).trans_le (Nat.add_le_add this (Nat.le_succ_of_le bound))
  obtain ⟨s₂, layout', looped, woken⟩ := Rep.wakeLoop (s₁.idOf s.current) s₁.wakeFuel s₁
    layout [] (layout .join) s₁.joinList rep₁ rfl rep₁.joined (by simp) waiting room
  rw [looped] at loop
  cases loop
  have waits : ∀ p, Waits s₁ (s₁.idOf s.current) p ↔ Waits s (s.idOf s.current) p :=
    fun _ => Iff.rfl
  refine ⟨layout',
    { rep := woken.rep
      threadID := woken.kept.threadID
      ut := woken.kept.ut
      joinee := woken.kept.joinee
      status := ?_
      id := by rw [woken.kept.threads]
      exitArg := by rw [woken.kept.threads]
      next := by rw [woken.kept.threads]
      died := fun _ => by rw [woken.kept.threads]; exact died
      alive := fun alive => absurd exiting alive
      threadList := woken.kept.threadList
      current := woken.kept.current
      threadNum := woken.kept.threadNum
      nodeNum := woken.kept.nodeNum
      running := woken.kept.running
      ranked := ?_
      promotion := fun i => (woken.promotion i).trans (wf.promotion i)
      placed := ?_
      join := fun p member => Or.inl (woken.join p member)
      inserted := fun joining => by rw [exiting] at joining; cases joining
      left := fun _ p member => woken.left p member
      woke := fun p member gone => ⟨exiting, woken.woke p member gone⟩
      unplaced := ?_
      runnable := fun joining => by rw [exiting] at joining; cases joining }⟩
  · rw [if_neg (by rw [exiting]; simp)]
    exact woken.kept.status
  · intro p bound
    rw [woken.priority]
    exact wf.ranked p (by rw [woken.kept.nodeNum] at bound; exact bound)
  · intro p
    rw [woken.placed p]
    exact ⟨Or.inl, fun either => either.elim (fun placed => placed) fun both => absurd exiting both.2⟩
  · intro _ place member
    obtain ⟨before, inside⟩ := (woken.placed _).mp ⟨place, member⟩
    exact wf.off before inside

/-- The branch of a joining thread. -/
theorem Wf.requeue_joining {s : Scheduler} {layout : Layout} (wf : Wf s layout)
    (joining : s.nodes.status s.current = .joining) :
    s.requeue = some (s.insertToList s.current) ∧
      Requeued s layout (s.insertToList s.current)
        (Function.update layout .join (s.current :: layout .join)) := by
  have notExiting : s.nodes.status s.current ≠ .exiting := by rw [joining]; simp
  have queue : ∀ slot, Function.update layout .join (s.current :: layout .join) (.queue slot)
      = layout (.queue slot) := fun slot => Function.update_of_ne (by simp) _ _
  refine ⟨by simp only [Scheduler.requeue, joining],
    { rep := wf.rep.insertToList wf.off wf.allocated
      threadID := rfl
      ut := rfl
      joinee := rfl
      status := by rw [if_neg (by rw [joining]; simp)]; rfl
      id := rfl
      exitArg := rfl
      next := rfl
      died := fun exiting => absurd exiting notExiting
      alive := fun _ => rfl
      threadList := rfl
      current := rfl
      threadNum := rfl
      nodeNum := rfl
      running := rfl
      ranked := wf.ranked
      promotion := fun i => (queue _).trans (wf.promotion i)
      placed := ?_
      join := ?_
      inserted := fun _ => by rw [Function.update_self]; exact List.mem_cons_self
      left := fun exiting => absurd exiting notExiting
      woke := fun p member gone => by
        rw [Function.update_self] at gone
        exact absurd (List.mem_cons_of_mem _ member) gone
      unplaced := fun exiting => absurd exiting notExiting
      runnable := fun _ slot p member => ⟨slot, (queue slot).symm ▸ member⟩ }⟩
  · intro p
    constructor
    · rintro ⟨place, member⟩
      by_cases same : place = .join
      · rw [same, Function.update_self] at member
        rcases List.mem_cons.mp member with equal | inside
        · exact Or.inr ⟨equal, notExiting⟩
        · exact Or.inl ⟨.join, inside⟩
      · rw [Function.update_of_ne same] at member
        exact Or.inl ⟨place, member⟩
    · rintro (⟨place, member⟩ | ⟨equal, _⟩)
      · by_cases same : place = .join
        · refine ⟨.join, ?_⟩
          rw [Function.update_self]
          exact List.mem_cons_of_mem _ (same ▸ member)
        · exact ⟨place, by rw [Function.update_of_ne same]; exact member⟩
      · exact ⟨.join, by rw [Function.update_self, equal]; exact List.mem_cons_self⟩
  · intro p member
    rw [Function.update_self] at member
    rcases List.mem_cons.mp member with rfl | inside
    · exact Or.inr ⟨rfl, joining⟩
    · exact Or.inl inside

/-- **The branches on the status**, as one statement. -/
theorem Wf.requeue {s s' : Scheduler} {layout : Layout} (wf : Wf s layout)
    (result : s.requeue = some s') : ∃ layout', Requeued s layout s' layout' := by
  cases status : s.nodes.status s.current with
  | neutral =>
    have notYielding : s.nodes.status s.current ≠ .yielding := by rw [status]; simp
    have inRange : (if s.nodes.priority s.current < RUN_QUEUE_SIZE - 1
        then s.nodes.priority s.current + 1 else s.nodes.priority s.current) < RUN_QUEUE_SIZE := by
      have := wf.ranked s.current wf.allocated
      split <;> omega
    obtain ⟨s₁, pushed, finish⟩ := wf.requeue_current inRange (by rw [status]; simp)
      (by rw [status]; simp) fun yielding => absurd yielding notYielding
    have same : s' = s₁ := by
      simp only [Scheduler.requeue, status, Scheduler.demoteNode, pushed] at result
      exact (Option.some.inj result).symm
    exact finish s' (by rw [if_neg notYielding, same])
  | yielding =>
    obtain ⟨s₁, pushed, finish⟩ := wf.requeue_current (wf.ranked s.current wf.allocated)
      (by rw [status]; simp) (by rw [status]; simp) fun _ => rfl
    refine finish s' ?_
    simp only [Scheduler.requeue, status, pushed, Option.map_some] at result
    rw [if_pos status]
    exact (Option.some.inj result).symm
  | exiting => exact wf.requeue_exiting status result
  | joining =>
    obtain ⟨same, requeued⟩ := wf.requeue_joining status
    rw [same] at result
    cases result
    exact ⟨_, requeued⟩

/-- `maintenance` in front of the branches does not show. -/
theorem Requeued.of_kept {s s₀ s' : Scheduler} {layout layout₀ layout' : Layout}
    (kept : Kept s s₀) (join : layout₀ .join = layout .join)
    (placed : ∀ p, layout₀.Placed p ↔ layout.Placed p) (wf : Wf s layout)
    (requeued : Requeued s₀ layout₀ s' layout') : Requeued s layout s' layout' := by
  have status : s₀.nodes.status s₀.current = s.nodes.status s.current := by
    rw [kept.status, kept.current]
  have idCurrent : s₀.idOf s₀.current = s.idOf s.current := by rw [kept.idOf, kept.current]
  exact
    { rep := requeued.rep
      threadID := requeued.threadID.trans kept.threadID
      ut := requeued.ut.trans kept.ut
      joinee := requeued.joinee.trans kept.joinee
      status := by rw [requeued.status, kept.status, kept.current]
      id := by rw [requeued.id, kept.threads]
      exitArg := by rw [requeued.exitArg, kept.threads]
      next := by rw [requeued.next, kept.threads]
      died := fun exiting => idCurrent ▸ (requeued.died (status.trans exiting)).of_kept kept
      alive := fun notExiting => by
        rw [requeued.alive (by rw [status]; exact notExiting), kept.threads]
      threadList := requeued.threadList.trans kept.threadList
      current := requeued.current.trans kept.current
      threadNum := requeued.threadNum.trans kept.threadNum
      nodeNum := requeued.nodeNum.trans kept.nodeNum
      running := requeued.running.trans kept.running
      ranked := requeued.ranked
      promotion := requeued.promotion
      placed := fun p => by rw [requeued.placed p, placed p, status, kept.current]
      join := fun p member => by
        rw [← join, ← kept.current, ← kept.status]
        exact requeued.join p member
      inserted := fun joining => kept.current ▸ requeued.inserted (status.trans joining)
      left := fun exiting p member waits => by
        refine requeued.left (status.trans exiting) p member ?_
        rw [idCurrent]
        exact (kept.waits _ p).mpr waits
      woke := fun p member gone => by
        obtain ⟨exiting, q, inside, same, waits⟩ := requeued.woke p (join.symm ▸ member) gone
        rw [idCurrent] at waits
        rw [kept.idOf, kept.idOf] at same
        exact ⟨status.symm.trans exiting, q, join ▸ inside, same, (kept.waits _ q).mp waits⟩
      unplaced := fun exiting => kept.current ▸ requeued.unplaced (status.trans exiting)
      runnable := fun joining slot p member => by
        obtain ⟨place, inside⟩ := (placed p).mpr ⟨_, member⟩
        cases place with
        | queue other => exact requeued.runnable (status.trans joining) other p inside
        | join => exact absurd (join ▸ inside) (wf.rep.not_mem member (by simp)) }

theorem Wf.beforeNext {s s' : Scheduler} {layout : Layout} (wf : Wf s layout) {now : Int}
    (result : s.beforeNext now = some s') : ∃ layout', Requeued s layout s' layout' := by
  obtain ⟨s₀, layout₀, ticked, wf₀, kept, join, placed⟩ := wf.tick now
  simp only [Scheduler.beforeNext, ticked, Option.bind_some] at result
  obtain ⟨layout', requeued⟩ := wf₀.requeue result
  exact ⟨layout', requeued.of_kept kept join placed wf⟩

/-! ### `schedule` -/

/-- **Everything a call of `schedule` does.** -/
structure Scheduled (s : Scheduler) (layout : Layout) (now : Int) (resume : Context)
    (s' : Scheduler) (layout' : Layout) : Prop where
  wf : Wf s' layout'
  threadID : s'.nodes.threadID = s.nodes.threadID
  joinee : s'.nodes.joinee = s.nodes.joinee
  status : s'.nodes.status = if s.nodes.status s.current = .yielding
    then Function.update s.nodes.status s.current .neutral else s.nodes.status
  id : s'.threads.id = s.threads.id
  exitArg : s'.threads.exitArg = s.threads.exitArg
  next : s'.threads.next = s.threads.next
  died : s.nodes.status s.current = .exiting → Died s (s.idOf s.current) s'.threads.isDead
  alive : s.nodes.status s.current ≠ .exiting → s'.threads.isDead = s.threads.isDead
  threadList : s'.threadList = s.threadList
  threadNum : s'.threadNum = s.threadNum
  nodeNum : s'.nodeNum = s.nodeNum
  join : ∀ p ∈ layout' .join, p ∈ layout .join ∨ (p = s.current ∧ s.nodes.status p = .joining)
  inserted : s.nodes.status s.current = .joining → s.current ∈ layout' .join
  left : s.nodes.status s.current = .exiting →
    ∀ p ∈ layout' .join, ¬ Waits s (s.idOf s.current) p
  woke : ∀ p ∈ layout .join, p ∉ layout' .join → s.nodes.status s.current = .exiting ∧
    ∃ q ∈ layout .join, s.idOf q = s.idOf p ∧ Waits s (s.idOf s.current) q
  /-- control goes to another thread, or back to the caller -/
  switch : (s'.idOf s'.current = s.idOf s.current ∧ s'.running = resume ∧
      s'.nodes.ut = s.nodes.ut) ∨
    (s'.idOf s'.current ≠ s.idOf s.current ∧ s'.running = s.nodes.ut s'.current ∧
      s'.nodes.ut = Function.update s.nodes.ut s.current resume)
  /-- nobody is lost, except a thread that exits; with nothing to run it goes on -/
  places : (∀ p, p = s'.current ∨ layout'.Placed p ↔
      layout.Placed p ∨ (p = s.current ∧ s.nodes.status s.current ≠ .exiting)) ∨
    ((∃ s₁, s.beforeNext now = some s₁ ∧ s₁.getNextNode = none) ∧
      s.nodes.status s.current = .exiting ∧ s'.current = s.current ∧
      ∀ p, layout'.Placed p ↔ layout.Placed p)

/-- The status after the branches, for a node that is placed. -/
theorem Requeued.notYielding {s s₁ : Scheduler} {layout layout₁ : Layout} (wf : Wf s layout)
    (requeued : Requeued s layout s₁ layout₁) {p : NodePtr} (placed : layout₁.Placed p) :
    s₁.nodes.status p ≠ .yielding := by
  rw [requeued.status]
  by_cases yielding : s.nodes.status s.current = .yielding
  · rw [if_pos yielding]
    by_cases equal : p = s.current
    · rw [equal, Function.update_self]
      simp
    · rw [Function.update_of_ne equal]
      exact wf.notYielding (((requeued.placed p).mp placed).resolve_right fun both =>
        equal both.1)
  · rw [if_neg yielding]
    rcases (requeued.placed p).mp placed with before | ⟨equal, _⟩
    · exact wf.notYielding before
    · rw [equal]
      exact yielding

theorem Requeued.status_of_joining {s s₁ : Scheduler} {layout layout₁ : Layout}
    (requeued : Requeued s layout s₁ layout₁) (p : NodePtr) :
    s₁.nodes.status p = .joining ↔ s.nodes.status p = .joining := by
  rw [requeued.status]
  by_cases yielding : s.nodes.status s.current = .yielding
  · rw [if_pos yielding]
    by_cases equal : p = s.current
    · rw [equal, Function.update_self, yielding]
      simp
    · rw [Function.update_of_ne equal]
  · rw [if_neg yielding]

theorem Requeued.blocked {s s₁ : Scheduler} {layout layout₁ : Layout} (wf : Wf s layout)
    (requeued : Requeued s layout s₁ layout₁) {p : NodePtr} (member : p ∈ layout₁ .join) :
    s₁.nodes.status p = .joining := by
  rw [requeued.status_of_joining]
  rcases requeued.join p member with before | ⟨_, joining⟩
  · exact wf.blocked p before
  · exact joining

/-- **`schedule` on a wellformed state**, when a joining thread finds another one to run. -/
theorem Wf.schedule {s s' : Scheduler} {layout : Layout} (wf : Wf s layout) {now : Int}
    {resume : Context} (successor : s.nodes.status s.current = .joining → SomeRunnable s)
    (result : s.schedule now resume = some s') :
    ∃ layout', Scheduled s layout now resume s' layout' := by
  obtain ⟨s₁, before, rfl⟩ := Option.map_eq_some_iff.mp result
  obtain ⟨layout₁, requeued⟩ := wf.beforeNext before
  have idOf₁ : ∀ p, s₁.idOf p = s.idOf p := fun p => by
    unfold Scheduler.idOf
    rw [requeued.id, requeued.threadID]
  rcases requeued.rep.getNextNode with ⟨empty, none⟩ | ⟨k, _, p, xs, s₂, first, some, rep₂, kept₂,
    priority₂⟩
  · -- nothing to run: only an exiting thread gets here
    have emptyQueue : ∀ slot q, q ∉ layout₁ (.queue slot) := by
      intro slot q member
      cases slot with
      | promotionQ i =>
        rw [requeued.promotion i] at member
        cases member
      | runQ j =>
        have level := requeued.rep.ranked j q member
        rw [empty j (level ▸ requeued.ranked q (requeued.rep.bounded _ q member))] at member
        cases member
    have exiting : s.nodes.status s.current = .exiting := by
      by_contra notExiting
      obtain ⟨place, member⟩ := (requeued.placed s.current).mpr (Or.inr ⟨rfl, notExiting⟩)
      cases place with
      | queue slot => exact emptyQueue slot _ member
      | join =>
        rcases requeued.join _ member with old | ⟨_, joining⟩
        · exact wf.off .join old
        · obtain ⟨slot, q, queued⟩ := wf.runnable_iff.mp (successor joining)
          obtain ⟨other, still⟩ := requeued.runnable joining slot q queued
          exact emptyQueue other q still
    have same : s₁.switchTo resume = { s₁ with running := resume } := by
      simp only [Scheduler.switchTo, none]
    rw [same]
    refine ⟨layout₁,
      { wf := ⟨⟨requeued.rep.queued, requeued.rep.level, requeued.rep.joined, requeued.rep.nodup,
            requeued.rep.apart, requeued.rep.ranked, requeued.rep.bounded⟩,
          requeued.current.symm ▸ requeued.unplaced exiting, ?_, requeued.promotion,
          requeued.ranked, ?_, fun slot q member => requeued.notYielding wf ⟨_, member⟩,
          fun q member => requeued.blocked wf member⟩
        threadID := requeued.threadID
        joinee := requeued.joinee
        status := requeued.status
        id := requeued.id
        exitArg := requeued.exitArg
        next := requeued.next
        died := requeued.died
        alive := requeued.alive
        threadList := requeued.threadList
        threadNum := requeued.threadNum
        nodeNum := requeued.nodeNum
        join := requeued.join
        inserted := requeued.inserted
        left := requeued.left
        woke := requeued.woke
        switch := Or.inl ⟨(idOf₁ _).trans (by rw [requeued.current]), rfl, requeued.ut⟩
        places := Or.inr ⟨⟨s₁, before, none⟩, exiting, requeued.current, fun q => ?_⟩ }⟩
    · show s₁.current < s₁.nodeNum
      rw [requeued.current, requeued.nodeNum]
      exact wf.allocated
    · intro q bound joining
      show s₁.nodes.joinee q ≠ Option.none
      rw [requeued.joinee]
      exact wf.target q (requeued.nodeNum ▸ bound) ((requeued.status_of_joining q).mp joining)
    · rw [requeued.placed q]
      exact ⟨fun either => either.elim (fun placed => placed) fun both => absurd exiting both.2,
        Or.inl⟩
  · -- the next node leaves its run queue; only `current`, `running` and `ut` change with it
    have currentEq : s₂.current = s.current := kept₂.current.trans requeued.current
    obtain ⟨ut, running, same, switch⟩ : ∃ ut running,
        s₁.switchTo resume = { s₂ with
          current := p, running := running, nodes := { s₂.nodes with ut := ut } } ∧
        ((s.idOf p = s.idOf s.current ∧ running = resume ∧ ut = s.nodes.ut) ∨
          (s.idOf p ≠ s.idOf s.current ∧ running = s.nodes.ut p ∧
            ut = Function.update s.nodes.ut s.current resume)) := by
      have idOf₂ : ∀ q, ({ s₂ with current := p } : Scheduler).idOf q = s.idOf q :=
        fun q => (kept₂.idOf q).trans (idOf₁ q)
      have utEq : s₂.nodes.ut = s.nodes.ut := kept₂.ut.trans requeued.ut
      by_cases equal : s.idOf p = s.idOf s.current
      · refine ⟨s.nodes.ut, resume, ?_, Or.inl ⟨equal, rfl, rfl⟩⟩
        simp only [Scheduler.switchTo, some, idOf₂, currentEq, equal, ne_eq, not_true_eq_false,
          if_false, ← utEq]
      · refine ⟨Function.update s.nodes.ut s.current resume, s.nodes.ut p, ?_,
          Or.inr ⟨equal, rfl, rfl⟩⟩
        simp only [Scheduler.switchTo, some, idOf₂, currentEq, equal, ne_eq, not_false_eq_true,
          if_true, utEq]
    rw [same]
    have inQueue : p ∈ layout₁ (.queue (.runQ k)) := by rw [first]; exact List.mem_cons_self
    have join : Function.update layout₁ (.queue (.runQ k)) xs .join = layout₁ .join :=
      Function.update_of_ne (by simp) _ _
    have placed := Rep.placed_of_pop first
    have still : ∀ q, Layout.Placed (Function.update layout₁ (.queue (.runQ k)) xs) q →
        layout₁.Placed q := fun q member => (placed q).mp (Or.inr member)
    refine ⟨Function.update layout₁ (.queue (.runQ k)) xs,
      { wf := ⟨⟨rep₂.queued, rep₂.level, rep₂.joined, rep₂.nodup, rep₂.apart, rep₂.ranked,
            rep₂.bounded⟩, requeued.rep.off_of_pop first, ?_, fun i => ?_, fun q bound => ?_,
          fun q bound joining => ?_, fun slot q member => ?_, fun q member => ?_⟩
        threadID := kept₂.threadID.trans requeued.threadID
        joinee := kept₂.joinee.trans requeued.joinee
        status := kept₂.status.trans requeued.status
        id := (congrArg Threads.id kept₂.threads).trans requeued.id
        exitArg := (congrArg Threads.exitArg kept₂.threads).trans requeued.exitArg
        next := (congrArg Threads.next kept₂.threads).trans requeued.next
        died := fun exiting => by
          show Died s (s.idOf s.current) s₂.threads.isDead
          rw [kept₂.threads]
          exact requeued.died exiting
        alive := fun notExiting =>
          (congrArg Threads.isDead kept₂.threads).trans (requeued.alive notExiting)
        threadList := kept₂.threadList.trans requeued.threadList
        threadNum := kept₂.threadNum.trans requeued.threadNum
        nodeNum := kept₂.nodeNum.trans requeued.nodeNum
        join := fun q member => requeued.join q (join ▸ member)
        inserted := fun joining => join.symm ▸ requeued.inserted joining
        left := fun exiting q member => requeued.left exiting q (join ▸ member)
        woke := fun q member gone => requeued.woke q member (join ▸ gone)
        switch := ?_
        places := Or.inl fun q => (placed q).trans (requeued.placed q) }⟩
    · show p < s₂.nodeNum
      rw [kept₂.nodeNum]
      exact requeued.rep.bounded _ p inQueue
    · rw [Function.update_of_ne (by simp)]
      exact requeued.promotion i
    · show s₂.nodes.priority q < RUN_QUEUE_SIZE
      rw [priority₂]
      exact requeued.ranked q (kept₂.nodeNum ▸ bound)
    · show s₂.nodes.joinee q ≠ none
      have before : s₁.nodes.status q = .joining := kept₂.status ▸ joining
      rw [kept₂.joinee, requeued.joinee]
      exact wf.target q ((kept₂.nodeNum.trans requeued.nodeNum) ▸ bound)
        ((requeued.status_of_joining q).mp before)
    · show s₂.nodes.status q ≠ .yielding
      rw [kept₂.status]
      exact requeued.notYielding wf (still q ⟨_, member⟩)
    · show s₂.nodes.status q = .joining
      rw [kept₂.status]
      exact requeued.blocked wf (join ▸ member)
    · have idOf' : ∀ q, ({ s₂ with
          current := p, running := running, nodes := { s₂.nodes with ut := ut } } :
          Scheduler).idOf q = s.idOf q := fun q => (kept₂.idOf q).trans (idOf₁ q)
      rw [idOf']
      exact switch

end OS2017.Sched
