/-
**A call of `schedule()` on queues that have come apart.**

`maintenance` and the branches of `schedule()` by the operations of `Frayed`: whoever is on a queue
behind a call, or is the next to run, was on a queue before, or is the caller, or waits for the thread
that exits (`Turned`). A caller that joins and finds a node on some run queue is not among them: it
goes to the join list, which no queue leads to (`Turned.parted`).
-/

import OS2017.Sched.Frayed
import OS2017.Sched.Steps

namespace OS2017.Sched

open OS2017.Intrusive

/-! ### Maintenance -/

/-- **Nodes go from queue to queue**, and some queue has one if some queue had. -/
structure Shifts (s : Scheduler) (lists : Lists) (s' : Scheduler) (lists' : Lists) : Prop where
  adds : Adds s lists (fun _ => False) s' lists'
  occupied : (∃ p, lists.Has p) → ∃ p, lists'.Has p

theorem Shifts.refl {s : Scheduler} {lists : Lists} (frayed : Frayed s lists) : Shifts s lists s lists :=
  ⟨.refl frayed, fun has => has⟩

theorem Shifts.trans {s s₁ s' : Scheduler} {lists lists₁ lists' : Lists}
    (first : Shifts s lists s₁ lists₁) (frayed : Frayed s lists)
    (second : Shifts s₁ lists₁ s' lists') : Shifts s lists s' lists' :=
  ⟨(first.adds.trans second.adds).weaken frayed fun _ added => Or.inr (added.elim id id),
    fun has => second.occupied (first.occupied has)⟩

/-- No node of a queue yields. -/
def Awake (s : Scheduler) (lists : Lists) : Prop := ∀ p, lists.Has p → s.nodes.status p ≠ .yielding

theorem Shifts.awake {s s' : Scheduler} {lists lists' : Lists} (shifts : Shifts s lists s' lists')
    (awake : Awake s lists) : Awake s' lists' := fun p has => by
  rw [shifts.adds.kept.status]
  exact awake p ((shifts.adds.members p has).resolve_right id)

theorem Unqueued.of_same {s s' : Scheduler} {lists : Lists} {p : NodePtr}
    (unqueued : Unqueued s lists p) (queues : s'.queues = s.queues) : Unqueued s' lists p :=
  ⟨unqueued.off, fun slot => by
    rw [queues]
    exact unqueued.rear slot⟩

/-- The node popped and inserted by its age is one of those there were. -/
theorem Frayed.collectOne {s s₁ s' : Scheduler} {lists : Lists} {i : Nat} {p : NodePtr} {now : Int}
    (frayed : Frayed s lists) (popped : s.deQ (.runQ (i + 1)) = some (p, s₁))
    (ran : (s₁.age now p).insertByTime (.promotionQ i) p = some s') :
    ∃ lists', Shifts s lists s' lists' ∧
      (lists' (.promotionQ i)).length = (lists (.promotionQ i)).length + 1 ∧
      ∀ j, j ≠ i → lists' (.promotionQ j) = lists (.promotionQ j) := by
  obtain ⟨xs, split, pops, unqueued⟩ := frayed.deQ popped
  have member : p ∈ lists (.runQ (i + 1)) := split ▸ List.mem_cons_self
  have aged : Frayed (s₁.age now p) (Function.update lists (.runQ (i + 1)) xs) :=
    pops.frayed.of_same rfl rfl rfl rfl
  have ages : Adds s lists (fun _ => False) (s₁.age now p)
      (Function.update lists (.runQ (i + 1)) xs) :=
    ⟨aged, pops.kept.trans (by constructor <;> rfl), pops.members,
      fun q found => pops.reached q (found.of_same rfl rfl rfl), pops.rears, pops.ranked⟩
  have inserts := aged.insertByTime (unqueued.of_same rfl)
    (pops.kept.nodeNum ▸ frayed.bounded _ p member : p < s₁.nodeNum) ran
  refine ⟨_, ⟨(ages.trans inserts).weaken frayed fun q added => ?_, fun _ => ⟨p, .promotionQ i, ?_⟩⟩,
    ?_, fun j different => ?_⟩
  · rcases added with impossible | rfl
    · exact impossible.elim
    · exact Or.inl ⟨_, member⟩
  · rw [Function.update_self]
    exact (insertTime_perm _ _ _).mem_iff.mpr List.mem_cons_self
  · rw [Function.update_self, (insertTime_perm _ _ _).length_eq, List.length_cons,
      Function.update_of_ne (by simp)]
  · rw [Function.update_of_ne (by simpa using different), Function.update_of_ne (by simp)]

/-- **The first loop of `maintenance`** for one level: it counts at least what it moves. -/
theorem Frayed.collect (now : Int) (i : Nat) :
    ∀ (fuel : Nat) {s s' : Scheduler} {lists : Lists} {count count' : Nat}, Frayed s lists →
      Scheduler.collect now i fuel s count = some (count', s') →
      ∃ lists', Shifts s lists s' lists' ∧
        (lists' (.promotionQ i)).length + count ≤ (lists (.promotionQ i)).length + count' ∧
        ∀ j, j ≠ i → lists' (.promotionQ j) = lists (.promotionQ j) := by
  intro fuel
  induction fuel with
  | zero =>
    intro s s' lists count count' frayed ran
    unfold Scheduler.collect at ran
    cases popped : s.deQ (.runQ (i + 1)) with
    | none =>
      rw [popped] at ran
      cases ran
      exact ⟨lists, .refl frayed, le_refl _, fun _ _ => rfl⟩
    | some found =>
      rw [popped] at ran
      cases ran
  | succ fuel ih =>
    intro s s' lists count count' frayed ran
    unfold Scheduler.collect at ran
    cases popped : s.deQ (.runQ (i + 1)) with
    | none =>
      rw [popped] at ran
      cases ran
      exact ⟨lists, .refl frayed, le_refl _, fun _ _ => rfl⟩
    | some found =>
      obtain ⟨p, s₁⟩ := found
      rw [popped] at ran
      obtain ⟨s₂, inserted, rest⟩ := Option.bind_eq_some_iff.mp ran
      obtain ⟨lists₂, one, length, others⟩ := frayed.collectOne popped inserted
      obtain ⟨lists', more, counted, others'⟩ := ih one.adds.frayed rest
      refine ⟨lists', one.trans frayed more, by omega, fun j different => ?_⟩
      exact (others' j different).trans (others j different)

/-- **`count` rounds of the second loop** for one level. -/
theorem Frayed.promote (i level : Nat) (inRange : level < RUN_QUEUE_SIZE) :
    ∀ (count : Nat) {s s' : Scheduler} {lists : Lists}, Frayed s lists → Awake s lists →
      Scheduler.promote i level count s = some s' →
      ∃ lists', Shifts s lists s' lists' ∧
        (lists' (.promotionQ i)).length = (lists (.promotionQ i)).length - count ∧
        ∀ j, j ≠ i → lists' (.promotionQ j) = lists (.promotionQ j) := by
  intro count
  induction count with
  | zero =>
    intro s s' lists frayed _ ran
    cases ran
    exact ⟨lists, .refl frayed, rfl, fun _ _ => rfl⟩
  | succ count ih =>
    intro s s' lists frayed awake ran
    unfold Scheduler.promote at ran
    cases popped : s.deQ (.promotionQ i) with
    | none =>
      rw [popped] at ran
      obtain ⟨lists', shifts, length, others⟩ := ih frayed awake ran
      have empty := frayed.deQ_none popped
      refine ⟨lists', shifts, ?_, others⟩
      rw [length, empty, List.length_nil, Nat.zero_sub, Nat.zero_sub]
    | some found =>
      obtain ⟨p, s₁⟩ := found
      rw [popped] at ran
      obtain ⟨s₂, pushed, rest⟩ := Option.bind_eq_some_iff.mp ran
      obtain ⟨xs, split, pops, unqueued⟩ := frayed.deQ popped
      have member : p ∈ lists (.promotionQ i) := split ▸ List.mem_cons_self
      obtain ⟨ys, nonempty, pushes⟩ := pops.frayed.enQ (unqueued.takes _)
        (pops.kept.nodeNum ▸ frayed.bounded _ p member) inRange (fun yields => by
          rw [pops.kept.status] at yields
          exact absurd yields (awake p ⟨_, member⟩)) pushed
      have one : Shifts s lists s₂ (Function.update (Function.update lists (.promotionQ i) xs)
          (.runQ level) ys) := by
        refine ⟨(pops.trans pushes).weaken frayed fun q added => ?_, fun _ => ?_⟩
        · rcases added with impossible | rfl
          · exact impossible.elim
          · exact Or.inl ⟨_, member⟩
        · obtain ⟨q, first⟩ := List.exists_mem_of_ne_nil ys nonempty
          exact ⟨q, .runQ level, by rw [Function.update_self]; exact first⟩
      obtain ⟨lists', more, length, others⟩ := ih one.adds.frayed (one.awake awake) rest
      refine ⟨lists', one.trans frayed more, ?_, fun j different => ?_⟩
      · rw [length, Function.update_of_ne (by simp), Function.update_self, split, List.length_cons]
        omega
      · rw [others j different, Function.update_of_ne (by simp),
          Function.update_of_ne (by simpa using different)]

/-- **The second loop for one level.** -/
theorem Frayed.spread (i arr : Nat) :
    ∀ (levels : List Nat) {s s' : Scheduler} {lists : Lists}, (∀ level ∈ levels, level < RUN_QUEUE_SIZE) →
      Frayed s lists → Awake s lists → Scheduler.spread i arr levels s = some s' →
      ∃ lists', Shifts s lists s' lists' ∧
        (lists' (.promotionQ i)).length + levels.length * (arr / (i + 2)) +
          (arr - arr / (i + 2) * (i + 1)) ≤ max (lists (.promotionQ i)).length
            (levels.length * (arr / (i + 2)) + (arr - arr / (i + 2) * (i + 1))) ∧
        ∀ j, j ≠ i → lists' (.promotionQ j) = lists (.promotionQ j) := by
  intro levels
  induction levels with
  | nil =>
    intro s s' lists _ frayed awake ran
    obtain ⟨lists', shifts, length, others⟩ := frayed.promote i 0 (by decide) _ awake ran
    refine ⟨lists', shifts, ?_, others⟩
    rw [length, List.length_nil, Nat.zero_mul]
    omega
  | cons level levels ih =>
    intro s s' lists inRange frayed awake ran
    obtain ⟨s₁, first, rest⟩ := Option.bind_eq_some_iff.mp ran
    obtain ⟨lists₁, one, length, others⟩ :=
      frayed.promote i level (inRange level List.mem_cons_self) _ awake first
    obtain ⟨lists', more, length', others'⟩ := ih (fun k member =>
      inRange k (List.mem_cons_of_mem _ member)) one.adds.frayed (one.awake awake) rest
    refine ⟨lists', one.trans frayed more, ?_, fun j different =>
      (others' j different).trans (others j different)⟩
    rw [length] at length'
    rw [List.length_cons, Nat.succ_mul]
    omega

/-- **The first part of `maintenance`.** -/
theorem Frayed.collectAll (now : Int) :
    ∀ (levels : List Nat) {s s' : Scheduler} {lists : Lists} {arr : List Nat}, levels.Nodup →
      Frayed s lists → Scheduler.collectAll now levels s = some (arr, s') →
      ∃ lists', Shifts s lists s' lists' ∧ arr.length = levels.length ∧
        (∀ j, j ∉ levels → lists' (.promotionQ j) = lists (.promotionQ j)) ∧
        ∀ pair ∈ levels.zip arr, (lists' (.promotionQ pair.1)).length
          ≤ (lists (.promotionQ pair.1)).length + pair.2 := by
  intro levels
  induction levels with
  | nil =>
    intro s s' lists arr _ frayed ran
    cases ran
    exact ⟨lists, .refl frayed, rfl, fun _ _ => rfl, by simp⟩
  | cons i levels ih =>
    intro s s' lists arr nodup frayed ran
    obtain ⟨outside, nodup'⟩ := List.nodup_cons.mp nodup
    obtain ⟨⟨count, s₁⟩, first, rest⟩ := Option.bind_eq_some_iff.mp ran
    obtain ⟨⟨arr', s₂⟩, collected, same⟩ := Option.map_eq_some_iff.mp rest
    cases same
    obtain ⟨lists₁, one, counted, others⟩ := frayed.collect now i _ first
    obtain ⟨lists', more, lengths, others', each⟩ := ih nodup' one.adds.frayed collected
    refine ⟨lists', one.trans frayed more, by rw [List.length_cons, List.length_cons, lengths],
      fun j notMember => ?_, fun pair member => ?_⟩
    · rw [others' j fun inside => notMember (List.mem_cons_of_mem _ inside),
        others j fun same => notMember (same ▸ List.mem_cons_self)]
    · rcases List.mem_cons.mp member with rfl | inside
      · show (lists' (.promotionQ i)).length ≤ (lists (.promotionQ i)).length + count
        rw [others' i outside]
        omega
      · have apart : pair.1 ≠ i := fun same =>
          outside (same ▸ (List.of_mem_zip inside).1)
        have bound := each pair inside
        rw [others pair.1 apart] at bound
        exact bound

/-- **The second part**, where each count is no less than what is there: it empties the queues. -/
theorem Frayed.spreadAll :
    ∀ (pairs : List (Nat × Nat)) {s s' : Scheduler} {lists : Lists}, (pairs.map Prod.fst).Nodup →
      (∀ pair ∈ pairs, pair.1 < RUN_QUEUE_SIZE - 1) → Frayed s lists → Awake s lists →
      (∀ pair ∈ pairs, (lists (.promotionQ pair.1)).length ≤ pair.2) →
      Scheduler.spreadAll pairs s = some s' →
      ∃ lists', Shifts s lists s' lists' ∧
        (∀ j, j ∉ pairs.map Prod.fst → lists' (.promotionQ j) = lists (.promotionQ j)) ∧
        ∀ pair ∈ pairs, lists' (.promotionQ pair.1) = [] := by
  intro pairs
  induction pairs with
  | nil =>
    intro s s' lists _ _ frayed _ _ ran
    cases ran
    exact ⟨lists, .refl frayed, fun _ _ => rfl, by simp⟩
  | cons pair pairs ih =>
    intro s s' lists nodup inRange frayed awake fits ran
    obtain ⟨i, arr⟩ := pair
    obtain ⟨outside, nodup'⟩ := List.nodup_cons.mp nodup
    obtain ⟨s₁, first, rest⟩ := Option.bind_eq_some_iff.mp ran
    have low : i < RUN_QUEUE_SIZE - 1 := inRange _ List.mem_cons_self
    have inRange' : ∀ level ∈ (List.range (i + 1)).map fun d => i + 1 - d, level < RUN_QUEUE_SIZE := by
      intro level member
      obtain ⟨d, _, rfl⟩ := List.mem_map.mp member
      omega
    obtain ⟨lists₁, one, length, others⟩ := frayed.spread i arr _ inRange' awake first
    have empty₁ : lists₁ (.promotionQ i) = [] := by
      have fits' : (lists (.promotionQ i)).length ≤ arr := fits _ List.mem_cons_self
      have total : (i + 1) * (arr / (i + 2)) ≤ arr :=
        le_trans (Nat.mul_le_mul_right _ (Nat.le_succ _)) (Nat.mul_div_le arr (i + 2))
      rw [List.length_map, List.length_range, Nat.mul_comm (arr / (i + 2))] at length
      exact List.length_eq_zero_iff.mp (by omega)
    have stays : ∀ pair ∈ pairs, lists₁ (.promotionQ pair.1) = lists (.promotionQ pair.1) :=
      fun pair inside => others pair.1 fun same =>
        outside (List.mem_map.mpr ⟨pair, inside, same⟩)
    obtain ⟨lists', more, others', empty⟩ := ih nodup' (fun pair inside =>
      inRange pair (List.mem_cons_of_mem _ inside)) one.adds.frayed (one.awake awake)
      (fun pair inside => by
        rw [stays pair inside]
        exact fits pair (List.mem_cons_of_mem _ inside)) rest
    refine ⟨lists', one.trans frayed more, fun j notMember => ?_, fun pair member => ?_⟩
    · rw [List.map_cons, List.mem_cons, not_or] at notMember
      rw [others' j notMember.2, others j notMember.1]
    · rcases List.mem_cons.mp member with rfl | inside
      · show lists' (.promotionQ i) = []
        rw [others' i outside, empty₁]
      · exact empty pair inside

/-- **`maintenance`** leaves the promotion queues empty. -/
theorem Frayed.maintenance {s s' : Scheduler} {lists : Lists} {now : Int} (frayed : Frayed s lists)
    (settled : lists.Settled) (awake : Awake s lists) (ran : s.maintenance now = some s') :
    ∃ lists', Shifts s lists s' lists' ∧ lists'.Settled := by
  obtain ⟨⟨arr, s₁⟩, collected, rest⟩ := Option.bind_eq_some_iff.mp ran
  obtain ⟨lists₁, first, lengths, others, counted⟩ :=
    frayed.collectAll now _ List.nodup_range collected
  have firsts : ((List.range (RUN_QUEUE_SIZE - 1)).zip arr).map Prod.fst
      = List.range (RUN_QUEUE_SIZE - 1) := List.map_fst_zip (le_of_eq lengths.symm)
  obtain ⟨lists', second, others', empty⟩ := first.adds.frayed.spreadAll _
    (by rw [firsts]; exact List.nodup_range)
    (fun pair member => List.mem_range.mp (List.of_mem_zip member).1) (first.awake awake)
    (fun pair member => by
      have bound := counted pair member
      rw [settled pair.1, List.length_nil, Nat.zero_add] at bound
      exact bound) rest
  refine ⟨lists', first.trans frayed second, fun i => ?_⟩
  by_cases low : i ∈ List.range (RUN_QUEUE_SIZE - 1)
  · rw [← firsts] at low
    obtain ⟨pair, member, rfl⟩ := List.mem_map.mp low
    exact empty pair member
  · rw [others' i (by rw [firsts]; exact low), others i low, settled i]

/-- **The head of `schedule`.** -/
theorem Frayed.tick {s s' : Scheduler} {lists : Lists} {now : Int} (frayed : Frayed s lists)
    (settled : lists.Settled) (awake : Awake s lists) (ran : s.tick now = some s') :
    ∃ lists', Shifts s lists s' lists' ∧ lists'.Settled := by
  have counted : ∀ cycles, Shifts s lists { s with cycles := cycles } lists := fun cycles =>
    ⟨⟨frayed.of_same rfl rfl rfl rfl, by constructor <;> rfl, fun _ => Or.inl,
      fun _ found => Or.inl (found.of_same rfl rfl rfl), fun slot _ isRear => Or.inl ⟨slot, isRear⟩,
      fun ranked => ranked⟩, fun has => has⟩
  by_cases due : s.cycles + 1 > 100
  · simp only [Scheduler.tick, due, if_true] at ran
    obtain ⟨lists', shifts, settled'⟩ :=
      (counted 0).adds.frayed.maintenance settled ((counted 0).awake awake) ran
    exact ⟨lists', (counted 0).trans frayed shifts, settled'⟩
  · simp only [Scheduler.tick, due, if_false] at ran
    cases ran
    exact ⟨lists, counted _, settled⟩

/-! ### The branches on the status -/

/-- **What `schedule()` does to the records**: a yielding thread does so no longer, and the record of
an exiting one is dead. -/
structure Passed (s s' : Scheduler) : Prop where
  threadID : s'.nodes.threadID = s.nodes.threadID
  joinee : s'.nodes.joinee = s.nodes.joinee
  status : s'.nodes.status = if s.nodes.status s.current = .yielding
    then Function.update s.nodes.status s.current .neutral else s.nodes.status
  id : s'.threads.id = s.threads.id
  exitArg : s'.threads.exitArg = s.threads.exitArg
  next : s'.threads.next = s.threads.next
  died : s.nodes.status s.current = .exiting → Died s (s.idOf s.current) s'.threads.isDead
  searched : s.nodes.status s.current = .exiting → s.findThread (s.idOf s.current) ≠ none
  alive : s.nodes.status s.current ≠ .exiting → s'.threads.isDead = s.threads.isDead
  threadList : s'.threadList = s.threadList
  threadNum : s'.threadNum = s.threadNum
  nodeNum : s'.nodeNum = s.nodeNum

theorem Passed.idOf {s s' : Scheduler} (passed : Passed s s') (p : NodePtr) : s'.idOf p = s.idOf p := by
  unfold Scheduler.idOf
  rw [passed.id, passed.threadID]

theorem Kept.passed {s s' : Scheduler} (kept : Kept s s') (awake : s.nodes.status s.current ≠ .yielding)
    (lives : s.nodes.status s.current ≠ .exiting) : Passed s s' where
  threadID := kept.threadID
  joinee := kept.joinee
  status := kept.status.trans (if_neg awake).symm
  id := congrArg Threads.id kept.threads
  exitArg := congrArg Threads.exitArg kept.threads
  next := congrArg Threads.next kept.threads
  died exits := absurd exits lives
  searched exits := absurd exits lives
  alive _ := congrArg Threads.isDead kept.threads
  threadList := kept.threadList
  threadNum := kept.threadNum
  nodeNum := kept.nodeNum

/-- Nodes are moved before it. -/
theorem Passed.of_kept {s s₀ s' : Scheduler} (kept : Kept s s₀) (passed : Passed s₀ s') : Passed s s' := by
  have current : s₀.nodes.status s₀.current = s.nodes.status s.current := by
    rw [kept.status, kept.current]
  have own : s₀.idOf s₀.current = s.idOf s.current := by rw [kept.idOf, kept.current]
  exact
    { threadID := passed.threadID.trans kept.threadID
      joinee := passed.joinee.trans kept.joinee
      status := by rw [passed.status, kept.status, kept.current]
      id := passed.id.trans (congrArg Threads.id kept.threads)
      exitArg := passed.exitArg.trans (congrArg Threads.exitArg kept.threads)
      next := passed.next.trans (congrArg Threads.next kept.threads)
      died := fun exits => own ▸ (passed.died (current.trans exits)).of_kept kept
      searched := fun exits => by
        rw [← own, ← kept.findThread]
        exact passed.searched (current.trans exits)
      alive := fun lives =>
        (passed.alive (current ▸ lives)).trans (congrArg Threads.isDead kept.threads)
      threadList := passed.threadList.trans kept.threadList
      threadNum := passed.threadNum.trans kept.threadNum
      nodeNum := passed.nodeNum.trans kept.nodeNum }

/-- Nodes are moved behind it. -/
theorem Passed.kept {s s₁ s' : Scheduler} (passed : Passed s s₁) (kept : Kept s₁ s') : Passed s s' where
  threadID := kept.threadID.trans passed.threadID
  joinee := kept.joinee.trans passed.joinee
  status := kept.status.trans passed.status
  id := (congrArg Threads.id kept.threads).trans passed.id
  exitArg := (congrArg Threads.exitArg kept.threads).trans passed.exitArg
  next := (congrArg Threads.next kept.threads).trans passed.next
  died exits := by
    rw [kept.threads]
    exact passed.died exits
  searched := passed.searched
  alive lives := (congrArg Threads.isDead kept.threads).trans (passed.alive lives)
  threadList := kept.threadList.trans passed.threadList
  threadNum := kept.threadNum.trans passed.threadNum
  nodeNum := kept.nodeNum.trans passed.nodeNum

/-- The scheduler has the node, or it is `current`. -/
def Present (s : Scheduler) (p : NodePtr) : Prop := p = s.current ∨ Reached s p

/-- The node waits for the thread that exits. -/
def Roused (s : Scheduler) (p : NodePtr) : Prop :=
  s.nodes.status s.current = .exiting ∧ Waits s (s.idOf s.current) p

/-- **What `schedule()` does before it chooses the next node.** -/
structure Rested (s : Scheduler) (lists : Lists) (s' : Scheduler) (lists' : Lists) : Prop where
  frayed : Frayed s' lists'
  settled : lists'.Settled
  ranked : Ranked s'
  passed : Passed s s'
  ut : s'.nodes.ut = s.nodes.ut
  current : s'.current = s.current
  members : ∀ p, lists'.Has p → lists.Has p ∨ p = s.current ∨ Roused s p
  reached : ∀ p, Reached s' p → Present s p
  occupied : s.nodes.status s.current = .joining → (∃ p, lists.Has p) → ∃ p, lists'.Has p
  parted : s.nodes.status s.current = .joining → ¬ lists'.Has s.current

/-- **The state between two calls**: `current` is on no queue, and nobody else yields; the nodes the
scheduler has have been allocated, and have ids of their own. -/
structure Tame (s : Scheduler) (lists : Lists) : Prop where
  frayed : Frayed s lists
  settled : lists.Settled
  ranked : Ranked s
  unqueued : Unqueued s lists s.current
  awake : ∀ p, p ≠ s.current → Reached s p → s.nodes.status p ≠ .yielding
  allocated : ∀ p, Present s p → p < s.nodeNum
  distinct : ∀ p q, Present s p → Present s q → s.idOf p = s.idOf q → p = q

theorem Tame.queued_awake {s : Scheduler} {lists : Lists} (tame : Tame s lists) : Awake s lists :=
  fun p has => tame.awake p (fun same => by
    obtain ⟨slot, member⟩ := has
    exact tame.unqueued.off slot (same ▸ member)) (tame.frayed.reached has)

/-- **`maintenance` keeps it.** -/
theorem Tame.shifts {s s' : Scheduler} {lists lists' : Lists} (tame : Tame s lists)
    (shifts : Shifts s lists s' lists') (settled : lists'.Settled) : Tame s' lists' := by
  have kept := shifts.adds.kept
  have reached : ∀ p, Reached s' p → Reached s p := fun p found =>
    (shifts.adds.reached p found).resolve_right id
  have present : ∀ p, Present s' p → Present s p := fun p either =>
    either.imp (fun same => same.trans kept.current) (reached p)
  refine ⟨shifts.adds.frayed, settled, shifts.adds.ranked tame.ranked, ⟨fun slot member => ?_,
    fun slot isRear => ?_⟩, fun p apart found => ?_, fun p either => ?_, fun p q left right same => ?_⟩
  · rw [kept.current] at member
    obtain ⟨other, before⟩ := (shifts.adds.members _ ⟨slot, member⟩).resolve_right id
    exact tame.unqueued.off other before
  · rw [kept.current] at isRear
    rcases shifts.adds.rears slot _ isRear with ⟨other, before⟩ | ⟨other, before⟩ | impossible
    · exact tame.unqueued.rear other before
    · exact tame.unqueued.off other before
    · exact impossible
  · rw [kept.status]
    exact tame.awake p (kept.current ▸ apart) (reached p found)
  · rw [kept.nodeNum]
    exact tame.allocated p (present p either)
  · rw [kept.idOf, kept.idOf] at same
    exact tame.distinct p q (present p left) (present q right) same

/-- **`current` goes behind a run queue.** -/
theorem Tame.enQ_current {s s' : Scheduler} {lists : Lists} (tame : Tame s lists) {k : Nat}
    (inRange : k < RUN_QUEUE_SIZE)
    (yields : s.nodes.status s.current = .yielding → s.nodes.priority s.current = k)
    (ran : s.enQ (.runQ k) s.current = some s') :
    ∃ lists', Adds s lists (· = s.current) s' lists' ∧ lists'.Settled := by
  obtain ⟨xs, _, adds⟩ := tame.frayed.enQ (tame.unqueued.takes _) (tame.allocated _ (Or.inl rfl))
    inRange yields ran
  refine ⟨_, adds, fun i => ?_⟩
  rw [Function.update_of_ne (by simp)]
  exact tame.settled i

/-- **The branches on the status.** -/
theorem Tame.requeue {s s' : Scheduler} {lists : Lists} (tame : Tame s lists)
    (ran : s.requeue = some s') : ∃ lists', Rested s lists s' lists' := by
  cases status : s.nodes.status s.current with
  | neutral =>
    have inRange : (if s.nodes.priority s.current < RUN_QUEUE_SIZE - 1
        then s.nodes.priority s.current + 1 else s.nodes.priority s.current) < RUN_QUEUE_SIZE := by
      have := tame.ranked s.current (tame.allocated _ (Or.inl rfl))
      split <;> omega
    simp only [Scheduler.requeue, status, Scheduler.demoteNode] at ran
    obtain ⟨lists', adds, settled⟩ := tame.enQ_current inRange (by rw [status]; simp) ran
    exact ⟨lists',
      { frayed := adds.frayed
        settled := settled
        ranked := adds.ranked tame.ranked
        passed := adds.kept.passed (by rw [status]; simp) (by rw [status]; simp)
        ut := adds.kept.ut
        current := adds.kept.current
        members := fun p has => (adds.members p has).imp_right Or.inl
        reached := fun p found => (adds.reached p found).symm
        occupied := fun joining => by
          rw [status] at joining
          cases joining
        parted := fun joining => by
          rw [status] at joining
          cases joining }⟩
  | yielding =>
    simp only [Scheduler.requeue, status] at ran
    obtain ⟨s₁, pushed, rfl⟩ := Option.map_eq_some_iff.mp ran
    obtain ⟨lists', adds, settled⟩ := tame.enQ_current
      (tame.ranked s.current (tame.allocated _ (Or.inl rfl))) (fun _ => rfl) pushed
    have kept := adds.kept
    exact ⟨lists',
      { frayed := adds.frayed.of_same rfl rfl rfl rfl
        settled := settled
        ranked := adds.ranked tame.ranked
        passed :=
          { threadID := kept.threadID
            joinee := kept.joinee
            status := by
              rw [if_pos status]
              show Function.update s₁.nodes.status s.current .neutral = _
              rw [kept.status]
            id := congrArg Threads.id kept.threads
            exitArg := congrArg Threads.exitArg kept.threads
            next := congrArg Threads.next kept.threads
            died := fun exits => by
              rw [status] at exits
              cases exits
            searched := fun exits => by
              rw [status] at exits
              cases exits
            alive := fun _ => congrArg Threads.isDead kept.threads
            threadList := kept.threadList
            threadNum := kept.threadNum
            nodeNum := kept.nodeNum }
        ut := kept.ut
        current := kept.current
        members := fun p has => (adds.members p has).imp_right Or.inl
        reached := fun p found => (adds.reached p (found.of_same rfl rfl rfl)).symm
        occupied := fun joining => by
          rw [status] at joining
          cases joining
        parted := fun joining => by
          rw [status] at joining
          cases joining }⟩
  | exiting =>
    simp only [Scheduler.requeue, status] at ran
    obtain ⟨s₁, died, woken⟩ := Option.bind_eq_some_iff.mp ran
    have searched : s.findThread (s.idOf s.current) ≠ none := fun none => by
      rw [Scheduler.threadDied, none] at died
      cases died
    obtain ⟨isDead, spec, rfl⟩ := threadDied_spec died
    have dies : Passed s { s with threads := { s.threads with isDead := isDead } } :=
      { threadID := rfl
        joinee := rfl
        status := (if_neg (by rw [status]; simp)).symm
        id := rfl
        exitArg := rfl
        next := rfl
        died := fun _ => spec
        searched := fun _ => searched
        alive := fun lives => absurd status lives
        threadList := rfl
        threadNum := rfl
        nodeNum := rfl }
    have back : ∀ p, Reached { s with threads := { s.threads with isDead := isDead } } p →
        Reached s p := fun p found => found.of_same rfl rfl rfl
    have frayed₁ : Frayed { s with threads := { s.threads with isDead := isDead } } lists :=
      tame.frayed.of_same rfl rfl rfl rfl
    obtain ⟨lists', adds, settled⟩ := frayed₁.wakeLoop _ _ tame.settled tame.ranked
      (fun p q left right same => tame.distinct p q (Or.inr (back p left)) (Or.inr (back q right)) same)
      (fun p found => tame.allocated p (Or.inr (back p found))) (fun p => .joinList) woken
    have kept := adds.kept
    exact ⟨lists',
      { frayed := adds.frayed
        settled := settled
        ranked := adds.ranked tame.ranked
        passed := dies.kept kept
        ut := kept.ut
        current := kept.current
        members := fun p has => (adds.members p has).imp_right fun added => Or.inr ⟨status, added.2⟩
        reached := fun p found => Or.inr (back p ((adds.reached p found).elim id fun added => added.1))
        occupied := fun joining => by
          rw [status] at joining
          cases joining
        parted := fun joining => by
          rw [status] at joining
          cases joining }⟩
  | joining =>
    simp only [Scheduler.requeue, status] at ran
    cases ran
    have adds := tame.frayed.insertToList tame.unqueued.off
    exact ⟨lists,
      { frayed := adds.frayed
        settled := tame.settled
        ranked := adds.ranked tame.ranked
        passed := adds.kept.passed (by rw [status]; simp) (by rw [status]; simp)
        ut := rfl
        current := rfl
        members := fun _ => Or.inl
        reached := fun p found => (adds.reached p found).symm
        occupied := fun _ has => has
        parted := fun _ has => has.elim tame.unqueued.off }⟩

/-- **`schedule` before the choice of the next node.** -/
theorem Tame.beforeNext {s s' : Scheduler} {lists : Lists} {now : Int} (tame : Tame s lists)
    (ran : s.beforeNext now = some s') : ∃ lists', Rested s lists s' lists' := by
  obtain ⟨s₀, ticked, requeued⟩ := Option.bind_eq_some_iff.mp ran
  obtain ⟨lists₀, shifts, settled⟩ := tame.frayed.tick tame.settled tame.queued_awake ticked
  obtain ⟨lists', rested⟩ := (tame.shifts shifts settled).requeue requeued
  have kept := shifts.adds.kept
  have status : s₀.nodes.status s₀.current = s.nodes.status s.current := by
    rw [kept.status, kept.current]
  have roused : ∀ p, Roused s₀ p → Roused s p := by
    rintro p ⟨exits, waits⟩
    rw [kept.idOf, kept.current] at waits
    exact ⟨status.symm.trans exits, (kept.waits _ p).mp waits⟩
  refine ⟨lists', rested.frayed, rested.settled, rested.ranked, rested.passed.of_kept kept,
    rested.ut.trans kept.ut, rested.current.trans kept.current, fun p has => ?_, fun p found => ?_,
    fun joining has => rested.occupied (status.trans joining) (shifts.occupied has),
    fun joining => kept.current ▸ rested.parted (status.trans joining)⟩
  · rcases rested.members p has with before | same | waits
    · exact Or.inl ((shifts.adds.members p before).resolve_right id)
    · exact Or.inr (Or.inl (same.trans kept.current))
    · exact Or.inr (Or.inr (roused p waits))
  · exact (rested.reached p found).imp (fun same => same.trans kept.current) fun before =>
      (shifts.adds.reached p before).resolve_right id

/-! ### The next node -/

theorem Frayed.getNextNodeFrom {s : Scheduler} {lists : Lists} (frayed : Frayed s lists) :
    ∀ levels : List Nat, (s.getNextNodeFrom levels = none ∧ ∀ k ∈ levels, lists (.runQ k) = []) ∨
      ∃ p s' lists', s.getNextNodeFrom levels = some (p, s') ∧ lists.Has p ∧
        Adds s lists (fun _ => False) s' lists' ∧ Unqueued s' lists' p ∧
        (lists.Settled → lists'.Settled) := by
  intro levels
  induction levels with
  | nil => exact Or.inl ⟨rfl, by simp⟩
  | cons k levels ih =>
    cases popped : s.deQ (.runQ k) with
    | none =>
      have empty := frayed.deQ_none popped
      simp only [Scheduler.getNextNodeFrom, popped]
      refine ih.imp_left fun empties => ⟨empties.1, fun j member => ?_⟩
      rcases List.mem_cons.mp member with rfl | inside
      · exact empty
      · exact empties.2 j inside
    | some found =>
      obtain ⟨p, s'⟩ := found
      obtain ⟨xs, split, pops, unqueued⟩ := frayed.deQ popped
      refine Or.inr ⟨p, s', _, by simp only [Scheduler.getNextNodeFrom, popped],
        ⟨.runQ k, split ▸ List.mem_cons_self⟩, pops, unqueued, fun settled i => ?_⟩
      rw [Function.update_of_ne (by simp)]
      exact settled i

/-- A node on some queue is on one of the run queues. -/
theorem Frayed.level_lt {s : Scheduler} {lists : Lists} (frayed : Frayed s lists)
    (settled : lists.Settled) (ranked : Ranked s) {slot : Slot} {p : NodePtr}
    (member : p ∈ lists slot) : ∃ k < RUN_QUEUE_SIZE, slot = .runQ k := by
  cases slot with
  | promotionQ i =>
    rw [settled i] at member
    cases member
  | runQ k =>
    have bound := ranked p (frayed.bounded _ p member)
    rw [frayed.ranked k p member] at bound
    exact ⟨k, bound, rfl⟩

/-- **`getNextNode`** finds a node if some queue has one. -/
theorem Frayed.getNextNode {s : Scheduler} {lists : Lists} (frayed : Frayed s lists)
    (settled : lists.Settled) (ranked : Ranked s) :
    (s.getNextNode = none ∧ ∀ slot, lists slot = []) ∨
      ∃ p s' lists', s.getNextNode = some (p, s') ∧ lists.Has p ∧
        Adds s lists (fun _ => False) s' lists' ∧ Unqueued s' lists' p ∧ lists'.Settled := by
  rcases frayed.getNextNodeFrom (List.range RUN_QUEUE_SIZE) with ⟨result, empty⟩ |
    ⟨p, s', lists', result, has, adds, unqueued, settled'⟩
  · refine Or.inl ⟨result, fun slot => List.eq_nil_iff_forall_not_mem.mpr fun p member => ?_⟩
    obtain ⟨k, inRange, rfl⟩ := frayed.level_lt settled ranked member
    rw [empty k (List.mem_range.mpr inRange)] at member
    cases member
  · exact Or.inr ⟨p, s', lists', result, has, adds, unqueued, settled' settled⟩

/-- Some run queue has a node. -/
theorem Frayed.has_of_runnable {s : Scheduler} {lists : Lists} (frayed : Frayed s lists)
    (runnable : SomeRunnable s) : ∃ p, lists.Has p := by
  obtain ⟨k, _, nonempty⟩ := runnable
  have queue : lists (.runQ k) ≠ [] := fun empty =>
    nonempty ((frayed.loose (.runQ k)).head_none_iff.mpr empty)
  obtain ⟨p, member⟩ := List.exists_mem_of_ne_nil _ queue
  exact ⟨p, .runQ k, member⟩

/-! ### `schedule` -/

/-- **Everything a call of `schedule` does** to queues that have come apart. -/
structure Turned (s : Scheduler) (lists : Lists) (resume : Context) (s' : Scheduler) (lists' : Lists) :
    Prop where
  tame : Tame s' lists'
  passed : Passed s s'
  members : ∀ p, p = s'.current ∨ lists'.Has p → lists.Has p ∨ p = s.current ∨ Roused s p
  present : ∀ p, Present s' p → Present s p
  parted : s.nodes.status s.current = .joining → SomeRunnable s →
    s'.current ≠ s.current ∧ ¬ lists'.Has s.current
  /-- control goes to another thread, or back to the caller -/
  switch : (s'.current = s.current ∧ s'.running = resume ∧ s'.nodes.ut = s.nodes.ut) ∨
    (s'.current ≠ s.current ∧ s'.running = s.nodes.ut s'.current ∧
      s'.nodes.ut = Function.update s.nodes.ut s.current resume)

/-- The nodes the scheduler had do not yield behind the call, and have ids of their own. -/
theorem Tame.passed {s s' : Scheduler} {lists lists' : Lists} (tame : Tame s lists)
    (passed : Passed s s') (present : ∀ p, Present s' p → Present s p) (frayed : Frayed s' lists')
    (settled : lists'.Settled) (ranked : Ranked s') (unqueued : Unqueued s' lists' s'.current) :
    Tame s' lists' := by
  refine ⟨frayed, settled, ranked, unqueued, fun p _ found => ?_, fun p either => ?_,
    fun p q left right same => ?_⟩
  · rw [passed.status]
    by_cases yields : s.nodes.status s.current = .yielding
    · rw [if_pos yields]
      by_cases own : p = s.current
      · rw [own, Function.update_self]
        simp
      · rw [Function.update_of_ne own]
        exact tame.awake p own ((present p (Or.inr found)).resolve_left own)
    · rw [if_neg yields]
      by_cases own : p = s.current
      · rw [own]
        exact yields
      · exact tame.awake p own ((present p (Or.inr found)).resolve_left own)
  · rw [passed.nodeNum]
    exact tame.allocated p (present p either)
  · rw [passed.idOf, passed.idOf] at same
    exact tame.distinct p q (present p left) (present q right) same

/-- **`schedule`** keeps the state tame. -/
theorem Tame.schedule {s s' : Scheduler} {lists : Lists} {now : Int} {resume : Context}
    (tame : Tame s lists) (ran : s.schedule now resume = some s') :
    ∃ lists', Turned s lists resume s' lists' := by
  obtain ⟨s₁, before, rfl⟩ := Option.map_eq_some_iff.mp ran
  obtain ⟨lists₁, rested⟩ := tame.beforeNext before
  rcases rested.frayed.getNextNode rested.settled rested.ranked with ⟨none, empty⟩ |
    ⟨p, s₂, lists₂, some, has, adds, unqueued, settled₂⟩
  · -- nothing to run: the caller goes on, and is on no queue
    have same : s₁.switchTo resume = { s₁ with running := resume } := by
      simp only [Scheduler.switchTo, none]
    have nobody : ∀ q, ¬ lists₁.Has q := by
      rintro q ⟨slot, member⟩
      rw [empty slot] at member
      cases member
    have present : ∀ q, Present { s₁ with running := resume } q → Present s q := by
      rintro q (own | found)
      · exact Or.inl (own.trans rested.current)
      · exact rested.reached q (found.of_same rfl rfl rfl)
    have passed : Passed s { s₁ with running := resume } := { rested.passed with }
    rw [same]
    refine ⟨lists₁, tame.passed passed present (rested.frayed.of_same rfl rfl rfl rfl) rested.settled
      rested.ranked ⟨fun slot member => nobody _ ⟨slot, member⟩, fun slot isRear => ?_⟩, passed,
      fun q either => ?_, present, fun joining runnable => ?_, Or.inl ⟨rested.current, rfl, rested.ut⟩⟩
    · have loose := rested.frayed.loose slot
      have isRear' : (s₁.queues slot).rear = Option.some s₁.current := isRear
      rw [loose.ends.mp (loose.head_none_iff.mpr (empty slot))] at isRear'
      cases isRear'
    · exact Or.inr (Or.inl ((either.resolve_right (nobody q)).trans rested.current))
    · obtain ⟨q, has⟩ := rested.occupied joining (tame.frayed.has_of_runnable runnable)
      exact absurd has (nobody q)
  · have kept := adds.kept
    have current : s₂.current = s.current := kept.current.trans rested.current
    have idOf₂ : ∀ q, s₂.idOf q = s.idOf q := fun q => (kept.idOf q).trans (rested.passed.idOf q)
    have ut₂ : s₂.nodes.ut = s.nodes.ut := kept.ut.trans rested.ut
    have reached₂ : ∀ q, Reached s₂ q → Present s q := fun q found =>
      rested.reached q ((adds.reached q found).resolve_right id)
    have next : Present s p := rested.reached p (rested.frayed.reached has)
    obtain ⟨ut, running, same, switch⟩ : ∃ ut running,
        s₁.switchTo resume = { s₂ with
          current := p, running := running, nodes := { s₂.nodes with ut := ut } } ∧
        ((p = s.current ∧ running = resume ∧ ut = s.nodes.ut) ∨
          (p ≠ s.current ∧ running = s.nodes.ut p ∧
            ut = Function.update s.nodes.ut s.current resume)) := by
      have idOf' : ∀ q, ({ s₂ with current := p } : Scheduler).idOf q = s.idOf q := idOf₂
      by_cases equal : p = s.current
      · refine ⟨s.nodes.ut, resume, ?_, Or.inl ⟨equal, rfl, rfl⟩⟩
        simp only [Scheduler.switchTo, some, current, equal, ne_eq, not_true_eq_false, if_false,
          ← ut₂]
      · have other : s.idOf p ≠ s.idOf s.current := fun sameId =>
          equal (tame.distinct _ _ next (Or.inl rfl) sameId)
        refine ⟨Function.update s.nodes.ut s.current resume, s.nodes.ut p, ?_, Or.inr ⟨equal, rfl, rfl⟩⟩
        simp only [Scheduler.switchTo, some, idOf', current, other, ne_eq, not_false_eq_true, if_true,
          ut₂]
    rw [same]
    have passed : Passed s { s₂ with
        current := p, running := running, nodes := { s₂.nodes with ut := ut } } :=
      { rested.passed.kept kept with }
    have present : ∀ q, Present { s₂ with
        current := p, running := running, nodes := { s₂.nodes with ut := ut } } q → Present s q := by
      rintro q (rfl | found)
      · exact next
      · exact reached₂ q (found.of_same rfl rfl rfl)
    have before₁ : ∀ q, q = p ∨ lists₂.Has q → lists₁.Has q := by
      rintro q (rfl | inside)
      · exact has
      · exact (adds.members q inside).resolve_right id
    refine ⟨lists₂, tame.passed passed present (adds.frayed.of_same rfl rfl rfl rfl) settled₂
      (adds.ranked rested.ranked) ⟨unqueued.off, unqueued.rear⟩, passed,
      fun q either => rested.members q (before₁ q either), present, fun joining _ => ?_, switch⟩
    have parted := rested.parted joining
    exact ⟨fun own => parted (before₁ _ (Or.inl own.symm)), fun inside =>
      parted (before₁ _ (Or.inr inside))⟩

end OS2017.Sched
