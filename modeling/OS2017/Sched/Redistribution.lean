/-
**What `maintenance` does to the levels.**

Of the `n` nodes of level `L`, a share of `n / (L + 1)` goes to each of the levels `1` to `L` and
the rest to level `0`; no node is lost (`maintenance_redistributes`).

The nodes are dealt out by age, the oldest first, but from level `L` *down*: the oldest share stays
where it is and the youngest nodes become the most urgent, the other way round from the comment over
`maintenance`. The older of two nodes ends at least as urgent as the younger only where the share is
`0` or nobody is older (`favours_oldest_iff`).
-/

import Mathlib.Algebra.BigOperators.Group.List.Basic
import OS2017.Sched.Values

namespace OS2017.Sched

open OS2017.Intrusive OS2017.Run OS2017.Dealing

open Scheduler (Event)

/-- The nodes of a level, the oldest first. -/
def byAge (s : Scheduler) (now : Int) (xs : List NodePtr) : List NodePtr :=
  insertAll (s.ageAt now) xs []

theorem byAge_perm (s : Scheduler) (now : Int) (xs : List NodePtr) : (byAge s now xs).Perm xs := by
  have perm := insertAll_perm (s.ageAt now) xs []
  rw [List.append_nil] at perm
  exact perm

/-- **The run queues after `maintenance`.** -/
theorem maintained_runQ (s : Scheduler) (now : Int) (layout : Layout) {k : Nat}
    (inRange : k < RUN_QUEUE_SIZE) :
    maintained s now layout (.queue (.runQ k))
      = (if k = 0 then layout (.queue (.runQ 0)) else [])
        ++ (List.range (RUN_QUEUE_SIZE - 1)).flatMap fun i =>
          Layout.share i (byAge s now (layout (.queue (.runQ (i + 1))))) k := by
  rw [maintained, Layout.dealtAll]
  refine congrArg₂ (· ++ ·) ?_ ?_
  · rw [Layout.collectedAll]
    by_cases zero : k = 0
    · rw [if_neg (by simp [zero]), if_pos zero, zero]
    · have drained : k ∈ (List.range (RUN_QUEUE_SIZE - 1)).map (· + 1) := by
        refine List.mem_map.mpr ⟨k - 1, List.mem_range.mpr ?_, Nat.sub_add_cancel (by omega)⟩
        omega
      rw [if_pos drained, if_neg zero]
  · refine List.flatMap_congr fun i member => ?_
    rw [Layout.collectedAll, if_pos member, byAge]

namespace Layout

/-- The nodes on the run queues. -/
def runQueues (layout : Layout) : List NodePtr :=
  (List.range RUN_QUEUE_SIZE).flatMap fun k => layout (.queue (.runQ k))

/-- The run queues are the most urgent one and the others. -/
theorem runQueues_eq (layout : Layout) :
    layout.runQueues = layout (.queue (.runQ 0))
      ++ (List.range (RUN_QUEUE_SIZE - 1)).flatMap fun i => layout (.queue (.runQ (i + 1))) := by
  rw [runQueues, show RUN_QUEUE_SIZE = RUN_QUEUE_SIZE - 1 + 1 from rfl, List.range_succ_eq_map,
    List.flatMap_cons, List.flatMap_map]
  rfl

/-- The shares of a level together are its nodes. -/
theorem share_perm {i : Nat} (inRange : i < RUN_QUEUE_SIZE - 1) (xs : List NodePtr) :
    ((List.range RUN_QUEUE_SIZE).flatMap (share i xs)).Perm xs := by
  refine dealt_perm List.nodup_range (List.mem_range.mpr (by decide)) fun level member => ?_
  have most := (mem_levelsDown.mp member).2
  exact List.mem_range.mpr (by omega)

/-- How many of the `n` nodes of level `L` go to level `k`. -/
def quota (L n k : Nat) : Nat :=
  if k = 0 then n - L * (n / (L + 1)) else if k ≤ L then n / (L + 1) else 0

theorem length_share (i : Nat) (xs : List NodePtr) (k : Nat) :
    (share i xs k).length = quota (i + 1) xs.length k := by
  have notZero : 0 ∉ levelsDown i := fun member => absurd (mem_levelsDown.mp member).1 (by simp)
  rw [share, length_dealt (levelsDown_nodup i) notZero (share_le i _), length_levelsDown, quota]
  by_cases zero : k = 0
  · rw [if_pos zero, if_pos zero]
  · rw [if_neg zero, if_neg zero]
    refine if_congr ?_ rfl rfl
    rw [mem_levelsDown]
    exact ⟨fun both => both.2, fun most => ⟨Nat.one_le_iff_ne_zero.mpr zero, most⟩⟩

end Layout

/-- **`maintenance` keeps the nodes and redistributes the levels.** -/
structure Redistributed (layout : Layout) (s' : Scheduler) (layout' : Layout) : Prop where
  rep : Rep s' layout'
  same : layout'.runQueues.Perm layout.runQueues
  promotion : ∀ i < RUN_QUEUE_SIZE - 1, layout' (.queue (.promotionQ i)) = []
  first : layout (.queue (.runQ 0)) <+: layout' (.queue (.runQ 0))
  level : ∀ k, ∀ p ∈ layout' (.queue (.runQ k)), s'.nodes.priority p = k
  /-- each old level `L` in shares -/
  shares : ∀ L, 1 ≤ L → L < RUN_QUEUE_SIZE → ∀ k < RUN_QUEUE_SIZE,
    (layout' (.queue (.runQ k))).countP (· ∈ layout (.queue (.runQ L)))
      = Layout.quota L (layout (.queue (.runQ L))).length k

/-- No node is lost. -/
theorem maintained_perm (s : Scheduler) (now : Int) (layout : Layout) :
    (maintained s now layout).runQueues.Perm layout.runQueues := by
  have queues : (maintained s now layout).runQueues
      = (List.range RUN_QUEUE_SIZE).flatMap fun k =>
        (if k = 0 then layout (.queue (.runQ 0)) else [])
          ++ (List.range (RUN_QUEUE_SIZE - 1)).flatMap fun i =>
            Layout.share i (byAge s now (layout (.queue (.runQ (i + 1))))) k :=
    List.flatMap_congr fun k member => maintained_runQ s now layout (List.mem_range.mp member)
  have split := List.flatMap_append_perm (List.range RUN_QUEUE_SIZE)
    (fun k => if k = 0 then layout (.queue (.runQ 0)) else [])
    (fun k => (List.range (RUN_QUEUE_SIZE - 1)).flatMap fun i =>
      Layout.share i (byAge s now (layout (.queue (.runQ (i + 1))))) k)
  rw [flatMap_single List.nodup_range (List.mem_range.mpr (by decide))] at split
  rw [queues, Layout.runQueues_eq]
  refine split.symm.trans (List.Perm.append_left _ ?_)
  -- pile by pile or level by level
  refine (flatMap_swap_perm _ _ _).trans (List.Perm.flatMap_left _ fun i member => ?_)
  exact (Layout.share_perm (List.mem_range.mp member) _).trans (byAge_perm s now _)

/-- Where a node of level `i + 1` goes, and that it comes from there. -/
theorem mem_share {s : Scheduler} {now : Int} {layout : Layout} {i k : Nat} {p : NodePtr}
    (member : p ∈ Layout.share i (byAge s now (layout (.queue (.runQ (i + 1))))) k) :
    p ∈ layout (.queue (.runQ (i + 1))) :=
  (byAge_perm s now _).mem_iff.mp (mem_of_dealt member)

/-- **How many nodes of level `L` each level has.** -/
theorem maintained_shares {s : Scheduler} {layout : Layout} (rep : Rep s layout) (now : Int)
    {L : Nat} (positive : 1 ≤ L) (inRange : L < RUN_QUEUE_SIZE) {k : Nat}
    (level : k < RUN_QUEUE_SIZE) :
    (maintained s now layout (.queue (.runQ k))).countP (· ∈ layout (.queue (.runQ L)))
      = Layout.quota L (layout (.queue (.runQ L))).length k := by
  have other : ∀ {j : Nat} {xs : List NodePtr}, (∀ p ∈ xs, p ∈ layout (.queue (.runQ j))) → j ≠ L →
      xs.countP (· ∈ layout (.queue (.runQ L))) = 0 := by
    intro j xs inside different
    refine List.countP_eq_zero.mpr fun p member found => ?_
    have same := rep.apart p _ _ (inside p member) (of_decide_eq_true found)
    simp only [Place.queue.injEq, Slot.runQ.injEq] at same
    exact different same
  have base : (if k = 0 then layout (.queue (.runQ 0)) else []).countP
      (· ∈ layout (.queue (.runQ L))) = 0 := by
    refine other (j := 0) (fun p member => ?_) (by omega)
    split at member
    · exact member
    · cases member
  set count := fun i =>
    (Layout.share i (byAge s now (layout (.queue (.runQ (i + 1))))) k).countP
      (· ∈ layout (.queue (.runQ L))) with count_eq
  have elsewhere : ∀ i, i ≠ L - 1 → i ∈ List.range (RUN_QUEUE_SIZE - 1) → count i = 0 :=
    fun i different _ => other (fun p member => mem_share member) (by omega)
  have here : count (L - 1) = Layout.quota L (layout (.queue (.runQ L))).length k := by
    have same : L - 1 + 1 = L := Nat.sub_add_cancel positive
    have all : count (L - 1)
        = (Layout.share (L - 1) (byAge s now (layout (.queue (.runQ (L - 1 + 1))))) k).length := by
      refine List.countP_eq_length.mpr fun p member => decide_eq_true ?_
      have inside := mem_share member
      rw [same] at inside
      exact inside
    rw [all, Layout.length_share, (byAge_perm s now _).length_eq, same]
  have once : (List.range (RUN_QUEUE_SIZE - 1)).count (L - 1) = 1 :=
    List.count_eq_one_of_mem List.nodup_range (List.mem_range.mpr (by omega))
  rw [maintained_runQ s now layout level, List.countP_append, base, List.countP_flatMap, Nat.zero_add]
  have sum := List.sum_map_eq_nsmul_single (L - 1) count elsewhere
  rw [once, here, one_nsmul] at sum
  exact sum

/-- **Maintenance redistributes without loss.** -/
theorem maintenance_redistributes {s : Scheduler} {layout : Layout} (rep : Rep s layout) (now : Int)
    (empty : ∀ i < RUN_QUEUE_SIZE - 1, layout (.queue (.promotionQ i)) = [])
    (awake : ∀ k < RUN_QUEUE_SIZE, ∀ p ∈ layout (.queue (.runQ k)), s.nodes.status p ≠ .yielding) :
    ∃ s' layout', s.maintenance now = some s' ∧ Redistributed layout s' layout' := by
  obtain ⟨s', result, moved⟩ := rep.maintenance now empty awake
  refine ⟨s', maintained s now layout, result,
    { rep := moved.rep
      same := maintained_perm s now layout
      promotion := fun i inRange => Rep.maintained_promotion now (empty i inRange)
      first := ?_
      level := moved.rep.ranked
      shares := fun L positive inRange k level => maintained_shares rep now positive inRange level }⟩
  rw [maintained_runQ s now layout (show 0 < RUN_QUEUE_SIZE by decide), if_pos rfl]
  exact List.prefix_append _ _

/-- The main thread and thread `2` use up their time, and thread `3` runs. -/
def demotedRun : List Event := [.create 0 5 .succeeds, .create 1 6 .succeeds, .timer 7, .timer 8]

/-- The main thread and thread `2` then wait at level `1`. -/
theorem exists_demoted :
    ∃ s layout, Wf s layout ∧ layout (.queue (.runQ 1)) = [0, 1] ∧ s.nodes.timeCreated 0 = 0 ∧
      s.nodes.timeCreated 1 = 5 ∧ ((s.maintenance 9).any fun s' =>
        (s'.queues (.runQ 1)).head = some 0 ∧ (s'.queues (.runQ 0)).head = some 1) := by
  have start : Reach LoggedStarted JoinsOrderly (execStep Logged.next) ⟨zeroed, fun _ => none⟩ :=
    .init ⟨zeroed_started, rfl⟩
  obtain ⟨t, reached, found⟩ := start.exists_of_execAll demotedRun
    (fun t => (t.sched.queues (.runQ 1)).head = some 0 ∧ t.sched.nodes.next 0 = some 1 ∧
      t.sched.nodes.next 1 = none ∧ t.sched.nodes.timeCreated 0 = 0 ∧
      t.sched.nodes.timeCreated 1 = 5 ∧ ((t.sched.maintenance 9).any fun s' =>
        (s'.queues (.runQ 1)).head = some 0 ∧ (s'.queues (.runQ 0)).head = some 1)) (by decide +kernel)
  obtain ⟨head, second, last, main, created, after⟩ := of_decide_eq_true found
  obtain ⟨layout, sound⟩ := sound_of_reach reached
  have queued := (sound.wf.rep.queued (.runQ 1)).linked
  rw [head] at queued
  exact ⟨t.sched, layout, sound.wf, queued.unique ⟨rfl, second, last⟩, main, created, after⟩

/-- One of the two nodes of level `1` stays there and one goes to level `0`. -/
theorem maintenance_redistributes_demoted :
    ∃ (s : Scheduler) (layout : Layout) (s' : Scheduler) (layout' : Layout),
      layout (.queue (.runQ 1)) = [0, 1] ∧ s.maintenance 9 = some s' ∧
      Redistributed layout s' layout' := by
  obtain ⟨s, layout, wf, queue, _⟩ := exists_demoted
  obtain ⟨s', layout', result, redistributed⟩ := maintenance_redistributes wf.rep 9
    (fun i _ => wf.promotion i) fun k _ => wf.awake (.runQ k)
  exact ⟨s, layout, s', layout', queue, result, redistributed⟩

/-! ### Who is favoured -/

theorem ageAt_le_iff (s : Scheduler) (now : Int) (p q : NodePtr) :
    s.ageAt now p ≤ s.ageAt now q ↔ s.nodes.timeCreated q ≤ s.nodes.timeCreated p := by
  unfold Scheduler.ageAt
  rw [div_le_div_iff_of_pos_right (by norm_num), Int.cast_le]
  omega

/-- **The oldest first.** -/
theorem byAge_sorted (s : Scheduler) (now : Int) (xs : List NodePtr) :
    (byAge s now xs).Pairwise fun x y => s.nodes.timeCreated x ≤ s.nodes.timeCreated y := by
  have sorted : ∀ (xs sorted : List NodePtr),
      sorted.Pairwise (fun x y => s.ageAt now y ≤ s.ageAt now x) →
      (insertAll (s.ageAt now) xs sorted).Pairwise fun x y => s.ageAt now y ≤ s.ageAt now x := by
    intro xs
    induction xs with
    | nil => exact fun _ sorted => sorted
    | cons x xs ih => exact fun sorted pairwise => ih _ (insertTime_sorted pairwise)
  exact (sorted xs [] List.Pairwise.nil).imp fun older => (ageAt_le_iff s now _ _).mp older

/-- **Maintenance favours the oldest**: of two nodes of one of the levels it drains, the older ends
at least as urgent. -/
def FavoursOldest (s : Scheduler) (layout layout' : Layout) : Prop :=
  ∀ L, 1 ≤ L → L < RUN_QUEUE_SIZE → ∀ x ∈ layout (.queue (.runQ L)),
    ∀ y ∈ layout (.queue (.runQ L)), s.nodes.timeCreated x < s.nodes.timeCreated y →
      ∀ k l, x ∈ layout' (.queue (.runQ k)) → y ∈ layout' (.queue (.runQ l)) → k ≤ l

/-- No level has a share to deal out, or nobody in it is older. -/
def NobodyOlder (s : Scheduler) (layout : Layout) : Prop :=
  ∀ L, 1 ≤ L → L < RUN_QUEUE_SIZE → (layout (.queue (.runQ L))).length ≤ L ∨
    ∀ x ∈ layout (.queue (.runQ L)), ∀ y ∈ layout (.queue (.runQ L)),
      s.nodes.timeCreated x = s.nodes.timeCreated y

/-- A share of level `L` is in the queue of its level. -/
theorem mem_maintained {s : Scheduler} {now : Int} {layout : Layout} {i k : Nat} {p : NodePtr}
    (level : k < RUN_QUEUE_SIZE) (inRange : i < RUN_QUEUE_SIZE - 1)
    (member : p ∈ Layout.share i (byAge s now (layout (.queue (.runQ (i + 1))))) k) :
    p ∈ maintained s now layout (.queue (.runQ k)) := by
  rw [maintained_runQ s now layout level]
  exact List.mem_append_right _ (List.mem_flatMap.mpr ⟨i, List.mem_range.mpr inRange, member⟩)

/-- **The oldest node stays at its level** when there is a share, -/
theorem oldest_stays {s : Scheduler} {now : Int} {layout : Layout} {i : Nat} {x : NodePtr}
    {xs : List NodePtr} (inRange : i < RUN_QUEUE_SIZE - 1)
    (more : i + 1 < (layout (.queue (.runQ (i + 1)))).length)
    (first : byAge s now (layout (.queue (.runQ (i + 1)))) = x :: xs) :
    x ∈ maintained s now layout (.queue (.runQ (i + 1))) := by
  refine mem_maintained (Nat.add_lt_of_lt_sub inRange) inRange ?_
  have length := (byAge_perm s now (layout (.queue (.runQ (i + 1))))).length_eq
  have someShare : 0 < (byAge s now (layout (.queue (.runQ (i + 1))))).length / (i + 2) :=
    Nat.div_pos (by omega) (by omega)
  obtain ⟨n, n_eq⟩ := Nat.exists_eq_succ_of_ne_zero (Nat.pos_iff_ne_zero.mp someShare)
  rw [Layout.share, Layout.levelsDown, List.range_succ_eq_map, List.map_cons, dealt, n_eq, first]
  simp

/-- and the youngest becomes most urgent. -/
theorem youngest_rises {s : Scheduler} {now : Int} {layout : Layout} {i : Nat} {y : NodePtr}
    (inRange : i < RUN_QUEUE_SIZE - 1)
    (last : (byAge s now (layout (.queue (.runQ (i + 1))))).getLast? = some y) :
    y ∈ maintained s now layout (.queue (.runQ 0)) := by
  refine mem_maintained (by decide) inRange ?_
  have notZero : 0 ∉ Layout.levelsDown i := fun member =>
    absurd (Layout.mem_levelsDown.mp member).1 (by simp)
  set sorted := byAge s now (layout (.queue (.runQ (i + 1)))) with sorted_eq
  rw [Layout.share, dealt_zero notZero, Layout.length_levelsDown]
  have nonempty : 0 < sorted.length := List.length_pos_of_mem (List.mem_of_getLast? last)
  have less : (i + 1) * (sorted.length / (i + 2)) < sorted.length := by
    have whole := Nat.div_mul_le_self sorted.length (i + 2)
    rcases Nat.eq_zero_or_pos (sorted.length / (i + 2)) with none | some
    · rw [none]
      omega
    · have split : sorted.length / (i + 2) * (i + 2)
          = (i + 1) * (sorted.length / (i + 2)) + sorted.length / (i + 2) := by ring
      omega
  have kept : (sorted.drop ((i + 1) * (sorted.length / (i + 2)))).getLast? = some y := by
    rw [List.getLast?_drop, if_neg (by omega)]
    exact last
  exact List.mem_of_getLast? kept

/-- **Exactly when maintenance favours the oldest.** -/
theorem favours_oldest_iff {s : Scheduler} {layout : Layout} (rep : Rep s layout) (now : Int)
    (empty : ∀ i < RUN_QUEUE_SIZE - 1, layout (.queue (.promotionQ i)) = [])
    (awake : ∀ k < RUN_QUEUE_SIZE, ∀ p ∈ layout (.queue (.runQ k)), s.nodes.status p ≠ .yielding) :
    ∃ s' layout', s.maintenance now = some s' ∧ Rep s' layout' ∧
      (FavoursOldest s layout layout' ↔ NobodyOlder s layout) := by
  obtain ⟨s', result, moved⟩ := rep.maintenance now empty awake
  refine ⟨s', maintained s now layout, result, moved.rep, fun favours L positive inRange => ?_,
    fun nobody L positive inRange x first y second older k l inK inL => ?_⟩
  · obtain ⟨i, rfl⟩ : ∃ i, L = i + 1 := ⟨L - 1, by omega⟩
    by_cases few : (layout (.queue (.runQ (i + 1)))).length ≤ i + 1
    · exact Or.inl few
    · refine Or.inr ?_
      have bound : i < RUN_QUEUE_SIZE - 1 := by omega
      have perm := byAge_perm s now (layout (.queue (.runQ (i + 1))))
      have sorted := byAge_sorted s now (layout (.queue (.runQ (i + 1))))
      cases shape : byAge s now (layout (.queue (.runQ (i + 1)))) with
      | nil =>
        have length := perm.length_eq
        rw [shape, List.length_nil] at length
        omega
      | cons x xs =>
        obtain ⟨y, last⟩ : ∃ y, (x :: xs).getLast? = some y :=
          ⟨_, List.getLast?_eq_some_getLast (List.cons_ne_nil x xs)⟩
        rw [shape] at perm sorted
        have oldest : ∀ z ∈ layout (.queue (.runQ (i + 1))),
            s.nodes.timeCreated x ≤ s.nodes.timeCreated z := by
          intro z member
          rcases List.mem_cons.mp (perm.mem_iff.mpr member) with rfl | inside
          · exact le_rfl
          · exact (List.pairwise_cons.mp sorted).1 z inside
        have youngest : ∀ z ∈ layout (.queue (.runQ (i + 1))),
            s.nodes.timeCreated z ≤ s.nodes.timeCreated y := by
          intro z member
          obtain ⟨front, split⟩ : ∃ front, x :: xs = front ++ [y] :=
            ⟨_, (List.dropLast_append_getLast? y last).symm⟩
          have inside := perm.mem_iff.mpr member
          rw [split] at sorted inside
          rcases List.mem_append.mp inside with before | single
          · exact (List.pairwise_append.mp sorted).2.2 z before y List.mem_cons_self
          · rw [List.mem_singleton.mp single]
        have xIn := perm.mem_iff.mp (List.mem_cons_self (a := x) (l := xs))
        have yIn := perm.mem_iff.mp (List.mem_of_getLast? last)
        have notOlder : ¬ s.nodes.timeCreated x < s.nodes.timeCreated y := fun older => by
          have level := favours (i + 1) positive inRange x xIn y yIn older (i + 1) 0
            (oldest_stays bound (by omega) shape) (youngest_rises bound (shape ▸ last))
          omega
        intro a inA b inB
        have := oldest a inA
        have := youngest a inA
        have := oldest b inB
        have := youngest b inB
        omega
  · obtain ⟨i, rfl⟩ : ∃ i, L = i + 1 := ⟨L - 1, by omega⟩
    rcases nobody (i + 1) positive inRange with few | same
    · -- there is no share, and `x` goes to level `0`
      have bound : i < RUN_QUEUE_SIZE - 1 := by omega
      have perm := byAge_perm s now (layout (.queue (.runQ (i + 1))))
      have noShare : (byAge s now (layout (.queue (.runQ (i + 1))))).length / (i + 2) = 0 :=
        Nat.div_eq_of_lt (by rw [perm.length_eq]; omega)
      have atZero : x ∈ maintained s now layout (.queue (.runQ 0)) := by
        refine mem_maintained (by decide) bound ?_
        rw [Layout.share, noShare, dealt_nothing, if_pos rfl]
        exact perm.mem_iff.mpr first
      have same := moved.rep.apart x _ _ inK atZero
      simp only [Place.queue.injEq, Slot.runQ.injEq] at same
      omega
    · exact absurd (same x first y second) (ne_of_lt older)

/-- The main thread and thread `2`, which is younger, at level `1`. -/
theorem favours_oldest_iff_demoted :
    ∃ (s : Scheduler) (layout : Layout) (s' : Scheduler) (layout' : Layout),
      layout (.queue (.runQ 1)) = [0, 1] ∧ s.maintenance 9 = some s' ∧ Rep s' layout' ∧
      (FavoursOldest s layout layout' ↔ NobodyOlder s layout) := by
  obtain ⟨s, layout, wf, queue, _⟩ := exists_demoted
  obtain ⟨s', layout', result, rep, exactly⟩ := favours_oldest_iff wf.rep 9
    (fun i _ => wf.promotion i) fun k _ => wf.awake (.runQ k)
  exact ⟨s, layout, s', layout', queue, result, rep, exactly⟩

/-- **The main thread, older than thread `2`, stays at level `1` below it.** -/
theorem oldest_not_favoured :
    ¬ ∀ (s : Scheduler) (layout : Layout) (now : Int), Rep s layout →
      (∀ i < RUN_QUEUE_SIZE - 1, layout (.queue (.promotionQ i)) = []) →
      (∀ k < RUN_QUEUE_SIZE, ∀ p ∈ layout (.queue (.runQ k)), s.nodes.status p ≠ .yielding) →
      ∃ s' layout', s.maintenance now = some s' ∧ Rep s' layout' ∧
        FavoursOldest s layout layout' := by
  intro always
  obtain ⟨s, layout, wf, queue, main, created, after⟩ := exists_demoted
  obtain ⟨s', layout', result, rep, favours⟩ := always s layout 9 wf.rep
    (fun i _ => wf.promotion i) fun k _ => wf.awake (.runQ k)
  rw [result, Option.any_some] at after
  obtain ⟨stays, rises⟩ := of_decide_eq_true after
  have head : ∀ {k p}, (s'.queues (.runQ k)).head = some p → p ∈ layout' (.queue (.runQ k)) := by
    intro k p first
    have queued := (rep.queued (.runQ k)).linked
    rw [first] at queued
    exact (queued.onList_iff p).mp (.here p)
  have level := favours 1 le_rfl (by decide) 0 (by rw [queue]; simp) 1 (by rw [queue]; simp)
    (by rw [main, created]; decide) 1 0 (head stays) (head rises)
  exact absurd level (by decide)

end OS2017.Sched
