/-
**A multilevel feedback queue.**

There is a queue for each level `0`, …, `top`, a list of those that wait, each with the level it comes
back to, and the one that runs, with its level. A call of the scheduler may deal the queues anew, puts
away the one that runs (`Leave`), and picks the first of the first level that has one (`schedule`).

* `delay f k x` is what is ahead of `x` in level `k`: the others, each as often as it can be picked
  before it is behind `x`;
* `cost_schedule` — a call after which `x` has still not been picked costs one of these, if the one
  that ran has used up its time or ended;
* `cost_le` — there are at most `top` for each of the others.
-/

import Mathlib.Algebra.BigOperators.Ring.Finset
import Mathlib.Algebra.BigOperators.Intervals
import Mathlib.Algebra.Order.BigOperators.Group.Finset

namespace OS2017.Feedback

variable {A : Type}

/-- **The state.** -/
@[ext] structure State (A : Type) where
  levels : Nat → List A
  waiting : List (A × Nat)
  current : A × Nat

/-- How the one that runs leaves the processor. -/
inductive Leave (A : Type)
  /-- its time is up -/
  | expires
  | yields
  | waits
  /-- it ends, and wakes some of those that wait -/
  | ends (wakes : A → Bool)

namespace State

/-- Behind the queue of a level. -/
def push (f : State A) (k : Nat) (x : A) : State A :=
  { f with levels := Function.update f.levels k (f.levels k ++ [x]) }

/-- Who is woken goes behind the queue of its level, in the order of the list. -/
def wake (f : State A) (wakes : A → Bool) : State A :=
  { f with
    levels := fun k => f.levels k ++
      (f.waiting.filter fun w => wakes w.1 = true ∧ w.2 = k).map Prod.fst
    waiting := f.waiting.filter fun w => ¬ wakes w.1 = true }

/-- The level below, if there is one. -/
def below (top level : Nat) : Nat := if level < top then level + 1 else level

/-- The one that runs is put away. -/
def leave (top : Nat) (f : State A) : Leave A → State A
  | .expires =>
    { f.push (below top f.current.2) f.current.1 with
      current := (f.current.1, below top f.current.2) }
  | .yields => f.push f.current.2 f.current.1
  | .waits => { f with waiting := f.current :: f.waiting }
  | .ends wakes => f.wake wakes

/-- The first of a level, if it has one, runs. -/
def take (f : State A) (k : Nat) : Option (State A) :=
  match f.levels k with
  | [] => none
  | x :: xs => some { f with levels := Function.update f.levels k xs, current := (x, k) }

/-- The first of the first level that has one runs. -/
def pick (top : Nat) (f : State A) : Option (State A) := (List.range (top + 1)).findSome? f.take

/-- The queues are dealt anew. -/
def redeal (f : State A) (deal : (Nat → List A) → Nat → List A) : State A :=
  { f with levels := deal f.levels }

/-- **A call of the scheduler.** With nobody to pick, the one that ran goes on. -/
def schedule (top : Nat) (deal : (Nat → List A) → Nat → List A) (how : Leave A) (f : State A) :
    State A :=
  let g := (f.redeal deal).leave top how
  (g.pick top).getD g

/-! ### Queues -/

@[simp] theorem levels_push_self (f : State A) (k : Nat) (x : A) :
    (f.push k x).levels k = f.levels k ++ [x] := Function.update_self ..

theorem levels_push_of_ne (f : State A) {j k : Nat} (other : k ≠ j) (x : A) :
    (f.push j x).levels k = f.levels k := Function.update_of_ne other ..

theorem mem_push {f : State A} {k : Nat} {x : A} (member : x ∈ f.levels k) (j : Nat) (y : A) :
    x ∈ (f.push j y).levels k := by
  by_cases here : k = j
  · subst here
    rw [levels_push_self]
    exact List.mem_append_left _ member
  · rw [levels_push_of_ne f here]
    exact member

/-! ### Picking -/

theorem take_some {f g : State A} {k : Nat} (taken : f.take k = some g) :
    ∃ x xs, f.levels k = x :: xs ∧
      g = { f with levels := Function.update f.levels k xs, current := (x, k) } := by
  unfold take at taken
  cases level : f.levels k with
  | nil =>
    rw [level] at taken
    cases taken
  | cons x xs =>
    rw [level] at taken
    exact ⟨x, xs, rfl, (Option.some.inj taken).symm⟩

theorem take_none {f : State A} {k : Nat} : f.take k = none ↔ f.levels k = [] := by
  unfold take
  cases f.levels k <;> simp

/-- **The first of the first level that has one.** -/
theorem pick_some {top : Nat} {f g : State A} (picked : f.pick top = some g) :
    ∃ k ≤ top, (∀ j < k, f.levels j = []) ∧ ∃ x xs, f.levels k = x :: xs ∧
      g = { f with levels := Function.update f.levels k xs, current := (x, k) } := by
  obtain ⟨before, k, after, split, taken, passed⟩ := List.findSome?_eq_some_iff.mp picked
  have position : before.length = k := by
    have here := congrArg (fun xs => xs[before.length]?) split
    simp only [List.getElem?_append_right (Nat.le_refl _), Nat.sub_self,
      List.getElem?_cons_zero] at here
    exact (List.getElem_range _).symm.trans (List.getElem?_eq_some_iff.mp here).2
  have front : before = List.range k := by
    have same := congrArg (List.take before.length) split
    rw [List.take_left, List.take_range] at same
    rw [← same, position, Nat.min_eq_left]
    have bound := congrArg List.length split
    simp only [List.length_range, List.length_append, List.length_cons] at bound
    omega
  have inside : k ∈ List.range (top + 1) := by
    rw [split]
    simp
  refine ⟨k, Nat.le_of_lt_succ (List.mem_range.mp inside), fun j below => ?_, take_some taken⟩
  refine take_none.mp (passed j ?_)
  rw [front]
  exact List.mem_range.mpr below

theorem pick_none {top : Nat} {f : State A} :
    f.pick top = none ↔ ∀ k ≤ top, f.levels k = [] := by
  unfold pick
  rw [List.findSome?_eq_none_iff]
  constructor
  · exact fun nothing k below => take_none.mp (nothing k (List.mem_range.mpr (Nat.lt_succ_of_le below)))
  · exact fun empty k member => take_none.mpr (empty k (Nat.le_of_lt_succ (List.mem_range.mp member)))

/-! ### What is ahead -/

/-- A weighted sum over the levels, with one level longer. -/
theorem sum_indicator (k j : Nat) :
    ∑ i ∈ Finset.range k, (k - i) * (if i = j then 1 else 0) = k - j := by
  by_cases below : j < k
  · rw [Finset.sum_eq_single_of_mem j (Finset.mem_range.mpr below)]
    · simp
    · intro i _ other
      simp [other]
  · rw [Finset.sum_eq_zero]
    · omega
    · intro i member
      have := Finset.mem_range.mp member
      rw [if_neg (by omega), Nat.mul_zero]

/-- Those that are woken and those that are not. -/
theorem sum_woken (wakes : A → Bool) (k : Nat) (waiting : List (A × Nat)) :
    ∑ j ∈ Finset.range k,
        (k - j) * (waiting.filter fun w => wakes w.1 = true ∧ w.2 = j).length
      + ((waiting.filter fun w => ¬ wakes w.1 = true).map fun w => k - w.2).sum
      = (waiting.map fun w => k - w.2).sum := by
  induction waiting with
  | nil => simp
  | cons w waiting ih =>
    rw [List.map_cons, List.sum_cons, ← ih]
    by_cases woken : wakes w.1 = true
    · have lengths : ∀ j, ((w :: waiting).filter fun w => wakes w.1 = true ∧ w.2 = j).length
          = (waiting.filter fun w => wakes w.1 = true ∧ w.2 = j).length
            + if j = w.2 then 1 else 0 := by
        intro j
        by_cases here : w.2 = j
        · rw [List.filter_cons_of_pos (by simp [woken, here]), List.length_cons, if_pos here.symm]
        · rw [List.filter_cons_of_neg (by simp [here]), if_neg (Ne.symm here), Nat.add_zero]
      simp only [lengths, Nat.mul_add, Finset.sum_add_distrib, sum_indicator]
      rw [List.filter_cons_of_neg (by simp [woken])]
      omega
    · have lengths : ∀ j, ((w :: waiting).filter fun w => wakes w.1 = true ∧ w.2 = j).length
          = (waiting.filter fun w => wakes w.1 = true ∧ w.2 = j).length := by
        intro j
        rw [List.filter_cons_of_neg (by simp [woken])]
      simp only [lengths]
      rw [List.filter_cons_of_pos (by simp [woken]), List.map_cons, List.sum_cons]
      omega

section Delay

variable [DecidableEq A]

/-- **What is ahead of `x` in level `k`.** -/
def delay (f : State A) (k : Nat) (x : A) : Nat :=
  ∑ j ∈ Finset.range k, (k - j) * (f.levels j).length + (f.levels k).idxOf x
    + (f.waiting.map fun w => k - w.2).sum

/-- How often one of a level is behind, counted from the turn it has. -/
def turns (k level : Nat) : Nat := if level = k then 1 else k - level

/-- The same with the one that runs. -/
def cost (f : State A) (k : Nat) (x : A) : Nat := f.delay k x + turns k f.current.2

variable {f : State A} {k top : Nat} {x : A}

/-- **One more in a level.** Behind `x` it does not count. -/
theorem delay_push (member : x ∈ f.levels k) (j : Nat) (y : A) :
    (f.push j y).delay k x = f.delay k x + (k - j) := by
  have index : ((f.push j y).levels k).idxOf x = (f.levels k).idxOf x := by
    by_cases here : k = j
    · subst here
      rw [levels_push_self, List.idxOf_append_of_mem member]
    · rw [levels_push_of_ne f here]
  have lengths : ∀ i, ((f.push j y).levels i).length = (f.levels i).length + if i = j then 1 else 0 := by
    intro i
    by_cases here : i = j
    · subst here
      rw [levels_push_self, List.length_append, if_pos rfl, List.length_singleton]
    · rw [levels_push_of_ne f here, if_neg here, Nat.add_zero]
  unfold delay
  simp only [index, lengths, Nat.mul_add, Finset.sum_add_distrib, sum_indicator]
  show _ + _ + (f.waiting.map fun w => k - w.2).sum = _
  omega

/-- **Waking costs nothing**: who waits counts already. -/
theorem delay_wake (member : x ∈ f.levels k) (wakes : A → Bool) :
    (f.wake wakes).delay k x = f.delay k x := by
  have index : ((f.wake wakes).levels k).idxOf x = (f.levels k).idxOf x :=
    List.idxOf_append_of_mem member
  have total := sum_woken wakes k f.waiting
  unfold delay
  rw [index]
  simp only [wake, List.length_append, List.length_map, Nat.mul_add, Finset.sum_add_distrib]
  omega

/-- **The one that runs is put away**, at the end of its time or for good. -/
theorem delay_leave (member : x ∈ f.levels k) (below : k ≤ top) {how : Leave A}
    (busy : how = .expires ∨ ∃ wakes, how = .ends wakes) :
    (f.leave top how).delay k x + (if f.current.2 ≤ k then 1 else 0) ≤ f.cost k x ∧
      x ∈ (f.leave top how).levels k := by
  unfold cost turns
  rcases busy with rfl | ⟨wakes, rfl⟩
  · refine ⟨?_, mem_push member _ _⟩
    show (f.push (State.below top f.current.2) f.current.1).delay k x + _ ≤ _
    rw [delay_push member]
    unfold State.below
    split <;> split <;> split <;> omega
  · refine ⟨?_, List.mem_append_left _ member⟩
    unfold leave
    rw [delay_wake member]
    split <;> split <;> omega

/-- **Somebody else is picked**: one of those ahead. -/
theorem cost_pick (member : x ∈ f.levels k) (below : k ≤ top) :
    ∃ g, f.pick top = some g ∧ g.current.2 ≤ k ∧
      (g.current.1 ≠ x → g.cost k x = f.delay k x ∧ x ∈ g.levels k) := by
  cases picked : f.pick top with
  | none =>
    rw [pick_none.mp picked k below] at member
    cases member
  | some g =>
    obtain ⟨j, _, empty, y, ys, first, rfl⟩ := pick_some picked
    have before : j ≤ k := by
      by_contra behind
      rw [empty k (by omega)] at member
      cases member
    refine ⟨_, rfl, before, fun other => ?_⟩
    have other : y ≠ x := other
    rcases Nat.eq_or_lt_of_le before with rfl | ahead
    · rw [first] at member
      have inside : x ∈ ys := (List.mem_cons.mp member).resolve_left (Ne.symm other)
      have sums : ∑ i ∈ Finset.range j, (j - i) * (Function.update f.levels j ys i).length
          = ∑ i ∈ Finset.range j, (j - i) * (f.levels i).length :=
        Finset.sum_congr rfl fun i here => by
          rw [Function.update_of_ne (ne_of_lt (Finset.mem_range.mp here))]
      refine ⟨?_, ?_⟩
      · simp only [cost, delay, turns, sums, first, Function.update_self, if_true]
        rw [List.idxOf_cons_ne _ other]
        omega
      · show x ∈ Function.update f.levels j ys j
        rw [Function.update_self]
        exact inside
    · have sums : ∑ i ∈ Finset.range k, (k - i) * (f.levels i).length
          = ∑ i ∈ Finset.range k, (k - i) * (Function.update f.levels j ys i).length + (k - j) := by
        rw [← sum_indicator k j, ← Finset.sum_add_distrib]
        refine Finset.sum_congr rfl fun i _ => ?_
        by_cases here : i = j
        · rw [here, Function.update_self, first, List.length_cons, if_pos rfl, Nat.mul_add]
        · rw [Function.update_of_ne here, if_neg here, Nat.mul_zero, Nat.add_zero]
      have apart : k ≠ j := by omega
      refine ⟨?_, ?_⟩
      · simp only [cost, delay, turns, sums]
        rw [Function.update_of_ne apart, if_neg (by omega)]
        omega
      · show x ∈ Function.update f.levels j ys k
        rw [Function.update_of_ne apart]
        exact member

/-- **What a call costs**, with the queues as they are. -/
theorem cost_schedule (member : x ∈ f.levels k) (below : k ≤ top) {how : Leave A}
    (busy : how = .expires ∨ ∃ wakes, how = .ends wakes) :
    (f.schedule top id how).current.2 ≤ k ∧
      ((f.schedule top id how).current.1 ≠ x →
        (f.schedule top id how).cost k x + (if f.current.2 ≤ k then 1 else 0) ≤ f.cost k x ∧
          x ∈ (f.schedule top id how).levels k) := by
  obtain ⟨paid, still⟩ := delay_leave member below busy
  obtain ⟨g, picked, level, others⟩ := cost_pick still below
  have same : f.schedule top id how = g := by
    have whole : (f.redeal id) = f := rfl
    simp only [schedule, whole, picked, Option.getD_some]
  rw [same]
  refine ⟨level, fun other => ?_⟩
  obtain ⟨costs, inside⟩ := others other
  rw [costs]
  exact ⟨paid, inside⟩

/-- All there are. -/
def population (top : Nat) (f : State A) : Nat :=
  ∑ j ∈ Finset.range (top + 1), (f.levels j).length + f.waiting.length + 1

/-- **At most `top` for each of the others.** -/
theorem cost_le (member : x ∈ f.levels k) (below : k ≤ top) (levels : 0 < top) :
    f.cost k x ≤ top * (f.population top - 1) := by
  have index : (f.levels k).idxOf x + 1 ≤ (f.levels k).length := List.idxOf_lt_length_of_mem member
  have ahead : ∑ j ∈ Finset.range k, (k - j) * (f.levels j).length
      ≤ top * ∑ j ∈ Finset.range k, (f.levels j).length := by
    rw [Finset.mul_sum]
    exact Finset.sum_le_sum fun j _ => Nat.mul_le_mul_right _ (by omega)
  have waiting : (f.waiting.map fun w => k - w.2).sum ≤ top * f.waiting.length := by
    have bound := List.sum_le_card_nsmul (f.waiting.map fun w => k - w.2) top fun n inside => by
      obtain ⟨w, _, rfl⟩ := List.mem_map.mp inside
      omega
    rw [List.length_map, nsmul_eq_mul, Nat.mul_comm] at bound
    exact bound
  have own : turns k f.current.2 ≤ top := by
    unfold turns
    split <;> omega
  have part : ∑ j ∈ Finset.range k, (f.levels j).length + (f.levels k).length
      ≤ ∑ j ∈ Finset.range (top + 1), (f.levels j).length := by
    rw [← Finset.sum_range_succ]
    exact Finset.sum_le_sum_of_subset (Finset.range_mono (by omega))
  have single : (f.levels k).idxOf x ≤ top * (f.levels k).idxOf x := Nat.le_mul_of_pos_left _ levels
  have whole : top * (∑ j ∈ Finset.range k, (f.levels j).length + (f.levels k).idxOf x
      + f.waiting.length + 1) ≤ top * (f.population top - 1) := by
    refine Nat.mul_le_mul_left _ ?_
    unfold population
    omega
  refine Nat.le_trans ?_ whole
  simp only [Nat.mul_add]
  unfold cost delay
  omega

end Delay

end State

end OS2017.Feedback
