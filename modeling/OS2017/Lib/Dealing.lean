/-
**Dealing a list out.**

A list is dealt out in order to numbered piles: `share` records to each of the piles `levels`, and
what is left to pile `0`. `dealt share levels xs k` is what pile `k` gets.

* `length_dealt` — how many that is;
* `dealt_perm` — all piles together are the list, and `flatMap_swap_perm` for many lists;
* `dealt_zero`, `dealt_nothing` — pile `0` gets the end of the list, and all of it when the share is
  `0`.
-/

import Mathlib.Data.List.Perm.Basic
import Mathlib.Data.List.Nodup

namespace OS2017.Dealing

variable {A : Type}

/-- **What pile `k` gets.** -/
def dealt (share : Nat) : List Nat → List A → Nat → List A
  | [], xs, k => if k = 0 then xs else []
  | level :: levels, xs, k =>
    (if k = level then xs.take share else []) ++ dealt share levels (xs.drop share) k

theorem mem_of_dealt {share : Nat} {k : Nat} {x : A} :
    ∀ {levels : List Nat} {xs : List A}, x ∈ dealt share levels xs k → x ∈ xs := by
  intro levels
  induction levels with
  | nil =>
    intro xs member
    unfold dealt at member
    split at member
    · exact member
    · cases member
  | cons level levels ih =>
    intro xs member
    rcases List.mem_append.mp member with taken | rest
    · split at taken
      · exact List.mem_of_mem_take taken
      · cases taken
    · exact List.mem_of_mem_drop (ih rest)

/-- A pile that is not on the list gets nothing. -/
theorem dealt_of_not_mem {share : Nat} {k : Nat} (notZero : k ≠ 0) :
    ∀ {levels : List Nat} {xs : List A}, k ∉ levels → dealt share levels xs k = [] := by
  intro levels
  induction levels with
  | nil =>
    intro xs _
    exact if_neg notZero
  | cons level levels ih =>
    intro xs notMember
    rw [List.mem_cons, not_or] at notMember
    rw [dealt, if_neg notMember.1, ih notMember.2]
    rfl

/-- Pile `0` gets what is left. -/
theorem dealt_zero {share : Nat} :
    ∀ {levels : List Nat} {xs : List A}, 0 ∉ levels →
      dealt share levels xs 0 = xs.drop (levels.length * share) := by
  intro levels
  induction levels with
  | nil =>
    intro xs _
    simp [dealt]
  | cons level levels ih =>
    intro xs notMember
    rw [List.mem_cons, not_or] at notMember
    rw [dealt, if_neg notMember.1, ih notMember.2, List.nil_append, List.drop_drop,
      List.length_cons, Nat.succ_mul, Nat.add_comm]

/-- **How many a pile gets.** -/
theorem length_dealt {share k : Nat} {levels : List Nat} {xs : List A} (nodup : levels.Nodup)
    (notMember : 0 ∉ levels) (enough : levels.length * share ≤ xs.length) :
    (dealt share levels xs k).length = if k = 0 then xs.length - levels.length * share
      else if k ∈ levels then share else 0 := by
  by_cases zero : k = 0
  · rw [if_pos zero, zero, dealt_zero notMember, List.length_drop]
  · rw [if_neg zero]
    induction levels generalizing xs with
    | nil => simp [dealt, zero]
    | cons level levels ih =>
      have distinct := List.nodup_cons.mp nodup
      rw [List.mem_cons, not_or] at notMember
      rw [List.length_cons, Nat.succ_mul] at enough
      by_cases here : k = level
      · subst here
        rw [if_pos List.mem_cons_self, dealt, if_pos rfl, dealt_of_not_mem zero distinct.1,
          List.append_nil, List.length_take]
        omega
      · have rest := @ih (xs.drop share) distinct.2 notMember.2
          (by rw [List.length_drop]; omega)
        rw [dealt, if_neg here, List.nil_append, rest]
        simp [here]

/-- With a share of `0` everything goes to pile `0`. -/
theorem dealt_nothing {k : Nat} :
    ∀ {levels : List Nat} {xs : List A}, dealt 0 levels xs k = if k = 0 then xs else [] := by
  intro levels
  induction levels with
  | nil => exact rfl
  | cons level levels ih =>
    intro xs
    rw [dealt, List.take_zero, List.drop_zero, ih, ite_self, List.nil_append]

/-- One pile among many. -/
theorem flatMap_single {xs : List A} {level : Nat} :
    ∀ {piles : List Nat}, piles.Nodup → level ∈ piles →
      piles.flatMap (fun k => if k = level then xs else []) = xs := by
  intro piles
  induction piles with
  | nil => exact fun _ member => nomatch member
  | cons pile piles ih =>
    intro nodup member
    have distinct := List.nodup_cons.mp nodup
    rw [List.flatMap_cons]
    by_cases here : pile = level
    · subst here
      have none : piles.flatMap (fun k => if k = pile then xs else []) = [] :=
        List.flatMap_eq_nil_iff.mpr fun k inside =>
          if_neg fun same : k = pile => distinct.1 (same ▸ inside)
      rw [if_pos rfl, none, List.append_nil]
    · rw [if_neg here, List.nil_append]
      exact ih distinct.2 ((List.mem_cons.mp member).resolve_left (Ne.symm here))

/-- **Nothing is lost and nothing is dealt twice.** -/
theorem dealt_perm {share : Nat} {piles : List Nat} (nodup : piles.Nodup) (zero : 0 ∈ piles) :
    ∀ {levels : List Nat} {xs : List A}, (∀ level ∈ levels, level ∈ piles) →
      (piles.flatMap (dealt share levels xs)).Perm xs := by
  intro levels
  induction levels with
  | nil =>
    intro xs _
    have single : piles.flatMap (dealt share [] xs) = xs := flatMap_single nodup zero
    rw [single]
  | cons level levels ih =>
    intro xs inside
    have split := List.flatMap_append_perm piles (fun k => if k = level then xs.take share else [])
      (dealt share levels (xs.drop share))
    rw [flatMap_single nodup (inside level List.mem_cons_self)] at split
    have rest := @ih (xs.drop share) fun other member =>
      inside other (List.mem_cons_of_mem _ member)
    have whole := (rest.append_left (xs.take share)).trans
      (List.Perm.of_eq (List.take_append_drop share xs))
    exact split.symm.trans whole

/-- The piles of many lists, pile by pile or list by list. -/
theorem flatMap_swap_perm {B C : Type} (piles : List B) (lists : List C) (pile : C → B → List A) :
    (piles.flatMap fun k => lists.flatMap fun i => pile i k).Perm
      (lists.flatMap fun i => piles.flatMap fun k => pile i k) := by
  induction lists with
  | nil =>
    have none : piles.flatMap (fun _ => ([] : List A)) = [] :=
      List.flatMap_eq_nil_iff.mpr fun _ _ => rfl
    exact List.Perm.of_eq none
  | cons i lists ih =>
    have split := List.flatMap_append_perm piles (fun k => pile i k)
      (fun k => lists.flatMap fun i => pile i k)
    exact split.symm.trans (ih.append_left _)

end OS2017.Dealing
