/-
**Splices of sequences.**

A sequence with some of its items replaced by a list, from a position on. A splice is built item by
item (`splice_concat`), and it agrees with the sequence outside the list.
-/

import Mathlib.Data.List.Basic
import Mathlib.Logic.Function.Basic

namespace OS2017.Splice

variable {β : Type}

/-- **`items` in the place of what is at `start` and behind it.** -/
def splice (old : Nat → β) (start : Nat) (items : List β) (p : Nat) : β :=
  if start ≤ p then (items[p - start]?).getD (old p) else old p

variable {old : Nat → β} {start p : Nat} {items : List β}

@[simp] theorem splice_nil (old : Nat → β) (start p : Nat) : splice old start [] p = old p := by
  unfold splice
  split <;> rfl

theorem splice_before (before : p < start) : splice old start items p = old p :=
  if_neg (Nat.not_le.mpr before)

theorem splice_behind (behind : start + items.length ≤ p) : splice old start items p = old p := by
  unfold splice
  rw [if_pos (by omega), List.getElem?_eq_none (by omega)]
  rfl

/-- Among the new items. -/
theorem splice_inside (lower : start ≤ p) (upper : p - start < items.length) :
    splice old start items p = items[p - start] := by
  unfold splice
  rw [if_pos lower, List.getElem?_eq_getElem upper]
  rfl

theorem splice_congr {old' : Nat → β} (same : old' p = old p) :
    splice old' start items p = splice old start items p := by
  unfold splice
  rw [same]

/-- What was there does not matter among the new items. -/
theorem splice_inside_congr {old' : Nat → β} (lower : start ≤ p)
    (upper : p < start + items.length) :
    splice old' start items p = splice old start items p := by
  rw [splice_inside lower (by omega), splice_inside lower (by omega)]

/-- **One item more.** -/
theorem splice_concat (old : Nat → β) (start : Nat) (items : List β) (item : β) (p : Nat) :
    splice old start (items ++ [item]) p =
      if p = start + items.length then item else splice old start items p := by
  by_cases here : p = start + items.length
  · subst here
    rw [if_pos rfl, splice_inside (by omega) (by simp)]
    simp
  · rw [if_neg here]
    by_cases lower : start ≤ p
    · unfold splice
      rw [if_pos lower, if_pos lower]
      rcases Nat.lt_or_ge (p - start) items.length with inside | behind
      · rw [List.getElem?_append_left inside]
      · rw [List.getElem?_eq_none behind, List.getElem?_eq_none]
        rw [List.length_append, List.length_singleton]
        omega
    · rw [splice_before (by omega), splice_before (by omega)]

/-- **More items behind a position do not show before it.** -/
theorem splice_append (items more : List β) (before : p < start + items.length) :
    splice old start (items ++ more) p = splice old start items p := by
  by_cases lower : start ≤ p
  · rw [splice_inside lower (by rw [List.length_append]; omega), splice_inside lower (by omega),
      List.getElem_append_left]
  · rw [splice_before (by omega), splice_before (by omega)]

end OS2017.Splice
