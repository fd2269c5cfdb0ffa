/-
**A lock with one permit.**

Whoever enters takes the permit, and gives it back when it leaves. The permit can also be put back by
somebody who does not hold it (`Step.forge`): the next one then enters while the holder is still
inside.

* `Covered.step` — each of those lets in one more, and nothing else does;
* `Covered.nonempty` — the permit is never away without an owner.
-/

import Mathlib.Data.Set.Card

namespace OS2017.Permit

variable {T : Type}

/-- **The state**: who is inside, whether the permit is away, and how often it has been forged. -/
@[ext] structure State (T : Type) where
  owners : Set T
  away : Prop
  forged : Nat

/-- What can happen to it. -/
inductive Step : State T → State T → Prop
  | stay (f : State T) : Step f f
  | take (f : State T) (x : T) (free : ¬ f.away) : Step f ⟨insert x f.owners, True, f.forged⟩
  | give (f : State T) (x : T) (owner : x ∈ f.owners) : Step f ⟨f.owners \ {x}, False, f.forged⟩
  | forge (f : State T) (away : f.away) : Step f ⟨f.owners, False, f.forged + 1⟩

/-- **Each owner has the permit or a forged one.** -/
structure Covered (f : State T) : Prop where
  spare : ¬ f.away → f.owners.encard ≤ f.forged
  total : f.owners.encard ≤ f.forged + 1
  nonempty : f.away → f.owners.Nonempty

/-- Nobody is inside. -/
theorem Covered.empty : Covered (⟨∅, False, 0⟩ : State T) := by
  refine ⟨fun _ => ?_, ?_, fun away => away.elim⟩
  · rw [Set.encard_empty]
    exact zero_le
  · rw [Set.encard_empty]
    exact zero_le

/-- **One step keeps it.** -/
theorem Covered.step {f g : State T} (covered : Covered f) (taken : Step f g) : Covered g := by
  cases taken with
  | stay => exact covered
  | take x free =>
    refine ⟨fun home => absurd trivial home, ?_, fun _ => Set.insert_nonempty x f.owners⟩
    calc (insert x f.owners).encard ≤ f.owners.encard + 1 := Set.encard_insert_le _ _
      _ ≤ f.forged + 1 := add_le_add (covered.spare free) le_rfl
  | give x owner =>
    have fewer : (f.owners \ {x}).encard ≤ f.forged := by
      have total := covered.total
      rw [← Set.encard_sdiff_singleton_add_one owner] at total
      exact (ENat.add_le_add_iff_right ENat.one_ne_top).mp total
    exact ⟨fun _ => fewer, fewer.trans le_self_add, fun away => away.elim⟩
  | forge away =>
    have total : f.owners.encard ≤ (f.forged + 1 : Nat) := by
      rw [Nat.cast_succ]
      exact covered.total
    exact ⟨fun _ => total, total.trans le_self_add, fun away => away.elim⟩

end OS2017.Permit
