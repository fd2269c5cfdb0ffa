/-
**What is held at places.**

A place holds a value or nothing. `holdings places held` is all that is held at the places, with
repetitions. Whatever only moves values between places keeps it (`Relocated.holdings_eq`):

* `Relocated.exchange` — two places exchange what they hold;
* `Relocated.move` — a value moves to a place that held nothing, which is an exchange as well;
* `Relocated.refl`, `Relocated.trans` — so that runs of such steps do it too.
-/

import Mathlib.Data.Multiset.Basic
import Mathlib.Data.List.Nodup
import Mathlib.Logic.Equiv.Basic

namespace OS2017.Relocation

variable {P V : Type} {places : List P}

/-- **All that is held**, with repetitions. -/
def holdings (places : List P) (held : P → Option V) : Multiset V := (places.filterMap held : List V)

/-- **What is held has moved between the places.** -/
def Relocated (places : List P) (held held' : P → Option V) : Prop :=
  ∃ moved : Equiv.Perm P, (∀ p, moved p ∈ places ↔ p ∈ places) ∧
    ∀ p ∈ places, held' p = held (moved p)

theorem Relocated.refl (held : P → Option V) : Relocated places held held :=
  ⟨Equiv.refl P, fun _ => Iff.rfl, fun _ _ => rfl⟩

theorem Relocated.trans {held held' held'' : P → Option V} (first : Relocated places held held')
    (second : Relocated places held' held'') : Relocated places held held'' := by
  obtain ⟨moved, stays, same⟩ := first
  obtain ⟨moved', stays', same'⟩ := second
  refine ⟨moved'.trans moved, fun p => ?_, fun p inside => ?_⟩
  · rw [Equiv.trans_apply, stays, stays']
  · rw [same' p inside, same _ ((stays' p).mpr inside), Equiv.trans_apply]

/-- **Nothing is lost and nothing doubled.** -/
theorem Relocated.holdings_eq {held held' : P → Option V} (relocated : Relocated places held held')
    (nodup : places.Nodup) : holdings places held' = holdings places held := by
  obtain ⟨moved, stays, same⟩ := relocated
  have shuffled : (places.map moved).Perm places := by
    refine (List.perm_ext_iff_of_nodup (nodup.map moved.injective) nodup).mpr fun p => ?_
    rw [List.mem_map]
    constructor
    · rintro ⟨q, inside, rfl⟩
      exact (stays q).mpr inside
    · intro inside
      exact ⟨moved.symm p, (stays _).mp (by rwa [Equiv.apply_symm_apply]),
        moved.apply_symm_apply p⟩
  have composed : places.filterMap held' = (places.map moved).filterMap held := by
    rw [List.filterMap_map]
    exact List.filterMap_congr same
  unfold holdings
  rw [composed]
  exact Multiset.coe_eq_coe.mpr (shuffled.filterMap held)

variable [DecidableEq P]

/-- **Two places exchange what they hold.** -/
theorem Relocated.exchange {held held' : P → Option V} {a b : P} (left : a ∈ places)
    (right : b ∈ places) (same : ∀ p, held' p = held (Equiv.swap a b p)) :
    Relocated places held held' := by
  refine ⟨Equiv.swap a b, fun p => ?_, fun p _ => same p⟩
  by_cases atA : p = a
  · rw [atA, Equiv.swap_apply_left]
    exact ⟨fun _ => left, fun _ => right⟩
  · by_cases atB : p = b
    · rw [atB, Equiv.swap_apply_right]
      exact ⟨fun _ => right, fun _ => left⟩
    · rw [Equiv.swap_apply_of_ne_of_ne atA atB]

/-- **A value moves to a place that held nothing.** -/
theorem Relocated.move {held held' : P → Option V} (source target : P) (left : source ∈ places)
    (right : target ∈ places) (vacant : held target = none)
    (arrived : held' target = held source) (gone : held' source = none)
    (others : ∀ p, p ≠ source → p ≠ target → held' p = held p) : Relocated places held held' := by
  refine .exchange left right fun p => ?_
  by_cases atSource : p = source
  · rw [atSource, Equiv.swap_apply_left, gone, vacant]
  · by_cases atTarget : p = target
    · rw [atTarget, Equiv.swap_apply_right, arrived]
    · rw [Equiv.swap_apply_of_ne_of_ne atSource atTarget, others p atSource atTarget]

end OS2017.Relocation
