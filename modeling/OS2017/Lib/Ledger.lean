/-
**Exact accounts of items held by slots.**

Slots hold items, and some items are marked used. The account is *exact* when no item is held twice
and an item is used if and only if it is held. Taking an unused item into an empty slot and giving up
everything a set of slots holds keep it exact.
-/

import Mathlib.Logic.ExistsUnique

namespace OS2017.Ledger

variable {Slot Item : Type}

/-- **Every used item is held by one slot, and every held item is used.** -/
structure Exact (used : Item → Prop) (holds : Slot → Item → Prop) : Prop where
  distinct : ∀ {p q : Slot} {b : Item}, holds p b → holds q b → p = q
  used_iff : ∀ b, used b ↔ ∃ p, holds p b

/-- **Every held item is used, and no item is held twice.** There may be used items that are lost. -/
structure Covered (used : Item → Prop) (holds : Slot → Item → Prop) : Prop where
  distinct : ∀ {p q : Slot} {b : Item}, holds p b → holds q b → p = q
  used : ∀ {p : Slot} {b : Item}, holds p b → used b

namespace Covered

variable {used used' : Item → Prop} {holds holds' : Slot → Item → Prop}

theorem congr (covered : Covered used holds) (same : ∀ b, used' b ↔ used b)
    (same' : ∀ p b, holds' p b ↔ holds p b) : Covered used' holds' where
  distinct := fun held held' => covered.distinct ((same' _ _).mp held) ((same' _ _).mp held')
  used := fun held => (same _).mpr (covered.used ((same' _ _).mp held))

/-- **An unused item is taken.** -/
theorem take (covered : Covered used holds) {p : Slot} {b : Item} (unused : ¬ used b)
    (taken : ∀ c, used' c ↔ used c ∨ c = b)
    (taken' : ∀ q c, holds' q c ↔ holds q c ∨ (q = p ∧ c = b)) : Covered used' holds' where
  distinct := by
    intro q r c held held'
    rcases (taken' q c).mp held with old | ⟨here, item⟩ <;>
      rcases (taken' r c).mp held' with old' | ⟨here', item'⟩
    · exact covered.distinct old old'
    · exact absurd (covered.used (item' ▸ old)) unused
    · exact absurd (covered.used (item ▸ old')) unused
    · exact here.trans here'.symm
  used := by
    intro q c held
    rcases (taken' q c).mp held with old | ⟨_, item⟩
    · exact (taken c).mpr (Or.inl (covered.used old))
    · exact (taken c).mpr (Or.inr item)

end Covered

namespace Exact

variable {used used' : Item → Prop} {holds holds' : Slot → Item → Prop}

theorem covered (exact : Exact used holds) : Covered used holds where
  distinct := exact.distinct
  used := fun held => (exact.used_iff _).mpr ⟨_, held⟩

theorem used_iff_existsUnique (exact : Exact used holds) (b : Item) :
    used b ↔ ∃! p, holds p b := by
  rw [exact.used_iff]
  constructor
  · rintro ⟨p, held⟩
    exact ⟨p, held, fun q held' => exact.distinct held' held⟩
  · rintro ⟨p, held, _⟩
    exact ⟨p, held⟩

theorem congr (exact : Exact used holds) (same : ∀ b, used' b ↔ used b)
    (same' : ∀ p b, holds' p b ↔ holds p b) : Exact used' holds' where
  distinct := fun held held' => exact.distinct ((same' _ _).mp held) ((same' _ _).mp held')
  used_iff := fun b => (same b).trans ((exact.used_iff b).trans
    (exists_congr fun p => (same' p b).symm))

/-- **An unused item is taken.** -/
theorem take (exact : Exact used holds) {p : Slot} {b : Item} (unused : ¬ used b)
    (taken : ∀ c, used' c ↔ used c ∨ c = b)
    (taken' : ∀ q c, holds' q c ↔ holds q c ∨ (q = p ∧ c = b)) : Exact used' holds' where
  distinct := (exact.covered.take unused taken taken').distinct
  used_iff := by
    intro c
    rw [taken, exact.used_iff]
    constructor
    · rintro (⟨q, held⟩ | rfl)
      · exact ⟨q, (taken' q c).mpr (Or.inl held)⟩
      · exact ⟨p, (taken' p c).mpr (Or.inr ⟨rfl, rfl⟩)⟩
    · rintro ⟨q, held⟩
      rcases (taken' q c).mp held with old | ⟨_, rfl⟩
      · exact Or.inl ⟨q, old⟩
      · exact Or.inr rfl

/-- **Some slots give up what they hold.** -/
theorem release (exact : Exact used holds) (gone : Slot → Prop)
    (released : ∀ c, used' c ↔ used c ∧ ¬ ∃ p, gone p ∧ holds p c)
    (released' : ∀ q c, holds' q c ↔ holds q c ∧ ¬ gone q) : Exact used' holds' where
  distinct := fun held held' =>
    exact.distinct ((released' _ _).mp held).1 ((released' _ _).mp held').1
  used_iff := by
    intro c
    rw [released, exact.used_iff]
    constructor
    · rintro ⟨⟨p, held⟩, kept⟩
      exact ⟨p, (released' p c).mpr ⟨held, fun left => kept ⟨p, left, held⟩⟩⟩
    · rintro ⟨p, held⟩
      obtain ⟨old, stays⟩ := (released' p c).mp held
      refine ⟨⟨p, old⟩, ?_⟩
      rintro ⟨q, left, held'⟩
      rw [exact.distinct held' old] at left
      exact stays left

end Exact

end OS2017.Ledger
