/-
**The labels of the page tables.**

An entry of `pages` or `diskPages` is at a place, a frame or a slot of the swap file. `Labelled` is
what the labels say between two library calls: each page of a live thread has exactly one entry in
use, and no free entry carries a live thread's id. Two changes keep it: a permutation of the
entries (`Labelled.permute`), which is all that faults and swaps do, and a new page in a free entry
(`Labelled.fill`).
-/

import Mathlib.Logic.Equiv.Basic
import Mathlib.Data.Fintype.Card
import OS2017.Paging.Model

namespace OS2017.Paging

open OS2017.Bytes OS2017.Heap OS2017.BitField

/-! ### Entry fields -/

section Fields

variable (w v : BitVec 32)

theorem getPagePgID_eq : getPagePgID w = getField 16 16 w := rfl

theorem getPageThID_eq : getPageThID w = getField 8 8 w := rfl

theorem getPageIsF_eq : getPageIsF w = getField 0 8 w :=
  congrArg (· &&& 0x000000FF#32) (BitVec.ushiftRight_zero w).symm

theorem setPagePgID_eq : setPagePgID w v = setField 16 16 w v := BitVec.or_comm _ _

theorem setPageThID_eq : setPageThID w v = setField 8 8 w v := BitVec.or_comm _ _

theorem setPageIsF_eq : setPageIsF w v = setField 0 8 w v := by
  unfold setPageIsF setField
  rw [BitVec.shiftLeft_zero, BitVec.shiftLeft_zero]
  rfl

variable {w v}

theorem getPageIsF_setPageIsF (fits : v.toNat < 2 ^ 8) : getPageIsF (setPageIsF w v) = v := by
  rw [getPageIsF_eq, setPageIsF_eq, getField_setField w fits (by decide)]

theorem getPageThID_setPageIsF (fits : v.toNat < 2 ^ 8) :
    getPageThID (setPageIsF w v) = getPageThID w := by
  rw [getPageThID_eq, setPageIsF_eq, getField_setField_of_apart w fits (by decide) (by decide),
    getPageThID_eq]

theorem getPagePgID_setPageIsF (fits : v.toNat < 2 ^ 8) :
    getPagePgID (setPageIsF w v) = getPagePgID w := by
  rw [getPagePgID_eq, setPageIsF_eq, getField_setField_of_apart w fits (by decide) (by decide),
    getPagePgID_eq]

theorem getPageThID_setPageThID (fits : v.toNat < 2 ^ 8) : getPageThID (setPageThID w v) = v := by
  rw [getPageThID_eq, setPageThID_eq, getField_setField w fits (by decide)]

theorem getPagePgID_setPageThID (fits : v.toNat < 2 ^ 8) :
    getPagePgID (setPageThID w v) = getPagePgID w := by
  rw [getPagePgID_eq, setPageThID_eq, getField_setField_of_apart w fits (by decide) (by decide),
    getPagePgID_eq]

theorem getPagePgID_setPagePgID (fits : v.toNat < 2 ^ 16) :
    getPagePgID (setPagePgID w v) = v := by
  rw [getPagePgID_eq, setPagePgID_eq, getField_setField w fits (by decide)]

end Fields

/-- The entry `initializePage` makes for the page `page` of the thread `thread`. -/
def newEntry (pg : BitVec 32) (thread page : Nat) : BitVec 32 :=
  setPageIsF (setPageThID (setPagePgID pg (BitVec.ofNat 32 page)) (BitVec.ofNat 32 thread)) 0

theorem newEntry_isF (pg : BitVec 32) (thread page : Nat) :
    getPageIsF (newEntry pg thread page) = 0 := getPageIsF_setPageIsF (by decide)

theorem newEntry_thID (pg : BitVec 32) {thread : Nat} (page : Nat) (small : thread < 256) :
    (getPageThID (newEntry pg thread page)).toNat = thread := by
  have value : (BitVec.ofNat 32 thread).toNat = thread := by
    rw [BitVec.toNat_ofNat]
    exact Nat.mod_eq_of_lt (by omega)
  unfold newEntry
  rw [getPageThID_setPageIsF (by decide), getPageThID_setPageThID (by omega), value]

theorem newEntry_pgID (pg : BitVec 32) {thread page : Nat} (small : thread < 256)
    (fits : page < 65536) : (getPagePgID (newEntry pg thread page)).toNat = page := by
  have threadValue : (BitVec.ofNat 32 thread).toNat = thread := by
    rw [BitVec.toNat_ofNat]
    exact Nat.mod_eq_of_lt (by omega)
  have pageValue : (BitVec.ofNat 32 page).toNat = page := by
    rw [BitVec.toNat_ofNat]
    exact Nat.mod_eq_of_lt (by omega)
  unfold newEntry
  rw [getPagePgID_setPageIsF (by decide), getPagePgID_setPageThID (by omega),
    getPagePgID_setPagePgID (by omega), pageValue]

/-! ### Places -/

/-- The place is in its table. -/
def Place.Valid : Place → Prop
  | .frame i => i < USER_PAGES
  | .slot i => i < DISK_PAGES

/-- The places of both tables in a row. -/
def Place.index : Place → Nat
  | .frame i => i
  | .slot i => USER_PAGES + i

theorem Place.index_lt {place : Place} (inside : place.Valid) :
    place.index < USER_PAGES + DISK_PAGES := by
  cases place with
  | frame i => exact lt_of_lt_of_le inside (Nat.le_add_right _ _)
  | slot i => exact Nat.add_lt_add_left inside _

theorem Place.index_inj {place place' : Place} (inside : place.Valid) (inside' : place'.Valid)
    (same : place.index = place'.index) : place = place' := by
  cases place with
  | frame i =>
    cases place' with
    | frame j => exact congrArg Place.frame same
    | slot j =>
      simp only [Place.Valid, Place.index] at inside same
      omega
  | slot i =>
    cases place' with
    | frame j =>
      simp only [Place.Valid, Place.index] at inside' same
      omega
    | slot j => exact congrArg Place.slot (Nat.add_left_cancel same)

/-- The entry at a place. -/
def Machine.entry (m : Machine) : Place → BitVec 32
  | .frame i => m.pages i
  | .slot i => m.diskPages i

/-- The entry is in use, for the page `page` of the thread `thread`. -/
structure Labels (pg : BitVec 32) (thread page : Nat) : Prop where
  used : getPageIsF pg = 0
  thID : (getPageThID pg).toNat = thread
  pgID : (getPagePgID pg).toNat = page

/-- **The tables between two calls**, for the threads that are live. -/
structure Labelled (live : Nat → Bool) (threadNum : Nat) (pageNum : Nat → Nat)
    (entry : Place → BitVec 32) : Prop where
  exists_of_lt : ∀ t, live t = true → ∀ k < pageNum t, ∃ place, place.Valid ∧ Labels (entry place) t k
  unique : ∀ t, live t = true → ∀ k place place', place.Valid → place'.Valid →
    Labels (entry place) t k → Labels (entry place') t k → place = place'
  below : ∀ t, live t = true → ∀ k place, place.Valid → Labels (entry place) t k → k < pageNum t
  stale : ∀ place, place.Valid → getPageIsF (entry place) = 1 →
    ∀ t, live t = true → (getPageThID (entry place)).toNat ≠ t
  flags : ∀ place, place.Valid → getPageIsF (entry place) = 0 ∨ getPageIsF (entry place) = 1
  created : ∀ place, place.Valid → (getPageThID (entry place)).toNat < threadNum
  ids : ∀ t, live t = true → 0 < t ∧ t < threadNum
  small : threadNum ≤ 256

namespace Labelled

variable {live : Nat → Bool} {threadNum : Nat} {pageNum : Nat → Nat} {entry : Place → BitVec 32}

/-- **A permutation of the entries keeps the labels.** -/
theorem permute (labelled : Labelled live threadNum pageNum entry) (moved : Equiv.Perm Place)
    (valid : ∀ place, (moved place).Valid ↔ place.Valid) :
    Labelled live threadNum pageNum (entry ∘ moved) := by
  refine ⟨fun t alive k bound => ?_, fun t alive k place place' inside inside' left right => ?_,
    fun t alive k place inside label => ?_, fun place inside => ?_, fun place inside => ?_,
    fun place inside => ?_, labelled.ids, labelled.small⟩
  · obtain ⟨place, inside, label⟩ := labelled.exists_of_lt t alive k bound
    refine ⟨moved.symm place, (valid _).mp (by rwa [Equiv.apply_symm_apply]), ?_⟩
    rw [Function.comp_apply, Equiv.apply_symm_apply]
    exact label
  · exact moved.injective (labelled.unique t alive k _ _ ((valid place).mpr inside)
      ((valid place').mpr inside') left right)
  · exact labelled.below t alive k _ ((valid place).mpr inside) label
  · exact labelled.stale _ ((valid place).mpr inside)
  · exact labelled.flags _ ((valid place).mpr inside)
  · exact labelled.created _ ((valid place).mpr inside)

/-- No thread has more pages than there are entries. -/
theorem pageNum_le (labelled : Labelled live threadNum pageNum entry) {t : Nat}
    (alive : live t = true) : pageNum t ≤ USER_PAGES + DISK_PAGES := by
  choose place inside label using labelled.exists_of_lt t alive
  have injective : Function.Injective fun k : Fin (pageNum t) =>
      (⟨(place k k.isLt).index, Place.index_lt (inside k k.isLt)⟩ : Fin (USER_PAGES + DISK_PAGES)) := by
    intro j k same
    have places : place j j.isLt = place k k.isLt :=
      Place.index_inj (inside j j.isLt) (inside k k.isLt) (Fin.mk.inj same)
    have first := label j j.isLt
    rw [places] at first
    exact Fin.ext (first.pgID.symm.trans (label k k.isLt).pgID)
  simpa using Fintype.card_le_of_injective _ injective

/-- **A new page in a free entry keeps the labels.** -/
theorem fill (labelled : Labelled live threadNum pageNum entry) {t : Nat} (alive : live t = true)
    {place : Place} (inside : place.Valid) (isFree : getPageIsF (entry place) = 1)
    {pg : BitVec 32} (new : Labels pg t (pageNum t)) :
    Labelled live threadNum (Function.update pageNum t (pageNum t + 1))
      (Function.update entry place pg) := by
  have others : ∀ {u k other}, Labels (entry other) u k → other ≠ place := by
    rintro u k other label rfl
    rw [label.used] at isFree
    cases isFree
  -- a label of the new table is an old one elsewhere, or the new one
  have cases_label : ∀ {u k other}, Labels (Function.update entry place pg other) u k →
      (other ≠ place ∧ Labels (entry other) u k) ∨ (other = place ∧ u = t ∧ k = pageNum t) := by
    intro u k other label
    by_cases same : other = place
    · rw [same, Function.update_self] at label
      exact Or.inr ⟨same, label.thID.symm.trans new.thID, label.pgID.symm.trans new.pgID⟩
    · rw [Function.update_of_ne same] at label
      exact Or.inl ⟨same, label⟩
  refine ⟨fun u lives k bound => ?_, fun u lives k first second validFirst validSecond left right => ?_,
    fun u lives k other valid label => ?_, fun other valid isFree' u lives => ?_,
    fun other valid => ?_, fun other valid => ?_, labelled.ids, labelled.small⟩
  · have old : k < pageNum u → ∃ other, other.Valid ∧
        Labels (Function.update entry place pg other) u k := by
      intro below
      obtain ⟨other, valid, label⟩ := labelled.exists_of_lt u lives k below
      refine ⟨other, valid, ?_⟩
      rw [Function.update_of_ne (others label)]
      exact label
    by_cases same : u = t
    · subst same
      rw [Function.update_self] at bound
      rcases Nat.lt_succ_iff_lt_or_eq.mp bound with below | rfl
      · exact old below
      · refine ⟨place, inside, ?_⟩
        rw [Function.update_self]
        exact new
    · rw [Function.update_of_ne same] at bound
      exact old bound
  · rcases cases_label left with ⟨_, left'⟩ | ⟨rfl, rfl, rfl⟩ <;>
      rcases cases_label right with ⟨_, right'⟩ | ⟨rfl, same, here⟩
    · exact labelled.unique u lives k first second validFirst validSecond left' right'
    · subst same here
      exact absurd (labelled.below u lives _ first validFirst left') (lt_irrefl _)
    · exact absurd (labelled.below u lives _ second validSecond right') (lt_irrefl _)
    · rfl
  · rcases cases_label label with ⟨_, old⟩ | ⟨rfl, rfl, rfl⟩
    · have bound := labelled.below u lives k other valid old
      by_cases same : u = t
      · rw [same, Function.update_self]
        rw [same] at bound
        exact Nat.lt_succ_of_lt bound
      · rw [Function.update_of_ne same]
        exact bound
    · rw [Function.update_self]
      exact Nat.lt_succ_self _
  · by_cases same : other = place
    · rw [same, Function.update_self, new.used] at isFree'
      cases isFree'
    · rw [Function.update_of_ne same] at isFree' ⊢
      exact labelled.stale other valid isFree' u lives
  · by_cases same : other = place
    · rw [same, Function.update_self]
      exact Or.inl new.used
    · rw [Function.update_of_ne same]
      exact labelled.flags other valid
  · by_cases same : other = place
    · rw [same, Function.update_self, new.thID]
      exact (labelled.ids t alive).2
    · rw [Function.update_of_ne same]
      exact labelled.created other valid

end Labelled

end OS2017.Paging
