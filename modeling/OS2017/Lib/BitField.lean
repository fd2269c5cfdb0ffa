/-
**Bit fields of a machine word.**

`getField lo len` is the `len` bits of a word from bit `lo` on; `setField lo len` replaces them. A
value that fits the field is read back, and no other field changes.
-/

import Mathlib.Algebra.Ring.Nat

namespace OS2017.BitField

variable {n : Nat}

/-- The `len` bits from `lo` on. -/
def getField (lo len : Nat) (w : BitVec n) : BitVec n :=
  (w >>> lo) &&& BitVec.ofNat n (2 ^ len - 1)

/-- The word with the `len` bits from `lo` on replaced. -/
def setField (lo len : Nat) (w v : BitVec n) : BitVec n :=
  (w &&& ~~~ (BitVec.ofNat n (2 ^ len - 1) <<< lo)) ||| (v <<< lo)

theorem getLsbD_getField {lo len i : Nat} (w : BitVec n) (bound : i < n) :
    (getField lo len w).getLsbD i = (w.getLsbD (lo + i) && decide (i < len)) := by
  unfold getField
  rw [BitVec.getLsbD_and, BitVec.getLsbD_ushiftRight, BitVec.getLsbD_ofNat,
    Nat.testBit_two_pow_sub_one]
  simp [bound]

/-- A value that fits has no bits beyond the field. -/
theorem getLsbD_of_fits {len i : Nat} {v : BitVec n} (fits : v.toNat < 2 ^ len) (beyond : len ≤ i) :
    v.getLsbD i = false :=
  Nat.testBit_lt_two_pow (Nat.lt_of_lt_of_le fits (Nat.pow_le_pow_right (by decide) beyond))

theorem getLsbD_setField {lo len i : Nat} (w : BitVec n) {v : BitVec n} (fits : v.toNat < 2 ^ len)
    (bound : i < n) :
    (setField lo len w v).getLsbD i
      = if lo ≤ i ∧ i < lo + len then v.getLsbD (i - lo) else w.getLsbD i := by
  unfold setField
  rw [BitVec.getLsbD_or, BitVec.getLsbD_and, BitVec.getLsbD_not, BitVec.getLsbD_shiftLeft,
    BitVec.getLsbD_shiftLeft, BitVec.getLsbD_ofNat, Nat.testBit_two_pow_sub_one]
  by_cases below : i < lo
  · rw [if_neg (by omega)]
    simp [below, bound]
  · by_cases inside : i < lo + len
    · rw [if_pos ⟨by omega, inside⟩]
      simp [below, bound, show i - lo < n by omega, show i - lo < len by omega]
    · rw [if_neg (by omega), getLsbD_of_fits fits (by omega)]
      simp [below, bound, show ¬ i - lo < len by omega]

/-- **A field at the top of the word** takes the low bits of the value. -/
theorem setField_top {lo len : Nat} (w v : BitVec n) (top : lo + len = n) :
    setField lo len w v = setField lo len w (BitVec.ofNat n (v.toNat % 2 ^ len)) := by
  have small : v.toNat % 2 ^ len < 2 ^ n :=
    lt_of_lt_of_le (Nat.mod_lt _ (Nat.two_pow_pos len)) (Nat.pow_le_pow_right (by decide) (by omega))
  have whole : 2 ^ n = 2 ^ len * 2 ^ lo := by rw [← Nat.pow_add, Nat.add_comm, top]
  have shifted : v <<< lo = BitVec.ofNat n (v.toNat % 2 ^ len) <<< lo := by
    refine BitVec.eq_of_toNat_eq ?_
    rw [BitVec.toNat_shiftLeft, BitVec.toNat_shiftLeft, BitVec.toNat_ofNat, Nat.mod_eq_of_lt small,
      Nat.shiftLeft_eq, Nat.shiftLeft_eq, whole, Nat.mul_mod_mul_right, Nat.mul_mod_mul_right,
      Nat.mod_mod]
  unfold setField
  rw [shifted]

/-- **A field reads back what was set.** -/
theorem getField_setField {lo len : Nat} (w : BitVec n) {v : BitVec n} (fits : v.toNat < 2 ^ len)
    (inside : lo + len ≤ n) : getField lo len (setField lo len w v) = v := by
  refine BitVec.eq_of_getLsbD_eq fun i bound => ?_
  rw [getLsbD_getField _ bound]
  by_cases within : i < len
  · rw [getLsbD_setField w fits (by omega), if_pos (by omega)]
    simp [within]
  · rw [getLsbD_of_fits fits (by omega)]
    simp [within]

/-- **Fields that are apart do not disturb each other.** -/
theorem getField_setField_of_apart {lo len lo' len' : Nat} (w : BitVec n) {v : BitVec n}
    (fits : v.toNat < 2 ^ len) (inside : lo' + len' ≤ n)
    (apart : lo + len ≤ lo' ∨ lo' + len' ≤ lo) :
    getField lo' len' (setField lo len w v) = getField lo' len' w := by
  refine BitVec.eq_of_getLsbD_eq fun i bound => ?_
  rw [getLsbD_getField _ bound, getLsbD_getField _ bound]
  by_cases within : i < len'
  · rw [getLsbD_setField w fits (by omega), if_neg (by omega)]
  · simp [within]

theorem toNat_getField_lt (lo len : Nat) (w : BitVec n) : (getField lo len w).toNat < 2 ^ len := by
  unfold getField
  rw [BitVec.toNat_and, BitVec.toNat_ofNat]
  refine Nat.lt_of_le_of_lt Nat.and_le_right (Nat.lt_of_le_of_lt (Nat.mod_le _ _) ?_)
  exact Nat.sub_lt (Nat.two_pow_pos len) Nat.one_pos

end OS2017.BitField
