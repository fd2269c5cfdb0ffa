/-
**Bitmaps in byte memories.**

Bit `n` of a memory is bit `n % 8` of its byte `n / 8`. `getBit` reads it, `setBit` replaces it; a
bit that was set is read back, and no other bit changes.
-/

import OS2017.Lib.Bytes
import Mathlib.Tactic.Common

namespace OS2017.Bitmap

open OS2017.Bytes

/-- Bit `n`. -/
def getBit (m : Memory) (n : Nat) : Bool := (m (n / 8)).getLsbD (n % 8)

/-- A byte with bit `k` replaced. -/
def setByteBit (byte : BitVec 8) (k : Nat) (value : Bool) : BitVec 8 :=
  if value then byte ||| 1#8 <<< k else byte &&& ~~~(1#8 <<< k)

/-- The memory with bit `n` replaced. -/
def setBit (m : Memory) (n : Nat) (value : Bool) : Memory :=
  Function.update m (n / 8) (setByteBit (m (n / 8)) (n % 8) value)

theorem getLsbD_setByteBit (byte : BitVec 8) {k j : Nat} (value : Bool) (inside : j < 8) :
    (setByteBit byte k value).getLsbD j = if j = k then value else byte.getLsbD j := by
  have mask : (1#8 <<< k).getLsbD j = decide (j = k) := by
    rw [BitVec.getLsbD_shiftLeft, BitVec.getLsbD_one]
    by_cases here : j = k
    · subst here
      simp [inside]
    · by_cases below : j < k
      · simp [below, here]
      · simp [here, show ¬ j - k = 0 by omega]
  unfold setByteBit
  cases value with
  | true =>
    rw [if_pos rfl, BitVec.getLsbD_or, mask]
    by_cases here : j = k <;> simp [here]
  | false =>
    rw [if_neg Bool.false_ne_true, BitVec.getLsbD_and, BitVec.getLsbD_not, mask]
    by_cases here : j = k <;> simp [here, inside]

/-- **A bit reads back what was set, and no other bit changes.** -/
theorem getBit_setBit (m : Memory) (n k : Nat) (value : Bool) :
    getBit (setBit m n value) k = if k = n then value else getBit m k := by
  unfold getBit setBit
  by_cases byte : k / 8 = n / 8
  · rw [byte, Function.update_self, getLsbD_setByteBit _ _ (Nat.mod_lt k (by decide))]
    by_cases bit : k % 8 = n % 8
    · rw [if_pos bit, if_pos (by omega)]
    · rw [if_neg bit, if_neg (by rintro rfl; exact bit rfl)]
  · rw [Function.update_of_ne byte, if_neg (by rintro rfl; exact byte rfl)]

/-- A byte without the bits of a bitmap keeps its value. -/
theorem setBit_of_ne {m : Memory} {n a : Nat} {value : Bool} (elsewhere : a ≠ n / 8) :
    setBit m n value a = m a :=
  Function.update_of_ne elsewhere _ _

end OS2017.Bitmap
