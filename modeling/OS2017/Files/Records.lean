/-
**The fields of an inode.**

Each field reads back what was assigned to it, and an assignment changes no other field. What is
written to a slot of the inode table is the record: the bytes of the fields and of the padding.
-/

import OS2017.Files.Calls

namespace OS2017.Files

open OS2017.Bytes

/-- The bytes from `path` on before the field `size`: a string that ends among them does not change with
the file. -/
def PATH_ROOM : Nat := SIZE - PATH

namespace Inode

/-- The bytes of the record. -/
def record (nd : Inode) : Inode := fun k => if k < INODE_BYTES then nd k else 0

theorem id_congr {nd nd' : Inode} (low : nd' 0 = nd 0) (high : nd' 1 = nd 1) :
    id nd' = id nd := by
  unfold id
  rw [low, high]

section Assignments

variable (nd : Inode)

/-! ### `id` -/

@[simp] theorem id_setId (value : BitVec 16) : id (setId nd value) = value.toInt := by
  unfold id setId
  rw [Function.update_of_ne (by decide), Function.update_self, Function.update_self]
  exact congrArg BitVec.toInt (append_halves 8 value)

theorem id_writeWord {a : Nat} {w : BitVec 32} (behind : 2 ≤ a) : id (writeWord nd a w) = id nd :=
  id_congr (writeWord_of_outside (by omega)) (writeWord_of_outside (by omega))

@[simp] theorem id_setMode (value : BitVec 32) : id (setMode nd value) = id nd :=
  id_writeWord nd (by decide)

@[simp] theorem id_setSize (value : Int) : id (setSize nd value) = id nd :=
  id_writeWord nd (by decide)

@[simp] theorem id_setHardlinks (value : Int) : id (setHardlinks nd value) = id nd :=
  id_writeWord nd (by decide)

@[simp] theorem id_setData (k : Nat) (value : Int) : id (setData nd k value) = id nd :=
  id_writeWord nd (by unfold DATA; omega)

@[simp] theorem id_setPath (path : Memory) (count : Nat) : id (setPath nd path count) = id nd :=
  id_congr (if_neg (by unfold PATH; omega)) (if_neg (by unfold PATH; omega))

@[simp] theorem id_record : id (record nd) = id nd := id_congr rfl rfl

/-! ### `size` -/

theorem size_congr {nd nd' : Inode} (same : ∀ a, 264 ≤ a → a < 268 → nd' a = nd a) :
    size nd' = size nd :=
  congrArg BitVec.toInt (readWord_congr same)

theorem size_writeWord {a : Nat} {w : BitVec 32} (apart : a + 4 ≤ SIZE ∨ SIZE + 4 ≤ a) :
    size (writeWord nd a w) = size nd :=
  congrArg BitVec.toInt (readWord_writeWord_of_apart apart.symm)

theorem size_setSize (value : Int) : size (setSize nd value) = (BitVec.ofInt 32 value).toInt :=
  congrArg BitVec.toInt (readWord_writeWord nd SIZE _)

@[simp] theorem size_setMode (value : BitVec 32) : size (setMode nd value) = size nd :=
  size_writeWord nd (by decide)

@[simp] theorem size_setHardlinks (value : Int) : size (setHardlinks nd value) = size nd :=
  size_writeWord nd (by decide)

@[simp] theorem size_setData (k : Nat) (value : Int) : size (setData nd k value) = size nd :=
  size_writeWord nd (by unfold SIZE DATA; omega)

@[simp] theorem size_setPath (path : Memory) {count : Nat} (inside : count ≤ PATH_BYTES) :
    size (setPath nd path count) = size nd :=
  size_congr fun a _ _ => if_neg (by unfold PATH; unfold PATH_BYTES at inside; omega)

@[simp] theorem size_record : size (record nd) = size nd :=
  size_congr fun a _ _ => if_pos (by unfold INODE_BYTES; omega)

/-! ### `data` -/

theorem data_congr {nd nd' : Inode} {k : Nat}
    (same : ∀ a, 268 + 4 * k ≤ a → a < 268 + 4 * k + 4 → nd' a = nd a) : data nd' k = data nd k :=
  congrArg BitVec.toInt (readWord_congr same)

theorem data_writeWord {a k : Nat} {w : BitVec 32}
    (apart : a + 4 ≤ DATA + 4 * k ∨ DATA + 4 * k + 4 ≤ a) :
    data (writeWord nd a w) k = data nd k :=
  congrArg BitVec.toInt (readWord_writeWord_of_apart apart.symm)

@[simp] theorem data_setId (k : Nat) (value : BitVec 16) : data (setId nd value) k = data nd k :=
  data_congr fun a _ _ => by
    unfold setId
    rw [Function.update_of_ne (by omega), Function.update_of_ne (by omega)]

@[simp] theorem data_setSize (k : Nat) (value : Int) : data (setSize nd value) k = data nd k :=
  data_writeWord nd (by unfold SIZE DATA; omega)

@[simp] theorem data_setMode (k : Nat) (value : BitVec 32) :
    data (setMode nd value) k = data nd k :=
  data_writeWord nd (by unfold MODE DATA; omega)

theorem data_setHardlinks {k : Nat} (value : Int) (inside : k < DATA_ENTRIES) :
    data (setHardlinks nd value) k = data nd k :=
  data_writeWord nd (by unfold DATA_ENTRIES at inside; unfold HARDLINKS DATA; omega)

theorem data_setData (k j : Nat) (value : Int) :
    data (setData nd k value) j = if j = k then (BitVec.ofInt 32 value).toInt else data nd j := by
  by_cases here : j = k
  · rw [if_pos here, here]
    exact congrArg BitVec.toInt (readWord_writeWord nd _ _)
  · rw [if_neg here]
    exact data_writeWord nd (by omega)

@[simp] theorem data_setPath (k : Nat) (path : Memory) {count : Nat} (inside : count ≤ PATH_BYTES) :
    data (setPath nd path count) k = data nd k :=
  data_congr fun a _ _ => if_neg (by unfold PATH; unfold PATH_BYTES at inside; omega)

theorem data_record {k : Nat} (inside : k < DATA_ENTRIES) : data (record nd) k = data nd k :=
  data_congr fun a _ _ => if_pos (by unfold DATA_ENTRIES at inside; unfold INODE_BYTES; omega)

/-! ### `hardlinks` -/

theorem hardlinks_congr {nd nd' : Inode} (same : ∀ a, 4364 ≤ a → a < 4368 → nd' a = nd a) :
    hardlinks nd' = hardlinks nd :=
  congrArg BitVec.toInt (readWord_congr same)

theorem hardlinks_writeWord {a : Nat} {w : BitVec 32} (before : a + 4 ≤ HARDLINKS) :
    hardlinks (writeWord nd a w) = hardlinks nd :=
  congrArg BitVec.toInt (readWord_writeWord_of_apart (Or.inr before))

theorem hardlinks_setHardlinks (value : Int) :
    hardlinks (setHardlinks nd value) = (BitVec.ofInt 32 value).toInt :=
  congrArg BitVec.toInt (readWord_writeWord nd HARDLINKS _)

@[simp] theorem hardlinks_setSize (value : Int) : hardlinks (setSize nd value) = hardlinks nd :=
  hardlinks_writeWord nd (by decide)

theorem hardlinks_setData {k : Nat} (value : Int) (inside : k < DATA_ENTRIES) :
    hardlinks (setData nd k value) = hardlinks nd :=
  hardlinks_writeWord nd (by unfold DATA_ENTRIES at inside; unfold HARDLINKS DATA; omega)

@[simp] theorem hardlinks_setPath (path : Memory) {count : Nat} (inside : count ≤ PATH_BYTES) :
    hardlinks (setPath nd path count) = hardlinks nd :=
  hardlinks_congr fun a _ _ => if_neg (by unfold PATH; unfold PATH_BYTES at inside; omega)

@[simp] theorem hardlinks_record : hardlinks (record nd) = hardlinks nd :=
  hardlinks_congr fun a _ _ => if_pos (by unfold INODE_BYTES; omega)

/-! ### `path` -/

theorem path_writeWord {a k : Nat} {w : BitVec 32} (behind : PATH + k < a) :
    path (writeWord nd a w) k = path nd k :=
  writeWord_of_outside (Or.inl behind)

theorem path_setSize_room {k : Nat} (value : Int) (inside : k < PATH_ROOM) :
    path (setSize nd value) k = path nd k :=
  path_writeWord nd (by unfold PATH_ROOM at inside; omega)

theorem path_setSize {k : Nat} (value : Int) (inside : k < PATH_BYTES) :
    path (setSize nd value) k = path nd k :=
  path_setSize_room nd value (Nat.lt_of_lt_of_le inside (by decide))

theorem path_setData_room {k j : Nat} (value : Int) (inside : k < PATH_ROOM) :
    path (setData nd j value) k = path nd k :=
  path_writeWord nd (by unfold PATH_ROOM SIZE PATH at inside; unfold PATH DATA; omega)

theorem path_setData {k j : Nat} (value : Int) (inside : k < PATH_BYTES) :
    path (setData nd j value) k = path nd k :=
  path_setData_room nd value (Nat.lt_of_lt_of_le inside (by decide))

theorem path_setPath {bytes : Memory} {count k : Nat} (inside : k < count) :
    path (setPath nd bytes count) k = bytes k := by
  unfold path setPath
  rw [if_pos (by omega), Nat.add_sub_cancel_left]

theorem path_record_room {k : Nat} (inside : k < PATH_ROOM) : path (record nd) k = path nd k :=
  if_pos (by unfold PATH_ROOM SIZE PATH at inside; unfold PATH INODE_BYTES; omega)

theorem path_record {k : Nat} (inside : k < PATH_BYTES) : path (record nd) k = path nd k :=
  path_record_room nd (Nat.lt_of_lt_of_le inside (by decide))

end Assignments

end Inode

end OS2017.Files
