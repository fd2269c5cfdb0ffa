/-
**A store of files.**

What a flat file system is for: names lead to files, a file is its attributes and its bytes, and the four
operations change one name each. A write puts bytes over the old ones and lets the file grow at its end
(`overwrite`); a read cuts a piece out (`slice`). Both are given on files whose bytes are those of a
function of the position too, with the splice of `OS2017.Lib.Splice`.
-/

import OS2017.Lib.Splice
import Mathlib.Data.List.Range

namespace OS2017.FileStore

open OS2017.Splice

variable {N A β : Type}

/-- A file. -/
@[ext] structure File (A β : Type) where
  attributes : A
  bytes : List β
  deriving DecidableEq

/-- The files of the names. -/
abbrev Store (N A β : Type) := N → Option (File A β)

/-! ### The bytes of a file -/

/-- **`items` over what is at `offset` and behind it.** -/
def overwrite (bytes : List β) (offset : Nat) (items : List β) : List β :=
  bytes.take offset ++ items ++ bytes.drop (offset + items.length)

/-- `count` items from `offset` on. -/
def slice (bytes : List β) (offset count : Nat) : List β := (bytes.drop offset).take count

@[simp] theorem overwrite_nil (bytes : List β) (offset : Nat) : overwrite bytes offset [] = bytes := by
  rw [overwrite, List.append_nil, List.length_nil, Nat.add_zero, List.take_append_drop]

/-- **A file that is written grows to the end of what was put.** -/
theorem length_overwrite {bytes : List β} {offset : Nat} (items : List β)
    (within : offset ≤ bytes.length) :
    (overwrite bytes offset items).length = max bytes.length (offset + items.length) := by
  rw [overwrite, List.length_append, List.length_append, List.length_take, List.length_drop]
  omega

theorem length_slice {bytes : List β} {offset count : Nat} (within : offset + count ≤ bytes.length) :
    (slice bytes offset count).length = count := by
  rw [slice, List.length_take, List.length_drop]
  omega

/-- **The bytes after a write are spliced.** -/
theorem overwrite_map_range {old : Nat → β} {length start : Nat} (items : List β)
    (within : start ≤ length) :
    overwrite ((List.range length).map old) start items
      = (List.range (max length (start + items.length))).map (splice old start items) := by
  have size : ((List.range length).map old).length = length := by
    rw [List.length_map, List.length_range]
  refine List.ext_getElem ?_ fun p inside _ => ?_
  · rw [length_overwrite items (size.symm ▸ within), size, List.length_map, List.length_range]
  · rw [length_overwrite items (size.symm ▸ within), size] at inside
    rw [List.getElem_map, List.getElem_range]
    simp only [overwrite, List.getElem_append, List.length_append, List.length_take, size,
      List.getElem_take, List.getElem_drop, List.getElem_map, List.getElem_range,
      Nat.min_eq_left within]
    split
    · rename_i upTo
      split
      · rename_i before
        exact (splice_before before).symm
      · rename_i behind
        exact (splice_inside (Nat.not_lt.mp behind) (by omega)).symm
    · rename_i behind
      have position : start + items.length + (p - (start + items.length)) = p := by omega
      rw [position]
      exact (splice_behind (Nat.not_lt.mp behind)).symm

theorem slice_map_range {old : Nat → β} {length start count : Nat} (within : start + count ≤ length) :
    slice ((List.range length).map old) start count = (List.range' start count).map old := by
  refine List.ext_getElem ?_ fun p _ inside => ?_
  · rw [length_slice, List.length_map, List.length_range']
    rw [List.length_map, List.length_range]
    exact within
  · simp only [slice, List.getElem_take, List.getElem_drop, List.getElem_map, List.getElem_range,
      List.getElem_range', Nat.one_mul]

/-! ### The operations -/

variable [DecidableEq N]

/-- A new file, with no bytes. -/
def Store.create (store : Store N A β) (name : N) (attributes : A) : Store N A β :=
  Function.update store name (some ⟨attributes, []⟩)

/-- The bytes are put in the file there is. -/
def Store.write (store : Store N A β) (name : N) (offset : Nat) (items : List β) : Store N A β :=
  Function.update store name
    ((store name).map fun file => ⟨file.attributes, overwrite file.bytes offset items⟩)

def Store.unlink (store : Store N A β) (name : N) : Store N A β := Function.update store name none

section Operations

variable {store : Store N A β} {name : N}

theorem Store.write_missing {offset : Nat} {items : List β} (missing : store name = none) :
    store.write name offset items = store := by
  rw [write, missing]
  exact (congrArg (Function.update store name) missing.symm).trans (Function.update_eq_self name store)

theorem Store.write_nil (offset : Nat) : store.write name offset [] = store := by
  refine (congrArg (Function.update store name) ?_).trans (Function.update_eq_self name store)
  cases found : store name with
  | none => rfl
  | some file => simp

theorem Store.write_found {offset : Nat} {items : List β} {file : File A β}
    (found : store name = some file) :
    store.write name offset items
      = Function.update store name (some ⟨file.attributes, overwrite file.bytes offset items⟩) := by
  rw [write, found]
  rfl

theorem Store.unlink_missing (missing : store name = none) : store.unlink name = store :=
  (congrArg (Function.update store name) missing.symm).trans (Function.update_eq_self name store)

end Operations

end OS2017.FileStore
