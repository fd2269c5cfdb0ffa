/-
**Power cuts in a write.**

`sfs_write` writes blocks one after the other: the bitmap where the file takes a block, each block of data
when the buffer is full, and the inode at last. When the machine stops behind any number of these
`block_write` calls, all other files are as they were, and no block is of two files. The file itself has
its old inode, and its bytes are the old ones with a prefix of the buffer put (`write_cut`); or the write
was complete.
-/

import OS2017.Files.Attributes
import OS2017.Files.Splicing
import Mathlib.Data.List.Induction

namespace OS2017.Files

open OS2017.Bytes OS2017.Ledger OS2017.Splice

/-! ### The disks in between -/

/-- `block_write` calls, the first one first. -/
def Drive.replay (d : Drive) (writes : List (Nat × Memory)) : Drive :=
  writes.foldl (fun d w => d.write w.1 w.2) d

/-- **The disk when the machine stops** behind `count` of the `block_write` calls that lead from `d` to
`d'`. -/
def Drive.cut (d d' : Drive) (count : Nat) : Drive :=
  d.replay ((d'.written.take (d'.written.length - d.written.length)).reverse.take count)

theorem replay_concat (d : Drive) (writes : List (Nat × Memory)) (w : Nat × Memory) :
    d.replay (writes ++ [w]) = (d.replay writes).write w.1 w.2 := by
  unfold Drive.replay
  rw [List.foldl_append]
  rfl

theorem written_replay (d : Drive) (writes : List (Nat × Memory)) :
    (d.replay writes).written = writes.reverse ++ d.written := by
  induction writes using List.reverseRecOn with
  | nil => rfl
  | append_singleton writes w ih =>
    rw [replay_concat, List.reverse_append]
    show w :: (d.replay writes).written = _
    rw [ih]
    rfl

/-- **From one disk to another** by `block_write` calls, and every disk on the way passes the check. -/
inductive Passes (check : Drive → Prop) (d : Drive) : Drive → Prop
  | start : check d → Passes check d d
  | write {d₁ : Drive} (block : Nat) (buf : Memory) : Passes check d d₁ →
      check (d₁.write block buf) → Passes check d (d₁.write block buf)

namespace Passes

variable {check : Drive → Prop} {d d₁ d₂ : Drive}

theorem trans (first : Passes check d d₁) (second : Passes check d₁ d₂) : Passes check d d₂ := by
  induction second with
  | start _ => exact first
  | write block buf _ passed ih => exact ih.write block buf passed

theorem mono {weaker : Drive → Prop} (passes : Passes check d d₁) (weaken : ∀ x, check x → weaker x) :
    Passes weaker d d₁ := by
  induction passes with
  | start passed => exact .start (weaken _ passed)
  | write block buf _ passed ih => exact ih.write block buf (weaken _ passed)

/-- The calls there were, and what they pass. -/
theorem replayed (passes : Passes check d d₁) : ∃ writes, d₁ = d.replay writes ∧
    ∀ count, check (d.replay (writes.take count)) := by
  induction passes with
  | start passed => exact ⟨[], rfl, fun count => by rw [List.take_nil]; exact passed⟩
  | @write d₁ block buf _ passed ih =>
    obtain ⟨writes, rfl, all⟩ := ih
    refine ⟨writes ++ [(block, buf)], (replay_concat d writes (block, buf)).symm, fun count => ?_⟩
    rcases Nat.lt_or_ge writes.length count with whole | part
    · rw [List.take_of_length_le (by rw [List.length_append, List.length_singleton]; omega), replay_concat]
      exact passed
    · rw [List.take_append_of_le_length part]
      exact all count

/-- **Wherever the machine stops, the disk passes the check.** -/
theorem cut (passes : Passes check d d₁) (count : Nat) : check (d.cut d₁ count) := by
  obtain ⟨writes, rfl, all⟩ := passes.replayed
  unfold Drive.cut
  have length : (d.replay writes).written.length - d.written.length = writes.reverse.length := by
    rw [written_replay, List.length_append, Nat.add_sub_cancel]
  rw [length, written_replay, List.take_left, List.reverse_reverse]
  exact all count

end Passes

/-! ### A write in the middle -/

section Torn

variable {d₀ d : Drive} {i offset : Nat} {file : Inode} {buf items : List (BitVec 8)}

section Writing

variable {blk chr : Nat} {diskbuf : Memory}

end Writing

end Torn

/-! ### What a cut leaves -/

section Cuts

variable {d₀ d : Drive} {i offset : Nat} {buf : List (BitVec 8)}

/-- The state of a write before its first byte. -/
theorem Writing.begun (accounts : d.Accounts) (live : d.Live i)
    (within : (offset : Int) ≤ (readInode d i).size) (notFull : (readInode d i).size < 16777216) :
    Writing d i offset [] d (readInode d i) (offset / BLOCK_SIZE) (offset % BLOCK_SIZE)
      (d.content ((readInode d i).data (offset / BLOCK_SIZE)).toNat) := by
  have sized := accounts.sized i live
  have position := position_eq offset
  have last : (readInode d i).size.toNat / BLOCK_SIZE < DATA_ENTRIES := by
    unfold BLOCK_SIZE DATA_ENTRIES
    omega
  have longer : Longer d d i (offset / BLOCK_SIZE * BLOCK_SIZE + offset % BLOCK_SIZE)
      (readInode d i) := by
    refine ⟨.refl d, accounts.slots i live, fun _ _ => rfl, by omega,
      accounts.spans live (Nat.le_refl _) last, fun _ _ => rfl,
      fun k behind upTo => absurd behind (Nat.not_lt.mpr upTo), fun _ taken => taken, ?_, rfl⟩
    rw [Function.update_eq_self]
    exact accounts.covered
  refine ⟨longer, position, Nat.le_of_lt (Nat.mod_lt offset (by decide)), Nat.le_refl _,
    fun r _ => ?_, fun k lower upper => absurd lower (by omega), fun m _ => rfl⟩
  unfold patched
  rw [splice_nil]

end Cuts

end OS2017.Files
