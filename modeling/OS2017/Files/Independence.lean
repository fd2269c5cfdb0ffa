/-
**The items of the disk under any sequence of writes.**

`setBlock`, `setInode`, `writeInode` and a `block_write` of a data block, on indices in range, in any
order. Every bit of the two bitmaps, every inode and every data block holds what was last written to
that very item, or what it held at first, and the magic number stays (`records_independent`): the
bitmap of the inodes shares its block with the magic number, and three inodes share one block.
-/

import OS2017.Lib.Records
import OS2017.Files.Metadata

namespace OS2017.Files

open OS2017.Bytes OS2017.Records

/-- A write of one item. -/
inductive ItemWrite
  | setBlock (n setting : Int)
  | setInode (n setting : Int)
  | writeInode (nd : Inode)
  /-- `block_write(D_BLOCK_START + n, buf)` -/
  | block_write (n : Int) (buf : Memory)

namespace ItemWrite

/-- The call. -/
def perform : ItemWrite → StateT Drive Option Unit
  | .setBlock n setting => Files.setBlock n setting
  | .setInode n setting => Files.setInode n setting
  | .writeInode nd => Files.writeInode nd
  | .block_write n buf => Files.block_write (D_BLOCK_START + n) buf

/-- The index is one of an item. -/
def InRange : ItemWrite → Prop
  | .setBlock n _ => 0 ≤ n ∧ n < BLOCK_LIST_SIZE
  | .setInode n _ => 0 ≤ n ∧ n < INODE_LIST_SIZE
  | .writeInode nd => 0 ≤ nd.id ∧ nd.id < INODE_LIST_SIZE
  | .block_write n _ => 0 ≤ n ∧ n < BLOCK_LIST_SIZE

/-! ### What a write puts in an item -/

/-- The bit of the block `n`. -/
def blockBit (n : Nat) : ItemWrite → Option (BitVec 32)
  | .setBlock k setting => if k = n then some (if setting = 1 then 1 else 0) else none
  | _ => none

/-- The bit of the inode `n`. -/
def inodeBit (n : Nat) : ItemWrite → Option (BitVec 32)
  | .setInode k setting => if k = n then some (if setting = 1 then 1 else 0) else none
  | _ => none

/-- The inode `n`. -/
def inodeRecord (n : Nat) : ItemWrite → Option Inode
  | .writeInode nd => if nd.id = n then some nd.record else none
  | _ => none

/-- The bytes of the data block `n`. -/
def dataBlock (n : Nat) : ItemWrite → Option Memory
  | .block_write k buf => if k = n then some buf else none
  | _ => none

/-! ### One write -/

/-- The disk behind a write. -/
def put : ItemWrite → Drive → Drive
  | .setBlock n setting, d => d.markBlock n.toNat (setting == 1)
  | .setInode n setting, d => d.markInode n.toNat (setting == 1)
  | .writeInode nd, d => d.putInode nd.id.toNat nd
  | .block_write n buf, d => d.putData n.toNat buf

/-- **A write in range is performed, and writes its item.** -/
theorem perform_run {w : ItemWrite} (inRange : w.InRange) (d : Drive) :
    w.perform d = some ((), w.put d) := by
  cases w with
  | setBlock n setting =>
    obtain ⟨nonneg, below⟩ := inRange
    lift n to Nat using nonneg
    exact setBlock_run (by unfold BLOCK_LIST_SIZE at below; omega) setting d
  | setInode n setting =>
    obtain ⟨nonneg, below⟩ := inRange
    lift n to Nat using nonneg
    exact setInode_run (by omega) setting d
  | writeInode nd =>
    obtain ⟨nonneg, below⟩ := inRange
    exact writeInode_run (Int.toNat_of_nonneg nonneg).symm (by omega) d
  | block_write n buf =>
    obtain ⟨nonneg, below⟩ := inRange
    lift n to Nat using nonneg
    exact block_write_run (by unfold BLOCK_LIST_SIZE at below; unfold D_BLOCK_START; omega) buf d

theorem keptApart {V : Type} {record : Drive → V} {put : ItemWrite → Option V}
    (step : ∀ w d, w.InRange → record (w.put d) = (put w).getD (record d)) :
    KeptApart perform InRange record put := by
  intro w d d' inRange ran
  rw [perform_run inRange] at ran
  cases ran
  exact step w d inRange

/-- The item of the index `k`, in the item `n`. -/
theorem getD_written {V : Type} {n : Nat} {k : Int} (nonneg : 0 ≤ k) (value old : V) :
    (if k = n then some value else none).getD old = if n = k.toNat then value else old := by
  by_cases here : k = n
  · rw [if_pos here, if_pos (by omega)]
    rfl
  · rw [if_neg here, if_neg (by omega)]
    rfl

/-- The same for the bit a function of `sfs.c` returns. -/
theorem getD_written_bit {n : Nat} {k setting : Int} (nonneg : 0 ≤ k) (old : Bool) :
    (if k = n then some (if setting = 1 then (1 : BitVec 32) else 0) else none).getD
      (if old then 1 else 0) =
      if (if n = k.toNat then setting == 1 else old) then 1 else 0 := by
  rw [getD_written nonneg]
  by_cases here : n = k.toNat
  · rw [if_pos here, if_pos here]
    by_cases one : setting = 1 <;> simp [one]
  · rw [if_neg here, if_neg here]

theorem blockBit_kept (n : Nat) :
    KeptApart perform InRange (fun d => isBlockFree d n) (blockBit n) := by
  refine keptApart fun w d inRange => ?_
  rw [isBlockFree_eq, isBlockFree_eq]
  cases w with
  | setBlock k setting => rw [put, blockFree_markBlock, blockBit, getD_written_bit inRange.1]
  | setInode k setting => rw [put, blockFree_markInode]; rfl
  | writeInode nd => rw [put, blockFree_putInode]; rfl
  | block_write k buf => rw [put, blockFree_putData]; rfl

theorem inodeBit_kept (n : Nat) :
    KeptApart perform InRange (fun d => isInodeFree d n) (inodeBit n) := by
  refine keptApart fun w d inRange => ?_
  rw [isInodeFree_eq, isInodeFree_eq]
  cases w with
  | setBlock k setting => rw [put, inodeFree_markBlock]; rfl
  | setInode k setting => rw [put, inodeFree_markInode, inodeBit, getD_written_bit inRange.1]
  | writeInode nd => rw [put, inodeFree_putInode]; rfl
  | block_write k buf => rw [put, inodeFree_putData]; rfl

theorem inodeRecord_kept {n : Nat} (small : n < INODE_LIST_SIZE) :
    KeptApart perform InRange (fun d => readInode d n) (inodeRecord n) := by
  refine keptApart fun w d inRange => ?_
  cases w with
  | setBlock k setting => exact readInode_markBlock d _ n _
  | setInode k setting => exact readInode_markInode d _ n _
  | writeInode nd => rw [put, readInode_putInode, inodeRecord, getD_written inRange.1]
  | block_write k buf => exact readInode_putData d _ buf small

theorem dataBlock_kept (n : Nat) :
    KeptApart perform InRange (fun d => d.content n) (dataBlock n) := by
  refine keptApart fun w d inRange => ?_
  cases w with
  | setBlock k setting => exact congrFun (content_markBlock d _ _) n
  | setInode k setting => exact congrFun (content_markInode d _ _) n
  | writeInode nd =>
    obtain ⟨nonneg, below⟩ := inRange
    exact content_putInode d (by omega) nd n
  | block_write k buf => rw [put, content_putData, dataBlock, getD_written inRange.1]

theorem magic_kept : KeptApart perform InRange Drive.magic fun _ => none := by
  refine keptApart fun w d _ => ?_
  cases w with
  | setBlock k setting => exact magic_markBlock d _ _
  | setInode k setting => exact magic_markInode d _ _
  | writeInode nd => exact magic_putInode d _ nd
  | block_write k buf => exact magic_putData d _ buf

end ItemWrite

/-! ### Any sequence of writes -/

/-- **Every item holds what was last written to it**, and the magic number stays. -/
theorem records_independent (d : Drive) (writes : List ItemWrite)
    (inRange : ∀ w ∈ writes, w.InRange) :
    ∃ d', performAll ItemWrite.perform writes d = some ((), d') ∧
      (∀ n < BLOCK_LIST_SIZE,
        isBlockFree d' n = (lastWritten (ItemWrite.blockBit n) writes).getD (isBlockFree d n)) ∧
      (∀ n < INODE_LIST_SIZE,
        isInodeFree d' n = (lastWritten (ItemWrite.inodeBit n) writes).getD (isInodeFree d n)) ∧
      (∀ n < INODE_LIST_SIZE,
        readInode d' n = (lastWritten (ItemWrite.inodeRecord n) writes).getD (readInode d n)) ∧
      (∀ n < BLOCK_LIST_SIZE, block_read (D_BLOCK_START + n) d' =
        some ((lastWritten (ItemWrite.dataBlock n) writes).getD (d.content n), d')) ∧
      d'.magic = d.magic ∧ checkIfInit d' = checkIfInit d := by
  obtain ⟨d', ran⟩ := performAll_runs (fun w d within => ⟨_, ItemWrite.perform_run within d⟩)
    writes d inRange
  have magic := ItemWrite.magic_kept.keeps inRange ran
  refine ⟨d', ran, fun n _ => ?_, fun n _ => ?_, fun n small => ?_, fun n small => ?_, magic, ?_⟩
  · exact (ItemWrite.blockBit_kept n).run writes inRange ran
  · exact (ItemWrite.inodeBit_kept n).run writes inRange ran
  · exact (ItemWrite.inodeRecord_kept small).run writes inRange ran
  · have held := (ItemWrite.dataBlock_kept n).run writes inRange ran
    unfold BLOCK_LIST_SIZE at small
    unfold block_read D_BLOCK_START BLOCK_SIZE
    rw [if_neg (by omega), if_pos (by omega), ← held]
    rfl
  · unfold checkIfInit
    exact congrArg (fun word => if word = MAGIC_NUM then (1 : Int) else 0) magic

/-- Two inodes of one block, the bitmap beside the magic number, and a data block. -/
def mixedWrites : List ItemWrite :=
  [.setBlock 7 0, .setInode 3 0, .writeInode (Inode.setId (fun _ => 5) 3),
    .writeInode (Inode.setId (fun _ => 6) 4), .block_write 7 fun _ => 9, .setBlock 7 1]

theorem mixedWrites_inRange : ∀ w ∈ mixedWrites, w.InRange := by
  intro w member
  simp only [mixedWrites, List.mem_cons, List.not_mem_nil, or_false] at member
  rcases member with rfl | rfl | rfl | rfl | rfl | rfl
  · exact ⟨by decide, by decide⟩
  · exact ⟨by decide, by decide⟩
  · exact ⟨by decide, by decide⟩
  · exact ⟨by decide, by decide⟩
  · exact ⟨by decide, by decide⟩
  · exact ⟨by decide, by decide⟩

/-- The bit of block 7 is the one of the second write, the inode 3 the one of its only write. -/
theorem records_independent_mixedWrites : ∃ d' : Drive,
    performAll ItemWrite.perform mixedWrites ⟨fun _ _ => 0, []⟩ = some ((), d') ∧
      isBlockFree d' 7 = 1 ∧ readInode d' 3 = Inode.record (Inode.setId (fun _ => 5) 3) ∧
      checkIfInit d' = 0 := by
  obtain ⟨d', ran, bits, _, records, _, _, init⟩ :=
    records_independent ⟨fun _ _ => 0, []⟩ mixedWrites mixedWrites_inRange
  refine ⟨d', ran, (bits 7 (by decide)).trans ?_, (records 3 (by decide)).trans ?_, init.trans ?_⟩
  · rfl
  · rfl
  · decide

end OS2017.Files
