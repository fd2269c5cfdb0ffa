/-
**`sfs_init` and power cuts.**

`sfs_init` makes five `block_write` calls: the magic number, the bitmap of the inodes, the bitmap of
the blocks, the root's bit and the root's inode. A later `sfs_init` does nothing on a disk with the
magic number, so a cut behind the first write and before the last is repaired only where the missing
writes would have changed nothing that counts (`sfs_init_recovers_iff`).
-/

import OS2017.Files.Metadata
import OS2017.Files.Calls

namespace OS2017.Files

open OS2017.Bytes OS2017.Bitmap

/-- **An empty file system**: only the inode of the root is in use, and no data block. -/
structure EmptyFileSystem (d : Drive) : Prop where
  magic : checkIfInit d = 1
  inodes : ∀ n < INODE_LIST_SIZE, isInodeFree d n = 0 ↔ n = 0
  root : (readInode d 0).path 0 = 47 ∧ (readInode d 0).path 1 = 0
  blocks : ∀ n < BLOCK_LIST_SIZE, isBlockFree d n = 1

/-! ### The writes of `sfs_init` -/

/-- The `block_write` calls of `sfs_init`, in order. -/
def writesOf (stack : Stack) (blocks : Nat → Memory) : List (Nat × Memory) :=
  match sfs_init stack ⟨blocks, []⟩ with
  | some (_, d) => d.written.reverse
  | none => []

/-- The disk when the machine stops behind `count` of these calls. -/
def cutOff (stack : Stack) (blocks : Nat → Memory) (count : Nat) : Nat → Memory :=
  ((writesOf stack blocks).take count).foldl (fun disk w => Function.update disk w.1 w.2) blocks

/-- Block 0 with the magic number. -/
def magicBlock (stack : Stack) : Memory := writeWord stack.fileInit 0 MAGIC_NUM

/-- Block 0 with the magic number and all inodes free. -/
def imapBlock (stack : Stack) : Memory := fillOnes (magicBlock stack) 4 IMAP_SIZE

/-- Block 1 with all blocks free. -/
def bmapBlock (stack : Stack) : Memory := fillOnes stack.bmbuf 0 BMAP_SIZE

/-- Block 0 with the inode of the root in use. -/
def rootBitBlock (stack : Stack) : Memory := setBit (imapBlock stack) 32 false

/-- Block 3 with the inode of the root. -/
def rootBlock (stack : Stack) (block : Memory) : Memory :=
  placeInode block 0 (rootInode stack.root)

theorem rootInode_id (root : Inode) : (rootInode root).id = (0 : Nat) := by
  unfold rootInode
  simp

/-- **The five writes.** -/
theorem sfs_init_run {d : Drive} (fresh : checkIfInit d ≠ 1) (stack : Stack) :
    sfs_init stack d = some ((), ((((d.write 0 (magicBlock stack)).write 0 (imapBlock stack)).write 1
      (bmapBlock stack)).write 0 (rootBitBlock stack)).write 3 (rootBlock stack (d.blocks 3))) := by
  have zero : (0 : Int) = (0 : Nat) := rfl
  have one : (1 : Int) = (1 : Nat) := rfl
  unfold sfs_init setFileInit
  rw [look_run, if_neg fresh]
  show ((block_write 0 (magicBlock stack)) >>= fun _ => block_read 0 >>= fun buf =>
    block_write 0 (fillOnes buf 4 IMAP_SIZE) >>= fun _ => block_write 1 (bmapBlock stack) >>= fun _ =>
    setInode 0 0 >>= fun _ => writeInode (rootInode stack.root)) d = _
  rw [zero, one]
  rw [then_run (block_write_run (by decide) _ d)]
  rw [block_read_run (by decide)]
  rw [then_run (block_write_run (by decide) _ _)]
  rw [then_run (block_write_run (by decide) _ _)]
  rw [then_run (setInode_run (by decide) _ _)]
  rw [writeInode_run (rootInode_id stack.root) (by decide)]
  rfl

theorem writesOf_eq {blocks : Nat → Memory} (fresh : readWord (blocks 0) 0 ≠ MAGIC_NUM)
    (stack : Stack) :
    writesOf stack blocks = [(0, magicBlock stack), (0, imapBlock stack), (1, bmapBlock stack),
      (0, rootBitBlock stack), (3, rootBlock stack (blocks 3))] := by
  have unset : checkIfInit ⟨blocks, []⟩ ≠ 1 := by
    unfold checkIfInit
    rw [if_neg fresh]
    decide
  unfold writesOf
  rw [sfs_init_run unset]
  rfl

/-- A disk with the magic number is left as it is. -/
theorem sfs_init_skips {d : Drive} (set : checkIfInit d = 1) (stack : Stack) :
    sfs_init stack d = some ((), d) := by
  unfold sfs_init
  rw [look_run, if_pos set]
  rfl

/-! ### What the blocks hold -/

/-- The bitmap of the inodes marks the root only. -/
def RootOnly (buf : Memory) : Prop := ∀ n < INODE_LIST_SIZE, testBit buf 4 n = 0 ↔ n = 0

/-- The bitmap of the blocks marks none. -/
def AllFree (buf : Memory) : Prop := ∀ n < BLOCK_LIST_SIZE, testBit buf 0 n = 1

/-- The first inode of the block has the path of the root. -/
def HoldsRoot (buf : Memory) : Prop := buf PATH = 47 ∧ buf (PATH + 1) = 0

theorem emptyFileSystem_iff (d : Drive) :
    EmptyFileSystem d ↔ readWord (d.blocks 0) 0 = MAGIC_NUM ∧ RootOnly (d.blocks 0) ∧
      AllFree (d.blocks 1) ∧ HoldsRoot (d.blocks 3) := by
  have magic : checkIfInit d = 1 ↔ readWord (d.blocks 0) 0 = MAGIC_NUM := by
    unfold checkIfInit
    split <;> simp_all
  constructor
  · intro empty
    exact ⟨magic.mp empty.magic, empty.inodes, empty.blocks, empty.root⟩
  · rintro ⟨set, inodes, blocks, root⟩
    exact ⟨magic.mpr set, inodes, root, blocks⟩

theorem magic_imapBlock (stack : Stack) : readWord (imapBlock stack) 0 = MAGIC_NUM := by
  have same : readWord (imapBlock stack) 0 = readWord (magicBlock stack) 0 :=
    readWord_congr fun b _ _ => if_neg (by omega)
  rw [same]
  exact readWord_writeWord _ _ _

theorem magic_rootBitBlock (stack : Stack) : readWord (rootBitBlock stack) 0 = MAGIC_NUM := by
  have same : readWord (rootBitBlock stack) 0 = readWord (imapBlock stack) 0 :=
    readWord_congr fun b _ _ => setBit_of_ne (by omega)
  rw [same]
  exact magic_imapBlock stack

/-- The bits filled with ones are set. -/
theorem getBit_fillOnes {buf : Memory} {start count n : Nat} (from_ : 8 * start ≤ n)
    (below : n < 8 * (start + count)) : getBit (fillOnes buf start count) n = true := by
  unfold getBit fillOnes
  rw [if_pos (by omega)]
  have low := Nat.mod_lt n (show 0 < 8 by decide)
  generalize n % 8 = bit at low
  revert bit
  decide

theorem rootOnly_rootBitBlock (stack : Stack) : RootOnly (rootBitBlock stack) := by
  intro n small
  unfold INODE_LIST_SIZE at small
  unfold rootBitBlock imapBlock
  rw [testBit_eq, getBit_setBit]
  by_cases root : n = 0
  · simp [root]
  · have elsewhere : ¬ 8 * 4 + n = 32 := by omega
    rw [if_neg elsewhere, getBit_fillOnes (by omega) (by unfold IMAP_SIZE; omega)]
    simp [root]

theorem not_rootOnly_imapBlock (stack : Stack) : ¬ RootOnly (imapBlock stack) := by
  intro rootOnly
  have used := (rootOnly 0 (by decide)).mpr rfl
  unfold imapBlock at used
  rw [testBit_eq, getBit_fillOnes (by decide) (by decide)] at used
  exact absurd used (by decide)

theorem rootOnly_magicBlock (stack : Stack) :
    RootOnly (magicBlock stack) ↔ RootOnly stack.fileInit := by
  have same : ∀ n, testBit (magicBlock stack) 4 n = testBit stack.fileInit 4 n := by
    intro n
    unfold testBit magicBlock
    rw [writeWord_of_outside (by omega)]
  unfold RootOnly
  simp only [same]

theorem allFree_bmapBlock (stack : Stack) : AllFree (bmapBlock stack) := by
  intro n small
  unfold BLOCK_LIST_SIZE at small
  unfold bmapBlock
  rw [testBit_eq, getBit_fillOnes (by omega) (by unfold BMAP_SIZE; omega)]
  rfl

theorem holdsRoot_rootBlock (stack : Stack) (block : Memory) : HoldsRoot (rootBlock stack block) :=
  ⟨rfl, rfl⟩

/-! ### Power cuts -/

/-- **Where a cut is repaired**: no write was made, or all were, or what the missing writes would
have put there is there by chance. -/
def Recovers (stack : Stack) (blocks : Nat → Memory) (count : Nat) : Prop :=
  count = 0 ∨ 5 ≤ count ∨ (count = 4 ∧ HoldsRoot (blocks 3)) ∨
    (count = 1 ∧ RootOnly stack.fileInit ∧ AllFree (blocks 1) ∧ HoldsRoot (blocks 3))

/-- A complete `sfs_init` on the disk. -/
def Reinitialises (stack : Stack) (blocks : Nat → Memory) : Prop :=
  ∃ d, sfs_init stack ⟨blocks, []⟩ = some ((), d) ∧ EmptyFileSystem d

theorem reinitialises_fresh {blocks : Nat → Memory} (fresh : readWord (blocks 0) 0 ≠ MAGIC_NUM)
    (stack : Stack) : Reinitialises stack blocks := by
  have unset : checkIfInit ⟨blocks, []⟩ ≠ 1 := by
    unfold checkIfInit
    rw [if_neg fresh]
    decide
  refine ⟨_, sfs_init_run unset stack, (emptyFileSystem_iff _).mpr ⟨?_, ?_, ?_, ?_⟩⟩
  · exact magic_rootBitBlock stack
  · exact rootOnly_rootBitBlock stack
  · exact allFree_bmapBlock stack
  · exact holdsRoot_rootBlock stack _

theorem reinitialises_set {blocks : Nat → Memory} (first second fourth : Memory)
    (block₀ : blocks 0 = first) (block₁ : blocks 1 = second) (block₃ : blocks 3 = fourth)
    (set : readWord first 0 = MAGIC_NUM) (stack : Stack) : Reinitialises stack blocks ↔
      RootOnly first ∧ AllFree second ∧ HoldsRoot fourth := by
  subst block₀ block₁ block₃
  have done : checkIfInit ⟨blocks, []⟩ = 1 := if_pos set
  unfold Reinitialises
  rw [sfs_init_skips done]
  constructor
  · rintro ⟨d, same, empty⟩
    cases same
    exact ((emptyFileSystem_iff _).mp empty).2
  · intro holds
    exact ⟨_, rfl, (emptyFileSystem_iff _).mpr ⟨set, holds⟩⟩

/-- The inodes of a fresh file system. -/
theorem readInode_initialised {d d' : Drive} (fresh : checkIfInit d ≠ 1) {stack : Stack}
    (ran : sfs_init stack d = some ((), d')) (i : Nat) :
    readInode d' i = if i = 0 then (rootInode stack.root).record else readInode d i := by
  rw [sfs_init_run fresh] at ran
  cases ran
  have put := readInode_putInode ((((d.write 0 (magicBlock stack)).write 0 (imapBlock stack)).write 1
    (bmapBlock stack)).write 0 (rootBitBlock stack)) 0 i (rootInode stack.root)
  refine put.trans ?_
  by_cases root : i = 0
  · rw [if_pos root, if_pos root]
  · rw [if_neg root, if_neg root]
    have one : ¬ 3 + i / numPerBlock = 1 := inodeBlock_ne i (by decide)
    have zero : ¬ 3 + i / numPerBlock = 0 := inodeBlock_ne i (by decide)
    unfold readInode
    simp only [write_blocks, one, zero, if_false]

/-- **When a later `sfs_init` repairs a cut one.** -/
theorem sfs_init_recovers_iff (blocks : Nat → Memory)
    (fresh : readWord (blocks 0) 0 ≠ MAGIC_NUM) (stack stack' : Stack) (count : Nat) :
    Reinitialises stack' (cutOff stack blocks count) ↔ Recovers stack blocks count := by
  unfold Recovers cutOff
  rw [writesOf_eq fresh]
  match count with
  | 0 =>
    have recovers := reinitialises_fresh fresh stack'
    simpa using recovers
  | 1 =>
    rw [reinitialises_set (magicBlock stack) (blocks 1) (blocks 3)
      (by simp) (by simp) (by simp) (readWord_writeWord _ _ _), rootOnly_magicBlock]
    simp
  | 2 =>
    rw [reinitialises_set (imapBlock stack) (blocks 1) (blocks 3)
      (by simp) (by simp) (by simp) (magic_imapBlock stack)]
    exact iff_of_false (fun holds => not_rootOnly_imapBlock stack holds.1) (by omega)
  | 3 =>
    rw [reinitialises_set (imapBlock stack) (bmapBlock stack) (blocks 3)
      (by simp) (by simp) (by simp) (magic_imapBlock stack)]
    exact iff_of_false (fun holds => not_rootOnly_imapBlock stack holds.1) (by omega)
  | 4 =>
    rw [reinitialises_set (rootBitBlock stack) (bmapBlock stack) (blocks 3)
      (by simp) (by simp) (by simp) (magic_rootBitBlock stack)]
    simp [rootOnly_rootBitBlock, allFree_bmapBlock]
  | more + 5 =>
    rw [reinitialises_set (rootBitBlock stack) (bmapBlock stack)
      (rootBlock stack (blocks 3)) (by simp) (by simp) (by simp) (magic_rootBitBlock stack)]
    simp [rootOnly_rootBitBlock, allFree_bmapBlock, holdsRoot_rootBlock]

/-- A disk of zeros. -/
def zeroDisk : Nat → Memory := fun _ _ => 0

/-- A stack of zeros. -/
def zeroStack : Stack := ⟨fun _ => 0, fun _ => 0, fun _ => 0⟩

/-- A cut behind the last of the five writes leaves an empty file system. -/
theorem sfs_init_recovers_zeroDisk : Reinitialises zeroStack (cutOff zeroStack zeroDisk 5) :=
  (sfs_init_recovers_iff zeroDisk (by decide) zeroStack zeroStack 5).mpr (Or.inr (Or.inl (Nat.le_refl 5)))

/-- **A cut behind the magic number is not repaired.** -/
theorem sfs_init_not_recovers :
    ¬ ∀ (blocks : Nat → Memory) (stack stack' : Stack) (count : Nat),
      readWord (blocks 0) 0 ≠ MAGIC_NUM → Reinitialises stack' (cutOff stack blocks count) := by
  intro recovers
  have recovered := recovers zeroDisk zeroStack zeroStack 1 (by decide)
  unfold cutOff at recovered
  rw [writesOf_eq (by decide), reinitialises_set (magicBlock zeroStack) (zeroDisk 1) (zeroDisk 3)
    (by simp) (by simp) (by simp) (readWord_writeWord _ _ _), rootOnly_magicBlock] at recovered
  exact absurd ((recovered.1 1 (by decide)).mp (by decide)) (by decide)

end OS2017.Files
