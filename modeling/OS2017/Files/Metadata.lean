/-
**The items of the disk are independent.**

A bit of a bitmap, an inode and a data block are changed by `markBlock`, `markInode`, `putInode` and
`putData`; the functions of `sfs.c` that write metadata do exactly that on indices in range. Each item
reads back what was last put there, and no other item changes.
-/

import OS2017.Files.Records

namespace OS2017.Files

open OS2017.Bytes OS2017.Bitmap

/-! ### Bits -/

theorem testBit_eq (buf : Memory) (start n : Nat) :
    testBit buf start n = if getBit buf (8 * start + n) then 1 else 0 := by
  have byte : (8 * start + n) / 8 = start + n / 8 := by omega
  have bit : (8 * start + n) % 8 = n % 8 := by omega
  unfold testBit getBit
  rw [byte, bit]
  generalize buf (start + n / 8) = w
  have low : n % 8 < 8 := Nat.mod_lt n (by decide)
  refine BitVec.eq_of_getLsbD_eq fun i bound => ?_
  rw [BitVec.getLsbD_and, BitVec.getLsbD_one, BitVec.getLsbD_sshiftRight]
  by_cases zero : i = 0
  · subst zero
    rw [BitVec.getLsbD_signExtend]
    cases w.getLsbD (n % 8) <;> simp [low]
    all_goals omega
  · cases w.getLsbD (n % 8) <;> simp [zero]

theorem assignBit_eq (buf : Memory) (index shift : Nat) (setting : Int) (inside : shift < 8) :
    assignBit buf index shift setting = setBit buf (8 * index + shift) (setting == 1) := by
  have byte : (8 * index + shift) / 8 = index := by omega
  have bit : (8 * index + shift) % 8 = shift := by omega
  unfold assignBit setBit setByteBit
  rw [byte, bit]
  refine congrArg (Function.update buf index) ?_
  generalize buf index = w
  have promoted : ∀ i < 8, (w.signExtend 32).getLsbD i = w.getLsbD i := by
    intro i bound
    rw [BitVec.getLsbD_signExtend]
    simp [bound, show i < 32 by omega]
  by_cases one : setting = 1
  · rw [if_pos one, if_pos (by simp [one])]
    refine BitVec.eq_of_getLsbD_eq fun i bound => ?_
    rw [BitVec.getLsbD_setWidth, BitVec.getLsbD_or, BitVec.getLsbD_or, promoted i bound,
      BitVec.getLsbD_shiftLeft, BitVec.getLsbD_shiftLeft, BitVec.getLsbD_one, BitVec.getLsbD_one]
    simp [bound, show i < 32 by omega]
  · rw [if_neg one, if_neg (by simp [one])]
    refine BitVec.eq_of_getLsbD_eq fun i bound => ?_
    rw [BitVec.getLsbD_setWidth, BitVec.getLsbD_and, BitVec.getLsbD_and, promoted i bound,
      BitVec.getLsbD_not, BitVec.getLsbD_not, BitVec.getLsbD_shiftLeft, BitVec.getLsbD_shiftLeft,
      BitVec.getLsbD_one, BitVec.getLsbD_one]
    simp [bound, show i < 32 by omega]

/-! ### The items -/

section Items

variable (d : Drive)

/-- The data block `n` is marked free. -/
def Drive.blockFree (n : Nat) : Bool := getBit (d.blocks 1) n

/-- The inode `n` is marked free. -/
def Drive.inodeFree (n : Nat) : Bool := getBit (d.blocks 0) (32 + n)

/-- The bytes of the data block `n`. -/
def Drive.content (n : Nat) : Memory := d.blocks (D_BLOCK_START + n)

/-- The magic number. -/
def Drive.magic : BitVec 32 := readWord (d.blocks 0) 0

/-- Mark the data block `n`. -/
def Drive.markBlock (n : Nat) (free : Bool) : Drive := d.write 1 (setBit (d.blocks 1) n free)

/-- Mark the inode `n`. -/
def Drive.markInode (n : Nat) (free : Bool) : Drive := d.write 0 (setBit (d.blocks 0) (32 + n) free)

/-- Put the inode `n`. -/
def Drive.putInode (n : Nat) (nd : Inode) : Drive :=
  d.write (3 + n / numPerBlock)
    (placeInode (d.blocks (3 + n / numPerBlock)) (n % numPerBlock * INODE_BYTES) nd)

/-- Put the data block `n`. -/
def Drive.putData (n : Nat) (buf : Memory) : Drive := d.write (D_BLOCK_START + n) buf

end Items

theorem isBlockFree_eq (d : Drive) (n : Nat) :
    isBlockFree d n = if d.blockFree n then 1 else 0 := by
  unfold isBlockFree Drive.blockFree
  rw [testBit_eq, Nat.mul_zero, Nat.zero_add]

theorem isInodeFree_eq (d : Drive) (n : Nat) :
    isInodeFree d n = if d.inodeFree n then 1 else 0 := by
  unfold isInodeFree Drive.inodeFree
  rw [testBit_eq]

theorem isBlockFree_eq_one {d : Drive} {n : Nat} : isBlockFree d n = 1 ↔ d.blockFree n = true := by
  rw [isBlockFree_eq]
  cases d.blockFree n <;> decide

theorem isInodeFree_eq_one {d : Drive} {n : Nat} : isInodeFree d n = 1 ↔ d.inodeFree n = true := by
  rw [isInodeFree_eq]
  cases d.inodeFree n <;> decide

theorem isInodeFree_eq_zero {d : Drive} {n : Nat} :
    isInodeFree d n = 0 ↔ d.inodeFree n = false := by
  rw [isInodeFree_eq]
  cases d.inodeFree n <;> decide

/-- The inodes are behind the bitmaps. -/
theorem inodeBlock_ne (k : Nat) {block : Nat} (low : block < 3) :
    ¬ 3 + k / numPerBlock = block :=
  fun same => Nat.not_le.mpr low (same ▸ Nat.le_add_right 3 _)

/-! ### Each write is one item -/

theorem block_read_run {α : Type} {n : Nat} (small : n < 131072)
    (rest : Memory → StateT Drive Option α) (d : Drive) :
    (block_read n >>= rest) d = rest (d.blocks n) d := by
  unfold block_read BLOCK_SIZE
  rw [if_neg (by omega), if_pos (by omega)]
  rfl

theorem block_write_run {n : Nat} (small : n < 131072) (buf : Memory) (d : Drive) :
    block_write n buf d = some ((), d.write n buf) := by
  unfold block_write BLOCK_SIZE
  rw [if_neg (by omega), if_pos (by omega)]
  rfl

theorem setBlock_run {n : Nat} (small : n < 131072) (setting : Int) (d : Drive) :
    setBlock n setting d = some ((), d.markBlock n (setting == 1)) := by
  have index : (n : Int).tdiv 8 = (n / 8 : Nat) := (Int.ofNat_tdiv n 8).symm
  have shift : (n : Int).tmod 8 = (n % 8 : Nat) := (Int.ofNat_tmod n 8).symm
  have whole : 8 * (n / 8) + n % 8 = n := Nat.div_add_mod n 8
  have one : (1 : Int) = (1 : Nat) := rfl
  unfold setBlock
  rw [index, shift, one, block_read_run (by decide), if_pos (by unfold BLOCK_SIZE; omega),
    Int.toNat_natCast, Int.toNat_natCast, assignBit_eq _ _ _ _ (Nat.mod_lt n (by decide)), whole,
    block_write_run (by decide)]
  rfl

theorem setInode_run {n : Nat} (small : n < INODE_LIST_SIZE) (setting : Int) (d : Drive) :
    setInode n setting d = some ((), d.markInode n (setting == 1)) := by
  unfold INODE_LIST_SIZE at small
  have index : 4 + (n : Int).tdiv 8 = (4 + n / 8 : Nat) :=
    congrArg (4 + ·) (Int.ofNat_tdiv n 8).symm
  have shift : (n : Int).tmod 8 = (n % 8 : Nat) := (Int.ofNat_tmod n 8).symm
  have whole : 8 * (4 + n / 8) + n % 8 = 32 + n := by omega
  have zero : (0 : Int) = (0 : Nat) := rfl
  unfold setInode
  rw [index, shift, zero, block_read_run (by decide), if_pos (by unfold BLOCK_SIZE; omega),
    Int.toNat_natCast, Int.toNat_natCast, assignBit_eq _ _ _ _ (Nat.mod_lt n (by decide)), whole,
    block_write_run (by decide)]
  rfl

theorem writeInode_run {nd : Inode} {n : Nat} (slot : nd.id = n) (small : n < INODE_LIST_SIZE)
    (d : Drive) : writeInode nd d = some ((), d.putInode n nd) := by
  unfold INODE_LIST_SIZE at small
  have three : (numPerBlock : Int) = 3 := rfl
  have block : 3 + (n : Int).tdiv 3 = (3 + n / 3 : Nat) :=
    congrArg (3 + ·) (Int.ofNat_tdiv n 3).symm
  have start : (n : Int).tmod 3 * (INODE_BYTES : Int) = (n % 3 * INODE_BYTES : Nat) :=
    congrArg (· * (INODE_BYTES : Int)) (Int.ofNat_tmod n 3).symm
  unfold writeInode
  rw [slot, three, block, start, block_read_run (by omega), if_pos (by omega), Int.toNat_natCast,
    block_write_run (by omega)]
  rfl

/-! ### An item reads back what was put there -/

section Independent

variable (d : Drive)

theorem write_blocks (block block' : Nat) (buf : Memory) :
    (d.write block buf).blocks block' = if block' = block then buf else d.blocks block' := by
  show Function.update d.blocks block buf block' = _
  rw [Function.update_apply]

@[simp] theorem blockFree_markBlock (n k : Nat) (free : Bool) :
    (d.markBlock n free).blockFree k = if k = n then free else d.blockFree k := by
  unfold Drive.blockFree Drive.markBlock
  rw [write_blocks, if_pos rfl, getBit_setBit]

@[simp] theorem blockFree_markInode (n k : Nat) (free : Bool) :
    (d.markInode n free).blockFree k = d.blockFree k := by
  unfold Drive.blockFree Drive.markInode
  rw [write_blocks, if_neg (by decide)]

@[simp] theorem blockFree_putInode (n k : Nat) (nd : Inode) :
    (d.putInode n nd).blockFree k = d.blockFree k := by
  unfold Drive.blockFree Drive.putInode
  rw [write_blocks, if_neg (Ne.symm (inodeBlock_ne n (by decide)))]

@[simp] theorem blockFree_putData (n k : Nat) (buf : Memory) :
    (d.putData n buf).blockFree k = d.blockFree k := by
  unfold Drive.blockFree Drive.putData D_BLOCK_START
  rw [write_blocks, if_neg (by omega)]

@[simp] theorem inodeFree_markInode (n k : Nat) (free : Bool) :
    (d.markInode n free).inodeFree k = if k = n then free else d.inodeFree k := by
  unfold Drive.inodeFree Drive.markInode
  rw [write_blocks, if_pos rfl, getBit_setBit]
  by_cases here : k = n
  · rw [if_pos here, if_pos (by omega)]
  · rw [if_neg here, if_neg (by omega)]

@[simp] theorem inodeFree_markBlock (n k : Nat) (free : Bool) :
    (d.markBlock n free).inodeFree k = d.inodeFree k := by
  unfold Drive.inodeFree Drive.markBlock
  rw [write_blocks, if_neg (by decide)]

@[simp] theorem inodeFree_putInode (n k : Nat) (nd : Inode) :
    (d.putInode n nd).inodeFree k = d.inodeFree k := by
  unfold Drive.inodeFree Drive.putInode
  rw [write_blocks, if_neg (Ne.symm (inodeBlock_ne n (by decide)))]

@[simp] theorem inodeFree_putData (n k : Nat) (buf : Memory) :
    (d.putData n buf).inodeFree k = d.inodeFree k := by
  unfold Drive.inodeFree Drive.putData D_BLOCK_START
  rw [write_blocks, if_neg (by omega)]

@[simp] theorem readInode_markBlock (n k : Nat) (free : Bool) :
    readInode (d.markBlock n free) k = readInode d k := by
  unfold readInode Drive.markBlock
  simp only [write_blocks, inodeBlock_ne k (show 1 < 3 by decide), if_false]

@[simp] theorem readInode_markInode (n k : Nat) (free : Bool) :
    readInode (d.markInode n free) k = readInode d k := by
  unfold readInode Drive.markInode
  simp only [write_blocks, inodeBlock_ne k (show 0 < 3 by decide), if_false]

theorem readInode_putData (n : Nat) {k : Nat} (buf : Memory) (small : k < INODE_LIST_SIZE) :
    readInode (d.putData n buf) k = readInode d k := by
  have apart : ¬ 3 + k / numPerBlock = D_BLOCK_START + n := by
    have three : numPerBlock = 3 := rfl
    unfold INODE_LIST_SIZE at small
    unfold D_BLOCK_START
    rw [three]
    omega
  unfold readInode Drive.putData
  simp only [write_blocks, apart, if_false]

theorem readInode_putInode (n k : Nat) (nd : Inode) :
    readInode (d.putInode n nd) k = if k = n then nd.record else readInode d k := by
  have three : numPerBlock = 3 := rfl
  have bytes : INODE_BYTES = 4368 := rfl
  have low := Nat.mod_lt k (show 0 < 3 by decide)
  have low' := Nat.mod_lt n (show 0 < 3 by decide)
  funext a
  unfold readInode Drive.putInode Inode.record placeInode
  rw [write_blocks, three]
  by_cases inside : a < INODE_BYTES
  · by_cases here : k = n
    · subst here
      simp only [inside, if_true]
      rw [if_pos (by omega), Nat.add_sub_cancel_left]
    · simp only [inside, if_true, here, if_false]
      by_cases block : 3 + k / 3 = 3 + n / 3
      · rw [if_pos block, if_neg (by rw [bytes] at inside ⊢; omega), block]
      · rw [if_neg block]
  · by_cases here : k = n
    · simp [inside, here]
    · simp [inside, here]

theorem content_putData (n k : Nat) (buf : Memory) :
    (d.putData n buf).content k = if k = n then buf else d.content k := by
  unfold Drive.content Drive.putData
  rw [write_blocks]
  by_cases here : k = n
  · rw [if_pos here, if_pos (by omega)]
  · rw [if_neg here, if_neg (by omega)]

theorem content_markBlock (n : Nat) (free : Bool) :
    (d.markBlock n free).content = d.content := by
  funext k
  unfold Drive.content Drive.markBlock D_BLOCK_START
  rw [write_blocks, if_neg (by omega)]

theorem content_markInode (n : Nat) (free : Bool) :
    (d.markInode n free).content = d.content := by
  funext k
  unfold Drive.content Drive.markInode D_BLOCK_START
  rw [write_blocks, if_neg (by omega)]

theorem content_putInode {i : Nat} (small : i < INODE_LIST_SIZE) (file : Inode) (k : Nat) :
    (d.putInode i file).content k = d.content k := by
  have apart : ¬ D_BLOCK_START + k = 3 + i / numPerBlock := by
    have three : numPerBlock = 3 := rfl
    unfold INODE_LIST_SIZE at small
    unfold D_BLOCK_START
    rw [three]
    omega
  unfold Drive.content Drive.putInode
  rw [write_blocks, if_neg apart]

@[simp] theorem magic_markBlock (n : Nat) (free : Bool) : (d.markBlock n free).magic = d.magic := by
  unfold Drive.magic Drive.markBlock
  rw [write_blocks, if_neg (by decide)]

/-- The bitmap of the inodes begins behind the magic number. -/
@[simp] theorem magic_markInode (n : Nat) (free : Bool) : (d.markInode n free).magic = d.magic := by
  unfold Drive.magic Drive.markInode
  rw [write_blocks, if_pos rfl]
  exact readWord_congr fun b _ below => setBit_of_ne (by omega)

@[simp] theorem magic_putInode (n : Nat) (nd : Inode) : (d.putInode n nd).magic = d.magic := by
  unfold Drive.magic Drive.putInode
  rw [write_blocks, if_neg (Ne.symm (inodeBlock_ne n (by decide)))]

@[simp] theorem magic_putData (n : Nat) (buf : Memory) : (d.putData n buf).magic = d.magic := by
  unfold Drive.magic Drive.putData D_BLOCK_START
  rw [write_blocks, if_neg (by omega)]

end Independent

end OS2017.Files
