/-
**The disk of `sfs.c` and its metadata.**

`block.c` gives blocks of `BLOCK_SIZE` bytes; a block that was never written reads as zeros. Block 0
holds the magic number and behind it the bitmap of the inodes, block 1 the bitmap of the data blocks,
the blocks from 3 on the inodes, three in each, and the blocks from `D_BLOCK_START` on the data. In
both bitmaps a set bit is a free item.

An inode is the record it is on disk and in memory: `sizeof(inode)` bytes, with its fields at the
offsets of the x86-64 layout. `char` is signed, `int` has 32 bits, words are little-endian.

A program here has no result where C gives none: a subscript outside an array, a shift by a negative
number, a file offset that does not fit an `int`.
-/

import OS2017.Lib.Bitmap
import Mathlib.Algebra.Ring.Int.Defs

namespace OS2017.Files

open OS2017.Bytes

def BLOCK_SIZE : Nat := 16384

def MAGIC_NUM : BitVec 32 := 6942069

def IMAP_SIZE : Nat := 16

def BMAP_SIZE : Nat := 512

def INODE_LIST_SIZE : Nat := 128

def BLOCK_LIST_SIZE : Nat := 4096

def D_BLOCK_START : Nat := 50

/-- The disk file, and the `block_write` calls made on it, the latest first. -/
structure Drive where
  blocks : Nat → Memory
  written : List (Nat × Memory)

/-! ### Blocks -/

/-- `block_read`. A negative offset is an error, and the buffer is set to zeros. -/
def block_read (block_num : Int) : StateT Drive Option Memory :=
  if block_num < 0 then return fun _ => 0
  else if block_num * BLOCK_SIZE < 2 ^ 31 then look (·.blocks block_num.toNat)
  else stop

/-- One completed `block_write`. -/
def Drive.write (d : Drive) (block : Nat) (buf : Memory) : Drive :=
  ⟨Function.update d.blocks block buf, (block, buf) :: d.written⟩

/-- `block_write`. A negative offset is an error, and nothing is written. -/
def block_write (block_num : Int) (buf : Memory) : StateT Drive Option Unit :=
  if block_num < 0 then return ()
  else if block_num * BLOCK_SIZE < 2 ^ 31 then change (·.write block_num.toNat buf)
  else stop

/-! ### Bitmaps -/

/-- `(buf[start + n / 8] >> n % 8) & 0x1`. -/
def testBit (buf : Memory) (start n : Nat) : BitVec 32 :=
  ((buf (start + n / 8)).signExtend 32).sshiftRight (n % 8) &&& 0x1#32

/-- `buf[at] |= c << shift`, or `buf[at] &= ~(c << shift)`, with a `char c = 1`. -/
def assignBit (buf : Memory) (index shift : Nat) (setting : Int) : Memory :=
  Function.update buf index
    (if setting = 1 then ((buf index).signExtend 32 ||| 1#32 <<< shift).setWidth 8
    else ((buf index).signExtend 32 &&& ~~~(1#32 <<< shift)).setWidth 8)

/-- `isBlockFree`. -/
def isBlockFree (d : Drive) (n : Nat) : BitVec 32 := testBit (d.blocks 1) 0 n

/-- `setBlock`. -/
def setBlock (n setting : Int) : StateT Drive Option Unit := do
  let buf ← block_read 1
  let index := n.tdiv 8
  let shift := n.tmod 8
  if 0 ≤ index ∧ index < BLOCK_SIZE ∧ 0 ≤ shift then
    block_write 1 (assignBit buf index.toNat shift.toNat setting)
  else stop

/-- `isInodeFree`. -/
def isInodeFree (d : Drive) (n : Nat) : BitVec 32 := testBit (d.blocks 0) 4 n

/-- `setInode`. -/
def setInode (n setting : Int) : StateT Drive Option Unit := do
  let buf ← block_read 0
  let index := 4 + n.tdiv 8
  let shift := n.tmod 8
  if 0 ≤ index ∧ index < BLOCK_SIZE ∧ 0 ≤ shift then
    block_write 0 (assignBit buf index.toNat shift.toNat setting)
  else stop

/-- `findNextOpenBlock`. -/
@[irreducible] def findNextOpenBlock (d : Drive) : Int :=
  match (List.range BLOCK_LIST_SIZE).find? fun i => isBlockFree d i = 1 with
  | some i => i
  | none => -1

/-! ### Inodes -/

/-- `sizeof(inode)`. -/
def INODE_BYTES : Nat := 4368

/-- The bytes of an inode. -/
abbrev Inode := Memory

/-- The offset of `path`. -/
def PATH : Nat := 2

/-- The bytes of `path`. -/
def PATH_BYTES : Nat := 256

/-- The offset of `mode`. -/
def MODE : Nat := 260

/-- The offset of `size`. -/
def SIZE : Nat := 264

/-- The offset of `data`. -/
def DATA : Nat := 268

/-- The entries of `data`. -/
def DATA_ENTRIES : Nat := 1024

/-- The offset of `hardlinks`. -/
def HARDLINKS : Nat := 4364

namespace Inode

/-- The field `id`, a `short`. -/
def id (nd : Inode) : Int := (nd 1 ++ nd 0 : BitVec 16).toInt

def setId (nd : Inode) (value : BitVec 16) : Inode :=
  Function.update (Function.update nd 1 (value.extractLsb' 8 8)) 0 (value.extractLsb' 0 8)

def mode (nd : Inode) : BitVec 32 := readWord nd MODE

def size (nd : Inode) : Int := (readWord nd SIZE).toInt

def hardlinks (nd : Inode) : Int := (readWord nd HARDLINKS).toInt

/-- The entry `k` of `data`. -/
def data (nd : Inode) (k : Nat) : Int := (readWord nd (DATA + 4 * k)).toInt

def setMode (nd : Inode) (value : BitVec 32) : Inode := writeWord nd MODE value

def setSize (nd : Inode) (value : Int) : Inode := writeWord nd SIZE (BitVec.ofInt 32 value)

def setHardlinks (nd : Inode) (value : Int) : Inode :=
  writeWord nd HARDLINKS (BitVec.ofInt 32 value)

def setData (nd : Inode) (k : Nat) (value : Int) : Inode :=
  writeWord nd (DATA + 4 * k) (BitVec.ofInt 32 value)

/-- `memcpy(in.path, path, count)`. -/
def setPath (nd : Inode) (path : Memory) (count : Nat) : Inode := fun a =>
  if PATH ≤ a ∧ a < PATH + count then path (a - PATH) else nd a

end Inode

/-- `file.data[k]`, read. -/
def dataAt (file : Inode) (k : Int) : StateT Drive Option Int :=
  if 0 ≤ k ∧ k < DATA_ENTRIES then return file.data k.toNat else stop

/-- `file.data[k] = value`. -/
def setDataAt (file : Inode) (k value : Int) : StateT Drive Option Inode :=
  if 0 ≤ k ∧ k < DATA_ENTRIES then return file.setData k.toNat value else stop

/-- `BLOCK_SIZE / sizeof(inode)`. -/
def numPerBlock : Nat := BLOCK_SIZE / INODE_BYTES

/-- `readInode`. -/
def readInode (d : Drive) (n : Nat) : Inode := fun k =>
  if k < INODE_BYTES then d.blocks (3 + n / numPerBlock) (n % numPerBlock * INODE_BYTES + k) else 0

/-- The buffer with an inode at an offset. -/
def placeInode (buf : Memory) (start : Nat) (nd : Inode) : Memory := fun a =>
  if start ≤ a ∧ a < start + INODE_BYTES then nd (a - start) else buf a

/-- `writeInode`. -/
def writeInode (nd : Inode) : StateT Drive Option Unit := do
  let block := 3 + nd.id.tdiv numPerBlock
  let start := nd.id.tmod numPerBlock * INODE_BYTES
  let buf ← block_read block
  if 0 ≤ start then block_write block (placeInode buf start.toNat nd) else stop

end OS2017.Files
