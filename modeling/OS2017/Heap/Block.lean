/-
**The blocks of the heaps of `my_pthread.c`.**

A block is a header word and its payload. The header packs the payload's size in 24 bits, the flag
`isNext` in four and the flag `isF` in four; the next header is found behind the payload. The
library heap and the heap of each thread run the same code on it: the first-fit loop of
`myallocate` and `freeAndMerge`.

The code is written over a `Store`, since a header of a thread's heap may be in a page that has to
be fetched first. An address is an offset, from `memory` for the library heap and from `userSpace`
for the heaps of the threads. Where the source reads one header several times in a row, with nothing
in between, the model reads it once.
-/

import OS2017.Lib.Bytes
import OS2017.Lib.BitField

namespace OS2017.Heap

open OS2017.Bytes OS2017.BitField

/-- `BLOCK_SIZE`: the bytes of a header. -/
def BLOCK_SIZE : Nat := 4

/-- `PAGESIZE`. -/
def PAGESIZE : Nat := 4096

/-- `LIBPAGES`: the pages of the library heap. -/
def LIBPAGES : Nat := 200

/-- `MAX_MEMORY`: the bytes of `memory`. -/
def MAX_MEMORY : Nat := 8388608

/-! ### Header fields -/

def setBlockSize (block size : BitVec 32) : BitVec 32 := (size <<< 8) ||| (block &&& 0x000000FF#32)

def getBlockSize (block : BitVec 32) : BitVec 32 := (block >>> 8) &&& 0x00FFFFFF#32

def setBlockIsNext (block isNext : BitVec 32) : BitVec 32 :=
  (isNext <<< 4) ||| (block &&& 0xFFFFFF0F#32)

def getBlockIsNext (block : BitVec 32) : BitVec 32 := (block >>> 4) &&& 0x0000000F#32

def setBlockIsF (block isF : BitVec 32) : BitVec 32 := (block &&& 0xFFFFFFF0#32) ||| isF

def getBlockIsF (block : BitVec 32) : BitVec 32 := block &&& 0x0000000F#32

section Fields

variable (w v : BitVec 32)

theorem getBlockSize_eq : getBlockSize w = getField 8 24 w := rfl

theorem getBlockIsNext_eq : getBlockIsNext w = getField 4 4 w := rfl

theorem getBlockIsF_eq : getBlockIsF w = getField 0 4 w :=
  congrArg (· &&& 0x0000000F#32) (BitVec.ushiftRight_zero w).symm

theorem setBlockSize_eq : setBlockSize w v = setField 8 24 w v := BitVec.or_comm _ _

theorem setBlockIsNext_eq : setBlockIsNext w v = setField 4 4 w v := BitVec.or_comm _ _

theorem setBlockIsF_eq : setBlockIsF w v = setField 0 4 w v := by
  unfold setBlockIsF setField
  rw [BitVec.shiftLeft_zero, BitVec.shiftLeft_zero]
  rfl

variable {w v}

theorem getBlockSize_setBlockSize (fits : v.toNat < 2 ^ 24) :
    getBlockSize (setBlockSize w v) = v := by
  rw [getBlockSize_eq, setBlockSize_eq, getField_setField w fits (by decide)]

theorem getBlockSize_setBlockIsNext (fits : v.toNat < 2 ^ 4) :
    getBlockSize (setBlockIsNext w v) = getBlockSize w := by
  rw [getBlockSize_eq, setBlockIsNext_eq,
    getField_setField_of_apart w fits (by decide) (by decide), getBlockSize_eq]

theorem getBlockSize_setBlockIsF (fits : v.toNat < 2 ^ 4) :
    getBlockSize (setBlockIsF w v) = getBlockSize w := by
  rw [getBlockSize_eq, setBlockIsF_eq,
    getField_setField_of_apart w fits (by decide) (by decide), getBlockSize_eq]

theorem getBlockIsNext_setBlockIsNext (fits : v.toNat < 2 ^ 4) :
    getBlockIsNext (setBlockIsNext w v) = v := by
  rw [getBlockIsNext_eq, setBlockIsNext_eq, getField_setField w fits (by decide)]

theorem getBlockIsNext_setBlockSize (fits : v.toNat < 2 ^ 24) :
    getBlockIsNext (setBlockSize w v) = getBlockIsNext w := by
  rw [getBlockIsNext_eq, setBlockSize_eq,
    getField_setField_of_apart w fits (by decide) (by decide), getBlockIsNext_eq]

theorem getBlockIsNext_setBlockIsF (fits : v.toNat < 2 ^ 4) :
    getBlockIsNext (setBlockIsF w v) = getBlockIsNext w := by
  rw [getBlockIsNext_eq, setBlockIsF_eq,
    getField_setField_of_apart w fits (by decide) (by decide), getBlockIsNext_eq]

theorem getBlockIsF_setBlockIsF (fits : v.toNat < 2 ^ 4) : getBlockIsF (setBlockIsF w v) = v := by
  rw [getBlockIsF_eq, setBlockIsF_eq, getField_setField w fits (by decide)]

theorem getBlockIsF_setBlockSize (fits : v.toNat < 2 ^ 24) :
    getBlockIsF (setBlockSize w v) = getBlockIsF w := by
  rw [getBlockIsF_eq, setBlockSize_eq,
    getField_setField_of_apart w fits (by decide) (by decide), getBlockIsF_eq]

theorem getBlockIsF_setBlockIsNext (fits : v.toNat < 2 ^ 4) :
    getBlockIsF (setBlockIsNext w v) = getBlockIsF w := by
  rw [getBlockIsF_eq, setBlockIsNext_eq,
    getField_setField_of_apart w fits (by decide) (by decide), getBlockIsF_eq]

theorem toNat_getBlockSize_lt : (getBlockSize w).toNat < 2 ^ 24 := toNat_getField_lt 8 24 w

end Fields

/-! ### The code -/

variable {σ : Type} (mem : Store σ)

/-- `getNextBlock`. -/
def getNextBlock (block : Nat) : StateT σ Option (Option Nat) := do
  let word ← mem.load block
  if getBlockIsNext word = 0 then return none
  else return some (block + (getBlockSize word).toNat + BLOCK_SIZE)

/-- The end of `myallocate` where a block is cut in two: the new free block behind the payload
first, then the block that is handed out. -/
def splitBlock (current size : Nat) (sizeWithBlock : BitVec 32) : StateT σ Option Unit := do
  let newBlock := current + sizeWithBlock.toNat
  mem.modify newBlock (setBlockIsF · 1)
  let word ← mem.load current
  mem.modify newBlock (setBlockSize · (getBlockSize word - sizeWithBlock))
  let word ← mem.load current
  mem.modify newBlock (setBlockIsNext · (getBlockIsNext word))
  mem.modify current (setBlockSize · (BitVec.ofNat 32 size))
  mem.modify current (setBlockIsNext · 1)
  mem.modify current (setBlockIsF · 0)

/-- How the search of `myallocate` ends: with a pointer to hand out, or behind the last block. -/
inductive Search
  | found (ptr : Nat)
  | exhausted (prev : Nat)
  deriving DecidableEq

/-- The first-fit loop of `myallocate` from `current` on. The size is a `size_t`; `sizeWithBlock` is
an `unsigned int`. A block that is taken, or too small, or with too little left for the header of
the rest, is passed over. -/
def firstFitLoop (size : Nat) (sizeWithBlock : BitVec 32) : Nat → Nat → StateT σ Option Search
  | 0, _ => fun _ => none
  | fuel + 1, current => do
    let word ← mem.load current
    if getBlockIsF word = 1 ∧ (getBlockSize word).toNat = size then
      mem.modify current (setBlockIsF · 0)
      return .found (current + BLOCK_SIZE)
    else if getBlockIsF word = 1 ∧ size ≤ (getBlockSize word).toNat ∧
        sizeWithBlock ≤ getBlockSize word then
      splitBlock mem current size sizeWithBlock
      return .found (current + BLOCK_SIZE)
    else
      match ← getNextBlock mem current with
      | none => return .exhausted current
      | some next => firstFitLoop size sizeWithBlock fuel next

/-- `sizeWithBlock`: the truncated sum. -/
def sizeWithBlock (size : Nat) : BitVec 32 := BitVec.ofNat 32 (size + BLOCK_SIZE)

/-- The block at `left` takes in the one behind it, at `right`. -/
def mergeBlocks (left right : Nat) : StateT σ Option Unit := do
  let word ← mem.load right
  mem.modify left fun w =>
    setBlockSize w (getBlockSize w + getBlockSize word + BitVec.ofNat 32 BLOCK_SIZE)
  let word ← mem.load right
  mem.modify left (setBlockIsNext · (getBlockIsNext word))

/-- Mark `current` as free and merge it with the block behind it if that is free. -/
def freeBlock (current : Nat) : StateT σ Option Unit := do
  mem.modify current (setBlockIsF · 1)
  match ← getNextBlock mem current with
  | none => return ()
  | some next =>
    let word ← mem.load next
    if getBlockIsF word = 1 then mergeBlocks mem current next else return ()

/-- Merge `current` into the block before it if that is free. -/
def mergePrevious (previous : Option Nat) (current : Nat) : StateT σ Option Unit :=
  match previous with
  | none => return ()
  | some previous => do
    let word ← mem.load previous
    if getBlockIsF word = 1 then mergeBlocks mem previous current else return ()

/-- The loop of `freeAndMerge` from `current` on, with `previous` behind it. -/
def freeAndMergeLoop (toFree : Nat) : Nat → Option Nat → Nat → StateT σ Option Bool
  | 0, _, _ => fun _ => none
  | fuel + 1, previous, current =>
    if current = toFree then do
      freeBlock mem current
      mergePrevious mem previous current
      return true
    else do
      match ← getNextBlock mem current with
      | none => return false
      | some next => freeAndMergeLoop toFree fuel (some current) next

end OS2017.Heap
