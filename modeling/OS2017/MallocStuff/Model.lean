/-
**The allocator of `mymalloc.c`.**

An arena of `MAX_MEMORY` bytes holds a linked list of blocks. A `Block` has 16 bytes: `isFree` in the
first, the 16-bit `size` at offset 2, the pointer `next` at offset 8; the payload is behind it.

An address here is an offset from `myblock`. In the memory a pointer is the address it has in the
process, which depends on where `myblock` is placed, and `NULL` is 0. A program has no result where
it would access a header outside `myblock`.
-/

import OS2017.Lib.Bytes
import OS2017.Heap.Library

namespace OS2017.MallocStuff

open OS2017.Bytes
open OS2017.Heap (Report)

def MAX_MEMORY : Nat := 5000

/-- `sizeof(Block)`. -/
def BLOCK_SIZE : Nat := 16

/-- **Where `myblock` is placed**: not at `NULL`, and within the addresses. -/
structure Placement where
  address : Nat
  notNull : 0 < address
  fits : address + MAX_MEMORY < 2 ^ 64

/-- The pointer to an offset. -/
def Placement.pointer (place : Placement) (offset : Nat) : BitVec 64 :=
  BitVec.ofNat 64 (place.address + offset)

/-! ### The fields of a block -/

def isFree (m : Memory) (block : Nat) : Bool := m block ≠ 0

def setIsFree (m : Memory) (block : Nat) (value : Bool) : Memory :=
  Function.update m block (if value then 1 else 0)

def size (m : Memory) (block : Nat) : BitVec 16 := m (block + 3) ++ m (block + 2)

def setSize (m : Memory) (block : Nat) (value : BitVec 16) : Memory :=
  Function.update (Function.update m (block + 3) (value.extractLsb' 8 8)) (block + 2)
    (value.extractLsb' 0 8)

def next (m : Memory) (block : Nat) : BitVec 64 := readWord m (block + 12) ++ readWord m (block + 8)

def setNext (m : Memory) (block : Nat) (value : BitVec 64) : Memory :=
  writeWord (writeWord m (block + 12) (value.extractLsb' 32 32)) (block + 8)
    (value.extractLsb' 0 32)

/-! ### The code -/

/-- `myblock`, and `firstMalloc`. -/
structure Heap where
  memory : Memory
  firstMalloc : Bool

/-- `initializeRoot`. -/
def initializeRoot (m : Memory) : Memory :=
  setNext (setSize (setIsFree m 0 true) 0 (BitVec.ofNat 16 (MAX_MEMORY - BLOCK_SIZE))) 0 0

/-- The header at an offset is in `myblock`. -/
def InBlock (block : Nat) : Prop := block + BLOCK_SIZE ≤ MAX_MEMORY

instance (block : Nat) : Decidable (InBlock block) := by
  unfold InBlock
  infer_instance

section Calls

variable (place : Placement)

/-- `current->next`: nothing if it is `NULL`; no result if it is not in `myblock`. -/
def follow (m : Memory) (current : Nat) : Option (Option Nat) :=
  if next m current = 0 then some none
  else if place.address ≤ (next m current).toNat ∧ InBlock ((next m current).toNat - place.address)
    then some (some ((next m current).toNat - place.address))
  else none

/-- The block `current` is cut in two, and the first part is handed out. -/
def splitBlock (m : Memory) (current request : Nat) (sizeWithBlock : BitVec 16) : Memory :=
  let newBlock := current + sizeWithBlock.toNat
  let m := setIsFree m newBlock true
  let m := setSize m newBlock (size m current - sizeWithBlock)
  let m := setNext m newBlock (next m current)
  let m := setNext m current (place.pointer newBlock)
  let m := setSize m current (BitVec.ofNat 16 request)
  setIsFree m current false

/-- The loop of `mymalloc` from `current` on. The request is a `size_t`, `sizeWithBlock` an
`unsigned short`. -/
def mallocLoop (request : Nat) (sizeWithBlock : BitVec 16) : Nat → Nat → Memory →
    Option (Option Nat × Memory)
  | 0, _, _ => none
  | fuel + 1, current, m =>
    if isFree m current ∧ (size m current).toNat = request then
      some (some (current + BLOCK_SIZE), setIsFree m current false)
    else if isFree m current ∧ request ≤ (size m current).toNat ∧ sizeWithBlock ≤ size m current then
      if InBlock (current + sizeWithBlock.toNat) then
        some (some (current + BLOCK_SIZE), splitBlock place m current request sizeWithBlock)
      else none
    else
      match follow place m current with
      | none => none
      | some none => some (none, m)
      | some (some next) => mallocLoop request sizeWithBlock fuel next m

/-- `mymalloc`; no result is `NULL`. -/
def mymalloc (request : Nat) : StateT Heap Option (Option Nat) := fun heap =>
  let m := if heap.firstMalloc then initializeRoot heap.memory else heap.memory
  (mallocLoop place request (BitVec.ofNat 16 (request + BLOCK_SIZE)) MAX_MEMORY 0 m).map
    fun (result, m) => (result, ⟨m, false⟩)

/-- The block at `left` takes in the one at `right`. -/
def mergeBlocks (m : Memory) (left right : Nat) : Memory :=
  let m := setSize m left (size m left + (size m right + BitVec.ofNat 16 BLOCK_SIZE))
  setNext m left (next m right)

/-- `current` is marked as free, and merged with the block behind it if that is free. -/
def freeBlock (m : Memory) (current : Nat) : Option Memory :=
  let m := setIsFree m current true
  match follow place m current with
  | none => none
  | some none => some m
  | some (some next) => some (if isFree m next then mergeBlocks m current next else m)

/-- `current` is merged into the block before it if that is free. -/
def mergePrevious (m : Memory) (previous : Option Nat) (current : Nat) : Memory :=
  match previous with
  | none => m
  | some previous => if isFree m previous then mergeBlocks m previous current else m

/-- The loop of `freeAndMerge` from `current` on, with `previous` before it. -/
def freeAndMergeLoop (toFree : Nat) : Nat → Option Nat → Nat → Memory → Option (Bool × Memory)
  | 0, _, _, _ => none
  | fuel + 1, previous, current, m =>
    if current = toFree then
      (freeBlock place m current).map fun m => (true, mergePrevious m previous current)
    else
      match follow place m current with
      | none => none
      | some none => some (false, m)
      | some (some next) => freeAndMergeLoop toFree fuel (some current) next m

/-- `inMemorySpace`. -/
def inMemorySpace (ptr : Nat) : Prop := ptr ≤ MAX_MEMORY - 1

instance (ptr : Nat) : Decidable (inMemorySpace ptr) := by
  unfold inMemorySpace
  infer_instance

/-- `myfree`, on a pointer from `myblock` on. -/
def myfree (ptr : Nat) : StateT Heap Option Report := fun heap =>
  if inMemorySpace ptr then
    if ptr < BLOCK_SIZE then none
    else if isFree heap.memory (ptr - BLOCK_SIZE) then some (.alreadyFreed, heap)
    else (freeAndMergeLoop place (ptr - BLOCK_SIZE) MAX_MEMORY none 0 heap.memory).map
      fun (found, m) => (if found then .freed else .notCreated, { heap with memory := m })
  else some (.notCreated, heap)

end Calls

end OS2017.MallocStuff
