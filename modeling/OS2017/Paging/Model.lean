/-
**The paged memory of `my_pthread.c`.**

User space is `USER_PAGES` frames behind the library heap, all threads at the same addresses: a
thread's page `k` has to be in frame `k` while the thread uses it. `pages` labels each frame and
`diskPages` each slot of the swap file with a thread id, a page id and a free flag. `mprotect` is a
bit for each frame; an access to a protected frame calls `sigHandler`, which fetches the page of the
running thread, or ends the process.

A program here has no result where the process ends: `exit`, or an index outside a table. The
scheduler exists (`scd != NULL`), which `myallocate` has checked before it comes here, and with it
`timerSet` holds. Swap-file transfers are complete.

### The timer

`ITIMER_REAL` is one remaining time, `0` when it is disarmed. `pause_timer` saves it in
`scd->timer`, of which there is only one.
-/

import OS2017.Heap.Library

namespace OS2017.Paging

open OS2017.Bytes OS2017.Heap

/-- `MAX_MEMORY / PAGESIZE - LIBPAGES`: the frames of user space. -/
def USER_PAGES : Nat := MAX_MEMORY / PAGESIZE - LIBPAGES

/-- `DISK_MEMORY / PAGESIZE`: the slots of the swap file. -/
def DISK_PAGES : Nat := 16777216 / PAGESIZE

/-! ### Entries of the page tables -/

def setPagePgID (pg id : BitVec 32) : BitVec 32 := (id <<< 16) ||| (pg &&& 0x0000FFFF#32)

def getPagePgID (pg : BitVec 32) : BitVec 32 := (pg >>> 16) &&& 0x0000FFFF#32

def setPageThID (pg id : BitVec 32) : BitVec 32 := (id <<< 8) ||| (pg &&& 0xFFFF00FF#32)

def getPageThID (pg : BitVec 32) : BitVec 32 := (pg >>> 8) &&& 0x000000FF#32

def setPageIsF (pg free : BitVec 32) : BitVec 32 := (pg &&& 0xFFFFFF00#32) ||| free

def getPageIsF (pg : BitVec 32) : BitVec 32 := pg &&& 0x000000FF#32

/-- `ITIMER_REAL` and the time saved in `scd->timer`. -/
structure Timer where
  remaining : Nat
  saved : Nat
  deriving DecidableEq

/-- The memory of the process and what the library knows of it. -/
structure Machine where
  /-- the frames, from `userSpace` on -/
  frames : Memory
  /-- the swap file -/
  swpFile : Memory
  pages : Nat → BitVec 32
  diskPages : Nat → BitVec 32
  /-- the frames that are not protected -/
  accessible : Nat → Bool
  /-- `scd->current->threadID->id` -/
  thread : Nat
  /-- `pageNum` of each thread -/
  pageNum : Nat → Nat
  timer : Timer

/-! ### Timer, protection, copies -/

/-- `QUANTA_TIME * 1000`: what `initialize` arms the timer with. -/
def QUANTUM : Nat := 100000

/-- `pause_timer(scd->timer)`. -/
def pause_timer : StateT Machine Option Unit :=
  change fun m => { m with timer := ⟨0, m.timer.remaining⟩ }

/-- `unpause_timer(scd->timer)`. -/
def unpause_timer : StateT Machine Option Unit :=
  change fun m => { m with timer := ⟨m.timer.saved, m.timer.saved⟩ }

/-- `mprotect` on one frame. -/
def mprotect (index : Nat) (access : Bool) : StateT Machine Option Unit :=
  change fun m => { m with accessible := Function.update m.accessible index access }

/-- The memory `dst` with its page `target` replaced by the page `source` of `src`. -/
def copyPage (dst src : Memory) (target source : Nat) : Memory := fun a =>
  if a / PAGESIZE = target then src (source * PAGESIZE + a % PAGESIZE) else dst a

/-- `pages[index] = pg`. -/
def setPage (index : Nat) (pg : BitVec 32) : StateT Machine Option Unit :=
  change fun m => { m with pages := Function.update m.pages index pg }

/-- `pageSwap`. -/
def pageSwap (initial swapTo : Nat) : StateT Machine Option Unit :=
  if initial = swapTo then return ()
  else do
    mprotect swapTo true
    mprotect initial true
    change fun m =>
      { m with
        frames := copyPage (copyPage m.frames m.frames swapTo initial) m.frames initial swapTo
        pages := Function.update (Function.update m.pages swapTo (m.pages initial)) initial
          (m.pages swapTo) }
    mprotect swapTo false
    mprotect initial false

/-- `swapToMemFromDisk`. -/
def swapToMemFromDisk (inMem fromDisk : Nat) : StateT Machine Option Unit :=
  if inMem < USER_PAGES then do
    pause_timer
    mprotect inMem true
    change fun m =>
      { m with
        frames := copyPage m.frames m.swpFile inMem fromDisk
        swpFile := copyPage m.swpFile m.frames fromDisk inMem
        diskPages := Function.update m.diskPages fromDisk (m.pages inMem)
        pages := Function.update m.pages inMem (m.diskPages fromDisk) }
    mprotect inMem false
    unpause_timer
  else stop

/-- The first frame labelled with the running thread and the page, whatever its free flag. -/
@[irreducible] def frameOf (m : Machine) (page : Nat) : Option Nat :=
  (List.range USER_PAGES).find? fun i =>
    (getPageThID (m.pages i)).toNat = m.thread ∧ (getPagePgID (m.pages i)).toNat = page

/-- The first slot in use that is labelled with the running thread and the page. -/
@[irreducible] def slotOf (m : Machine) (page : Nat) : Option Nat :=
  (List.range DISK_PAGES).find? fun i =>
    getPageIsF (m.diskPages i) = 0 ∧ (getPageThID (m.diskPages i)).toNat = m.thread ∧
      (getPagePgID (m.diskPages i)).toNat = page

/-- The place of an entry. -/
inductive Place
  | frame (i : Nat)
  | slot (i : Nat)
  deriving DecidableEq

/-- The place of a page of the running thread, as `sigHandler` searches it. -/
def located (m : Machine) (page : Nat) : Option Place :=
  match frameOf m page with
  | some i => some (.frame i)
  | none => (slotOf m page).map .slot

/-- `sigHandler` on a fault in the frame `index` of user space. A page that is in the frame already
is not swapped. -/
def sigHandler (index : Nat) : StateT Machine Option Unit := do
  pause_timer
  match ← look (located · index) with
  | some (.frame i) =>
    pageSwap index i
    mprotect index true
    unpause_timer
  | some (.slot i) =>
    swapToMemFromDisk index i
    mprotect index true
    unpause_timer
  | none => stop

/-- An access to the frame `index`. -/
def touch (index : Nat) : StateT Machine Option Unit := do
  if index < USER_PAGES then
    if ← look (·.accessible index) then return () else sigHandler index
  else stop

/-- An access to two frames at once. The page fetched for the second may have been in the first
frame, which is then fetched again. -/
def touchBoth (first second : Nat) : StateT Machine Option Unit := do
  touch first
  touch second
  touch first

/-- The word accesses of user space, at offsets from `userSpace`. -/
def paged : Store Machine where
  load a := do
    touchBoth (a / PAGESIZE) ((a + 3) / PAGESIZE)
    look fun m => readWord m.frames a
  store a w := do
    touchBoth (a / PAGESIZE) ((a + 3) / PAGESIZE)
    change fun m => { m with frames := writeWord m.frames a w }

/-! ### Moving pages -/

/-- The first loop of `alignPages`. The test finds the pages that are at home already, and
`pageSwap` has nothing to do. -/
def alignFrames : List Nat → StateT Machine Option Unit
  | [] => return ()
  | i :: rest => do
    let pg ← look (·.pages i)
    let thread ← look (·.thread)
    if (getPageThID pg).toNat = thread ∧ i = (getPagePgID pg).toNat then
      pageSwap i (getPagePgID pg).toNat
      mprotect (getPagePgID pg).toNat true
      alignFrames rest
    else alignFrames rest

/-- The second loop of `alignPages`. -/
def alignSlots : List Nat → StateT Machine Option Unit
  | [] => return ()
  | i :: rest => do
    let pg ← look (·.diskPages i)
    let thread ← look (·.thread)
    if getPageIsF pg = 0 ∧ (getPageThID pg).toNat = thread ∧ i = (getPagePgID pg).toNat then
      swapToMemFromDisk i (getPagePgID pg).toNat
      mprotect (getPagePgID pg).toNat true
      alignSlots rest
    else alignSlots rest

/-- `alignPages`. -/
def alignPages : StateT Machine Option Unit := do
  alignFrames (List.range USER_PAGES)
  alignSlots (List.range DISK_PAGES)

/-- The first free frame. -/
@[irreducible] def freeFrame (m : Machine) : Option Nat :=
  (List.range USER_PAGES).find? fun i => getPageIsF (m.pages i) = 1

/-- The first free slot of the swap file. -/
@[irreducible] def freeSlot (m : Machine) : Option Nat :=
  (List.range DISK_PAGES).find? fun i => getPageIsF (m.diskPages i) = 1

/-- `moveToFreeSpace`. The copy may fault: the frame it writes is not unprotected first. -/
def moveToFreeSpace (index : Nat) : StateT Machine Option Bool := do
  if index < USER_PAGES then
    match ← look freeFrame with
    | none => return false
    | some i =>
      if i = index then return true
      else
        mprotect index true
        setPage i (← look (·.pages index))
        touchBoth index i
        change fun m => { m with frames := copyPage m.frames m.frames i index }
        setPage index (setPageIsF (← look (·.pages index)) 1)
        mprotect i false
        return true
  else stop

/-- `moveToDiskSpace`. -/
def moveToDiskSpace (index : Nat) : StateT Machine Option Bool := do
  if index < USER_PAGES then
    pause_timer
    match ← look freeSlot with
    | none =>
      unpause_timer
      return false
    | some i =>
      mprotect index true
      change fun m =>
        { m with
          diskPages := Function.update m.diskPages i (m.pages index)
          swpFile := copyPage m.swpFile m.frames i index }
      setPage index (setPageIsF (← look (·.pages index)) 1)
      unpause_timer
      return true
  else stop

/-- `moveToFreeSpace`, and if there is no free frame `moveToDiskSpace`. -/
def makeRoom (index : Nat) : StateT Machine Option Bool := do
  if ← moveToFreeSpace index then return true else moveToDiskSpace index

/-- `initializePage`. -/
def initializePage (index : Nat) : StateT Machine Option Unit := do
  if index < USER_PAGES then
    let thread ← look (·.thread)
    let page ← look fun m => m.pageNum m.thread
    let pg ← look (·.pages index)
    let pg := setPagePgID pg (BitVec.ofNat 32 page)
    change fun m => { m with pageNum := Function.update m.pageNum thread (page + 1) }
    let pg := setPageThID pg (BitVec.ofNat 32 thread)
    let pg := setPageIsF pg 0
    if getPagePgID pg = 0 then
      mprotect 0 true
      freshBlock paged 0 (PAGESIZE - BLOCK_SIZE)
      setPage index pg
    else setPage index pg
  else stop

/-- What the allocations of a thread use of the paged memory: accesses, room in a frame, and
`alignPages`. -/
structure Pager where
  mem : Store Machine
  makeRoom : Nat → StateT Machine Option Bool
  alignPages : StateT Machine Option Unit

/-- The paged memory as it is. -/
abbrev swapping : Pager := ⟨paged, makeRoom, alignPages⟩

section Allocations

variable (pager : Pager)

/-- `gatherPages`. -/
def gatherPages (lastBlock : Nat) : Nat → StateT Machine Option Unit
  | 0 => return ()
  | pagesNeeded + 1 => do
    let nextPage ← look fun m => m.pageNum m.thread
    if ← pager.makeRoom nextPage then
      initializePage nextPage
      pager.mem.modify lastBlock fun w =>
        setBlockSize w (getBlockSize w + BitVec.ofNat 32 PAGESIZE)
      gatherPages lastBlock pagesNeeded
    else return ()

/-! ### `myallocate` with `THREADREQ` -/

/-- The free entries of both tables. -/
@[irreducible] def freeCount (m : Machine) : Nat :=
  (List.range USER_PAGES).countP (fun i => getPageIsF (m.pages i) = 1) +
    (List.range DISK_PAGES).countP fun i => getPageIsF (m.diskPages i) = 1

/-- `isEnoughPages`, on an `int`. -/
def isEnoughPages (m : Machine) (sizeRequest : BitVec 32) : Int :=
  let pagesNeeded := sizeRequest.toInt.tdiv PAGESIZE + 1
  if pagesNeeded ≤ freeCount m then pagesNeeded else 0

/-- The bytes behind the header of the block `prev`, to the end of `memory`. -/
def bytesLeft (prev : Nat) : BitVec 32 :=
  BitVec.ofInt 32 (MAX_MEMORY - (LIBRARY_BYTES + prev + BLOCK_SIZE : Nat))

/-- The growth of a thread's heap whose last block, at `prev`, is taken: a new block on a new page.
The result is its address, or nothing if there is no room for the page. -/
def newLastBlock (prev : Nat) : StateT Machine Option (Option Nat) := do
  let nextPage ← look fun m => m.pageNum m.thread
  if ← pager.makeRoom nextPage then
    initializePage nextPage
    let bl := nextPage * PAGESIZE
    freshBlock pager.mem bl (PAGESIZE - BLOCK_SIZE)
    pager.mem.modify prev (setBlockIsNext · 1)
    return some bl
  else return none

/-- `extraBlock`: the bytes for a header, if the last block is not the free one. -/
def extraBlock (word : BitVec 32) : BitVec 32 :=
  if getBlockIsF word = 0 then BitVec.ofNat 32 BLOCK_SIZE else 0

/-- The end of `myallocate`, behind a search that found no block: the heap grows behind its last
block, at `prev`. -/
def growHeap (size prev : Nat) : StateT Machine Option (Option Nat) := do
  if bytesLeft prev < sizeWithBlock size then
    unpause_timer
    return none
  else
    let word ← pager.mem.load prev
    let pagesNeeded ← look
      (isEnoughPages · (extraBlock word + sizeWithBlock size - getBlockSize word))
    if pagesNeeded > 0 then
      if extraBlock word = 0 then
        gatherPages pager prev pagesNeeded.toNat
        splitBlock pager.mem prev size (sizeWithBlock size)
        unpause_timer
        return some (prev + BLOCK_SIZE)
      else
        match ← newLastBlock pager prev with
        | none => return none
        | some bl =>
          gatherPages pager bl (pagesNeeded.toNat - 1)
          splitBlock pager.mem bl size (sizeWithBlock size)
          unpause_timer
          return some (bl + BLOCK_SIZE)
    else
      unpause_timer
      return none

/-- The rounds of a walk over a thread's heap: more than it can have blocks. -/
def walkFuel : Nat := MAX_MEMORY

/-- The first page of a thread that has none in frame `0`. -/
def firstPage : StateT Machine Option Bool := do
  let pg ← look (·.pages 0)
  let thread ← look (·.thread)
  if (getPageThID pg).toNat ≠ thread then
    if ← pager.makeRoom 0 then
      initializePage 0
      return true
    else return false
  else return true

/-- The search of `myallocate` from the first block of the thread's heap on. -/
def searchHeap (size : Nat) : StateT Machine Option (Option Nat) := do
  match ← firstFitLoop pager.mem size (sizeWithBlock size) walkFuel 0 with
  | .found ptr =>
    unpause_timer
    return some ptr
  | .exhausted prev => growHeap pager size prev

/-- `myallocate` with `THREADREQ`; no result is `NULL`, and a pointer is an offset from
`userSpace`. -/
def myallocate (size : Nat) : StateT Machine Option (Option Nat) := do
  pause_timer
  pager.alignPages
  if ← firstPage pager then searchHeap pager size else return none

end Allocations

/-! ### Context switches -/

/-- `protectAllPages`. -/
def protectAllPages (threadID : Nat) : StateT Machine Option Unit :=
  change fun m => { m with
    accessible := fun i =>
      if i < USER_PAGES ∧ (getPageThID (m.pages i)).toNat = threadID then false
      else m.accessible i }

/-- `freePages`. -/
def freePages : StateT Machine Option Unit :=
  change fun m => { m with
    accessible := fun i =>
      if i < USER_PAGES ∧ (getPageThID (m.pages i)).toNat = m.thread then true else m.accessible i
    pages := fun i =>
      if i < USER_PAGES ∧ (getPageThID (m.pages i)).toNat = m.thread then setPageIsF (m.pages i) 1
      else m.pages i }

end OS2017.Paging
