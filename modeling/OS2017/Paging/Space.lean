/-
**The whole memory of the process.**

`memory` is the library heap, which is never protected, and user space behind it. Here an address is
an offset from `memory`. `malloc` takes from the library heap until the scheduler exists and from the
pages of the running thread afterwards; `free` looks for a frame of the thread to decide which heap
to search. What every access to `memory` keeps, the calls keep (`KeptBySpace`).
-/

import OS2017.Paging.Model

namespace OS2017.Paging

open OS2017.Bytes OS2017.Heap

/-- The memory of the process, and `scd != NULL`. -/
structure Process where
  machine : Machine
  /-- the bytes below `userSpace` -/
  library : Memory
  scheduled : Bool

/-- A program of the paged memory. -/
def onMachine {α : Type} (program : StateT Machine Option α) : StateT Process Option α := fun p =>
  (program p.machine).map fun (a, m) => (a, { p with machine := m })

/-- The bytes as they are in `memory`. -/
def Process.memory (p : Process) : Memory := fun a =>
  if a < LIBRARY_BYTES then p.library a else p.machine.frames (a - LIBRARY_BYTES)

/-- One byte of `memory`. -/
def Process.poke (p : Process) (a : Nat) (value : BitVec 8) : Process :=
  if a < LIBRARY_BYTES then { p with library := Function.update p.library a value }
  else { p with machine := { p.machine with
    frames := Function.update p.machine.frames (a - LIBRARY_BYTES) value } }

/-- The four bytes of a word. -/
def Process.pokeWord (p : Process) (a : Nat) (w : BitVec 32) : Process :=
  (((p.poke (a + 3) (w.extractLsb' 24 8)).poke (a + 2) (w.extractLsb' 16 8)).poke (a + 1)
    (w.extractLsb' 8 8)).poke a (w.extractLsb' 0 8)

/-- The frames a word at `a` is in are accessed, if it reaches into user space. -/
def reach (a : Nat) : StateT Process Option Unit :=
  if a + 3 < LIBRARY_BYTES then return ()
  else onMachine
    (touchBoth ((a - LIBRARY_BYTES) / PAGESIZE) ((a + 3 - LIBRARY_BYTES) / PAGESIZE))

/-- The word accesses of `memory`. -/
def space : Store Process where
  load a := do
    reach a
    look fun p => readWord p.memory a
  store a w := do
    reach a
    change (·.pokeWord a w)

/-- `if(timerSet) pause_timer(scd->timer)`. -/
def pauseTimer : StateT Process Option Unit := do
  if ← look (·.scheduled) then onMachine pause_timer else return ()

/-- `if(timerSet) unpause_timer(scd->timer)`. -/
def unpauseTimer : StateT Process Option Unit := do
  if ← look (·.scheduled) then onMachine unpause_timer else return ()

section Calls

variable (mem : Store Process)

/-- `myallocate` with `LIBRARYREQ`. -/
def mallocLibrary (size : Nat) : StateT Process Option (Option Nat) := do
  pauseTimer
  let result ← myallocateLibrary mem size
  unpauseTimer
  return result

/-- `mydeallocate` with `LIBRARYREQ`. -/
def freeLibrary (ptr : Int) : StateT Process Option Report := do
  pauseTimer
  let report ← mydeallocateLibrary mem ptr
  unpauseTimer
  return report

/-- `malloc`: `myallocate` with `THREADREQ`. -/
def malloc (pager : Pager) (size : Nat) : StateT Process Option (Option Nat) := do
  if ← look (·.scheduled) then
    let result ← onMachine (myallocate pager size)
    return result.map (LIBRARY_BYTES + ·)
  else mallocLibrary mem size

/-- The first frame that carries the id, whatever its free flag. -/
@[irreducible] def firstFrame (m : Machine) (id : Nat) : Option Nat :=
  (List.range USER_PAGES).find? fun i => (getPageThID (m.pages i)).toNat = id

/-- `findPage`. -/
def findPage (m : Machine) (id : Nat) : BitVec 32 :=
  match firstFrame m id with
  | some i => m.pages i
  | none => 0

/-- `freeAndMerge` with `THREADREQ`. The walk starts `index * PAGESIZE` words behind `userSpace`. -/
def freeAndMerge (toFree : Nat) (page : BitVec 32) : StateT Process Option Bool := do
  match ← look fun p => firstFrame p.machine (getPageThID page).toNat with
  | none => return false
  | some index =>
    freeAndMergeLoop mem toFree walkFuel none (LIBRARY_BYTES + 4 * (index * PAGESIZE))

/-- The id `mydeallocate` looks for. -/
def Process.caller (p : Process) : Nat := if p.scheduled then p.machine.thread else 1

/-- `free`: `mydeallocate` with `THREADREQ`. The word before `memory` is nobody's. -/
def free (ptr : Int) : StateT Process Option Report := do
  pauseTimer
  if inMemSpace ptr then
    if ptr < BLOCK_SIZE then stop
    else
      let block := ptr.toNat - BLOCK_SIZE
      let word ← mem.load block
      if getBlockIsF word = 1 then
        unpauseTimer
        return .alreadyFreed
      else
        let page ← look fun p => findPage p.machine p.caller
        if page = 0 then
          unpauseTimer
          freeLibrary mem ptr
        else
          let found ← freeAndMerge mem block page
          unpauseTimer
          return if found then .freed else .notCreated
  else
    unpauseTimer
    return .notCreated

end Calls

/-! ### What accesses keep -/

/-- **A relation that the accesses to `memory` keep**, and the timer's stops. -/
structure KeptBySpace (related : Process → Process → Prop) : Prop where
  composes : Composes related
  load : ∀ a, Keeps related (space.load a)
  store : ∀ a w, Keeps related (space.store a w)
  pause : Keeps related pauseTimer
  unpause : Keeps related unpauseTimer

namespace KeptBySpace

variable {related : Process → Process → Prop}

theorem mallocLibrary (kept : KeptBySpace related) (size : Nat) :
    Keeps related (mallocLibrary space size) := by
  have search : Keeps related (myallocateLibrary space size) := by
    refine Keeps.bind kept.composes
      (keeps_firstFitLoop kept.composes kept.load kept.store _ _ _ _) fun result => ?_
    cases result with
    | found ptr => exact Keeps.pure kept.composes _
    | exhausted prev => exact Keeps.pure kept.composes _
  exact Keeps.bind kept.composes kept.pause fun _ => Keeps.bind kept.composes search fun _ =>
    Keeps.bind kept.composes kept.unpause fun _ => Keeps.pure kept.composes _

theorem freeLibrary (kept : KeptBySpace related) (ptr : Int) :
    Keeps related (freeLibrary space ptr) := by
  have release : Keeps related (mydeallocateLibrary space ptr) := by
    unfold mydeallocateLibrary
    split
    · split
      · exact Keeps.stop
      · refine Keeps.bind kept.composes (kept.load _) fun word => ?_
        split
        · exact Keeps.pure kept.composes _
        · refine Keeps.bind kept.composes ?_ fun _ => Keeps.pure kept.composes _
          exact keeps_freeAndMergeLoop kept.composes kept.load (fun a w _ => kept.store a w) _ _
            (fun _ _ => Nat.zero_le _) (Nat.zero_le 0)
    · exact Keeps.pure kept.composes _
  exact Keeps.bind kept.composes kept.pause fun _ => Keeps.bind kept.composes release fun _ =>
    Keeps.bind kept.composes kept.unpause fun _ => Keeps.pure kept.composes _

theorem free (kept : KeptBySpace related) (ptr : Int) : Keeps related (free space ptr) := by
  unfold Paging.free
  refine Keeps.bind kept.composes kept.pause fun _ => ?_
  split
  · split
    · exact Keeps.stop
    · refine Keeps.bind kept.composes (kept.load _) fun word => ?_
      split
      · exact Keeps.bind kept.composes kept.unpause fun _ => Keeps.pure kept.composes _
      · refine Keeps.bind kept.composes (Keeps.look kept.composes _) fun page => ?_
        split
        · exact Keeps.bind kept.composes kept.unpause fun _ => kept.freeLibrary _
        · refine Keeps.bind kept.composes ?_ fun _ =>
            Keeps.bind kept.composes kept.unpause fun _ => Keeps.pure kept.composes _
          refine Keeps.bind kept.composes (Keeps.look kept.composes _) fun frame => ?_
          cases frame with
          | none => exact Keeps.pure kept.composes _
          | some index =>
            exact keeps_freeAndMergeLoop kept.composes kept.load (fun a w _ => kept.store a w) _ _
              (fun _ _ => Nat.zero_le _) (Nat.zero_le _)
  · exact Keeps.bind kept.composes kept.unpause fun _ => Keeps.pure kept.composes _

end KeptBySpace

end OS2017.Paging
