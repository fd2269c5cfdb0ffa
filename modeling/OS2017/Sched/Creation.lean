/-
**Creating a thread from the library heap.**

`my_pthread_create` takes three blocks from the library heap: a context, a stack and, behind the
registration, a node. When the stack cannot be had it returns `1` and keeps the context; when the
node cannot be had, `createNode` writes through the null pointer, with the thread registered
already. So a create is all or nothing exactly if the context cannot be had, or all three can one
after the other (`create_all_or_nothing_iff`).

A failed allocation is no choice here: it is what first fit finds on the blocks of the heap.
-/

import OS2017.Paging.Timer
import OS2017.Sched.Values

namespace OS2017.Sched

open OS2017.Bytes OS2017.FirstFit OS2017.Heap OS2017.Run

open OS2017.Paging (STACK_SIZE)

open Scheduler (Allocation)

/-! ### The code -/

/-- What `my_pthread_create` takes from the platform: two sizes, and the bytes stored in the three
blocks, each inside its block. -/
structure Platform where
  /-- `sizeof(ucontext_t)` -/
  contextBytes : Nat
  /-- `sizeof(node)` -/
  nodeBytes : Nat
  /-- the context as `getcontext` fills it -/
  getcontext : List (Fin contextBytes × BitVec 8)
  /-- the context's stack and link, and what `makecontext` makes of it, for the stack's address -/
  makecontext : Nat → List (Fin contextBytes × BitVec 8)
  /-- what `makecontext` puts on the stack -/
  entry : List (Fin STACK_SIZE × BitVec 8)
  /-- the fields of the node, for the context's address -/
  node : Nat → List (Fin nodeBytes × BitVec 8)

/-- Bytes stored at offsets from an address. -/
def storeBytes {size : Nat} (address : Nat) (bytes : List (Fin size × BitVec 8)) (m : Memory) :
    Memory :=
  bytes.foldl (fun m byte => Function.update m (address + byte.1) byte.2) m

/-- The allocations of `my_pthread_create`, and what it stores in the blocks. -/
def allocations (platform : Platform) : StateT Memory Option Allocation := do
  match ← myallocateLibrary plain platform.contextBytes with
  | none => return .noContext
  | some newCxt =>
    change (storeBytes newCxt platform.getcontext)
    match ← myallocateLibrary plain STACK_SIZE with
    | none => return .noStack
    | some stack =>
      change (storeBytes newCxt (platform.makecontext stack))
      change (storeBytes stack platform.entry)
      match ← myallocateLibrary plain platform.nodeBytes with
      | none => return .noNode
      | some newNode =>
        change (storeBytes newNode (platform.node newCxt))
        return .succeeds

/-- The scheduler and the bytes of the library heap. -/
structure Runtime where
  scheduler : Scheduler
  memory : Memory

/-- `my_pthread_create` with its allocations. The registration, which comes before the allocation of
the node, reads and writes nothing of the heap. -/
def Runtime.my_pthread_create (r : Runtime) (platform : Platform) (thread : Handle) (now : Int) :
    Option (Nat × Runtime) :=
  (allocations platform r.memory).bind fun (allocation, memory) =>
    (r.scheduler.my_pthread_create thread now allocation).map fun (code, scheduler) =>
      (code, ⟨scheduler, memory⟩)

/-! ### All or nothing -/

/-- **A create is all or nothing.** It returns `0`, with one new node at the rear of `runQ[0]` and
the thread registered under an id that no record has which was given an id before; or it returns
`1`, with the scheduler and every byte of the heap as before. -/
def AllOrNothing (r : Runtime) (layout : Layout) (platform : Platform) (thread : Handle)
    (now : Int) : Prop :=
  ∃ code r', r.my_pthread_create platform thread now = some (code, r') ∧
    ((code = 0 ∧ Created r.scheduler thread r'.scheduler ∧
        Rep r'.scheduler (layout.push (.queue (.runQ 0)) r.scheduler.nodeNum) ∧
        ∀ ptr, ptr ≠ thread → r.scheduler.threads.id ptr < r.scheduler.threadNum →
          r'.scheduler.threads.id ptr ≠ r'.scheduler.threads.id thread) ∨
      (code = 1 ∧ r' = r))

/-- First fit finds the three blocks, one after the other. -/
def AllFit (platform : Platform) (blocks : List Block) : Prop :=
  ∃ context blocks₁ stack blocks₂,
    firstFit BLOCK_SIZE platform.contextBytes 0 blocks = some (context, blocks₁) ∧
    firstFit BLOCK_SIZE STACK_SIZE 0 blocks₁ = some (stack, blocks₂) ∧
    firstFit BLOCK_SIZE platform.nodeBytes 0 blocks₂ ≠ none

/-- Bytes stored in a taken block leave the heap alone. -/
theorem tiled_storeBytes {m : Memory} {bytes p n : Nat} {blocks : List Block}
    (tiled : Tiled m bytes blocks) (holds : Holds BLOCK_SIZE 0 blocks p n)
    (stored : List (Fin n × BitVec 8)) : Tiled (storeBytes p stored m) bytes blocks := by
  induction stored generalizing m with
  | nil => exact tiled
  | cons byte stored ih =>
    exact ih (tiled.update holds (Nat.le_add_right _ _) (Nat.add_lt_add_left byte.1.isLt _) byte.2)

/-- A memory shows one heap. -/
theorem tiled_unique {m : Memory} {bytes : Nat} {blocks blocks' : List Block}
    (left : Tiled m bytes blocks) (right : Tiled m bytes blocks') : blocks = blocks' :=
  (left.chain.blocksAt left.nonempty left.length_le).symm.trans
    (right.chain.blocksAt right.nonempty right.length_le)

/-- **The allocations**, by what first fit finds. A failure behind the first leaves the heap
changed. -/
theorem allocations_spec (platform : Platform) {m : Memory} {blocks : List Block}
    (tiled : Tiled m LIBRARY_BYTES blocks) :
    Returns (allocations platform) m fun allocation m' =>
      match allocation with
      | .noContext => firstFit BLOCK_SIZE platform.contextBytes 0 blocks = none ∧ m' = m
      | .noStack => ¬ AllFit platform blocks ∧
          firstFit BLOCK_SIZE platform.contextBytes 0 blocks ≠ none ∧ m' ≠ m
      | .noNode => ¬ AllFit platform blocks ∧
          firstFit BLOCK_SIZE platform.contextBytes 0 blocks ≠ none
      | .succeeds => AllFit platform blocks := by
  have backed := plain_backed LIBRARY_BYTES
  have shows : ∀ m, Shows (fun _ => True) id m m := fun _ => ⟨trivial, rfl⟩
  unfold allocations
  refine Returns.bind ((myallocateLibrary_spec backed le_rfl (shows m) tiled).mono ?_)
  rintro result m₁ (⟨none₁, rfl, _, same⟩ | ⟨context, blocks₁, _, fit₁, rfl, ⟨_, rfl⟩, tiled₁, _⟩)
  · exact Returns.pure ⟨none₁, same⟩
  have holds₁ : Holds BLOCK_SIZE 0 blocks₁ (context + BLOCK_SIZE) platform.contextBytes :=
    (firstFit_holds fit₁).mpr (Or.inr ⟨rfl, rfl⟩)
  have found : firstFit BLOCK_SIZE platform.contextBytes 0 blocks ≠ none := by
    rw [fit₁]
    simp
  refine Returns.change_bind ?_
  have filled := tiled_storeBytes tiled₁ holds₁ platform.getcontext
  refine Returns.bind ((myallocateLibrary_spec backed le_rfl (shows _) filled).mono ?_)
  rintro result m₂ (⟨none₂, rfl, _, same⟩ | ⟨stack, blocks₂, _, fit₂, rfl, ⟨_, rfl⟩, tiled₂, _⟩)
  · -- the context stays taken
    refine Returns.pure ⟨?_, found, fun unchanged => ?_⟩
    · rintro ⟨_, _, _, _, fit, fit', _⟩
      rw [fit₁] at fit
      cases fit
      rw [none₂] at fit'
      cases fit'
    · have after : Tiled m LIBRARY_BYTES blocks₁ := by
        have shown : m₂ = _ := same
        rw [← unchanged, shown]
        exact filled
      have equal := tiled_unique tiled after
      rw [← equal] at holds₁
      exact firstFit_fresh (by decide) fit₁ holds₁
  have holds₂ : Holds BLOCK_SIZE 0 blocks₂ (stack + BLOCK_SIZE) STACK_SIZE :=
    (firstFit_holds fit₂).mpr (Or.inr ⟨rfl, rfl⟩)
  have context₂ : Holds BLOCK_SIZE 0 blocks₂ (context + BLOCK_SIZE) platform.contextBytes :=
    (firstFit_holds fit₂).mpr (Or.inl holds₁)
  refine Returns.change_bind (Returns.change_bind ?_)
  have made := tiled_storeBytes tiled₂ context₂ (platform.makecontext (stack + BLOCK_SIZE))
  have entered := tiled_storeBytes made holds₂ platform.entry
  refine Returns.bind ((myallocateLibrary_spec backed le_rfl (shows _) entered).mono ?_)
  rintro result m₃ (⟨none₃, rfl, _⟩ | ⟨node, blocks₃, _, fit₃, rfl, _⟩)
  · refine Returns.pure ⟨?_, found⟩
    rintro ⟨_, _, _, _, fit, fit', fits⟩
    rw [fit₁] at fit
    cases fit
    rw [fit₂] at fit'
    cases fit'
    exact fits none₃
  · refine Returns.change_bind (Returns.pure ⟨context, blocks₁, stack, blocks₂, fit₁, fit₂, ?_⟩)
    rw [fit₃]
    simp

/-- **Exactly when a create is all or nothing.** -/
theorem create_all_or_nothing_iff {r : Runtime} {layout : Layout} {blocks : List Block}
    (rep : Rep r.scheduler layout) (tiled : Tiled r.memory LIBRARY_BYTES blocks)
    (platform : Platform) (thread : Handle) (now : Int) :
    AllOrNothing r layout platform thread now ↔
      firstFit BLOCK_SIZE platform.contextBytes 0 blocks = none ∨ AllFit platform blocks := by
  obtain ⟨allocation, memory, ran, outcome⟩ := allocations_spec platform tiled
  have run : r.my_pthread_create platform thread now
      = (r.scheduler.my_pthread_create thread now allocation).map fun result =>
        (result.1, ⟨result.2, memory⟩) := by
    rw [Runtime.my_pthread_create, ran]
    rfl
  cases allocation with
  | noContext =>
    obtain ⟨nothing, same⟩ := outcome
    refine iff_of_true ⟨1, r, ?_, Or.inr ⟨rfl, rfl⟩⟩ (Or.inl nothing)
    rw [run, same]
    rfl
  | noStack =>
    obtain ⟨notAll, found, changed⟩ := outcome
    refine iff_of_false ?_ (not_or.mpr ⟨found, notAll⟩)
    rintro ⟨code, r', result, ⟨zero, _⟩ | ⟨_, same⟩⟩
    · rw [run] at result
      cases result
      cases zero
    · rw [run] at result
      cases result
      exact changed (congrArg Runtime.memory same)
  | noNode =>
    obtain ⟨notAll, found⟩ := outcome
    refine iff_of_false ?_ (not_or.mpr ⟨found, notAll⟩)
    rintro ⟨code, r', result, _⟩
    rw [run] at result
    cases result
  | succeeds =>
    obtain ⟨s', created, new, rep', _⟩ := rep.my_pthread_create thread now
    refine iff_of_true ⟨0, ⟨s', memory⟩, ?_, Or.inl ⟨rfl, new, rep', fun ptr different below => ?_⟩⟩
      (Or.inr outcome)
    · rw [run, created]
      rfl
    · show s'.threads.id ptr ≠ s'.threads.id thread
      rw [new.threads]
      simp only [Scheduler.setThread, Function.update_self, Function.update_of_ne different]
      exact ne_of_lt below

/-- What a create needs, with the bytes it stores left out. -/
def plainPlatform : Platform where
  contextBytes := 936
  nodeBytes := 64
  getcontext := []
  makecontext := fun _ => []
  entry := []
  node := fun _ => []

/-- The first create of a program, on a heap of one free block, gets all three blocks. -/
theorem create_all_or_nothing_iff_first :
    AllOrNothing ⟨zeroed, zeroLibrary.memory⟩ noLayout plainPlatform (.user 0) 0 :=
  (create_all_or_nothing_iff (r := ⟨zeroed, zeroLibrary.memory⟩) zeroed_started.wf.rep
    zeroLibrary_started.heap.tiled plainPlatform (.user 0) 0).mpr
    (Or.inr ⟨_, _, _, _, rfl, rfl, by decide⟩)

/-- **The context leaks**: the heap has room for it, but not for a stack. -/
theorem create_leaks :
    ¬ ∀ (r : Runtime) (layout : Layout) (blocks : List Block) (platform : Platform)
      (thread : Handle) (now : Int), Rep r.scheduler layout → Tiled r.memory LIBRARY_BYTES blocks →
      AllOrNothing r layout platform thread now := by
  intro always
  have start : Reach LibraryStarted Permitted (execStep Library.next) zeroLibrary :=
    .init zeroLibrary_started
  obtain ⟨s, reached, held⟩ := start.exists_of_execAll [.allocate 818000]
    (fun s => ((Runtime.mk zeroed s.memory).my_pthread_create plainPlatform (.user 0) 0).any
      fun result => result.1 = 1 ∧ result.2.memory 818004 ≠ s.memory 818004)
    (by decide +kernel)
  obtain ⟨blocks, heap⟩ := exists_heap_of_reach reached
  obtain ⟨code, r', result, outcome⟩ := always ⟨zeroed, s.memory⟩ noLayout blocks plainPlatform
    (.user 0) 0 zeroed_started.wf.rep heap.tiled
  rw [result, Option.any_some] at held
  obtain ⟨one, changed⟩ := of_decide_eq_true held
  rcases outcome with ⟨zero, _⟩ | ⟨_, same⟩
  · cases one.symm.trans zero
  · exact changed (by rw [same])

end OS2017.Sched
