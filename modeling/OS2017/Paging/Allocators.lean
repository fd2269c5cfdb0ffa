/-
**What `malloc` and `free` are for.**

The allocators of the process, without bytes, tables, frames and faults: the blocks of the library
heap, and for each thread the blocks of a heap of its own, which grow from one pool of pages
(`Allocators`). The memory refines them (`allocators_refined`): behind every run whose allocations are
safe and whose frees start their walks right, each `malloc` has returned the pointer and each `free`
has released the block that the allocators prescribe, however the threads are switched and wherever
their pages are; and the blocks read off the memory are the allocators'.

One thing is not prescribed: how many pages an exiting thread gives back. `freePages` leaves those in
the swap file.
-/

import OS2017.Paging.Pool
import OS2017.Paging.Pointers
import OS2017.Paging.Creates
import OS2017.Paging.Exits

namespace OS2017.Paging

open OS2017.Bytes OS2017.Heap OS2017.FirstFit OS2017.Run OS2017.PagePool

/-! ### The allocators -/

/-- What a call answers. -/
inductive Reply
  | nothing
  | pointer (ptr : Option Nat)
  | report (report : Report)
  deriving DecidableEq

/-- The library heap, the heaps of the threads, and who runs. -/
@[ext] structure Allocators where
  library : List Block
  pool : Pool
  thread : Nat
  scheduled : Bool

namespace Allocators

/-- A request to the library heap. -/
def takeLibrary (s : Allocators) (size : Nat) : Reply × Allocators :=
  let service := rules.fit size s.library 0
  (.pointer service.pointer, { s with library := service.blocks })

/-- A block back to the library heap. -/
def giveLibrary (s : Allocators) (ptr : Nat) : Reply × Allocators :=
  (.report .freed,
    { s with library := (release BLOCK_SIZE (ptr - BLOCK_SIZE) 0 s.library).getD s.library })

/-- **One event.** An exiting thread gives `given` pages back. -/
def next (given : Nat) (s : Allocators) : WorldEvent → Reply × Allocators
  | .malloc size =>
    if s.scheduled then
      let (ptr, pool) := s.pool.allocate rules s.thread size
      (.pointer (ptr.map (LIBRARY_BYTES + ·)), { s with pool := pool })
    else s.takeLibrary size
  | .free ptr =>
    if ptr < LIBRARY_BYTES + BLOCK_SIZE then s.giveLibrary ptr
    else (.report .freed, { s with pool := s.pool.release rules s.thread (ptr - LIBRARY_BYTES) })
  | .write _ _ => (.nothing, s)
  | .read _ => (.nothing, s)
  | .mallocLibrary size => s.takeLibrary size
  | .freeLibrary ptr => s.giveLibrary ptr
  | .writeLibrary _ _ => (.nothing, s)
  | .initializeScheduler => (.nothing, { s with scheduled := true })
  | .switch next => (.nothing, { s with thread := next })
  | .exit next => (.nothing, { s with pool := s.pool.leave s.thread given, thread := next })
  | .create => (.nothing, s)

/-- **The runs of the allocators**, with what they answer. -/
inductive Runs : Allocators → List WorldEvent → List Reply → Allocators → Prop
  | nil (s : Allocators) : Runs s [] [] s
  | cons {s s' : Allocators} {e : WorldEvent} {events : List WorldEvent} {answers : List Reply}
      (given : Nat) : given ≤ s.pool.pagesOf rules s.thread →
      Runs (s.next given e).2 events answers s' → Runs s (e :: events) ((s.next given e).1 :: answers) s'

/-- One free block for the library, and no page taken. -/
def initial : Allocators where
  library := [⟨LIBRARY_BYTES - BLOCK_SIZE, true⟩]
  pool := ⟨USER_PAGES + DISK_PAGES, fun _ => []⟩
  thread := 1
  scheduled := false

end Allocators

/-! ### Runs of the process -/

/-- What the process answers to an event. -/
def World.answer (w : World) : WorldEvent → Option Reply
  | .malloc size => (malloc space swapping size w.process).map fun (result, _) => .pointer result
  | .free ptr => (free space (ptr : Int) w.process).map fun (report, _) => .report report
  | .mallocLibrary size => (mallocLibrary space size w.process).map fun (result, _) => .pointer result
  | .freeLibrary ptr => (freeLibrary space (ptr : Int) w.process).map fun (report, _) => .report report
  | e => (w.next e).map fun _ => .nothing

/-- The process on a list of events: what it answers, and where it comes to. -/
def World.trace : World → List WorldEvent → Option (List Reply × World)
  | w, [] => some ([], w)
  | w, e :: events => (w.answer e).bind fun answer => (w.next e).bind fun w' =>
      (w'.trace events).map fun (answers, last) => (answer :: answers, last)

/-- Each event is safe where it comes. -/
def SafeThroughout : World → List WorldEvent → Prop
  | _, [] => True
  | w, e :: events => WorldSafe w e ∧ ∀ w' ∈ w.next e, SafeThroughout w' events

instance SafeThroughout.decidable :
    (w : World) → (events : List WorldEvent) → Decidable (SafeThroughout w events)
  | _, [] => isTrue trivial
  | w, e :: events =>
    have := fun w' => SafeThroughout.decidable w' events
    inferInstanceAs (Decidable (WorldSafe w e ∧ ∀ w' ∈ w.next e, SafeThroughout w' events))

/-- **The allocators as they are in memory.** -/
def World.allocators (w : World) : Allocators where
  library := blocksAt w.library LIBRARY_BYTES 0
  pool := ⟨freeCount w.machine, fun t => if w.live t then heapOf w.machine t else []⟩
  thread := w.machine.thread
  scheduled := w.scheduled

/-! ### What is in memory -/

section Memory

variable {w w' : World} {s : Allocators}

/-- **The process has the allocators' blocks.** -/
structure Represents (w : World) (s : Allocators) : Prop where
  library : Tiled w.library LIBRARY_BYTES s.library
  heaps : ∀ t, w.live t = true → Arena w.machine t (s.pool.heaps t)
  gone : ∀ t, w.live t = false → s.pool.heaps t = []
  spare : s.pool.spare = freeCount w.machine
  thread : s.thread = w.machine.thread
  scheduled : s.scheduled = w.scheduled

/-- A heap has one list of blocks. -/
theorem tiled_unique {m : Memory} {bytes : Nat} {xs ys : List Block} (left : Tiled m bytes xs)
    (right : Tiled m bytes ys) : xs = ys := by
  rw [← left.chain.blocksAt left.nonempty left.length_le]
  exact right.chain.blocksAt right.nonempty right.length_le

/-- A heap that holds something has pages. -/
theorem Arena.tiled {m : Machine} {t p n : Nat} {blocks : List Block} (arena : Arena m t blocks)
    (holds : Holds BLOCK_SIZE 0 blocks p n) : Tiled (m.view t) (m.pageNum t * PAGESIZE) blocks := by
  rcases arena with ⟨_, rfl⟩ | tiled
  · exact holds.elim
  · exact tiled

/-- **They are read off the memory.** -/
theorem Represents.allocators (represents : Represents w s) (inv : Held w) : w.allocators = s := by
  obtain ⟨library, heaps, gone, spare, thread, scheduled⟩ := represents
  refine Allocators.ext ?_ (Pool.ext spare.symm (funext fun t => ?_)) thread.symm scheduled.symm
  · exact library.chain.blocksAt library.nonempty library.length_le
  · show (if w.live t then heapOf w.machine t else []) = s.pool.heaps t
    cases alive : w.live t with
    | true =>
      rw [if_pos rfl]
      exact (heaps t alive).heapOf (inv.threads.sheltered.bounded t alive)
    | false =>
      rw [if_neg (by decide)]
      exact (gone t alive).symm

/-- **The memory has what is read off it.** -/
theorem Held.represents (inv : Held w) : Represents w w.allocators := by
  refine ⟨?_, fun t alive => ?_, fun t dead => if_neg (by rw [dead]; decide), rfl, rfl, rfl⟩
  · obtain ⟨blocks, tiled, _⟩ := inv.library
    have read : w.allocators.library = blocks :=
      tiled.chain.blocksAt tiled.nonempty tiled.length_le
    rw [read]
    exact tiled
  · obtain ⟨blocks, arena, _⟩ := inv.threads.heaps t alive
    have read : w.allocators.pool.heaps t = blocks :=
      (if_pos alive).trans (arena.heapOf (inv.threads.sheltered.bounded t alive))
    rw [read]
    exact arena

/-- The blocks of the library heap are what the library and the main thread hold. -/
theorem Represents.held_library (represents : Represents w s) (inv : Held w) {p n : Nat} :
    (p, n) ∈ w.early ++ w.own ↔ Holds BLOCK_SIZE 0 s.library p n := by
  obtain ⟨blocks, tiled, held⟩ := inv.library
  rw [tiled_unique represents.library tiled]
  exact held p n

/-- The blocks of a thread's heap are what it holds there. -/
theorem Represents.held_pages (represents : Represents w s) (inv : Held w) {t p n : Nat}
    (alive : w.live t = true) : (p, n) ∈ w.allocs t ↔ Holds BLOCK_SIZE 0 (s.pool.heaps t) p n := by
  obtain ⟨blocks, arena, held⟩ := inv.threads.heaps t alive
  have bounded := inv.threads.sheltered.bounded t alive
  have same : s.pool.heaps t = blocks :=
    ((represents.heaps t alive).heapOf bounded).symm.trans (arena.heapOf bounded)
  rw [same]
  exact held p n

/-- **The threads' heaps have not changed**, only how the pages lie. -/
theorem Represents.keepHeaps (represents : Represents w s) {m : Machine} {blocks : List Block}
    (permutes : Permutes w.machine m) (views : ∀ t, w.live t = true → m.view t = w.machine.view t)
    (tiled : Tiled w'.library LIBRARY_BYTES blocks) (machine : w'.machine = m)
    (live : w'.live = w.live) (scheduled : w'.scheduled = w.scheduled) :
    Represents w' { s with library := blocks } := by
  obtain ⟨_, heaps, gone, spare, thread, same⟩ := represents
  refine ⟨tiled, fun t alive => ?_, fun t dead => gone t (live ▸ dead), ?_, ?_,
    same.trans scheduled.symm⟩
  · rw [live] at alive
    unfold Arena
    rw [machine, permutes.pageNum, views t alive]
    exact heaps t alive
  · rw [machine, permutes.freeCount]
    exact spare
  · rw [machine, permutes.thread]
    exact thread

/-- **Nothing has changed** but how the pages lie. -/
theorem Represents.keep (represents : Represents w s) {m : Machine}
    (permutes : Permutes w.machine m) (views : ∀ t, w.live t = true → m.view t = w.machine.view t)
    (machine : w'.machine = m) (library : w'.library = w.library) (live : w'.live = w.live)
    (scheduled : w'.scheduled = w.scheduled) : Represents w' s :=
  represents.keepHeaps permutes views (library ▸ represents.library) machine live scheduled

/-- The process has called something that left `p`. -/
structure After (w : World) (p : Process) (w' : World) : Prop where
  machine : w'.machine = p.machine
  library : w'.library = p.library
  live : w'.live = w.live
  scheduled : w'.scheduled = w.scheduled

/-- **The library heap has changed**, and nothing else. -/
theorem Represents.keepPages (represents : Represents w s) {p : Process} {blocks : List Block}
    (only : LibraryOnly w.process p) (tiled : Tiled p.library LIBRARY_BYTES blocks)
    (after : After w p w') : Represents w' { s with library := blocks } := by
  have same : p.machine = { w.machine with timer := p.machine.timer } := by
    rw [only]
    rfl
  have permutes : Permutes w.machine { w.machine with timer := p.machine.timer } :=
    permutes_of_eq rfl rfl rfl rfl
  have views : ∀ t, Machine.view { w.machine with timer := p.machine.timer } t = w.machine.view t :=
    view_congr rfl rfl rfl rfl
  exact represents.keepHeaps permutes (fun t _ => views t) (after.library ▸ tiled)
    (after.machine.trans same) after.live after.scheduled

/-- **The running thread's heap has changed**, and nothing of the others'. -/
theorem Represents.update (represents : Represents w s) {m : Machine} {blocks : List Block}
    (running : w.live w.machine.thread = true) (thread : m.thread = w.machine.thread)
    (pageNum : ∀ t, t ≠ w.machine.thread → m.pageNum t = w.machine.pageNum t)
    (others : ∀ t, w.live t = true → t ≠ w.machine.thread → m.view t = w.machine.view t)
    (arena : Arena m w.machine.thread blocks) (tiled : Tiled w'.library LIBRARY_BYTES s.library)
    (machine : w'.machine = m) (live : w'.live = w.live) (scheduled : w'.scheduled = w.scheduled) :
    Represents w' { s with
      pool := ⟨freeCount m, Function.update s.pool.heaps s.thread blocks⟩ } := by
  have own := represents.thread
  refine ⟨tiled, fun t alive => ?_, fun t dead => ?_, by rw [machine], ?_,
    represents.scheduled.trans scheduled.symm⟩
  · show Arena w'.machine t (Function.update s.pool.heaps s.thread blocks t)
    rw [live] at alive
    rw [machine, own]
    by_cases mine : t = w.machine.thread
    · rw [mine, Function.update_self]
      exact arena
    · rw [Function.update_of_ne mine]
      unfold Arena
      rw [pageNum t mine, others t alive mine]
      exact represents.heaps t alive
  · show Function.update s.pool.heaps s.thread blocks t = []
    rw [live] at dead
    have other : t ≠ s.thread := by
      rintro rfl
      rw [own, running] at dead
      cases dead
    rw [Function.update_of_ne other]
    exact represents.gone t dead
  · rw [machine, thread]
    exact own

end Memory

/-! ### One event -/

section Events

variable {w w' : World} {s : Allocators} {size ptr : Nat}

/-- **The event does to the memory what it does to the allocators.** -/
def Matched (w : World) (s : Allocators) (e : WorldEvent) (w' : World) : Prop :=
  ∃ given ≤ s.pool.pagesOf rules s.thread,
    w.answer e = some (s.next given e).1 ∧ Represents w' (s.next given e).2

/-- **`myallocate` with `LIBRARYREQ`** takes the block that first fit takes. -/
theorem mallocLibrary_fits {p : Process} {blocks : List Block}
    (tiled : Tiled p.library LIBRARY_BYTES blocks) (size : Nat) :
    Returns (mallocLibrary space size) p fun result q => LibraryOnly p q ∧
      result = (rules.fit size blocks 0).pointer ∧
        Tiled q.library LIBRARY_BYTES (rules.fit size blocks 0).blocks := by
  refine libraryCall (myallocateLibrary space size)
    (fun result library => result = (rules.fit size blocks 0).pointer ∧
      Tiled library LIBRARY_BYTES (rules.fit size blocks 0).blocks) fun q same => ?_
  have shows : Shows (SameUser q) (·.library) p.library q := ⟨rfl, same⟩
  refine (myallocateLibrary_spec (space_library q) (le_refl _) shows tiled).mono ?_
  rintro result q'
    (⟨full, rfl, user, library⟩ | ⟨header, blocks', v, found, rfl, ⟨user, library⟩, tiled', _⟩)
  · have equal : q'.library = p.library := library
    rw [Rules.fit_none full, equal]
    exact ⟨user, rfl, tiled⟩
  · have equal : q'.library = v := library
    rw [Rules.fit_some found, equal]
    exact ⟨user, rfl, tiled'⟩

/-- A request to the library heap, from `malloc` or from the library. -/
theorem Represents.takeLibrary (represents : Represents w s) {result : Option Nat} {p : Process}
    (ran : mallocLibrary space size w.process = some (result, p)) (after : After w p w') :
    .pointer result = (s.takeLibrary size).1 ∧ Represents w' (s.takeLibrary size).2 := by
  obtain ⟨only, rfl, tiled⟩ :=
    (mallocLibrary_fits (p := w.process) represents.library size).of_run ran
  exact ⟨rfl, represents.keepPages only tiled after⟩

/-- `malloc` with a scheduler is `myallocate` for the running thread. -/
theorem malloc_scheduled {result : Option Nat} {p : Process} (scheduled : w.scheduled = true)
    (ran : malloc space swapping size w.process = some (result, p)) :
    ∃ offset m, myallocate swapping size w.machine = some (offset, m) ∧
      result = offset.map (LIBRARY_BYTES + ·) ∧ p = { w.process with machine := m } := by
  rw [Paging.malloc, look_run, if_pos (show w.process.scheduled = true from scheduled)] at ran
  obtain ⟨offset, q, called, ran⟩ := run_bind ran
  cases ran
  obtain ⟨⟨ptr, m⟩, served, same⟩ := Option.map_eq_some_iff.mp called
  cases same
  exact ⟨offset, m, served, rfl, rfl⟩

/-- What `malloc` left. -/
theorem World.malloc_after (taken : w.next (.malloc size) = some w') :
    ∃ result p, malloc space swapping size w.process = some (result, p) ∧ After w p w' := by
  rw [World.next] at taken
  obtain ⟨⟨result, p⟩, ran, rfl⟩ := Option.map_eq_some_iff.mp taken
  refine ⟨result, p, ran, ?_⟩
  dsimp only
  split
  · exact ⟨rfl, rfl, rfl, rfl⟩
  · exact ⟨rfl, rfl, rfl, rfl⟩

/-- **`malloc`.** -/
theorem Represents.malloc (represents : Represents w s) (inv : Held w)
    (can : w.scheduled = true → CanAllocate w.machine size)
    (taken : w.next (.malloc size) = some w') : Matched w s (.malloc size) w' := by
  refine ⟨0, Nat.zero_le _, ?_⟩
  obtain ⟨result, p, ran, after⟩ := World.malloc_after taken
  have answer : w.answer (.malloc size) = some (.pointer result) := by
    rw [World.answer, ran]
    rfl
  rw [answer, Option.some_inj]
  by_cases scheduled : w.scheduled = true
  · rw [Allocators.next, if_pos (represents.scheduled.trans scheduled)]
    obtain ⟨offset, m, served, rfl, rfl⟩ := malloc_scheduled scheduled ran
    have sheltered : Sheltered w.live w.threadNum w.machine := inv.threads.sheltered
    have running := sheltered.running
    have arena := represents.heaps w.machine.thread running
    have rest := myallocate_serves sheltered arena (can scheduled) served
    obtain ⟨pointer, arena', count⟩ := myallocate_follows sheltered arena (can scheduled) served
    rw [← represents.spare, ← represents.thread] at pointer arena' count
    have spare : s.pool.spare - (rules.request s.pool.spare size (s.pool.heaps s.thread)).pages
        = freeCount m := by omega
    have arena'' : Arena m w.machine.thread
        (rules.request s.pool.spare size (s.pool.heaps s.thread)).blocks := by
      rw [← represents.thread]
      exact arena'
    refine ⟨by rw [pointer]; rfl, ?_⟩
    have represents' := represents.update running rest.thread rest.pageNum rest.others arena'' (after.library ▸ represents.library) after.machine after.live
      after.scheduled
    rw [← spare] at represents'
    exact represents'
  · rw [Allocators.next, if_neg (by rw [represents.scheduled]; exact scheduled)]
    rw [Paging.malloc, look_run, if_neg (show ¬ w.process.scheduled = true from scheduled)] at ran
    exact represents.takeLibrary ran after

/-- A block back to the library heap. -/
theorem Represents.giveLibrary (represents : Represents w s) {p : Process} {blocks : List Block}
    (only : LibraryOnly w.process p)
    (released : release BLOCK_SIZE (ptr - BLOCK_SIZE) 0 s.library = some blocks)
    (tiled : Tiled p.library LIBRARY_BYTES blocks) (after : After w p w') :
    Represents w' (s.giveLibrary ptr).2 := by
  rw [Allocators.giveLibrary, released]
  exact represents.keepPages only tiled after

/-- **A pointer into the pages goes back to the thread's heap.** -/
theorem Represents.free_pages (represents : Represents w s) (inv : Held w) {n : Nat}
    (member : (ptr, n) ∈ w.allocs w.machine.thread) (can : CanFree w (LIBRARY_BYTES + ptr))
    {report : Report} {q : Process}
    (ran : free space ((LIBRARY_BYTES + ptr : Nat) : Int) w.process = some (report, q))
    (after : After w q w') : report = .freed ∧
      Represents w' { s with pool := s.pool.release rules s.thread ptr } := by
  have sheltered : Sheltered w.live w.threadNum w.machine := inv.threads.sheltered
  have running := sheltered.running
  have holds := (represents.held_pages inv running).mp member
  have tiled := (represents.heaps w.machine.thread running).tiled holds
  have home : StartsHome w.process (LIBRARY_BYTES + ptr) := by
    unfold CanFree at can
    have bounds := (tiled.bounds holds).1
    rwa [if_neg (by omega)] at can
  obtain ⟨freed, serves, library, blocks, released, tiled', _⟩ :=
    (free_user (inv.serves (inv.scheduled member)) tiled holds home).of_run ran
  refine ⟨freed, ?_⟩
  have serving := serves.1
  have arena : Arena q.machine w.machine.thread blocks := by
    refine Or.inr ?_
    rw [serving.pageNum]
    exact tiled'
  have tiledLibrary : Tiled w'.library LIBRARY_BYTES s.library := by
    obtain ⟨nonempty, chain, extent, merged⟩ := represents.library
    refine ⟨nonempty, chain.congr fun c _ below => ?_, extent, merged⟩
    rw [Nat.zero_add, extent] at below
    rw [after.library]
    exact library c below
  have count : freeCount q.machine = s.pool.spare := by
    rw [represents.spare]
    exact Permutes.freeCount (shuffles_space.free _ _ _ _ ran)
  have represents' := represents.update running serving.thread
    (fun t _ => congrFun serving.pageNum t) serving.others arena tiledLibrary after.machine after.live
    after.scheduled
  have heap : (FirstFit.release rules.h (ptr - rules.h) 0 (s.pool.heaps s.thread)).getD
      (s.pool.heaps s.thread) = blocks := by
    rw [represents.thread]
    show (FirstFit.release BLOCK_SIZE (ptr - BLOCK_SIZE) 0 _).getD _ = _
    rw [released]
    rfl
  rw [Pool.release, heap, ← count]
  exact represents'

/-- What `free` left. -/
theorem World.free_after (taken : w.next (.free ptr) = some w') :
    ∃ report p, free space (ptr : Int) w.process = some (report, p) ∧ After w p w' := by
  rw [World.next] at taken
  obtain ⟨⟨report, p⟩, ran, rfl⟩ := Option.map_eq_some_iff.mp taken
  refine ⟨report, p, ran, ?_⟩
  dsimp only
  split
  · exact ⟨rfl, rfl, rfl, rfl⟩
  · exact ⟨rfl, rfl, rfl, rfl⟩

/-- **`free`.** -/
theorem Represents.free (represents : Represents w s) (inv : Held w)
    (lawful : WorldLawful w (.free ptr)) (can : CanFree w ptr)
    (taken : w.next (.free ptr) = some w') : Matched w s (.free ptr) w' := by
  have four : BLOCK_SIZE = 4 := rfl
  refine ⟨0, Nat.zero_le _, ?_⟩
  obtain ⟨report, p, ran, after⟩ := World.free_after taken
  have answer : w.answer (.free ptr) = some (.report report) := by
    rw [World.answer, ran]
    rfl
  rw [answer, Option.some_inj]
  obtain ⟨⟨_, n⟩, member, rfl⟩ := lawful
  rcases World.mem_held.mp member with ⟨q, k, inPages, same⟩ | ⟨_, inLibrary⟩
  · cases same
    have holds := (represents.held_pages inv inv.threads.sheltered.running).mp inPages
    have low := holds.bounds.1
    obtain ⟨rfl, represents'⟩ := represents.free_pages inv inPages can ran after
    rw [Allocators.next, if_neg (by omega), Nat.add_sub_cancel_left]
    exact ⟨rfl, represents'⟩
  · have bounds := inv.library_lt (List.mem_append_left _ inLibrary)
    have holds := (represents.held_library inv).mp (List.mem_append_left _ inLibrary)
    simp only at bounds ran can ⊢
    have below : _ < LIBRARY_BYTES + BLOCK_SIZE := lt_of_le_of_lt (Nat.le_of_add_right_le bounds.2)
      (by omega)
    have none : firstFrame w.process.machine w.process.caller = none := by
      unfold CanFree at can
      rwa [if_pos below] at can
    obtain ⟨only, rfl, blocks, released, tiled⟩ :=
      (free_early (p := w.process) represents.library holds none).of_run ran
    rw [Allocators.next, if_pos below]
    exact ⟨rfl, represents.giveLibrary only released tiled after⟩

/-- **A byte written, or a page fetched**: the heaps are as they were. -/
theorem Represents.sameBlocks (represents : Represents w s) {m : Machine}
    (running : w.live w.machine.thread = true) (thread : m.thread = w.machine.thread)
    (pageNum : m.pageNum = w.machine.pageNum)
    (others : ∀ t, w.live t = true → t ≠ w.machine.thread → m.view t = w.machine.view t)
    (arena : Arena m w.machine.thread (s.pool.heaps w.machine.thread))
    (count : freeCount m = freeCount w.machine)
    (tiled : Tiled w'.library LIBRARY_BYTES s.library) (machine : w'.machine = m)
    (live : w'.live = w.live) (scheduled : w'.scheduled = w.scheduled) : Represents w' s := by
  have represents' := represents.update running thread (fun t _ => congrFun pageNum t) others arena
    tiled machine live scheduled
  have pool : (⟨freeCount m, Function.update s.pool.heaps s.thread
      (s.pool.heaps w.machine.thread)⟩ : Pool) = s.pool := by
    rw [count, ← represents.spare, ← represents.thread, Function.update_eq_self]
  rw [pool] at represents'
  exact represents'

/-- **A write to what the thread holds** leaves the blocks. -/
theorem Represents.write (represents : Represents w s) (inv : Held w) {a : Nat} {value : BitVec 8}
    (lawful : WorldLawful w (.write a value)) (taken : w.next (.write a value) = some w') :
    Represents w' s := by
  obtain ⟨block, member, low, high⟩ := lawful
  rw [World.next] at taken
  obtain ⟨⟨_, p⟩, ran, rfl⟩ := Option.map_eq_some_iff.mp taken
  have sheltered : Sheltered w.live w.threadNum w.machine := inv.threads.sheltered
  have running := sheltered.running
  rcases World.mem_held.mp member with ⟨q, n, inPages, rfl⟩ | ⟨_, inLibrary⟩
  · simp only at low high
    have user : ¬ a < LIBRARY_BYTES := by omega
    obtain ⟨m, touched, rfl⟩ := reachByte_pages user ran
    have holds := (represents.held_pages inv running).mp inPages
    have tiled := (represents.heaps w.machine.thread running).tiled holds
    have inside : a - LIBRARY_BYTES < w.machine.pageNum w.machine.thread * PAGESIZE := by
      have bounds := (tiled.bounds holds).2
      omega
    obtain ⟨_, thread, pageNum, view⟩ :=
      (writeByte_writes sheltered inside value).of_run (writeByte_run touched value)
    have permutes : Permutes m
        { m with frames := Function.update m.frames (a - LIBRARY_BYTES) value } :=
      permutes_of_eq rfl rfl rfl rfl
    have poked : Process.poke { w.process with machine := m } a value
        = { w.process with machine :=
            { m with frames := Function.update m.frames (a - LIBRARY_BYTES) value } } := if_neg user
    refine represents.sameBlocks running thread pageNum (fun t alive other => ?_) (Or.inr ?_) ?_
      ?_ (congrArg Process.machine poked) rfl rfl
    · rw [view t alive, if_neg other]
    · rw [view _ running, if_pos rfl, pageNum]
      exact tiled.update holds (by omega) (by omega) value
    · rw [permutes.freeCount]
      exact (keeps_touch _ _ _ _ touched).freeCount
    · show Tiled (Process.poke _ a value).library LIBRARY_BYTES s.library
      rw [poked]
      exact represents.library
  · have bounds := inv.library_lt (List.mem_append_left _ inLibrary)
    have library : a < LIBRARY_BYTES := by omega
    have holds := (represents.held_library inv).mp (List.mem_append_left _ inLibrary)
    obtain rfl := reachByte_library library ran
    have poked : w.process.poke a value
        = { w.process with library := Function.update w.library a value } := if_pos library
    refine represents.keepHeaps (permutes_composes.refl _) (fun _ _ => rfl) ?_
      (congrArg Process.machine poked) rfl rfl
    show Tiled (Process.poke _ a value).library LIBRARY_BYTES s.library
    rw [poked]
    exact represents.library.update holds low high value

/-- **A read of what the thread holds** fetches a page at most. -/
theorem Represents.read (represents : Represents w s) (inv : Held w) {a : Nat}
    (lawful : WorldLawful w (.read a)) (taken : w.next (.read a) = some w') : Represents w' s := by
  obtain ⟨block, member, low, high⟩ := lawful
  rw [World.next] at taken
  obtain ⟨⟨_, p⟩, ran, rfl⟩ := Option.map_eq_some_iff.mp taken
  rcases World.mem_held.mp member with ⟨q, n, inPages, rfl⟩ | ⟨_, inLibrary⟩
  · simp only at low high
    have user : ¬ a < LIBRARY_BYTES := by omega
    obtain ⟨m, touched, rfl⟩ := reachByte_pages user ran
    have holds := World.holds_of_mem inPages low high
    have settled := ((inv.threads.read holds).of_run (readByte_run touched)).2
    exact represents.keep (keeps_touch _ _ _ _ touched) settled.views rfl rfl rfl rfl
  · have bounds := inv.library_lt (List.mem_append_left _ inLibrary)
    obtain rfl := reachByte_library (by omega) ran
    exact represents.keep (permutes_composes.refl _) (fun _ _ => rfl) rfl rfl rfl rfl

/-! ### Threads -/

/-- A switch changes no entry and no byte. -/
theorem Switched.same {m m' : Machine} {next : Nat} (switched : Switched next m m') :
    freeCount m' = freeCount m ∧ m'.pageNum = m.pageNum ∧ ∀ t, m'.view t = m.view t :=
  ⟨freeCount_congr (entry_congr switched.pages switched.diskPages), switched.pageNum,
    view_congr switched.pages switched.diskPages switched.frames switched.swpFile⟩

/-- The timer is set, and there is a scheduler. -/
theorem Represents.initialize (represents : Represents w s)
    (taken : w.next .initializeScheduler = some w') : Represents w' { s with scheduled := true } := by
  cases taken
  obtain ⟨library, heaps, gone, spare, thread, _⟩ := represents
  have settles : ∀ t, Machine.view { w.machine with timer := ⟨QUANTUM, QUANTUM⟩ } t
      = w.machine.view t := view_congr rfl rfl rfl rfl
  have count : freeCount { w.machine with timer := ⟨QUANTUM, QUANTUM⟩ } = freeCount w.machine :=
    freeCount_congr (by rfl)
  refine ⟨library, fun t alive => ?_, gone, spare.trans count.symm, thread, rfl⟩
  unfold Arena
  rw [settles]
  exact heaps t alive

theorem Represents.switch (represents : Represents w s) {next : Nat}
    (taken : w.next (.switch next) = some w') : Represents w' { s with thread := next } := by
  rw [World.next] at taken
  obtain ⟨⟨_, m⟩, ran, rfl⟩ := Option.map_eq_some_iff.mp taken
  have switched := switchTo_run ran
  obtain ⟨count, pageNum, view⟩ := switched.same
  obtain ⟨library, heaps, gone, spare, _, scheduled⟩ := represents
  refine ⟨library, fun t alive => ?_, gone, spare.trans count.symm, switched.thread.symm, scheduled⟩
  unfold Arena
  show (m.pageNum t = 0 ∧ _) ∨ Tiled (m.view t) (m.pageNum t * PAGESIZE) _
  rw [pageNum, view t]
  exact heaps t alive

/-- **What `freePages` gives back**: some of the pages of the thread. -/
theorem freeCount_released_le {live : Nat → Bool} {threadNum : Nat} {m : Machine}
    (labelled : Labelled live threadNum m.pageNum m.entry) (alive : live m.thread = true) :
    freeCount m ≤ freeCount (released m) ∧
      freeCount (released m) ≤ freeCount m + m.pageNum m.thread := by
  have kept : freePlaces m.entry ⊆ freePlaces (released m).entry := by
    intro place member
    obtain ⟨inside, isFree⟩ := mem_freePlaces.mp member
    refine mem_freePlaces.mpr ⟨inside, ?_⟩
    cases place with
    | slot i => exact isFree
    | frame i =>
      by_cases mine : i < USER_PAGES ∧ (getPageThID (m.pages i)).toNat = m.thread
      · rw [released_entry_of_mine mine.1 mine.2, getPageIsF_setPageIsF (by decide)]
      · rw [released_entry_of_not mine]
        exact isFree
  have new : freePlaces (released m).entry ⊆ freePlaces m.entry ∪ pagesOf m.entry m.thread := by
    intro place member
    obtain ⟨inside, isFree⟩ := mem_freePlaces.mp member
    rw [Finset.mem_union, mem_freePlaces, mem_pagesOf]
    by_cases mine : (getPageThID (m.entry place)).toNat = m.thread
    · rcases labelled.flags place inside with used | was
      · exact Or.inr ⟨inside, used, mine⟩
      · exact Or.inl ⟨inside, was⟩
    · rw [released_of_ne place mine] at isFree
      exact Or.inl ⟨inside, isFree⟩
  rw [freeCount_eq, freeCount_eq, ← labelled.card_pagesOf alive]
  exact ⟨Finset.card_le_card kept,
    (Finset.card_le_card new).trans (Finset.card_union_le _ _)⟩

/-- The pages of a thread, as its heap shows them. -/
theorem Represents.pagesOf (represents : Represents w s) (running : w.live w.machine.thread = true) :
    s.pool.pagesOf rules s.thread = w.machine.pageNum w.machine.thread := by
  rw [Pool.pagesOf, represents.thread]
  rcases represents.heaps w.machine.thread running with ⟨none, empty⟩ | tiled
  · rw [none, empty]
    exact Nat.zero_div _
  · show extentOf (s.pool.heaps w.machine.thread) / PAGESIZE = _
    rw [tiled.extent]
    exact Nat.mul_div_cancel _ (by decide)

/-- **An exit.** -/
theorem Represents.exit (represents : Represents w s) (inv : Held w) {next : Nat}
    (lawful : WorldLawful w (.exit next)) (taken : w.next (.exit next) = some w') :
    Matched w s (.exit next) w' := by
  have answer : w.answer (.exit next) = some .nothing := by
    show (w.next (.exit next)).map _ = _
    rw [taken]
    rfl
  have sheltered : Sheltered w.live w.threadNum w.machine := inv.threads.sheltered
  have running := sheltered.running
  have own := represents.thread
  rw [World.next] at taken
  obtain ⟨⟨_, m⟩, ran, rfl⟩ := Option.map_eq_some_iff.mp taken
  have switched := switchTo_run ran
  obtain ⟨_, view⟩ := switched.shelters_exit sheltered lawful.2.1 lawful.2.2
  obtain ⟨count, pageNum, _⟩ := switched.same
  obtain ⟨less, atMost⟩ := freeCount_released_le sheltered.labelled running
  have others : ∀ {t}, Function.update w.live w.machine.thread false t = true →
      w.live t = true ∧ t ≠ w.machine.thread := by
    intro t alive
    by_cases same : t = w.machine.thread
    · rw [same, Function.update_self] at alive
      cases alive
    · rw [Function.update_of_ne same] at alive
      exact ⟨alive, same⟩
  refine ⟨freeCount (released w.machine) - freeCount w.machine, ?_, answer, represents.library,
    fun t alive => ?_, fun t dead => ?_, ?_, switched.thread.symm, represents.scheduled⟩
  · rw [represents.pagesOf running]
    omega
  · obtain ⟨lives, other⟩ := others alive
    show Arena m t (Function.update s.pool.heaps s.thread [] t)
    rw [own, Function.update_of_ne other]
    unfold Arena
    rw [pageNum, view t lives other]
    exact represents.heaps t lives
  · show Function.update s.pool.heaps s.thread [] t = []
    by_cases same : t = s.thread
    · rw [same, Function.update_self]
    · rw [Function.update_of_ne same]
      have was : Function.update w.live w.machine.thread false t = false := dead
      rw [← own, Function.update_of_ne same] at was
      exact represents.gone t was
  · show s.pool.spare + _ = freeCount m
    rw [represents.spare, count]
    omega

/-- **A new thread** has no heap yet. -/
theorem Represents.create (represents : Represents w s) (inv : Held w)
    (taken : w.next .create = some w') : Represents w' s := by
  cases taken
  obtain ⟨library, heaps, gone, spare, thread, scheduled⟩ := represents
  have new : w.live w.threadNum = false := by
    by_contra alive
    exact absurd (inv.threads.sheltered.labelled.ids _ (Bool.not_eq_false _ ▸ alive)).2
      (lt_irrefl w.threadNum)
  have permutes : freeCount { w.machine with
      pageNum := Function.update w.machine.pageNum w.threadNum 0 } = freeCount w.machine :=
    freeCount_congr (by rfl)
  refine ⟨library, fun t alive => ?_, fun t dead => ?_, spare.trans permutes.symm, thread, scheduled⟩
  · by_cases same : t = w.threadNum
    · refine Or.inl ⟨?_, same ▸ gone _ new⟩
      show Function.update w.machine.pageNum w.threadNum 0 t = 0
      rw [same, Function.update_self]
    · have lives : Function.update w.live w.threadNum true t = true := alive
      rw [Function.update_of_ne same] at lives
      have view : ∀ u, Machine.view { w.machine with
          pageNum := Function.update w.machine.pageNum w.threadNum 0 } u = w.machine.view u :=
        view_congr rfl rfl rfl rfl
      unfold Arena
      rw [view]
      show (Function.update w.machine.pageNum w.threadNum 0 t = 0 ∧ _) ∨
        Tiled _ (Function.update w.machine.pageNum w.threadNum 0 t * PAGESIZE) _
      rw [Function.update_of_ne same]
      exact heaps t lives
  · have died : Function.update w.live w.threadNum true t = false := dead
    by_cases same : t = w.threadNum
    · rw [same, Function.update_self] at died
      cases died
    · rw [Function.update_of_ne same] at died
      exact gone t died

/-- An event that answers nothing. -/
theorem World.answer_nothing {e : WorldEvent} (taken : w.next e = some w')
    (quiet : w.answer e = (w.next e).map fun _ => .nothing) : w.answer e = some .nothing := by
  rw [quiet, taken]
  rfl

/-- **One event.** -/
theorem Represents.step (represents : Represents w s) (inv : Held w) {e : WorldEvent}
    (safe : WorldSafe w e) (taken : w.next e = some w') : Matched w s e w' := by
  obtain ⟨lawful, can⟩ := safe
  cases e with
  | malloc size => exact represents.malloc inv can taken
  | free ptr => exact represents.free inv lawful can taken
  | write address value =>
    exact ⟨0, Nat.zero_le _, World.answer_nothing taken rfl, represents.write inv lawful taken⟩
  | read address =>
    exact ⟨0, Nat.zero_le _, World.answer_nothing taken rfl, represents.read inv lawful taken⟩
  | mallocLibrary size =>
    rw [World.next] at taken
    obtain ⟨⟨result, p⟩, ran, rfl⟩ := Option.map_eq_some_iff.mp taken
    have answer : w.answer (.mallocLibrary size) = some (.pointer result) := by
      rw [World.answer, ran]
      rfl
    have after : After w p { w.put p with own := record w.own size result } := ⟨rfl, rfl, rfl, rfl⟩
    obtain ⟨reply, represents'⟩ := represents.takeLibrary ran after
    exact ⟨0, Nat.zero_le _, answer.trans (congrArg some reply), represents'⟩
  | freeLibrary ptr =>
    obtain ⟨⟨_, n⟩, member, rfl⟩ := lawful
    rw [World.next] at taken
    obtain ⟨⟨report, p⟩, ran, rfl⟩ := Option.map_eq_some_iff.mp taken
    have holds := (represents.held_library inv).mp (List.mem_append_right _ member)
    obtain ⟨only, rfl, blocks, released, tiled⟩ :=
      (freeLibrary_spec (p := w.process) represents.library holds).of_run ran
    refine ⟨0, Nat.zero_le _, ?_, represents.giveLibrary only released tiled ⟨rfl, rfl, rfl, rfl⟩⟩
    rw [World.answer, ran]
    rfl
  | writeLibrary address value =>
    refine ⟨0, Nat.zero_le _, World.answer_nothing taken rfl, ?_⟩
    cases taken
    obtain ⟨block, member, low, high⟩ := lawful
    have holds := (represents.held_library inv).mp (List.mem_append_right _ member)
    exact represents.keepHeaps (permutes_composes.refl _) (fun _ _ => rfl)
      (represents.library.update holds low high value) rfl rfl rfl
  | initializeScheduler =>
    refine ⟨0, Nat.zero_le _, World.answer_nothing taken rfl, ?_⟩
    exact represents.initialize taken
  | switch next =>
    exact ⟨0, Nat.zero_le _, World.answer_nothing taken rfl, represents.switch taken⟩
  | exit next => exact represents.exit inv lawful taken
  | create => exact ⟨0, Nat.zero_le _, World.answer_nothing taken rfl, represents.create inv taken⟩

end Events

/-! ### Runs -/

/-- All entries are free at the start. -/
theorem WorldStarted.freeCount {w : World} (started : WorldStarted w) :
    freeCount w.machine = USER_PAGES + DISK_PAGES := by
  unfold Paging.freeCount
  rw [List.countP_eq_length.mpr fun i _ => ?_, List.countP_eq_length.mpr fun i _ => ?_,
    List.length_range, List.length_range]
  · rw [started.diskPages]
    decide
  · rw [started.pages]
    decide

theorem WorldStarted.represents {w : World} (started : WorldStarted w) :
    Represents w Allocators.initial := by
  obtain ⟨before, ran⟩ := started.library
  have heap : LibraryHeap ⟨w.library, []⟩ [⟨LIBRARY_BYTES - BLOCK_SIZE, true⟩] :=
    LibraryStarted.heap ⟨before, ran, rfl⟩
  refine ⟨heap.tiled, fun t alive => Or.inl ⟨?_, rfl⟩, fun _ _ => rfl, started.freeCount.symm,
    started.thread.symm, started.scheduled.symm⟩
  rw [started.live] at alive
  rw [of_decide_eq_true alive]
  exact started.pageNum

/-- **A run** of the process is one of the allocators. -/
theorem Represents.runs {events : List WorldEvent} : ∀ {w w' : World} {s : Allocators}
    {answers : List Reply}, Represents w s → Held w → SafeThroughout w events →
      w.trace events = some (answers, w') →
        ∃ s', Allocators.Runs s events answers s' ∧ Represents w' s' ∧ Held w' := by
  induction events with
  | nil =>
    intro w w' s answers represents inv _ ran
    cases ran
    exact ⟨s, .nil s, represents, inv⟩
  | cons e events ih =>
    intro w w' s answers represents inv safe ran
    obtain ⟨answer, answered, ran⟩ := Option.bind_eq_some_iff.mp ran
    obtain ⟨next, taken, ran⟩ := Option.bind_eq_some_iff.mp ran
    obtain ⟨⟨rest, last⟩, traced, same⟩ := Option.map_eq_some_iff.mp ran
    cases same
    obtain ⟨given, within, reply, represents'⟩ := represents.step inv safe.1 taken
    obtain ⟨s', runs, final⟩ :=
      ih represents' (inv.step safe.1 taken) (safe.2 next taken) traced
    rw [answered, Option.some_inj] at reply
    rw [reply]
    exact ⟨s', .cons given within runs, final⟩

end OS2017.Paging
