/-
**Pointers over whole runs.**

A process from its first `malloc` on: before the scheduler exists `malloc` takes from the library heap
for the main thread, afterwards from the pages of the running thread; the library takes from its heap
for itself; threads are created, switched and exit. Each pointer a thread holds can be freed, if the
walk of `free` starts right (`pointers_freeable`): for a pointer into the pages, the first frame with
the thread's id is frame `0`; for one from before the scheduler, the thread has no frame at all. In
general it cannot be freed (`pointers_not_freeable`).
-/

import OS2017.Paging.Freeing

namespace OS2017.Paging

open OS2017.Bytes OS2017.Heap OS2017.FirstFit OS2017.Run

/-! ### The process -/

/-- The process, with what the threads and the library hold. -/
structure World where
  machine : Machine
  library : Memory
  scheduled : Bool
  live : Nat → Bool
  threadNum : Nat
  /-- each thread's allocations in its pages, from `userSpace` on: pointer and size -/
  allocs : Nat → List (Nat × Nat)
  /-- what the main thread got before the scheduler existed -/
  early : List (Nat × Nat)
  /-- what the library holds itself -/
  own : List (Nat × Nat)

def World.process (w : World) : Process := ⟨w.machine, w.library, w.scheduled⟩

/-- The memory as a program has left it. -/
def World.put (w : World) (p : Process) : World := { w with machine := p.machine, library := p.library }

/-- What can happen. An address is an offset from `memory`. -/
inductive WorldEvent
  | malloc (size : Nat)
  | free (ptr : Nat)
  | write (address : Nat) (value : BitVec 8)
  | read (address : Nat)
  | mallocLibrary (size : Nat)
  | freeLibrary (ptr : Nat)
  | writeLibrary (address : Nat) (value : BitVec 8)
  | initializeScheduler
  | switch (next : Nat)
  | exit (next : Nat)
  | create

/-- A pointer handed out. -/
def record (blocks : List (Nat × Nat)) (size : Nat) : Option Nat → List (Nat × Nat)
  | none => blocks
  | some ptr => (ptr, size) :: blocks

/-- A pointer freed. -/
def forget (blocks : List (Nat × Nat)) (ptr : Nat) : List (Nat × Nat) :=
  blocks.filter fun block => block.1 ≠ ptr

/-- The access of a thread to a byte. -/
def reachByte (a : Nat) : StateT Process Option Unit :=
  if a < LIBRARY_BYTES then return () else onMachine (touch ((a - LIBRARY_BYTES) / PAGESIZE))

/-- One event. -/
def World.next (w : World) : WorldEvent → Option World
  | .malloc size => (malloc space swapping size w.process).map fun (result, p) =>
      if w.scheduled then
        { w.put p with
          allocs := handOut w.allocs w.machine.thread size (result.map (· - LIBRARY_BYTES)) }
      else { w.put p with early := record w.early size result }
  | .free ptr => (free space (ptr : Int) w.process).map fun (_, p) =>
      if ptr < LIBRARY_BYTES + BLOCK_SIZE then
        { w.put p with early := forget w.early ptr, own := forget w.own ptr }
      else
        { w.put p with
          allocs := Function.update w.allocs w.machine.thread
            (forget (w.allocs w.machine.thread) (ptr - LIBRARY_BYTES)) }
  | .write address value => (reachByte address w.process).map fun (_, p) =>
      w.put (p.poke address value)
  | .read address => (reachByte address w.process).map fun (_, p) => w.put p
  | .mallocLibrary size => (mallocLibrary space size w.process).map fun (result, p) =>
      { w.put p with own := record w.own size result }
  | .freeLibrary ptr => (freeLibrary space (ptr : Int) w.process).map fun (_, p) =>
      { w.put p with early := forget w.early ptr, own := forget w.own ptr }
  | .writeLibrary address value => some { w with library := Function.update w.library address value }
  | .initializeScheduler => some { w with
      scheduled := true, machine := { w.machine with timer := ⟨QUANTUM, QUANTUM⟩ } }
  | .switch next => (switchTo next w.machine).map fun (_, m) => { w with machine := m }
  | .exit next => (switchTo next (released w.machine)).map fun (_, m) =>
      { w with machine := m, live := Function.update w.live w.machine.thread false }
  | .create =>
    some { w with
      machine := { w.machine with pageNum := Function.update w.machine.pageNum w.threadNum 0 }
      live := Function.update w.live w.threadNum true
      threadNum := w.threadNum + 1
      allocs := Function.update w.allocs w.threadNum [] }

/-- The blocks the running thread got from `malloc` and holds, as offsets from `memory`. -/
def World.held (w : World) : List (Nat × Nat) :=
  (w.allocs w.machine.thread).map (fun block => (LIBRARY_BYTES + block.1, block.2)) ++
    if w.machine.thread = 1 then w.early else []

/-- Threads free what they hold and write there, the library frees and writes its own, and the
scheduler switches to live threads. -/
def WorldLawful (w : World) : WorldEvent → Prop
  | .malloc _ => True
  | .free ptr => ∃ block ∈ w.held, block.1 = ptr
  | .write address _ => ∃ block ∈ w.held, block.1 ≤ address ∧ address < block.1 + block.2
  | .read address => ∃ block ∈ w.held, block.1 ≤ address ∧ address < block.1 + block.2
  | .mallocLibrary _ => True
  | .freeLibrary ptr => ∃ block ∈ w.own, block.1 = ptr
  | .writeLibrary address _ => ∃ block ∈ w.own, block.1 ≤ address ∧ address < block.1 + block.2
  | .initializeScheduler => w.scheduled = false
  | .switch next => w.scheduled = true ∧ w.live next = true
  | .exit next => w.scheduled = true ∧ w.live next = true ∧ next ≠ w.machine.thread
  | .create => w.scheduled = true ∧ w.threadNum < 256

instance (w : World) (e : WorldEvent) : Decidable (WorldLawful w e) := by
  cases e <;> unfold WorldLawful <;> infer_instance

/-- **The walk of `free` starts in the heap the pointer came from, at its first block.** -/
def CanFree (w : World) (ptr : Nat) : Prop :=
  if ptr < LIBRARY_BYTES + BLOCK_SIZE then firstFrame w.machine w.process.caller = none
  else StartsHome w.process ptr

instance (w : World) (ptr : Nat) : Decidable (CanFree w ptr) := by
  unfold CanFree
  infer_instance

/-- The same, where each allocation is one the running thread can make safely, and each `free` starts
its walk right. -/
def WorldSafe (w : World) (e : WorldEvent) : Prop :=
  WorldLawful w e ∧ match e with
    | .malloc size => w.scheduled = true → CanAllocate w.machine size
    | .free ptr => CanFree w ptr
    | _ => True

instance (w : World) (e : WorldEvent) : Decidable (WorldSafe w e) := by
  unfold WorldSafe
  cases e <;> infer_instance

/-- The heap and the tables just made, and the main thread alone. -/
structure WorldStarted (w : World) : Prop where
  pages : ∀ i, w.machine.pages i = 1
  diskPages : ∀ i, w.machine.diskPages i = 1
  thread : w.machine.thread = 1
  pageNum : w.machine.pageNum 1 = 0
  library : ∃ before, initializeRoot plain before = some ((), w.library)
  scheduled : w.scheduled = false
  live : w.live = fun t => t = 1
  threadNum : w.threadNum = 2
  allocs : ∀ t, w.allocs t = []
  early : w.early = []
  own : w.own = []

/-- **`free` releases the block of the pointer**, in the heap it came from. -/
def Frees (w : World) (ptr : Nat) : Prop :=
  if ptr < LIBRARY_BYTES + BLOCK_SIZE then
    ∃ blocks blocks', Tiled w.library LIBRARY_BYTES blocks ∧
      release BLOCK_SIZE (ptr - BLOCK_SIZE) 0 blocks = some blocks' ∧
      Returns (free space (ptr : Int)) w.process fun report q => report = .freed ∧
        Tiled q.library LIBRARY_BYTES blocks'
  else
    ∃ blocks blocks', Tiled (w.machine.view w.machine.thread)
        (w.machine.pageNum w.machine.thread * PAGESIZE) blocks ∧
      release BLOCK_SIZE (ptr - LIBRARY_BYTES - BLOCK_SIZE) 0 blocks = some blocks' ∧
      Returns (free space (ptr : Int)) w.process fun report q => report = .freed ∧
        Tiled (q.machine.view w.machine.thread)
          (w.machine.pageNum w.machine.thread * PAGESIZE) blocks'

/-! ### One event -/

/-- The threads and their pages. -/
def World.threads (w : World) : Threads :=
  ⟨w.machine, w.live, w.threadNum, w.allocs, fun _ _ => none⟩

/-- **The invariant**: the threads' heaps, the library heap, and no frame labelled before the scheduler
exists. -/
structure Held (w : World) : Prop where
  threads : Private w.threads
  library : ∃ blocks, Tiled w.library LIBRARY_BYTES blocks ∧
    ∀ p n, (p, n) ∈ w.early ++ w.own ↔ Holds BLOCK_SIZE 0 blocks p n
  unscheduled : w.scheduled = false → w.machine.thread = 1 ∧ (∀ t, w.allocs t = []) ∧
    ∀ i < USER_PAGES, (getPageThID (w.machine.pages i)).toNat ≠ 1

section Events

variable {w : World}

/-- What was written is not needed. -/
theorem Private.forget {s : Threads} (inv : Private s) :
    Private { s with written := fun _ _ => none } :=
  ⟨inv.sheltered, inv.heaps, fun _ _ _ _ wrote => by cases wrote⟩

theorem mem_forget {blocks : List (Nat × Nat)} {ptr p n : Nat} :
    (p, n) ∈ forget blocks ptr ↔ (p, n) ∈ blocks ∧ p ≠ ptr := by
  unfold forget
  rw [List.mem_filter, decide_eq_true_eq]

theorem mem_record {blocks : List (Nat × Nat)} {size p n : Nat} {result : Option Nat} :
    (p, n) ∈ record blocks size result ↔ (p, n) ∈ blocks ∨ (result = some p ∧ n = size) := by
  cases result with
  | none => simp [record]
  | some ptr =>
    rw [record, List.mem_cons, Prod.mk.injEq, or_comm, Option.some_inj]
    exact or_congr_right (and_congr_left fun _ => eq_comm)

/-- The running thread is served. -/
theorem Held.serves (inv : Held w) (scheduled : w.scheduled = true) :
    Serves w.live w.threadNum w.machine.thread w.machine.pageNum w.machine.view w.process :=
  ⟨⟨inv.threads.sheltered, rfl, rfl, fun _ _ _ => rfl, False.elim⟩, scheduled⟩

/-- A pointer into the pages is there only once the scheduler exists. -/
theorem Held.scheduled (inv : Held w) {block : Nat × Nat}
    (member : block ∈ w.allocs w.machine.thread) : w.scheduled = true := by
  cases flag : w.scheduled with
  | true => rfl
  | false =>
    rw [(inv.unscheduled flag).2.1] at member
    exact absurd member List.not_mem_nil

/-- What the running thread holds is in its pages, or in the library heap. -/
theorem World.mem_held {block : Nat × Nat} : block ∈ w.held ↔
    (∃ p n, (p, n) ∈ w.allocs w.machine.thread ∧ block = (LIBRARY_BYTES + p, n)) ∨
      (w.machine.thread = 1 ∧ block ∈ w.early) := by
  unfold World.held
  rw [List.mem_append, List.mem_map]
  refine or_congr ⟨?_, ?_⟩ ?_
  · rintro ⟨⟨p, n⟩, member, rfl⟩
    exact ⟨p, n, member, rfl⟩
  · rintro ⟨p, n, member, rfl⟩
    exact ⟨(p, n), member, rfl⟩
  · split
    · rename_i main
      simp [main]
    · rename_i other
      simp [other]

/-- The library heap is below user space. -/
theorem Held.library_lt (inv : Held w) {block : Nat × Nat} (member : block ∈ w.early ++ w.own) :
    BLOCK_SIZE ≤ block.1 ∧ block.1 + block.2 ≤ LIBRARY_BYTES := by
  obtain ⟨blocks, tiled, held⟩ := inv.library
  exact tiled.bounds ((held block.1 block.2).mp member)

theorem Private.timer {s : Threads} (inv : Private s) (timer : Timer) :
    Private { s with machine := { s.machine with timer := timer } } := by
  have settled := settled_timer inv.sheltered timer
  exact inv.keep settled.sheltered (fun _ _ => rfl) settled.views

/-- **A call on the library heap** that leaves it tiled. -/
theorem Held.libraryCall (inv : Held w) {p : Process} (early own : List (Nat × Nat))
    (only : LibraryOnly w.process p) {blocks : List Block}
    (tiled : Tiled p.library LIBRARY_BYTES blocks)
    (held : ∀ q n, (q, n) ∈ early ++ own ↔ Holds BLOCK_SIZE 0 blocks q n) :
    Held { w.put p with early := early, own := own } := by
  have machine : p.machine = { w.machine with timer := p.machine.timer } := by
    rw [only]
    rfl
  refine ⟨?_, ⟨blocks, tiled, held⟩, fun flag => ?_⟩
  · have kept := inv.threads.timer p.machine.timer
    unfold World.threads World.put
    rw [machine]
    exact kept
  · obtain ⟨thread, none, labels⟩ := inv.unscheduled flag
    refine ⟨?_, none, fun i inside => ?_⟩
    · show p.machine.thread = 1
      rw [machine]
      exact thread
    · show (getPageThID (p.machine.pages i)).toNat ≠ 1
      rw [machine]
      exact labels i inside

/-- **`malloc`, by where it takes from.** -/
theorem World.next_malloc {w' : World} {size : Nat} (taken : w.next (.malloc size) = some w') :
    (w.scheduled = true ∧ ∃ offset m, myallocate swapping size w.machine = some (offset, m) ∧
      w' = { w with machine := m, allocs := handOut w.allocs w.machine.thread size offset }) ∨
    (w.scheduled = false ∧ ∃ result p, mallocLibrary space size w.process = some (result, p) ∧
      w' = { w.put p with early := record w.early size result }) := by
  rw [World.next] at taken
  obtain ⟨⟨result, p⟩, ran, rfl⟩ := Option.map_eq_some_iff.mp taken
  rw [Paging.malloc, look_run] at ran
  by_cases flag : w.scheduled = true
  · rw [if_pos (show w.process.scheduled = true from flag)] at ran
    obtain ⟨offset, q, called, ran⟩ := run_bind ran
    cases ran
    obtain ⟨⟨ptr, m⟩, served, same⟩ := Option.map_eq_some_iff.mp called
    cases same
    have pointer : (offset.map (LIBRARY_BYTES + ·)).map (· - LIBRARY_BYTES) = offset := by
      cases offset with
      | none => rfl
      | some ptr => simp
    simp only [if_pos flag, pointer]
    exact Or.inl ⟨flag, offset, m, served, rfl⟩
  · rw [if_neg (show ¬ w.process.scheduled = true from flag)] at ran
    simp only [if_neg flag]
    exact Or.inr ⟨Bool.eq_false_iff.mpr flag, result, p, ran, rfl⟩

/-- **`malloc`.** -/
theorem Held.malloc {w' : World} {size : Nat} (inv : Held w)
    (can : w.scheduled = true → CanAllocate w.machine size)
    (taken : w.next (.malloc size) = some w') : Held w' := by
  rcases World.next_malloc taken with ⟨scheduled, offset, m, served, rfl⟩ | ⟨_, result, p, ran, rfl⟩
  · refine ⟨inv.threads.allocate (can scheduled) served, inv.library, fun impossible => ?_⟩
    have still : w.scheduled = false := impossible
    rw [scheduled] at still
    cases still
  · obtain ⟨blocks, tiled, held⟩ := inv.library
    obtain ⟨only, blocks', tiled', granted⟩ :=
      (mallocLibrary_spec (p := w.process) tiled size).of_run ran
    refine inv.libraryCall _ _ only tiled' fun q n => ?_
    rw [granted.holds, ← held, List.mem_append, List.mem_append, mem_record]
    constructor
    · rintro ((before | new) | own)
      · exact Or.inl (Or.inl before)
      · exact Or.inr new
      · exact Or.inl (Or.inr own)
    · rintro ((before | own) | new)
      · exact Or.inl (Or.inl before)
      · exact Or.inr own
      · exact Or.inl (Or.inr new)

/-- A release in the library heap, as its holders see it. -/
theorem held_forget {blocks blocks' : List Block} {early own : List (Nat × Nat)} {ptr : Nat}
    (positive : BLOCK_SIZE ≤ ptr)
    (held : ∀ q n, (q, n) ∈ early ++ own ↔ Holds BLOCK_SIZE 0 blocks q n)
    (released : release BLOCK_SIZE (ptr - BLOCK_SIZE) 0 blocks = some blocks') (q n : Nat) :
    (q, n) ∈ forget early ptr ++ forget own ptr ↔ Holds BLOCK_SIZE 0 blocks' q n := by
  rw [release_holds (by decide) released, Nat.sub_add_cancel positive, ← held, List.mem_append,
    List.mem_append, mem_forget, mem_forget, or_and_right]

/-- **A pointer into the pages is freed.** -/
theorem Held.free_pages (inv : Held w) {ptr n : Nat} (member : (ptr, n) ∈ w.allocs w.machine.thread)
    (can : CanFree w (LIBRARY_BYTES + ptr)) : ∃ blocks blocks',
      Tiled (w.machine.view w.machine.thread) (w.machine.pageNum w.machine.thread * PAGESIZE) blocks ∧
      release BLOCK_SIZE (ptr - BLOCK_SIZE) 0 blocks = some blocks' ∧
      Returns (free space ((LIBRARY_BYTES + ptr : Nat) : Int)) w.process fun report q => report = .freed ∧
        Tiled (q.machine.view w.machine.thread)
          (w.machine.pageNum w.machine.thread * PAGESIZE) blocks' ∧
        Held { w.put q with
          allocs := Function.update w.allocs w.machine.thread
            (forget (w.allocs w.machine.thread) ptr) } := by
  have scheduled := inv.scheduled member
  have running : w.live w.machine.thread = true := inv.threads.sheltered.running
  have serves := inv.serves scheduled
  obtain ⟨blocks, arena, allocs⟩ := inv.threads.heaps w.machine.thread running
  have holds := (allocs ptr n).mp member
  have tiled : Tiled (w.machine.view w.machine.thread)
      (w.machine.pageNum w.machine.thread * PAGESIZE) blocks := by
    rcases arena with ⟨_, rfl⟩ | tiled
    · exact holds.elim
    · exact tiled
  have home : StartsHome w.process (LIBRARY_BYTES + ptr) := by
    unfold CanFree at can
    have bounds := (tiled.bounds holds).1
    rwa [if_neg (by omega)] at can
  have spec := free_user serves tiled holds home
  obtain ⟨report, q, ran, freed, serves', library, blocks', released, tiled', same⟩ := spec
  refine ⟨blocks, blocks', tiled, released, report, q, ran, freed, tiled', ⟨?_, ?_, ?_⟩⟩
  · have serving := serves'.1
    refine ⟨serving.sheltered, fun t alive => ?_, fun _ _ _ _ wrote => by cases wrote⟩
    by_cases mine : t = w.machine.thread
    · refine ⟨blocks', Or.inr ?_, fun p k => ?_⟩
      · show Tiled (q.machine.view t) (q.machine.pageNum t * PAGESIZE) blocks'
        rw [mine, serving.pageNum]
        exact tiled'
      · show (p, k) ∈ Function.update w.allocs w.machine.thread _ t ↔ _
        rw [mine, Function.update_self, mem_forget, release_holds (by decide) released,
          Nat.sub_add_cancel (tiled.bounds holds).1]
        exact and_congr_left fun _ => allocs p k
    · obtain ⟨blocks₂, arena₂, allocs₂⟩ := inv.threads.heaps t alive
      refine ⟨blocks₂, ?_, fun p k => ?_⟩
      · show (q.machine.pageNum t = 0 ∧ _) ∨ Tiled (q.machine.view t) (q.machine.pageNum t * PAGESIZE) _
        rw [serving.pageNum, serving.others t alive mine]
        exact arena₂
      · show (p, k) ∈ Function.update w.allocs w.machine.thread _ t ↔ _
        rw [Function.update_of_ne mine]
        exact allocs₂ p k
  · obtain ⟨libraryBlocks, libraryTiled, held⟩ := inv.library
    refine ⟨libraryBlocks, ⟨libraryTiled.nonempty, ?_, libraryTiled.extent, libraryTiled.merged⟩, held⟩
    refine libraryTiled.chain.congr fun c _ below => library c ?_
    rw [Nat.zero_add, libraryTiled.extent] at below
    exact below
  · intro impossible
    have still : w.scheduled = false := impossible
    rw [scheduled] at still
    cases still

/-- **A pointer from before the scheduler is freed.** -/
theorem Held.free_library (inv : Held w) {ptr n : Nat} (member : (ptr, n) ∈ w.early)
    (can : CanFree w ptr) : ptr < LIBRARY_BYTES + BLOCK_SIZE ∧ ∃ blocks blocks',
      Tiled w.library LIBRARY_BYTES blocks ∧
      release BLOCK_SIZE (ptr - BLOCK_SIZE) 0 blocks = some blocks' ∧
      Returns (free space (ptr : Int)) w.process fun report q => report = .freed ∧
        Tiled q.library LIBRARY_BYTES blocks' ∧
        Held { w.put q with early := forget w.early ptr, own := forget w.own ptr } := by
  have four : BLOCK_SIZE = 4 := rfl
  have bounds := inv.library_lt (List.mem_append_left _ member)
  have below : ptr < LIBRARY_BYTES + BLOCK_SIZE := by
    simp only at bounds
    omega
  obtain ⟨blocks, tiled, held⟩ := inv.library
  have holds := (held ptr n).mp (List.mem_append_left _ member)
  have none : firstFrame w.process.machine w.process.caller = none := by
    unfold CanFree at can
    rwa [if_pos below] at can
  obtain ⟨report, q, ran, only, freed, blocks', released, tiled'⟩ :=
    free_early (p := w.process) tiled holds none
  exact ⟨below, blocks, blocks', tiled, released, report, q, ran, freed, tiled',
    inv.libraryCall _ _ only tiled' (held_forget bounds.1 held released)⟩

/-- **`free` of a pointer held.** -/
theorem Held.free {w' : World} {ptr : Nat} (inv : Held w) (lawful : WorldLawful w (.free ptr))
    (can : CanFree w ptr) (taken : w.next (.free ptr) = some w') : Held w' := by
  have four : BLOCK_SIZE = 4 := rfl
  obtain ⟨⟨_, n⟩, member, rfl⟩ := lawful
  rw [World.next] at taken
  obtain ⟨⟨report, p⟩, ran, rfl⟩ := Option.map_eq_some_iff.mp taken
  rcases World.mem_held.mp member with ⟨q, k, inPages, same⟩ | ⟨_, inLibrary⟩
  · cases same
    obtain ⟨blocks, arena, allocs⟩ :=
      inv.threads.heaps w.machine.thread inv.threads.sheltered.running
    have low := ((allocs q n).mp inPages).bounds.1
    obtain ⟨_, _, _, _, returns⟩ := inv.free_pages inPages can
    have held := (returns.of_run ran).2.2
    simp only [if_neg (show ¬ LIBRARY_BYTES + q < LIBRARY_BYTES + BLOCK_SIZE by omega),
      Nat.add_sub_cancel_left]
    exact held
  · obtain ⟨below, _, _, _, _, returns⟩ := inv.free_library inLibrary can
    have held := (returns.of_run ran).2.2
    simp only [if_pos below]
    exact held

/-- A write into a taken payload of the library heap. -/
theorem Held.writeLibrary (inv : Held w) {block : Nat × Nat} (member : block ∈ w.early ++ w.own)
    {a : Nat} (low : block.1 ≤ a) (high : a < block.1 + block.2) (value : BitVec 8) :
    Held { w with library := Function.update w.library a value } := by
  obtain ⟨blocks, tiled, held⟩ := inv.library
  have tiled' := tiled.update ((held block.1 block.2).mp member) low high value
  exact ⟨inv.threads, ⟨blocks, tiled', held⟩, inv.unscheduled⟩

/-- The machine after an event of the threads. -/
theorem Held.ofThreads {w' : World} (inv : Held w) (threads : Private w'.threads)
    (library : w'.library = w.library) (early : w'.early = w.early) (own : w'.own = w.own)
    (scheduled : w'.scheduled = true) : Held w' := by
  refine ⟨threads, ?_, fun impossible => ?_⟩
  · rw [library, early, own]
    exact inv.library
  · rw [scheduled] at impossible
    cases impossible

theorem reachByte_library {a : Nat} {p p' : Process} (library : a < LIBRARY_BYTES)
    (ran : reachByte a p = some ((), p')) : p' = p := by
  rw [reachByte, if_pos library] at ran
  cases ran
  rfl

/-- A byte behind the library is reached through the fault handler. -/
theorem reachByte_pages {a : Nat} {p p' : Process} (user : ¬ a < LIBRARY_BYTES)
    (ran : reachByte a p = some ((), p')) :
    ∃ m, touch ((a - LIBRARY_BYTES) / PAGESIZE) p.machine = some ((), m) ∧
      p' = { p with machine := m } := by
  rw [reachByte, if_neg user] at ran
  obtain ⟨⟨_, m⟩, touched, same⟩ := Option.map_eq_some_iff.mp ran
  cases same
  exact ⟨m, touched, rfl⟩

theorem World.holds_of_mem {q n a : Nat} (inPages : (q, n) ∈ w.allocs w.machine.thread)
    (low : LIBRARY_BYTES + q ≤ a) (high : a < LIBRARY_BYTES + q + n) :
    w.threads.Holds (a - LIBRARY_BYTES) := by
  refine ⟨(q, n), inPages, ?_, ?_⟩ <;> simp only <;> omega

/-- **A write to what the thread holds.** -/
theorem Held.write {w' : World} {a : Nat} {value : BitVec 8} (inv : Held w)
    (lawful : WorldLawful w (.write a value)) (taken : w.next (.write a value) = some w') :
    Held w' := by
  obtain ⟨block, member, low, high⟩ := lawful
  rw [World.next] at taken
  obtain ⟨⟨_, p⟩, ran, rfl⟩ := Option.map_eq_some_iff.mp taken
  rcases World.mem_held.mp member with ⟨q, n, inPages, rfl⟩ | ⟨_, inLibrary⟩
  · have user : ¬ a < LIBRARY_BYTES := by
      simp only at low
      omega
    obtain ⟨m, touched, rfl⟩ := reachByte_pages user ran
    have holds := World.holds_of_mem inPages low high
    have wrote := writeByte_run touched value
    have poked : Process.poke { w.process with machine := m } a value
        = { w.process with machine :=
            { m with frames := Function.update m.frames (a - LIBRARY_BYTES) value } } := if_neg user
    simp only [poked]
    refine inv.ofThreads (inv.threads.write holds wrote).forget rfl rfl rfl ?_
    exact inv.scheduled inPages
  · have bounds := inv.library_lt (List.mem_append_left _ inLibrary)
    have library : a < LIBRARY_BYTES := by omega
    obtain rfl := reachByte_library library ran
    have poked : w.process.poke a value
        = { w.process with library := Function.update w.library a value } := if_pos library
    simp only [poked]
    exact inv.writeLibrary (List.mem_append_left _ inLibrary) low high value

/-- **A read of what the thread holds.** -/
theorem Held.read {w' : World} {a : Nat} (inv : Held w) (lawful : WorldLawful w (.read a))
    (taken : w.next (.read a) = some w') : Held w' := by
  obtain ⟨block, member, low, high⟩ := lawful
  rw [World.next] at taken
  obtain ⟨⟨_, p⟩, ran, rfl⟩ := Option.map_eq_some_iff.mp taken
  rcases World.mem_held.mp member with ⟨q, n, inPages, rfl⟩ | ⟨_, inLibrary⟩
  · have user : ¬ a < LIBRARY_BYTES := by
      simp only at low
      omega
    obtain ⟨m, touched, rfl⟩ := reachByte_pages user ran
    have holds := World.holds_of_mem inPages low high
    have read := readByte_run touched
    have settled := ((inv.threads.read holds).of_run read).2
    refine inv.ofThreads ?_ rfl rfl rfl (inv.scheduled inPages)
    exact inv.threads.keep settled.sheltered (fun t _ => congrFun settled.pageNum t) settled.views
  · have bounds := inv.library_lt (List.mem_append_left _ inLibrary)
    obtain rfl := reachByte_library (by omega) ran
    exact ⟨inv.threads, inv.library, inv.unscheduled⟩

/-- **One event keeps the invariant.** -/
theorem Held.step {w' : World} {e : WorldEvent} (inv : Held w) (safe : WorldSafe w e)
    (taken : w.next e = some w') : Held w' := by
  obtain ⟨lawful, can⟩ := safe
  cases e with
  | malloc size => exact inv.malloc can taken
  | free ptr => exact inv.free lawful can taken
  | write address value => exact inv.write lawful taken
  | read address => exact inv.read lawful taken
  | mallocLibrary size =>
    rw [World.next] at taken
    obtain ⟨⟨result, p⟩, ran, rfl⟩ := Option.map_eq_some_iff.mp taken
    obtain ⟨blocks, tiled, held⟩ := inv.library
    obtain ⟨only, blocks', tiled', granted⟩ := (mallocLibrary_spec (p := w.process) tiled size).of_run ran
    refine inv.libraryCall w.early _ only tiled' fun q n => ?_
    rw [granted.holds, ← held, List.mem_append, List.mem_append, mem_record, or_assoc]
  | freeLibrary ptr =>
    obtain ⟨⟨_, n⟩, member, rfl⟩ := lawful
    rw [World.next] at taken
    obtain ⟨⟨report, p⟩, ran, rfl⟩ := Option.map_eq_some_iff.mp taken
    have bounds := inv.library_lt (List.mem_append_right _ member)
    obtain ⟨blocks, tiled, held⟩ := inv.library
    have holds := (held _ n).mp (List.mem_append_right _ member)
    obtain ⟨only, _, blocks', released, tiled'⟩ :=
      (freeLibrary_spec (p := w.process) tiled holds).of_run ran
    exact inv.libraryCall _ _ only tiled' (held_forget bounds.1 held released)
  | writeLibrary address value =>
    cases taken
    obtain ⟨block, member, low, high⟩ := lawful
    exact inv.writeLibrary (List.mem_append_right _ member) low high value
  | initializeScheduler =>
    cases taken
    exact inv.ofThreads (inv.threads.timer _) rfl rfl rfl rfl
  | switch next =>
    rw [World.next] at taken
    obtain ⟨⟨_, m⟩, ran, rfl⟩ := Option.map_eq_some_iff.mp taken
    have stepped : w.threads.next (.switch next) = some { w.threads with machine := m } := by
      show (switchTo next w.machine).map _ = _
      rw [ran]
      rfl
    exact inv.ofThreads (inv.threads.step (e := .switch next) ⟨lawful.2, trivial⟩ stepped) rfl rfl rfl
      lawful.1
  | exit next =>
    rw [World.next] at taken
    obtain ⟨⟨_, m⟩, ran, rfl⟩ := Option.map_eq_some_iff.mp taken
    have stepped : w.threads.next (.exit next) = some { w.threads with
        machine := m, live := Function.update w.live w.machine.thread false } := by
      show (switchTo next (released w.machine)).map _ = _
      rw [ran]
      rfl
    exact inv.ofThreads (inv.threads.step (e := .exit next) ⟨lawful.2, trivial⟩ stepped) rfl rfl rfl
      lawful.1
  | create =>
    cases taken
    have stepped := inv.threads.step (e := .create) ⟨lawful.2, trivial⟩ rfl
    exact inv.ofThreads stepped.forget rfl rfl rfl lawful.1

theorem WorldStarted.held {w : World} (started : WorldStarted w) : Held w := by
  refine ⟨ThreadsStarted.private ⟨started.pages, started.diskPages, started.thread, started.pageNum,
    started.live, started.threadNum, started.allocs, fun _ _ => rfl⟩, ?_,
    fun _ => ⟨started.thread, started.allocs, fun i _ => ?_⟩⟩
  · obtain ⟨before, ran⟩ := started.library
    have heap : LibraryHeap ⟨w.library, []⟩ [⟨LIBRARY_BYTES - BLOCK_SIZE, true⟩] :=
      LibraryStarted.heap ⟨before, ran, rfl⟩
    refine ⟨_, heap.tiled, fun p n => ?_⟩
    rw [started.early, started.own]
    exact heap.live p n
  · rw [started.pages]
    decide

end Events

/-! ### Runs -/

/-- **Every pointer can be freed** in every run whose allocations are safe and in which each `free`
starts its walk right. -/
theorem pointers_freeable (w : World)
    (reached : Reach WorldStarted WorldSafe (execStep World.next) w) (ptr n : Nat)
    (held : (ptr, n) ∈ w.held) (can : CanFree w ptr) : Frees w ptr := by
  have four : BLOCK_SIZE = 4 := rfl
  have inv : Held w :=
    reached.invariant Held (fun _ started => started.held)
      fun _ _ _ inv safe taken => inv.step safe taken
  unfold Frees
  rcases World.mem_held.mp held with ⟨p, k, inPages, same⟩ | ⟨_, inLibrary⟩
  · cases same
    obtain ⟨blocks, arena, allocs⟩ :=
      inv.threads.heaps w.machine.thread inv.threads.sheltered.running
    have low := ((allocs p n).mp inPages).bounds.1
    rw [if_neg (by omega), Nat.add_sub_cancel_left]
    obtain ⟨blocks, blocks', tiled, released, returns⟩ := inv.free_pages inPages can
    exact ⟨blocks, blocks', tiled, released, returns.mono fun _ _ post => ⟨post.1, post.2.1⟩⟩
  · obtain ⟨below, blocks, blocks', tiled, released, returns⟩ := inv.free_library inLibrary can
    rw [if_pos below]
    exact ⟨blocks, blocks', tiled, released, returns.mono fun _ _ post => ⟨post.1, post.2.1⟩⟩

/-- The heap and the tables just made, over zeroed memory. -/
def zeroWorld : World where
  machine := zeroSystem.machine
  library := zeroLibrary.memory
  scheduled := false
  live := zeroSystem.live
  threadNum := zeroSystem.threadNum
  allocs := fun _ => []
  early := []
  own := []

theorem zeroWorld_started : WorldStarted zeroWorld :=
  ⟨fun _ => rfl, fun _ => rfl, rfl, rfl, ⟨fun _ => 0, rfl⟩, rfl, rfl, rfl, fun _ => rfl, rfl, rfl⟩

/-- The main thread frees a pointer from before the scheduler, allocates in its pages, and can free
what it got there, after another thread's page has taken its frame. -/
theorem pointers_freeable_twoThreads :
    ∃ w, Reach WorldStarted WorldSafe (execStep World.next) w ∧ w.early = [] ∧
      (LIBRARY_BYTES + 4, 30) ∈ w.held ∧ CanFree w (LIBRARY_BYTES + 4) ∧
      Frees w (LIBRARY_BYTES + 4) := by
  have start : Reach WorldStarted WorldSafe (execStep World.next) zeroWorld :=
    .init zeroWorld_started
  obtain ⟨w, reached, checked⟩ := start.exists_of_execAll
    [.mallocLibrary 100, .malloc 20, .write 110 5, .initializeScheduler, .free 108, .malloc 30, .create,
      .switch 2, .malloc 40, .switch 1]
    (fun w => w.early = [] ∧ (LIBRARY_BYTES + 4, 30) ∈ w.held ∧ CanFree w (LIBRARY_BYTES + 4))
    (by decide +kernel)
  obtain ⟨early, held, can⟩ := of_decide_eq_true checked
  exact ⟨w, reached, early, held, can, pointers_freeable w reached _ 30 held can⟩

/-- The report of `free`. -/
def reportOf (w : World) (ptr : Nat) : Option Report := (free space (ptr : Int) w.process).map Prod.fst

/-- **Not in every run.** A pointer from before the scheduler is not found once the main thread has a
page, and a pointer into the second page is not found while another thread's page is in frame `0`. -/
theorem pointers_not_freeable :
    (∃ w, Reach WorldStarted WorldLawful (execStep World.next) w ∧ (108, 20) ∈ w.held ∧
      reportOf w 108 = some .notCreated ∧ ¬ Frees w 108) ∧
    ∃ w, Reach WorldStarted WorldLawful (execStep World.next) w ∧
      (LIBRARY_BYTES + 5008, 60) ∈ w.held ∧
      reportOf w (LIBRARY_BYTES + 5008) = some .notCreated ∧ ¬ Frees w (LIBRARY_BYTES + 5008) := by
  have start : Reach WorldStarted WorldLawful (execStep World.next) zeroWorld :=
    .init zeroWorld_started
  have lost : ∀ {w ptr}, reportOf w ptr = some .notCreated → ¬ Frees w ptr := by
    intro w ptr report frees
    obtain ⟨⟨_, q⟩, ran, same⟩ := Option.map_eq_some_iff.mp report
    cases same
    unfold Frees at frees
    split at frees
    · obtain ⟨_, _, _, _, returns⟩ := frees
      cases (returns.of_run ran).1
    · obtain ⟨_, _, _, _, returns⟩ := frees
      cases (returns.of_run ran).1
  refine ⟨?_, ?_⟩
  · obtain ⟨w, reached, checked⟩ := start.exists_of_execAll
      [.mallocLibrary 100, .malloc 20, .initializeScheduler, .malloc 30]
      (fun w => (108, 20) ∈ w.held ∧ reportOf w 108 = some .notCreated) (by decide +kernel)
    obtain ⟨held, report⟩ := of_decide_eq_true checked
    exact ⟨w, reached, held, report, lost report⟩
  · obtain ⟨w, reached, checked⟩ := start.exists_of_execAll
      [.mallocLibrary 100, .initializeScheduler, .malloc 5000, .malloc 60, .create, .switch 2,
        .malloc 40, .switch 1]
      (fun w => (LIBRARY_BYTES + 5008, 60) ∈ w.held ∧
        reportOf w (LIBRARY_BYTES + 5008) = some .notCreated) (by decide +kernel)
    obtain ⟨held, report⟩ := of_decide_eq_true checked
    exact ⟨w, reached, held, report, lost report⟩

end OS2017.Paging
