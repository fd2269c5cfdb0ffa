/-
**A thread that writes anywhere.**

A thread need not stay inside its allocations: it can write to any address of user space, over its
own block headers too, and then allocate from what it has made of its heap. What it reaches is its
own page in its frame, or a frame that is free and behind every thread's pages (`Sheltered`);
everything else faults. So whatever it does is `Confined`: the other threads see what they saw.

The threads that do stay inside their allocations keep private memory next to it, in every run
(`integrity`). The threads that trespass may allocate while none of their pages has its frame free;
the ones that do not, as before.
-/

import OS2017.Paging.Private

namespace OS2017.Paging

open OS2017.Bytes OS2017.Heap OS2017.FirstFit OS2017.Run

variable {live : Nat → Bool} {threadNum : Nat} {m m' m'' : Machine}

/-! ### Accesses anywhere -/

/-- **Whatever the running thread has done, the others see what they saw.** -/
structure Confined (live : Nat → Bool) (threadNum : Nat) (m m' : Machine) : Prop where
  sheltered : Sheltered live threadNum m'
  thread : m'.thread = m.thread
  pageNum : ∀ u, u ≠ m.thread → m'.pageNum u = m.pageNum u
  others : ∀ u, live u = true → u ≠ m.thread → m'.view u = m.view u
  reserved : Reserved m → Reserved m'

theorem Settled.confined (settled : Settled live threadNum m m') : Confined live threadNum m m' :=
  ⟨settled.sheltered, settled.thread, fun u _ => congrFun settled.pageNum u,
    fun u alive _ => settled.views u alive, settled.reserved⟩

theorem Confined.trans (first : Confined live threadNum m m')
    (second : Confined live threadNum m' m'') : Confined live threadNum m m'' := by
  have thread := first.thread
  refine ⟨second.sheltered, second.thread.trans thread, fun u other => ?_, fun u alive other => ?_,
    second.reserved ∘ first.reserved⟩
  · rw [second.pageNum u (by rwa [thread]), first.pageNum u other]
  · rw [second.others u alive (by rwa [thread]), first.others u alive other]

/-- **An access that returns**, to any frame: nothing has changed for anybody, the frame is open, and
whatever was open still is. -/
theorem touch_anywhere (sheltered : Sheltered live threadNum m) {k : Nat}
    (ran : touch k m = some ((), m')) : Settled live threadNum m m' ∧ k < USER_PAGES ∧
      m'.accessible k = true ∧ ∀ j < USER_PAGES, m.accessible j = true → m'.accessible j = true := by
  obtain ⟨inside, ⟨reachable, rfl⟩ | ⟨closed, place, found, fetched⟩⟩ := touch_run ran
  · exact ⟨Settled.refl sheltered, inside, reachable, fun _ _ => id⟩
  · obtain ⟨valid, label⟩ := (located_iff sheltered.labelled sheltered.running).mp found
    have owned := sheltered.labelled.below _ sheltered.running k place valid label
    obtain ⟨settled, opened⟩ := fetched.settles fetched.accessible sheltered owned valid label
    refine ⟨settled, inside, opened.reachable, fun j within reachable => ?_⟩
    rcases sheltered.labelled.flags (.frame j) within with used | isFree
    · exact (settled.stays j ⟨reachable, sheltered.home j within reachable used⟩).reachable
    · -- a page is not fetched from a free frame
      have other : j ≠ k := by
        rintro rfl
        rw [closed] at reachable
        cases reachable
      rw [fetched.accessible, Function.update_of_ne other]
      cases place with
      | slot i => exact reachable
      | frame i =>
        have away : j ≠ i := by
          rintro rfl
          have used := label.used
          rw [isFree] at used
          cases used
        exact (Function.update_of_ne away _ _).trans reachable

theorem touchBoth_anywhere (sheltered : Sheltered live threadNum m) {j k : Nat}
    (ran : touchBoth j k m = some ((), m')) : Settled live threadNum m m' ∧
      (j < USER_PAGES ∧ m'.accessible j = true) ∧ k < USER_PAGES ∧ m'.accessible k = true := by
  obtain ⟨_, m₁, ran₁, rest⟩ := run_bind ran
  obtain ⟨_, m₂, ran₂, ran₃⟩ := run_bind rest
  obtain ⟨settled₁, _⟩ := touch_anywhere sheltered ran₁
  obtain ⟨settled₂, inside, reachable, _⟩ := touch_anywhere settled₁.sheltered ran₂
  obtain ⟨settled₃, inside', reachable', stays⟩ := touch_anywhere settled₂.sheltered ran₃
  exact ⟨(settled₁.trans settled₂).trans settled₃, ⟨inside', reachable'⟩, inside,
    stays k inside reachable⟩

/-- **Bytes written to open frames** are nobody else's. -/
theorem confined_of_frames (sheltered : Sheltered live threadNum m) {frames : Memory}
    (reached : ∀ b, frames b ≠ m.frames b →
      b / PAGESIZE < USER_PAGES ∧ m.accessible (b / PAGESIZE) = true) :
    Confined live threadNum m { m with frames := frames } := by
  refine ⟨⟨sheltered.labelled, sheltered.running, sheltered.bounded, sheltered.home,
    sheltered.spare⟩, rfl, fun _ _ => rfl, fun u alive other => ?_, id⟩
  funext c
  have search : located { { m with frames := frames } with thread := u } (c / PAGESIZE)
      = located { m with thread := u } (c / PAGESIZE) := located_congr (by rfl) (by rfl) (by rfl) _
  unfold Machine.view
  rw [search]
  cases found : located { m with thread := u } (c / PAGESIZE) with
  | none => rfl
  | some place =>
    obtain ⟨valid, label⟩ :=
      (located_iff (m := { m with thread := u }) sheltered.labelled alive).mp found
    cases place with
    | slot i => rfl
    | frame i =>
      show frames (i * PAGESIZE + c % PAGESIZE) = m.frames (i * PAGESIZE + c % PAGESIZE)
      by_contra changed
      obtain ⟨inside, reachable⟩ := reached _ changed
      rw [page_of_offset (Nat.mod_lt c (by decide))] at inside reachable
      have home := sheltered.home i inside reachable label.used
      exact other (label.thID.symm.trans home.thID)

/-- **A read of a byte, anywhere.** -/
theorem readByte_anywhere (sheltered : Sheltered live threadNum m) {a : Nat} {value : BitVec 8}
    (ran : readByte a m = some (value, m')) : Settled live threadNum m m' := by
  obtain ⟨_, m₁, touched, rest⟩ := run_bind ran
  cases rest
  exact (touch_anywhere sheltered touched).1

/-- **A write of a byte, anywhere.** -/
theorem writeByte_anywhere (sheltered : Sheltered live threadNum m) {a : Nat} {value : BitVec 8}
    (ran : writeByte a value m = some ((), m')) : Confined live threadNum m m' := by
  obtain ⟨_, m₁, touched, rest⟩ := run_bind ran
  cases rest
  obtain ⟨settled, inside, reachable, _⟩ := touch_anywhere sheltered touched
  refine settled.confined.trans (confined_of_frames settled.sheltered fun b changed => ?_)
  have here : b = a := by
    by_contra other
    exact changed (Function.update_of_ne other _ _)
  rw [here]
  exact ⟨inside, reachable⟩

/-! ### Allocations from any heap -/

/-- A run that is confined if it starts sheltered, with no page of the thread's frame free. -/
def Harmless (live : Nat → Bool) (threadNum : Nat) (m m' : Machine) : Prop :=
  Sheltered live threadNum m → Reserved m → Confined live threadNum m m'

theorem harmless_composes (live : Nat → Bool) (threadNum : Nat) :
    Composes (Harmless live threadNum) := by
  refine ⟨fun m sheltered _ => (Settled.refl sheltered).confined, ?_⟩
  intro m m' m'' first second sheltered reserved
  have confined := first sheltered reserved
  exact confined.trans (second confined.sheltered (confined.reserved reserved))

section Allocations

variable (live : Nat → Bool) (threadNum : Nat)

theorem harmless_timer (f : Machine → Timer) :
    Keeps (Harmless live threadNum) (change fun m => { m with timer := f m }) :=
  Keeps.change fun _ sheltered _ => (settled_timer sheltered _).confined

theorem harmless_load (a : Nat) : Keeps (Harmless live threadNum) (paged.load a) := by
  intro m w m' ran sheltered _
  obtain ⟨_, m₁, touched, rest⟩ := run_bind ran
  cases rest
  exact (touchBoth_anywhere sheltered touched).1.confined

/-- A store reaches two frames at most. -/
theorem harmless_store (a : Nat) (w : BitVec 32) :
    Keeps (Harmless live threadNum) (paged.store a w) := by
  intro m _ m' ran sheltered _
  obtain ⟨_, m₁, touched, rest⟩ := run_bind ran
  cases rest
  obtain ⟨settled, first, second⟩ := touchBoth_anywhere sheltered touched
  refine settled.confined.trans (confined_of_frames settled.sheltered fun b changed => ?_)
  have within : a ≤ b ∧ b < a + 4 := by
    by_contra outside
    exact changed (writeWord_of_outside (by omega))
  have either : b / PAGESIZE = a / PAGESIZE ∨ b / PAGESIZE = (a + 3) / PAGESIZE := by
    unfold PAGESIZE
    omega
  rcases either with same | same
  · rw [same]
    exact first
  · rw [same]
    exact second

theorem harmless_modify (a : Nat) (f : BitVec 32 → BitVec 32) :
    Keeps (Harmless live threadNum) (paged.modify a f) :=
  Store.keeps_modify (harmless_composes _ _) (harmless_load _ _ a) (harmless_store _ _ a) f

theorem harmless_splitBlock (current size : Nat) (width : BitVec 32) :
    Keeps (Harmless live threadNum) (splitBlock paged current size width) :=
  keeps_splitBlock (harmless_composes _ _) (harmless_load _ _) (harmless_store _ _) _ _ _

variable {live threadNum}

/-- **A new page** in the frame of its number. -/
theorem Sheltered.newPage (sheltered : Sheltered live threadNum m) (reserved : Reserved m)
    {index : Nat} (next : index = m.pageNum m.thread) (room : makeRoom index m = some (true, m'))
    (new : initializePage index m' = some ((), m'')) : Confined live threadNum m m'' := by
  obtain ⟨inside, q, roomy⟩ := makeRoom_room sheltered reserved room
  have grown := roomy.grows sheltered reserved inside next
    ((initializePage_spec m' inside).of_run new)
  refine ⟨grown.sheltered, grown.thread, fun u other => ?_, grown.others, fun _ => grown.reserved⟩
  rw [grown.pageNum, Function.update_of_ne other]

theorem harmless_gatherPages (lastBlock n : Nat) :
    Keeps (Harmless live threadNum) (gatherPages swapping lastBlock n) := by
  induction n with
  | zero => exact Keeps.pure (harmless_composes _ _) _
  | succ n ih =>
    intro m _ m' ran sheltered reserved
    rw [gatherPages, look_run] at ran
    obtain ⟨freed, m₁, room, rest⟩ := run_bind ran
    cases freed with
    | false =>
      cases rest
      exact (makeRoom_fails sheltered room).2.confined
    | true =>
      obtain ⟨_, m₂, new, rest⟩ := run_bind rest
      have paged := sheltered.newPage reserved rfl room new
      have later := Keeps.bind (harmless_composes live threadNum) (harmless_modify _ _ _ _)
        (fun _ => ih) m₂ _ m' rest
      exact paged.trans (later paged.sheltered (paged.reserved reserved))

theorem harmless_newLastBlock (prev : Nat) :
    Keeps (Harmless live threadNum) (newLastBlock swapping prev) := by
  intro m _ m' ran sheltered reserved
  rw [newLastBlock, look_run] at ran
  obtain ⟨freed, m₁, room, rest⟩ := run_bind ran
  cases freed with
  | false =>
    cases rest
    exact (makeRoom_fails sheltered room).2.confined
  | true =>
    obtain ⟨_, m₂, new, rest⟩ := run_bind rest
    have composes := harmless_composes live threadNum
    have modify := harmless_modify live threadNum
    have paged := sheltered.newPage reserved rfl room new
    have fresh : Keeps (Harmless live threadNum)
        (freshBlock Paging.paged (m.pageNum m.thread * PAGESIZE) (PAGESIZE - BLOCK_SIZE)) :=
      Keeps.bind composes (modify _ _) fun _ => Keeps.bind composes (modify _ _) fun _ => modify _ _
    have later := Keeps.bind composes fresh
      (fun _ => Keeps.bind composes (modify _ _) fun _ => Keeps.pure composes _) m₂ _ m' rest
    exact paged.trans (later paged.sheltered (paged.reserved reserved))

theorem harmless_growHeap (size prev : Nat) :
    Keeps (Harmless live threadNum) (growHeap swapping size prev) := by
  have composes := harmless_composes live threadNum
  have unpause : Keeps (Harmless live threadNum) unpause_timer := harmless_timer _ _ _
  have finish : ∀ current, Keeps (Harmless live threadNum) (do
      splitBlock paged current size (sizeWithBlock size)
      unpause_timer
      return some (current + BLOCK_SIZE) : StateT Machine Option (Option Nat)) := fun current =>
    Keeps.bind composes (harmless_splitBlock _ _ _ _ _) fun _ =>
      Keeps.bind composes unpause fun _ => Keeps.pure composes _
  unfold growHeap
  split
  · exact Keeps.bind composes unpause fun _ => Keeps.pure composes _
  · refine Keeps.bind composes (harmless_load _ _ _) fun word => ?_
    refine Keeps.bind composes (Keeps.look composes _) fun needed => ?_
    split
    · split
      · exact Keeps.bind composes (harmless_gatherPages _ _) fun _ => finish _
      · refine Keeps.bind composes (harmless_newLastBlock _) fun block => ?_
        cases block with
        | none => exact Keeps.pure composes _
        | some block => exact Keeps.bind composes (harmless_gatherPages _ _) fun _ => finish _
    · exact Keeps.bind composes unpause fun _ => Keeps.pure composes _

/-- The search for a block, over whatever the headers are. -/
theorem harmless_searchHeap (size : Nat) :
    Keeps (Harmless live threadNum) (searchHeap swapping size) := by
  have composes := harmless_composes live threadNum
  unfold searchHeap
  refine Keeps.bind composes (keeps_firstFitLoop composes (harmless_load _ _) (harmless_store _ _)
    _ _ _ _) fun result => ?_
  cases result with
  | found ptr =>
    exact Keeps.bind composes (harmless_timer _ _ _) fun _ => Keeps.pure composes _
  | exhausted prev => exact harmless_growHeap _ _

/-- **The running thread's pages are in order for an allocation**, whatever its heap is. -/
def PagesReady (m : Machine) : Prop :=
  (m.pageNum m.thread = 0 ∨ (getPageThID (m.pages 0)).toNat = m.thread ∨
    Labels (m.diskPages 0) m.thread 0) ∧ Reserved m

instance (m : Machine) : Decidable (PagesReady m) := by
  unfold PagesReady
  infer_instance

/-- The first page, if the thread has none. -/
theorem firstPage_anywhere {ready : Bool} (sheltered : Sheltered live threadNum m)
    (reserved : Reserved m)
    (home : m.pageNum m.thread = 0 ∨ (getPageThID (m.pages 0)).toNat = m.thread)
    (ran : firstPage swapping m = some (ready, m')) : Confined live threadNum m m' := by
  rw [firstPage, look_run, look_run] at ran
  split at ran
  · rename_i foreign
    obtain ⟨freed, m₁, room, rest⟩ := run_bind ran
    cases freed with
    | false =>
      cases rest
      exact (makeRoom_fails sheltered room).2.confined
    | true =>
      obtain ⟨_, m₂, new, rest⟩ := run_bind rest
      cases rest
      exact sheltered.newPage reserved (home.resolve_right foreign).symm room new
  · cases ran
    exact (Settled.refl sheltered).confined

/-- **An allocation from any heap is confined.** -/
theorem myallocate_anywhere {size : Nat} {result : Option Nat}
    (sheltered : Sheltered live threadNum m) (ready : PagesReady m)
    (ran : myallocate swapping size m = some (result, m')) : Confined live threadNum m m' := by
  obtain ⟨home, reserved⟩ := ready
  rw [myallocate, pause_timer, change_run] at ran
  obtain ⟨_, m₁, aligned, ran⟩ := run_bind ran
  have paused := settled_timer sheltered ⟨0, m.timer.remaining⟩
  obtain ⟨settled₁, zero⟩ := alignPages_settles paused.sheltered aligned
  have settled := paused.trans settled₁
  have home₁ : m₁.pageNum m₁.thread = 0 ∨ (getPageThID (m₁.pages 0)).toNat = m₁.thread := by
    rw [settled.thread, settled.pageNum]
    exact home.imp_right zero
  have reserved₁ := settled.reserved reserved
  obtain ⟨started, m₂, first, ran⟩ := run_bind ran
  have confined := settled.confined.trans
    (firstPage_anywhere settled.sheltered reserved₁ home₁ first)
  cases started with
  | false =>
    cases ran
    exact confined
  | true =>
    have searched : Harmless live threadNum m₂ m' := harmless_searchHeap size m₂ result m' ran
    exact confined.trans (searched confined.sheltered (confined.reserved reserved))

end Allocations

/-! ### Runs -/

/-- The threads, and which of them have written outside their allocations. -/
structure Tracked where
  threads : Threads
  trespassed : Nat → Bool

/-- Who has trespassed after an event. A new thread has not. -/
def Tracked.trespass (s : Tracked) : ThreadEvent → Nat → Bool
  | .write address _ =>
    if s.threads.Holds address then s.trespassed
    else Function.update s.trespassed s.threads.machine.thread true
  | .create => Function.update s.trespassed s.threads.threadNum false
  | _ => s.trespassed

/-- One event. -/
def Tracked.next (s : Tracked) (e : ThreadEvent) : Option Tracked :=
  (s.threads.next e).map fun threads => ⟨threads, s.trespass e⟩

/-- The scheduler switches to live threads and ids fit, but the threads read and write where they
like. For an allocation the pages of a thread that has trespassed are in order; one that has not can
make it safely. -/
def Tolerated (s : Tracked) : ThreadEvent → Prop
  | .allocate size =>
    if s.trespassed s.threads.machine.thread = true then PagesReady s.threads.machine
    else CanAllocate s.threads.machine size
  | .write _ _ => True
  | .read _ => True
  | e => Lawful s.threads e

instance (s : Tracked) : (e : ThreadEvent) → Decidable (Tolerated s e)
  | .allocate size => inferInstanceAs (Decidable (
      if s.trespassed s.threads.machine.thread = true then PagesReady s.threads.machine
      else CanAllocate s.threads.machine size))
  | .write _ _ => isTrue trivial
  | .read _ => isTrue trivial
  | .switch next => inferInstanceAs (Decidable (Lawful s.threads (.switch next)))
  | .exit next => inferInstanceAs (Decidable (Lawful s.threads (.exit next)))
  | .create => inferInstanceAs (Decidable (Lawful s.threads .create))

/-- The tables just made; nobody has trespassed. -/
def TrackedStarted (s : Tracked) : Prop :=
  ThreadsStarted s.threads ∧ s.trespassed = fun _ => false

/-- **The memory of a thread that stays inside its allocations is its own**, whatever the others do:
what it has written is there, wherever its pages are, and it reads it again. What the running thread
reaches without a fault is its own page or nobody's. -/
structure Integrity (s : Tracked) : Prop where
  kept : ∀ t, s.threads.live t = true → s.trespassed t = false → ∀ address value,
    s.threads.written t address = some value → s.threads.machine.view t address = value
  reads : s.trespassed s.threads.machine.thread = false → ∀ address, s.threads.Holds address →
    ∀ value, s.threads.written s.threads.machine.thread address = some value →
      Returns (readByte address) s.threads.machine fun result _ => result = value
  reached : ∀ k < USER_PAGES, s.threads.machine.accessible k = true →
    getPageIsF (s.threads.machine.pages k) = 1 ∨
      Labels (s.threads.machine.pages k) s.threads.machine.thread k

/-- **What a thread that has not trespassed has**: a heap of its allocations, and what it has
written in them. -/
structure Intact (s : Threads) (t : Nat) : Prop where
  heap : ∃ blocks, Arena s.machine t blocks ∧
    ∀ p n, (p, n) ∈ s.allocs t ↔ Holds BLOCK_SIZE 0 blocks p n
  written : ∀ a value, s.written t a = some value →
    s.machine.view t a = value ∧ ∃ block ∈ s.allocs t, block.1 ≤ a ∧ a < block.1 + block.2

/-- It does not depend on anything else. -/
theorem Intact.of_same {s s' : Threads} {t : Nat} (intact : Intact s t)
    (pageNum : s'.machine.pageNum t = s.machine.pageNum t)
    (view : s'.machine.view t = s.machine.view t) (allocs : s'.allocs t = s.allocs t)
    (written : s'.written t = s.written t) : Intact s' t := by
  obtain ⟨⟨blocks, arena, held⟩, wrote⟩ := intact
  refine ⟨⟨blocks, ?_, ?_⟩, ?_⟩
  · unfold Arena
    rw [pageNum, view]
    exact arena
  · rw [allocs]
    exact held
  · rw [written, view, allocs]
    exact wrote

/-- **The invariant.** -/
structure Integral (s : Tracked) : Prop where
  sheltered : Sheltered s.threads.live s.threads.threadNum s.threads.machine
  intact : ∀ t, s.threads.live t = true → s.trespassed t = false → Intact s.threads t

/-- The labels are right for fewer threads. -/
theorem Labelled.fewer {live' : Nat → Bool} {pageNum : Nat → Nat} {entry : Place → BitVec 32}
    (labelled : Labelled live threadNum pageNum entry)
    (among : ∀ t, live' t = true → live t = true) : Labelled live' threadNum pageNum entry := by
  obtain ⟨exists_of_lt, unique, below, stale, flags, created, ids, small⟩ := labelled
  exact ⟨fun t alive => exists_of_lt t (among t alive), fun t alive => unique t (among t alive),
    fun t alive => below t (among t alive),
    fun place inside isFree t alive => stale place inside isFree t (among t alive), flags, created,
    fun t alive => ids t (among t alive), small⟩

/-- The threads that have not trespassed, as if there were no others. -/
def Tracked.honest (s : Tracked) : Threads :=
  { s.threads with live := fun t => s.threads.live t && !s.trespassed t }

namespace Integral

variable {s s' : Tracked} {e : ThreadEvent} {threads : Threads}

/-- **Among themselves, the others keep private memory**, while one of them runs. -/
theorem honest (integral : Integral s)
    (runs : s.trespassed s.threads.machine.thread = false) : Private s.honest := by
  obtain ⟨sheltered, intact⟩ := integral
  have among : ∀ t, s.honest.live t = true →
      s.threads.live t = true ∧ s.trespassed t = false := fun t alive => by
    simpa [Tracked.honest] using alive
  have running : s.honest.live s.threads.machine.thread = true := by
    simp [Tracked.honest, sheltered.running, runs]
  refine ⟨⟨sheltered.labelled.fewer fun t alive => (among t alive).1, running,
    fun u alive => sheltered.bounded u (among u alive).1, sheltered.home,
    fun i inside reachable isFree u alive =>
      sheltered.spare i inside reachable isFree u (among u alive).1⟩, fun t alive => ?_,
    fun t alive => ?_⟩
  · exact (intact t (among t alive).1 (among t alive).2).heap
  · exact (intact t (among t alive).1 (among t alive).2).written

/-- Private memory among the others is what the invariant asks of them. -/
theorem of_honest {trespassed : Nat → Bool}
    (sheltered : Sheltered threads.live threads.threadNum threads.machine)
    (own : Private (Tracked.honest ⟨threads, trespassed⟩)) : Integral ⟨threads, trespassed⟩ := by
  refine ⟨sheltered, fun t alive stays => ?_⟩
  have lives : (Tracked.honest ⟨threads, trespassed⟩).live t = true := by
    have alive : threads.live t = true := alive
    have stays : trespassed t = false := stays
    simp [Tracked.honest, alive, stays]
  exact ⟨own.heaps t lives, own.written t lives⟩

/-- **A thread that trespasses** leaves the others alone. -/
theorem confine {m : Machine} {allocs : Nat → List (Nat × Nat)}
    {written : Nat → Nat → Option (BitVec 8)} {trespassed : Nat → Bool} (integral : Integral s)
    (confined : Confined s.threads.live s.threads.threadNum s.threads.machine m)
    (ours : ∀ u, u ≠ s.threads.machine.thread → allocs u = s.threads.allocs u)
    (wrote : ∀ u, u ≠ s.threads.machine.thread → written u = s.threads.written u)
    (guilty : trespassed s.threads.machine.thread = true)
    (others : ∀ u, u ≠ s.threads.machine.thread → trespassed u = s.trespassed u) :
    Integral ⟨{ s.threads with machine := m, allocs := allocs, written := written }, trespassed⟩ := by
  refine ⟨confined.sheltered, fun t alive stays => ?_⟩
  have other : t ≠ s.threads.machine.thread := by
    rintro rfl
    exact absurd (guilty.symm.trans stays) (by simp)
  have before : s.trespassed t = false := (others t other).symm.trans stays
  exact (integral.intact t alive before).of_same (confined.pageNum t other)
    (confined.others t alive other) (ours t other) (wrote t other)

/-- **An allocation.** -/
theorem allocate {size : Nat} (integral : Integral s) (tolerated : Tolerated s (.allocate size))
    (taken : s.threads.next (.allocate size) = some threads) :
    Integral ⟨threads, s.trespassed⟩ := by
  have sheltered := integral.sheltered
  cases guilty : s.trespassed s.threads.machine.thread with
  | true =>
    have ready : PagesReady s.threads.machine := by
      rwa [Tolerated, if_pos guilty] at tolerated
    rw [Threads.next] at taken
    obtain ⟨⟨result, m⟩, ran, rfl⟩ := Option.map_eq_some_iff.mp taken
    have confined := myallocate_anywhere sheltered ready ran
    refine integral.confine confined (fun u other => ?_) (fun _ _ => rfl) guilty fun _ _ => rfl
    cases result with
    | none => rfl
    | some ptr => exact Function.update_of_ne other _ _
  | false =>
    have can : CanAllocate s.threads.machine size := by
      rwa [Tolerated, if_neg (by rw [guilty]; simp)] at tolerated
    have own := integral.honest guilty
    obtain ⟨blocks, arena, _⟩ := (integral.intact _ sheltered.running guilty).heap
    rw [Threads.next] at taken
    obtain ⟨⟨result, m⟩, ran, rfl⟩ := Option.map_eq_some_iff.mp taken
    exact of_honest (myallocate_serves sheltered arena can ran).sheltered (own.allocate can ran)

/-- **A write**, inside an allocation or not. -/
theorem write {address : Nat} {value : BitVec 8} (integral : Integral s)
    (taken : s.threads.next (.write address value) = some threads) :
    Integral ⟨threads, s.trespass (.write address value)⟩ := by
  rw [Threads.next] at taken
  obtain ⟨⟨_, m⟩, ran, rfl⟩ := Option.map_eq_some_iff.mp taken
  have confined := writeByte_anywhere integral.sheltered ran
  by_cases within : s.threads.Holds address
  · rw [Tracked.trespass, if_pos within]
    cases guilty : s.trespassed s.threads.machine.thread with
    | true =>
      exact integral.confine confined (fun _ _ => rfl)
        (fun u other => Function.update_of_ne other _ _) guilty fun _ _ => rfl
    | false => exact of_honest confined.sheltered ((integral.honest guilty).write within ran)
  · rw [Tracked.trespass, if_neg within]
    exact integral.confine confined (fun _ _ => rfl)
      (fun u other => Function.update_of_ne other _ _) (Function.update_self ..)
      fun u other => Function.update_of_ne other _ _

/-- **A read**, inside an allocation or not. -/
theorem read {address : Nat} (integral : Integral s)
    (taken : s.threads.next (.read address) = some threads) :
    Integral ⟨threads, s.trespassed⟩ := by
  rw [Threads.next] at taken
  obtain ⟨⟨_, m⟩, ran, rfl⟩ := Option.map_eq_some_iff.mp taken
  have settled := readByte_anywhere integral.sheltered ran
  exact ⟨settled.sheltered, fun t alive stays => (integral.intact t alive stays).of_same
    (congrFun settled.pageNum t) (settled.views t alive) rfl rfl⟩

/-- **A switch.** -/
theorem switch {next : Nat} (integral : Integral s) (alive : s.threads.live next = true)
    (taken : s.threads.next (.switch next) = some threads) : Integral ⟨threads, s.trespassed⟩ := by
  rw [Threads.next] at taken
  obtain ⟨⟨_, m⟩, ran, rfl⟩ := Option.map_eq_some_iff.mp taken
  have switched := switchTo_run ran
  obtain ⟨sheltered, view⟩ := switched.shelters integral.sheltered alive
  exact ⟨sheltered, fun t alive stays => (integral.intact t alive stays).of_same
    (congrFun switched.pageNum t) (view t) rfl rfl⟩

/-- **An exit.** -/
theorem exit {next : Nat} (integral : Integral s) (alive : s.threads.live next = true)
    (different : next ≠ s.threads.machine.thread)
    (taken : s.threads.next (.exit next) = some threads) : Integral ⟨threads, s.trespassed⟩ := by
  rw [Threads.next] at taken
  obtain ⟨⟨_, m⟩, ran, rfl⟩ := Option.map_eq_some_iff.mp taken
  have switched := switchTo_run ran
  obtain ⟨sheltered, view⟩ := switched.shelters_exit integral.sheltered alive different
  refine ⟨sheltered, fun t lives stays => ?_⟩
  have lives : Function.update s.threads.live s.threads.machine.thread false t = true := lives
  by_cases old : t = s.threads.machine.thread
  · rw [old, Function.update_self] at lives
    cases lives
  · rw [Function.update_of_ne old] at lives
    exact (integral.intact t lives stays).of_same (congrFun switched.pageNum t) (view t lives old)
      rfl rfl

/-- **A new thread.** -/
theorem create (integral : Integral s) (room : s.threads.threadNum < 256)
    (taken : s.threads.next .create = some threads) :
    Integral ⟨threads, s.trespass .create⟩ := by
  cases taken
  have view : ∀ t, Machine.view { s.threads.machine with
      pageNum := Function.update s.threads.machine.pageNum s.threads.threadNum 0 } t
        = s.threads.machine.view t := view_congr rfl rfl rfl rfl
  refine ⟨integral.sheltered.create room, fun t alive stays => ?_⟩
  by_cases new : t = s.threads.threadNum
  · refine ⟨⟨[], Or.inl ⟨?_, rfl⟩, fun p n => ?_⟩, fun a value wrote => ?_⟩
    · show Function.update s.threads.machine.pageNum s.threads.threadNum 0 t = 0
      rw [new, Function.update_self]
    · show (p, n) ∈ Function.update s.threads.allocs s.threads.threadNum [] t ↔ _
      rw [new, Function.update_self]
      exact ⟨fun member => absurd member List.not_mem_nil, fun holds => holds.elim⟩
    · simp only [new, Function.update_self] at wrote
      cases wrote
  · have alive : s.threads.live t = true := (Function.update_of_ne new _ _).symm.trans alive
    have stays : s.trespassed t = false := (Function.update_of_ne new _ _).symm.trans stays
    exact (integral.intact t alive stays).of_same (Function.update_of_ne new _ _) (view t)
      (Function.update_of_ne new _ _) (Function.update_of_ne new _ _)

/-- **One event keeps it.** -/
theorem step (integral : Integral s) (tolerated : Tolerated s e) (taken : s.next e = some s') :
    Integral s' := by
  obtain ⟨threads, moved, rfl⟩ := Option.map_eq_some_iff.mp taken
  cases e with
  | allocate size => exact integral.allocate tolerated moved
  | write address value => exact integral.write moved
  | read address => exact integral.read moved
  | switch next => exact integral.switch tolerated moved
  | exit next => exact integral.exit tolerated.1 tolerated.2 moved
  | create => exact integral.create tolerated moved

/-- **The invariant is integrity.** -/
theorem secure (integral : Integral s) : Integrity s := by
  have sheltered := integral.sheltered
  refine ⟨fun t alive stays address value wrote => ?_, fun stays => ?_, fun k inside reachable => ?_⟩
  · exact ((integral.intact t alive stays).written address value wrote).1
  · exact (integral.honest stays).privateMemory.reads
  · rcases sheltered.labelled.flags (.frame k) inside with used | isFree
    · exact Or.inr (sheltered.home k inside reachable used)
    · exact Or.inl isFree

end Integral

theorem TrackedStarted.integral {s : Tracked} (started : TrackedStarted s) : Integral s := by
  obtain ⟨start, _⟩ := started
  have own := start.private
  exact ⟨own.sheltered, fun t alive _ => ⟨own.heaps t alive, own.written t alive⟩⟩

/-- **Integrity over whole runs**: threads that write anywhere in user space, and allocate from what
that leaves of their heaps, change nothing that the others have written. -/
theorem integrity {s : Tracked}
    (reached : Reach TrackedStarted Tolerated (execStep Tracked.next) s) : Integrity s := by
  have integral : Integral s :=
    reached.invariant Integral (fun _ started => started.integral)
      fun _ _ _ integral tolerated taken => integral.step tolerated taken
  exact integral.secure

/-- The first thread writes in its allocation. The second one writes over the header of its own
block, far beyond its pages, and allocates again. -/
def trespassingRun : List ThreadEvent :=
  [.allocate 100, .write 4 7, .create, .switch 2, .allocate 50, .write 1 255, .write 40000 9,
    .allocate 20, .switch 1]

theorem integrity_trespassing : ∃ s : Tracked, s.threads.machine.thread = 1 ∧
    s.trespassed 2 = true ∧ s.threads.written 1 4 = some 7 ∧ s.threads.machine.view 1 4 = 7 := by
  have start : Reach TrackedStarted Tolerated (execStep Tracked.next) ⟨zeroThreads, fun _ => false⟩ :=
    .init ⟨zeroThreads_started, rfl⟩
  obtain ⟨s, reached, found⟩ := start.exists_of_execAll trespassingRun
    (fun s => s.threads.machine.thread = 1 ∧ s.trespassed 2 = true ∧ s.trespassed 1 = false ∧
      s.threads.live 1 = true ∧ s.threads.written 1 4 = some 7) (by decide +kernel)
  obtain ⟨thread, second, first, alive, wrote⟩ := of_decide_eq_true found
  exact ⟨s, thread, second, wrote, (integrity reached).kept 1 alive first 4 7 wrote⟩

end OS2017.Paging
