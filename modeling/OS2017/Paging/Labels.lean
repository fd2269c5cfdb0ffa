/-
**No page is lost or duplicated.**

`System` is the paged memory with its live threads: the running thread allocates or accesses user
space, the scheduler switches or a thread exits, threads are created. In every reachable state each
page of a live thread is in exactly one entry in use, there is no other entry of the thread in use,
and no free frame carries a live thread's id (`pages_once`). This needs no assumption on how the
threads behave, faults inside the copy of `moveToFreeSpace` included.
-/

import OS2017.Paging.Calls

namespace OS2017.Paging

open OS2017.Bytes OS2017.Heap OS2017.Run

/-- The paged memory and the threads. -/
structure System where
  machine : Machine
  live : Nat → Bool
  /-- the id of the next thread -/
  threadNum : Nat

/-- What can happen: calls and accesses of the running thread, switches, exits, new threads. -/
inductive Event
  | allocate (size : Nat)
  | access (address : Nat)
  | switch (next : Nat)
  | exit (next : Option Nat)
  | create

/-- `schedule()` up to its `swapcontext`, as far as the pages go: another thread's pages become its
own affair. The queues, and the quantum the timer is armed with, are left out. -/
def switchTo (next : Nat) : StateT Machine Option Unit := do
  let thread ← look (·.thread)
  if next ≠ thread then
    protectAllPages thread
    change fun m => { m with thread := next }
  else return ()

/-- A program of the running thread. -/
def System.call {α : Type} (s : System) (program : StateT Machine Option α) : Option System :=
  (program s.machine).map fun (_, m) => { s with machine := m }

/-- One event. -/
def System.next (s : System) : Event → Option System
  | .allocate size => s.call (myallocate swapping size)
  | .access address => s.call (touch (address / PAGESIZE))
  | .switch next => s.call (switchTo next)
  | .exit next =>
    { s with live := Function.update s.live s.machine.thread false }.call do
      freePages
      next.forM switchTo
  | .create =>
    some { machine := { s.machine with
             pageNum := Function.update s.machine.pageNum s.threadNum 0 }
           live := Function.update s.live s.threadNum true
           threadNum := s.threadNum + 1 }

theorem System.call_run {α : Type} {s s' : System} {program : StateT Machine Option α}
    (called : s.call program = some s') :
    ∃ a m', program s.machine = some (a, m') ∧ s' = { s with machine := m' } := by
  rw [System.call] at called
  obtain ⟨⟨a, m'⟩, ran, same⟩ := Option.map_eq_some_iff.mp called
  exact ⟨a, m', ran, same.symm⟩

/-- Thread ids stay below 256, and the scheduler switches to live threads. An exit that finds no
other thread to run is the last event. -/
def InBounds (s : System) (e : Event) : Prop :=
  s.live s.machine.thread = true ∧ match e with
    | .switch next => s.live next = true
    | .exit (some next) => s.live next = true ∧ next ≠ s.machine.thread
    | .create => s.threadNum < 256
    | _ => True

instance (s : System) (e : Event) : Decidable (InBounds s e) := by
  unfold InBounds
  split <;> infer_instance

/-- The tables just made, and the main thread alone. -/
structure SystemStarted (s : System) : Prop where
  pages : ∀ i, s.machine.pages i = 1
  diskPages : ∀ i, s.machine.diskPages i = 1
  accessible : ∀ i, s.machine.accessible i = true
  thread : s.machine.thread = 1
  pageNum : s.machine.pageNum 1 = 0
  live : s.live = fun t => t = 1
  threadNum : s.threadNum = 2

/-- **Every page of a live thread is in one place.** -/
structure PagesOnce (s : System) : Prop where
  once : ∀ t, s.live t = true → ∀ k < s.machine.pageNum t,
    ∃! place : Place, place.Valid ∧ Labels (s.machine.entry place) t k
  beyond : ∀ t, s.live t = true → ∀ k, s.machine.pageNum t ≤ k → ∀ place : Place, place.Valid →
    ¬ Labels (s.machine.entry place) t k
  stale : ∀ i < USER_PAGES, getPageIsF (s.machine.pages i) = 1 →
    ∀ t, s.live t = true → (getPageThID (s.machine.pages i)).toNat ≠ t

/-! ### One call -/

/-- The labels stay right, for whoever is live, while the running thread is. -/
def KeepsLabels (m m' : Machine) : Prop :=
  ∀ live threadNum, Labelled live threadNum m.pageNum m.entry → live m.thread = true →
    Labelled live threadNum m'.pageNum m'.entry ∧ m'.thread = m.thread

theorem keepsLabels_composes : Composes KeepsLabels := by
  refine ⟨fun m live threadNum labelled _ => ⟨labelled, rfl⟩, ?_⟩
  intro m m' m'' first second live threadNum labelled alive
  obtain ⟨labelled', thread⟩ := first live threadNum labelled alive
  obtain ⟨labelled'', thread'⟩ := second live threadNum labelled' (thread ▸ alive)
  exact ⟨labelled'', thread'.trans thread⟩

theorem Permutes.keepsLabels {m m' : Machine} (permutes : Permutes m m') : KeepsLabels m m' := by
  intro live threadNum labelled _
  obtain ⟨moved, valid, entry⟩ := permutes.moved
  rw [entry, permutes.pageNum]
  exact ⟨labelled.permute moved valid, permutes.thread⟩

/-- Room in a claimable frame, and the new page there. -/
theorem keepsLabels_newPage {m m₁ m₂ : Machine} {index : Nat} (claimable : Claimable m index)
    (room : makeRoom index m = some (true, m₁)) (new : initializePage index m₁ = some ((), m₂)) :
    KeepsLabels m m₂ := by
  intro live threadNum labelled alive
  obtain ⟨inside, ⟨_, vacated⟩ | ⟨other, _⟩⟩ := makeRoom_run labelled alive claimable room
  · exact vacated.initializes labelled alive inside ((initializePage_spec m₁ inside).of_run new)
  · cases other

/-- No room, nothing done. -/
theorem keepsLabels_noRoom {m m₁ : Machine} {index : Nat} (claimable : Claimable m index)
    (room : makeRoom index m = some (false, m₁)) : KeepsLabels m m₁ := by
  intro live threadNum labelled alive
  obtain ⟨_, ⟨other, _⟩ | ⟨_, permutes⟩⟩ := makeRoom_run labelled alive claimable room
  · cases other
  · exact permutes.keepsLabels live threadNum labelled alive

/-- **The parts of a call keep the labels.** -/
theorem keepsLabels_parts : KeptByParts makeRoom KeepsLabels where
  composes := keepsLabels_composes
  timer := fun _ _ => (permutes_of_eq rfl rfl rfl rfl).keepsLabels
  frames := fun _ _ => (permutes_of_eq rfl rfl rfl rfl).keepsLabels
  touch := fun k => (keeps_touch k).mono Permutes.keepsLabels
  alignPages := keeps_alignPages.mono Permutes.keepsLabels
  newPage := fun claimed => keepsLabels_newPage claimed.claimable
  noRoom := fun claimed => keepsLabels_noRoom claimed.claimable

/-- **`myallocate` keeps the labels.** -/
theorem keepsLabels_myallocate (size : Nat) : Keeps KeepsLabels (myallocate swapping size) :=
  keepsLabels_parts.myallocate size

/-! ### Switches, exits, new threads -/

/-- **A switch**: the frames of the old thread are protected. -/
structure Switched (next : Nat) (m m' : Machine) : Prop where
  pages : m'.pages = m.pages
  diskPages : m'.diskPages = m.diskPages
  frames : m'.frames = m.frames
  swpFile : m'.swpFile = m.swpFile
  pageNum : m'.pageNum = m.pageNum
  thread : m'.thread = next
  accessible : m'.accessible = if next ≠ m.thread then fun i =>
      if i < USER_PAGES ∧ (getPageThID (m.pages i)).toNat = m.thread then false else m.accessible i
    else m.accessible

theorem switchTo_run {m m' : Machine} {next : Nat} (ran : switchTo next m = some ((), m')) :
    Switched next m m' := by
  rw [switchTo, look_run] at ran
  by_cases same : next ≠ m.thread
  · rw [if_pos same, protectAllPages, change_run] at ran
    cases ran
    exact ⟨rfl, rfl, rfl, rfl, rfl, rfl, (if_pos same).symm⟩
  · rw [if_neg same] at ran
    cases ran
    exact ⟨rfl, rfl, rfl, rfl, rfl, (not_not.mp same).symm, (if_neg same).symm⟩

theorem entry_congr {m m' : Machine} (pages : m'.pages = m.pages)
    (diskPages : m'.diskPages = m.diskPages) : m'.entry = m.entry := by
  funext place
  cases place with
  | frame i => exact congrFun pages i
  | slot i => exact congrFun diskPages i

/-- `freePages` marks the frames of the running thread as free. -/
def released (m : Machine) : Machine :=
  { m with
    accessible := fun i =>
      if i < USER_PAGES ∧ (getPageThID (m.pages i)).toNat = m.thread then true else m.accessible i
    pages := fun i =>
      if i < USER_PAGES ∧ (getPageThID (m.pages i)).toNat = m.thread then setPageIsF (m.pages i) 1
      else m.pages i }

theorem released_entry_of_mine {m : Machine} {i : Nat} (inside : i < USER_PAGES)
    (mine : (getPageThID (m.pages i)).toNat = m.thread) :
    (released m).entry (.frame i) = setPageIsF (m.pages i) 1 :=
  if_pos ⟨inside, mine⟩

theorem released_entry_of_not {m : Machine} {i : Nat}
    (other : ¬ (i < USER_PAGES ∧ (getPageThID (m.pages i)).toNat = m.thread)) :
    (released m).entry (.frame i) = m.entry (.frame i) :=
  if_neg other

theorem released_thID (m : Machine) (place : Place) :
    getPageThID ((released m).entry place) = getPageThID (m.entry place) := by
  cases place with
  | slot i => rfl
  | frame i =>
    by_cases both : i < USER_PAGES ∧ (getPageThID (m.pages i)).toNat = m.thread
    · rw [released_entry_of_mine both.1 both.2]
      exact getPageThID_setPageIsF (by decide)
    · rw [released_entry_of_not both]

/-- A page of another thread keeps its entry. -/
theorem released_of_ne {m : Machine} (place : Place)
    (other : (getPageThID (m.entry place)).toNat ≠ m.thread) :
    (released m).entry place = m.entry place := by
  cases place with
  | slot i => rfl
  | frame i => exact released_entry_of_not fun both => other both.2

/-- **An exit keeps the labels of the other threads.** -/
theorem Labelled.exit {live : Nat → Bool} {threadNum : Nat} {m : Machine}
    (labelled : Labelled live threadNum m.pageNum m.entry) :
    Labelled (Function.update live m.thread false) threadNum m.pageNum (released m).entry := by
  have others : ∀ {t}, Function.update live m.thread false t = true → t ≠ m.thread ∧ live t = true := by
    intro t alive
    by_cases same : t = m.thread
    · rw [same, Function.update_self] at alive
      cases alive
    · rw [Function.update_of_ne same] at alive
      exact ⟨same, alive⟩
  -- the labels of the other threads are those from before
  have labels : ∀ {t k place}, t ≠ m.thread →
      (Labels ((released m).entry place) t k ↔ Labels (m.entry place) t k) := by
    intro t k place different
    constructor
    · intro label
      have thID : (getPageThID (m.entry place)).toNat = t := released_thID m place ▸ label.thID
      rwa [released_of_ne _ fun same => different (thID.symm.trans same)] at label
    · intro label
      rwa [released_of_ne _ fun same => different (label.thID.symm.trans same)]
  refine ⟨fun t alive k bound => ?_, fun t alive k place place' inside inside' left right => ?_,
    fun t alive k place inside label => ?_, fun place inside isFree t alive => ?_,
    fun place inside => ?_, fun place inside => ?_, fun t alive => labelled.ids t (others alive).2,
    labelled.small⟩
  · obtain ⟨different, alive'⟩ := others alive
    obtain ⟨place, inside, label⟩ := labelled.exists_of_lt t alive' k bound
    exact ⟨place, inside, (labels different).mpr label⟩
  · obtain ⟨different, alive'⟩ := others alive
    exact labelled.unique t alive' k place place' inside inside' ((labels different).mp left)
      ((labels different).mp right)
  · obtain ⟨different, alive'⟩ := others alive
    exact labelled.below t alive' k place inside ((labels different).mp label)
  · obtain ⟨different, alive'⟩ := others alive
    rw [released_thID]
    intro same
    rw [released_of_ne _ fun equal => different (same.symm.trans equal)] at isFree
    exact labelled.stale place inside isFree t alive' same
  · by_cases same : (getPageThID (m.entry place)).toNat = m.thread
    · cases place with
      | slot i => exact labelled.flags (.slot i) inside
      | frame i =>
        refine Or.inr ?_
        rw [released_entry_of_mine inside same]
        exact getPageIsF_setPageIsF (by decide)
    · rw [released_of_ne _ same]
      exact labelled.flags place inside
  · rw [released_thID]
    exact labelled.created place inside

/-- **A new thread has no pages and no labels.** -/
theorem Labelled.create {live : Nat → Bool} {threadNum : Nat} {pageNum : Nat → Nat}
    {entry : Place → BitVec 32} (labelled : Labelled live threadNum pageNum entry)
    (positive : 0 < threadNum) (room : threadNum < 256) :
    Labelled (Function.update live threadNum true) (threadNum + 1)
      (Function.update pageNum threadNum 0) entry := by
  have older : ∀ {t}, Function.update live threadNum true t = true → t ≠ threadNum → live t = true :=
    fun alive different => by rwa [Function.update_of_ne different] at alive
  have unlabelled : ∀ {k place}, place.Valid → ¬ Labels (entry place) threadNum k := fun inside label =>
    absurd (label.thID ▸ labelled.created _ inside) (lt_irrefl _)
  refine ⟨fun t alive k bound => ?_, fun t alive k place place' inside inside' left right => ?_,
    fun t alive k place inside label => ?_, fun place inside isFree t alive => ?_, labelled.flags,
    fun place inside => Nat.lt_succ_of_lt (labelled.created place inside), fun t alive => ?_, room⟩
  · by_cases same : t = threadNum
    · rw [same, Function.update_self] at bound
      exact absurd bound (Nat.not_lt_zero _)
    · rw [Function.update_of_ne same] at bound
      exact labelled.exists_of_lt t (older alive same) k bound
  · by_cases same : t = threadNum
    · exact absurd (same ▸ left) (unlabelled inside)
    · exact labelled.unique t (older alive same) k place place' inside inside' left right
  · by_cases same : t = threadNum
    · exact absurd (same ▸ label) (unlabelled inside)
    · rw [Function.update_of_ne same]
      exact labelled.below t (older alive same) k place inside label
  · by_cases same : t = threadNum
    · rw [same]
      exact ne_of_lt (labelled.created place inside)
    · exact labelled.stale place inside isFree t (older alive same)
  · by_cases same : t = threadNum
    · rw [same]
      exact ⟨positive, Nat.lt_succ_self _⟩
    · obtain ⟨low, high⟩ := labelled.ids t (older alive same)
      exact ⟨low, Nat.lt_succ_of_lt high⟩

/-! ### Runs -/

/-- **The invariant**: the labels are right. -/
def WellLabelled (s : System) : Prop :=
  Labelled s.live s.threadNum s.machine.pageNum s.machine.entry

/-- A call of the running thread. -/
theorem WellLabelled.call {s : System} {m' : Machine} (well : WellLabelled s)
    (running : s.live s.machine.thread = true) (keeps : KeepsLabels s.machine m') :
    WellLabelled { s with machine := m' } :=
  (keeps _ _ well running).1

/-- A switch leaves the labels. -/
theorem Switched.labelled {next : Nat} {m m' : Machine} {live : Nat → Bool} {threadNum : Nat}
    (switched : Switched next m m') (labelled : Labelled live threadNum m.pageNum m.entry) :
    Labelled live threadNum m'.pageNum m'.entry := by
  rw [switched.pageNum, entry_congr switched.pages switched.diskPages]
  exact labelled

/-- **One event keeps it.** -/
theorem WellLabelled.step {s s' : System} {e : Event} (well : WellLabelled s)
    (inBounds : InBounds s e) (taken : s.next e = some s') : WellLabelled s' := by
  cases e with
  | allocate size =>
    obtain ⟨result, m', ran, rfl⟩ := System.call_run taken
    exact well.call inBounds.1 (keepsLabels_myallocate size _ _ _ ran)
  | access address =>
    obtain ⟨_, m', ran, rfl⟩ := System.call_run taken
    exact well.call inBounds.1 (keeps_touch _ _ _ _ ran).keepsLabels
  | switch next =>
    obtain ⟨_, m', ran, rfl⟩ := System.call_run taken
    exact (switchTo_run ran).labelled well
  | exit next =>
    obtain ⟨_, m', ran, rfl⟩ := System.call_run taken
    rw [freePages, change_run] at ran
    cases next with
    | none =>
      cases ran
      exact well.exit
    | some next => exact (switchTo_run ran).labelled well.exit
  | create =>
    cases taken
    have bounds := well.ids _ inBounds.1
    exact well.create (by omega) inBounds.2

/-- **The tables just made** are labelled. -/
theorem labelled_of_fresh {m : Machine} {live : Nat → Bool} {threadNum : Nat}
    (pages : ∀ i, m.pages i = 1) (diskPages : ∀ i, m.diskPages i = 1) (pageNum : m.pageNum 1 = 0)
    (only : live = fun t => t = 1) (two : threadNum = 2) :
    Labelled live threadNum m.pageNum m.entry := by
  have entry : ∀ place, m.entry place = 1 := fun place => by
    cases place with
    | frame i => exact pages i
    | slot i => exact diskPages i
  have unused : ∀ {t k place}, ¬ Labels (m.entry place) t k := fun {t k place} label => by
    have used := label.used
    rw [entry place] at used
    exact absurd used (by decide)
  have main : ∀ {t}, live t = true → t = 1 := fun alive => by
    rw [only] at alive
    exact of_decide_eq_true alive
  refine ⟨fun t alive k bound => ?_, fun _ _ _ _ _ _ _ left => absurd left unused,
    fun _ _ _ _ _ label => absurd label unused, fun place _ _ t alive => ?_, fun place _ => ?_,
    fun place _ => ?_, fun t alive => ?_, ?_⟩
  · rw [main alive, pageNum] at bound
    exact absurd bound (Nat.not_lt_zero _)
  · rw [entry place, main alive]
    decide
  · rw [entry place]
    decide
  · rw [entry place, two]
    decide
  · rw [main alive, two]
    decide
  · rw [two]
    decide

theorem SystemStarted.wellLabelled {s : System} (started : SystemStarted s) : WellLabelled s :=
  labelled_of_fresh started.pages started.diskPages started.pageNum started.live started.threadNum

/-- **The invariant says where the pages are.** -/
theorem WellLabelled.pagesOnce {s : System} (well : WellLabelled s) : PagesOnce s := by
  refine ⟨fun t alive k bound => ?_, fun t alive k beyond place inside label => ?_,
    fun i inside => well.stale (.frame i) inside⟩
  · obtain ⟨place, inside, label⟩ := well.exists_of_lt t alive k bound
    refine ⟨place, ⟨inside, label⟩, fun other ⟨inside', label'⟩ => ?_⟩
    exact well.unique t alive k other place inside' inside label' label
  · exact absurd (well.below t alive k place inside label) (not_lt.mpr beyond)

/-- **No page is lost or duplicated over whole runs.** -/
theorem pages_once (s : System)
    (reached : Reach SystemStarted InBounds (execStep System.next) s) : PagesOnce s := by
  have well : WellLabelled s :=
    reached.invariant WellLabelled (fun _ started => started.wellLabelled)
      fun _ _ _ well inBounds taken => well.step inBounds taken
  exact well.pagesOnce

/-- The tables just made, over zeroed memory. -/
def zeroSystem : System where
  machine :=
    { frames := fun _ => 0
      swpFile := fun _ => 0
      pages := fun _ => 1
      diskPages := fun _ => 1
      accessible := fun _ => true
      thread := 1
      pageNum := fun _ => 0
      timer := ⟨QUANTUM, QUANTUM⟩ }
  live := fun t => t = 1
  threadNum := 2

theorem zeroSystem_started : SystemStarted zeroSystem :=
  ⟨fun _ => rfl, fun _ => rfl, fun _ => rfl, rfl, rfl, rfl, rfl⟩

/-- Two threads with a page each: the first one's page `0` is evicted and fetched again. -/
theorem pages_once_twoThreads :
    ∃ s, Reach SystemStarted InBounds (execStep System.next) s ∧
      s.machine.pageNum 1 = 1 ∧ s.machine.pageNum 2 = 1 ∧ PagesOnce s := by
  have start : Reach SystemStarted InBounds (execStep System.next) zeroSystem :=
    .init zeroSystem_started
  obtain ⟨s, reached, held⟩ := start.exists_of_execAll
    [.allocate 100, .create, .switch 2, .allocate 50, .switch 1, .access 0]
    (fun s => s.machine.pageNum 1 = 1 ∧ s.machine.pageNum 2 = 1) (by decide +kernel)
  obtain ⟨first, second⟩ := of_decide_eq_true held
  exact ⟨s, reached, first, second, pages_once s reached⟩

end OS2017.Paging
