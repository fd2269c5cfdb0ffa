/-
**Thread-private memory.**

The threads of a process allocate, write and read inside their allocations, are switched, exit and
are created, in any order. Beside the machine the state says what each thread holds and what it has
last written where. `PrivateMemory` is the property: an open frame `k` is the running thread's page
`k` if it has one, and each read inside an allocation returns the last value written there.

It holds in every run whose allocations meet `CanAllocate` (`memory_private`). It does not hold in
every run: `alignPages` passes over the pages that are not at home, and a thread whose page `0` has
been moved away gets its next page in frame `0`, open (`memory_not_private`).
-/

import OS2017.Paging.Labels
import OS2017.Paging.Allocate

namespace OS2017.Paging

open OS2017.Bytes OS2017.Heap OS2017.FirstFit OS2017.Run

/-! ### Threads -/

/-- A read of one byte. -/
def readByte (a : Nat) : StateT Machine Option (BitVec 8) := do
  touch (a / PAGESIZE)
  look (·.frames a)

/-- A write of one byte. -/
def writeByte (a : Nat) (value : BitVec 8) : StateT Machine Option Unit := do
  touch (a / PAGESIZE)
  change fun m => { m with frames := Function.update m.frames a value }

/-- The paged memory, with what each thread holds and has last written. -/
structure Threads where
  machine : Machine
  live : Nat → Bool
  /-- the id of the next thread -/
  threadNum : Nat
  /-- pointer and size -/
  allocs : Nat → List (Nat × Nat)
  written : Nat → Nat → Option (BitVec 8)

/-- What the running thread and the scheduler do. -/
inductive ThreadEvent
  | allocate (size : Nat)
  | write (address : Nat) (value : BitVec 8)
  | read (address : Nat)
  | switch (next : Nat)
  | exit (next : Nat)
  | create

/-- The address is inside an allocation of the running thread. -/
def Threads.Holds (s : Threads) (address : Nat) : Prop :=
  ∃ block ∈ s.allocs s.machine.thread, block.1 ≤ address ∧ address < block.1 + block.2

instance (s : Threads) (address : Nat) : Decidable (s.Holds address) := by
  unfold Threads.Holds
  infer_instance

/-- What is recorded of an allocation. -/
def handOut (allocs : Nat → List (Nat × Nat)) (thread size : Nat) :
    Option Nat → Nat → List (Nat × Nat)
  | none => allocs
  | some ptr => Function.update allocs thread ((ptr, size) :: allocs thread)

/-- One event. -/
def Threads.next (s : Threads) : ThreadEvent → Option Threads
  | .allocate size => (myallocate swapping size s.machine).map fun (result, m) =>
      { s with machine := m, allocs := handOut s.allocs s.machine.thread size result }
  | .write address value => (writeByte address value s.machine).map fun (_, m) =>
      { s with
        machine := m
        written := Function.update s.written s.machine.thread
          (Function.update (s.written s.machine.thread) address (some value)) }
  | .read address => (readByte address s.machine).map fun (_, m) => { s with machine := m }
  | .switch next => (switchTo next s.machine).map fun (_, m) => { s with machine := m }
  | .exit next => (switchTo next (released s.machine)).map fun (_, m) =>
      { s with machine := m, live := Function.update s.live s.machine.thread false }
  | .create =>
    some { machine := { s.machine with
             pageNum := Function.update s.machine.pageNum s.threadNum 0 }
           live := Function.update s.live s.threadNum true
           threadNum := s.threadNum + 1
           allocs := Function.update s.allocs s.threadNum []
           written := Function.update s.written s.threadNum fun _ => none }

/-- The threads access their own allocations, the scheduler switches to live threads, and thread ids
stay below 256. -/
def Lawful (s : Threads) : ThreadEvent → Prop
  | .allocate _ => True
  | .write address _ => s.Holds address
  | .read address => s.Holds address
  | .switch next => s.live next = true
  | .exit next => s.live next = true ∧ next ≠ s.machine.thread
  | .create => s.threadNum < 256

instance (s : Threads) (e : ThreadEvent) : Decidable (Lawful s e) := by
  cases e <;> unfold Lawful <;> infer_instance

/-- The same, where each allocation is one the running thread can make safely. -/
def LawfulAndSafe (s : Threads) (e : ThreadEvent) : Prop :=
  Lawful s e ∧ match e with
    | .allocate size => CanAllocate s.machine size
    | _ => True

instance (s : Threads) (e : ThreadEvent) : Decidable (LawfulAndSafe s e) := by
  unfold LawfulAndSafe
  cases e <;> infer_instance

/-- The tables just made, and the main thread alone. -/
structure ThreadsStarted (s : Threads) : Prop where
  pages : ∀ i, s.machine.pages i = 1
  diskPages : ∀ i, s.machine.diskPages i = 1
  thread : s.machine.thread = 1
  pageNum : s.machine.pageNum 1 = 0
  live : s.live = fun t => t = 1
  threadNum : s.threadNum = 2
  allocs : ∀ t, s.allocs t = []
  written : ∀ t a, s.written t a = none

/-- **The running thread's memory is its own.** -/
structure PrivateMemory (s : Threads) : Prop where
  home : ∀ k < USER_PAGES, s.machine.accessible k = true →
    (∃ place : Place, place.Valid ∧ Labels (s.machine.entry place) s.machine.thread k) →
      Labels (s.machine.pages k) s.machine.thread k
  reads : ∀ address, s.Holds address → ∀ value,
    s.written s.machine.thread address = some value →
      Returns (readByte address) s.machine fun result _ => result = value

/-! ### One event -/

section Events

variable {live : Nat → Bool} {threadNum : Nat} {m m' : Machine}

/-- A view depends on the tables and the bytes only. -/
theorem view_congr (pages : m'.pages = m.pages) (diskPages : m'.diskPages = m.diskPages)
    (frames : m'.frames = m.frames) (swpFile : m'.swpFile = m.swpFile) (t : Nat) :
    m'.view t = m.view t := by
  have content : m'.content = m.content := by
    funext place
    cases place with
    | frame i => exact funext fun o => congrFun frames _
    | slot i => exact funext fun o => congrFun swpFile _
  have found : ∀ k, located { m' with thread := t } k = located { m with thread := t } k :=
    located_congr (by exact pages) (by exact diskPages) (by rfl)
  funext a
  unfold Machine.view
  rw [found, content]

theorem readByte_run {a : Nat} {m m' : Machine} (touched : touch (a / PAGESIZE) m = some ((), m')) :
    readByte a m = some (m'.frames a, m') := by
  show (touch _ m).bind _ = _
  rw [touched]
  rfl

theorem writeByte_run {a : Nat} {m m' : Machine} (touched : touch (a / PAGESIZE) m = some ((), m'))
    (value : BitVec 8) : writeByte a value m
      = some ((), { m' with frames := Function.update m'.frames a value }) := by
  show (touch _ m).bind _ = _
  rw [touched]
  rfl

/-- **A read of an own byte.** -/
theorem readByte_reads (sheltered : Sheltered live threadNum m) {a : Nat}
    (owned : a < m.pageNum m.thread * PAGESIZE) :
    Returns (readByte a) m fun result m' => result = m.view m.thread a ∧
      Settled live threadNum m m' := by
  have page : a / PAGESIZE < m.pageNum m.thread := by
    unfold PAGESIZE at owned ⊢
    omega
  have inside : a / PAGESIZE < USER_PAGES :=
    lt_of_lt_of_le page (sheltered.bounded _ sheltered.running)
  refine Returns.bind ((touch_settles sheltered page).mono ?_)
  rintro _ m' ⟨settled, opened⟩
  refine ⟨m'.frames a, m', rfl, ?_, settled⟩
  rw [← view_of_open settled.sheltered inside opened, settled.thread,
    settled.views _ sheltered.running]

/-- **A write of an own byte.** -/
theorem writeByte_writes (sheltered : Sheltered live threadNum m) {a : Nat}
    (owned : a < m.pageNum m.thread * PAGESIZE) (value : BitVec 8) :
    Returns (writeByte a value) m fun _ m' => Sheltered live threadNum m' ∧
      m'.thread = m.thread ∧ m'.pageNum = m.pageNum ∧ ∀ u, live u = true →
        m'.view u = if u = m.thread then Function.update (m.view u) a value else m.view u := by
  have page : a / PAGESIZE < m.pageNum m.thread := by
    unfold PAGESIZE at owned ⊢
    omega
  have inside : a / PAGESIZE < USER_PAGES :=
    lt_of_lt_of_le page (sheltered.bounded _ sheltered.running)
  refine Returns.bind ((touch_settles sheltered page).mono ?_)
  rintro _ m' ⟨settled, opened⟩
  have sheltered' := settled.sheltered
  refine ⟨(), _, rfl, ⟨sheltered'.labelled, sheltered'.running, sheltered'.bounded, sheltered'.home,
    sheltered'.spare⟩, settled.thread, settled.pageNum, fun u alive => ?_⟩
  rw [view_write sheltered' alive inside opened value, settled.thread, settled.views u alive]

/-- What is open after a switch was open, and is not the old thread's. -/
theorem Switched.reachable {next i : Nat} (switched : Switched next m m') (inside : i < USER_PAGES)
    (reachable : m'.accessible i = true) : m.accessible i = true ∧
      (next ≠ m.thread → (getPageThID (m.pages i)).toNat ≠ m.thread) := by
  rw [switched.accessible] at reachable
  by_cases other : next ≠ m.thread
  · rw [if_pos other] at reachable
    by_cases mine : i < USER_PAGES ∧ (getPageThID (m.pages i)).toNat = m.thread
    · simp only [if_pos mine] at reachable
      cases reachable
    · simp only [if_neg mine] at reachable
      exact ⟨reachable, fun _ same => mine ⟨inside, same⟩⟩
  · rw [if_neg other] at reachable
    exact ⟨reachable, fun different => absurd different other⟩

/-- **A switch** protects what is the old thread's. -/
theorem Switched.shelters {next : Nat} (switched : Switched next m m')
    (sheltered : Sheltered live threadNum m) (alive : live next = true) :
    Sheltered live threadNum m' ∧ ∀ u, m'.view u = m.view u := by
  refine ⟨⟨switched.labelled sheltered.labelled, by rw [switched.thread]; exact alive, ?_, ?_, ?_⟩,
    view_congr switched.pages switched.diskPages switched.frames switched.swpFile⟩
  · rw [switched.pageNum]
    exact sheltered.bounded
  · intro i inside reachable used
    obtain ⟨was, foreign⟩ := switched.reachable inside reachable
    rw [switched.pages] at used ⊢
    have label := sheltered.home i inside was used
    by_cases other : next ≠ m.thread
    · exact absurd label.thID (foreign other)
    · rw [switched.thread, not_not.mp other]
      exact label
  · intro i inside reachable isFree
    rw [switched.pages] at isFree
    rw [switched.pageNum]
    exact sheltered.spare i inside (switched.reachable inside reachable).1 isFree

/-- **An exit** frees the frames of the thread, and protects them. -/
theorem Switched.shelters_exit {next : Nat} (switched : Switched next (released m) m')
    (sheltered : Sheltered live threadNum m) (alive : live next = true)
    (different : next ≠ m.thread) :
    Sheltered (Function.update live m.thread false) threadNum m' ∧
      ∀ u, live u = true → u ≠ m.thread → m'.view u = m.view u := by
  have labelled := sheltered.labelled.exit
  have labelled' := switched.labelled labelled
  have mine : ∀ {u}, Function.update live m.thread false u = true → live u = true := by
    intro u lives
    by_cases same : u = m.thread
    · rw [same, Function.update_self] at lives
      cases lives
    · rwa [Function.update_of_ne same] at lives
  -- what is open now is not labelled with the old thread, and was open before
  have before : ∀ {i}, i < USER_PAGES → m'.accessible i = true →
      (getPageThID (m.pages i)).toNat ≠ m.thread ∧ m.accessible i = true ∧ m'.pages i = m.pages i := by
    intro i inside reachable
    obtain ⟨was, other⟩ := switched.reachable inside reachable
    have foreign : (getPageThID (m.pages i)).toNat ≠ m.thread := fun same =>
      other different ((congrArg BitVec.toNat (released_thID m (.frame i))).trans same)
    refine ⟨foreign, ?_, ?_⟩
    · rw [← was]
      exact (if_neg fun both => foreign both.2).symm
    · rw [switched.pages]
      exact released_of_ne (.frame i) foreign
  refine ⟨⟨labelled', ?_, ?_, ?_, ?_⟩, fun u lives other => ?_⟩
  · rw [switched.thread, Function.update_of_ne different]
    exact alive
  · rw [switched.pageNum]
    exact fun u lives => sheltered.bounded u (mine lives)
  · intro i inside reachable used
    obtain ⟨foreign, was, same⟩ := before inside reachable
    rw [same] at used
    exact absurd (sheltered.home i inside was used).thID foreign
  · intro i inside reachable isFree u lives
    obtain ⟨_, was, same⟩ := before inside reachable
    rw [same] at isFree
    rw [switched.pageNum]
    exact sheltered.spare i inside was isFree u (mine lives)
  · have lives' : Function.update live m.thread false u = true := by
      rw [Function.update_of_ne other]
      exact lives
    have entry := entry_congr switched.pages switched.diskPages
    -- the pages of the others stay where they are
    have restricted : Labelled (Function.update live m.thread false) threadNum m.pageNum m.entry := by
      obtain ⟨exists_of_lt, unique, below, stale, flags, created, ids, small⟩ := sheltered.labelled
      exact ⟨fun t lives => exists_of_lt t (mine lives), fun t lives => unique t (mine lives),
        fun t lives => below t (mine lives),
        fun place inside isFree t lives => stale place inside isFree t (mine lives), flags, created,
        fun t lives => ids t (mine lives), small⟩
    refine view_eq_of_kept restricted labelled' lives' (by rw [switched.pageNum]; rfl) ?_
    intro k place inside label
    refine ⟨place, inside, ?_, fun o _ => ?_⟩
    · rw [entry, released_of_ne _ fun same => other (label.thID.symm.trans same)]
      exact label
    · cases place with
      | frame i => exact congrFun switched.frames _
      | slot i => exact congrFun switched.swpFile _

/-- **A new thread** has no pages. -/
theorem Sheltered.create (sheltered : Sheltered live threadNum m) (room : threadNum < 256) :
    Sheltered (Function.update live threadNum true) (threadNum + 1)
      { m with pageNum := Function.update m.pageNum threadNum 0 } := by
  have bounds := sheltered.labelled.ids _ sheltered.running
  have pageNum : ∀ {i} (u), (u ≠ threadNum → m.pageNum u ≤ i) →
      Function.update m.pageNum threadNum 0 u ≤ i := by
    intro i u older
    by_cases same : u = threadNum
    · rw [same, Function.update_self]
      exact Nat.zero_le _
    · rw [Function.update_of_ne same]
      exact older same
  have older : ∀ {u}, Function.update live threadNum true u = true → u ≠ threadNum → live u = true :=
    fun alive different => by rwa [Function.update_of_ne different] at alive
  refine ⟨sheltered.labelled.create (by omega) room, ?_, fun u alive => pageNum u fun different =>
    sheltered.bounded u (older alive different), sheltered.home, fun i inside reachable isFree u alive =>
    pageNum u fun different => sheltered.spare i inside reachable isFree u (older alive different)⟩
  show Function.update live threadNum true m.thread = true
  rw [Function.update_of_ne (ne_of_lt bounds.2)]
  exact sheltered.running

end Events

/-! ### Runs -/

/-- **The invariant**: sheltered pages, and for each live thread a heap that holds its allocations
and shows what it has written. -/
structure Private (s : Threads) : Prop where
  sheltered : Sheltered s.live s.threadNum s.machine
  heaps : ∀ t, s.live t = true → ∃ blocks, Arena s.machine t blocks ∧
    ∀ p n, (p, n) ∈ s.allocs t ↔ Holds BLOCK_SIZE 0 blocks p n
  written : ∀ t, s.live t = true → ∀ a value, s.written t a = some value →
    s.machine.view t a = value ∧ ∃ block ∈ s.allocs t, block.1 ≤ a ∧ a < block.1 + block.2

/-- An allocation is inside the pages of its thread. -/
theorem Private.owned {s : Threads} (inv : Private s) {t : Nat} (alive : s.live t = true)
    {block : Nat × Nat} (held : block ∈ s.allocs t) :
    block.1 + block.2 ≤ s.machine.pageNum t * PAGESIZE := by
  obtain ⟨blocks, arena, allocs⟩ := inv.heaps t alive
  have holds := (allocs block.1 block.2).mp held
  rcases arena with ⟨_, rfl⟩ | tiled
  · exact holds.elim
  · exact (tiled.bounds holds).2

/-- Nothing has changed for the live threads. -/
theorem Private.keep {s : Threads} {m : Machine} (inv : Private s)
    (sheltered : Sheltered s.live s.threadNum m)
    (pageNum : ∀ t, s.live t = true → m.pageNum t = s.machine.pageNum t)
    (view : ∀ t, s.live t = true → m.view t = s.machine.view t) :
    Private { s with machine := m } := by
  refine ⟨sheltered, fun t alive => ?_, fun t alive a value wrote => ?_⟩
  · obtain ⟨blocks, arena, allocs⟩ := inv.heaps t alive
    refine ⟨blocks, ?_, allocs⟩
    unfold Arena
    rw [pageNum t alive, view t alive]
    exact arena
  · show m.view t a = value ∧ _
    rw [view t alive]
    exact inv.written t alive a value wrote

/-- **An allocation.** -/
theorem Private.allocate {s : Threads} {m : Machine} {size : Nat} {result : Option Nat}
    (inv : Private s) (can : CanAllocate s.machine size)
    (ran : myallocate swapping size s.machine = some (result, m)) :
    Private { s with machine := m, allocs := handOut s.allocs s.machine.thread size result } := by
  have running := inv.sheltered.running
  obtain ⟨blocks, arena, allocs⟩ := inv.heaps _ running
  have served := myallocate_serves inv.sheltered arena can ran
  have other : ∀ {t}, t ≠ s.machine.thread →
      handOut s.allocs s.machine.thread size result t = s.allocs t := by
    intro t different
    cases result with
    | none => rfl
    | some ptr => exact Function.update_of_ne different _ _
  have own : ∀ {p n}, (p, n) ∈ handOut s.allocs s.machine.thread size result s.machine.thread ↔
      (p, n) ∈ s.allocs s.machine.thread ∨ (result = some p ∧ n = size) := by
    intro p n
    cases result with
    | none => simp [handOut]
    | some ptr =>
      show (p, n) ∈ Function.update s.allocs s.machine.thread _ s.machine.thread ↔ _
      rw [Function.update_self, List.mem_cons, Prod.mk.injEq, or_comm, Option.some_inj]
      exact or_congr_right (and_congr_left fun _ => eq_comm)
  refine ⟨served.sheltered, fun t alive => ?_, fun t alive a value wrote => ?_⟩
  · by_cases mine : t = s.machine.thread
    · rw [mine]
      obtain ⟨blocks', arena', holds⟩ := served.heap
      exact ⟨blocks', arena', fun p n => by rw [own, allocs, holds]⟩
    · obtain ⟨blocks', arena', allocs'⟩ := inv.heaps t alive
      refine ⟨blocks', ?_, fun p n => ?_⟩
      · unfold Arena
        rw [served.pageNum t mine, served.others t alive mine]
        exact arena'
      · show (p, n) ∈ handOut s.allocs s.machine.thread size result t ↔ _
        rw [other mine]
        exact allocs' p n
  · obtain ⟨shown, block, held, low, high⟩ := inv.written t alive a value wrote
    by_cases mine : t = s.machine.thread
    · subst mine
      refine ⟨?_, block, own.mpr (Or.inl held), low, high⟩
      rw [served.payloads block.1 block.2 a ((allocs _ _).mp held) low high]
      exact shown
    · have still : block ∈ handOut s.allocs s.machine.thread size result t := by
        rw [other mine]
        exact held
      refine ⟨?_, block, still, low, high⟩
      rw [served.others t alive mine]
      exact shown

/-- **A write inside an allocation.** -/
theorem Private.write {s : Threads} {m : Machine} {a : Nat} {value : BitVec 8} (inv : Private s)
    (holds : s.Holds a) (ran : writeByte a value s.machine = some ((), m)) :
    Private { s with
      machine := m
      written := Function.update s.written s.machine.thread
        (Function.update (s.written s.machine.thread) a (some value)) } := by
  have running := inv.sheltered.running
  obtain ⟨block, held, low, high⟩ := holds
  have inside : a < s.machine.pageNum s.machine.thread * PAGESIZE :=
    lt_of_lt_of_le high (inv.owned running held)
  obtain ⟨sheltered, thread, pageNum, view⟩ :=
    (writeByte_writes inv.sheltered inside value).of_run ran
  refine ⟨sheltered, fun t alive => ?_, fun t alive c w wrote => ?_⟩
  · obtain ⟨blocks, arena, allocs⟩ := inv.heaps t alive
    refine ⟨blocks, ?_, allocs⟩
    unfold Arena
    rw [pageNum, view t alive]
    by_cases mine : t = s.machine.thread
    · -- the byte is in a taken payload
      rw [if_pos mine]
      refine arena.imp_right fun tiled => ?_
      have own := (allocs block.1 block.2).mp (mine ▸ held)
      exact tiled.update own low high value
    · rw [if_neg mine]
      exact arena
  · show m.view t c = w ∧ _
    rw [view t alive]
    by_cases mine : t = s.machine.thread
    · subst mine
      rw [if_pos rfl]
      simp only [Function.update_self] at wrote
      by_cases here : c = a
      · subst here
        rw [Function.update_self] at wrote ⊢
        exact ⟨Option.some.inj wrote, block, held, low, high⟩
      · rw [Function.update_of_ne here] at wrote ⊢
        exact inv.written _ alive c w wrote
    · rw [if_neg mine]
      simp only [Function.update_of_ne mine] at wrote
      exact inv.written t alive c w wrote

/-- **A read inside an allocation** returns what was written. -/
theorem Private.read {s : Threads} {a : Nat} (inv : Private s) (holds : s.Holds a) :
    Returns (readByte a) s.machine fun result m =>
      result = s.machine.view s.machine.thread a ∧ Settled s.live s.threadNum s.machine m := by
  obtain ⟨block, held, _, high⟩ := holds
  exact readByte_reads inv.sheltered
    (lt_of_lt_of_le high (inv.owned inv.sheltered.running held))

/-- **One event keeps the invariant.** -/
theorem Private.step {s s' : Threads} {e : ThreadEvent} (inv : Private s)
    (safe : LawfulAndSafe s e) (taken : s.next e = some s') : Private s' := by
  obtain ⟨lawful, can⟩ := safe
  cases e with
  | allocate size =>
    rw [Threads.next] at taken
    obtain ⟨⟨result, m⟩, ran, rfl⟩ := Option.map_eq_some_iff.mp taken
    exact inv.allocate can ran
  | write address value =>
    rw [Threads.next] at taken
    obtain ⟨⟨_, m⟩, ran, rfl⟩ := Option.map_eq_some_iff.mp taken
    exact inv.write lawful ran
  | read address =>
    rw [Threads.next] at taken
    obtain ⟨⟨result, m⟩, ran, rfl⟩ := Option.map_eq_some_iff.mp taken
    have settled := ((inv.read lawful).of_run ran).2
    exact inv.keep settled.sheltered (fun t _ => by rw [settled.pageNum]) settled.views
  | switch next =>
    rw [Threads.next] at taken
    obtain ⟨⟨_, m⟩, ran, rfl⟩ := Option.map_eq_some_iff.mp taken
    have switched := switchTo_run ran
    obtain ⟨sheltered, view⟩ := switched.shelters inv.sheltered lawful
    exact inv.keep sheltered (fun t _ => by rw [switched.pageNum]) fun t _ => view t
  | exit next =>
    rw [Threads.next] at taken
    obtain ⟨⟨_, m⟩, ran, rfl⟩ := Option.map_eq_some_iff.mp taken
    have switched := switchTo_run ran
    obtain ⟨sheltered, view⟩ := switched.shelters_exit inv.sheltered lawful.1 lawful.2
    have others : ∀ {t}, Function.update s.live s.machine.thread false t = true →
        s.live t = true ∧ t ≠ s.machine.thread := by
      intro t alive
      by_cases same : t = s.machine.thread
      · rw [same, Function.update_self] at alive
        cases alive
      · rw [Function.update_of_ne same] at alive
        exact ⟨alive, same⟩
    refine ⟨sheltered, fun t alive => ?_, fun t alive a value wrote => ?_⟩
    · obtain ⟨lives, different⟩ := others alive
      obtain ⟨blocks, arena, allocs⟩ := inv.heaps t lives
      refine ⟨blocks, ?_, allocs⟩
      unfold Arena
      rw [switched.pageNum, view t lives different]
      exact arena
    · obtain ⟨lives, different⟩ := others alive
      show m.view t a = value ∧ _
      rw [view t lives different]
      exact inv.written t lives a value wrote
  | create =>
    cases taken
    have older : ∀ {t}, Function.update s.live s.threadNum true t = true → t ≠ s.threadNum →
        s.live t = true := fun alive different => by rwa [Function.update_of_ne different] at alive
    have view : ∀ t, Machine.view { s.machine with
        pageNum := Function.update s.machine.pageNum s.threadNum 0 } t = s.machine.view t :=
      view_congr rfl rfl rfl rfl
    refine ⟨inv.sheltered.create lawful, fun t alive => ?_, fun t alive a value wrote => ?_⟩
    · by_cases new : t = s.threadNum
      · refine ⟨[], Or.inl ⟨?_, rfl⟩, fun p n => ?_⟩
        · show Function.update s.machine.pageNum s.threadNum 0 t = 0
          rw [new, Function.update_self]
        · show (p, n) ∈ Function.update s.allocs s.threadNum [] t ↔ _
          rw [new, Function.update_self]
          exact ⟨fun member => absurd member List.not_mem_nil, fun holds => holds.elim⟩
      · obtain ⟨blocks, arena, allocs⟩ := inv.heaps t (older alive new)
        refine ⟨blocks, ?_, fun p n => ?_⟩
        · unfold Arena
          rw [view t]
          show (Function.update s.machine.pageNum s.threadNum 0 t = 0 ∧ _) ∨
            Tiled _ (Function.update s.machine.pageNum s.threadNum 0 t * PAGESIZE) _
          rw [Function.update_of_ne new]
          exact arena
        · show (p, n) ∈ Function.update s.allocs s.threadNum [] t ↔ _
          rw [Function.update_of_ne new]
          exact allocs p n
    · by_cases new : t = s.threadNum
      · simp only [new, Function.update_self] at wrote
        cases wrote
      · simp only [Function.update_of_ne new] at wrote ⊢
        rw [view t]
        exact inv.written t (older alive new) a value wrote

theorem ThreadsStarted.private {s : Threads} (started : ThreadsStarted s) : Private s := by
  have labelled : Labelled s.live s.threadNum s.machine.pageNum s.machine.entry :=
    labelled_of_fresh started.pages started.diskPages started.pageNum started.live started.threadNum
  have only : ∀ {t}, s.live t = true → t = 1 := fun alive => by
    rw [started.live] at alive
    exact of_decide_eq_true alive
  have none : ∀ {t}, s.live t = true → s.machine.pageNum t = 0 := fun alive => by
    rw [only alive, started.pageNum]
  refine ⟨⟨labelled, ?_, fun u alive => ?_, fun i _ _ used => ?_, fun i _ _ _ u alive => ?_⟩,
    fun t alive => ⟨[], Or.inl ⟨none alive, rfl⟩, fun p n => ?_⟩, fun t _ a value wrote => ?_⟩
  · rw [started.live, started.thread]
    decide
  · rw [none alive]
    exact Nat.zero_le _
  · rw [started.pages] at used
    exact absurd used (by decide)
  · rw [none alive]
    exact Nat.zero_le _
  · rw [started.allocs]
    exact ⟨fun member => absurd member List.not_mem_nil, fun holds => holds.elim⟩
  · rw [started.written] at wrote
    cases wrote

/-- **The invariant gives private memory.** -/
theorem Private.privateMemory {s : Threads} (inv : Private s) : PrivateMemory s := by
  have running := inv.sheltered.running
  refine ⟨fun k inside reachable owns => ?_, fun address holds value wrote => ?_⟩
  · obtain ⟨place, valid, label⟩ := owns
    have owned := inv.sheltered.labelled.below _ running k place valid label
    exact (inv.sheltered.opened owned reachable).label
  · refine (inv.read holds).mono fun result m shown => ?_
    rw [shown.1]
    exact (inv.written _ running address value wrote).1

/-- **Thread-private memory over whole runs.** -/
theorem memory_private (s : Threads)
    (reached : Reach ThreadsStarted LawfulAndSafe (execStep Threads.next) s) : PrivateMemory s := by
  have inv : Private s :=
    reached.invariant Private (fun _ started => started.private)
      fun _ _ _ inv safe taken => inv.step safe taken
  exact inv.privateMemory

/-- The tables just made, over zeroed memory. -/
def zeroThreads : Threads where
  machine := zeroSystem.machine
  live := zeroSystem.live
  threadNum := zeroSystem.threadNum
  allocs := fun _ => []
  written := fun _ _ => none

theorem zeroThreads_started : ThreadsStarted zeroThreads :=
  ⟨fun _ => rfl, fun _ => rfl, rfl, rfl, rfl, rfl, fun _ => rfl, fun _ _ => rfl⟩

/-- Two threads write at one address, the first reads its value again, and its heap grows. -/
theorem memory_private_twoThreads :
    ∃ s, Reach ThreadsStarted LawfulAndSafe (execStep Threads.next) s ∧
      s.machine.thread = 1 ∧ s.machine.pageNum 1 = 2 ∧ s.written 1 4 = some 7 ∧
      s.written 2 4 = some 9 ∧ PrivateMemory s := by
  have start : Reach ThreadsStarted LawfulAndSafe (execStep Threads.next) zeroThreads :=
    .init zeroThreads_started
  obtain ⟨s, reached, held⟩ := start.exists_of_execAll
    [.allocate 100, .write 4 7, .create, .switch 2, .allocate 50, .write 4 9, .switch 1, .read 4,
      .allocate 5000]
    (fun s => s.machine.thread = 1 ∧ s.machine.pageNum 1 = 2 ∧ s.written 1 4 = some 7 ∧
      s.written 2 4 = some 9) (by decide +kernel)
  obtain ⟨thread, pages, first, second⟩ := of_decide_eq_true held
  exact ⟨s, reached, thread, pages, first, second, memory_private s reached⟩

/-- **Not in every run**: the first thread allocates while its page `0` is in frame `1`. Frame `0` is
then its page `1`, open, and its read returns what the second thread wrote. -/
theorem memory_not_private :
    ∃ s, Reach ThreadsStarted Lawful (execStep Threads.next) s ∧
      s.machine.accessible 0 = true ∧ Labels (s.machine.pages 1) s.machine.thread 0 ∧
      ¬ Labels (s.machine.pages 0) s.machine.thread 0 ∧ s.Holds 4 ∧
      s.written s.machine.thread 4 = some 7 ∧ (readByte 4 s.machine).map Prod.fst = some 9 ∧
      ¬ PrivateMemory s := by
  have start : Reach ThreadsStarted Lawful (execStep Threads.next) zeroThreads :=
    .init zeroThreads_started
  obtain ⟨s, reached, held⟩ := start.exists_of_execAll
    [.allocate 100, .write 4 7, .create, .switch 2, .allocate 100, .write 4 9, .switch 1,
      .allocate 50]
    (fun s => s.machine.accessible 0 = true ∧ Labels (s.machine.pages 1) s.machine.thread 0 ∧
      ¬ Labels (s.machine.pages 0) s.machine.thread 0 ∧ s.Holds 4 ∧
      s.written s.machine.thread 4 = some 7 ∧
      (readByte 4 s.machine).map Prod.fst = some 9) (by decide +kernel)
  obtain ⟨reachable, owned, other, holds, wrote, read⟩ := of_decide_eq_true held
  refine ⟨s, reached, reachable, owned, other, holds, wrote, read, fun memory => ?_⟩
  have zero : 0 < USER_PAGES := by decide
  have one : 1 < USER_PAGES := by decide
  exact other (memory.home 0 zero reachable ⟨.frame 1, one, owned⟩)

end OS2017.Paging
