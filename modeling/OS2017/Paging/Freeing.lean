/-
**What `free` does.**

The running thread's accesses to `memory` are accesses to the library heap, which is plain memory, or
to its view. `free` releases the block of a pointer in the thread's pages if the first frame with the
thread's id is frame `0` when the header has been fetched: the walk starts `16384` bytes further for
each frame it is behind (`free_user`). It releases the block of a pointer in the library heap if there
is no frame with the thread's id at all (`free_early`).
-/

import OS2017.Paging.Private
import OS2017.Paging.Space

namespace OS2017.Paging

open OS2017.Bytes OS2017.Heap OS2017.FirstFit OS2017.Run

/-! ### Accesses to `memory` -/

/-- Below user space a store changes the library's bytes only. -/
theorem pokeWord_library (p : Process) {a : Nat} (inside : a + 4 ≤ LIBRARY_BYTES) (w : BitVec 32) :
    p.pokeWord a w = { p with library := writeWord p.library a w } := by
  unfold Process.pokeWord Process.poke
  rw [writeWord_eq_update]
  simp only [if_pos (show a + 3 < LIBRARY_BYTES by omega), if_pos (show a + 2 < LIBRARY_BYTES by omega),
    if_pos (show a + 1 < LIBRARY_BYTES by omega), if_pos (show a < LIBRARY_BYTES by omega)]

theorem readWord_library (p : Process) {a : Nat} (inside : a + 4 ≤ LIBRARY_BYTES) :
    readWord p.memory a = readWord p.library a :=
  readWord_congr fun b _ below => if_pos (by omega)

/-- The process differs in the library's bytes only. -/
def SameUser (p q : Process) : Prop := q = { p with library := q.library }

/-- **The library heap is plain memory.** -/
theorem space_library (p : Process) :
    Backed space (SameUser p) (·.library) LIBRARY_BYTES := by
  have reached : ∀ {q : Process} {a}, a + 4 ≤ LIBRARY_BYTES → reach a q = some ((), q) := by
    intro q a inside
    rw [reach, if_pos (by omega)]
    rfl
  refine ⟨fun q a same inside => ?_, fun q a w same inside => ?_⟩
  · refine Returns.bind ⟨(), q, reached inside, ?_⟩
    exact ⟨_, q, rfl, readWord_library q inside, same, rfl⟩
  · refine Returns.bind ⟨(), q, reached inside, ?_⟩
    refine ⟨(), q.pokeWord a w, rfl, ?_, ?_⟩
    · unfold SameUser
      rw [pokeWord_library q inside w, same]
    · rw [pokeWord_library q inside w]

section User

variable {live : Nat → Bool} {threadNum t : Nat} {pageNum : Nat → Nat} {others : Nat → Memory}

/-- What a thread sees of `memory`. -/
def Process.view (p : Process) (t : Nat) : Memory := fun a =>
  if a < LIBRARY_BYTES then p.library a else p.machine.view t (a - LIBRARY_BYTES)

/-- **A byte in an own, open page, or in the library.** -/
theorem view_poke {p : Process} {a : Nat} (sheltered : Sheltered live threadNum p.machine)
    (opened : LIBRARY_BYTES ≤ a → (a - LIBRARY_BYTES) / PAGESIZE < USER_PAGES ∧
      Open p.machine ((a - LIBRARY_BYTES) / PAGESIZE)) (value : BitVec 8) :
    (p.poke a value).view p.machine.thread = Function.update (p.view p.machine.thread) a value ∧
    (∀ u, live u = true → u ≠ p.machine.thread →
      (p.poke a value).machine.view u = p.machine.view u) ∧
    (p.poke a value).machine = { p.machine with frames := (p.poke a value).machine.frames } ∧
    (p.poke a value).scheduled = p.scheduled := by
  have running := sheltered.running
  unfold Process.poke
  by_cases library : a < LIBRARY_BYTES
  · rw [if_pos library]
    refine ⟨?_, fun _ _ _ => rfl, rfl, rfl⟩
    funext b
    unfold Process.view
    by_cases same : b = a
    · rw [same, Function.update_self, if_pos library]
      exact Function.update_self _ _ _
    · rw [Function.update_of_ne same]
      split
      · exact Function.update_of_ne same _ _
      · rfl
  · rw [if_neg library]
    obtain ⟨inside, opened⟩ := opened (by omega)
    refine ⟨?_, fun u alive other => ?_, rfl, rfl⟩
    · funext b
      unfold Process.view
      simp only [view_write sheltered running inside opened value, if_true]
      by_cases same : b = a
      · rw [same, Function.update_self, if_neg library, Function.update_self]
      · rw [Function.update_of_ne same]
        split
        · rfl
        · exact Function.update_of_ne (by omega) _ _
    · simp only [view_write sheltered alive inside opened value, if_neg other]

/-- The process serves a thread. -/
def Serves (live : Nat → Bool) (threadNum t : Nat) (pageNum : Nat → Nat) (others : Nat → Memory)
    (p : Process) : Prop :=
  Serving live threadNum t pageNum others False p.machine ∧ p.scheduled = true

theorem Serves.poke {p : Process} {a : Nat} (serves : Serves live threadNum t pageNum others p)
    (opened : LIBRARY_BYTES ≤ a → (a - LIBRARY_BYTES) / PAGESIZE < USER_PAGES ∧
      Open p.machine ((a - LIBRARY_BYTES) / PAGESIZE)) (value : BitVec 8) :
    Serves live threadNum t pageNum others (p.poke a value) ∧
      (p.poke a value).view t = Function.update (p.view t) a value ∧
      ∀ j, Open p.machine j → Open (p.poke a value).machine j := by
  obtain ⟨⟨sheltered, rfl, pages, same, _⟩, scheduled⟩ := serves
  obtain ⟨view, elsewhere, machine, flag⟩ := view_poke sheltered opened value
  refine ⟨⟨⟨?_, by rw [machine], by rw [machine]; exact pages, fun u alive other => ?_, False.elim⟩,
    flag.trans scheduled⟩, view, fun j open' => ?_⟩
  · rw [machine]
    exact ⟨sheltered.labelled, sheltered.running, sheltered.bounded, sheltered.home, sheltered.spare⟩
  · rw [elsewhere u alive other]
    exact same u alive other
  · rw [machine]
    exact ⟨open'.reachable, open'.label⟩

/-- **The running thread's accesses to `memory`**, in the library or in its pages. -/
theorem space_backed (live : Nat → Bool) (threadNum t : Nat) (pageNum : Nat → Nat)
    (others : Nat → Memory) :
    Backed space (Serves live threadNum t pageNum others) (·.view t)
      (LIBRARY_BYTES + pageNum t * PAGESIZE) := by
  -- behind `reach` the frames of the word are open
  have reached : ∀ {p : Process} {a}, Serves live threadNum t pageNum others p →
      a + 4 ≤ LIBRARY_BYTES + pageNum t * PAGESIZE →
      Returns (reach a) p fun _ q => Serves live threadNum t pageNum others q ∧ q.view t = p.view t ∧
        ∀ c, a ≤ c → c < a + 4 → LIBRARY_BYTES ≤ c →
          (c - LIBRARY_BYTES) / PAGESIZE < USER_PAGES ∧
          Open q.machine ((c - LIBRARY_BYTES) / PAGESIZE) := by
    intro p a serves within
    obtain ⟨serving, scheduled⟩ := serves
    unfold reach
    by_cases library : a + 3 < LIBRARY_BYTES
    · rw [if_pos library]
      exact Returns.pure ⟨⟨serving, scheduled⟩, rfl, fun c _ _ _ => by omega⟩
    · rw [if_neg library]
      have last : (a + 3 - LIBRARY_BYTES) / PAGESIZE < p.machine.pageNum p.machine.thread := by
        rw [serving.pageNum, serving.thread]
        unfold PAGESIZE at within ⊢
        omega
      have first : (a - LIBRARY_BYTES) / PAGESIZE < p.machine.pageNum p.machine.thread :=
        lt_of_le_of_lt (Nat.div_le_div_right (by omega)) last
      obtain ⟨_, m, ran, settled, openFirst, openLast⟩ :=
        touchBoth_settles serving.sheltered first last
      obtain ⟨serving', same⟩ := serving.settle settled
      refine ⟨(), { p with machine := m }, by rw [onMachine, ran]; rfl, ⟨serving', scheduled⟩, ?_,
        fun c low high user => ?_⟩
      · funext b
        unfold Process.view
        simp only [same]
      · have either : (c - LIBRARY_BYTES) / PAGESIZE = (a - LIBRARY_BYTES) / PAGESIZE ∨
            (c - LIBRARY_BYTES) / PAGESIZE = (a + 3 - LIBRARY_BYTES) / PAGESIZE := by
          unfold PAGESIZE
          omega
        have bounded := serving.sheltered.bounded _ serving.sheltered.running
        rcases either with equal | equal
        · rw [equal]
          exact ⟨lt_of_lt_of_le first bounded, openFirst⟩
        · rw [equal]
          exact ⟨lt_of_lt_of_le last bounded, openLast⟩
  refine ⟨fun p a serves within => ?_, fun p a w serves within => ?_⟩
  · refine Returns.bind ((reached serves within).mono ?_)
    rintro _ q ⟨serves', same, opened⟩
    refine ⟨_, q, rfl, ?_, serves', same⟩
    rw [← same]
    refine readWord_congr fun c low high => ?_
    unfold Process.memory Process.view
    by_cases library : c < LIBRARY_BYTES
    · rw [if_pos library, if_pos library]
    · rw [if_neg library, if_neg library]
      obtain ⟨inside, open'⟩ := opened c low high (by omega)
      rw [← view_of_open serves'.1.sheltered inside open', serves'.1.thread]
  · refine Returns.bind ((reached serves within).mono ?_)
    rintro _ q ⟨serves', same, opened⟩
    refine ⟨(), q.pokeWord a w, rfl, ?_⟩
    unfold Process.pokeWord
    obtain ⟨serves₃, view₃, open₃⟩ :=
      serves'.poke (opened (a + 3) (by omega) (by omega)) (w.extractLsb' 24 8)
    obtain ⟨serves₂, view₂, open₂⟩ := serves₃.poke (fun user =>
      ⟨(opened (a + 2) (by omega) (by omega) user).1,
        open₃ _ (opened (a + 2) (by omega) (by omega) user).2⟩) (w.extractLsb' 16 8)
    obtain ⟨serves₁, view₁, open₁⟩ := serves₂.poke (fun user =>
      ⟨(opened (a + 1) (by omega) (by omega) user).1,
        open₂ _ (open₃ _ (opened (a + 1) (by omega) (by omega) user).2)⟩) (w.extractLsb' 8 8)
    obtain ⟨serves₀, view₀, _⟩ := serves₁.poke (fun user =>
      ⟨(opened a (by omega) (by omega) user).1,
        open₁ _ (open₂ _ (open₃ _ (opened a (by omega) (by omega) user).2))⟩) (w.extractLsb' 0 8)
    refine ⟨serves₀, ?_⟩
    show Process.view _ t = _
    rw [view₀, view₁, view₂, view₃, writeWord_eq_update, same]

end User

/-! ### Timer and tables -/

section Free

variable {live : Nat → Bool} {threadNum t : Nat} {pageNum : Nat → Nat} {others : Nat → Memory}

theorem firstFrame_eq_zero {m : Machine} {id : Nat} (mine : (getPageThID (m.pages 0)).toNat = id) :
    firstFrame m id = some 0 := by
  unfold firstFrame
  rw [List.find?_range_eq_some]
  refine ⟨decide_eq_true mine, List.mem_range.mpr (by decide), fun j before => ?_⟩
  exact absurd before (Nat.not_lt_zero _)

theorem findPage_eq_zero {m : Machine} {id : Nat} (none : firstFrame m id = none) :
    findPage m id = 0 := by
  unfold findPage
  rw [none]

/-- Stopping the timer changes nothing else. -/
theorem pauseTimer_run (p : Process) :
    ∃ timer, pauseTimer p = some ((), { p with machine := { p.machine with timer := timer } }) := by
  unfold pauseTimer
  rw [look_run]
  by_cases scheduled : p.scheduled = true
  · rw [if_pos scheduled]
    exact ⟨_, rfl⟩
  · rw [if_neg scheduled]
    exact ⟨p.machine.timer, rfl⟩

theorem unpauseTimer_run (p : Process) :
    ∃ timer, unpauseTimer p = some ((), { p with machine := { p.machine with timer := timer } }) := by
  unfold unpauseTimer
  rw [look_run]
  by_cases scheduled : p.scheduled = true
  · rw [if_pos scheduled]
    exact ⟨_, rfl⟩
  · rw [if_neg scheduled]
    exact ⟨p.machine.timer, rfl⟩

theorem Serves.timer {p : Process} (serves : Serves live threadNum t pageNum others p)
    (timer : Timer) :
    Serves live threadNum t pageNum others { p with machine := { p.machine with timer := timer } } ∧
      Process.view { p with machine := { p.machine with timer := timer } } t = p.view t := by
  obtain ⟨serving', same⟩ := serves.1.settle (settled_timer serves.1.sheltered timer)
  refine ⟨⟨serving', serves.2⟩, ?_⟩
  funext a
  unfold Process.view
  simp only [same]

/-! ### A pointer into the pages -/

/-- The first access of `free`, to the header of the block. -/
def fetchHeader (ptr : Nat) : StateT Process Option (BitVec 32) := do
  pauseTimer
  space.load (ptr - BLOCK_SIZE)

/-- **The walk of `free` starts at frame `0`**: the frame is the running thread's when the header has
been fetched. -/
def StartsHome (p : Process) (ptr : Nat) : Prop :=
  inMemSpace ptr ∧ (fetchHeader ptr p).all fun (_, q) =>
    (getPageThID (q.machine.pages 0)).toNat = p.machine.thread

instance (p : Process) (ptr : Nat) : Decidable (StartsHome p ptr) := by
  unfold StartsHome
  infer_instance

/-- **What `free` does to a pointer in the pages of the running thread.** -/
theorem free_user {p : Process} {ptr n : Nat} {blocks : List Block}
    (serves : Serves live threadNum t pageNum others p)
    (tiled : Tiled (p.machine.view t) (pageNum t * PAGESIZE) blocks)
    (holds : Holds BLOCK_SIZE 0 blocks ptr n) (home : StartsHome p (LIBRARY_BYTES + ptr)) :
    Returns (free space ((LIBRARY_BYTES + ptr : Nat) : Int)) p fun report q => report = .freed ∧
      Serves live threadNum t pageNum others q ∧ (∀ c < LIBRARY_BYTES, q.library c = p.library c) ∧
      ∃ blocks', release BLOCK_SIZE (ptr - BLOCK_SIZE) 0 blocks = some blocks' ∧
        Tiled (q.machine.view t) (pageNum t * PAGESIZE) blocks' ∧
        ∀ c, Spared 0 blocks c → q.machine.view t c = p.machine.view t c := by
  have four : BLOCK_SIZE = 4 := rfl
  have bounds := tiled.bounds holds
  have bytes := user_bytes
  have bounded : pageNum t * PAGESIZE ≤ USER_PAGES * PAGESIZE :=
    Nat.mul_le_mul_right _ serves.1.bounded
  have alive : live t = true := serves.1.thread ▸ serves.1.sheltered.running
  have running : 0 < t := (serves.1.sheltered.labelled.ids t alive).1
  have atHeader : Holds BLOCK_SIZE 0 blocks (ptr - BLOCK_SIZE + BLOCK_SIZE) n := by
    rw [Nat.sub_add_cancel bounds.1]
    exact holds
  obtain ⟨blocks', released⟩ := Option.isSome_iff_exists.mp (release_isSome (by decide) atHeader)
  obtain ⟨more, header⟩ := tiled.chain.header_of_holds holds
  have shift : ∀ c, p.view t (LIBRARY_BYTES + c) = p.machine.view t c := by
    intro c
    unfold Process.view
    rw [if_neg (by omega), Nat.add_sub_cancel_left]
  have block : LIBRARY_BYTES + ptr - BLOCK_SIZE = LIBRARY_BYTES + (ptr - BLOCK_SIZE) := by omega
  have chain : Chain (p.view t) false (LIBRARY_BYTES + 0) blocks := (chain_shift shift).mpr tiled.chain
  have word : readWord (p.view t) (LIBRARY_BYTES + (ptr - BLOCK_SIZE))
      = readWord (p.machine.view t) (ptr - BLOCK_SIZE) := readWord_shift shift _
  have extent := tiled.extent
  have backed := space_backed live threadNum t pageNum others
  unfold free
  obtain ⟨timer, paused⟩ := pauseTimer_run p
  obtain ⟨serves₁, view₁⟩ := serves.timer timer
  obtain ⟨inside, fetched⟩ := home
  refine Returns.bind ⟨(), _, paused, ?_⟩
  set p₁ : Process := { p with machine := { p.machine with timer := timer } }
  rw [if_pos inside, if_neg (by omega)]
  simp only [Int.toNat_natCast]
  -- the header is fetched
  obtain ⟨w, p₂, loaded, wordEq, serves₂, same₂⟩ := backed.load p₁
    (LIBRARY_BYTES + ptr - BLOCK_SIZE) serves₁ (by omega)
  have view₂ : p₂.view t = p.view t := Eq.trans same₂ view₁
  have mine : (getPageThID (p₂.machine.pages 0)).toNat = t := by
    have run : fetchHeader (LIBRARY_BYTES + ptr) p = some (w, p₂) := by
      show (pauseTimer p).bind _ = _
      rw [paused]
      exact loaded
    rw [run] at fetched
    have label := of_decide_eq_true fetched
    rw [label, serves.1.thread]
  refine Returns.bind ⟨w, p₂, loaded, ?_⟩
  have headerWord : Header w ⟨n, false⟩ more := by
    have shown : w = readWord (p.view t) (LIBRARY_BYTES + ptr - BLOCK_SIZE) := by
      rw [wordEq]
      exact congrArg (readWord · _) view₁
    rw [shown, block, word]
    exact header
  show Returns (if getBlockIsF w = 1 then _ else _) p₂ _
  rw [if_neg (by rw [headerWord.isF, flag_eq_one]; simp)]
  -- the frame found is frame 0
  have caller : p₂.caller = t := by
    unfold Process.caller
    rw [serves₂.2, if_pos rfl, serves₂.1.thread]
  have page : findPage p₂.machine p₂.caller = p₂.machine.pages 0 := by
    unfold findPage
    rw [caller, firstFrame_eq_zero mine]
  have used : p₂.machine.pages 0 ≠ 0 := by
    intro zero
    rw [zero] at mine
    have : (getPageThID 0).toNat = 0 := by decide
    omega
  refine Returns.look_bind ?_
  rw [page, if_neg used]
  unfold freeAndMerge
  refine Returns.bind (Returns.look_bind ?_)
  rw [mine, firstFrame_eq_zero mine]
  show Returns (freeAndMergeLoop space _ walkFuel none (LIBRARY_BYTES + 4 * (0 * PAGESIZE))) p₂ _
  rw [block, Nat.zero_mul, Nat.mul_zero]
  have small : LIBRARY_BYTES + pageNum t * PAGESIZE ≤ 2 ^ 24 := by
    have max : MAX_MEMORY = 8388608 := rfl
    omega
  have shows : Shows (Serves live threadNum t pageNum others) (·.view t) (p.view t) p₂ :=
    ⟨serves₂, view₂⟩
  refine (freeAndMergeLoop_spec backed shows chain
    (by simp only [extentOf] at extent ⊢; omega) (by simp only [extentOf] at extent ⊢; omega) ?_
    (by rw [release_shift]; exact released)).mono ?_
  · refine le_trans tiled.length_le ?_
    unfold walkFuel
    omega
  · rintro found p₃ ⟨rfl, v, ⟨serves₃, shown₃⟩, chain₃, same₃⟩
    have view₃ : p₃.view t = v := shown₃
    obtain ⟨timer', restarted⟩ := unpauseTimer_run p₃
    refine Returns.bind ⟨(), _, restarted, Returns.pure ⟨rfl, ?_⟩⟩
    obtain ⟨serves₄, view₄⟩ := serves₃.timer timer'
    have shift₃ : ∀ c, v (LIBRARY_BYTES + c) = Machine.view { p₃.machine with timer := timer' } t c := by
      intro c
      rw [← view₃, ← view₄]
      unfold Process.view
      rw [if_neg (by omega), Nat.add_sub_cancel_left]
    refine ⟨serves₄, fun c below => ?_, blocks', released, ⟨release_ne_nil (by decide) released,
      (chain_shift shift₃).mp chain₃, (release_span released).trans tiled.extent,
      (release_merged released tiled.merged).1⟩, fun c spared => ?_⟩
    · have kept : p₃.view t c = p.view t c := by
        rw [view₃]
        exact same₃ c (Or.inl (by omega))
      unfold Process.view at kept
      rwa [if_pos below, if_pos below] at kept
    · rw [← shift₃, ← shift]
      refine same₃ _ ?_
      rcases spared with before | behind | ⟨q, k, held, low, high⟩
      · exact absurd before (Nat.not_lt_zero _)
      · exact Or.inr (Or.inl (by omega))
      · exact Or.inr (Or.inr ⟨LIBRARY_BYTES + q, k, holds_shift.mpr held, by omega, by omega⟩)

end Free

/-! ### The library heap -/

section Library

variable {p : Process} {blocks : List Block}

/-- Only the library's bytes and the timer have changed. -/
def LibraryOnly (p q : Process) : Prop :=
  q = { p with library := q.library, machine := { p.machine with timer := q.machine.timer } }

/-- **A call on the library heap**, between the stop and the restart of the timer. -/
theorem libraryCall {α : Type} (program : StateT Process Option α) (post : α → Memory → Prop)
    (spec : ∀ q : Process, q.library = p.library → Returns program q fun a q' =>
      SameUser q q' ∧ post a q'.library) :
    Returns (do
      pauseTimer
      let a ← program
      unpauseTimer
      return a : StateT Process Option α) p fun a q => LibraryOnly p q ∧ post a q.library := by
  obtain ⟨timer, paused⟩ := pauseTimer_run p
  refine Returns.bind ⟨(), _, paused, ?_⟩
  refine Returns.bind ((spec { p with machine := { p.machine with timer := timer } } rfl).mono ?_)
  rintro a q ⟨same, holds⟩
  obtain ⟨timer', restarted⟩ := unpauseTimer_run q
  refine Returns.bind ⟨(), _, restarted, Returns.pure ⟨?_, holds⟩⟩
  unfold LibraryOnly
  rw [same]

/-- **The taken blocks after an allocation**: those from before, and a new one if there is a result. -/
structure Granted (blocks blocks' : List Block) (size : Nat) (result : Option Nat) : Prop where
  holds : ∀ a n, Holds BLOCK_SIZE 0 blocks' a n ↔
    Holds BLOCK_SIZE 0 blocks a n ∨ (result = some a ∧ n = size)
  fresh : ∀ a, result = some a → ∀ n, ¬ Holds BLOCK_SIZE 0 blocks a n

/-- **`myallocate` with `LIBRARYREQ`.** -/
theorem mallocLibrary_spec (tiled : Tiled p.library LIBRARY_BYTES blocks) (size : Nat) :
    Returns (mallocLibrary space size) p fun result q => LibraryOnly p q ∧
      ∃ blocks', Tiled q.library LIBRARY_BYTES blocks' ∧ Granted blocks blocks' size result := by
  refine libraryCall (myallocateLibrary space size)
    (fun result library => ∃ blocks', Tiled library LIBRARY_BYTES blocks' ∧
      Granted blocks blocks' size result) fun q same => ?_
  have shows : Shows (SameUser q) (·.library) p.library q := ⟨rfl, same⟩
  refine (myallocateLibrary_spec (space_library q) (le_refl _) shows tiled).mono ?_
  rintro result q'
    (⟨_, rfl, user, library⟩ | ⟨header, blocks', v, fit, rfl, ⟨user, library⟩, tiled', _⟩)
  · have equal : q'.library = p.library := library
    refine ⟨user, blocks, ?_, fun _ _ => by simp, fun _ some => by cases some⟩
    rw [equal]
    exact tiled
  · have equal : q'.library = v := library
    refine ⟨user, blocks', ?_, fun a n => ?_, fun a same n => ?_⟩
    · rw [equal]
      exact tiled'
    · rw [firstFit_holds fit, Option.some_inj]
      exact or_congr_right (and_congr_left fun _ => eq_comm)
    · rw [← Option.some.inj same]
      exact firstFit_fresh (by decide) fit

/-- **`mydeallocate` with `LIBRARYREQ`** of a taken block. -/
theorem freeLibrary_spec (tiled : Tiled p.library LIBRARY_BYTES blocks) {ptr n : Nat}
    (holds : Holds BLOCK_SIZE 0 blocks ptr n) :
    Returns (freeLibrary space (ptr : Int)) p fun report q => LibraryOnly p q ∧ report = .freed ∧
      ∃ blocks', release BLOCK_SIZE (ptr - BLOCK_SIZE) 0 blocks = some blocks' ∧
        Tiled q.library LIBRARY_BYTES blocks' := by
  refine libraryCall (mydeallocateLibrary space (ptr : Int))
    (fun report library => report = .freed ∧ ∃ blocks',
      release BLOCK_SIZE (ptr - BLOCK_SIZE) 0 blocks = some blocks' ∧
        Tiled library LIBRARY_BYTES blocks') fun q same => ?_
  have shows : Shows (SameUser q) (·.library) p.library q := ⟨rfl, same⟩
  refine (mydeallocateLibrary_spec (space_library q) (le_refl _) shows tiled holds).mono ?_
  rintro report q' ⟨rfl, blocks', v, released, ⟨user, library⟩, tiled', _⟩
  have equal : q'.library = v := library
  refine ⟨user, rfl, blocks', released, ?_⟩
  rw [equal]
  exact tiled'

/-- **What `free` does to a pointer in the library heap**, if no frame has the caller's id. -/
theorem free_early (tiled : Tiled p.library LIBRARY_BYTES blocks) {ptr n : Nat}
    (holds : Holds BLOCK_SIZE 0 blocks ptr n) (none : firstFrame p.machine p.caller = none) :
    Returns (free space (ptr : Int)) p fun report q => LibraryOnly p q ∧ report = .freed ∧
      ∃ blocks', release BLOCK_SIZE (ptr - BLOCK_SIZE) 0 blocks = some blocks' ∧
        Tiled q.library LIBRARY_BYTES blocks' := by
  have four : BLOCK_SIZE = 4 := rfl
  have bounds := tiled.bounds holds
  have libraryBytes : LIBRARY_BYTES = 819200 := rfl
  have max : MAX_MEMORY = 8388608 := rfl
  obtain ⟨more, header⟩ := tiled.chain.header_of_holds holds
  have inside : inMemSpace (ptr : Int) := ⟨by omega, by omega⟩
  unfold free
  obtain ⟨timer, paused⟩ := pauseTimer_run p
  refine Returns.bind ⟨(), _, paused, ?_⟩
  set p₁ : Process := { p with machine := { p.machine with timer := timer } }
  rw [if_pos inside, if_neg (by omega)]
  simp only [Int.toNat_natCast]
  have shows : Shows (SameUser p₁) (·.library) p.library p₁ := ⟨rfl, rfl⟩
  refine (space_library p₁).load_bind shows (by omega) fun p₂ shows₂ => ?_
  obtain ⟨user, shown⟩ := shows₂
  have library : p₂.library = p.library := shown
  rw [if_neg (by rw [header.isF, flag_eq_one]; simp)]
  have page : findPage p₂.machine p₂.caller = 0 := by
    have machine : p₂.machine = p₁.machine := by rw [user]
    have scheduled : p₂.scheduled = p.scheduled := by rw [user]
    refine findPage_eq_zero ?_
    unfold Process.caller firstFrame at none ⊢
    rw [machine, scheduled]
    exact none
  refine Returns.look_bind ?_
  rw [if_pos page]
  obtain ⟨timer', restarted⟩ := unpauseTimer_run p₂
  refine Returns.bind ⟨(), _, restarted, ?_⟩
  have tiled₂ : Tiled p₂.library LIBRARY_BYTES blocks := library.symm ▸ tiled
  refine (freeLibrary_spec (p := { p₂ with machine := { p₂.machine with timer := timer' } }) tiled₂
    holds).mono ?_
  rintro report q ⟨only, rest⟩
  refine ⟨?_, rest⟩
  unfold LibraryOnly at only ⊢
  rw [only, user]

end Library

end OS2017.Paging
