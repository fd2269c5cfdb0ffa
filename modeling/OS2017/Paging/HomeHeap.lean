/-
**The heap of a thread at home.**

`myallocate` with `THREADREQ`, for a thread whose pages are at home. `Laid` is a heap as the blocks
tile it, with no rule about neighbours. The call comes to a search of the blocks the thread has, or
of its first page (`myallocate_home`); behind a search that finds nothing the heap grows, or the call
is refused (`growHeap_home`). On an ample machine the calls return (`Ample.growHeap_free`,
`Ample.growHeap_taken`).
-/

import OS2017.Paging.Home
import OS2017.Paging.Allocate

namespace OS2017.Paging

open OS2017.Bytes OS2017.Heap OS2017.FirstFit

/-- **The blocks tile the first `bytes` bytes.** -/
structure Laid (v : Memory) (bytes : Nat) (blocks : List Block) : Prop where
  nonempty : blocks ≠ []
  chain : Chain v false 0 blocks
  extent : extentOf blocks = bytes

/-- The thread `t` at home, with these page counts. -/
def HomeOf (t : Nat) (pageNum : Nat → Nat) (m : Machine) : Prop :=
  AtHome m ∧ m.thread = t ∧ m.pageNum = pageNum

section Growing

variable {m m' : Machine} {t : Nat} {pageNum : Nat → Nat}

theorem HomeOf.of_same (home : HomeOf t pageNum m) (same : SameTables m m') : HomeOf t pageNum m' :=
  ⟨home.1.of_same same, same.thread.trans home.2.1, same.pageNum.trans home.2.2⟩

/-- A page for a thread at home. -/
theorem AtHome.grow (home : AtHome m) {index : Nat} {freed : Bool} {m₁ : Machine}
    (next : index = m.pageNum m.thread) (enough : 0 < freeCount m)
    (room : Paging.makeRoom index m = some (freed, m₁)) : freed = true ∧ index < USER_PAGES ∧
      ∀ m', initializePage index m₁ = some ((), m') → GrownHome m m' := by
  obtain ⟨inside, ⟨rfl, q, roomy⟩ | ⟨_, none, _⟩⟩ := home.makeRoom next room
  · exact ⟨rfl, inside, fun m' new => roomy.grows_home home inside next
      ((initializePage_spec m₁ inside).of_run new)⟩
  · omega

/-- **The frames grow with the pages of a thread at home.** -/
theorem growing_home (t : Nat) : Growing t (HomeOf t) (·.frames) where
  thread home := home.2.1
  pageNum home := home.2.2
  bounded := by
    rintro _ m ⟨home, rfl, rfl⟩
    exact home.bounded
  backed pageNum := by
    refine ⟨fun s a home within => ?_, fun s a w home within => ?_⟩
    · obtain ⟨atHome, rfl, rfl⟩ := home
      refine ((paged_home atHome).load s a rfl within).mono ?_
      rintro w s' ⟨value, around, frames⟩
      exact ⟨value, HomeOf.of_same ⟨atHome, rfl, rfl⟩ around.tables, frames⟩
    · obtain ⟨atHome, rfl, rfl⟩ := home
      refine ((paged_home atHome).store s a w rfl within).mono ?_
      rintro _ s' ⟨around, frames⟩
      exact ⟨HomeOf.of_same ⟨atHome, rfl, rfl⟩ around.tables, frames⟩
  grow := by
    rintro _ m index freed m₁ ⟨home, rfl, rfl⟩ next enough room
    obtain ⟨freed, inside, grown⟩ := home.grow next enough room
    refine ⟨freed, inside, fun m' new => ?_⟩
    have new' := grown m' new
    exact ⟨⟨new'.home, new'.thread, new'.pageNum⟩, new'.frames, new'.freeCount⟩

end Growing

/-! ### The growth -/

/-- The blocks before the one that grows. -/
def grownFront (front : List Block) (last : Block) : List Block :=
  if last.free then front else front ++ [last]

/-- The size it grows to, by `pages` pages. -/
def grownSize (last : Block) (pages : Nat) : Nat :=
  if last.free then last.size + pages * PAGESIZE else pages * PAGESIZE - BLOCK_SIZE

section Grow

variable {m m' : Machine} {front : List Block} {last : Block} {size : Nat} {result : Option Nat}

theorem Around.resting (around : Around m m') (frames : m'.frames = m.frames) : Resting m m' := by
  unfold Resting
  rw [around, frames]

/-- The last block of a heap, in memory. -/
theorem Laid.ends {bytes : Nat} {v : Memory} (laid : Laid v bytes (front ++ [last])) :
    Header (readWord v (extentOf front)) last false ∧
      extentOf front + BLOCK_SIZE + last.size = bytes := by
  obtain ⟨_, header, _⟩ := chain_append.mp laid.chain
  rw [Nat.zero_add] at header
  have whole := laid.extent
  simp only [extentOf, span_append, span] at whole
  exact ⟨header, by simp only [extentOf]; omega⟩

/-- **The pages of the growth**, and the free block they make. -/
structure GrownHeap (m s : Machine) (pages : Nat) (front : List Block) (last : Block) : Prop where
  home : AtHome s
  thread : s.thread = m.thread
  pageNum : s.pageNum = Function.update m.pageNum m.thread (m.pageNum m.thread + pages)
  laid : Laid s.frames ((m.pageNum m.thread + pages) * PAGESIZE)
    (grownFront front last ++ [⟨grownSize last pages, true⟩])

/-- Pages that were given after frames were opened. -/
theorem GrownHeap.of_resting {s : Machine} {pages : Nat} (resting : Resting m m')
    (grown : GrownHeap m' s pages front last) : GrownHeap m s pages front last := by
  obtain ⟨home, thread, pageNum, laid⟩ := grown
  rw [resting.tables.pageNum, resting.tables.thread] at pageNum laid
  exact ⟨home, thread.trans resting.tables.thread, pageNum, laid⟩

/-- A free last block gets pages. -/
theorem grownHeap_free {pages : Nat} (home : AtHome m)
    (laid : Laid m.frames (m.pageNum m.thread * PAGESIZE) (front ++ [last]))
    (isFree : last.free = true) (enough : pages ≤ freeCount m)
    (ran : gatherPages swapping (extentOf front) pages m = some ((), m')) :
    GrownHeap m m' pages front last := by
  obtain ⟨header, ends⟩ := laid.ends
  have four : BLOCK_SIZE = 4 := rfl
  obtain ⟨⟨home', thread, pageNum⟩, header', same⟩ := gatherPages_grows (growing_home m.thread)
    (⟨home, rfl, rfl⟩ : HomeOf m.thread m.pageNum m) enough header ends ran
  refine ⟨home', thread, pageNum, ?_⟩
  rw [grownFront, if_pos isFree, grownSize, if_pos isFree]
  obtain ⟨frontChain, _⟩ := chain_append.mp laid.chain
  refine ⟨by simp, chain_append.mpr ⟨frontChain.congr fun c _ high => ?_, ?_, trivial⟩, ?_⟩
  · rw [Nat.zero_add] at high
    exact same c (by omega) (Or.inl high)
  · rw [Nat.zero_add]
    rw [isFree] at header'
    exact header'
  · simp only [extentOf, span_append, span] at ends ⊢
    rw [Nat.add_mul]
    omega

/-- A taken last block gets a free one behind it. -/
theorem grownHeap_taken {pages bl : Nat} {m₁ : Machine} (home : AtHome m)
    (laid : Laid m.frames (m.pageNum m.thread * PAGESIZE) (front ++ [last]))
    (taken : last.free = false) (enough : pages + 1 ≤ freeCount m)
    (new : newLastBlock swapping (extentOf front) m = some (some bl, m₁))
    (ran : gatherPages swapping bl pages m₁ = some ((), m')) :
    bl = m.pageNum m.thread * PAGESIZE ∧ GrownHeap m m' (pages + 1) front last := by
  obtain ⟨header, ends⟩ := laid.ends
  have four : BLOCK_SIZE = 4 := rfl
  have page : PAGESIZE = 4096 := rfl
  obtain ⟨equal, home₁, count, header₁, fresh, same₁⟩ := newLastBlock_grows (growing_home m.thread)
    (⟨home, rfl, rfl⟩ : HomeOf m.thread m.pageNum m) (by omega) header ends new
  cases equal
  have extent : (m.pageNum m.thread + 1) * PAGESIZE = m.pageNum m.thread * PAGESIZE + PAGESIZE :=
    Nat.succ_mul _ _
  obtain ⟨home', header', same⟩ := gatherPages_grows (growing_home m.thread) home₁ (by omega) fresh
    (by rw [Function.update_self]; omega) ran
  rw [Function.update_self, Function.update_idem] at home'
  rw [Function.update_self] at same
  obtain ⟨home', thread, pageNum⟩ := home'
  have kept : ∀ c < m.pageNum m.thread * PAGESIZE, m'.frames c = m₁.frames c := fun c below =>
    same c (by omega) (Or.inl below)
  refine ⟨rfl, home', thread, by rw [pageNum, Nat.add_assoc, Nat.add_comm 1 pages], ?_⟩
  rw [grownFront, if_neg (by rw [taken]; decide), grownSize, if_neg (by rw [taken]; decide)]
  obtain ⟨frontChain, _⟩ := chain_append.mp laid.chain
  have size : (pages + 1) * PAGESIZE - BLOCK_SIZE = PAGESIZE - BLOCK_SIZE + pages * PAGESIZE := by
    rw [Nat.succ_mul]
    omega
  refine ⟨by simp, chain_append.mpr ⟨chain_append.mpr ⟨frontChain.congr fun c _ high => ?_, ?_,
    trivial⟩, ?_, trivial⟩, ?_⟩
  · rw [Nat.zero_add] at high
    rw [kept c (by omega)]
    exact same₁ c (by omega) (Or.inl high)
  · rw [Nat.zero_add, readWord_congr fun c _ below => kept c (by omega)]
    exact header₁
  · rw [Nat.zero_add, laid.extent, size]
    exact header'
  · have whole := laid.extent
    simp only [extentOf, span_append, span] at whole ⊢
    rw [size, Nat.add_mul, Nat.succ_mul]
    omega

/-- **The growth of a heap at home**: it is refused and nothing has changed, or the pages are there
and the free block they make is cut in two. -/
theorem growHeap_home (home : AtHome m)
    (laid : Laid m.frames (m.pageNum m.thread * PAGESIZE) (front ++ [last]))
    (ran : growHeap swapping size (extentOf front) m = some (result, m')) :
    (result = none ∧ Resting m m' ∧ (bytesLeft (extentOf front) < sizeWithBlock size ∨
        pagesNeeded last size ≤ 0 ∨ (freeCount m : Int) < pagesNeeded last size)) ∨
      (¬ bytesLeft (extentOf front) < sizeWithBlock size ∧ 0 < pagesNeeded last size ∧
        pagesNeeded last size ≤ freeCount m ∧
        result = some (extentOf (grownFront front last) + BLOCK_SIZE) ∧
        ∃ s s' timer, GrownHeap m s (pagesNeeded last size).toNat front last ∧
          splitBlock paged (extentOf (grownFront front last)) size (sizeWithBlock size) s
            = some ((), s') ∧ m' = { s' with timer := timer }) := by
  obtain ⟨header, ends⟩ := laid.ends
  have four : BLOCK_SIZE = 4 := rfl
  rw [growHeap] at ran
  by_cases short : bytesLeft (extentOf front) < sizeWithBlock size
  · rw [if_pos short] at ran
    cases ran
    exact Or.inl ⟨rfl, rfl, Or.inl short⟩
  · rw [if_neg short] at ran
    obtain ⟨word, m₁, loaded, ran⟩ := run_bind ran
    obtain ⟨value, around, frames⟩ :=
      ((paged_home home).load m (extentOf front) rfl (by omega)).of_run loaded
    have resting : Resting m m₁ := around.resting frames
    have tables := resting.tables
    have count := tables.freeCount
    have headerWord : Header word last false := value ▸ header
    rw [look_run, growthRequest_of_header headerWord] at ran
    have counted : isEnoughPages m₁ (growthRequest last size) =
        if pagesNeeded last size ≤ freeCount m then pagesNeeded last size else 0 := by
      rw [isEnoughPages, count]
      rfl
    rw [counted] at ran
    by_cases enough : pagesNeeded last size ≤ freeCount m
    · rw [if_pos enough] at ran
      by_cases positive : 0 < pagesNeeded last size
      · rw [if_pos positive] at ran
        refine Or.inr ⟨short, positive, enough, ?_⟩
        have home₁ := home.of_same tables
        have laid₁ : Laid m₁.frames (m₁.pageNum m₁.thread * PAGESIZE) (front ++ [last]) := by
          rw [resting.frames, tables.pageCount]
          exact laid
        cases isFree : last.free with
        | true =>
          have none : extraBlock word = 0 := by
            rw [extraBlock, headerWord.isF, isFree]
            rfl
          rw [if_pos none] at ran
          obtain ⟨_, m₂, gathered, ran⟩ := run_bind ran
          obtain ⟨_, m₃, split, ran⟩ := run_bind ran
          have grown := (grownHeap_free home₁ laid₁ isFree (by omega) gathered).of_resting resting
          have address : extentOf (grownFront front last) = extentOf front := by
            rw [grownFront, if_pos isFree]
          cases ran
          rw [address]
          exact ⟨rfl, m₂, m₃, _, grown, split, rfl⟩
        | false =>
          have some : extraBlock word ≠ 0 := by
            rw [extraBlock, headerWord.isF, isFree]
            decide
          rw [if_neg some] at ran
          obtain ⟨block, m₂, new, ran⟩ := run_bind ran
          obtain ⟨n, pages⟩ : ∃ n : Nat, (pagesNeeded last size).toNat = n + 1 :=
            ⟨(pagesNeeded last size).toNat - 1, by omega⟩
          have address := (newLastBlock_grows (growing_home m₁.thread)
            (⟨home₁, rfl, rfl⟩ : HomeOf m₁.thread m₁.pageNum m₁) (by omega) laid₁.ends.1
            laid₁.ends.2 new).1
          subst address
          rw [pages, Nat.add_sub_cancel] at ran
          obtain ⟨_, m₃, gathered, ran⟩ := run_bind ran
          obtain ⟨_, m₄, split, ran⟩ := run_bind ran
          obtain ⟨_, grown⟩ := grownHeap_taken home₁ laid₁ isFree (by omega) new gathered
          have place : extentOf (grownFront front last) = m₁.pageNum m₁.thread * PAGESIZE := by
            rw [grownFront, if_neg (by rw [isFree]; decide), laid₁.extent]
          cases ran
          rw [place, pages]
          exact ⟨rfl, m₃, m₄, _, grown.of_resting resting, split, rfl⟩
      · rw [if_neg positive] at ran
        cases ran
        refine Or.inl ⟨rfl, resting.trans rfl, Or.inr (Or.inl (by omega))⟩
    · rw [if_neg enough, if_neg (by omega)] at ran
      cases ran
      exact Or.inl ⟨rfl, resting.trans rfl, Or.inr (Or.inr (by omega))⟩

end Grow

/-! ### The call -/

/-- **The heap of the running thread, in its frames**: none yet, or blocks that tile them. -/
def HomeHeap (m : Machine) (blocks : List Block) : Prop :=
  (m.pageNum m.thread = 0 ∧ blocks = []) ∨ Laid m.frames (m.pageNum m.thread * PAGESIZE) blocks

/-- The blocks the search starts with: a thread without pages gets one. -/
def searched : List Block → List Block
  | [] => [⟨PAGESIZE - BLOCK_SIZE, true⟩]
  | b :: rest => b :: rest

theorem searched_of_ne {blocks : List Block} (nonempty : blocks ≠ []) : searched blocks = blocks := by
  cases blocks with
  | nil => exact absurd rfl nonempty
  | cons b rest => rfl

/-- **The machine at the search.** -/
structure AtSearch (m s : Machine) (blocks : List Block) : Prop where
  home : AtHome s
  thread : s.thread = m.thread
  laid : Laid s.frames (s.pageNum s.thread * PAGESIZE) (searched blocks)
  before : (blocks ≠ [] ∧ Resting m s) ∨
    (blocks = [] ∧ s.pageNum s.thread = 1 ∧ freeCount s + 1 = freeCount m)

section Call

variable {m m' : Machine} {blocks : List Block} {size : Nat} {result : Option Nat}

theorem Laid.pages_pos {v : Memory} {pages : Nat} (laid : Laid v (pages * PAGESIZE) blocks) :
    0 < pages := by
  rcases Nat.eq_zero_or_pos pages with rfl | positive
  · have extent := laid.extent
    cases blocks with
    | nil => exact absurd rfl laid.nonempty
    | cons b rest =>
      simp only [extentOf, span, BLOCK_SIZE] at extent
      omega
  · exact positive

theorem HomeHeap.of_resting (heap : HomeHeap m blocks) (resting : Resting m m') :
    HomeHeap m' blocks := by
  unfold HomeHeap
  rw [resting.frames, resting.tables.pageCount]
  exact heap

/-- **The first page.** -/
theorem firstPage_home {ready : Bool} (home : AtHome m) (heap : HomeHeap m blocks)
    (ran : firstPage swapping m = some (ready, m')) :
    (ready = false ∧ blocks = [] ∧ freeCount m = 0 ∧ Resting m m') ∨
      (ready = true ∧ AtSearch m m' blocks) := by
  rw [firstPage, look_run, look_run] at ran
  have zero : (0 : Nat) < USER_PAGES := by decide
  rcases heap with ⟨none, rfl⟩ | laid
  · have foreign := home.foreign_next zero none.symm
    rw [if_pos foreign] at ran
    obtain ⟨freed, m₁, room, ran⟩ := run_bind ran
    obtain ⟨_, ⟨rfl, q, roomy⟩ | ⟨rfl, full, resting⟩⟩ := home.makeRoom none.symm room
    · obtain ⟨_, m₂, new, ran⟩ := run_bind ran
      cases ran
      have grown := roomy.grows_home home zero none.symm
        ((initializePage_spec m₁ zero).of_run new)
      have one : m'.pageNum m'.thread = 1 := by
        rw [grown.pageCount, none]
      refine Or.inr ⟨rfl, grown.home, grown.thread, ?_, Or.inr ⟨rfl, one, grown.freeCount⟩⟩
      rw [one]
      exact ⟨by simp [searched], ⟨grown.first none, trivial⟩, by decide⟩
    · cases ran
      exact Or.inl ⟨rfl, rfl, full, resting⟩
  · have mine := (home.labels 0 laid.pages_pos).thID
    rw [if_neg (not_not.mpr mine)] at ran
    cases ran
    refine Or.inr ⟨rfl, home, rfl, ?_, Or.inl ⟨laid.nonempty, rfl⟩⟩
    rw [searched_of_ne laid.nonempty]
    exact laid

/-- **`myallocate` of a thread at home** comes to a search, or has no page to start with. -/
theorem myallocate_home (home : AtHome m) (heap : HomeHeap m blocks)
    (ran : myallocate swapping size m = some (result, m')) :
    (result = none ∧ blocks = [] ∧ freeCount m = 0 ∧ Resting m m') ∨
      ∃ s, AtSearch m s blocks ∧ searchHeap swapping size s = some (result, m') := by
  rw [myallocate, pause_timer, change_run] at ran
  have paused : Resting m { m with timer := ⟨0, m.timer.remaining⟩ } := rfl
  obtain ⟨_, m₁, aligned, ran⟩ := run_bind ran
  have resting : Resting m m₁ :=
    paused.trans ((home.of_same paused.tables).alignPages.of_run aligned)
  obtain ⟨ready, m₂, first, ran⟩ := run_bind ran
  rcases firstPage_home (home.of_same resting.tables) (heap.of_resting resting) first with
    ⟨rfl, empty, full, resting₂⟩ | ⟨rfl, atHome, thread, laid, before⟩
  · cases ran
    refine Or.inl ⟨rfl, empty, ?_, resting.trans resting₂⟩
    rw [← resting.tables.freeCount]
    exact full
  · refine Or.inr ⟨m₂, ⟨atHome, thread.trans resting.tables.thread, laid, ?_⟩, ran⟩
    rw [← resting.tables.freeCount]
    exact before.imp_left (And.imp_right resting.trans)

theorem Laid.length_le {v : Memory} {bytes : Nat} (laid : Laid v bytes blocks) :
    blocks.length ≤ bytes :=
  laid.extent ▸ length_le_span (by decide) blocks

/-- A thread's heap is not larger than a walk. -/
theorem AtHome.walks (home : AtHome m) {v : Memory}
    (laid : Laid v (m.pageNum m.thread * PAGESIZE) blocks) : blocks.length ≤ walkFuel := by
  have bounded := Nat.mul_le_mul_right PAGESIZE home.bounded
  have bytes := user_bytes
  have length := laid.length_le
  unfold walkFuel
  omega

/-- **The search of a heap at home**: first fit, or the growth. -/
theorem searchHeap_home (home : AtHome m)
    (laid : Laid m.frames (m.pageNum m.thread * PAGESIZE) blocks)
    (ran : searchHeap swapping size m = some (result, m')) :
    (∃ header blocks', firstFit BLOCK_SIZE size 0 blocks = some (header, blocks') ∧
        result = some (header + BLOCK_SIZE) ∧ SameTables m m' ∧
        Laid m'.frames (m.pageNum m.thread * PAGESIZE) blocks') ∨
      (firstFit BLOCK_SIZE size 0 blocks = none ∧ ∃ s, Resting m s ∧
        growHeap swapping size (lastBlock 0 blocks) s = some (result, m')) := by
  have inside : 0 + extentOf blocks ≤ m.pageNum m.thread * PAGESIZE := by
    rw [Nat.zero_add, laid.extent]
  have shows : Shows (Around m) (·.frames) m.frames m := ⟨rfl, rfl⟩
  obtain ⟨search, m₁, found, ran⟩ := run_bind ran
  have allocated := (firstFitLoop_spec (paged_home home) laid.nonempty shows laid.chain inside
    (home.walks laid)).of_run found
  cases fit : firstFit BLOCK_SIZE size 0 blocks with
  | none =>
    rw [fit] at allocated
    obtain ⟨rfl, around, frames⟩ := allocated
    exact Or.inr ⟨rfl, m₁, around.resting frames, ran⟩
  | some pair =>
    obtain ⟨header, blocks'⟩ := pair
    rw [fit] at allocated
    obtain ⟨rfl, v, ⟨around, frames⟩, chain, _⟩ := allocated
    have view : m₁.frames = v := frames
    cases ran
    refine Or.inl ⟨header, blocks', rfl, rfl, around.tables.trans ⟨rfl, rfl, rfl, rfl⟩, ?_⟩
    refine ⟨firstFit_ne_nil fit, ?_, (firstFit_span fit).trans laid.extent⟩
    show Chain m₁.frames false 0 blocks'
    rw [view]
    exact chain

/-- **What a call comes to**, for a thread at home with these blocks. -/
inductive Outcome (m m' : Machine) (blocks : List Block) (size : Nat) : Option Nat → Prop
  /-- a thread without pages does not get one -/
  | noPage (empty : blocks = []) (full : freeCount m = 0) (resting : Resting m m') :
    Outcome m m' blocks size none
  /-- a block fits -/
  | found {s : Machine} {header : Nat} {blocks' : List Block} (start : AtSearch m s blocks)
    (fit : firstFit BLOCK_SIZE size 0 (searched blocks) = some (header, blocks'))
    (tables : SameTables s m') (laid : Laid m'.frames (s.pageNum s.thread * PAGESIZE) blocks') :
    Outcome m m' blocks size (some (header + BLOCK_SIZE))
  /-- none does, and the heap does not grow -/
  | refused {s : Machine} {front : List Block} {last : Block} (start : AtSearch m s blocks)
    (split : searched blocks = front ++ [last])
    (full : firstFit BLOCK_SIZE size 0 (searched blocks) = none) (resting : Resting s m')
    (reason : bytesLeft (extentOf front) < sizeWithBlock size ∨ pagesNeeded last size ≤ 0 ∨
      (freeCount s : Int) < pagesNeeded last size) : Outcome m m' blocks size none
  /-- none does, and it grows -/
  | grown {s s₁ s₂ : Machine} {front : List Block} {last : Block} {timer : Timer}
    (start : AtSearch m s blocks) (split : searched blocks = front ++ [last])
    (full : firstFit BLOCK_SIZE size 0 (searched blocks) = none)
    (left : ¬ bytesLeft (extentOf front) < sizeWithBlock size) (positive : 0 < pagesNeeded last size)
    (enough : pagesNeeded last size ≤ freeCount s)
    (pages : GrownHeap s s₁ (pagesNeeded last size).toNat front last)
    (cut : splitBlock paged (extentOf (grownFront front last)) size (sizeWithBlock size) s₁
      = some ((), s₂)) (resume : m' = { s₂ with timer := timer }) :
    Outcome m m' blocks size (some (extentOf (grownFront front last) + BLOCK_SIZE))

/-- **`myallocate` of a thread at home.** -/
theorem myallocate_outcome (home : AtHome m) (heap : HomeHeap m blocks)
    (ran : myallocate swapping size m = some (result, m')) : Outcome m m' blocks size result := by
  obtain ⟨rfl, empty, full, resting⟩ | ⟨s, start, ran⟩ := myallocate_home home heap ran
  · exact .noPage empty full resting
  obtain ⟨header, blocks', fit, rfl, tables, laid⟩ | ⟨full, s₁, resting, ran⟩ :=
    searchHeap_home start.home start.laid ran
  · exact .found start fit tables laid
  obtain ⟨front, last, split⟩ : ∃ front last, searched blocks = front ++ [last] :=
    ⟨_, _, (List.dropLast_append_getLast start.laid.nonempty).symm⟩
  have laid₁ : Laid s₁.frames (s₁.pageNum s₁.thread * PAGESIZE) (front ++ [last]) := by
    rw [resting.frames, resting.tables.pageCount, ← split]
    exact start.laid
  rw [split, lastBlock_append, Nat.zero_add] at ran
  obtain ⟨rfl, still, reason⟩ | ⟨left, positive, enough, rfl, s₂, s₃, timer, grown, cut, resume⟩ :=
    growHeap_home (start.home.of_same resting.tables) laid₁ ran
  · rw [resting.tables.freeCount] at reason
    exact .refused start split full (resting.trans still) reason
  · rw [resting.tables.freeCount] at enough
    exact .grown start split full left positive enough (grown.of_resting resting) cut resume

end Call

/-! ### Calls that return -/

section Returning

variable {m : Machine} {front : List Block} {last : Block} {size : Nat}

theorem SameBut.eq {m' : Machine} (same : SameBut m m') (frames : m'.frames = m.frames) : m' = m := by
  rw [same, frames]

/-- `myallocate` up to the end of its search. -/
def approach (size : Nat) : StateT Machine Option Search := do
  pause_timer
  alignPages
  if ← firstPage swapping then firstFitLoop paged size (sizeWithBlock size) walkFuel 0 else stop

/-- Behind a search that finds nothing, the call is the growth. -/
theorem myallocate_of_approach {s : Machine} {prev : Nat}
    (ran : approach size m = some (.exhausted prev, s)) :
    myallocate swapping size m = growHeap swapping size prev s := by
  obtain ⟨_, m₁, paused, ran⟩ := run_bind ran
  obtain ⟨_, m₂, aligned, ran⟩ := run_bind ran
  obtain ⟨ready, m₃, first, ran⟩ := run_bind ran
  rw [myallocate, then_run paused, then_run aligned, then_run first]
  split at ran
  · rename_i isReady
    rw [if_pos isReady, searchHeap, then_run ran]
  · cases ran

/-- **On an ample machine the search goes through all blocks**, if none fits. -/
theorem Ample.approaches (ample : Ample m) (started : 0 < m.pageNum m.thread)
    (chain : Chain m.frames false 0 (front ++ [last]))
    (inside : extentOf (front ++ [last]) ≤ USER_PAGES * PAGESIZE)
    (full : firstFit BLOCK_SIZE size 0 (front ++ [last]) = none) :
    approach size m =
      some (.exhausted (extentOf front), { m with timer := ⟨0, m.timer.remaining⟩ }) := by
  rw [approach, pause_timer, change_run]
  set paused : Machine := { m with timer := ⟨0, m.timer.remaining⟩ } with paused_eq
  have ample' : Ample paused := ample.of_same ⟨rfl, rfl, rfl, rfl⟩ rfl
  have own : firstPage swapping paused = some (true, paused) := by
    rw [firstPage, look_run, look_run, if_neg (not_not.mpr (ample'.home.labels 0 started).thID)]
    rfl
  rw [then_run ample'.alignPages, then_run own, if_pos rfl]
  have shows : Shows (SameBut paused) (·.frames) m.frames paused := ⟨rfl, rfl⟩
  have enough : (front ++ [last]).length ≤ walkFuel := by
    have length := length_le_span (h := BLOCK_SIZE) (by decide) (front ++ [last])
    have bytes := user_bytes
    simp only [extentOf] at inside
    unfold walkFuel
    omega
  obtain ⟨search, s, ran, allocated⟩ := firstFitLoop_spec (n := size) ample'.backed (by simp) shows
    chain (by rw [Nat.zero_add]; exact inside) enough
  rw [full] at allocated
  obtain ⟨rfl, same, frames⟩ := allocated
  rw [ran, same.eq frames, lastBlock_append, Nat.zero_add]

/-- What the growth returns, the call returns. -/
theorem Ample.searches (ample : Ample m) (started : 0 < m.pageNum m.thread)
    (chain : Chain m.frames false 0 (front ++ [last]))
    (inside : extentOf (front ++ [last]) ≤ USER_PAGES * PAGESIZE)
    (full : firstFit BLOCK_SIZE size 0 (front ++ [last]) = none) {post : Option Nat → Machine → Prop}
    (next : ∀ timer, Returns (growHeap swapping size (extentOf front)) { m with timer := timer } post) :
    Returns (myallocate swapping size) m post := by
  obtain ⟨result, m', ran, holds⟩ := next ⟨0, m.timer.remaining⟩
  refine ⟨result, m', ?_, holds⟩
  rw [myallocate_of_approach (ample.approaches started chain inside full)]
  exact ran

/-- **The first call of a thread on an ample machine** makes its page, and what the growth behind it
returns, the call returns. -/
theorem Ample.starts (ample : Ample m) (none : m.pageNum m.thread = 0)
    (full : firstFit BLOCK_SIZE size 0 [⟨PAGESIZE - BLOCK_SIZE, true⟩] = Option.none)
    {post : Option Nat → Machine → Prop}
    (next : ∀ s, Gathered 1 m s → Header (readWord s.frames 0) ⟨PAGESIZE - BLOCK_SIZE, true⟩ false →
      Returns (growHeap swapping size 0) s post) :
    Returns (myallocate swapping size) m post := by
  unfold myallocate
  refine Returns.change_bind ?_
  set paused : Machine := { m with timer := ⟨0, m.timer.remaining⟩ } with paused_eq
  have ample' : Ample paused := ample.of_same ⟨rfl, rfl, rfl, rfl⟩ rfl
  have zero : paused.pageNum paused.thread = 0 := none
  have inside : paused.pageNum paused.thread < USER_PAGES := by
    rw [zero]
    decide
  have room := ample'.makeRoom inside
  have new := ample'.initializePage inside
  rw [zero] at room new
  obtain ⟨_, s, new, ample₁, grown⟩ := new
  have gathered : Gathered 1 m s := by
    refine ⟨ample₁, grown.thread, ?_⟩
    rw [grown.pageCount]
  have header := grown.first zero
  refine Returns.bind ⟨(), paused, ample'.alignPages, ?_⟩
  have first : firstPage swapping paused = some (true, s) := by
    rw [firstPage, look_run, look_run, if_pos (ample'.home.foreign_next (by decide) zero.symm)]
    dsimp only
    rw [then_run room, if_pos rfl, then_run new]
    rfl
  refine Returns.bind ⟨true, s, first, ?_⟩
  dsimp only
  rw [if_pos rfl, searchHeap]
  have shows : Shows (SameBut s) (·.frames) s.frames s := ⟨rfl, rfl⟩
  have chain : Chain s.frames false 0 [⟨PAGESIZE - BLOCK_SIZE, true⟩] := ⟨header, trivial⟩
  obtain ⟨search, s', ran, allocated⟩ := firstFitLoop_spec (n := size) ample₁.backed (by simp) shows
    chain (by decide) (show 1 ≤ walkFuel by decide)
  rw [full] at allocated
  obtain ⟨rfl, same, frames⟩ := allocated
  rw [same.eq frames] at ran
  refine Returns.bind ⟨_, s, ran, ?_⟩
  exact next s gathered header

/-- **A free last block grows.** -/
theorem Ample.growHeap_free (ample : Ample m) {prev : Nat}
    (header : Header (readWord m.frames prev) last false) (isFree : last.free = true)
    (inside : prev + BLOCK_SIZE ≤ USER_PAGES * PAGESIZE)
    (fits : prev + (sizeWithBlock size).toNat + BLOCK_SIZE ≤ USER_PAGES * PAGESIZE)
    (left : ¬ bytesLeft prev < sizeWithBlock size) (positive : 0 < pagesNeeded last size)
    (slots : pagesNeeded last size ≤ DISK_PAGES)
    (pages : m.pageNum m.thread + pagesNeeded last size ≤ USER_PAGES) :
    Returns (growHeap swapping size prev) m fun result m' =>
      result = some (prev + BLOCK_SIZE) ∧ Gathered (pagesNeeded last size).toNat m m' := by
  have four : BLOCK_SIZE = 4 := rfl
  unfold growHeap
  rw [if_neg left]
  refine ample.backed.load_bind ⟨rfl, rfl⟩ inside fun s shows => ?_
  rw [shows.1.eq shows.2]
  refine Returns.look_bind ?_
  have counted : isEnoughPages m (growthRequest last size) = pagesNeeded last size := by
    have free := ample.freeCount
    exact if_pos (by unfold pagesNeeded at slots; omega)
  rw [growthRequest_of_header header, counted, if_pos positive]
  have none : extraBlock (readWord m.frames prev) = 0 := by
    rw [extraBlock, header.isF, isFree]
    rfl
  rw [if_pos none]
  refine Returns.bind ((ample.gatherPages inside (by omega)).mono fun _ m₁ gathered => ?_)
  refine Returns.bind ((gathered.ample.splitBlock inside (by omega)).mono fun _ m₂ same => ?_)
  have ample₂ := gathered.ample.of_sameBut same
  refine ⟨_, _, rfl, rfl, ample₂.of_same ⟨rfl, rfl, rfl, rfl⟩ rfl, ?_, ?_⟩
  · exact same.tables.thread.trans gathered.thread
  · show m₂.pageNum m₂.thread = _
    rw [same.tables.pageCount, gathered.pageNum]

/-- The new block behind a taken last one. -/
theorem Ample.newLastBlock (ample : Ample m) {prev : Nat} (room : m.pageNum m.thread < USER_PAGES)
    (inside : prev + BLOCK_SIZE ≤ USER_PAGES * PAGESIZE) :
    Returns (newLastBlock swapping prev) m fun block m' =>
      block = some (m.pageNum m.thread * PAGESIZE) ∧ Ample m' ∧
        m'.pageNum m'.thread = m.pageNum m.thread + 1 := by
  have insideNew : m.pageNum m.thread * PAGESIZE + 4 ≤ USER_PAGES * PAGESIZE := by
    unfold PAGESIZE
    omega
  refine Returns.look_bind (Returns.bind ⟨true, m, ample.makeRoom room, ?_⟩)
  refine Returns.bind ((ample.initializePage room).mono ?_)
  rintro _ m₁ ⟨ample₁, grown⟩
  have shows₁ : Shows (SameBut m₁) (·.frames) m₁.frames m₁ := ⟨rfl, rfl⟩
  refine Returns.bind ((freshBlock_spec ample₁.backed shows₁ insideNew (by decide)).mono ?_)
  rintro _ m₂ ⟨w, ⟨same₂, _⟩, _⟩
  have ample₂ := ample₁.of_sameBut same₂
  refine Returns.bind ((ample₂.modify inside _).mono ?_)
  rintro _ m₃ ⟨same₃, _⟩
  refine Returns.pure ⟨rfl, ample₂.of_sameBut same₃, ?_⟩
  rw [same₃.tables.pageCount, same₂.tables.pageCount, grown.pageCount]

/-- **A taken last block gets a new one behind it.** -/
theorem Ample.growHeap_taken (ample : Ample m) {prev : Nat}
    (header : Header (readWord m.frames prev) last false) (taken : last.free = false)
    (inside : prev + BLOCK_SIZE ≤ USER_PAGES * PAGESIZE)
    (fits : m.pageNum m.thread * PAGESIZE + (sizeWithBlock size).toNat + BLOCK_SIZE
      ≤ USER_PAGES * PAGESIZE)
    (left : ¬ bytesLeft prev < sizeWithBlock size) (positive : 0 < pagesNeeded last size)
    (slots : pagesNeeded last size ≤ DISK_PAGES)
    (pages : m.pageNum m.thread + pagesNeeded last size ≤ USER_PAGES) :
    Returns (growHeap swapping size prev) m fun result _ =>
      result = some (m.pageNum m.thread * PAGESIZE + BLOCK_SIZE) := by
  have four : BLOCK_SIZE = 4 := rfl
  unfold growHeap
  rw [if_neg left]
  refine ample.backed.load_bind ⟨rfl, rfl⟩ inside fun s shows => ?_
  rw [shows.1.eq shows.2]
  refine Returns.look_bind ?_
  have counted : isEnoughPages m (growthRequest last size) = pagesNeeded last size := by
    have free := ample.freeCount
    exact if_pos (by unfold pagesNeeded at slots; omega)
  rw [growthRequest_of_header header, counted, if_pos positive]
  have some : extraBlock (readWord m.frames prev) ≠ 0 := by
    rw [extraBlock, header.isF, taken]
    decide
  rw [if_neg some]
  have room : m.pageNum m.thread < USER_PAGES := by omega
  have insideNew : m.pageNum m.thread * PAGESIZE + 4 ≤ USER_PAGES * PAGESIZE := by omega
  refine Returns.bind ((ample.newLastBlock room inside).mono ?_)
  rintro _ m₁ ⟨rfl, ample₁, count⟩
  dsimp only
  refine Returns.bind ((ample₁.gatherPages insideNew (by omega)).mono fun _ m₂ gathered => ?_)
  refine Returns.bind ((gathered.ample.splitBlock insideNew (by omega)).mono fun _ m₃ _ => ?_)
  exact ⟨_, _, rfl, rfl⟩

end Returning

end OS2017.Paging
