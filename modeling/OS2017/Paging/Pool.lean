/-
**The heaps of the threads grow from one pool.**

`myallocate` searches the heap of the running thread, and lengthens it by pages if nothing fits. On
sheltered pages, for an allocation the thread can make safely, it returns the pointer, leaves the
blocks and takes the pages that a heap of a pool of pages comes to under `rules`
(`myallocate_follows`): the pages are the free entries of the two tables, and how many are asked for is
counted as the source does it, without the wrap of its `unsigned int`.
-/

import OS2017.Paging.Allocate
import OS2017.Lib.PagePool

namespace OS2017.Paging

open OS2017.Bytes OS2017.Heap OS2017.FirstFit OS2017.PagePool

/-- **The rules of `myallocate`.** A request is refused if its block would reach over the end of
`memory` behind the last header; and if the last block is taken and so large that no page is counted. -/
def rules : Rules where
  h := BLOCK_SIZE
  page := PAGESIZE
  demand header last size :=
    if USER_PAGES * PAGESIZE < header + BLOCK_SIZE + (size + BLOCK_SIZE) then none
    else
      let bytes : Int := size + BLOCK_SIZE + (if last.free then 0 else BLOCK_SIZE : Nat) - last.size
      if 0 < bytes.tdiv PAGESIZE + 1 then some (bytes.tdiv PAGESIZE + 1).toNat else none

/-- **The pages granted are those counted**, where the widths do no harm. -/
theorem granted_eq {front : List Block} {last : Block} {size spare : Nat}
    (inside : extentOf front + BLOCK_SIZE ≤ USER_PAGES * PAGESIZE) (small : last.size < 2 ^ 24)
    (exact : ¬ bytesLeft (extentOf front) < sizeWithBlock size → 0 < pagesNeeded last size →
      pagesNeeded last size ≤ spare → size + BLOCK_SIZE < 2 ^ 32) :
    rules.granted spare size (front ++ [last]) =
      if ¬ bytesLeft (extentOf front) < sizeWithBlock size ∧ 0 < pagesNeeded last size ∧
        pagesNeeded last size ≤ spare then some (pagesNeeded last size).toNat else none := by
  have four : BLOCK_SIZE = 4 := rfl
  have bytes := user_bytes
  have max : MAX_MEMORY = 8388608 := rfl
  have left := toNat_bytesLeft inside
  rw [Rules.granted_concat]
  show Option.filter _ (if USER_PAGES * PAGESIZE < extentOf front + BLOCK_SIZE + (size + BLOCK_SIZE)
    then none else _) = _
  by_cases beyond : USER_PAGES * PAGESIZE < extentOf front + BLOCK_SIZE + (size + BLOCK_SIZE)
  · rw [if_pos beyond, if_neg, Option.filter_none]
    rintro ⟨long, positive, enough⟩
    have fits := exact long positive enough
    rw [BitVec.lt_def, left, toNat_sizeWithBlock fits] at long
    omega
  · have long : ¬ bytesLeft (extentOf front) < sizeWithBlock size := by
      rw [BitVec.lt_def, left, toNat_sizeWithBlock (by omega)]
      omega
    have counted : pagesNeeded last size = ((size + BLOCK_SIZE +
        (if last.free then 0 else BLOCK_SIZE : Nat) - last.size : Int)).tdiv PAGESIZE + 1 := by
      rw [pagesNeeded, toInt_growthRequest small (by omega)]
    rw [if_neg beyond, ← counted]
    by_cases positive : 0 < pagesNeeded last size
    · by_cases enough : pagesNeeded last size ≤ spare
      · rw [if_pos positive, if_pos ⟨long, positive, enough⟩, Option.filter_some,
          if_pos (decide_eq_true (by omega))]
      · rw [if_pos positive, if_neg (fun all => enough all.2.2), Option.filter_some,
          if_neg (by rw [decide_eq_true_eq]; omega)]
    · rw [if_neg positive, if_neg (fun all => positive all.2.1), Option.filter_none]

variable {live : Nat → Bool} {threadNum : Nat}

/-! ### The pages of the growth -/

section Grow

variable {t : Nat} {pageNum : Nat → Nat} {others : Nat → Memory} {reserve : Prop} {m m' : Machine}
  {front : List Block} {last : Block} {blocks : List Block} {size : Nat} {result : Option Nat}

/-- **Each page gathered is a free entry less.** -/
theorem gatherPages_freeCount {good : (Nat → Nat) → Machine → Prop} {view : Machine → Memory}
    {n header : Nat} (growing : Growing t good view) (served : good pageNum m)
    (enough : n ≤ freeCount m) (inside : header + 4 ≤ pageNum t * PAGESIZE)
    (ran : gatherPages swapping header n m = some ((), m')) : freeCount m' + n = freeCount m := by
  induction n generalizing m pageNum with
  | zero =>
    cases ran
    rfl
  | succ n ih =>
    rw [gatherPages, look_run, growing.thread served, growing.pageNum served] at ran
    obtain ⟨freed, m₁, room, ran⟩ := run_bind ran
    obtain ⟨rfl, _, grown⟩ := growing.grow served rfl (by omega) room
    obtain ⟨_, m₂, new, ran⟩ := run_bind ran
    obtain ⟨served₂, _, count⟩ := grown m₂ new
    obtain ⟨_, m₃, modified, ran⟩ := run_bind ran
    have backed := growing.backed (Function.update pageNum t (pageNum t + 1))
    rw [Function.update_self] at backed
    have wide : (pageNum t + 1) * PAGESIZE = pageNum t * PAGESIZE + PAGESIZE := Nat.succ_mul _ _
    obtain ⟨served₃, _⟩ := (backed.modify ⟨served₂, rfl⟩ (by omega)).of_run modified
    have same := freeCount_modify modified
    have rest := ih served₃ (by omega) (by rw [Function.update_self]; omega) ran
    omega

theorem splitBlock_freeCount {current : Nat} {width : BitVec 32}
    (ran : splitBlock paged current size width m = some ((), m')) : freeCount m' = freeCount m :=
  (keeps_splitBlock permutes_composes keeps_load keeps_store _ _ _ _ _ _ ran).freeCount

/-- **A call that comes to what the pool's heap comes to.** -/
structure Follows (live : Nat → Bool) (threadNum t : Nat) (pageNum : Nat → Nat)
    (others : Nat → Memory) (m : Machine) (service : Service) (result : Option Nat) (m' : Machine) :
    Prop where
  result : result = service.pointer
  serving : Serving live threadNum t (Function.update pageNum t (pageNum t + service.pages)) others
    False m'
  tiled : Tiled (m'.view t) ((pageNum t + service.pages) * PAGESIZE) service.blocks
  freeCount : freeCount m' + service.pages = freeCount m

/-- Nothing is handed out. -/
theorem Follows.none (serving : Serving live threadNum t pageNum others reserve m')
    (tiled : Tiled (m'.view t) (pageNum t * PAGESIZE) blocks)
    (count : Paging.freeCount m' = Paging.freeCount m) :
    Follows live threadNum t pageNum others m ⟨none, blocks, 0⟩ none m' := by
  refine ⟨rfl, ?_, ?_, count⟩
  · rw [Nat.add_zero, Function.update_eq_self]
    exact ⟨serving.sheltered, serving.thread, serving.pageNum, serving.others, False.elim⟩
  · rw [Nat.add_zero]
    exact tiled

/-- The timer is restarted at the end. -/
theorem Follows.unpause {service : Service}
    (follows : Follows live threadNum t pageNum others m service result m') (timer : Timer) :
    Follows live threadNum t pageNum others m service result { m' with timer := timer } := by
  obtain ⟨pointer, serving, tiled, count⟩ := follows
  obtain ⟨serving', same⟩ := serving.settle (settled_timer serving.sheltered timer)
  rw [← same] at tiled
  have permutes : Permutes m' { m' with timer := timer } := permutes_of_eq rfl rfl rfl rfl
  exact ⟨pointer, serving', tiled, by rw [permutes.freeCount, count]⟩

/-- The cut of the lengthened heap. -/
theorem Extended.follows {v : Memory} {z : Nat} {m₁ : Machine} {pages : Nat}
    (serving : Serving live threadNum t (Function.update pageNum t (pageNum t + pages)) others True m₁)
    (extended : Extended v (m₁.view t) (pageNum t) pages size blocks front z)
    (count : Paging.freeCount m₁ + pages = Paging.freeCount m)
    (ran : splitBlock paged (extentOf front) size (sizeWithBlock size) m₁ = some ((), m')) :
    Follows live threadNum t pageNum others m
      ⟨some (extentOf front + BLOCK_SIZE),
        front ++ [⟨size, false⟩, ⟨z - (size + BLOCK_SIZE), true⟩], pages⟩
      (some (extentOf front + BLOCK_SIZE)) m' := by
  obtain ⟨serving', tiled, _⟩ := extended.split serving ran
  refine ⟨rfl, ⟨serving'.sheltered, serving'.thread, serving'.pageNum, serving'.others, False.elim⟩,
    tiled, ?_⟩
  rw [splitBlock_freeCount ran]
  exact count

/-- **The growth of a heap** in which nothing fits. -/
theorem growHeap_follows {v : Memory}
    (serving : Serving live threadNum t pageNum others reserve m) (view : m.view t = v)
    (tiled : Tiled v (pageNum t * PAGESIZE) (front ++ [last]))
    (full : firstFit BLOCK_SIZE size 0 (front ++ [last]) = none)
    (safe : ¬ bytesLeft (extentOf front) < sizeWithBlock size → 0 < pagesNeeded last size →
      pagesNeeded last size ≤ freeCount m → reserve ∧ size + BLOCK_SIZE < 2 ^ 32 ∧
        (last.free = true ∨ (size + 2 * BLOCK_SIZE : Int) ≤ pagesNeeded last size * PAGESIZE))
    (ran : growHeap swapping size (extentOf front) m = some (result, m')) :
    Follows live threadNum t pageNum others m (rules.serve (freeCount m) size (front ++ [last])) result
      m' := by
  have four : BLOCK_SIZE = 4 := rfl
  subst view
  have whole := tiled.extent
  simp only [extentOf, span_append, span] at whole
  have bounded : pageNum t * PAGESIZE ≤ USER_PAGES * PAGESIZE :=
    Nat.mul_le_mul_right _ serving.bounded
  obtain ⟨_, header, _⟩ := chain_append.mp tiled.chain
  rw [Nat.zero_add] at header
  have small : last.size < 2 ^ 24 := header.size_lt
  have inside : extentOf front + BLOCK_SIZE ≤ USER_PAGES * PAGESIZE := by
    simp only [extentOf]
    omega
  have granted : rules.granted (freeCount m) size (front ++ [last]) = _ :=
    granted_eq inside small fun long positive enough => (safe long positive enough).2.1
  rw [growHeap] at ran
  by_cases short : bytesLeft (extentOf front) < sizeWithBlock size
  · rw [if_pos short] at ran
    cases ran
    rw [if_neg (fun all => all.1 short)] at granted
    rw [Rules.serve_refused full granted]
    exact (Follows.none serving tiled rfl).unpause _
  · rw [if_neg short] at ran
    obtain ⟨word, m₁, loaded, ran⟩ := run_bind ran
    have backed := paged_backed live threadNum t pageNum others reserve
    obtain ⟨wordEq, serving₁, shown⟩ :=
      (backed.load m (extentOf front) serving (by simp only [extentOf]; omega)).of_run loaded
    have view₁ : m₁.view t = m.view t := shown
    have count : freeCount m₁ = freeCount m := (keeps_load _ _ _ _ loaded).freeCount
    have headerWord : Header word last false := wordEq ▸ header
    rw [look_run, growthRequest_of_header headerWord] at ran
    have tiled₁ : Tiled (m₁.view t) (pageNum t * PAGESIZE) (front ++ [last]) := view₁.symm ▸ tiled
    have needed : isEnoughPages m₁ (growthRequest last size)
        = if pagesNeeded last size ≤ freeCount m then pagesNeeded last size else 0 := by
      rw [isEnoughPages, count]
      rfl
    rw [needed] at ran
    by_cases grows : 0 < pagesNeeded last size ∧ pagesNeeded last size ≤ freeCount m
    · obtain ⟨positive, enough⟩ := grows
      rw [if_pos enough, if_pos positive] at ran
      rw [if_pos ⟨short, positive, enough⟩] at granted
      obtain ⟨reserved, fits, growth⟩ := safe short positive enough
      have serving₂ : Serving live threadNum t pageNum others True m₁ :=
        ⟨serving₁.sheltered, serving₁.thread, serving₁.pageNum, serving₁.others,
          fun _ => serving₁.reserved reserved⟩
      cases isFree : last.free with
      | true =>
        have none : extraBlock word = 0 := by
          rw [extraBlock, headerWord.isF, isFree]
          rfl
        rw [if_pos none] at ran
        obtain ⟨_, m₂, gathered, ran⟩ := run_bind ran
        obtain ⟨_, m₃, split, ran⟩ := run_bind ran
        cases ran
        have tooSmall : last.size < size + BLOCK_SIZE := by
          by_contra large
          exact firstFit_eq_none.mp full last (by simp) ⟨isFree, Or.inr (by omega)⟩
        have bytes := user_bytes
        have max : MAX_MEMORY = 8388608 := rfl
        have long := short
        rw [BitVec.lt_def, toNat_bytesLeft inside, toNat_sizeWithBlock fits] at long
        have room := pagesNeeded_of_free isFree small tooSmall (by omega)
        obtain ⟨serving₃, extended⟩ := extended_free serving₂ tiled₁ isFree
          (by rw [count]; omega) room gathered
        have fewer := gatherPages_freeCount growing_serving serving₂ (by rw [count]; omega)
          (by simp only [extentOf]; omega) gathered
        rw [Rules.serve_free (by decide) full granted (by omega) isFree room]
        exact (extended.follows serving₃ (fewer.trans count) split).unpause _
      | false =>
        have some : extraBlock word ≠ 0 := by
          rw [extraBlock, headerWord.isF, isFree]
          decide
        rw [if_neg some] at ran
        obtain ⟨block, m₂, new, ran⟩ := run_bind ran
        have wide := growth.resolve_left (by rw [isFree]; simp)
        obtain ⟨n, pages⟩ : ∃ n : Nat, (pagesNeeded last size).toNat = n + 1 :=
          ⟨(pagesNeeded last size).toNat - 1, by omega⟩
        have header₁ : Header (readWord (m₁.view t) (extentOf front)) ⟨last.size, last.free⟩ false := by
          rw [view₁]
          exact header
        obtain ⟨address, serving₂', fewer, _⟩ := newLastBlock_grows growing_serving serving₂
          (by omega) header₁ (by simp only [extentOf]; omega) new
        subst address
        rw [pages, Nat.add_sub_cancel] at ran
        rw [pages] at granted
        obtain ⟨_, m₃, gathered, ran⟩ := run_bind ran
        obtain ⟨_, m₄, split, ran⟩ := run_bind ran
        cases ran
        have room : size + 2 * BLOCK_SIZE ≤ (n + 1) * PAGESIZE := by
          unfold PAGESIZE at wide ⊢
          omega
        obtain ⟨_, serving₃, extended⟩ := extended_taken serving₂ tiled₁ isFree (by omega) room new
          gathered
        have fewer' := gatherPages_freeCount growing_serving serving₂' (by omega)
          (by rw [Function.update_self, Nat.succ_mul]; unfold PAGESIZE; omega) gathered
        have start : extentOf (front ++ [last]) = pageNum t * PAGESIZE := tiled.extent
        rw [← start] at split
        have follows := (extended.follows (m := m) serving₃ (by omega) split).unpause
          ⟨m₄.timer.saved, m₄.timer.saved⟩
        rw [start] at follows
        have size' : (n + 1) * PAGESIZE - BLOCK_SIZE = PAGESIZE - BLOCK_SIZE + n * PAGESIZE := by
          rw [Nat.succ_mul]
          unfold PAGESIZE
          omega
        rw [Rules.serve_taken (by decide) full granted (by omega) isFree room]
        show Follows _ _ _ _ _ _ ⟨Option.some (extentOf (front ++ [last]) + BLOCK_SIZE), front ++ [last] ++
          [⟨size, false⟩, ⟨(n + 1) * PAGESIZE - BLOCK_SIZE - (size + BLOCK_SIZE), true⟩], n + 1⟩ _ _
        rw [start, size']
        exact follows
    · have refused : ¬ 0 < if pagesNeeded last size ≤ freeCount m then pagesNeeded last size else 0 := by
        split
        · rename_i enough
          exact fun positive => grows ⟨positive, enough⟩
        · decide
      rw [if_neg refused] at ran
      cases ran
      rw [if_neg (fun all => grows all.2)] at granted
      rw [Rules.serve_refused full granted]
      exact (Follows.none serving₁ tiled₁ count).unpause _

/-- **The search**, and the growth behind it. -/
theorem searchHeap_follows (serving : Serving live threadNum t pageNum others reserve m)
    (tiled : Tiled (m.view t) (pageNum t * PAGESIZE) blocks)
    (safe : ∀ last ∈ blocks.getLast?, firstFit BLOCK_SIZE size 0 blocks = none →
      ¬ bytesLeft (lastBlock 0 blocks) < sizeWithBlock size → 0 < pagesNeeded last size →
      pagesNeeded last size ≤ freeCount m → reserve ∧ size + BLOCK_SIZE < 2 ^ 32 ∧
        (last.free = true ∨ (size + 2 * BLOCK_SIZE : Int) ≤ pagesNeeded last size * PAGESIZE))
    (ran : searchHeap swapping size m = some (result, m')) :
    Follows live threadNum t pageNum others m (rules.serve (freeCount m) size blocks) result m' := by
  have bounded : pageNum t * PAGESIZE ≤ USER_PAGES * PAGESIZE :=
    Nat.mul_le_mul_right _ serving.bounded
  have bytes := user_bytes
  obtain ⟨search, m₁, searched, ran⟩ := run_bind ran
  have backed := paged_backed live threadNum t pageNum others reserve
  have inside : 0 + extentOf blocks ≤ pageNum t * PAGESIZE := by
    rw [Nat.zero_add, tiled.extent]
  have enough : blocks.length ≤ walkFuel := by
    refine le_trans tiled.length_le ?_
    unfold walkFuel
    omega
  have allocated := (firstFitLoop_spec (n := size) backed tiled.nonempty ⟨serving, rfl⟩ tiled.chain
    inside enough).of_run searched
  have count : freeCount m₁ = freeCount m :=
    (keeps_firstFitLoop permutes_composes keeps_load keeps_store _ _ _ _ _ _ _ searched).freeCount
  cases fit : firstFit BLOCK_SIZE size 0 blocks with
  | none =>
    rw [fit] at allocated
    obtain ⟨rfl, serving₁, shown⟩ := allocated
    have view₁ : m₁.view t = m.view t := shown
    obtain ⟨front, last, rfl⟩ : ∃ front last, blocks = front ++ [last] :=
      ⟨_, _, (List.dropLast_append_getLast tiled.nonempty).symm⟩
    rw [lastBlock_append, Nat.zero_add] at ran safe
    rw [← count] at safe ⊢
    obtain ⟨pointer, serving', tiled', taken⟩ :=
      growHeap_follows serving₁ view₁ tiled fit (safe last (by simp) fit) ran
    exact ⟨pointer, serving', tiled', taken.trans count⟩
  | some found =>
    obtain ⟨header, blocks'⟩ := found
    rw [fit] at allocated
    obtain ⟨rfl, v', ⟨serving₁, shown⟩, chain, _⟩ := allocated
    have view₁ : m₁.view t = v' := shown
    have served : Follows live threadNum t pageNum others m ⟨some (header + BLOCK_SIZE), blocks', 0⟩
        (some (header + BLOCK_SIZE)) m₁ := by
      refine ⟨rfl, ?_, ?_, count⟩
      · rw [Nat.add_zero, Function.update_eq_self]
        exact ⟨serving₁.sheltered, serving₁.thread, serving₁.pageNum, serving₁.others, False.elim⟩
      · rw [Nat.add_zero, view₁]
        exact ⟨firstFit_ne_nil fit, chain, (firstFit_span fit).trans tiled.extent,
          firstFit_merged fit tiled.merged⟩
    rw [Rules.serve_found fit]
    cases ran
    exact served.unpause _

end Grow

/-! ### `myallocate` -/

section Calls

variable {m m' : Machine} {blocks : List Block} {size : Nat} {result : Option Nat}

/-- A heap without blocks has no pages. -/
theorem Arena.eq_nil_iff (arena : Arena m m.thread blocks) : blocks = [] ↔ m.pageNum m.thread = 0 := by
  rcases arena with ⟨none, rfl⟩ | tiled
  · exact iff_of_true rfl none
  · have := pages_pos_of_tiled tiled
    exact iff_of_false tiled.nonempty (by omega)

/-- Where no room can be made, the entries are as they were. -/
theorem makeRoom_full {index : Nat} (ran : makeRoom index m = some (false, m')) :
    freeCount m' = freeCount m := by
  obtain ⟨freed, m₁, first, rest⟩ := run_bind ran
  obtain ⟨_, ⟨_, rfl, rfl⟩ | ⟨_, rfl, rfl⟩ | ⟨_, _, _, rfl, _⟩⟩ := moveToFreeSpace_run first
  · obtain ⟨_, ⟨_, _, rfl⟩ | ⟨_, _, impossible, _⟩⟩ := moveToDiskSpace_run rest
    · exact Permutes.freeCount (permutes_of_eq rfl rfl rfl rfl)
    · cases impossible
  · cases rest
  · cases rest

/-- **The first page.** There is no free entry for it, or it is there, or it was there. -/
theorem firstPage_follows {ready : Bool} (sheltered : Sheltered live threadNum m)
    (arena : Arena m m.thread blocks)
    (home : m.pageNum m.thread = 0 ∨ (getPageThID (m.pages 0)).toNat = m.thread)
    (ran : firstPage swapping m = some (ready, m')) :
    (ready = false ∧ blocks = [] ∧ freeCount m = 0 ∧ freeCount m' = 0 ∧ Settled live threadNum m m') ∨
    (ready = true ∧ blocks = [] ∧ freeCount m' + 1 = freeCount m ∧
      Serving live threadNum m.thread (Function.update m.pageNum m.thread 1) m.view True m' ∧
      Tiled (m'.view m.thread) (1 * PAGESIZE) [⟨PAGESIZE - BLOCK_SIZE, true⟩]) ∨
    (ready = true ∧ m' = m ∧ Tiled (m.view m.thread) (m.pageNum m.thread * PAGESIZE) blocks) := by
  rw [firstPage, look_run, look_run] at ran
  split at ran
  · rename_i foreign
    have none : m.pageNum m.thread = 0 := home.resolve_right foreign
    have empty := arena.eq_nil_iff.mpr none
    have reserved : Reserved m := fun i _ _ => by rw [none]; exact Nat.zero_le _
    obtain ⟨freed, m₁, room, ran⟩ := run_bind ran
    cases freed with
    | false =>
      cases ran
      obtain ⟨full, settled⟩ := makeRoom_fails sheltered room
      exact Or.inl ⟨rfl, empty, full, (makeRoom_full room).trans full, settled⟩
    | true =>
      obtain ⟨_, m₂, new, ran⟩ := run_bind ran
      cases ran
      obtain ⟨inside, q, roomy⟩ := makeRoom_room sheltered reserved room
      have grown := roomy.grows sheltered reserved inside none.symm
        ((initializePage_spec m₁ inside).of_run new)
      have pageNum : m'.pageNum = Function.update m.pageNum m.thread 1 := by
        rw [grown.pageNum, none]
      exact Or.inr (Or.inl ⟨rfl, empty, grown.freeCount, ⟨grown.sheltered, grown.thread, pageNum,
        grown.others, fun _ => grown.reserved⟩, by simp, ⟨grown.first none, trivial⟩, by decide,
        List.isChain_singleton _⟩)
  · rename_i mine
    cases ran
    have own : (getPageThID (m.pages 0)).toNat = m.thread := not_not.mp mine
    have zero : (Place.frame 0).Valid := by
      show 0 < USER_PAGES
      decide
    have started : m.pageNum m.thread ≠ 0 := by
      intro none
      rcases sheltered.labelled.flags (.frame 0) zero with used | isFree
      · have below := sheltered.labelled.below _ sheltered.running _ (.frame 0) zero ⟨used, own, rfl⟩
        omega
      · exact sheltered.labelled.stale (.frame 0) zero isFree _ sheltered.running own
    exact Or.inr (Or.inr ⟨rfl, rfl, arena.resolve_left fun both => started both.1⟩)

/-- What the pool's heap comes to, as a heap of the thread. -/
theorem Follows.arena {t : Nat} {pageNum : Nat → Nat} {others : Nat → Memory} {service : Service}
    (follows : Follows live threadNum t pageNum others m service result m') :
    Arena m' t service.blocks := by
  refine Or.inr ?_
  rw [follows.serving.pageNum, Function.update_self]
  exact follows.tiled

/-- **`myallocate` does what a request to the pool does.** -/
theorem myallocate_follows (sheltered : Sheltered live threadNum m) (arena : Arena m m.thread blocks)
    (can : CanAllocate m size) (ran : myallocate swapping size m = some (result, m')) :
    result = (rules.request (freeCount m) size blocks).pointer ∧
      Arena m' m.thread (rules.request (freeCount m) size blocks).blocks ∧
      freeCount m' + (rules.request (freeCount m) size blocks).pages = freeCount m := by
  rw [myallocate, pause_timer, change_run] at ran
  obtain ⟨_, m₁, aligned, ran⟩ := run_bind ran
  have paused := settled_timer sheltered ⟨0, m.timer.remaining⟩
  obtain ⟨settled₁, zero⟩ := alignPages_settles paused.sheltered aligned
  have settled := paused.trans settled₁
  have paused' : Permutes m { m with timer := ⟨0, m.timer.remaining⟩ } :=
    permutes_of_eq rfl rfl rfl rfl
  have permutes : Permutes m m₁ :=
    permutes_composes.trans paused' (keeps_alignPages _ _ _ aligned)
  have arena₁ : Arena m₁ m₁.thread blocks := by
    rw [settled.thread]
    exact settled.arena sheltered.running arena
  have home : m₁.pageNum m₁.thread = 0 ∨ (getPageThID (m₁.pages 0)).toNat = m₁.thread := by
    rw [settled.thread, settled.pageNum]
    exact can.1.imp_right zero
  have start : startBlocks m = if blocks = [] then [⟨PAGESIZE - BLOCK_SIZE, true⟩] else blocks := by
    by_cases none : m.pageNum m.thread = 0
    · rw [if_pos (arena.eq_nil_iff.mpr none)]
      exact if_pos none
    · rw [if_neg fun empty => none (arena.eq_nil_iff.mp empty)]
      exact startBlocks_of_arena sheltered arena none
  have spare : spareCount m = if blocks = [] then freeCount m - 1 else freeCount m := by
    unfold spareCount
    by_cases none : m.pageNum m.thread = 0
    · rw [if_pos none, if_pos (arena.eq_nil_iff.mpr none)]
    · rw [if_neg none, if_neg fun empty => none (arena.eq_nil_iff.mp empty), Nat.sub_zero]
  have count := permutes.freeCount
  rw [← settled.thread]
  obtain ⟨ready, m₂, first, searched⟩ := run_bind ran
  rcases firstPage_follows settled.sheltered arena₁ home first with
    ⟨rfl, rfl, full, still, settled₂⟩ | ⟨rfl, rfl, fewer, serving, tiled⟩ | ⟨rfl, rfl, tiled⟩
  · cases searched
    rw [← count, full, Rules.request_empty]
    exact ⟨rfl, settled₂.arena settled.sheltered.running arena₁, still⟩
  · rw [if_pos rfl] at start spare
    have positive : 0 < freeCount m := by omega
    have rest : freeCount m₂ = freeCount m - 1 := by omega
    have follows := searchHeap_follows serving (by rw [Function.update_self]; exact tiled)
      (fun last member full short positive enough => by
        rw [← start] at member full short
        rw [rest, ← spare] at enough
        obtain ⟨_, fits⟩ := can.2 last member ⟨full, short, positive, enough⟩
        exact ⟨trivial, fits⟩) searched
    have pages := follows.freeCount
    rw [rest] at follows pages
    rw [Rules.request_nil positive]
    refine ⟨follows.result, follows.arena, ?_⟩
    show freeCount m' + (1 + (rules.serve (freeCount m - 1) size [⟨PAGESIZE - BLOCK_SIZE, true⟩]).pages)
      = freeCount m
    omega
  · rw [if_neg tiled.nonempty] at start spare
    have serving : Serving live threadNum m₂.thread m₂.pageNum m₂.view (Reserved m₂) m₂ :=
      ⟨settled.sheltered, rfl, rfl, fun _ _ _ => rfl, id⟩
    have follows := searchHeap_follows serving tiled
      (fun last member full short positive enough => by
        rw [← start] at member full short
        rw [count, ← spare] at enough
        obtain ⟨reserved, fits⟩ := can.2 last member ⟨full, short, positive, enough⟩
        exact ⟨settled.reserved reserved, fits⟩) searched
    have pages := follows.freeCount
    rw [count] at follows pages
    rw [Rules.request_of_ne tiled.nonempty]
    exact ⟨follows.result, follows.arena, pages⟩

end Calls

end OS2017.Paging
