/-
**Whether the growth of a heap keeps it tiled.**

A request that no block fits makes the heap of a thread grow. If the last block is free it gets the
pages that are missing. If it is taken a new block is made behind it, but the pages are counted as if
the bytes of the last block could be used: `size + 8 - last.size` bytes. When that is too little the
new block is cut all the same, and the header of the rest is written behind its end (`Overruns`).
Everywhere else the blocks tile the pages after the call as before (`growth_tiles_iff`).
-/

import OS2017.Paging.Sizes

namespace OS2017.Paging

open OS2017.Bytes OS2017.Heap OS2017.FirstFit

/-- **The heap after a call** of the thread `t`: at home, with blocks that tile its pages, among them
one of the size asked for at the pointer and all those that were taken. -/
def TiledAfter (t : Nat) (blocks : List Block) (size ptr : Nat) (m' : Machine) : Prop :=
  m'.thread = t ∧ AtHome m' ∧ ∃ blocks', Laid m'.frames (m'.pageNum t * PAGESIZE) blocks' ∧
    Holds BLOCK_SIZE 0 blocks' ptr size ∧
    ∀ p n, Holds BLOCK_SIZE 0 blocks p n → Holds BLOCK_SIZE 0 blocks' p n

/-- **The block that is made behind a taken last one is too short** for the size and a header. -/
def Overruns (blocks : List Block) (size : Nat) : Prop :=
  firstFit BLOCK_SIZE size 0 blocks = none ∧ ∃ last ∈ blocks.getLast?, last.free = false ∧
    pagesNeeded last size * PAGESIZE < size + 2 * BLOCK_SIZE

instance (blocks : List Block) (size : Nat) : Decidable (Overruns blocks size) :=
  inferInstanceAs (Decidable (_ ∧ _))

/-! ### The growths that fit -/

section Fits

variable {m m' : Machine} {front : List Block} {last : Block} {size z : Nat}

/-- **A free last block is cut in two.** -/
theorem Laid.split (home : AtHome m)
    (laid : Laid m.frames (m.pageNum m.thread * PAGESIZE) (front ++ [⟨z, true⟩]))
    (room : size + BLOCK_SIZE ≤ z)
    (ran : splitBlock paged (extentOf front) size (sizeWithBlock size) m = some ((), m')) :
    SameTables m m' ∧ Laid m'.frames (m.pageNum m.thread * PAGESIZE)
      (front ++ [⟨size, false⟩, ⟨z - (size + BLOCK_SIZE), true⟩]) := by
  obtain ⟨header, ends⟩ := laid.ends
  obtain ⟨frontChain, _⟩ := chain_append.mp laid.chain
  have shows : Shows (Around m) (·.frames) m.frames m := ⟨rfl, rfl⟩
  obtain ⟨v, ⟨around, frames⟩, headerFront, headerRest, same⟩ :=
    (splitBlock_spec (paged_home home) shows header room (Nat.le_of_eq ends)).of_run ran
  have view : m'.frames = v := frames
  refine ⟨around.tables, by simp, ?_, ?_⟩
  · rw [view]
    refine chain_append.mpr ⟨frontChain.congr fun c _ high => ?_, ?_, ?_, trivial⟩
    · rw [Nat.zero_add] at high
      exact same c (Or.inl high)
    · rw [Nat.zero_add]
      exact headerFront
    · rw [Nat.zero_add]
      exact headerRest
  · simp only [extentOf, span_append, span] at ends ⊢
    omega

/-- **The block that has grown is large enough**, if it does not overrun. -/
theorem grownSize_fits (small : size < 2 ^ 24) (short : last.size < 2 ^ 24)
    (full : last.free = true → last.size < size + BLOCK_SIZE)
    (positive : 0 < pagesNeeded last size)
    (fits : last.free = false → (size + 2 * BLOCK_SIZE : Int) ≤ pagesNeeded last size * PAGESIZE) :
    size + BLOCK_SIZE ≤ grownSize last (pagesNeeded last size).toNat := by
  have four : BLOCK_SIZE = 4 := rfl
  unfold grownSize
  cases isFree : last.free with
  | true =>
    rw [if_pos rfl]
    exact pagesNeeded_of_free isFree short (full isFree) (by omega)
  | false =>
    have wide := fits isFree
    have pages : ((pagesNeeded last size).toNat : Int) = pagesNeeded last size := by omega
    rw [← pages] at wide
    rw [if_neg (by decide)]
    unfold PAGESIZE at wide ⊢
    omega

/-- Blocks that were taken are taken. -/
theorem holds_grown {p n rest : Nat} (holds : Holds BLOCK_SIZE 0 (front ++ [last]) p n) :
    Holds BLOCK_SIZE 0 (grownFront front last ++ [⟨size, false⟩, ⟨rest, true⟩]) p n := by
  refine holds_split.mpr (Or.inl ?_)
  unfold grownFront
  cases isFree : last.free with
  | true =>
    rw [if_pos rfl]
    exact (holds_concat_free isFree).mp holds
  | false =>
    rw [if_neg (by decide)]
    exact holds

/-- The block that is handed out is taken. -/
theorem holds_new {front : List Block} {rest : Nat} :
    Holds BLOCK_SIZE 0 (front ++ [⟨size, false⟩, ⟨rest, true⟩]) (extentOf front + BLOCK_SIZE) size := by
  refine holds_split.mpr (Or.inr ⟨?_, rfl⟩)
  rw [Nat.zero_add]

end Fits

/-- The blocks of a thread are those that are searched. -/
theorem holds_searched {blocks : List Block} {p n : Nat} (holds : Holds BLOCK_SIZE 0 blocks p n) :
    Holds BLOCK_SIZE 0 (searched blocks) p n := by
  cases blocks with
  | nil => exact holds.elim
  | cons b rest => exact holds

/-- A taken last block is one of the thread's own. -/
theorem own_of_taken {blocks front : List Block} {last : Block}
    (split : searched blocks = front ++ [last]) (taken : last.free = false) :
    blocks = front ++ [last] := by
  cases blocks with
  | cons b rest => exact split
  | nil =>
    have single : [(⟨PAGESIZE - BLOCK_SIZE, true⟩ : Block)] = front ++ [last] := split
    have tail : [(⟨PAGESIZE - BLOCK_SIZE, true⟩ : Block)].getLast? = some last := by
      rw [single, List.getLast?_concat]
    cases tail
    cases taken

/-- **Growth that does not overrun keeps the tiling.** -/
theorem tiledAfter_of_not_overruns {m m' : Machine} {blocks : List Block} {size ptr : Nat}
    (small : size < 2 ^ 24) (fits : ¬ Overruns blocks size)
    (outcome : Outcome m m' blocks size (some ptr)) : TiledAfter m.thread blocks size ptr m' := by
  cases outcome with
  | found start fit tables laid =>
    have thread := tables.thread.trans start.thread
    refine ⟨thread, start.home.of_same tables, _, ?_, (firstFit_holds fit).mpr (Or.inr ⟨rfl, rfl⟩),
      fun p n holds => (firstFit_holds fit).mpr (Or.inl (holds_searched holds))⟩
    rw [tables.pageNum, ← start.thread]
    exact laid
  | @grown s s₁ s₂ front last timer start split full left positive enough pages cut resume =>
    have laid := start.laid
    rw [split] at laid full
    have room : size + BLOCK_SIZE ≤ grownSize last (pagesNeeded last size).toNat := by
      refine grownSize_fits small laid.ends.1.size_lt (fun isFree => ?_) positive fun taken => ?_
      · by_contra large
        exact firstFit_eq_none.mp full last (by simp) ⟨isFree, Or.inr (by omega)⟩
      · have own := own_of_taken split taken
        by_contra wide
        refine fits ⟨own ▸ full, last, ?_, taken, by omega⟩
        rw [own, List.getLast?_concat]
        rfl
    have count : s₁.pageNum s₁.thread = s.pageNum s.thread + (pagesNeeded last size).toNat := by
      rw [pages.pageNum, pages.thread, Function.update_self]
    have laid₁ := pages.laid
    rw [← count] at laid₁
    obtain ⟨tables, laid₂⟩ := laid₁.split pages.home room cut
    have thread : s₂.thread = m.thread := (tables.thread.trans pages.thread).trans start.thread
    rw [← tables.pageNum, ← tables.thread, thread] at laid₂
    subst resume
    exact ⟨thread, pages.home.of_same (tables.trans ⟨rfl, rfl, rfl, rfl⟩), _, laid₂, holds_new,
      fun p n holds => holds_grown (split ▸ holds_searched holds)⟩

/-! ### The growths that do not -/

/-- **A block with `isNext` set has a header behind it**, inside of the chain. -/
theorem Chain.followed {v : Memory} {a p n : Nat} {blocks : List Block} (chain : Chain v false a blocks)
    (holds : Holds BLOCK_SIZE a blocks p n)
    (linked : getBlockIsNext (readWord v (p - BLOCK_SIZE)) = 1) :
    p + n + BLOCK_SIZE ≤ a + extentOf blocks := by
  induction blocks generalizing a with
  | nil => exact holds.elim
  | cons b rest ih =>
    rcases holds with ⟨rfl, rfl⟩ | later
    · rw [Nat.add_sub_cancel, chain.1.isNext, flag_eq_one] at linked
      cases rest with
      | nil => cases linked
      | cons c rest =>
        simp only [extentOf, span]
        omega
    · have bound := ih chain.2 later
      simp only [extentOf, span] at bound ⊢
      omega

/-- **Growth that overruns breaks the chain.** -/
theorem not_tiledAfter_of_overruns {m m' : Machine} {blocks : List Block} {size ptr : Nat}
    (overruns : Overruns blocks size) (outcome : Outcome m m' blocks size (some ptr)) :
    ¬ TiledAfter m.thread blocks size ptr m' := by
  obtain ⟨none, last, ends, taken, short⟩ := overruns
  have nonempty : blocks ≠ [] := by
    rintro rfl
    cases ends
  rintro ⟨_, _, blocks', laid, holds, _⟩
  cases outcome with
  | found start fit =>
    rw [searched_of_ne nonempty, none] at fit
    cases fit
  | @grown s s₁ s₂ front last' timer start split full left positive enough pages cut resume =>
    have own := split
    rw [searched_of_ne nonempty] at own
    have same : last' = last := by
      rw [own, List.getLast?_concat] at ends
      cases ends
      rfl
    subst same resume
    have place : extentOf (grownFront front last') = s.pageNum s.thread * PAGESIZE := by
      rw [grownFront, if_neg (by rw [taken]; decide), ← split, start.laid.extent]
    obtain ⟨w, written⟩ := paged_steady.splitBlock cut
    have linked : getBlockIsNext (readWord s₂.frames
        (extentOf (grownFront front last') + BLOCK_SIZE - BLOCK_SIZE)) = 1 := by
      rw [Nat.add_sub_cancel, written, getBlockIsNext_setBlockIsF (by decide),
        getBlockIsNext_setBlockIsNext (by decide)]
    -- there are not as many pages behind the new header as the next one needs
    have behind := Chain.followed laid.chain holds linked
    have permutes := keeps_splitBlock permutes_composes keeps_load keeps_store _ _ _ _ _ _ cut
    have bytes : extentOf blocks'
        = (s.pageNum s.thread + (pagesNeeded last' size).toNat) * PAGESIZE := by
      rw [laid.extent]
      show s₂.pageNum m.thread * PAGESIZE = _
      rw [permutes.pageNum, pages.pageNum, ← start.thread, Function.update_self]
    have count : ((pagesNeeded last' size).toNat : Int) = pagesNeeded last' size := by omega
    rw [← count] at short
    rw [bytes, place, Nat.add_mul] at behind
    omega

/-- **A call that is served leaves the heap tiled exactly if it does not overrun.** -/
theorem growth_tiles_iff {m m' : Machine} {blocks : List Block} {size ptr : Nat} (home : AtHome m)
    (heap : HomeHeap m blocks) (small : size < 2 ^ 24)
    (ran : myallocate swapping size m = some (some ptr, m')) :
    TiledAfter m.thread blocks size ptr m' ↔ ¬ Overruns blocks size := by
  have outcome := myallocate_outcome home heap ran
  exact ⟨fun tiled overruns => not_tiledAfter_of_overruns overruns outcome tiled,
    fun fits => tiledAfter_of_not_overruns small fits outcome⟩

/-- A thread with one page, all of it taken, that asks for less than another page. -/
theorem onePage_served (size : Nat) (small : size + 2 * BLOCK_SIZE ≤ 2 * PAGESIZE)
    (one : pagesNeeded ⟨PAGESIZE - BLOCK_SIZE, false⟩ size = 1) :
    Returns (myallocate swapping size) (alone 1 (layout 0 [⟨PAGESIZE - BLOCK_SIZE, false⟩]))
      fun result _ => result = some (PAGESIZE + BLOCK_SIZE) := by
  have four : BLOCK_SIZE = 4 := rfl
  have page : PAGESIZE = 4096 := rfl
  have total : USER_PAGES * PAGESIZE = 7569408 := by decide
  have chain : Chain (layout 0 [⟨PAGESIZE - BLOCK_SIZE, false⟩]) false 0
      ([] ++ [⟨PAGESIZE - BLOCK_SIZE, false⟩]) := chain_layout (by simp; decide)
  have ample : Ample (alone 1 (layout 0 [⟨PAGESIZE - BLOCK_SIZE, false⟩])) :=
    alone_ample (by decide) _
  have width := toNat_sizeWithBlock (n := size) (by omega)
  have left : ¬ bytesLeft 0 < sizeWithBlock size := by
    have all : (bytesLeft 0).toNat = USER_BYTES := by decide
    have bytes : USER_BYTES = 7569404 := by decide
    rw [BitVec.lt_def, all, width]
    omega
  refine ample.searches Nat.one_pos chain (by decide) rfl fun timer => ?_
  have ample' : Ample { alone 1 (layout 0 [⟨PAGESIZE - BLOCK_SIZE, false⟩]) with timer := timer } :=
    ample.of_same ⟨rfl, rfl, rfl, rfl⟩ rfl
  refine (ample'.growHeap_taken chain.1 rfl (by decide) ?_ left ?_ ?_ ?_).mono
    fun result _ served => ?_
  · rw [width]
    show 1 * PAGESIZE + (size + BLOCK_SIZE) + BLOCK_SIZE ≤ USER_PAGES * PAGESIZE
    omega
  · rw [one]
    decide
  · rw [one]
    decide
  · rw [one]
    show ((1 : Nat) : Int) + 1 ≤ USER_PAGES
    decide
  · rw [served]
    show some (1 * PAGESIZE + BLOCK_SIZE) = _
    rw [Nat.one_mul]

theorem alone_heap {n : Nat} {blocks : List Block} (nonempty : blocks ≠ [])
    (small : ∀ b ∈ blocks, b.size < 2 ^ 24) (extent : extentOf blocks = n * PAGESIZE) :
    HomeHeap (alone n (layout 0 blocks)) blocks :=
  Or.inr ⟨nonempty, chain_layout small, extent⟩

/-- Behind a page that is all taken a block of ten bytes is made. -/
theorem growth_tiles_tenBytes : ∃ m', myallocate swapping 10
      (alone 1 (layout 0 [⟨PAGESIZE - BLOCK_SIZE, false⟩])) = some (some (PAGESIZE + BLOCK_SIZE), m') ∧
    TiledAfter 1 [⟨PAGESIZE - BLOCK_SIZE, false⟩] 10 (PAGESIZE + BLOCK_SIZE) m' := by
  obtain ⟨_, m', ran, rfl⟩ := onePage_served 10 (by decide) (by decide)
  refine ⟨m', ran, (growth_tiles_iff (alone_ample (by decide) _).home ?_ (by decide) ran).mpr ?_⟩
  · exact alone_heap (by simp) (by simp; decide) (by decide)
  · decide

/-- **But one of 4090 bytes is not**: the pages end two bytes behind it. -/
theorem growth_not_tiled : ∃ m m', AtHome m ∧ HomeHeap m [⟨PAGESIZE - BLOCK_SIZE, false⟩] ∧
    myallocate swapping 4090 m = some (some (PAGESIZE + BLOCK_SIZE), m') ∧
    ¬ TiledAfter m.thread [⟨PAGESIZE - BLOCK_SIZE, false⟩] 4090 (PAGESIZE + BLOCK_SIZE) m' := by
  obtain ⟨_, m', ran, rfl⟩ := onePage_served 4090 (by decide) (by decide)
  have home := (alone_ample (by decide : 1 ≤ USER_PAGES)
    (layout 0 [⟨PAGESIZE - BLOCK_SIZE, false⟩])).home
  have heap : HomeHeap (alone 1 (layout 0 [⟨PAGESIZE - BLOCK_SIZE, false⟩]))
      [⟨PAGESIZE - BLOCK_SIZE, false⟩] := alone_heap (by simp) (by simp; decide) (by decide)
  exact ⟨_, m', home, heap, ran,
    not_tiledAfter_of_overruns (by decide) (myallocate_outcome home heap ran)⟩

end OS2017.Paging
