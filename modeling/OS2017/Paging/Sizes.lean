/-
**The sizes that are handed out.**

Whatever the tables say, a word that has just been accessed can be accessed again without a fault
(`paged_steady`). So the header that `myallocate` writes last is the one that is left, and its size is
what was asked for as long as that fits into the widths it goes through: `sizeWithBlock` is an
`unsigned int`, and a request from `2 ^ 32 - 4` on wraps around in it. With `LIBRARYREQ` the request
itself is compared with the sizes of the blocks; with `THREADREQ` the growth of the heap is decided by
`sizeWithBlock` alone (`size_kept_iff`).
-/

import OS2017.Paging.HomeHeap

namespace OS2017.Paging

open OS2017.Bytes OS2017.Heap OS2017.FirstFit

/-! ### Words that are accessed again -/

section Steady

variable {σ : Type}

/-- **A word that has been accessed is accessed again in place.** -/
structure Steady (mem : Store σ) (view : σ → Memory) (ready : Nat → σ → Prop) : Prop where
  load : ∀ {a s w s'}, mem.load a s = some (w, s') → ready a s' ∧ w = readWord (view s') a
  store : ∀ {a w s s'}, mem.store a w s = some ((), s') → ready a s' ∧ readWord (view s') a = w
  again : ∀ {a s w s'}, ready a s → mem.load a s = some (w, s') → view s' = view s

variable {mem : Store σ} {view : σ → Memory} {ready : Nat → σ → Prop}

/-- A word is replaced. -/
theorem Steady.modify (steady : Steady mem view ready) {a : Nat} {f : BitVec 32 → BitVec 32}
    {s s' : σ} (ran : mem.modify a f s = some ((), s')) :
    ready a s' ∧ ∃ w, readWord (view s') a = f w ∧ (ready a s → w = readWord (view s) a) := by
  obtain ⟨w, s₁, loaded, stored⟩ := run_bind ran
  obtain ⟨_, value⟩ := steady.load loaded
  obtain ⟨stays, written⟩ := steady.store stored
  refine ⟨stays, w, written, fun accessed => ?_⟩
  rw [value, steady.again accessed loaded]

/-- **The header of the block that is cut off**, written last. -/
theorem Steady.splitBlock (steady : Steady mem view ready) {current size : Nat}
    {sizeWithBlock : BitVec 32} {s s' : σ}
    (ran : splitBlock mem current size sizeWithBlock s = some ((), s')) :
    ∃ w, readWord (view s') current =
      setBlockIsF (setBlockIsNext (setBlockSize w (BitVec.ofNat 32 size)) 1) 0 := by
  obtain ⟨_, _, _, ran⟩ := run_bind ran
  obtain ⟨_, _, _, ran⟩ := run_bind ran
  obtain ⟨_, _, _, ran⟩ := run_bind ran
  obtain ⟨_, _, _, ran⟩ := run_bind ran
  obtain ⟨_, _, _, ran⟩ := run_bind ran
  obtain ⟨_, s₁, sized, ran⟩ := run_bind ran
  obtain ⟨_, s₂, linked, taken⟩ := run_bind ran
  obtain ⟨ready₁, w, value₁, _⟩ := steady.modify sized
  obtain ⟨ready₂, w₂, value₂, same₂⟩ := steady.modify linked
  obtain ⟨_, w₃, value₃, same₃⟩ := steady.modify taken
  exact ⟨w, by rw [value₃, same₃ ready₂, value₂, same₂ ready₁, value₁]⟩

/-- The size in that header. -/
theorem getBlockSize_split {w : BitVec 32} {size : Nat} (small : size < 2 ^ 24) :
    (getBlockSize (setBlockIsF (setBlockIsNext (setBlockSize w (BitVec.ofNat 32 size)) 1) 0)).toNat
      = size := by
  have value : (BitVec.ofNat 32 size).toNat = size := by
    rw [BitVec.toNat_ofNat]
    exact Nat.mod_eq_of_lt (by omega)
  rw [getBlockSize_setBlockIsF (by decide), getBlockSize_setBlockIsNext (by decide),
    getBlockSize_setBlockSize (by omega), value]

/-- **What the search hands out has the size that was asked for.** -/
theorem Steady.firstFitLoop (steady : Steady mem view ready) {size fuel a ptr : Nat}
    {sizeWithBlock : BitVec 32} {s s' : σ}
    (ran : firstFitLoop mem size sizeWithBlock fuel a s = some (.found ptr, s')) :
    (getBlockSize (readWord (view s') (ptr - BLOCK_SIZE))).toNat = size := by
  induction fuel generalizing a s with
  | zero => cases ran
  | succ fuel ih =>
    obtain ⟨word, s₁, loaded, ran⟩ := run_bind ran
    obtain ⟨accessed, value⟩ := steady.load loaded
    split at ran
    · rename_i exact
      obtain ⟨_, s₂, taken, ran⟩ := run_bind ran
      cases ran
      obtain ⟨_, w, written, same⟩ := steady.modify taken
      rw [Nat.add_sub_cancel, written, getBlockSize_setBlockIsF (by decide), same accessed, ← value]
      exact exact.2
    · split at ran
      · rename_i room
        obtain ⟨_, s₂, cut, ran⟩ := run_bind ran
        cases ran
        obtain ⟨w, written⟩ := steady.splitBlock cut
        rw [Nat.add_sub_cancel, written]
        exact getBlockSize_split (lt_of_le_of_lt room.2.1 toNat_getBlockSize_lt)
      · obtain ⟨next, s₂, _, ran⟩ := run_bind ran
        cases next with
        | none => cases ran
        | some next => exact ih ran

end Steady

/-- Plain memory. -/
theorem plain_steady : Steady plain id fun _ _ => True := by
  refine ⟨?_, ?_, ?_⟩
  · rintro a s w s' ⟨⟩
    exact ⟨trivial, rfl⟩
  · rintro a w s s' ⟨⟩
    exact ⟨trivial, readWord_writeWord _ _ _⟩
  · rintro a s w s' _ ⟨⟩
    rfl

/-! ### Paged memory -/

section Paged

variable {m m' : Machine}

/-- The label of a page that is found. -/
theorem located_label {k i : Nat} (found : located m k = some (.frame i)) :
    (getPagePgID (m.pages i)).toNat = k := by
  unfold located at found
  cases frame : frameOf m k with
  | some j =>
    rw [frame] at found
    cases found
    exact (frameOf_eq_some frame).2.2.1
  | none =>
    rw [frame] at found
    obtain ⟨d, _, impossible⟩ := Option.map_eq_some_iff.mp found
    cases impossible

/-- The page number of a fetched page. -/
theorem Fetched.pgID {k : Nat} {place : Place} (fetched : Fetched k place m m')
    (found : located m k = some place) : (getPagePgID (m'.pages k)).toNat = k := by
  have entry : m'.pages k = m.entry place := by
    show m'.entry (.frame k) = _
    rw [fetched.entry, Function.comp_apply, Equiv.swap_apply_left]
  rw [entry]
  unfold located at found
  cases frame : frameOf m k with
  | some i =>
    rw [frame] at found
    cases found
    exact (frameOf_eq_some frame).2.2.1
  | none =>
    rw [frame] at found
    obtain ⟨i, slot, rfl⟩ := Option.map_eq_some_iff.mp found
    exact (slotOf_eq_some slot).2.pgID

theorem touch_opens {k : Nat} (ran : touch k m = some ((), m')) : m'.accessible k = true := by
  obtain ⟨_, ⟨opened, rfl⟩ | ⟨_, _, _, fetched⟩⟩ := touch_run ran
  · exact opened
  · rw [fetched.accessible, Function.update_self]

/-- **Two frames that have been accessed at once are both open.** -/
theorem touchBoth_opens {j k : Nat} (ran : touchBoth j k m = some ((), m')) :
    (j < USER_PAGES ∧ k < USER_PAGES) ∧ m'.accessible j = true ∧ m'.accessible k = true := by
  obtain ⟨_, m₁, first, rest⟩ := run_bind ran
  obtain ⟨_, m₂, second, third⟩ := run_bind rest
  have openFirst := touch_opens first
  have openSecond := touch_opens second
  refine ⟨⟨(touch_run first).1, (touch_run second).1⟩, touch_opens third, ?_⟩
  obtain ⟨_, ⟨_, rfl⟩ | ⟨closed, place, found, fetched⟩⟩ := touch_run third
  · exact openSecond
  · by_cases same : k = j
    · rw [same, fetched.accessible, Function.update_self]
    · -- the second access has closed the first frame, so it has fetched its own page
      obtain ⟨_, ⟨_, rfl⟩ | ⟨_, place₂, found₂, fetched₂⟩⟩ := touch_run second
      · rw [openFirst] at closed
        cases closed
      · have label := fetched₂.pgID found₂
        rw [fetched.accessible, Function.update_of_ne same]
        cases place with
        | slot d => exact openSecond
        | frame i =>
          show Function.update m₂.accessible i false k = true
          rw [Function.update_of_ne, openSecond]
          rintro rfl
          exact same (label.symm.trans (located_label found))

/-- The frames of the word at `a` are open. -/
def Opened (a : Nat) (m : Machine) : Prop :=
  (a / PAGESIZE < USER_PAGES ∧ (a + 3) / PAGESIZE < USER_PAGES) ∧
    m.accessible (a / PAGESIZE) = true ∧ m.accessible ((a + 3) / PAGESIZE) = true

/-- **Paged memory is steady.** -/
theorem paged_steady : Steady paged (·.frames) Opened := by
  refine ⟨?_, ?_, ?_⟩
  · intro a m w m' ran
    obtain ⟨_, m₁, touched, ran⟩ := run_bind ran
    cases ran
    exact ⟨touchBoth_opens touched, rfl⟩
  · intro a w m m' ran
    obtain ⟨_, m₁, touched, ran⟩ := run_bind ran
    have opened := touchBoth_opens touched
    cases ran
    exact ⟨opened, readWord_writeWord _ _ _⟩
  · intro a m w m' opened ran
    obtain ⟨_, m₁, touched, ran⟩ := run_bind ran
    cases ran
    rw [touchBoth_open opened.1.1 opened.1.2 opened.2.1 opened.2.2] at touched
    cases touched
    rfl

end Paged

/-! ### `myallocate` -/

section Calls

variable {m m' : Machine}

/-- **A heap grows for requests that the bytes left can hold.** -/
theorem growHeap_size {size prev ptr : Nat}
    (ran : growHeap swapping size prev m = some (some ptr, m')) :
    (sizeWithBlock size).toNat + prev + BLOCK_SIZE ≤ USER_PAGES * PAGESIZE ∧
      (size + BLOCK_SIZE < 2 ^ 32 →
        (getBlockSize (readWord m'.frames (ptr - BLOCK_SIZE))).toNat = size) := by
  rw [growHeap] at ran
  by_cases short : bytesLeft prev < sizeWithBlock size
  · rw [if_pos short] at ran
    cases ran
  · rw [if_neg short] at ran
    obtain ⟨word, m₁, loaded, ran⟩ := run_bind ran
    have four : BLOCK_SIZE = 4 := rfl
    have bytes := user_bytes
    have max : MAX_MEMORY = 8388608 := rfl
    -- the last header has been read, so it is inside of user space
    have inside : prev + BLOCK_SIZE ≤ USER_PAGES * PAGESIZE := by
      have below := (paged_steady.load loaded).1.1.2
      have := (Nat.div_lt_iff_lt_mul (by decide)).mp below
      omega
    have left := toNat_bytesLeft inside
    have fits : (sizeWithBlock size).toNat + prev + BLOCK_SIZE ≤ USER_PAGES * PAGESIZE := by
      rw [BitVec.lt_def, left] at short
      omega
    refine ⟨fits, fun notWrapped => ?_⟩
    rw [toNat_sizeWithBlock notWrapped] at fits
    have kept : ∀ {block s s'}, splitBlock paged block size (sizeWithBlock size) s = some ((), s') →
        (getBlockSize (readWord s'.frames (block + BLOCK_SIZE - BLOCK_SIZE))).toNat = size := by
      intro block s s' cut
      obtain ⟨w, written⟩ := paged_steady.splitBlock cut
      rw [Nat.add_sub_cancel, written]
      exact getBlockSize_split (by omega)
    rw [look_run] at ran
    split at ran
    · split at ran
      · obtain ⟨_, m₂, _, ran⟩ := run_bind ran
        obtain ⟨_, m₃, cut, ran⟩ := run_bind ran
        have result := kept cut
        cases ran
        exact result
      · obtain ⟨block, m₂, _, ran⟩ := run_bind ran
        cases block with
        | none => cases ran
        | some bl =>
          obtain ⟨_, m₃, _, ran⟩ := run_bind ran
          obtain ⟨_, m₄, cut, ran⟩ := run_bind ran
          have result := kept cut
          cases ran
          exact result
    · cases ran

/-- The bytes behind the first header of user space. -/
def USER_BYTES : Nat := MAX_MEMORY - LIBRARY_BYTES - BLOCK_SIZE

/-- **`myallocate` hands out the size that was asked for**, if `sizeWithBlock` has not wrapped around
to a size that user space could hold. -/
theorem myallocate_size {size ptr : Nat}
    (condition : size + BLOCK_SIZE < 2 ^ 32 ∨ USER_BYTES < (size + BLOCK_SIZE) % 2 ^ 32)
    (ran : myallocate swapping size m = some (some ptr, m')) :
    (getBlockSize (readWord m'.frames (ptr - BLOCK_SIZE))).toNat = size := by
  obtain ⟨_, m₁, _, ran⟩ := run_bind ran
  obtain ⟨_, m₂, _, ran⟩ := run_bind ran
  obtain ⟨started, m₃, _, ran⟩ := run_bind ran
  split at ran
  · obtain ⟨search, m₄, searched, ran⟩ := run_bind ran
    cases search with
    | found found =>
      have result := paged_steady.firstFitLoop searched
      cases ran
      exact result
    | exhausted prev =>
      obtain ⟨fits, kept⟩ := growHeap_size ran
      refine kept (condition.resolve_right fun large => ?_)
      have bytes := user_bytes
      have width : (sizeWithBlock size).toNat = (size + BLOCK_SIZE) % 2 ^ 32 := BitVec.toNat_ofNat _ _
      unfold USER_BYTES at large
      omega
  · cases ran

end Calls

/-! ### Requests that wrap around -/

/-- **A request that wraps around is served** by a heap of one page and one free block, if one page
more is counted for it. -/
theorem wrapped_served {size z : Nat} (wraps : ¬ size + BLOCK_SIZE < 2 ^ 32)
    (fits : (size + BLOCK_SIZE) % 2 ^ 32 ≤ USER_BYTES) (small : z ≤ USER_BYTES)
    (one : pagesNeeded ⟨z, true⟩ size = 1) :
    Returns (myallocate swapping size) (alone 1 (layout 0 [⟨z, true⟩]))
      fun result _ => result = some BLOCK_SIZE := by
  have four : BLOCK_SIZE = 4 := rfl
  have bytes : USER_BYTES + BLOCK_SIZE = USER_PAGES * PAGESIZE := by decide
  have limit : USER_BYTES < 2 ^ 24 := by decide
  have value : (sizeWithBlock size).toNat = (size + BLOCK_SIZE) % 2 ^ 32 := BitVec.toNat_ofNat _ _
  have chain : Chain (layout 0 [⟨z, true⟩]) false 0 ([] ++ [⟨z, true⟩]) :=
    chain_layout (by simp only [List.mem_singleton, forall_eq]; omega)
  have ample : Ample (alone 1 (layout 0 [⟨z, true⟩])) := alone_ample (by decide) _
  have full : firstFit BLOCK_SIZE size 0 ([] ++ [⟨z, true⟩]) = none := by
    rw [List.nil_append, firstFit, if_neg, if_neg]
    · rfl
    · simp only [true_and]
      omega
    · simp only [true_and]
      omega
  have left : ¬ bytesLeft 0 < sizeWithBlock size := by
    have all : (bytesLeft 0).toNat = USER_BYTES := by decide
    rw [BitVec.lt_def, all, value]
    omega
  have extent : extentOf ([] ++ [(⟨z, true⟩ : Block)]) ≤ USER_PAGES * PAGESIZE := by
    simp only [List.nil_append, extentOf, span]
    omega
  refine ample.searches Nat.one_pos chain extent full fun timer => ?_
  have ample' : Ample { alone 1 (layout 0 [⟨z, true⟩]) with timer := timer } :=
    ample.of_same ⟨rfl, rfl, rfl, rfl⟩ rfl
  refine (ample'.growHeap_free chain.1 rfl (by decide) ?_ left ?_ ?_ ?_).mono fun result _ served => ?_
  · rw [value]
    show 0 + _ + BLOCK_SIZE ≤ _
    omega
  · rw [one]
    decide
  · rw [one]
    decide
  · rw [one]
    show ((1 : Nat) : Int) + 1 ≤ USER_PAGES
    decide
  · rw [served.1]
    exact congrArg some (Nat.zero_add _)

/-- A block of as many bytes as `sizeWithBlock` says gets one page more. -/
theorem pagesNeeded_of_width {size z : Nat} (same : z = (size + BLOCK_SIZE) % 2 ^ 32) :
    pagesNeeded ⟨z, true⟩ size = 1 := by
  have width : BitVec.ofNat 32 z = sizeWithBlock size := by
    refine BitVec.eq_of_toNat_eq ?_
    rw [sizeWithBlock, BitVec.toNat_ofNat, BitVec.toNat_ofNat, same, Nat.mod_mod]
  unfold pagesNeeded growthRequest
  rw [width, if_pos rfl, show (0 : BitVec 32) = 0#32 from rfl, BitVec.zero_add, BitVec.sub_self]
  rfl

/-- Who asks. -/
inductive Caller
  | LIBRARYREQ
  | THREADREQ

/-- **Whatever the memory and the tables hold, a pointer that is handed out heads a block of at least
the size that was asked for.** -/
def KeepsSize (size : Nat) : Caller → Prop
  | .LIBRARYREQ => ∀ m ptr m', myallocateLibrary plain size m = some (some ptr, m') →
      size ≤ (getBlockSize (readWord m' (ptr - BLOCK_SIZE))).toNat
  | .THREADREQ => ∀ m ptr m', myallocate swapping size m = some (some ptr, m') →
      size ≤ (getBlockSize (readWord m'.frames (ptr - BLOCK_SIZE))).toNat

/-- A request that wraps around gets less than it asked for. -/
theorem not_keepsSize_of_wrapped {size : Nat} (wraps : ¬ size + BLOCK_SIZE < 2 ^ 32)
    (fits : (size + BLOCK_SIZE) % 2 ^ 32 ≤ USER_BYTES) : ¬ KeepsSize size .THREADREQ := by
  intro keeps
  obtain ⟨_, m', ran, rfl⟩ := wrapped_served wraps fits fits (pagesNeeded_of_width rfl)
  have stored := keeps _ _ m' ran
  have small : (getBlockSize (readWord m'.frames (BLOCK_SIZE - BLOCK_SIZE))).toNat < 2 ^ 24 :=
    toNat_getBlockSize_lt
  have four : BLOCK_SIZE = 4 := rfl
  omega

/-- **Sizes are kept exactly if they are not wrapped around** to something that fits. -/
theorem size_kept_iff (caller : Caller) (size : Nat) : KeepsSize size caller ↔
    caller = .LIBRARYREQ ∨ size + BLOCK_SIZE < 2 ^ 32 ∨
      USER_BYTES < (size + BLOCK_SIZE) % 2 ^ 32 := by
  cases caller with
  | LIBRARYREQ =>
    refine ⟨fun _ => Or.inl rfl, fun _ m ptr m' ran => ?_⟩
    obtain ⟨search, m₁, found, ran⟩ := run_bind ran
    cases search with
    | exhausted prev => cases ran
    | found ptr =>
      cases ran
      exact Nat.le_of_eq (plain_steady.firstFitLoop found).symm
  | THREADREQ =>
    constructor
    · intro keeps
      refine Or.inr ?_
      by_contra neither
      rw [not_or] at neither
      exact not_keepsSize_of_wrapped neither.1 (Nat.not_lt.mp neither.2) keeps
    · intro condition m ptr m' ran
      refine Nat.le_of_eq (myallocate_size (condition.resolve_left ?_) ran).symm
      intro impossible
      cases impossible

/-- **A request for `2 ^ 32` bytes is served**, by a thread with one empty page. -/
theorem size_not_kept : ∃ m', myallocate swapping (2 ^ 32)
      (alone 1 (layout 0 [⟨PAGESIZE - BLOCK_SIZE, true⟩])) = some (some BLOCK_SIZE, m') ∧
    ¬ 2 ^ 32 ≤ (getBlockSize (readWord m'.frames (BLOCK_SIZE - BLOCK_SIZE))).toNat := by
  have served : Returns (myallocate swapping (2 ^ 32))
      (alone 1 (layout 0 [⟨PAGESIZE - BLOCK_SIZE, true⟩])) _ :=
    wrapped_served (by decide) (by decide) (by decide) (by decide)
  obtain ⟨_, m', ran, rfl⟩ := served
  refine ⟨m', ran, Nat.not_le.mpr ?_⟩
  exact lt_trans toNat_getBlockSize_lt (by decide)

end OS2017.Paging
