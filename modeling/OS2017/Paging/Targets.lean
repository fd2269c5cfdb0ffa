/-
**The frames that the copies of a call go to.**

A call of `myallocate` makes a first page if frame `0` is not the thread's (`StartsPage`), and as many
pages for the growth of its heap as are counted behind the last block (`growthPages`). The pages go to
their own frames, and what is there goes to the free frames, in ascending order: if each of those the
call comes to is the frame of the new page itself, or is not protected (`CopiesClear`), its copies touch
accessible frames, in whatever state a run has come to (`copies_open`). An exit leaves free frames that
are protected, and a copy that goes to one of them faults (`copies_not_open`).
-/

import OS2017.Paging.Walks

namespace OS2017.Paging

open OS2017.Bytes OS2017.Heap OS2017.FirstFit OS2017.Run

/-! ### The pages of a call -/

/-- The pages that are made before the search. -/
def firstPages (m : Machine) : Nat := if StartsPage m then 1 else 0

/-- **The pages for the growth of the heap**, none if a block of it serves the request. -/
def growthPages (m : Machine) (size : Nat) : Nat :=
  match (startBlocks m).getLast? with
  | none => 0
  | some last =>
    if firstFit BLOCK_SIZE size 0 (startBlocks m) = none ∧
        ¬ bytesLeft (lastBlock 0 (startBlocks m)) < sizeWithBlock size ∧
        pagesNeeded last size ≤ (freeCount m - firstPages m : Nat) then
      (pagesNeeded last size).toNat
    else 0

/-- **The running thread's memory is in order**: what is open among the frames in use is its own, and its
blocks follow one another inside its pages. -/
structure InOrder (m : Machine) : Prop where
  home : ∀ i < USER_PAGES, m.accessible i = true → getPageIsF (m.pages i) = 0 →
    Labels (m.pages i) m.thread i
  bounded : m.pageNum m.thread + firstPages m ≤ USER_PAGES
  heap : m.pageNum m.thread = 0 ∨ (startBlocks m ≠ [] ∧
    Chain (m.view m.thread) false 0 (startBlocks m) ∧
      extentOf (startBlocks m) ≤ m.pageNum m.thread * PAGESIZE)

/-- No free frame is protected. -/
def AllOpen (m : Machine) : Prop := ∀ f ∈ freeFrames m, m.accessible f = true

/-- **No copy goes to a protected frame.** Where there are protected frames among the free ones, the first
page takes its own frame, and behind the search the free frames that the rounds come to are those of their
pages, or open. -/
def CopiesClear (m : Machine) (size : Nat) : Prop :=
  AllOpen (fetchedSlots m) ∨
    (InOrder m ∧ (StartsPage m → 0 ∈ freeFrames (fetchedSlots m)) ∧
      CopiesOpen (growthPages m size) (walked m))

/-! ### The pages counted -/

section Counts

variable {live : Nat → Bool} {threadNum t : Nat} {m s : Machine} {size : Nat}

theorem isEnoughPages_le (s : Machine) (request : BitVec 32) : isEnoughPages s request ≤ freeCount s := by
  unfold isEnoughPages
  dsimp only
  split
  · assumption
  · exact Int.natCast_nonneg _

/-- No more than there are free entries. -/
theorem growthCount_le_freeCount {prev : Nat} {s₁ s₂ : Machine} {word : BitVec 32}
    (searched : firstFitLoop paged size (sizeWithBlock size) walkFuel 0 s = some (.exhausted prev, s₁))
    (loaded : paged.load prev s₁ = some (word, s₂)) : growthCount size word s₂ ≤ freeCount s := by
  have first : freeCount s₁ = freeCount s :=
    (keeps_firstFitLoop permutes_composes keeps_load keeps_store _ _ _ _ _ _ _ searched).freeCount
  have second : freeCount s₂ = freeCount s₁ := (keeps_load _ _ _ _ loaded).freeCount
  rw [← first, ← second]
  exact isEnoughPages_le _ _

/-- **A search that finds nothing** has gone through all blocks. -/
theorem Serving.exhausted {pageNum : Nat → Nat} {others : Nat → Memory} {reserve : Prop}
    {blocks : List Block} (serving : Serving live threadNum t pageNum others reserve s)
    (nonempty : blocks ≠ []) (chain : Chain (s.view t) false 0 blocks)
    (inside : extentOf blocks ≤ pageNum t * PAGESIZE) {prev : Nat} {s₁ : Machine}
    (searched : firstFitLoop paged size (sizeWithBlock size) walkFuel 0 s = some (.exhausted prev, s₁)) :
    firstFit BLOCK_SIZE size 0 blocks = none ∧ prev = lastBlock 0 blocks ∧
      Serving live threadNum t pageNum others reserve s₁ ∧ s₁.view t = s.view t := by
  have bytes := user_bytes
  have bounded : pageNum t * PAGESIZE ≤ USER_PAGES * PAGESIZE := Nat.mul_le_mul_right _ serving.bounded
  have enough : blocks.length ≤ walkFuel := by
    have length : blocks.length ≤ extentOf blocks := length_le_span (by decide) _
    unfold walkFuel
    omega
  have allocated := (firstFitLoop_spec (n := size) (paged_backed live threadNum t pageNum others reserve)
    nonempty ⟨serving, rfl⟩ chain (by rw [Nat.zero_add]; exact inside) enough).of_run searched
  cases full : firstFit BLOCK_SIZE size 0 blocks with
  | some found =>
    obtain ⟨header, blocks'⟩ := found
    rw [full] at allocated
    obtain ⟨impossible, _⟩ := allocated
    cases impossible
  | none =>
    rw [full] at allocated
    obtain ⟨same, serving₁, shown⟩ := allocated
    cases same
    exact ⟨rfl, rfl, serving₁, shown⟩

/-- **On a heap in order, those of the growth.** -/
theorem Serving.growthCount_le {pageNum : Nat → Nat} {others : Nat → Memory} {reserve : Prop}
    (serving : Serving live threadNum t pageNum others reserve s)
    (nonempty : startBlocks m ≠ []) (chain : Chain (s.view t) false 0 (startBlocks m))
    (inside : extentOf (startBlocks m) ≤ pageNum t * PAGESIZE)
    (spare : freeCount s = freeCount m - firstPages m) {prev : Nat} {s₁ s₂ : Machine} {word : BitVec 32}
    (searched : firstFitLoop paged size (sizeWithBlock size) walkFuel 0 s = some (.exhausted prev, s₁))
    (room : ¬ bytesLeft prev < sizeWithBlock size) (loaded : paged.load prev s₁ = some (word, s₂)) :
    growthCount size word s₂ ≤ growthPages m size := by
  have four : BLOCK_SIZE = 4 := rfl
  have backed := paged_backed live threadNum t pageNum others reserve
  have count₁ : freeCount s₁ = freeCount s :=
    (keeps_firstFitLoop permutes_composes keeps_load keeps_store _ _ _ _ _ _ _ searched).freeCount
  have count₂ : freeCount s₂ = freeCount s₁ := (keeps_load _ _ _ _ loaded).freeCount
  obtain ⟨full, rfl, serving₁, view₁⟩ := serving.exhausted nonempty chain inside searched
  obtain ⟨front, last, split⟩ : ∃ front last, startBlocks m = front ++ [last] :=
    ⟨_, _, (List.dropLast_append_getLast nonempty).symm⟩
  rw [split] at chain inside
  rw [split, lastBlock_append, Nat.zero_add] at loaded room
  simp only [extentOf, span_append, span] at inside
  obtain ⟨_, header, _⟩ := chain_append.mp chain
  rw [Nat.zero_add] at header
  have wordEq := ((backed.load s₁ (extentOf front) serving₁ (by simp only [extentOf]; omega)).of_run
    loaded).1
  have headerWord : Header word last false := by
    rw [wordEq]
    show Header (readWord (s₁.view t) (extentOf front)) last false
    rw [view₁]
    exact header
  have counted : growthCount size word s₂ = if pagesNeeded last size ≤ freeCount s then
      pagesNeeded last size else 0 := by
    rw [growthCount, growthRequest_of_header headerWord, isEnoughPages, count₂, count₁]
    rfl
  rw [counted, growthPages, split, List.getLast?_concat]
  dsimp only
  rw [← split, full, split, lastBlock_append, Nat.zero_add, ← spare]
  by_cases many : pagesNeeded last size ≤ freeCount s
  · rw [if_pos many, if_pos ⟨rfl, room, many⟩]
    exact Int.self_le_toNat _
  · rw [if_neg many]
    exact Int.natCast_nonneg _

end Counts

/-! ### The start of the search -/

section Begins

variable {live : Nat → Bool} {threadNum : Nat} {m m₁ m₂ : Machine} {size : Nat} {timer : Timer}

theorem firstPages_of (starts : StartsPage m) : firstPages m = 1 := if_pos starts

theorem firstPages_of_not (own : ¬ StartsPage m) : firstPages m = 0 := if_neg own

/-- The labels are right for the thread alone. -/
theorem Labelled.alone {pageNum : Nat → Nat} {entry : Place → BitVec 32} {t : Nat}
    (labelled : Labelled live threadNum pageNum entry) (alive : live t = true) :
    Labelled (fun u => decide (u = t)) threadNum pageNum entry := by
  have among : ∀ u, decide (u = t) = true → live u = true := fun u same =>
    (of_decide_eq_true same).symm ▸ alive
  exact
    { exists_of_lt := fun u lives => labelled.exists_of_lt u (among u lives)
      unique := fun u lives => labelled.unique u (among u lives)
      below := fun u lives => labelled.below u (among u lives)
      stale := fun place inside isFree u lives => labelled.stale place inside isFree u (among u lives)
      flags := labelled.flags
      created := labelled.created
      ids := fun u lives => labelled.ids u (among u lives)
      small := labelled.small }

/-- `alignPages` leaves the machine orderly. -/
theorem Orderly.aligned (orderly : Orderly live threadNum m)
    (ran : alignPages { m with timer := timer } = some ((), m₁)) : Orderly live threadNum m₁ :=
  KeepsWith.orderly (tidy_parts.composes.trans (tidy_parts.timer m timer)
    (tidy_parts.alignPages _ _ _ ran)) orderly

/-- **A memory in order is sheltered.** -/
theorem Orderly.sheltered (orderly : Orderly live threadNum m) {t : Nat} (thread : m.thread = t)
    (home : ∀ i < USER_PAGES, m.accessible i = true → getPageIsF (m.pages i) = 0 →
      Labels (m.pages i) m.thread i) (bounded : m.pageNum t ≤ USER_PAGES) :
    Sheltered (fun u => decide (u = t)) threadNum m where
  labelled := orderly.labelled.alone (thread ▸ orderly.running)
  running := decide_eq_true thread
  bounded := fun u lives => (of_decide_eq_true lives).symm ▸ bounded
  home := home
  spare := fun i inside reachable isFree u lives => by
    rw [of_decide_eq_true lives, ← thread]
    exact orderly.tidy.pageNum_le orderly.labelled orderly.running ⟨inside, isFree, reachable⟩

/-- A thread without pages starts with one. -/
theorem Labelled.startsPage (labelled : Labelled live threadNum m.pageNum m.entry)
    (alive : live m.thread = true) (none : m.pageNum m.thread = 0) : StartsPage m := by
  have zero : (Place.frame 0).Valid := by
    show 0 < USER_PAGES
    decide
  have slot : (Place.slot 0).Valid := by
    show 0 < DISK_PAGES
    decide
  refine ⟨fun own => ?_, fun label => ?_⟩
  · rcases labelled.flags (.frame 0) zero with used | isFree
    · have below := labelled.below _ alive _ (.frame 0) zero ⟨used, own, rfl⟩
      omega
    · exact labelled.stale (.frame 0) zero isFree _ alive own
  · have below := labelled.below _ alive 0 (.slot 0) slot label
    omega

/-- Behind `alignPages` the test of frame `0` tells whether a first page is made. -/
theorem Alike.startsPage (alike : Alike m₁ (fetchedSlots m)) :
    (getPageThID (m₁.pages 0)).toNat ≠ m₁.thread ↔ StartsPage m := by
  have pages : m₁.pages 0 = if 0 < DISK_PAGES ∧ swappedAt m 0 then m.diskPages 0 else m.pages 0 :=
    congrFun alike.entry (.frame 0)
  have slot : (0 < DISK_PAGES ∧ swappedAt m 0) ↔ Labels (m.diskPages 0) m.thread 0 :=
    ⟨fun ⟨_, used, thID, pgID⟩ => ⟨used, thID, pgID.symm⟩,
      fun label => ⟨by decide, label.used, label.thID, label.pgID.symm⟩⟩
  rw [pages, alike.thread, StartsPage]
  show _ ≠ m.thread ↔ _
  by_cases label : Labels (m.diskPages 0) m.thread 0
  · rw [if_pos (slot.mpr label)]
    exact ⟨fun other => absurd label.thID other, fun both => absurd label both.2⟩
  · rw [if_neg fun both => label (slot.mp both)]
    exact ⟨fun other => ⟨other, label⟩, And.left⟩

/-- The first page is made. -/
theorem firstPage_run (foreign : (getPageThID (m₁.pages 0)).toNat ≠ m₁.thread)
    (ran : firstPage swapping m₁ = some (true, m₂)) :
    ∃ m', makeRoom 0 m₁ = some (true, m') ∧ initializePage 0 m' = some ((), m₂) := by
  rw [firstPage, look_run, look_run, if_pos foreign] at ran
  obtain ⟨freed, m', room, ran⟩ := run_bind ran
  cases freed with
  | false => cases ran
  | true =>
    obtain ⟨_, m'', new, ran⟩ := run_bind ran
    cases ran
    exact ⟨m', room, new⟩

/-- It is there already. -/
theorem firstPage_own (own : (getPageThID (m₁.pages 0)).toNat = m₁.thread)
    (ran : firstPage swapping m₁ = some (true, m₂)) : m₂ = m₁ := by
  rw [firstPage, look_run, look_run, if_neg (not_not.mpr own)] at ran
  cases ran
  rfl

theorem freeFrame_of_zero (member : 0 ∈ freeFrames m) : freeFrame m = some 0 := by
  obtain ⟨inside, isFree⟩ := mem_freeFrames.mp member
  cases found : freeFrame m with
  | none => exact absurd isFree (freeFrame_eq_none found inside)
  | some i =>
    obtain ⟨_, _, before⟩ := freeFrame_eq_some found
    rcases Nat.eq_zero_or_pos i with rfl | later
    · rfl
    · exact absurd isFree (before 0 later)

/-- **Room in a free frame** is there already. -/
theorem makeRoom_own {index : Nat} (found : freeFrame m = some index) {freed : Bool}
    (ran : makeRoom index m = some (freed, m₁)) : m₁ = m ∧ Room index (.frame index) m m := by
  obtain ⟨moved, m', first, rest⟩ := run_bind ran
  obtain ⟨inside, ⟨none, _⟩ | ⟨_, rfl, rfl⟩ | ⟨i, other, found', _⟩⟩ := moveToFreeSpace_run first
  · rw [none] at found
    cases found
  · cases rest
    obtain ⟨_, isFree, before⟩ := freeFrame_eq_some found
    refine ⟨rfl, inside, isFree, fun i _ isFree' => ⟨index, rfl, ?_⟩,
      fun place _ => by rw [Equiv.swap_self]; rfl, fun place _ o _ => by rw [Equiv.swap_self]; rfl,
      fun i away reachable => ⟨reachable, by simp [Ne.symm away]⟩, rfl, rfl⟩
    exact not_lt.mp fun later => before i later isFree'
  · rw [found] at found'
    cases found'
    exact absurd rfl other

/-- **The machine at the start of the search**, for the running thread alone. -/
structure Begun (threadNum : Nat) (m m₂ : Machine) : Prop where
  sheltered : Sheltered (fun u => decide (u = m.thread)) threadNum m₂
  thread : m₂.thread = m.thread
  nonempty : startBlocks m ≠ []
  chain : Chain (m₂.view m.thread) false 0 (startBlocks m)
  inside : extentOf (startBlocks m) ≤ m₂.pageNum m.thread * PAGESIZE
  freeCount : freeCount m₂ = freeCount m - firstPages m
  alike : Alike m₂ (entered m)

theorem Begun.serving (begun : Begun threadNum m m₂) : Serving (fun u => decide (u = m.thread))
    threadNum m.thread m₂.pageNum m₂.view False m₂ :=
  ⟨begun.sheltered, begun.thread, rfl, fun _ _ _ => rfl, False.elim⟩

/-- A later page in the free frame `0`, which is protected: the thread's other pages stay. -/
theorem Orderly.begins_later (orderly₁ : Orderly live threadNum m₁)
    (sheltered₁ : Sheltered (fun u => decide (u = m₁.thread)) threadNum m₁)
    (foreign : (getPageThID (m₁.pages 0)).toNat ≠ m₁.thread) (some : m₁.pageNum m₁.thread ≠ 0)
    (bounded : m₁.pageNum m₁.thread + 1 ≤ USER_PAGES) (isFree : getPageIsF (m₁.pages 0) = 1)
    (room : makeRoom 0 m₁ = Option.some (true, m₁)) (new : initializePage 0 m₁ = Option.some ((), m₂)) :
    Sheltered (fun u => decide (u = m₁.thread)) threadNum m₂ ∧
      ∀ a < m₁.pageNum m₁.thread * PAGESIZE, m₂.view m₁.thread a = m₁.view m₁.thread a := by
  have zero : (0 : Nat) < USER_PAGES := by decide
  have claimed : Claimed m₁ 0 := Or.inr ⟨rfl, foreign⟩
  have initialized := (initializePage_spec m₁ zero).of_run new
  have orderly₂ := orderly₁.newPage claimed room new
  have alone : decide (m₁.thread = m₁.thread) = true := decide_eq_true rfl
  -- frame `0` is protected before, and the new page does not open it
  have closed : m₁.accessible 0 = false := by
    cases reachable : m₁.accessible 0 with
    | false => rfl
    | true =>
      have le := orderly₁.tidy.pageNum_le orderly₁.labelled orderly₁.running ⟨zero, isFree, reachable⟩
      omega
  have page := (orderly₁.labelled.newEntry orderly₁.running (m₁.pages 0)).pgID
  obtain ⟨_, frames, accessible⟩ := initialized.heap.resolve_right fun both => by
    rw [both.1] at page
    exact some page.symm
  have pages : ∀ {i}, i ≠ 0 → m₂.pages i = m₁.pages i := fun other => by
    rw [initialized.pages, Function.update_of_ne other]
  have sheltered₂ : Sheltered (fun u => decide (u = m₁.thread)) threadNum m₂ := by
    refine orderly₂.sheltered initialized.thread (fun i inside reachable used => ?_) ?_
    · rw [accessible] at reachable
      have other : i ≠ 0 := fun same => by
        rw [same, closed] at reachable
        cases reachable
      rw [pages other] at used ⊢
      rw [initialized.thread]
      exact sheltered₁.home i inside reachable used
    · rw [initialized.pageNum, Function.update_self]
      exact bounded
  refine ⟨sheltered₂, fun a below => ?_⟩
  refine view_of_kept sheltered₁.labelled sheltered₂.labelled alone (fun k place valid label => ?_) below
  have other : place ≠ .frame 0 := by
    rintro rfl
    exact absurd (label.used.symm.trans isFree) (by decide)
  refine ⟨place, valid, ?_, fun o _ => ?_⟩
  · cases place with
    | slot d =>
      show Labels (m₂.diskPages d) _ _
      rw [initialized.diskPages]
      exact label
    | frame i =>
      show Labels (m₂.pages i) _ _
      rw [pages fun same => other (by rw [same])]
      exact label
  · cases place with
    | slot d => exact congrFun initialized.swpFile _
    | frame i => exact congrFun frames _

/-- **The search starts on the blocks of the heap.** -/
theorem InOrder.begins (order : InOrder m) (orderly : Orderly live threadNum m)
    (ran : alignPages { m with timer := timer } = some ((), m₁))
    (zero : StartsPage m → 0 ∈ freeFrames (fetchedSlots m))
    (first : firstPage swapping m₁ = some (true, m₂)) : Begun threadNum m m₂ := by
  have alike := alignPages_alike orderly.labelled orderly.running ran
  have orderly₁ := orderly.aligned ran
  have bounded : m.pageNum m.thread ≤ USER_PAGES := le_trans (Nat.le_add_right _ _) order.bounded
  have sheltered := orderly.sheltered rfl order.home bounded
  have timed := settled_timer sheltered timer
  have settled := timed.trans (alignPages_settles timed.sheltered ran).1
  have permutes : Permutes m { m with timer := timer } := permutes_of_eq rfl rfl rfl rfl
  have count : freeCount m₁ = freeCount m :=
    (permutes_composes.trans permutes (keeps_alignPages _ _ _ ran)).freeCount
  have alone : decide (m.thread = m.thread) = true := decide_eq_true rfl
  have view₁ := settled.views m.thread alone
  by_cases starts : StartsPage m
  · have foreign := alike.startsPage.mpr starts
    obtain ⟨m', room, new⟩ := firstPage_run foreign first
    have found : freeFrame m₁ = some 0 := by
      refine freeFrame_of_zero ?_
      rw [alike.sameFree.frames]
      exact zero starts
    have isFree := (freeFrame_eq_some found).2.1
    obtain ⟨rfl, roomy⟩ := makeRoom_own found room
    have inside : (0 : Nat) < USER_PAGES := by decide
    have initialized := (initializePage_spec m' inside).of_run new
    have alike₂ : Alike m₂ (entered m) := by
      rw [entered, if_pos starts]
      exact alike.withPage orderly₁.labelled orderly₁.running isFree initialized
    have count₂ : freeCount m₂ = freeCount m - firstPages m := by
      have less := roomy.new_freeCount initialized inside
      rw [firstPages_of starts]
      omega
    by_cases none : m.pageNum m.thread = 0
    · -- the first page of the thread
      have none' : m'.pageNum m'.thread = 0 := by rw [settled.pageNum, settled.thread, none]
      have grown := roomy.grows settled.sheltered (fun i _ _ => by rw [none']; exact Nat.zero_le i)
        inside none'.symm initialized
      have start : startBlocks m = [⟨PAGESIZE - BLOCK_SIZE, true⟩] := if_pos none
      refine ⟨grown.sheltered, grown.thread.trans settled.thread, ?_, ?_, ?_, count₂, alike₂⟩
      · rw [start]
        exact List.cons_ne_nil _ _
      · rw [start, ← settled.thread]
        exact ⟨grown.first none', trivial⟩
      · rw [start, grown.pageNum, ← settled.thread, Function.update_self, none']
        decide
    · obtain ⟨nonempty, chain, extent⟩ := order.heap.resolve_left none
      have some' : m'.pageNum m'.thread ≠ 0 := by
        rw [settled.pageNum, settled.thread]
        exact none
      have room' : m'.pageNum m'.thread + 1 ≤ USER_PAGES := by
        rw [settled.pageNum, settled.thread, ← firstPages_of starts]
        exact order.bounded
      have sheltered' := settled.sheltered
      rw [← settled.thread] at sheltered'
      obtain ⟨sheltered₂, views⟩ :=
        orderly₁.begins_later sheltered' foreign some' room' isFree room new
      rw [settled.thread, settled.pageNum] at views
      rw [settled.thread] at sheltered₂
      refine ⟨sheltered₂, initialized.thread.trans settled.thread, nonempty, ?_, ?_, count₂, alike₂⟩
      · refine chain.congr fun c _ below => ?_
        rw [Nat.zero_add] at below
        rw [views c (lt_of_lt_of_le below extent), view₁]
      · rw [initialized.pageNum, settled.thread, Function.update_self, settled.pageNum]
        exact le_trans extent (Nat.mul_le_mul_right _ (Nat.le_succ _))
  · have own : (getPageThID (m₁.pages 0)).toNat = m₁.thread :=
      not_not.mp fun foreign => starts (alike.startsPage.mp foreign)
    cases firstPage_own own first
    have none : m.pageNum m.thread ≠ 0 := fun none =>
      starts (orderly.labelled.startsPage orderly.running none)
    obtain ⟨nonempty, chain, extent⟩ := order.heap.resolve_left none
    refine ⟨settled.sheltered, settled.thread, nonempty, ?_, ?_, ?_, ?_⟩
    · rw [view₁]
      exact chain
    · rw [settled.pageNum]
      exact extent
    · rw [count, firstPages_of_not starts, Nat.sub_zero]
    · rw [entered, if_neg starts]
      exact alike

end Begins

/-! ### The rounds of a call -/

section Rounds

variable {live : Nat → Bool} {threadNum : Nat} {m m₁ m₂ : Machine} {size : Nat} {timer : Timer}

theorem AllOpen.copiesOpen (opened : AllOpen m) (n : Nat) : CopiesOpen n m :=
  fun _ _ f found => Or.inr (opened f (List.mem_of_getElem? found))

theorem AllOpen.copies (opened : AllOpen m) (index : Nat) : Copies m index := by
  intro i found
  obtain ⟨inside, isFree, _⟩ := freeFrame_eq_some found
  exact Or.inr (opened i (mem_freeFrames.mpr ⟨inside, isFree⟩))

theorem AllOpen.of_same (opened : AllOpen m) (same : SameFree m m₁) : AllOpen m₁ := by
  intro f member
  rw [same.frames] at member
  rw [same.accessible f member]
  exact opened f member

/-- **The copy for the first page does not fault**, if one is made. -/
theorem CopiesClear.copies (clear : CopiesClear m size) (starts : StartsPage m)
    (alike : Alike m₁ (fetchedSlots m)) : Copies m₁ 0 := by
  rcases clear with opened | ⟨_, zero, _⟩
  · exact (opened.of_same alike.sameFree).copies 0
  · have member : 0 ∈ freeFrames m₁ := by
      rw [alike.sameFree.frames]
      exact zero starts
    intro i found
    rw [freeFrame_of_zero member] at found
    cases found
    exact Or.inl rfl

theorem Orderly.started (orderly : Orderly live threadNum m₁)
    (first : firstPage swapping m₁ = some (true, m₂)) : Orderly live threadNum m₂ := by
  by_cases own : (getPageThID (m₁.pages 0)).toNat = m₁.thread
  · cases firstPage_own own first
    exact orderly
  · obtain ⟨m', room, new⟩ := firstPage_run own first
    exact orderly.newPage (Or.inr ⟨rfl, own⟩) room new

/-- Where all free frames are open, they are behind the first page. -/
theorem AllOpen.started (opened : AllOpen m₁) (orderly : Orderly live threadNum m₁)
    (first : firstPage swapping m₁ = some (true, m₂)) : AllOpen m₂ := by
  by_cases own : (getPageThID (m₁.pages 0)).toNat = m₁.thread
  · cases firstPage_own own first
    exact opened
  · obtain ⟨m', room, new⟩ := firstPage_run own first
    have claimed : Claimed m₁ 0 := Or.inr ⟨rfl, own⟩
    have inside : (0 : Nat) < USER_PAGES := by decide
    obtain ⟨frames, accessible⟩ := newPage_frames orderly.tidy orderly.labelled orderly.running claimed
      (opened.copies 0) room ((initializePage_spec m' inside).of_run new)
    intro f member
    rw [accessible f member]
    rw [frames] at member
    exact opened f (List.mem_of_mem_tail member)

/-- **The rounds behind the search.** -/
theorem CopiesClear.searchMoves (clear : CopiesClear m size) (orderly : Orderly live threadNum m)
    (ran : alignPages { m with timer := timer } = some ((), m₁))
    (first : firstPage swapping m₁ = some (true, m₂)) :
    ∀ move ∈ Paging.searchMoves size m₂, ∀ touch ∈ roomTouches move.1 move.2, touch.2 = true := by
  have orderly₁ := orderly.aligned ran
  have orderly₂ := orderly₁.started first
  have alike := alignPages_alike orderly.labelled orderly.running ran
  intro move member
  obtain ⟨search, s, searched, member⟩ := mem_arrive member
  cases search with
  | found ptr => cases member
  | exhausted prev =>
    rcases clear with opened | ⟨order, zero, clear⟩
    · -- any number of rounds
      have opened₂ := (opened.of_same alike.sameFree).started orderly₁ first
      obtain ⟨orderly₃, clear₃⟩ := orderly₂.keeps_clear (opened₂.copiesOpen (freeCount m₂))
        (free_parts.searchLoop _ _ _ _ searched) (tidy_parts.searchLoop _ _ _ _ searched)
      exact growMoves_clear orderly₃ clear₃ (fun _ _ _ loaded =>
        growthCount_le_freeCount searched loaded) move member
    · -- those that are counted behind the blocks of the heap
      have begun := order.begins orderly ran zero first
      obtain ⟨full, _⟩ :=
        begun.serving.exhausted begun.nonempty begun.chain begun.inside searched
      have alike₃ : Alike s (walked m) := firstFitLoop_alike begun.serving begun.nonempty begun.chain
        (by rw [Nat.zero_add]; exact begun.inside) full searched begun.alike
      have orderly₃ := (tidy_parts.searchLoop _ _ _ _ searched).orderly orderly₂
      exact growMoves_clear orderly₃ (clear.of_same alike₃.sameFree) (fun room _ _ loaded =>
        begun.serving.growthCount_le begun.nonempty begun.chain begun.inside begun.freeCount searched
          room loaded) move member

/-- **The copies of a call.** -/
theorem CopiesClear.touches (clear : CopiesClear m size) (orderly : Orderly live threadNum m) :
    ∀ touch ∈ allocateTouches size m, touch.2 = true := by
  intro touch member
  obtain ⟨move, moved, member⟩ := List.mem_flatMap.mp member
  obtain ⟨_, m₀, paused, moved⟩ := mem_arrive moved
  cases paused
  obtain ⟨_, m₁, aligned, moved⟩ := mem_arrive moved
  have alike := alignPages_alike orderly.labelled orderly.running aligned
  rcases List.mem_append.mp moved with here | later
  · unfold firstMoves at here
    split at here
    · rename_i foreign
      cases List.mem_singleton.mp here
      exact roomTouches_open (clear.copies (alike.startsPage.mp foreign) alike) touch member
    · cases here
  · obtain ⟨ready, m₂, first, later⟩ := mem_arrive later
    cases ready with
    | false => cases later
    | true => exact clear.searchMoves orderly aligned first move later touch member

end Rounds

/-! ### Runs -/

/-- **The copies of an eviction touch accessible frames**, in every state of every run, if those that the
call comes to are clear. -/
theorem copies_open {s : System} (reached : Reach SystemStarted Admitted (execStep System.act) s)
    {size : Nat} (admitted : Admitted s (.event (.allocate size)))
    (clear : CopiesClear s.machine size) : ∀ touch ∈ allocateTouches size s.machine, touch.2 = true := by
  obtain ⟨sound, tidy⟩ := tidy_of_acts reached
  exact clear.touches ⟨sound.well, admitted.running, tidy admitted.running⟩

/-- The second thread exits, and leaves frame `0` free and protected; the third one has no page. -/
def exitBefore : List Act :=
  [.event (.allocate 100), .event .create, .event .create, .event (.switch 2), .event (.allocate 100),
    .event (.exit (some 3))]

theorem copies_open_exitBefore : ∃ s : System, 0 ∈ freeFrames s.machine ∧ s.machine.accessible 0 = false ∧
    allocateTouches 5000 s.machine = [(1, true), (2, true)] ∧
    ∀ touch ∈ allocateTouches 5000 s.machine, touch.2 = true := by
  have start : Reach SystemStarted Admitted (execStep System.act) zeroSystem :=
    .init zeroSystem_started
  obtain ⟨s, reached, held⟩ := start.exists_of_execAll exitBefore
    (fun s => Admitted s (.event (.allocate 5000)) ∧ s.machine.pageNum s.machine.thread = 0 ∧
      (∀ i < USER_PAGES, s.machine.accessible i = true → getPageIsF (s.machine.pages i) = 1) ∧
      freeFrame s.machine = some 0 ∧ s.machine.accessible 0 = false ∧
      freeFrame (fetchedSlots s.machine) = some 0 ∧ growthPages s.machine 5000 = 1 ∧
      freeFrame (walked s.machine) = some 2 ∧ (walked s.machine).accessible 2 = true ∧
      allocateTouches 5000 s.machine = [(1, true), (2, true)])
    (by decide +kernel)
  obtain ⟨admitted, none, opened, first, closed, zero, pages, next, reachable, touched⟩ :=
    of_decide_eq_true held
  have free : ∀ {m : Machine} {i}, freeFrame m = some i → i ∈ freeFrames m := fun found => by
    obtain ⟨inside, isFree, _⟩ := freeFrame_eq_some found
    exact mem_freeFrames.mpr ⟨inside, isFree⟩
  have order : InOrder s.machine := by
    refine ⟨fun i inside reachable used => ?_, ?_, Or.inl none⟩
    · cases used.symm.trans (opened i inside reachable)
    · rw [none, firstPages]
      split <;> decide
  have clear : CopiesClear s.machine 5000 := by
    refine Or.inr ⟨order, fun _ => free zero, fun j before f found => Or.inr ?_⟩
    rw [pages] at before
    obtain rfl : j = 0 := by omega
    rw [← List.head?_eq_getElem?, ← freeFrame_eq_head, next] at found
    cases found
    exact reachable
  exact ⟨s, free first, closed, touched, copies_open reached admitted clear⟩

/-- A thread with two pages exits, and leaves frame `3` free and protected. -/
def exitBetween : List Act :=
  [.event (.allocate 100), .event .create, .event .create, .event (.switch 2),
    .event (.allocate 5000), .event (.switch 3), .event (.allocate 100), .event (.switch 2),
    .event (.exit (some 3))]

/-- **A copy writes a protected frame**: the growth of the third thread's heap moves the first one's page
to frame `3`. -/
theorem copies_not_open : ∃ s : System, Reach SystemStarted Admitted (execStep System.act) s ∧
    Admitted s (.event (.allocate 10000)) ∧ (3, false) ∈ allocateTouches 10000 s.machine := by
  have start : Reach SystemStarted Admitted (execStep System.act) zeroSystem :=
    .init zeroSystem_started
  obtain ⟨s, reached, held⟩ := start.exists_of_execAll exitBetween
    (fun s => Admitted s (.event (.allocate 10000)) ∧
      (3, false) ∈ allocateTouches 10000 s.machine) (by decide +kernel)
  exact ⟨s, reached, of_decide_eq_true held⟩

end OS2017.Paging
