/-
**Whether a call is refused only if it has to be.**

A request of a thread has to be refused if none of its blocks serves it and the block that would be
made for it does not end inside of user space or needs more pages than there are free entries
(`MustFail`). `myallocate` refuses more than that. Behind a taken last block that is more than a page
larger than the request, the count of the pages is not positive; and a block that ends where the room
does, with less than the header of a rest behind it, is refused (`Miscounts`). And a thread that has no
page yet is given one before the rest of the request is looked at, and keeps it (`StartsInVain`).
Everywhere else a refusal is right, and leaves all as it was (`refused_rightly_iff`).
-/

import OS2017.Paging.Tiling

namespace OS2017.Paging

open OS2017.Bytes OS2017.Heap OS2017.FirstFit

/-- A block that the search takes. -/
def Suits (size : Nat) (b : Block) : Prop :=
  b.free = true ∧ (b.size = size ∨ size + BLOCK_SIZE ≤ b.size)

/-- The blocks before the one that is made: a free last block is used, a taken one is not. -/
def kept (blocks : List Block) : List Block :=
  match blocks.getLast? with
  | some last => grownFront blocks.dropLast last
  | none => []

/-- The end of the block that is made: its header and the bytes asked for. -/
def requestEnd (blocks : List Block) (size : Nat) : Nat :=
  extentOf (kept blocks) + BLOCK_SIZE + size

/-- The pages that are missing up to `stop`. -/
def pagesMissing (pages stop : Nat) : Nat := (stop - pages * PAGESIZE + (PAGESIZE - 1)) / PAGESIZE

/-- **The call has to fail.** -/
def MustFail (m : Machine) (blocks : List Block) (size : Nat) : Prop :=
  (∀ b ∈ blocks, ¬ Suits size b) ∧ (USER_PAGES * PAGESIZE < requestEnd blocks size ∨
    freeCount m < pagesMissing (m.pageNum m.thread) (requestEnd blocks size))

/-- **A refusal is right**, and nothing has changed. -/
def RefusedRightly (m : Machine) (blocks : List Block) (size : Nat) : Prop :=
  ∀ m', myallocate swapping size m = some (none, m') →
    MustFail m blocks size ∧ SameTables m m' ∧ HomeHeap m' blocks

/-- **Behind a taken last block**: it is more than a page larger than the request, or hardly larger than
nothing, and the block that is made ends where the last page there is does. -/
def MiscountsTaken (available stop size : Nat) (last : Block) : Prop :=
  size + 2 * BLOCK_SIZE + PAGESIZE ≤ last.size ∨ available + last.size ≤ stop + BLOCK_SIZE

/-- **In a free last block**: behind the block that is made there is no room for the header of a rest,
or just that. -/
def MiscountsFree (available stop : Nat) : Prop :=
  USER_PAGES * PAGESIZE < stop + BLOCK_SIZE ∨ available ≤ stop + BLOCK_SIZE

/-- The bytes of the pages the thread has and those it could be given. -/
def available (m : Machine) : Nat := (m.pageNum m.thread + freeCount m) * PAGESIZE

/-- **The pages are miscounted**: a block could be made, but the count is not that of its pages. -/
def Miscounts (m : Machine) (blocks : List Block) (size : Nat) : Prop :=
  (∀ b ∈ blocks, ¬ Suits size b) ∧ requestEnd blocks size ≤ USER_PAGES * PAGESIZE ∧
    requestEnd blocks size ≤ available m ∧
    ∃ last ∈ blocks.getLast?, if last.free then MiscountsFree (available m) (requestEnd blocks size)
      else MiscountsTaken (available m) (requestEnd blocks size) size last

/-- The copy that makes room for the next page does not fault: the frame it goes to is open. -/
def Copies (m : Machine) (index : Nat) : Prop := ∀ i ∈ freeFrame m, i = index ∨ m.accessible i = true

/-- **A first page is given in vain**: there is one, it can be moved to frame 0, but it does not serve
the request and there is no room for the rest. -/
def StartsInVain (m : Machine) (size : Nat) : Prop :=
  0 < freeCount m ∧ Copies m 0 ∧
    ¬ Suits size ⟨PAGESIZE - BLOCK_SIZE, true⟩ ∧
    (USER_PAGES * PAGESIZE < size + 2 * BLOCK_SIZE ∨ freeCount m * PAGESIZE ≤ size + 2 * BLOCK_SIZE)

/-! ### The counts -/

section Counts

variable {front : List Block} {last : Block} {n f size : Nat}

theorem lt_pagesMissing {stop : Nat} : f < pagesMissing n stop ↔ (n + f) * PAGESIZE < stop := by
  have page : PAGESIZE = 4096 := rfl
  unfold pagesMissing
  rw [Nat.add_mul, page]
  omega

theorem requestEnd_concat : requestEnd (front ++ [last]) size
    = extentOf (grownFront front last) + BLOCK_SIZE + size := by
  unfold requestEnd kept
  rw [List.getLast?_concat, List.dropLast_concat]

theorem requestEnd_firstPage :
    requestEnd ([] ++ [⟨PAGESIZE - BLOCK_SIZE, true⟩]) size + BLOCK_SIZE = size + 2 * BLOCK_SIZE := by
  rw [requestEnd_concat, grownFront, if_pos rfl]
  simp only [extentOf, span]
  omega

/-- **The code's own refusals.** -/
def Refuses (f : Nat) (front : List Block) (last : Block) (size : Nat) : Prop :=
  bytesLeft (extentOf front) < sizeWithBlock size ∨ pagesNeeded last size ≤ 0 ∨
    (f : Int) < pagesNeeded last size

/-- The bytes that are counted for a block. -/
theorem pagesNeeded_of_le (small : size < 2 ^ 24) (short : last.size < 2 ^ 24)
    (wide : last.size ≤ size + BLOCK_SIZE + if last.free then 0 else BLOCK_SIZE) :
    pagesNeeded last size =
      ((size + BLOCK_SIZE + (if last.free then 0 else BLOCK_SIZE) - last.size) / PAGESIZE + 1 : Nat) := by
  have four : BLOCK_SIZE = 4 := rfl
  have signed : (growthRequest last size).toInt =
      (size + BLOCK_SIZE + (if last.free then 0 else BLOCK_SIZE) - last.size : Nat) := by
    rw [toInt_growthRequest short (by omega)]
    omega
  unfold pagesNeeded
  rw [signed, ← Int.ofNat_tdiv]
  rfl

/-- Where the last block is larger than that, the count is not more than one. -/
theorem pagesNeeded_of_gt (small : size < 2 ^ 24) (short : last.size < 2 ^ 24)
    (narrow : size + BLOCK_SIZE + (if last.free then 0 else BLOCK_SIZE) ≤ last.size) :
    pagesNeeded last size =
      1 - ((last.size - (size + BLOCK_SIZE + if last.free then 0 else BLOCK_SIZE)) / PAGESIZE : Nat) := by
  have four : BLOCK_SIZE = 4 := rfl
  have signed : (growthRequest last size).toInt =
      - (last.size - (size + BLOCK_SIZE + if last.free then 0 else BLOCK_SIZE) : Nat) := by
    rw [toInt_growthRequest short (by omega)]
    omega
  unfold pagesNeeded
  rw [signed, Int.neg_tdiv, ← Int.ofNat_tdiv]
  omega

/-- In a free last block the refusals are right but for a block that ends where the room does. -/
theorem refuses_free (small : size < 2 ^ 24) (short : last.size < 2 ^ 24) (isFree : last.free = true)
    (tooSmall : last.size < size + BLOCK_SIZE) (bounded : n ≤ USER_PAGES)
    (ends : extentOf front + BLOCK_SIZE + last.size = n * PAGESIZE) :
    Refuses f front last size ↔
      MiscountsFree ((n + f) * PAGESIZE) (requestEnd (front ++ [last]) size) := by
  have four : BLOCK_SIZE = 4 := rfl
  have below := Nat.mul_le_mul_right PAGESIZE bounded
  have count := pagesNeeded_of_le small short (by omega)
  rw [if_pos isFree] at count
  rw [MiscountsFree, requestEnd_concat, grownFront, if_pos isFree, Refuses, count, BitVec.lt_def,
    toNat_bytesLeft (by omega), toNat_sizeWithBlock (by omega)]
  unfold PAGESIZE at ends ⊢
  omega

/-- Behind a taken one they are right but where the count goes down. -/
theorem refuses_taken (small : size < 2 ^ 24) (short : last.size < 2 ^ 24) (taken : last.free = false)
    (ends : extentOf front + BLOCK_SIZE + last.size = n * PAGESIZE)
    (inside : requestEnd (front ++ [last]) size ≤ USER_PAGES * PAGESIZE)
    (enough : requestEnd (front ++ [last]) size ≤ (n + f) * PAGESIZE) :
    Refuses f front last size ↔
      MiscountsTaken ((n + f) * PAGESIZE) (requestEnd (front ++ [last]) size) size last := by
  have four : BLOCK_SIZE = 4 := rfl
  have place : requestEnd (front ++ [last]) size = n * PAGESIZE + BLOCK_SIZE + size := by
    rw [requestEnd_concat, grownFront, if_neg (by rw [taken]; decide), ← ends]
    simp only [extentOf, span_append, span]
    omega
  rw [MiscountsTaken]
  rw [place] at inside enough ⊢
  rw [Refuses, BitVec.lt_def, toNat_bytesLeft (by omega), toNat_sizeWithBlock (by omega)]
  rcases Nat.le_total last.size (size + BLOCK_SIZE + BLOCK_SIZE) with wide | narrow
  · have count := pagesNeeded_of_le small short (by rw [taken]; exact wide)
    rw [if_neg (by rw [taken]; decide)] at count
    rw [count]
    unfold PAGESIZE at ends inside enough ⊢
    omega
  · have count := pagesNeeded_of_gt small short (by rw [taken]; exact narrow)
    rw [if_neg (by rw [taken]; decide)] at count
    rw [count]
    unfold PAGESIZE at ends inside enough ⊢
    omega

end Counts

/-! ### Refusals that happen -/

section Runs

variable {m m' : Machine} {front : List Block} {last : Block} {size : Nat}

/-- **A search that finds nothing, and a growth that is refused.** -/
theorem AtHome.searchHeap_refused (home : AtHome m)
    (laid : Laid m.frames (m.pageNum m.thread * PAGESIZE) (front ++ [last]))
    (full : firstFit BLOCK_SIZE size 0 (front ++ [last]) = none)
    (refuses : Refuses (freeCount m) front last size) :
    Returns (searchHeap swapping size) m fun result _ => result = none := by
  have shows : Shows (Around m) (·.frames) m.frames m := ⟨rfl, rfl⟩
  obtain ⟨header, ends⟩ := laid.ends
  refine Returns.bind ((firstFitLoop_spec (n := size) (paged_home home) laid.nonempty shows laid.chain
    (by rw [Nat.zero_add, laid.extent]) (home.walks laid)).mono ?_)
  intro search s allocated
  rw [full] at allocated
  obtain ⟨rfl, shows'⟩ := allocated
  dsimp only
  rw [lastBlock_append, Nat.zero_add]
  unfold growHeap
  split
  · exact ⟨none, _, rfl, rfl⟩
  · rename_i left
    have four : BLOCK_SIZE = 4 := rfl
    refine (paged_home home).load_bind shows' (by omega) fun s' shows'' => Returns.look_bind ?_
    have counted : isEnoughPages s' (growthRequest last size) =
        if pagesNeeded last size ≤ freeCount m then pagesNeeded last size else 0 := by
      rw [isEnoughPages, shows''.1.tables.freeCount]
      rfl
    have none : ¬ isEnoughPages s' (growthRequest last size) > 0 := by
      rw [counted]
      have := refuses.resolve_left left
      split <;> omega
    rw [growthRequest_of_header header, if_neg none]
    exact ⟨Option.none, _, rfl, rfl⟩

/-- `alignPages` finds nothing of a thread without pages. -/
theorem AtHome.alignPages_none (home : AtHome m) (none : m.pageNum m.thread = 0) :
    Paging.alignPages m = some ((), m) := by
  have frames : ∀ indices, (∀ i ∈ indices, i < USER_PAGES) → alignFrames indices m = some ((), m) := by
    intro indices inside
    induction indices with
    | nil => rfl
    | cons i rest ih =>
      rw [alignFrames, look_run, look_run, if_neg]
      · exact ih fun j member => inside j (List.mem_cons_of_mem i member)
      · rintro ⟨thID, _⟩
        have valid : (Place.frame i).Valid := inside i List.mem_cons_self
        obtain ⟨k, below, _⟩ := home.only (.frame i) valid thID
        omega
  unfold Paging.alignPages
  rw [then_run (frames _ fun _ => List.mem_range.mp)]
  exact home.alignSlots fun _ => List.mem_range.mp

/-- **Room is made exactly if the copy does not fault.** -/
theorem AtHome.makeRoom_returns (home : AtHome m) {index : Nat} (inside : index < USER_PAGES)
    (next : index = m.pageNum m.thread) :
    Returns (Paging.makeRoom index) m (fun _ _ => True) ↔ Copies m index := by
  constructor
  · rintro ⟨freed, m', ran, _⟩ i found
    obtain ⟨moved, m₁, first, _⟩ := run_bind ran
    obtain ⟨_, ⟨none, _⟩ | ⟨here, _⟩ | ⟨j, different, found', _, m₂, touched, _⟩⟩ :=
      moveToFreeSpace_run first
    · rw [none] at found
      cases found
    · rw [here] at found
      cases found
      exact Or.inl rfl
    · rw [found'] at found
      cases found
      refine Or.inr ?_
      obtain ⟨_, s, one, rest⟩ := run_bind touched
      obtain ⟨_, s', two, _⟩ := run_bind rest
      have opened : (doubled m index i).accessible index = true := Function.update_self _ _ _
      obtain ⟨_, ⟨_, rfl⟩ | ⟨closed, _⟩⟩ := touch_run one
      · obtain ⟨_, ⟨reachable, _⟩ | ⟨_, place, located, _⟩⟩ := touch_run two
        · have same : (doubled m index i).accessible i = m.accessible i :=
            Function.update_of_ne different _ _
          exact same ▸ reachable
        · rw [home.not_located_doubled inside next found'] at located
          cases located
      · rw [opened] at closed
        cases closed
  · intro copies
    suffices moved : Returns (moveToFreeSpace index) m fun _ _ => True by
      refine Returns.bind (moved.mono fun freed s _ => ?_)
      cases freed with
      | true => exact ⟨_, _, rfl, trivial⟩
      | false =>
        rw [if_neg (by decide), moveToDiskSpace, if_pos inside, pause_timer]
        refine Returns.change_bind (Returns.look_bind ?_)
        generalize freeSlot _ = found
        cases found with
        | none => exact ⟨_, _, rfl, trivial⟩
        | some d => exact ⟨_, _, rfl, trivial⟩
    rw [moveToFreeSpace, if_pos inside]
    refine Returns.look_bind ?_
    cases found : freeFrame m with
    | none => exact ⟨_, _, rfl, trivial⟩
    | some i =>
      dsimp only
      by_cases same : i = index
      · rw [if_pos same]
        exact ⟨_, _, rfl, trivial⟩
      · have reachable := (copies i found).resolve_left same
        have opened : (doubled m index i).accessible i = true := by
          rw [← reachable]
          exact Function.update_of_ne same _ _
        rw [if_neg same]
        refine Returns.change_bind (Returns.look_bind (Returns.change_bind ?_))
        refine Returns.bind ⟨(), doubled m index i, ?_, ⟨_, _, rfl, trivial⟩⟩
        exact touchBoth_open inside (freeFrame_eq_some found).1 (Function.update_self _ _ _) opened

/-- **The heap a thread has does not grow.** -/
theorem AtHome.myallocate_refused (home : AtHome m)
    (laid : Laid m.frames (m.pageNum m.thread * PAGESIZE) (front ++ [last]))
    (full : firstFit BLOCK_SIZE size 0 (front ++ [last]) = none)
    (refuses : Refuses (freeCount m) front last size) :
    Returns (myallocate swapping size) m fun result _ => result = none := by
  unfold myallocate
  refine Returns.change_bind ?_
  set paused : Machine := { m with timer := ⟨0, m.timer.remaining⟩ } with paused_eq
  have start : Resting m paused := rfl
  refine Returns.bind ((home.of_same start.tables).alignPages.mono fun _ s aligned => ?_)
  have resting := start.trans aligned
  have home' := home.of_same resting.tables
  have own : firstPage swapping s = some (true, s) := by
    have mine : 0 < s.pageNum s.thread := by
      rw [resting.tables.pageCount]
      exact laid.pages_pos
    rw [firstPage, look_run, look_run, if_neg (not_not.mpr (home'.labels 0 mine).thID)]
    rfl
  have laid' : Laid s.frames (s.pageNum s.thread * PAGESIZE) (front ++ [last]) := by
    rw [resting.frames, resting.tables.pageCount]
    exact laid
  refine Returns.bind ⟨true, s, own, home'.searchHeap_refused laid' full ?_⟩
  rw [resting.tables.freeCount]
  exact refuses

/-- **A thread without pages gets one, and is refused.** -/
theorem AtHome.myallocate_inVain (home : AtHome m) (none : m.pageNum m.thread = 0)
    (small : size < 2 ^ 24) (vain : StartsInVain m size) :
    Returns (myallocate swapping size) m fun result _ => result = Option.none := by
  obtain ⟨some, copies, unserved, short⟩ := vain
  unfold myallocate
  refine Returns.change_bind ?_
  set paused : Machine := { m with timer := ⟨0, m.timer.remaining⟩ } with paused_eq
  have start : Resting m paused := rfl
  have home' := home.of_same start.tables
  refine Returns.bind ⟨(), paused, home'.alignPages_none none, ?_⟩
  have zero : (0 : Nat) < USER_PAGES := by decide
  have copies' : Copies paused 0 := by
    intro i found
    refine copies i ?_
    unfold freeFrame at found ⊢
    exact found
  have first : Returns (firstPage swapping) paused fun ready s => ready = true ∧ AtSearch paused s [] := by
    have ran : Returns (firstPage swapping) paused fun _ _ => True := by
      unfold firstPage
      refine Returns.look_bind (Returns.look_bind ?_)
      rw [if_pos (home'.foreign_next zero none.symm)]
      refine Returns.bind (((home'.makeRoom_returns zero none.symm).mpr copies').mono fun freed s _ => ?_)
      cases freed with
      | true =>
        refine Returns.bind ((initializePage_spec s zero).mono fun _ s' _ => ?_)
        exact ⟨_, _, rfl, trivial⟩
      | false => exact ⟨_, _, rfl, trivial⟩
    obtain ⟨ready, s, ran, _⟩ := ran
    refine ⟨ready, s, ran, ?_⟩
    obtain ⟨_, _, full, _⟩ | atSearch := firstPage_home home' (Or.inl ⟨none, rfl⟩) ran
    · rw [start.tables.freeCount] at full
      omega
    · exact atSearch
  refine Returns.bind (first.mono ?_)
  rintro _ s ⟨rfl, atSearch⟩
  have laid : Laid s.frames (s.pageNum s.thread * PAGESIZE)
      ([] ++ [⟨PAGESIZE - BLOCK_SIZE, true⟩]) := atSearch.laid
  have full : firstFit BLOCK_SIZE size 0 ([] ++ [⟨PAGESIZE - BLOCK_SIZE, true⟩]) = Option.none := by
    rw [firstFit_eq_none]
    intro b member
    cases List.mem_singleton.mp member
    exact unserved
  obtain ⟨impossible, _⟩ | ⟨_, one, count⟩ := atSearch.before
  · exact absurd rfl impossible
  refine atSearch.home.searchHeap_refused laid full ?_
  rw [refuses_free (n := 1) small (by decide) rfl ?_ (by decide) (by decide)]
  · rw [Nat.add_comm 1, count, start.tables.freeCount, MiscountsFree, requestEnd_firstPage]
    exact short
  · by_contra wide
    exact unserved ⟨rfl, Or.inr (Nat.not_lt.mp wide)⟩

/-- A thread without pages that gets an answer has not faulted. -/
theorem AtHome.copies_of_run (home : AtHome m) (none : m.pageNum m.thread = 0) {result : Option Nat}
    (ran : myallocate swapping size m = some (result, m')) : Copies m 0 := by
  rw [myallocate, pause_timer, change_run] at ran
  set paused : Machine := { m with timer := ⟨0, m.timer.remaining⟩ } with paused_eq
  have start : Resting m paused := rfl
  have home' := home.of_same start.tables
  have zero : (0 : Nat) < USER_PAGES := by decide
  rw [then_run (home'.alignPages_none none)] at ran
  obtain ⟨ready, s, first, _⟩ := run_bind ran
  rw [firstPage, look_run, look_run, if_pos (home'.foreign_next zero none.symm)] at first
  obtain ⟨freed, s₁, room, _⟩ := run_bind first
  have copies := (home'.makeRoom_returns zero none.symm).mp ⟨freed, s₁, room, trivial⟩
  intro i found
  refine copies i ?_
  unfold freeFrame at found ⊢
  exact found

end Runs

/-! ### Right and wrong refusals -/

section Refusals

variable {m m' : Machine} {blocks : List Block} {size : Nat}

theorem not_mustFail_iff : ¬ MustFail m blocks size ↔ (∀ b ∈ blocks, ¬ Suits size b) →
    requestEnd blocks size ≤ USER_PAGES * PAGESIZE ∧
      requestEnd blocks size ≤ available m := by
  rw [available, MustFail, lt_pagesMissing, not_and, not_or, Nat.not_lt, Nat.not_lt]

/-- **The heap a thread has is refused to grow for no reason exactly if the pages are miscounted.** -/
theorem miscounts_iff {front : List Block} {last : Block} (home : AtHome m)
    (laid : Laid m.frames (m.pageNum m.thread * PAGESIZE) (front ++ [last])) (small : size < 2 ^ 24)
    (unserved : ∀ b ∈ front ++ [last], ¬ Suits size b) : Miscounts m (front ++ [last]) size ↔
      Refuses (freeCount m) front last size ∧ ¬ MustFail m (front ++ [last]) size := by
  obtain ⟨header, ends⟩ := laid.ends
  have short := header.size_lt
  rw [not_mustFail_iff, forall_prop_of_true unserved, Miscounts, List.getLast?_concat]
  simp only [Option.mem_some_iff, exists_eq_left']
  have reason (inside : requestEnd (front ++ [last]) size ≤ USER_PAGES * PAGESIZE)
      (enough : requestEnd (front ++ [last]) size ≤ available m) :
      Refuses (freeCount m) front last size ↔
        if last.free then MiscountsFree (available m) (requestEnd (front ++ [last]) size)
          else MiscountsTaken (available m) (requestEnd (front ++ [last]) size) size last := by
    cases isFree : last.free with
    | true =>
      have tooSmall : last.size < size + BLOCK_SIZE := by
        by_contra wide
        exact unserved last (by simp) ⟨isFree, Or.inr (Nat.not_lt.mp wide)⟩
      exact refuses_free small short isFree tooSmall home.bounded ends
    | false => exact refuses_taken small short isFree ends inside enough
  constructor
  · rintro ⟨_, inside, enough, count⟩
    exact ⟨(reason inside enough).mpr count, inside, enough⟩
  · rintro ⟨refuses, inside, enough⟩
    exact ⟨unserved, inside, enough, (reason inside enough).mp refuses⟩

theorem firstFit_unserved {blocks : List Block} :
    firstFit BLOCK_SIZE size 0 blocks = none ↔ ∀ b ∈ blocks, ¬ Suits size b := firstFit_eq_none

theorem HomeHeap.none_of_nil (heap : HomeHeap m []) : m.pageNum m.thread = 0 := by
  rcases heap with ⟨none, _⟩ | laid
  · exact none
  · exact absurd rfl laid.nonempty

theorem HomeHeap.laid (heap : HomeHeap m blocks) (nonempty : blocks ≠ []) :
    Laid m.frames (m.pageNum m.thread * PAGESIZE) blocks :=
  heap.resolve_left fun ⟨_, empty⟩ => nonempty empty

/-- A miscounted heap is refused wrongly. -/
theorem Miscounts.wrong (home : AtHome m) (heap : HomeHeap m blocks) (small : size < 2 ^ 24)
    (miscounts : Miscounts m blocks size) : ¬ RefusedRightly m blocks size := by
  intro right
  have nonempty : blocks ≠ [] := by
    rintro rfl
    obtain ⟨_, _, _, last, impossible, _⟩ := miscounts
    cases impossible
  obtain ⟨front, last, rfl⟩ : ∃ front last, blocks = front ++ [last] :=
    ⟨_, _, (List.dropLast_append_getLast nonempty).symm⟩
  have laid := heap.laid nonempty
  have unserved := miscounts.1
  obtain ⟨refuses, possible⟩ := (miscounts_iff home laid small unserved).mp miscounts
  obtain ⟨_, m', ran, rfl⟩ :=
    home.myallocate_refused laid (firstFit_unserved.mpr unserved) refuses
  exact possible (right m' ran).1

/-- So is a thread that starts in vain: it has a page now. -/
theorem StartsInVain.wrong (home : AtHome m) (heap : HomeHeap m []) (small : size < 2 ^ 24)
    (vain : StartsInVain m size) : ¬ RefusedRightly m [] size := by
  intro right
  have none := heap.none_of_nil
  obtain ⟨_, m', ran, rfl⟩ := home.myallocate_inVain none small vain
  obtain ⟨_, tables, _⟩ := right m' ran
  have outcome := myallocate_outcome home heap ran
  cases outcome with
  | noPage _ full _ =>
    have some := vain.1
    omega
  | refused start _ _ resting _ =>
    obtain ⟨impossible, _⟩ | ⟨_, one, _⟩ := start.before
    · exact absurd rfl impossible
    · rw [← resting.tables.pageNum, tables.pageNum, start.thread, none] at one
      cases one

/-- **A refusal is right exactly if the pages are not miscounted and no page is given in vain.** -/
theorem refused_rightly_iff (home : AtHome m) (heap : HomeHeap m blocks) (small : size < 2 ^ 24) :
    RefusedRightly m blocks size ↔
      ¬ Miscounts m blocks size ∧ ¬ (blocks = [] ∧ StartsInVain m size) := by
  constructor
  · intro right
    refine ⟨fun miscounts => miscounts.wrong home heap small right, ?_⟩
    rintro ⟨rfl, vain⟩
    exact vain.wrong home heap small right
  · rintro ⟨counts, starts⟩ m' ran
    have outcome := myallocate_outcome home heap ran
    cases outcome with
    | noPage empty full resting =>
      subst empty
      refine ⟨⟨by simp, Or.inr ?_⟩, resting.tables, heap.of_resting resting⟩
      have four : BLOCK_SIZE = 4 := rfl
      rw [lt_pagesMissing, heap.none_of_nil, full, Nat.add_zero, Nat.zero_mul, requestEnd]
      omega
    | @refused s front last start split full resting reason =>
      obtain ⟨nonempty, before⟩ | ⟨rfl, one, count⟩ := start.before
      · have rests := before.trans resting
        refine ⟨?_, rests.tables, heap.of_resting rests⟩
        rw [searched_of_ne nonempty] at split full
        subst split
        rw [before.tables.freeCount] at reason
        by_contra possible
        exact counts ((miscounts_iff home (heap.laid nonempty) small (firstFit_unserved.mp full)).mpr
          ⟨reason, possible⟩)
      · -- the first page has been given
        have unserved := firstFit_unserved.mp full ⟨PAGESIZE - BLOCK_SIZE, true⟩ List.mem_cons_self
        have only : front = [] ∧ last = ⟨PAGESIZE - BLOCK_SIZE, true⟩ := by
          have single : [] ++ [(⟨PAGESIZE - BLOCK_SIZE, true⟩ : Block)] = front ++ [last] := split
          obtain ⟨rfl, same⟩ := List.append_inj' single rfl
          cases same
          exact ⟨rfl, rfl⟩
        obtain ⟨rfl, rfl⟩ := only
        refine absurd ⟨rfl, by omega, home.copies_of_run heap.none_of_nil ran, unserved, ?_⟩ starts
        have tooSmall : PAGESIZE - BLOCK_SIZE < size + BLOCK_SIZE := by
          by_contra wide
          exact unserved ⟨rfl, Or.inr (Nat.not_lt.mp wide)⟩
        have short := (refuses_free (n := 1) small (by decide) rfl tooSmall (by decide)
          (by decide)).mp reason
        rw [Nat.add_comm 1, count, MiscountsFree, requestEnd_firstPage] at short
        exact short

end Refusals

/-- A request for more than all of user space is refused rightly. -/
theorem refused_rightly_large : ∃ m',
    myallocate swapping (2 ^ 23) (alone 1 (layout 0 [⟨PAGESIZE - BLOCK_SIZE, true⟩]))
      = some (none, m') ∧
    MustFail (alone 1 (layout 0 [⟨PAGESIZE - BLOCK_SIZE, true⟩])) [⟨PAGESIZE - BLOCK_SIZE, true⟩]
      (2 ^ 23) ∧
    SameTables (alone 1 (layout 0 [⟨PAGESIZE - BLOCK_SIZE, true⟩])) m' ∧
    HomeHeap m' [⟨PAGESIZE - BLOCK_SIZE, true⟩] := by
  have home := (alone_ample (by decide : 1 ≤ USER_PAGES)
    (layout 0 [⟨PAGESIZE - BLOCK_SIZE, true⟩])).home
  have heap : HomeHeap (alone 1 (layout 0 [⟨PAGESIZE - BLOCK_SIZE, true⟩]))
      ([] ++ [⟨PAGESIZE - BLOCK_SIZE, true⟩]) := alone_heap (by simp) (by simp; decide) (by decide)
  have refused : Returns (myallocate swapping (2 ^ 23)) _ fun result _ => result = none :=
    home.myallocate_refused (heap.laid (by simp)) (by decide) (Or.inl (by decide))
  obtain ⟨_, m', ran, rfl⟩ := refused
  refine ⟨m', ran, (refused_rightly_iff home heap (by decide)).mpr ⟨?_, ?_⟩ m' ran⟩
  · rintro ⟨_, inside, _⟩
    exact absurd inside (by decide)
  · rintro ⟨impossible, _⟩
    cases impossible

/-- **A request for ten bytes is refused behind a taken block of three pages**, with all other pages
free. -/
theorem refused_wrongly : ∃ m m', AtHome m ∧ HomeHeap m [⟨3 * PAGESIZE - BLOCK_SIZE, false⟩] ∧
    myallocate swapping 10 m = some (none, m') ∧
    ¬ MustFail m [⟨3 * PAGESIZE - BLOCK_SIZE, false⟩] 10 := by
  have ample := alone_ample (by decide : 3 ≤ USER_PAGES)
    (layout 0 [⟨3 * PAGESIZE - BLOCK_SIZE, false⟩])
  have heap : HomeHeap (alone 3 (layout 0 [⟨3 * PAGESIZE - BLOCK_SIZE, false⟩]))
      ([] ++ [⟨3 * PAGESIZE - BLOCK_SIZE, false⟩]) :=
    alone_heap (by simp) (by simp; decide) (by decide)
  have refused : Returns (myallocate swapping 10) _ fun result _ => result = none :=
    ample.home.myallocate_refused (heap.laid (by simp)) (by decide) (Or.inr (Or.inl (by decide)))
  obtain ⟨_, m', ran, rfl⟩ := refused
  refine ⟨_, m', ample.home, heap, ran, not_mustFail_iff.mpr fun _ => ⟨by decide, ?_⟩⟩
  have free := ample.freeCount
  have slots : DISK_PAGES = 4096 := by decide
  have stop : requestEnd [⟨3 * PAGESIZE - BLOCK_SIZE, false⟩] 10 ≤ 4 * PAGESIZE := by decide
  exact stop.trans (Nat.mul_le_mul_right _ (by omega))

end OS2017.Paging
