/-
**The indices that are passed to the page table.**

`allocateRooms size m` lists the indices that a call of `myallocate` passes to `moveToFreeSpace`,
`moveToDiskSpace` and `initializePage`, in order: the same index goes to all three. A call depends on
them only (`myallocate_congr`). The first page has the index `0`; a heap that grows from `n` pages on
passes the indices `n` to `n + pagesNeeded - 1`, whatever the tables and the memory hold. The check of
`bytesLeft` is made for one header and the pages are counted with one more, so these stay inside of
the table except at the end of memory (`indices_inside_iff`).
-/

import OS2017.Paging.Refusals

namespace OS2017.Paging

open OS2017.Bytes OS2017.Heap OS2017.FirstFit

/-! ### The indices along a call -/

/-- The indices after a program. -/
def along {α : Type} (prog : StateT Machine Option α) (next : α → Machine → List Nat) (m : Machine) :
    List Nat :=
  match prog m with
  | some (a, m') => next a m'
  | none => []

/-- Those of `gatherPages`. -/
def gatherRooms (lastBlock : Nat) : Nat → Machine → List Nat
  | 0 => fun _ => []
  | pagesNeeded + 1 => fun m =>
    let nextPage := m.pageNum m.thread
    nextPage :: along (makeRoom nextPage) (fun freed =>
      if freed then
        along (initializePage nextPage) fun _ =>
          along (paged.modify lastBlock fun w =>
              setBlockSize w (getBlockSize w + BitVec.ofNat 32 PAGESIZE)) fun _ =>
            gatherRooms lastBlock pagesNeeded
      else fun _ => []) m

/-- Those of the growth: a new last block passes one. -/
def growRooms (size prev : Nat) : Machine → List Nat :=
  if bytesLeft prev < sizeWithBlock size then fun _ => []
  else along (paged.load prev) fun word m =>
    let pagesNeeded := isEnoughPages m (extraBlock word + sizeWithBlock size - getBlockSize word)
    if pagesNeeded > 0 then
      if extraBlock word = 0 then gatherRooms prev pagesNeeded.toNat m
      else
        m.pageNum m.thread :: along (newLastBlock swapping prev) (fun block =>
          match block with
          | none => fun _ => []
          | some bl => gatherRooms bl (pagesNeeded.toNat - 1)) m
    else []

/-- That of the first page, if it is made. -/
def firstRooms (m : Machine) : List Nat :=
  if (getPageThID (m.pages 0)).toNat ≠ m.thread then [0] else []

/-- Those behind the search. -/
def searchRooms (size : Nat) : Machine → List Nat :=
  along (firstFitLoop paged size (sizeWithBlock size) walkFuel 0) fun search =>
    match search with
    | .found _ => fun _ => []
    | .exhausted prev => growRooms size prev

/-- **The indices that `myallocate` passes.** -/
def allocateRooms (size : Nat) : Machine → List Nat :=
  along pause_timer fun _ => along alignPages fun _ m =>
    firstRooms m ++ along (firstPage swapping) (fun ready =>
      if ready then searchRooms size else fun _ => []) m

section Congruence

variable {α β : Type} {makeRoom' : Nat → StateT Machine Option Bool}

/-- The paged memory with other moves. -/
abbrev moving (makeRoom' : Nat → StateT Machine Option Bool) : Pager := ⟨paged, makeRoom', alignPages⟩

theorem along_of_run {prog : StateT Machine Option α} {next : α → Machine → List Nat} {m m' : Machine}
    {a : α} (ran : prog m = some (a, m')) : along prog next m = next a m' := by
  unfold along
  rw [ran]

/-- The rest of a program may differ where it is not run. -/
theorem bind_congr_along {prog : StateT Machine Option α} {rest rest' : α → StateT Machine Option β}
    {next : α → Machine → List Nat} {m : Machine} {agree : Nat → Prop}
    (holds : ∀ k ∈ along prog next m, agree k)
    (same : ∀ a m', (∀ k ∈ next a m', agree k) → rest' a m' = rest a m') :
    (prog >>= rest') m = (prog >>= rest) m := by
  cases ran : prog m with
  | none =>
    show (prog m).bind _ = (prog m).bind _
    rw [ran]
    rfl
  | some result =>
    obtain ⟨a, m'⟩ := result
    rw [then_run ran, then_run ran]
    rw [along_of_run ran] at holds
    exact same a m' holds

theorem bind_congr_first {prog prog' : StateT Machine Option α} {rest : α → StateT Machine Option β}
    {m : Machine} (same : prog' m = prog m) : (prog' >>= rest) m = (prog >>= rest) m := by
  show (prog' m).bind _ = (prog m).bind _
  rw [same]

theorem gatherPages_congr (lastBlock : Nat) (n : Nat) {m : Machine}
    (agree : ∀ k ∈ gatherRooms lastBlock n m, makeRoom' k = makeRoom k) :
    gatherPages (moving makeRoom') lastBlock n m = gatherPages swapping lastBlock n m := by
  induction n generalizing m with
  | zero => rfl
  | succ n ih =>
    rw [gatherRooms, List.forall_mem_cons] at agree
    rw [gatherPages, gatherPages, look_run, look_run]
    dsimp only
    rw [agree.1]
    refine bind_congr_along agree.2 fun freed m₁ agree₁ => ?_
    cases freed with
    | false => rfl
    | true =>
      refine bind_congr_along agree₁ fun _ m₂ agree₂ => ?_
      exact bind_congr_along agree₂ fun _ m₃ agree₃ => ih agree₃

theorem newLastBlock_congr (prev : Nat) {m : Machine}
    (agree : makeRoom' (m.pageNum m.thread) = makeRoom (m.pageNum m.thread)) :
    newLastBlock (moving makeRoom') prev m = newLastBlock swapping prev m := by
  rw [newLastBlock, newLastBlock, look_run, look_run]
  dsimp only
  rw [agree]

theorem growHeap_congr (size prev : Nat) {m : Machine}
    (agree : ∀ k ∈ growRooms size prev m, makeRoom' k = makeRoom k) :
    growHeap (moving makeRoom') size prev m = growHeap swapping size prev m := by
  unfold growRooms at agree
  unfold growHeap
  split
  · rfl
  · rename_i left
    rw [if_neg left] at agree
    refine bind_congr_along agree fun word m₁ agree₁ => ?_
    rw [look_run, look_run]
    split
    · rename_i positive
      simp only [if_pos positive] at agree₁
      split
      · rename_i isFree
        rw [if_pos isFree] at agree₁
        exact bind_congr_first (gatherPages_congr _ _ agree₁)
      · rename_i taken
        rw [if_neg taken, List.forall_mem_cons] at agree₁
        rw [bind_congr_first (newLastBlock_congr prev agree₁.1)]
        refine bind_congr_along agree₁.2 fun block m₂ agree₂ => ?_
        cases block with
        | none => rfl
        | some bl => exact bind_congr_first (gatherPages_congr _ _ agree₂)
    · rfl

theorem searchHeap_congr (size : Nat) {m : Machine}
    (agree : ∀ k ∈ searchRooms size m, makeRoom' k = makeRoom k) :
    searchHeap (moving makeRoom') size m = searchHeap swapping size m := by
  unfold searchRooms at agree
  unfold searchHeap
  refine bind_congr_along agree fun search m₁ agree₁ => ?_
  cases search with
  | found ptr => rfl
  | exhausted prev => exact growHeap_congr size prev agree₁

/-- **A call depends on the indices it passes only.** -/
theorem myallocate_congr (size : Nat) {m : Machine}
    (agree : ∀ k ∈ allocateRooms size m, makeRoom' k = makeRoom k) :
    myallocate (moving makeRoom') size m = myallocate swapping size m := by
  unfold allocateRooms at agree
  unfold myallocate
  refine bind_congr_along agree fun _ m₀ agree₀ => ?_
  refine bind_congr_along agree₀ fun _ m₁ agree₁ => ?_
  rw [List.forall_mem_append] at agree₁
  have first : firstPage (moving makeRoom') m₁ = firstPage swapping m₁ := by
    rw [firstPage, firstPage, look_run, look_run, look_run, look_run]
    split
    · rename_i foreign
      have zero : makeRoom' 0 = makeRoom 0 := agree₁.1 0 (by rw [firstRooms, if_pos foreign]; simp)
      dsimp only
      rw [zero]
    · rfl
  rw [bind_congr_first first]
  refine bind_congr_along agree₁.2 fun ready m₂ agree₂ => ?_
  split
  · rename_i isReady
    rw [if_pos isReady] at agree₂
    exact searchHeap_congr size agree₂
  · rfl

end Congruence

/-! ### Bounds -/

section Bounds

variable {m m' : Machine} {size : Nat}

/-- The running thread has as many pages as before. -/
def SameCount (m m' : Machine) : Prop := m'.thread = m.thread ∧ m'.pageNum = m.pageNum

theorem Permutes.sameCount (permutes : Permutes m m') : SameCount m m' :=
  ⟨permutes.thread, permutes.pageNum⟩

theorem makeRoom_sameCount (index : Nat) : Keeps SameCount (makeRoom index) := by
  intro m freed m' ran
  obtain ⟨moved, m₁, first, rest⟩ := run_bind ran
  obtain ⟨_, ⟨_, rfl, rfl⟩ | ⟨_, rfl, rfl⟩ | ⟨i, _, _, rfl, m₂, touched, rfl⟩⟩ :=
    moveToFreeSpace_run first
  · obtain ⟨_, ⟨_, _, rfl⟩ | ⟨d, _, _, rfl⟩⟩ := moveToDiskSpace_run rest
    · exact ⟨rfl, rfl⟩
    · exact ⟨rfl, rfl⟩
  · cases rest
    exact ⟨rfl, rfl⟩
  · cases rest
    have permutes := keeps_touchBoth _ _ _ _ _ touched
    exact ⟨permutes.thread, permutes.pageNum⟩

/-- A new page, on whatever machine. -/
theorem initializePage_count {index : Nat} (ran : initializePage index m = some ((), m')) :
    m'.pageNum m'.thread = m.pageNum m.thread + 1 := by
  by_cases inside : index < USER_PAGES
  · have new := (initializePage_spec m inside).of_run ran
    rw [new.thread, new.pageNum, Function.update_self]
  · rw [initializePage, if_neg inside] at ran
    cases ran

theorem mem_along {α : Type} {prog : StateT Machine Option α} {next : α → Machine → List Nat} {k : Nat}
    (member : k ∈ along prog next m) : ∃ a m', prog m = some (a, m') ∧ k ∈ next a m' := by
  unfold along at member
  split at member
  · rename_i a m' ran
    exact ⟨a, m', ran, member⟩
  · cases member

/-- **Pages that are gathered follow each other.** -/
theorem gatherRooms_lt {lastBlock n k : Nat} (member : k ∈ gatherRooms lastBlock n m) :
    k < m.pageNum m.thread + n := by
  induction n generalizing m with
  | zero => cases member
  | succ n ih =>
    rcases List.mem_cons.mp member with rfl | later
    · omega
    · obtain ⟨freed, m₁, room, later⟩ := mem_along later
      obtain ⟨thread, pageNum⟩ := makeRoom_sameCount _ _ _ _ room
      split at later
      · obtain ⟨_, m₂, new, later⟩ := mem_along later
        obtain ⟨_, m₃, modified, later⟩ := mem_along later
        have permutes : Permutes m₂ m₃ :=
          Store.keeps_modify permutes_composes (keeps_load _) (keeps_store _) _ _ _ _ modified
        have bound := ih later
        rw [permutes.thread, permutes.pageNum, initializePage_count new, thread, pageNum] at bound
        omega
      · cases later

/-- The new last block has a page more behind it. -/
theorem newLastBlock_count {prev bl : Nat}
    (ran : newLastBlock swapping prev m = some (some bl, m')) :
    m'.pageNum m'.thread = m.pageNum m.thread + 1 := by
  rw [newLastBlock, look_run] at ran
  obtain ⟨freed, m₁, room, ran⟩ := run_bind ran
  obtain ⟨thread, pageNum⟩ := makeRoom_sameCount _ _ _ _ room
  split at ran
  · obtain ⟨_, m₂, new, ran⟩ := run_bind ran
    obtain ⟨_, m₃, fresh, ran⟩ := run_bind ran
    obtain ⟨_, m₄, linked, ran⟩ := run_bind ran
    cases ran
    have modify : ∀ a f, Keeps Permutes (paged.modify a f) := fun a f =>
      Store.keeps_modify permutes_composes (keeps_load a) (keeps_store a) f
    have freshKeeps : Keeps Permutes (freshBlock paged (m.pageNum m.thread * PAGESIZE)
        (PAGESIZE - BLOCK_SIZE)) :=
      Keeps.bind permutes_composes (modify _ _) fun _ =>
        Keeps.bind permutes_composes (modify _ _) fun _ => modify _ _
    have permutes₃ := freshKeeps _ _ _ fresh
    have permutes₄ := modify _ _ _ _ _ linked
    rw [permutes₄.thread, permutes₄.pageNum, permutes₃.thread, permutes₃.pageNum,
      initializePage_count new, thread, pageNum]
  · cases ran

/-- **The indices of the growth**, behind the block whose header is in memory. -/
theorem growRooms_lt {prev k : Nat} {last : Block} (opened : Opened prev m)
    (header : Header (readWord m.frames prev) last false) (member : k ∈ growRooms size prev m) :
    ¬ bytesLeft prev < sizeWithBlock size ∧ 0 < pagesNeeded last size ∧
      (k : Int) < m.pageNum m.thread + pagesNeeded last size := by
  unfold growRooms at member
  split at member
  · cases member
  · rename_i left
    obtain ⟨word, m₁, loaded, member⟩ := mem_along member
    have value : word = readWord m.frames prev := by
      rw [(paged_steady.load loaded).2, paged_steady.again opened loaded]
    have permutes := keeps_load _ _ _ _ loaded
    have counted : isEnoughPages m₁ (growthRequest last size) =
        if pagesNeeded last size ≤ freeCount m₁ then pagesNeeded last size else 0 := rfl
    rw [value, growthRequest_of_header header, counted] at member
    dsimp only at member
    by_cases enough : pagesNeeded last size ≤ freeCount m₁
    · rw [if_pos enough] at member
      by_cases positive : pagesNeeded last size > 0
      · rw [if_pos positive] at member
        refine ⟨left, positive, ?_⟩
        rw [← permutes.thread, ← permutes.pageNum]
        split at member
        · have bound := gatherRooms_lt member
          omega
        · rcases List.mem_cons.mp member with rfl | later
          · omega
          · obtain ⟨block, m₂, new, later⟩ := mem_along later
            cases block with
            | none => cases later
            | some bl =>
              have bound := gatherRooms_lt later
              rw [newLastBlock_count new] at bound
              omega
      · rw [if_neg positive] at member
        cases member
    · rw [if_neg enough, if_neg (by decide)] at member
      cases member

end Bounds

/-! ### The end of the table -/

section Table

variable {m s : Machine} {front : List Block} {last : Block} {size n prev : Nat}

/-- **A call that comes to the growth** of a heap of `n` pages, with the last block at `prev`. -/
structure ComesTo (size : Nat) (m s : Machine) (n prev : Nat) (last : Block) : Prop where
  run : approach size m = some (.exhausted prev, s)
  pages : s.pageNum s.thread = n
  header : Header (readWord s.frames prev) last false

/-- **Whatever the tables hold, all indices that such a call passes are inside of the page table.** -/
def IndicesInside (n prev : Nat) (last : Block) (size : Nat) : Prop :=
  ∀ m s, ComesTo size m s n prev last → ∀ k ∈ allocateRooms size m, k < USER_PAGES

/-- **The checks pass, but the last page is beyond the table.** -/
def Exceeds (n prev : Nat) (last : Block) (size : Nat) : Prop :=
  ¬ Suits size last ∧ ¬ bytesLeft prev < sizeWithBlock size ∧ 0 < pagesNeeded last size ∧
    USER_PAGES < n + pagesNeeded last size

/-- A search ends at a block that it does not take. -/
theorem firstFitLoop_exhausted {fuel a : Nat} (header : Header (readWord s.frames prev) last false)
    (ran : firstFitLoop paged size (sizeWithBlock size) fuel a m = some (.exhausted prev, s)) :
    Opened prev s ∧ ¬ Suits size last := by
  induction fuel generalizing a m with
  | zero => cases ran
  | succ fuel ih =>
    obtain ⟨word, m₁, loaded, ran⟩ := run_bind ran
    obtain ⟨opened, value⟩ := paged_steady.load loaded
    split at ran
    · obtain ⟨_, m₂, _, ran⟩ := run_bind ran
      cases ran
    · rename_i notExact
      split at ran
      · obtain ⟨_, m₂, _, ran⟩ := run_bind ran
        cases ran
      · rename_i noRoom
        obtain ⟨next, m₂, walked, ran⟩ := run_bind ran
        cases next with
        | some next => exact ih ran
        | none =>
          obtain ⟨word', m₃, again, walked⟩ := run_bind walked
          have last₁ : prev = a ∧ s = m₃ := by
            split at walked
            · cases walked
              cases ran
              exact ⟨rfl, rfl⟩
            · cases walked
          obtain ⟨rfl, rfl⟩ := last₁
          have same : word = readWord s.frames prev := by
            rw [value, paged_steady.again opened again]
          rw [same] at notExact noRoom
          refine ⟨(paged_steady.load again).1, ?_⟩
          rintro ⟨isFree, exact | room⟩
          · exact notExact ⟨by rw [header.isF, isFree]; rfl, by rw [header.size, exact]⟩
          · exact noRoom ⟨by rw [header.isF, isFree]; rfl, (room_iff header).mpr room⟩

/-- The parts of a call that comes to the growth. -/
theorem allocateRooms_of_approach (ran : approach size m = some (.exhausted prev, s)) :
    ∃ m₁ m₂, allocateRooms size m = firstRooms m₁ ++ growRooms size prev s ∧
      firstFitLoop paged size (sizeWithBlock size) walkFuel 0 m₂ = some (.exhausted prev, s) := by
  obtain ⟨_, m₀, paused, ran⟩ := run_bind ran
  obtain ⟨_, m₁, aligned, ran⟩ := run_bind ran
  obtain ⟨ready, m₂, first, ran⟩ := run_bind ran
  split at ran
  · rename_i isReady
    refine ⟨m₁, m₂, ?_, ran⟩
    rw [allocateRooms, along_of_run paused, along_of_run aligned, along_of_run first, if_pos isReady,
      searchRooms, along_of_run ran]
  · cases ran

/-- **Inside, if the pages fit.** -/
theorem indicesInside_of_not_exceeds (fits : ¬ Exceeds n prev last size) :
    IndicesInside n prev last size := by
  rintro m s ⟨ran, pages, header⟩ k member
  obtain ⟨m₁, m₂, parts, searched⟩ := allocateRooms_of_approach ran
  obtain ⟨opened, unsuited⟩ := firstFitLoop_exhausted header searched
  rw [parts] at member
  rcases List.mem_append.mp member with first | grown
  · unfold firstRooms at first
    split at first
    · cases List.mem_singleton.mp first
      decide
    · cases first
  · obtain ⟨left, positive, below⟩ := growRooms_lt opened header grown
    rw [pages] at below
    by_contra beyond
    exact fits ⟨unsuited, left, positive, by omega⟩

/-- An ample machine gathers pages up to the end of the table. -/
theorem Ample.gatherRooms_exceeds (ample : Ample m) {lastBlock pages : Nat}
    (inside : lastBlock + 4 ≤ USER_PAGES * PAGESIZE)
    (beyond : USER_PAGES < m.pageNum m.thread + pages) :
    USER_PAGES ∈ gatherRooms lastBlock pages m := by
  have bounded := ample.home.bounded
  induction pages generalizing m with
  | zero => omega
  | succ pages ih =>
    rw [gatherRooms, List.mem_cons]
    rcases Nat.eq_or_lt_of_le bounded with full | room
    · exact Or.inl full.symm
    · refine Or.inr ?_
      obtain ⟨_, m₁, new, ample₁, grown⟩ := ample.initializePage room
      obtain ⟨_, m₂, modified, same, _⟩ := ample₁.modify inside fun w =>
        setBlockSize w (getBlockSize w + BitVec.ofNat 32 PAGESIZE)
      have ample₂ := ample₁.of_sameBut same
      rw [along_of_run (ample.makeRoom room), if_pos rfl, along_of_run new, along_of_run modified]
      refine ih ample₂ ?_ ample₂.home.bounded
      rw [same.tables.pageCount, grown.pageCount]
      omega

/-- **Its heap grows beyond the table**, if the checks pass. -/
theorem Ample.growRooms_exceeds (ample : Ample m)
    (header : Header (readWord m.frames prev) last false)
    (inside : prev + BLOCK_SIZE ≤ USER_PAGES * PAGESIZE)
    (left : ¬ bytesLeft prev < sizeWithBlock size) (positive : 0 < pagesNeeded last size)
    (slots : pagesNeeded last size ≤ DISK_PAGES)
    (beyond : USER_PAGES < m.pageNum m.thread + pagesNeeded last size) :
    USER_PAGES ∈ growRooms size prev m := by
  have four : BLOCK_SIZE = 4 := rfl
  obtain ⟨word, m', loaded, value, same, frames⟩ := ample.backed.load m prev rfl inside
  rw [same.eq frames] at loaded
  have counted : isEnoughPages m (growthRequest last size) = pagesNeeded last size := by
    have free := ample.freeCount
    exact if_pos (by unfold pagesNeeded at slots; omega)
  rw [growRooms, if_neg left, along_of_run loaded, value, growthRequest_of_header header, counted]
  dsimp only
  rw [if_pos positive]
  split
  · exact ample.gatherRooms_exceeds inside (by omega)
  · rw [List.mem_cons]
    rcases Nat.eq_or_lt_of_le ample.home.bounded with full | room
    · exact Or.inl full.symm
    · refine Or.inr ?_
      obtain ⟨block, m₁, new, rfl, ample₁, count⟩ := ample.newLastBlock room inside
      rw [along_of_run new]
      refine ample₁.gatherRooms_exceeds ?_ ?_
      · unfold PAGESIZE
        omega
      · rw [count]
        omega

/-- The bytes that are left are at most all, so the pages counted are not more than the slots. -/
theorem pagesNeeded_le_slots (short : last.size < 2 ^ 24)
    (inside : prev + BLOCK_SIZE ≤ USER_PAGES * PAGESIZE)
    (left : ¬ bytesLeft prev < sizeWithBlock size) : pagesNeeded last size ≤ DISK_PAGES := by
  have four : BLOCK_SIZE = 4 := rfl
  have total : USER_PAGES * PAGESIZE = 7569408 := by decide
  have slots : DISK_PAGES = 4096 := by decide
  have extra : (if last.free then 0 else BLOCK_SIZE) ≤ BLOCK_SIZE := by cases last.free <;> decide
  rw [BitVec.lt_def, toNat_bytesLeft inside] at left
  have value : (growthRequest last size).toInt = _ := toInt_growthRequest_width short (by omega)
  have bound : (growthRequest last size).toInt ≤ 7569412 := by omega
  have quotient := Int.tdiv_le_tdiv (c := PAGESIZE) (by decide) bound
  unfold pagesNeeded
  have most : (7569412 : Int).tdiv PAGESIZE = 1848 := by decide
  omega

/-- **Not inside, if they do not**: an ample machine passes the end of the table. -/
theorem exceeds_passes (bounded : n ≤ USER_PAGES) (place : prev = 0 ∨ BLOCK_SIZE ≤ prev)
    (ends : prev + BLOCK_SIZE + last.size = n * PAGESIZE) (exceeds : Exceeds n prev last size) :
    ∃ m s, ComesTo size m s n prev last ∧ USER_PAGES ∈ allocateRooms size m := by
  obtain ⟨unsuited, left, positive, beyond⟩ := exceeds
  have four : BLOCK_SIZE = 4 := rfl
  have total : USER_PAGES * PAGESIZE < 2 ^ 24 := by decide
  have below := Nat.mul_le_mul_right PAGESIZE bounded
  obtain ⟨front, extent, small, taken⟩ : ∃ front : List Block, extentOf front = prev ∧
      (∀ b ∈ front, b.size < 2 ^ 24) ∧ ∀ b ∈ front, b.free = false := by
    rcases place with rfl | apart
    · exact ⟨[], rfl, by simp, by simp⟩
    · refine ⟨[⟨prev - BLOCK_SIZE, false⟩], ?_, by simp; omega, by simp⟩
      simp only [extentOf, span]
      omega
  have whole : extentOf (front ++ [last]) = n * PAGESIZE := by
    simp only [extentOf, span_append, span] at extent ⊢
    omega
  have chain : Chain (layout 0 (front ++ [last])) false 0 (front ++ [last]) := by
    refine chain_layout fun b member => ?_
    rcases List.mem_append.mp member with earlier | same
    · exact small b earlier
    · cases List.mem_singleton.mp same
      omega
  have full : firstFit BLOCK_SIZE size 0 (front ++ [last]) = none := by
    rw [firstFit_unserved]
    intro b member suits
    rcases List.mem_append.mp member with earlier | same
    · have isFree := suits.1
      rw [taken b earlier] at isFree
      cases isFree
    · cases List.mem_singleton.mp same
      exact unsuited suits
  have started : 0 < n := by
    rcases Nat.eq_zero_or_pos n with rfl | positive
    · omega
    · exact positive
  have ample := alone_ample bounded (layout 0 (front ++ [last]))
  have ran : approach size _ = _ := ample.approaches started chain (by rw [whole]; exact below) full
  rw [extent] at ran
  obtain ⟨_, header, _⟩ := chain_append.mp chain
  rw [Nat.zero_add, extent] at header
  refine ⟨_, _, ⟨ran, rfl, header⟩, ?_⟩
  obtain ⟨m₁, m₂, parts, _⟩ := allocateRooms_of_approach ran
  rw [parts, List.mem_append]
  refine Or.inr (Ample.growRooms_exceeds ?_ header (by omega) left positive ?_ beyond)
  · exact ample.of_same ⟨rfl, rfl, rfl, rfl⟩ rfl
  · exact pagesNeeded_le_slots (by omega) (by omega) left

/-- **The indices are inside exactly if the pages fit.** -/
theorem indices_inside_iff (bounded : n ≤ USER_PAGES) (place : prev = 0 ∨ BLOCK_SIZE ≤ prev)
    (ends : prev + BLOCK_SIZE + last.size = n * PAGESIZE) :
    IndicesInside n prev last size ↔ ¬ Exceeds n prev last size := by
  refine ⟨fun inside exceeds => ?_, indicesInside_of_not_exceeds⟩
  obtain ⟨m, s, comes, member⟩ := exceeds_passes bounded place ends exceeds
  exact Nat.lt_irrefl _ (inside m s comes _ member)

/-- A request for two pages behind the first one stays inside. -/
theorem indices_inside_twoPages : IndicesInside 1 0 ⟨PAGESIZE - BLOCK_SIZE, true⟩ (2 * PAGESIZE) :=
  (indices_inside_iff (by decide) (Or.inl rfl) (by decide)).mpr fun exceeds =>
    absurd exceeds.2.2.2 (by decide)

/-- **A request that ends with the memory passes the end of the table.** -/
theorem indices_not_inside :
    ∃ m s, ComesTo (USER_PAGES * PAGESIZE - 2 * BLOCK_SIZE) m s 1 0 ⟨PAGESIZE - BLOCK_SIZE, true⟩ ∧
      USER_PAGES ∈ allocateRooms (USER_PAGES * PAGESIZE - 2 * BLOCK_SIZE) m := by
  refine exceeds_passes (by decide) (Or.inl rfl) (by decide) ⟨?_, by decide, by decide, by decide⟩
  rintro ⟨_, exact | room⟩
  · exact absurd exact (by decide)
  · exact absurd room (by decide)

end Table

end OS2017.Paging
