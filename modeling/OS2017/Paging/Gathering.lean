/-
**`isEnoughPages` and `gatherPages`.**

`isEnoughPages` counts the free entries of both tables once, `gatherPages` takes one in each of its
rounds. For a thread at home a round takes the first free frame, and a slot of the swap file when there
is none (`Room.freeFrames_tail`): the entry that was in the frame of the new page goes there. So the rounds
never run out of entries, and the only thing that can go wrong is a copy to a frame that is protected,
whose fault ends the process. `CopiesOpen` says that none of them is, and the pages asked for are given
exactly then, if the size of the last block does not outgrow its field (`gatherPages_extends_iff`).
-/

import OS2017.Paging.Refusals

namespace OS2017.Paging

open OS2017.Bytes OS2017.BitField OS2017.Heap

/-- The free frames, the first one first. -/
def freeFrames (m : Machine) : List Nat :=
  (List.range USER_PAGES).filter fun i => getPageIsF (m.pages i) = 1

/-- **The copies of the next `n` rounds do not fault**: the free frame that the round `j` takes is that
of the new page, or it is not protected. -/
def CopiesOpen (n : Nat) (m : Machine) : Prop :=
  ∀ j < n, ∀ f ∈ (freeFrames m)[j]?, f = m.pageNum m.thread + j ∨ m.accessible f = true

/-- **`n` pages more**: as many free entries less, labelled for the running thread in the frames of
their numbers, and their bytes in the size of the block at `last`. -/
structure Supplied (n last : Nat) (m m' : Machine) : Prop where
  pageNum : m'.pageNum = Function.update m.pageNum m.thread (m.pageNum m.thread + n)
  labels : ∀ j < n,
    Labels (m'.pages (m.pageNum m.thread + j)) m.thread (m.pageNum m.thread + j)
  freeCount : freeCount m' + n = freeCount m
  size : (getBlockSize (readWord m'.frames last)).toNat
    = (getBlockSize (readWord m.frames last)).toNat + n * PAGESIZE
  isF : getBlockIsF (readWord m'.frames last) = getBlockIsF (readWord m.frames last)
  isNext : getBlockIsNext (readWord m'.frames last) = getBlockIsNext (readWord m.frames last)

/-! ### The size field -/

/-- The header of a block that gets a page. -/
def extend (w : BitVec 32) : BitVec 32 :=
  setBlockSize w (getBlockSize w + BitVec.ofNat 32 PAGESIZE)

section Extend

variable (w : BitVec 32)

/-- The header with the size as its field takes it. -/
theorem extend_eq : extend w
    = setBlockSize w (BitVec.ofNat 32 (((getBlockSize w).toNat + PAGESIZE) % 2 ^ 24)) := by
  have small : (getBlockSize w).toNat < 2 ^ 24 := toNat_getBlockSize_lt
  have page : PAGESIZE = 4096 := rfl
  have sum : (getBlockSize w + BitVec.ofNat 32 PAGESIZE).toNat = (getBlockSize w).toNat + PAGESIZE := by
    rw [BitVec.toNat_add, BitVec.toNat_ofNat]
    omega
  unfold extend
  rw [setBlockSize_eq, setBlockSize_eq, setField_top _ _ (by decide), sum]

theorem fits_size (k : Nat) : (BitVec.ofNat 32 (k % 2 ^ 24)).toNat < 2 ^ 24 := by
  rw [BitVec.toNat_ofNat]
  omega

theorem getBlockSize_extend :
    (getBlockSize (extend w)).toNat = ((getBlockSize w).toNat + PAGESIZE) % 2 ^ 24 := by
  rw [extend_eq, getBlockSize_setBlockSize (fits_size _), BitVec.toNat_ofNat]
  omega

theorem getBlockIsF_extend : getBlockIsF (extend w) = getBlockIsF w := by
  rw [extend_eq, getBlockIsF_setBlockSize (fits_size _)]

theorem getBlockIsNext_extend : getBlockIsNext (extend w) = getBlockIsNext w := by
  rw [extend_eq, getBlockIsNext_setBlockSize (fits_size _)]

/-- **The header of a block that gets `n` pages**: the flags stay, and the size wraps around at the
width of its field. -/
theorem extend_iterate (n : Nat) :
    (getBlockSize (extend^[n] w)).toNat = ((getBlockSize w).toNat + n * PAGESIZE) % 2 ^ 24 ∧
      getBlockIsF (extend^[n] w) = getBlockIsF w ∧
      getBlockIsNext (extend^[n] w) = getBlockIsNext w := by
  induction n with
  | zero =>
    have small : (getBlockSize w).toNat < 2 ^ 24 := toNat_getBlockSize_lt
    rw [Nat.zero_mul, Nat.add_zero, Nat.mod_eq_of_lt small]
    exact ⟨rfl, rfl, rfl⟩
  | succ n ih =>
    obtain ⟨size, isF, isNext⟩ := ih
    rw [Function.iterate_succ_apply', getBlockSize_extend, getBlockIsF_extend, getBlockIsNext_extend,
      size, Nat.mod_add_mod, Nat.succ_mul, Nat.add_assoc]
    exact ⟨rfl, isF, isNext⟩

end Extend

/-! ### The free frames of a round -/

section Frames

variable {m m₁ m' : Machine} {index : Nat} {q : Place}

theorem freeFrame_eq_head (m : Machine) : freeFrame m = (freeFrames m).head? := by
  unfold freeFrame freeFrames
  rw [List.head?_filter]

theorem mem_freeFrames {f : Nat} :
    f ∈ freeFrames m ↔ f < USER_PAGES ∧ getPageIsF (m.pages f) = 1 := by
  unfold freeFrames
  rw [List.mem_filter, List.mem_range, decide_eq_true_eq]

theorem freeFrames_nodup (m : Machine) : (freeFrames m).Nodup := List.nodup_range.filter _

/-- Room in a frame is made in the first free one. -/
theorem Room.freeFrame_iff (room : Room index q m m₁) {i : Nat} :
    freeFrame m = some i ↔ q = .frame i := by
  constructor
  · intro found
    obtain ⟨inside, isFree, before⟩ := freeFrame_eq_some found
    obtain ⟨j, same, le⟩ := room.first i inside isFree
    have freeJ : getPageIsF (m.pages j) = 1 := by
      have isFreeQ := room.isFree
      rwa [same] at isFreeQ
    have equal : j = i := by
      by_contra different
      exact before j (by omega) freeJ
    rw [same, equal]
  · rintro rfl
    have inside : i < USER_PAGES := room.valid
    have isFree : getPageIsF (m.pages i) = 1 := room.isFree
    cases found : freeFrame m with
    | none => exact absurd isFree (freeFrame_eq_none found inside)
    | some j =>
      obtain ⟨insideJ, freeJ, before⟩ := freeFrame_eq_some found
      obtain ⟨_, same, le⟩ := room.first j insideJ freeJ
      cases same
      have equal : j = i := by
        by_contra different
        exact before i (by omega) isFree
      rw [equal]

/-- **The first free frame is taken**, and no other. -/
theorem Room.isFree_iff (room : Room index q m m₁) (home : AtHome m) (inside : index < USER_PAGES)
    (next : index = m.pageNum m.thread) (new : Initialized index m₁ m') {i : Nat} :
    getPageIsF (m'.pages i) = 1 ↔ getPageIsF (m.pages i) = 1 ∧ freeFrame m ≠ some i := by
  have beyond : ∀ {j}, q = .frame j → index ≤ j := by
    rintro j rfl
    rw [next]
    exact home.beyond_of_free room.isFree
  -- a free frame is not the one of the new page, unless that is taken
  have atIndex : getPageIsF (m.pages index) = 1 → q = .frame index := by
    intro isFree
    obtain ⟨j, same, le⟩ := room.first index inside isFree
    rw [same, Nat.le_antisymm le (beyond same)]
  have entry := congrFun (room.new_entry new) (.frame i)
  rw [ne_eq, room.freeFrame_iff]
  show getPageIsF (m'.entry (.frame i)) = 1 ↔ _
  rw [entry]
  by_cases here : i = index
  · subst here
    rw [Function.update_self, newEntry_isF]
    constructor
    · intro impossible
      cases impossible
    · rintro ⟨isFree, away⟩
      exact absurd (atIndex isFree) away
  · rw [Function.update_of_ne (by simp [here]), Function.comp_apply]
    by_cases taken : q = .frame i
    · rw [taken, Equiv.swap_apply_right]
      refine ⟨fun isFree => absurd (atIndex isFree) ?_, fun both => absurd rfl both.2⟩
      rw [taken]
      simp [here]
    · rw [Equiv.swap_apply_of_ne_of_ne (by simp [here]) (Ne.symm taken)]
      exact ⟨fun isFree => ⟨isFree, taken⟩, And.left⟩

/-- **Without the first free frame** there are the others, in the same order. -/
theorem freeFrames_tail_of (taken : ∀ i < USER_PAGES,
    getPageIsF (m'.pages i) = 1 ↔ getPageIsF (m.pages i) = 1 ∧ freeFrame m ≠ some i) :
    freeFrames m' = (freeFrames m).tail := by
  have without : freeFrames m' = (freeFrames m).filter fun i => freeFrame m ≠ some i := by
    unfold freeFrames
    rw [List.filter_filter]
    refine List.filter_congr fun i member => ?_
    rw [← Bool.decide_and]
    refine decide_eq_decide.mpr ((taken i (List.mem_range.mp member)).trans ?_)
    exact and_comm
  rw [without, freeFrame_eq_head]
  have nodup := freeFrames_nodup m
  cases frames : freeFrames m with
  | nil => rfl
  | cons f rest =>
    rw [frames] at nodup
    have outside := (List.nodup_cons.mp nodup).1
    rw [List.head?_cons, List.filter_cons_of_neg (by simp), List.tail_cons, List.filter_eq_self]
    intro i member
    refine decide_eq_true fun same => outside ?_
    rw [Option.some.inj same]
    exact member

/-- **The free frames behind a round** are those before it, without the first. -/
theorem Room.freeFrames_tail (room : Room index q m m₁) (home : AtHome m) (inside : index < USER_PAGES)
    (next : index = m.pageNum m.thread) (new : Initialized index m₁ m') :
    freeFrames m' = (freeFrames m).tail :=
  freeFrames_tail_of fun _ _ => room.isFree_iff home inside next new

/-- Room is made with no other change of the protection. -/
theorem AtHome.makeRoom_accessible (home : AtHome m) (next : index = m.pageNum m.thread) {freed : Bool}
    (ran : Paging.makeRoom index m = some (freed, m')) {i : Nat} (other : i ≠ index)
    (untaken : freeFrame m ≠ some i) : m'.accessible i = m.accessible i := by
  obtain ⟨moved, m₁, first, rest⟩ := run_bind ran
  obtain ⟨inside, ⟨none, rfl, rfl⟩ | ⟨_, rfl, rfl⟩ | ⟨f, different, found, rfl, m₂, touched, rfl⟩⟩ :=
    moveToFreeSpace_run first
  · obtain ⟨_, ⟨_, _, rfl⟩ | ⟨d, _, _, rfl⟩⟩ := moveToDiskSpace_run rest
    · rfl
    · exact Function.update_of_ne other _ _
  · cases rest
    rfl
  · cases rest
    have missing := home.not_located_doubled inside next found
    obtain ⟨_, rfl⟩ | ⟨_, place, _, there, _⟩ :=
      touchBoth_doubled different (by rw [missing]; simp) touched
    · have away : i ≠ f := fun same => untaken (same ▸ found)
      exact (Function.update_of_ne away _ _).trans (Function.update_of_ne other _ _)
    · rw [missing] at there
      cases there

end Frames

/-! ### One round -/

section Rounds

variable {m m' : Machine} {last : Nat}

/-- **An access or a store of a thread at home.** -/
structure Beside (m s : Machine) : Prop where
  around : Around m s
  beyond : ∀ i, m.pageNum m.thread ≤ i → s.accessible i = m.accessible i

/-- The pages at home are plain memory, and the frames behind them stay as they are. -/
theorem paged_beside (home : AtHome m) :
    Backed paged (Beside m) (·.frames) (m.pageNum m.thread * PAGESIZE) := by
  refine paged_near (fun s beside => ?_) (fun s s' beside near => ?_) fun s frames beside =>
    ⟨beside.around.trans rfl, beside.beyond⟩
  · have tables := beside.around.tables
    exact ⟨home.of_same tables, by rw [tables.pageCount]⟩
  · have tables := beside.around.tables
    refine ⟨beside.around.trans near.resting.around, fun i above => ?_⟩
    have above' : s.pageNum s.thread ≤ i := by
      rw [tables.pageCount]
      exact above
    exact (near.beyond i above').trans (beside.beyond i above)

/-- **What a round of `gatherPages` does.** -/
structure Round (last : Nat) (m m' : Machine) : Prop where
  home : AtHome m'
  thread : m'.thread = m.thread
  pageNum : m'.pageNum = Function.update m.pageNum m.thread (m.pageNum m.thread + 1)
  freeCount : freeCount m' + 1 = freeCount m
  frames : freeFrames m' = (freeFrames m).tail
  accessible : ∀ f ∈ freeFrames m', m'.accessible f = m.accessible f
  word : readWord m'.frames last = extend (readWord m.frames last)

theorem Round.pageCount (round : Round last m m') :
    m'.pageNum m'.thread = m.pageNum m.thread + 1 := by
  rw [round.pageNum, round.thread, Function.update_self]

/-- The block that grows stays inside the pages. -/
theorem Round.inside (round : Round last m m') (inside : last + 4 ≤ m.pageNum m.thread * PAGESIZE) :
    last + 4 ≤ m'.pageNum m'.thread * PAGESIZE := by
  rw [round.pageCount, Nat.succ_mul]
  omega

/-- The copy of the first round. -/
theorem CopiesOpen.first {n : Nat} (copies : CopiesOpen (n + 1) m) :
    Copies m (m.pageNum m.thread) := by
  intro f found
  rw [freeFrame_eq_head, List.head?_eq_getElem?] at found
  exact copies 0 (Nat.succ_pos n) f found

/-- **A round goes through if its copy does not fault**, and it takes the first free frame. -/
theorem AtHome.round (home : AtHome m) (fits : m.pageNum m.thread < USER_PAGES)
    (enough : 0 < freeCount m) (inside : last + 4 ≤ m.pageNum m.thread * PAGESIZE)
    (copies : Copies m (m.pageNum m.thread)) :
    ∃ m', Round last m m' ∧
      ∀ n, gatherPages swapping last (n + 1) m = gatherPages swapping last n m' := by
  have positive : 0 < m.pageNum m.thread := Nat.pos_of_ne_zero fun zero => by
    rw [zero, Nat.zero_mul] at inside
    omega
  obtain ⟨freed, m₁, ran, _⟩ := (home.makeRoom_returns fits rfl).mpr copies
  obtain ⟨_, ⟨rfl, q, room⟩ | ⟨_, none, _⟩⟩ := home.makeRoom rfl ran
  · obtain ⟨_, m₂, ran₂, new⟩ := initializePage_spec m₁ fits
    have grown := room.grows_home home fits rfl new
    have pages := grown.pageCount
    have inside₂ : last + 4 ≤ m₂.pageNum m₂.thread * PAGESIZE := by
      rw [pages, Nat.succ_mul]
      omega
    have shows : Shows (Beside m₂) (·.frames) m₂.frames m₂ := ⟨⟨rfl, fun _ _ => rfl⟩, rfl⟩
    have modified : Returns (paged.modify last extend) m₂ fun _ => Shows (Beside m₂) (·.frames)
        (writeWord m₂.frames last (extend (readWord m₂.frames last))) :=
      (paged_beside grown.home).modify shows inside₂
    obtain ⟨_, m₃, ran₃, beside, frames⟩ := modified
    have tables := beside.around.tables
    have untouched : freeFrames m₃ = freeFrames m₂ := by
      unfold freeFrames
      rw [tables.pages]
    have tail := room.freeFrames_tail home fits rfl new
    refine ⟨m₃, ⟨grown.home.of_same tables, tables.thread.trans grown.thread,
      tables.pageNum.trans grown.pageNum, ?_, untouched.trans tail, fun f member => ?_, ?_⟩,
      fun n => ?_⟩
    · rw [tables.freeCount]
      exact grown.freeCount
    · -- a frame that is still free is behind the new page
      rw [untouched] at member
      obtain ⟨_, isFree⟩ := mem_freeFrames.mp member
      have above := grown.home.beyond_of_free isFree
      obtain ⟨_, untaken⟩ := (room.isFree_iff home fits rfl new).mp isFree
      rw [beside.beyond f above]
      rw [pages] at above
      have made := home.makeRoom_accessible rfl ran (by omega) untaken
      rcases new.heap with ⟨_, _, same⟩ | ⟨_, same, _⟩
      · rw [same, made]
      · rw [same, Function.update_of_ne (by omega), made]
    · have kept : readWord m₂.frames last = readWord m.frames last :=
        readWord_congr fun c _ _ => grown.frames c (by omega)
      have stored : m₃.frames = writeWord m₂.frames last (extend (readWord m₂.frames last)) := frames
      rw [stored, readWord_writeWord, kept]
    · rw [gatherPages, look_run, then_run ran, if_pos rfl, then_run ran₂]
      exact then_run ran₃ _
  · omega

/-- **A round whose copy faults ends the process.** -/
theorem AtHome.round_stuck (home : AtHome m) (fits : m.pageNum m.thread < USER_PAGES)
    (closed : ¬ Copies m (m.pageNum m.thread)) (n : Nat) :
    gatherPages swapping last (n + 1) m = none := by
  cases ran : Paging.makeRoom (m.pageNum m.thread) m with
  | none =>
    rw [gatherPages, look_run]
    exact Option.bind_eq_none_iff.mpr fun _ impossible => by cases ran.symm.trans impossible
  | some result =>
    exact absurd ((home.makeRoom_returns fits rfl).mp ⟨result.1, result.2, ran, trivial⟩) closed

/-- The copies of the rounds are those of the first and of the rest. -/
theorem Round.copiesOpen_succ (round : Round last m m') (n : Nat) :
    CopiesOpen (n + 1) m ↔ Copies m (m.pageNum m.thread) ∧ CopiesOpen n m' := by
  have later : ∀ (j f : Nat), f ∈ (freeFrames m)[j + 1]? →
      f ∈ (freeFrames m')[j]? ∧ m'.accessible f = m.accessible f := by
    intro j f found
    have same : (freeFrames m')[j]? = some f := by
      rw [round.frames, List.getElem?_tail]
      exact found
    exact ⟨same, round.accessible f (List.mem_of_getElem? same)⟩
  constructor
  · intro copies
    refine ⟨copies.first, fun j below f found => ?_⟩
    rw [round.frames, List.getElem?_tail] at found
    rw [round.pageCount, (later j f found).2]
    have here := copies (j + 1) (by omega) f found
    rwa [← Nat.add_assoc, Nat.add_right_comm] at here
  · rintro ⟨first, rest⟩ j below f found
    cases j with
    | zero =>
      refine first f ?_
      rw [freeFrame_eq_head, List.head?_eq_getElem?]
      exact found
    | succ j =>
      obtain ⟨found', same⟩ := later j f found
      have here := rest j (by omega) f found'
      rwa [round.pageCount, same, Nat.add_right_comm, Nat.add_assoc] at here

/-! ### All rounds -/

/-- **The rounds go through if no copy faults.** -/
theorem AtHome.gatherPages_open {n : Nat} (home : AtHome m) (enough : n ≤ freeCount m)
    (fits : m.pageNum m.thread + n ≤ USER_PAGES) (inside : last + 4 ≤ m.pageNum m.thread * PAGESIZE)
    (copies : CopiesOpen n m) : Returns (gatherPages swapping last n) m fun _ m' =>
      AtHome m' ∧ m'.thread = m.thread ∧
        m'.pageNum = Function.update m.pageNum m.thread (m.pageNum m.thread + n) ∧
        freeCount m' + n = freeCount m ∧
        readWord m'.frames last = extend^[n] (readWord m.frames last) := by
  induction n generalizing m with
  | zero =>
    refine ⟨(), m, rfl, home, rfl, ?_, rfl, rfl⟩
    rw [Nat.add_zero, Function.update_eq_self]
  | succ n ih =>
    obtain ⟨m₁, round, same⟩ := home.round (by omega) (by omega) inside copies.first
    have count := round.freeCount
    obtain ⟨_, m', ran, home', thread, pageNum, count', word⟩ := ih round.home (by omega)
      (by rw [round.pageCount]; omega) (round.inside inside) ((round.copiesOpen_succ n).mp copies).2
    refine ⟨(), m', (same n).trans ran, home', thread.trans round.thread, ?_, by omega, ?_⟩
    · rw [pageNum, round.pageCount, round.thread, round.pageNum, Function.update_idem,
        show m.pageNum m.thread + 1 + n = m.pageNum m.thread + (n + 1) by omega]
    · rw [word, round.word, Function.iterate_succ_apply]

/-- **A copy that faults ends them.** -/
theorem AtHome.gatherPages_stuck {n : Nat} (home : AtHome m) (enough : n ≤ freeCount m)
    (fits : m.pageNum m.thread + n ≤ USER_PAGES) (inside : last + 4 ≤ m.pageNum m.thread * PAGESIZE)
    (closed : ¬ CopiesOpen n m) : gatherPages swapping last n m = none := by
  induction n generalizing m with
  | zero => exact absurd (fun j below => by omega) closed
  | succ n ih =>
    by_cases first : Copies m (m.pageNum m.thread)
    · obtain ⟨m₁, round, same⟩ := home.round (by omega) (by omega) inside first
      have count := round.freeCount
      have closed₁ : ¬ CopiesOpen n m₁ := fun rest =>
        closed ((round.copiesOpen_succ n).mpr ⟨first, rest⟩)
      rw [same n]
      exact ih round.home (by omega) (by rw [round.pageCount]; omega) (round.inside inside) closed₁
    · exact home.round_stuck (by omega) first n

/-- As many pages as `isEnoughPages` grants are free. -/
theorem le_freeCount_of_enough {r : BitVec 32} {n : Nat} (granted : isEnoughPages m r = n) :
    n ≤ freeCount m := by
  unfold isEnoughPages at granted
  dsimp only at granted
  split at granted <;> omega

/-- **The pages that `isEnoughPages` grants are given** exactly if no copy of the rounds goes to a
protected frame and the size of the block does not outgrow its field. -/
theorem gatherPages_supplies_iff {r : BitVec 32} {n : Nat} (home : AtHome m)
    (granted : isEnoughPages m r = n) (fits : m.pageNum m.thread + n ≤ USER_PAGES)
    (inside : last + 4 ≤ m.pageNum m.thread * PAGESIZE) :
    Returns (gatherPages swapping last n) m (fun _ m' => Supplied n last m m') ↔
      CopiesOpen n m ∧ (getBlockSize (readWord m.frames last)).toNat + n * PAGESIZE < 2 ^ 24 := by
  have enough := le_freeCount_of_enough granted
  obtain ⟨size, isF, isNext⟩ := extend_iterate (readWord m.frames last) n
  constructor
  · rintro ⟨_, m', ran, supplied⟩
    have copies : CopiesOpen n m := by
      by_contra closed
      cases ran.symm.trans (home.gatherPages_stuck enough fits inside closed)
    refine ⟨copies, ?_⟩
    obtain ⟨_, word⟩ := ((home.gatherPages_open enough fits inside copies).of_run ran).2.2.2
    have grown := supplied.size
    rw [word, size] at grown
    exact grown ▸ Nat.mod_lt _ (by decide)
  · rintro ⟨copies, small⟩
    refine (home.gatherPages_open enough fits inside copies).mono ?_
    rintro _ m' ⟨home', thread, pageNum, count, word⟩
    refine ⟨pageNum, fun j below => ?_, count, ?_, ?_, ?_⟩
    · have label := home'.labels (m.pageNum m.thread + j) (by
        rw [pageNum, thread, Function.update_self]
        omega)
      rwa [thread] at label
    · rw [word, size, Nat.mod_eq_of_lt small]
    · rw [word, isF]
    · rw [word, isNext]

end Rounds

/-! ### Two machines -/

/-- The bytes of a heap of one free block in one page. -/
def oneFreeBlock : Memory := layout 0 [⟨PAGESIZE - BLOCK_SIZE, true⟩]

theorem granted_two {m : Machine} (slots : ∀ i < DISK_PAGES, getPageIsF (m.diskPages i) = 1) :
    isEnoughPages m 5000 = (2 : Nat) := by
  have many : DISK_PAGES ≤ freeCount m := slots_le_freeCount slots
  have total : DISK_PAGES = 4096 := by decide
  have needed : (5000 : BitVec 32).toInt.tdiv PAGESIZE + 1 = 2 := by decide
  unfold isEnoughPages
  rw [needed, if_pos (by omega)]
  rfl

/-- A thread alone with open frames gets its pages. -/
theorem gatherPages_supplies_alone : Returns (gatherPages swapping 0 2) (alone 1 oneFreeBlock)
    fun _ m' => Supplied 2 0 (alone 1 oneFreeBlock) m' := by
  have ample : Ample (alone 1 oneFreeBlock) := alone_ample (by decide) _
  have pages : (alone 1 oneFreeBlock).pageNum (alone 1 oneFreeBlock).thread = 1 := rfl
  have fits : (alone 1 oneFreeBlock).pageNum (alone 1 oneFreeBlock).thread + 2 ≤ USER_PAGES := by
    rw [pages]
    decide
  refine (gatherPages_supplies_iff ample.home (granted_two ample.slots) fits (by rw [pages]; decide)).mpr
    ⟨fun j _ f _ => Or.inr rfl, ?_⟩
  have size : (getBlockSize (readWord (alone 1 oneFreeBlock).frames 0)).toNat = 4092 := by
    show (getBlockSize (readWord oneFreeBlock 0)).toNat = 4092
    decide
  rw [size]
  decide

/-- A thread with its page in frame `0`. Frame `2` is another thread's, frame `3` is free and
protected, as a thread that exits leaves its frames. -/
def protectedBehind : Machine :=
  { alone 1 oneFreeBlock with
    pages := Function.update (alone 1 oneFreeBlock).pages 2 (newEntry 0 2 0)
    accessible := Function.update (fun _ => true) 3 false }

theorem protectedBehind_home : AtHome protectedBehind := by
  have home : AtHome (alone 1 oneFreeBlock) := (alone_ample (by decide) _).home
  refine ⟨home.id, home.bounded, fun k below => ?_, fun place valid mine => ?_⟩
  · have zero : k = 0 := Nat.lt_one_iff.mp below
    subst zero
    exact home.labels 0 below
  · cases place with
    | slot i => exact home.only (.slot i) valid mine
    | frame i =>
      have label : (getPageThID (Function.update (alone 1 oneFreeBlock).pages 2 (newEntry 0 2 0) i)).toNat
        = 1 := mine
      by_cases same : i = 2
      · rw [same, Function.update_self] at label
        exact absurd label (by decide)
      · rw [Function.update_of_ne same] at label
        exact home.only (.frame i) valid label

/-- The second round takes frame `3`. -/
theorem protectedBehind_closed : ¬ CopiesOpen 2 protectedBehind := by
  intro copies
  have taken : (freeFrames protectedBehind)[1]? = some 3 := by decide +kernel
  rcases copies 1 (by decide) 3 taken with here | opened
  · exact absurd here (by decide)
  · exact absurd opened (by decide)

/-- **Two pages are granted, and the second one ends the process**: its copy goes to frame `3`. -/
theorem granted_not_supplied : ∃ (m : Machine) (r : BitVec 32), AtHome m ∧
    isEnoughPages m r = (2 : Nat) ∧ m.pageNum m.thread + 2 ≤ USER_PAGES ∧
    0 + 4 ≤ m.pageNum m.thread * PAGESIZE ∧ gatherPages swapping 0 2 m = none ∧
    ¬ Returns (gatherPages swapping 0 2) m fun _ m' => Supplied 2 0 m m' := by
  have pages : protectedBehind.pageNum protectedBehind.thread = 1 := rfl
  have granted : isEnoughPages protectedBehind 5000 = (2 : Nat) :=
    granted_two (alone_ample (n := 1) (by decide) oneFreeBlock).slots
  have fits : protectedBehind.pageNum protectedBehind.thread + 2 ≤ USER_PAGES := by
    rw [pages]
    decide
  have inside : 0 + 4 ≤ protectedBehind.pageNum protectedBehind.thread * PAGESIZE := by
    rw [pages]
    decide
  have stuck := protectedBehind_home.gatherPages_stuck (le_freeCount_of_enough granted) fits inside
    protectedBehind_closed
  refine ⟨protectedBehind, 5000, protectedBehind_home, granted, fits, inside, stuck, ?_⟩
  rintro ⟨_, m', ran, _⟩
  cases stuck.symm.trans ran

end OS2017.Paging
