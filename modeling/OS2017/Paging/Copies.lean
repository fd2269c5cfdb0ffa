/-
**The copies of an eviction.**

`allocateMoves size m` lists the calls of `moveToFreeSpace` and `moveToDiskSpace` that a call of
`myallocate` makes: the index, and the machine at that moment. `allocateTouches` lists the frames that
their copies touch, and whether each is accessible then.

The rounds take the free frames in ascending order. As long as the page for which a round makes room goes
to its own frame, or the frame taken is not protected (`CopiesOpen`), no free frame is the home of a page
the thread has, so that neither the accesses nor `alignPages` move one (`KeepsFree`), and the copies of
the rounds touch accessible frames (`growMoves_clear`).
-/

import OS2017.Paging.Gathering
import OS2017.Paging.OpenFrames

namespace OS2017.Paging

open OS2017.Bytes OS2017.Heap OS2017.Run

/-! ### The frames a copy touches -/

/-- Frames, and whether each is accessible. -/
def touches (m : Machine) (frames : List Nat) : List (Nat × Bool) :=
  frames.map fun k => (k, m.accessible k)

/-- Those of `moveToFreeSpace`: the copy reads the frame `index` and writes the first free one. -/
def freeSpaceTouches (index : Nat) (m : Machine) : List (Nat × Bool) :=
  match freeFrame m with
  | none => []
  | some i => if i = index then [] else touches (doubled m index i) [index, i]

/-- Those of `moveToDiskSpace`: the copy reads the frame `index`. -/
def diskSpaceTouches (index : Nat) (m : Machine) : List (Nat × Bool) :=
  match freeSlot m with
  | none => []
  | some _ => touches { m with accessible := Function.update m.accessible index true } [index]

/-- Those of both: `moveToDiskSpace` is called if there is no free frame. -/
def roomTouches (index : Nat) (m : Machine) : List (Nat × Bool) :=
  freeSpaceTouches index m ++ if freeFrame m = none then diskSpaceTouches index m else []

/-! ### The calls of `makeRoom` -/

/-- The calls after a program. -/
def arrive {α : Type} (prog : StateT Machine Option α) (next : α → Machine → List (Nat × Machine))
    (m : Machine) : List (Nat × Machine) :=
  match prog m with
  | some (a, m') => next a m'
  | none => []

/-- Those of `gatherPages`. -/
def gatherMoves (lastBlock : Nat) : Nat → Machine → List (Nat × Machine)
  | 0 => fun _ => []
  | pagesNeeded + 1 => fun m =>
    let nextPage := m.pageNum m.thread
    (nextPage, m) :: arrive (makeRoom nextPage) (fun freed =>
      if freed then
        arrive (initializePage nextPage) fun _ =>
          arrive (paged.modify lastBlock fun w =>
              setBlockSize w (getBlockSize w + BitVec.ofNat 32 PAGESIZE)) fun _ =>
            gatherMoves lastBlock pagesNeeded
      else fun _ => []) m

/-- Those of the growth. -/
def growMoves (size prev : Nat) : Machine → List (Nat × Machine) :=
  if bytesLeft prev < sizeWithBlock size then fun _ => []
  else arrive (paged.load prev) fun word m =>
    let pagesNeeded := isEnoughPages m (extraBlock word + sizeWithBlock size - getBlockSize word)
    if pagesNeeded > 0 then
      if extraBlock word = 0 then gatherMoves prev pagesNeeded.toNat m
      else
        (m.pageNum m.thread, m) :: arrive (newLastBlock swapping prev) (fun block =>
          match block with
          | none => fun _ => []
          | some bl => gatherMoves bl (pagesNeeded.toNat - 1)) m
    else []

/-- That of the first page, if it is made. -/
def firstMoves (m : Machine) : List (Nat × Machine) :=
  if (getPageThID (m.pages 0)).toNat ≠ m.thread then [(0, m)] else []

/-- Those behind the search. -/
def searchMoves (size : Nat) : Machine → List (Nat × Machine) :=
  arrive (firstFitLoop paged size (sizeWithBlock size) walkFuel 0) fun search =>
    match search with
    | .found _ => fun _ => []
    | .exhausted prev => growMoves size prev

/-- **The calls of `makeRoom` that `myallocate` makes.** -/
def allocateMoves (size : Nat) : Machine → List (Nat × Machine) :=
  arrive pause_timer fun _ => arrive alignPages fun _ m =>
    firstMoves m ++ arrive (firstPage swapping) (fun ready =>
      if ready then searchMoves size else fun _ => []) m

/-- **The frames that the copies of `myallocate` touch**, and whether each is accessible then. -/
def allocateTouches (size : Nat) (m : Machine) : List (Nat × Bool) :=
  (allocateMoves size m).flatMap fun move => roomTouches move.1 move.2

/-! ### The indices of the calls -/

section Indices

variable {α : Type}

theorem mem_arrive {prog : StateT Machine Option α} {next : α → Machine → List (Nat × Machine)}
    {m : Machine} {move : Nat × Machine} (member : move ∈ arrive prog next m) :
    ∃ a m', prog m = some (a, m') ∧ move ∈ next a m' := by
  unfold arrive at member
  split at member
  · rename_i a m' ran
    exact ⟨a, m', ran, member⟩
  · cases member

theorem map_arrive (prog : StateT Machine Option α) (next : α → Machine → List (Nat × Machine))
    {rooms : α → Machine → List Nat} (same : ∀ a m, (next a m).map Prod.fst = rooms a m) (m : Machine) :
    (arrive prog next m).map Prod.fst = along prog rooms m := by
  unfold arrive along
  cases prog m with
  | none => rfl
  | some result => exact same _ _

theorem map_gatherMoves (lastBlock n : Nat) (m : Machine) :
    (gatherMoves lastBlock n m).map Prod.fst = gatherRooms lastBlock n m := by
  induction n generalizing m with
  | zero => rfl
  | succ n ih =>
    rw [gatherMoves, gatherRooms, List.map_cons]
    refine congrArg _ (map_arrive _ _ (fun freed m₁ => ?_) m)
    split
    · exact map_arrive _ _ (fun _ m₂ => map_arrive _ _ (fun _ m₃ => ih m₃) m₂) m₁
    · rfl

theorem map_growMoves (size prev : Nat) (m : Machine) :
    (growMoves size prev m).map Prod.fst = growRooms size prev m := by
  unfold growMoves growRooms
  split
  · rfl
  · refine map_arrive _ _ (fun word m₁ => ?_) m
    dsimp only
    split
    · split
      · exact map_gatherMoves _ _ _
      · rw [List.map_cons]
        refine congrArg _ (map_arrive _ _ (fun block m₂ => ?_) m₁)
        cases block with
        | none => rfl
        | some bl => exact map_gatherMoves _ _ _
    · rfl

/-- **The indices of the calls are those that `myallocate` passes.** -/
theorem map_allocateMoves (size : Nat) (m : Machine) :
    (allocateMoves size m).map Prod.fst = allocateRooms size m := by
  refine map_arrive _ _ (fun _ m₀ => map_arrive _ _ (fun _ m₁ => ?_) m₀) m
  rw [List.map_append]
  refine congrArg₂ _ ?_ (map_arrive _ _ (fun ready m₂ => ?_) m₁)
  · unfold firstMoves firstRooms
    split <;> rfl
  · split
    · refine map_arrive _ _ (fun search m₃ => ?_) m₂
      cases search with
      | found ptr => rfl
      | exhausted prev => exact map_growMoves size prev m₃
    · rfl

end Indices

/-! ### The free frames between two rounds -/

/-- **The free frames are those there were**, protected or open as they were. -/
structure SameFree (m m' : Machine) : Prop where
  thread : m'.thread = m.thread
  pageNum : m'.pageNum = m.pageNum
  frames : freeFrames m' = freeFrames m
  accessible : ∀ f ∈ freeFrames m, m'.accessible f = m.accessible f

section Free

variable {live : Nat → Bool} {threadNum : Nat} {m m' m'' : Machine}

theorem SameFree.refl (m : Machine) : SameFree m m := ⟨rfl, rfl, rfl, fun _ _ => rfl⟩

theorem SameFree.trans (first : SameFree m m') (second : SameFree m' m'') : SameFree m m'' := by
  refine ⟨second.thread.trans first.thread, second.pageNum.trans first.pageNum,
    second.frames.trans first.frames, fun f member => ?_⟩
  rw [second.accessible f (by rw [first.frames]; exact member)]
  exact first.accessible f member

/-- The same entries in the frames. -/
theorem sameFree_of_isFree (thread : m'.thread = m.thread) (pageNum : m'.pageNum = m.pageNum)
    (isFree : ∀ f < USER_PAGES, getPageIsF (m'.pages f) = 1 ↔ getPageIsF (m.pages f) = 1)
    (accessible : ∀ f < USER_PAGES, getPageIsF (m.pages f) = 1 → m'.accessible f = m.accessible f) :
    SameFree m m' := by
  refine ⟨thread, pageNum, ?_, fun f member => ?_⟩
  · unfold freeFrames
    refine List.filter_congr fun f member => decide_eq_decide.mpr (isFree f (List.mem_range.mp member))
  · obtain ⟨inside, isFree'⟩ := mem_freeFrames.mp member
    exact accessible f inside isFree'

theorem CopiesOpen.of_same {n : Nat} (clear : CopiesOpen n m) (same : SameFree m m') :
    CopiesOpen n m' := by
  intro j before f found
  rw [same.frames] at found
  rw [same.thread, same.pageNum, same.accessible f (List.mem_of_getElem? found)]
  exact clear j before f found

theorem CopiesOpen.mono {n k : Nat} (clear : CopiesOpen n m) (le : k ≤ n) : CopiesOpen k m :=
  fun j before => clear j (lt_of_lt_of_le before le)

theorem Reserved.of_same (reserved : Reserved m) (same : SameFree m m') : Reserved m' := by
  intro i inside isFree
  have member : i ∈ freeFrames m' := mem_freeFrames.mpr ⟨inside, isFree⟩
  rw [same.frames] at member
  rw [same.thread, same.pageNum]
  exact reserved i inside (mem_freeFrames.mp member).2

/-- The free frames are in ascending order. -/
theorem freeFrames_head_le {f first : Nat} (head : first ∈ (freeFrames m)[0]?) (member : f ∈ freeFrames m) :
    first ≤ f := by
  rw [← List.head?_eq_getElem?, ← freeFrame_eq_head] at head
  obtain ⟨_, _, before⟩ := freeFrame_eq_some head
  by_contra above
  exact before f (by omega) (mem_freeFrames.mp member).2

/-- **Where a round's copy does not fault, no free frame is the home of a page the thread has.** -/
theorem CopiesOpen.reserved {n : Nat} (clear : CopiesOpen n m) (some : 0 < n) (tidy : Tidy m)
    (labelled : Labelled live threadNum m.pageNum m.entry) (alive : live m.thread = true) : Reserved m := by
  intro i inside isFree
  have member : i ∈ freeFrames m := mem_freeFrames.mpr ⟨inside, isFree⟩
  obtain ⟨first, head⟩ : ∃ first, first ∈ (freeFrames m)[0]? :=
    ⟨_, List.getElem?_eq_getElem (List.length_pos_of_mem member)⟩
  have le := freeFrames_head_le head member
  rcases clear 0 some first head with home | reachable
  · omega
  · obtain ⟨inside', isFree'⟩ := mem_freeFrames.mp (List.mem_of_getElem? head)
    exact (tidy.pageNum_le labelled alive ⟨inside', isFree', reachable⟩).trans le

/-- **A fault leaves the free frames alone** that are not the home of one of the thread's pages. -/
theorem touch_sameFree (labelled : Labelled live threadNum m.pageNum m.entry)
    (alive : live m.thread = true) (reserved : Reserved m) {k : Nat} (ran : touch k m = some ((), m')) :
    SameFree m m' := by
  obtain ⟨inside, ⟨_, rfl⟩ | ⟨_, place, found, fetched⟩⟩ := touch_run ran
  · exact SameFree.refl _
  · obtain ⟨valid, label⟩ := (located_iff labelled alive).mp found
    have used : getPageIsF (m.pages k) ≠ 1 := fun isFree =>
      absurd (reserved k inside isFree) (not_le.mpr (labelled.below _ alive k place valid label))
    have entry : ∀ f, m'.pages f = m.entry (Equiv.swap (.frame k) place (.frame f)) := fun f =>
      congrFun fetched.entry (.frame f)
    -- neither the frame of the fault nor the place of its page is free, before or after
    have apart : ∀ f, getPageIsF (m.pages f) = 1 → f ≠ k ∧ .frame f ≠ place := by
      refine fun f isFree => ⟨fun same => used (same ▸ isFree), ?_⟩
      rintro rfl
      exact absurd (label.used.symm.trans isFree) (by decide)
    refine sameFree_of_isFree fetched.thread fetched.pageNum (fun f _ => ?_) fun f _ isFree => ?_
    · rw [entry]
      by_cases here : f = k
      · subst here
        rw [Equiv.swap_apply_left, label.used]
        exact ⟨fun impossible => absurd impossible (by decide), fun isFree => absurd isFree used⟩
      · by_cases there : .frame f = place
        · subst there
          rw [Equiv.swap_apply_right]
          refine ⟨fun isFree => absurd isFree used, fun isFree => ?_⟩
          exact absurd (label.used.symm.trans isFree) (by decide)
        · rw [Equiv.swap_apply_of_ne_of_ne (by simp [here]) there]
          rfl
    · obtain ⟨here, there⟩ := apart f isFree
      rw [fetched.accessible, Function.update_of_ne here]
      cases place with
      | slot d => rfl
      | frame p => exact Function.update_of_ne (fun same => there (by rw [same])) _ _

/-- **`alignPages` leaves the free frames alone** whose slots do not have the page for them. -/
theorem alignPages_sameFree (labelled : Labelled live threadNum m.pageNum m.entry)
    (alive : live m.thread = true)
    (none : ∀ f < USER_PAGES, getPageIsF (m.pages f) = 1 → ¬ Labels (m.diskPages f) m.thread f)
    (ran : alignPages m = some ((), m')) : SameFree m m' := by
  obtain ⟨slots, _, fetches⟩ := (alignPages_run (alignPages_inside ran)).of_run ran
  have permutes := keeps_alignPages _ _ _ ran
  refine sameFree_of_isFree permutes.thread permutes.pageNum (fun f inside => ?_) fun f inside isFree => ?_
  · refine ⟨fun isFree => ?_, fun isFree => ?_⟩
    · rw [← (alignPages_frame labelled alive ran inside isFree).1]
      exact isFree
    · have stays : ¬ (f ∈ slots ∧ swappedAt (opened m (List.range USER_PAGES)) f) := by
        rintro ⟨_, used, thID, pgID⟩
        exact none f inside isFree ⟨used, thID, pgID.symm⟩
      have entry := fetches.entry (.frame f)
      rw [(homeward_of_not stays).1] at entry
      rw [show m'.pages f = m.pages f from entry]
      exact isFree
  · have stays : ¬ (f ∈ slots ∧ swappedAt (opened m (List.range USER_PAGES)) f) := by
      rintro ⟨_, used, thID, pgID⟩
      exact none f inside isFree ⟨used, thID, pgID.symm⟩
    have entry := fetches.entry (.frame f)
    rw [(homeward_of_not stays).1] at entry
    have isFree' : getPageIsF (m'.pages f) = 1 := by
      rw [show m'.pages f = m.pages f from entry]
      exact isFree
    exact (alignPages_frame labelled alive ran inside isFree').2

end Free

/-- **The labels stay right and the machine tidy**, and free frames that are no home stay as they are. -/
def KeepsFree (m m' : Machine) : Prop :=
  ∀ live threadNum, Labelled live threadNum m.pageNum m.entry → live m.thread = true → Reserved m →
    (Labelled live threadNum m'.pageNum m'.entry ∧ live m'.thread = true) ∧ SameFree m m'

theorem keepsFree_composes : Composes KeepsFree := by
  refine ⟨fun m live threadNum labelled alive _ => ⟨⟨labelled, alive⟩, SameFree.refl m⟩, ?_⟩
  intro m m' m'' first second live threadNum labelled alive reserved
  obtain ⟨⟨labelled', alive'⟩, same⟩ := first live threadNum labelled alive reserved
  obtain ⟨sound, same'⟩ := second live threadNum labelled' alive' (reserved.of_same same)
  exact ⟨sound, same.trans same'⟩

/-- What changes no entry and no protection. -/
theorem keepsFree_of_eq {m m' : Machine} (entry : m'.entry = m.entry) (thread : m'.thread = m.thread)
    (pageNum : m'.pageNum = m.pageNum) (accessible : m'.accessible = m.accessible) : KeepsFree m m' := by
  intro live threadNum labelled alive _
  refine ⟨⟨?_, thread ▸ alive⟩, sameFree_of_isFree thread pageNum (fun f _ => ?_) fun f _ _ => ?_⟩
  · rw [entry, pageNum]
    exact labelled
  · rw [show m'.pages f = m.pages f from congrFun entry (.frame f)]
  · rw [accessible]

/-- **The parts of a call that make no page.** -/
theorem free_parts : KeptByParts (fun _ => stop) KeepsFree where
  composes := keepsFree_composes
  timer := fun _ _ => keepsFree_of_eq rfl rfl rfl rfl
  frames := fun _ _ => keepsFree_of_eq rfl rfl rfl rfl
  touch := fun k m _ m' ran live threadNum labelled alive reserved => by
    obtain ⟨labelled', thread⟩ := (keeps_touch k m () m' ran).keepsLabels live threadNum labelled alive
    exact ⟨⟨labelled', thread ▸ alive⟩, touch_sameFree labelled alive reserved ran⟩
  alignPages := fun m _ m' ran live threadNum labelled alive reserved => by
    obtain ⟨labelled', thread⟩ := (keeps_alignPages m () m' ran).keepsLabels live threadNum labelled alive
    refine ⟨⟨labelled', thread ▸ alive⟩,
      alignPages_sameFree labelled alive (fun f inside isFree label => ?_) ran⟩
    have below := labelled.below _ alive f (.slot f) (lt_trans inside (by decide)) label
    exact absurd (reserved f inside isFree) (not_le.mpr below)
  newPage := fun _ room => by cases room
  noRoom := fun _ room => by cases room

/-! ### One round -/

section Rounds

variable {live : Nat → Bool} {threadNum : Nat} {m m₁ m₂ : Machine} {index : Nat}

/-- The frame of the new page, where the copy does not fault, is not behind the frame that is taken. -/
theorem Tidy.claimed_le_of_copies (tidy : Tidy m)
    (labelled : Labelled live threadNum m.pageNum m.entry) (alive : live m.thread = true)
    (claimed : Claimed m index) (copies : Copies m index) {i : Nat} (found : freeFrame m = some i) :
    index ≤ i := by
  rcases copies i found with rfl | reachable
  · exact le_refl _
  · obtain ⟨inside, isFree, _⟩ := freeFrame_eq_some found
    exact tidy.claimed_le labelled alive claimed ⟨inside, isFree, reachable⟩

/-- **Room is made in the first free frame**, and the other frames behind it are as they were. -/
theorem makeRoom_elsewhere (labelled : Labelled live threadNum m.pageNum m.entry)
    (alive : live m.thread = true) (claimed : Claimed m index) (copies : Copies m index)
    (room : makeRoom index m = some (true, m₁)) {j : Nat} (other : j ≠ index)
    (untaken : freeFrame m ≠ some j) :
    m₁.pages j = m.pages j ∧ m₁.accessible j = m.accessible j := by
  obtain ⟨moved, m', first, rest⟩ := run_bind room
  obtain ⟨inside, ⟨_, rfl, rfl⟩ | ⟨_, rfl, rfl⟩ | ⟨i, different, found, rfl, s, touched, rfl⟩⟩ :=
    moveToFreeSpace_run first
  · obtain ⟨_, ⟨_, impossible, _⟩ | ⟨d, _, _, rfl⟩⟩ := moveToDiskSpace_run rest
    · cases impossible
    · exact ⟨Function.update_of_ne other _ _, Function.update_of_ne other _ _⟩
  · cases rest
    exact ⟨rfl, rfl⟩
  · cases rest
    have away : j ≠ i := fun same => untaken (same ▸ found)
    have apart := located_doubled labelled alive inside claimed.claimable different
    obtain ⟨_, rfl⟩ | ⟨closed, _⟩ := touchBoth_doubled different apart touched
    · exact ⟨(Function.update_of_ne other _ _).trans (Function.update_of_ne away _ _),
        (Function.update_of_ne away _ _).trans (Function.update_of_ne other _ _)⟩
    · have reachable := (copies i found).resolve_left different
      rw [closed] at reachable
      cases reachable

/-- The frame taken gets the entry of the frame of the new page. -/
theorem makeRoom_taken (labelled : Labelled live threadNum m.pageNum m.entry)
    (alive : live m.thread = true) (claimed : Claimed m index) (copies : Copies m index)
    (room : makeRoom index m = some (true, m₁)) {i : Nat} (other : i ≠ index)
    (taken : freeFrame m = some i) : m₁.pages i = m.pages index := by
  obtain ⟨moved, m', first, rest⟩ := run_bind room
  obtain ⟨inside, ⟨none, _⟩ | ⟨here, _⟩ | ⟨j, different, found, rfl, s, touched, rfl⟩⟩ :=
    moveToFreeSpace_run first
  · rw [none] at taken
    cases taken
  · rw [here] at taken
    cases taken
    exact absurd rfl other
  · cases rest
    rw [found] at taken
    cases taken
    have apart := located_doubled labelled alive inside claimed.claimable different
    obtain ⟨_, rfl⟩ | ⟨closed, _⟩ := touchBoth_doubled different apart touched
    · exact (Function.update_of_ne other _ _).trans (Function.update_self _ _ _)
    · have reachable := (copies i found).resolve_left different
      rw [closed] at reachable
      cases reachable

/-- **A round takes the first free frame**, and leaves the others as they are. -/
theorem newPage_frames (tidy : Tidy m) (labelled : Labelled live threadNum m.pageNum m.entry)
    (alive : live m.thread = true) (claimed : Claimed m index) (copies : Copies m index)
    (room : makeRoom index m = some (true, m₁)) (new : Initialized index m₁ m₂) :
    freeFrames m₂ = (freeFrames m).tail ∧ ∀ f ∈ freeFrames m₂, m₂.accessible f = m.accessible f := by
  obtain ⟨inside, ⟨_, vacated⟩ | ⟨impossible, _⟩⟩ := makeRoom_run labelled alive claimed.claimable room
  swap
  · cases impossible
  have used : getPageIsF (m₂.pages index) = 0 := by
    rw [new.pages, Function.update_self, newEntry_isF]
  have notUsed : ¬ getPageIsF (m₂.pages index) = 1 := by
    rw [used]
    decide
  have le : ∀ {i}, freeFrame m = some i → index ≤ i := fun found =>
    tidy.claimed_le_of_copies labelled alive claimed copies found
  have taken : ∀ j < USER_PAGES,
      getPageIsF (m₂.pages j) = 1 ↔ getPageIsF (m.pages j) = 1 ∧ freeFrame m ≠ some j := by
    intro j below
    by_cases here : j = index
    · subst here
      refine ⟨fun isFree => absurd isFree notUsed, fun ⟨isFree, untaken⟩ => ?_⟩
      cases found : freeFrame m with
      | none => exact absurd isFree (freeFrame_eq_none found below)
      | some i =>
        obtain ⟨_, _, before⟩ := freeFrame_eq_some found
        have notBefore : ¬ j < i := fun earlier => before j earlier isFree
        have same : i = j := Nat.le_antisymm (not_lt.mp notBefore) (le found)
        exact absurd (same ▸ found) untaken
    · rw [(new.elsewhere labelled alive claimed vacated.thread vacated.pageNum here).1]
      by_cases first : freeFrame m = some j
      · rw [makeRoom_taken labelled alive claimed copies room here first]
        obtain ⟨_, _, before⟩ := freeFrame_eq_some first
        refine ⟨fun isFree => absurd isFree (before index ?_), fun both => absurd first both.2⟩
        exact lt_of_le_of_ne (le first) (Ne.symm here)
      · rw [(makeRoom_elsewhere labelled alive claimed copies room here first).1]
        exact ⟨fun isFree => ⟨isFree, first⟩, And.left⟩
  refine ⟨freeFrames_tail_of taken, fun f member => ?_⟩
  obtain ⟨within, isFree⟩ := mem_freeFrames.mp member
  have other : f ≠ index := fun same => notUsed (same ▸ isFree)
  rw [(new.elsewhere labelled alive claimed vacated.thread vacated.pageNum other).2]
  exact (makeRoom_elsewhere labelled alive claimed copies room other ((taken f within).mp isFree).2).2

/-- The copies of a round that does not fault touch accessible frames. -/
theorem roomTouches_open (copies : Copies m index) :
    ∀ touch ∈ roomTouches index m, touch.2 = true := by
  intro touch member
  rcases List.mem_append.mp member with first | second
  · unfold freeSpaceTouches at first
    cases found : freeFrame m with
    | none =>
      rw [found] at first
      cases first
    | some i =>
      rw [found] at first
      by_cases same : i = index
      · simp only [if_pos same] at first
        cases first
      · simp only [if_neg same, touches, List.map_cons, List.map_nil, List.mem_cons,
          List.not_mem_nil, or_false] at first
        rcases first with rfl | rfl
        · exact Function.update_self index true m.accessible
        · show Function.update m.accessible index true i = true
          rw [Function.update_of_ne same]
          exact (copies i found).resolve_left same
  · split at second
    · unfold diskSpaceTouches at second
      split at second
      · cases second
      · simp only [touches, List.map_cons, List.map_nil, List.mem_singleton] at second
        subst second
        exact Function.update_self index true m.accessible
    · cases second

end Rounds

/-! ### The rounds of a call -/

/-- Right labels, a live thread and a tidy machine. -/
structure Orderly (live : Nat → Bool) (threadNum : Nat) (m : Machine) : Prop where
  labelled : Labelled live threadNum m.pageNum m.entry
  running : live m.thread = true
  tidy : Tidy m

section Clear

variable {live : Nat → Bool} {threadNum : Nat} {m m' m₁ m₂ : Machine} {index n : Nat}

theorem KeepsWith.orderly (keeps : KeepsWith Tidy m m') (orderly : Orderly live threadNum m) :
    Orderly live threadNum m' := by
  obtain ⟨⟨labelled, thread⟩, tidy⟩ := keeps live threadNum orderly.labelled orderly.running
  exact ⟨labelled, thread ▸ orderly.running, tidy orderly.tidy⟩

theorem Orderly.newPage (orderly : Orderly live threadNum m) (claimed : Claimed m index)
    (room : makeRoom index m = some (true, m₁)) (new : initializePage index m₁ = some ((), m₂)) :
    Orderly live threadNum m₂ := (tidy_parts.newPage claimed room new).orderly orderly

/-- **A step that makes no page**: the rounds to come are as clear as they were. -/
theorem Orderly.keeps_clear (orderly : Orderly live threadNum m) (clear : CopiesOpen n m)
    (keeps : KeepsFree m m') (tidied : KeepsWith Tidy m m') :
    Orderly live threadNum m' ∧ CopiesOpen n m' := by
  refine ⟨tidied.orderly orderly, ?_⟩
  rcases Nat.eq_zero_or_pos n with rfl | some
  · exact fun j impossible => absurd impossible (Nat.not_lt_zero j)
  · have reserved := clear.reserved some orderly.tidy orderly.labelled orderly.running
    exact clear.of_same (keeps live threadNum orderly.labelled orderly.running reserved).2

/-- **A round leaves the later ones clear.** -/
theorem Orderly.round_clear (orderly : Orderly live threadNum m) (claimed : Claimed m index)
    (copies : Copies m index) (room : makeRoom index m = some (true, m₁))
    (new : initializePage index m₁ = some ((), m₂))
    (later : ∀ j < n, ∀ f ∈ (freeFrames m)[j + 1]?,
      f = m.pageNum m.thread + (j + 1) ∨ m.accessible f = true) : CopiesOpen n m₂ := by
  obtain ⟨inside, ⟨_, vacated⟩ | ⟨impossible, _⟩⟩ :=
    makeRoom_run orderly.labelled orderly.running claimed.claimable room
  swap
  · cases impossible
  have initialized := (initializePage_spec m₁ inside).of_run new
  obtain ⟨frames, accessible⟩ :=
    newPage_frames orderly.tidy orderly.labelled orderly.running claimed copies room initialized
  intro j before f found
  have pages : m₂.pageNum m₂.thread = m.pageNum m.thread + 1 := by
    rw [initialized.pageNum, initialized.thread, vacated.pageNum, vacated.thread, Function.update_self]
  rw [accessible f (List.mem_of_getElem? found), pages]
  rw [frames, List.getElem?_tail] at found
  refine (later j before f found).imp_left fun same => ?_
  omega

/-- **The rounds of `gatherPages`.** -/
theorem gatherMoves_clear (lastBlock : Nat) (orderly : Orderly live threadNum m)
    (clear : CopiesOpen n m) : ∀ move ∈ gatherMoves lastBlock n m,
      ∀ touch ∈ roomTouches move.1 move.2, touch.2 = true := by
  induction n generalizing m with
  | zero => exact fun move member => by cases member
  | succ n ih =>
    intro move member
    rcases List.mem_cons.mp member with rfl | member
    · exact roomTouches_open clear.first
    · obtain ⟨freed, m₁, room, member⟩ := mem_arrive member
      split at member
      · rename_i isFreed
        subst isFreed
        obtain ⟨_, m₂, new, member⟩ := mem_arrive member
        obtain ⟨_, m₃, stored, member⟩ := mem_arrive member
        have orderly₂ := orderly.newPage (Or.inl rfl) room new
        have clear₂ : CopiesOpen n m₂ := orderly.round_clear (Or.inl rfl) clear.first room new
          fun j before => clear (j + 1) (Nat.succ_lt_succ before)
        obtain ⟨orderly₃, clear₃⟩ := orderly₂.keeps_clear clear₂ (free_parts.modify _ _ _ _ _ stored)
          (tidy_parts.modify _ _ _ _ _ stored)
        exact ih orderly₃ clear₃ move member
      · cases member

/-- The pages counted for a growth behind a block with the header `word`. -/
def growthCount (size : Nat) (word : BitVec 32) (m : Machine) : Int :=
  isEnoughPages m (extraBlock word + sizeWithBlock size - getBlockSize word)

/-- **The rounds of a growth**, as many as are counted. -/
theorem growMoves_clear {size prev : Nat} (orderly : Orderly live threadNum m) (clear : CopiesOpen n m)
    (count : ¬ bytesLeft prev < sizeWithBlock size → ∀ word m', paged.load prev m = some (word, m') →
      growthCount size word m' ≤ n) :
    ∀ move ∈ growMoves size prev m, ∀ touch ∈ roomTouches move.1 move.2, touch.2 = true := by
  intro move member
  unfold growMoves at member
  split at member
  · cases member
  · rename_i room
    obtain ⟨word, m₁, loaded, member⟩ := mem_arrive member
    have enough := count room word m₁ loaded
    obtain ⟨orderly₁, clear₁⟩ := orderly.keeps_clear clear (free_parts.load _ _ _ _ loaded)
      (tidy_parts.load _ _ _ _ loaded)
    unfold growthCount at enough
    dsimp only at member
    generalize isEnoughPages m₁ (extraBlock word + sizeWithBlock size - getBlockSize word) = needed
      at enough member
    split at member
    · split at member
      · exact gatherMoves_clear prev orderly₁ (clear₁.mono (by omega)) move member
      · -- a new block on a new page, and the pages behind it
        obtain ⟨k, pages⟩ : ∃ k, needed.toNat = k + 1 := ⟨needed.toNat - 1, by omega⟩
        rw [pages] at member
        replace clear₁ : CopiesOpen (k + 1) m₁ := clear₁.mono (by omega)
        rcases List.mem_cons.mp member with rfl | member
        · exact roomTouches_open clear₁.first
        · obtain ⟨block, m₄, new, member⟩ := mem_arrive member
          rw [newLastBlock, look_run] at new
          obtain ⟨freed, m₂, room, new⟩ := run_bind new
          cases freed with
          | false =>
            cases new
            cases member
          | true =>
            obtain ⟨_, m₃, initialized, new⟩ := run_bind new
            obtain ⟨_, s, fresh, new⟩ := run_bind new
            obtain ⟨_, s', stored, new⟩ := run_bind new
            cases new
            have orderly₃ := orderly₁.newPage (Or.inl rfl) room initialized
            have clear₃ : CopiesOpen k m₃ := orderly₁.round_clear (Or.inl rfl) clear₁.first room
              initialized fun j before => clear₁ (j + 1) (Nat.succ_lt_succ before)
            obtain ⟨orderly₄, clear₄⟩ := orderly₃.keeps_clear clear₃
              (free_parts.freshBlock _ _ _ _ _ fresh) (tidy_parts.freshBlock _ _ _ _ _ fresh)
            obtain ⟨orderly₅, clear₅⟩ := orderly₄.keeps_clear clear₄
              (free_parts.modify _ _ _ _ _ stored) (tidy_parts.modify _ _ _ _ _ stored)
            exact gatherMoves_clear _ orderly₅ clear₅ move member
    · cases member

end Clear

end OS2017.Paging
