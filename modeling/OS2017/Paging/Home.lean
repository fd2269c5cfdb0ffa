/-
**A thread whose pages are at home.**

`AtHome` says that the page `k` of the running thread is in frame `k`, and that no other entry has
the thread's id. An access to one of these pages then moves nothing: a fault opens the frame in place
(`paged_home`). `alignPages` moves nothing either, and a new page leaves the others where they are
(`Room.grows_home`).

`Ample` is a machine with all frames open and all entries free that are not the thread's: there no
call is ended by a fault, and the thread gets the pages it asks for.
-/

import OS2017.Paging.Growth

namespace OS2017.Paging

open OS2017.Bytes OS2017.Heap OS2017.FirstFit

/-- **The pages of the running thread are in their own frames**, and it has no others. -/
structure AtHome (m : Machine) : Prop where
  id : m.thread < 256
  bounded : m.pageNum m.thread ≤ USER_PAGES
  labels : ∀ k < m.pageNum m.thread, Labels (m.pages k) m.thread k
  only : ∀ place : Place, place.Valid → (getPageThID (m.entry place)).toNat = m.thread →
    ∃ k < m.pageNum m.thread, place = .frame k

/-- With well-labelled tables it is enough that each page is in its frame. -/
theorem Labelled.atHome {live : Nat → Bool} {threadNum : Nat} {m : Machine}
    (labelled : Labelled live threadNum m.pageNum m.entry) (running : live m.thread = true)
    (bounded : m.pageNum m.thread ≤ USER_PAGES)
    (labels : ∀ k < m.pageNum m.thread, Labels (m.pages k) m.thread k) : AtHome m := by
  refine ⟨lt_of_lt_of_le (labelled.ids _ running).2 labelled.small, bounded, labels,
    fun place valid mine => ?_⟩
  rcases labelled.flags place valid with used | isFree
  · have label : Labels (m.entry place) m.thread (getPagePgID (m.entry place)).toNat :=
      ⟨used, mine, rfl⟩
    have below := labelled.below _ running _ place valid label
    refine ⟨_, below, ?_⟩
    exact labelled.unique _ running _ place (.frame _) valid (lt_of_lt_of_le below bounded) label
      (labels _ below)
  · exact absurd mine (labelled.stale place valid isFree _ running)

section Access

variable {m m' : Machine}

/-- The tables are the same. -/
structure SameTables (m m' : Machine) : Prop where
  pages : m'.pages = m.pages
  diskPages : m'.diskPages = m.diskPages
  thread : m'.thread = m.thread
  pageNum : m'.pageNum = m.pageNum

theorem SameTables.trans {m'' : Machine} (first : SameTables m m') (second : SameTables m' m'') :
    SameTables m m'' :=
  ⟨second.pages.trans first.pages, second.diskPages.trans first.diskPages,
    second.thread.trans first.thread, second.pageNum.trans first.pageNum⟩

theorem SameTables.entry (same : SameTables m m') : m'.entry = m.entry := by
  funext place
  cases place with
  | frame i => exact congrFun same.pages i
  | slot i => exact congrFun same.diskPages i

theorem SameTables.freeCount (same : SameTables m m') : freeCount m' = freeCount m := by
  rw [freeCount_eq, freeCount_eq, same.entry]

theorem SameTables.pageCount (same : SameTables m m') :
    m'.pageNum m'.thread = m.pageNum m.thread := by
  rw [same.pageNum, same.thread]

theorem AtHome.of_same (home : AtHome m) (same : SameTables m m') : AtHome m' := by
  refine ⟨?_, ?_, ?_, ?_⟩
  · rw [same.thread]
    exact home.id
  · rw [same.thread, same.pageNum]
    exact home.bounded
  · rw [same.thread, same.pageNum, same.pages]
    exact home.labels
  · rw [same.thread, same.pageNum, same.entry]
    exact home.only

/-- A page at home is found there. -/
theorem AtHome.located (home : AtHome m) {k : Nat} (below : k < m.pageNum m.thread) :
    located m k = some (.frame k) := by
  have label := home.labels k below
  have found : frameOf m k = some k := by
    unfold frameOf
    rw [List.find?_range_eq_some]
    refine ⟨decide_eq_true ⟨label.thID, label.pgID⟩,
      List.mem_range.mpr (lt_of_lt_of_le below home.bounded), fun j before => ?_⟩
    rw [Bool.not_eq_true', decide_eq_false_iff_not]
    rintro ⟨thID, pgID⟩
    have valid : (Place.frame j).Valid := lt_of_lt_of_le (before.trans below) home.bounded
    obtain ⟨i, belowI, same⟩ := home.only (.frame j) valid thID
    cases same
    have := (home.labels j belowI).pgID
    omega
  unfold Paging.located
  rw [found]

/-- A page the thread does not have is not found. -/
theorem AtHome.not_located (home : AtHome m) {k : Nat} (beyond : m.pageNum m.thread ≤ k) :
    Paging.located m k = none := by
  cases found : Paging.located m k with
  | none => rfl
  | some place =>
    exfalso
    have valid := located_valid found
    have label : (getPageThID (m.entry place)).toNat = m.thread ∧
        (getPagePgID (m.entry place)).toNat = k := by
      unfold Paging.located at found
      cases frame : frameOf m k with
      | some i =>
        rw [frame] at found
        cases found
        obtain ⟨_, thID, pgID, _⟩ := frameOf_eq_some frame
        exact ⟨thID, pgID⟩
      | none =>
        rw [frame] at found
        obtain ⟨i, slot, rfl⟩ := Option.map_eq_some_iff.mp found
        obtain ⟨_, labels⟩ := slotOf_eq_some slot
        exact ⟨labels.thID, labels.pgID⟩
    obtain ⟨i, below, rfl⟩ := home.only place valid label.1
    have := (home.labels i below).pgID.symm.trans label.2
    omega

/-- **The machine with other open frames and another timer.** -/
def Resting (m s : Machine) : Prop := s = { m with accessible := s.accessible, timer := s.timer }

theorem Resting.trans {m'' : Machine} (first : Resting m m') (second : Resting m' m'') :
    Resting m m'' := by
  unfold Resting at first second ⊢
  rw [second, first]

theorem Resting.tables (resting : Resting m m') : SameTables m m' := by
  rw [resting]
  exact ⟨rfl, rfl, rfl, rfl⟩

theorem Resting.frames (resting : Resting m m') : m'.frames = m.frames := by rw [resting]

/-- **What an access at home changes**: frames of the thread are opened. -/
structure Near (m s : Machine) : Prop where
  resting : Resting m s
  beyond : ∀ i, m.pageNum m.thread ≤ i → s.accessible i = m.accessible i

theorem Near.refl (m : Machine) : Near m m := ⟨rfl, fun _ _ => rfl⟩

theorem Near.trans {m'' : Machine} (first : Near m m') (second : Near m' m'') : Near m m'' := by
  refine ⟨first.resting.trans second.resting, fun i above => ?_⟩
  have tables := first.resting.tables
  have above' : m'.pageNum m'.thread ≤ i := by
    rw [tables.pageCount]
    exact above
  exact (second.beyond i above').trans (first.beyond i above)

/-- **An access at home** moves nothing. -/
theorem AtHome.touch (home : AtHome m) {k : Nat} (below : k < m.pageNum m.thread) :
    Returns (touch k) m fun _ m' => Near m m' := by
  have inside : k < USER_PAGES := lt_of_lt_of_le below home.bounded
  unfold Paging.touch
  rw [if_pos inside]
  refine Returns.look_bind ?_
  cases reachable : m.accessible k with
  | true => exact ⟨(), m, rfl, Near.refl m⟩
  | false =>
    have same : Paging.located { m with timer := ⟨0, m.timer.remaining⟩ } k = some (.frame k) := by
      rw [← home.located below]
      exact located_congr (by rfl) (by rfl) (by rfl) k
    unfold sigHandler pause_timer
    refine Returns.change_bind (Returns.look_bind ?_)
    rw [same]
    dsimp only
    rw [pageSwap, if_pos rfl]
    refine ⟨(), _, rfl, rfl, fun i above => ?_⟩
    exact Function.update_of_ne (by omega) _ _

theorem AtHome.touchBoth (home : AtHome m) {j k : Nat} (first : j < m.pageNum m.thread)
    (second : k < m.pageNum m.thread) : Returns (touchBoth j k) m fun _ m' => Near m m' := by
  have again : ∀ {i s}, i < m.pageNum m.thread → Near m s →
      Returns (Paging.touch i) s fun _ s' => Near m s' := by
    intro i s below near
    have tables := near.resting.tables
    have here : i < s.pageNum s.thread := by
      rw [tables.pageCount]
      exact below
    exact ((home.of_same tables).touch here).mono fun _ _ => near.trans
  unfold Paging.touchBoth
  refine Returns.bind ((home.touch first).mono fun _ s₁ near₁ => ?_)
  refine Returns.bind ((again second near₁).mono fun _ s₂ near₂ => ?_)
  exact again first near₂

/-- **The machine with other bytes, open frames and timer.** -/
def Around (m s : Machine) : Prop :=
  s = { m with frames := s.frames, accessible := s.accessible, timer := s.timer }

theorem Resting.around (resting : Resting m m') : Around m m' := by
  unfold Around
  rw [resting]

theorem Around.trans {m'' : Machine} (first : Around m m') (second : Around m' m'') :
    Around m m'' := by
  unfold Around at first second ⊢
  rw [second, first]

theorem Around.tables (around : Around m m') : SameTables m m' := by
  rw [around]
  exact ⟨rfl, rfl, rfl, rfl⟩

/-- The bytes of the thread are in its frames. -/
theorem AtHome.touch_bytes (home : AtHome m) {a : Nat}
    (within : a + 4 ≤ m.pageNum m.thread * PAGESIZE) :
    Returns (Paging.touchBoth (a / PAGESIZE) ((a + 3) / PAGESIZE)) m fun _ m' => Near m m' := by
  have below : ∀ c, c < m.pageNum m.thread * PAGESIZE → c / PAGESIZE < m.pageNum m.thread :=
    fun c bound => Nat.div_lt_of_lt_mul (by rwa [Nat.mul_comm] at bound)
  exact home.touchBoth (below a (by omega)) (below (a + 3) (by omega))

/-- **The pages at home are plain memory**, on machines that an access or a store of their own leads
from one to the other. -/
theorem paged_near {good : Machine → Prop} {extent : Nat}
    (home : ∀ s, good s → AtHome s ∧ s.pageNum s.thread * PAGESIZE = extent)
    (access : ∀ s s', good s → Near s s' → good s')
    (store : ∀ s frames, good s → good { s with frames := frames }) :
    Backed paged good (·.frames) extent := by
  refine ⟨fun s a holds within => ?_, fun s a w holds within => ?_⟩
  · obtain ⟨atHome, rfl⟩ := home s holds
    refine Returns.bind ((atHome.touch_bytes within).mono fun _ s' near => ?_)
    refine ⟨readWord s'.frames a, s', rfl, ?_, access s s' holds near, near.resting.frames⟩
    rw [near.resting.frames]
  · obtain ⟨atHome, rfl⟩ := home s holds
    refine Returns.bind ((atHome.touch_bytes within).mono fun _ s' near => ?_)
    refine ⟨(), _, rfl, store s' _ (access s s' holds near), ?_⟩
    show writeWord s'.frames a w = _
    rw [near.resting.frames]

/-- **The pages at home are plain memory.** -/
theorem paged_home (home : AtHome m) :
    Backed paged (Around m) (·.frames) (m.pageNum m.thread * PAGESIZE) := by
  refine paged_near (fun s around => ?_) (fun s s' around near => around.trans near.resting.around)
    fun s frames around => around.trans rfl
  have tables := around.tables
  exact ⟨home.of_same tables, by rw [tables.pageCount]⟩

end Access

/-! ### Alignment -/

section Align

variable {m : Machine}

/-- The first loop of `alignPages` opens frames. -/
theorem alignFrames_rests (indices : List Nat) (m : Machine) :
    Returns (alignFrames indices) m fun _ m' => Resting m m' := by
  induction indices generalizing m with
  | nil => exact ⟨(), m, rfl, rfl⟩
  | cons i rest ih =>
    unfold alignFrames
    refine Returns.look_bind (Returns.look_bind ?_)
    split
    · rename_i home
      rw [← home.2, pageSwap, if_pos rfl, mprotect]
      refine Returns.change_bind ((ih _).mono fun _ m' resting => ?_)
      unfold Resting at resting ⊢
      rw [resting]
    · exact ih m

/-- Its second loop finds nothing of a thread at home. -/
theorem AtHome.alignSlots (home : AtHome m) {indices : List Nat}
    (inside : ∀ i ∈ indices, i < DISK_PAGES) : alignSlots indices m = some ((), m) := by
  induction indices with
  | nil => rfl
  | cons i rest ih =>
    rw [Paging.alignSlots, look_run, look_run, if_neg]
    · exact ih fun j member => inside j (List.mem_cons_of_mem _ member)
    · rintro ⟨_, thID, _⟩
      have valid : (Place.slot i).Valid := inside i List.mem_cons_self
      obtain ⟨k, _, impossible⟩ := home.only (.slot i) valid thID
      cases impossible

/-- **`alignPages` at home** moves nothing. -/
theorem AtHome.alignPages (home : AtHome m) :
    Returns alignPages m fun _ m' => Resting m m' := by
  unfold Paging.alignPages
  refine Returns.bind ((alignFrames_rests _ m).mono fun _ m' resting => ?_)
  have slots := (home.of_same resting.tables).alignSlots fun _ => List.mem_range.mp
  exact ⟨(), m', slots, resting⟩

end Align

/-! ### A new page -/

section NewPage

variable {m m₁ m' : Machine}

/-- A free frame is not one of the thread's. -/
theorem AtHome.beyond_of_free (home : AtHome m) {i : Nat} (isFree : getPageIsF (m.pages i) = 1) :
    m.pageNum m.thread ≤ i := by
  by_contra below
  have label := home.labels i (by omega)
  rw [label.used] at isFree
  cases isFree

/-- The entry of the next frame is not the thread's. -/
theorem AtHome.foreign_next (home : AtHome m) {index : Nat} (inside : index < USER_PAGES)
    (next : index = m.pageNum m.thread) : (getPageThID (m.pages index)).toNat ≠ m.thread := by
  intro mine
  have valid : (Place.frame index).Valid := inside
  obtain ⟨k, below, same⟩ := home.only (.frame index) valid mine
  cases same
  omega

/-- The copy of `moveToFreeSpace` fetches no page of a thread at home. -/
theorem AtHome.not_located_doubled (home : AtHome m) {index i : Nat} (inside : index < USER_PAGES)
    (next : index = m.pageNum m.thread) (found : freeFrame m = some i) :
    Paging.located (doubled m index i) i = none := by
  obtain ⟨insideI, isFree, _⟩ := freeFrame_eq_some found
  have beyond := home.beyond_of_free isFree
  have doubledHome : AtHome (doubled m index i) := by
    refine ⟨home.id, home.bounded, fun k below => ?_, fun place valid mine => ?_⟩
    · have away : k ≠ i := by
        have owned : k < m.pageNum m.thread := below
        omega
      show Labels (Function.update m.pages i (m.pages index) k) m.thread k
      rw [Function.update_of_ne away]
      exact home.labels k below
    · cases place with
      | slot j => exact home.only (.slot j) valid mine
      | frame j =>
        have label : (getPageThID (Function.update m.pages i (m.pages index) j)).toNat = m.thread :=
          mine
        by_cases same : j = i
        · rw [same, Function.update_self] at label
          exact absurd label (home.foreign_next inside next)
        · rw [Function.update_of_ne same] at label
          exact home.only (.frame j) valid label
  exact doubledHome.not_located beyond

/-- **`makeRoom` for the next page** of a thread at home: room, or no free entry. -/
theorem AtHome.makeRoom (home : AtHome m) {index : Nat} {freed : Bool}
    (next : index = m.pageNum m.thread) (ran : makeRoom index m = some (freed, m')) :
    index < USER_PAGES ∧ ((freed = true ∧ ∃ q, Room index q m m') ∨
      (freed = false ∧ freeCount m = 0 ∧ Resting m m')) := by
  have inside : index < USER_PAGES := by
    obtain ⟨_, _, first, _⟩ := run_bind ran
    exact (moveToFreeSpace_run first).1
  refine ⟨inside, ?_⟩
  cases freed with
  | true =>
    exact Or.inl ⟨rfl, (makeRoom_of_missing (fun i => home.not_located_doubled inside next) ran).2⟩
  | false =>
    refine Or.inr ⟨rfl, ?_⟩
    obtain ⟨_, m₁, first, rest⟩ := run_bind ran
    obtain ⟨_, ⟨none, rfl, rfl⟩ | ⟨_, rfl, rfl⟩ | ⟨_, _, _, rfl, _⟩⟩ := moveToFreeSpace_run first
    · obtain ⟨_, ⟨slots, _, rfl⟩ | ⟨_, _, impossible, _⟩⟩ := moveToDiskSpace_run rest
      · exact ⟨freeCount_eq_zero none slots, rfl⟩
      · cases impossible
    · cases rest
    · cases rest

/-- **The thread has a page more, at home.** -/
structure GrownHome (m m' : Machine) : Prop where
  home : AtHome m'
  thread : m'.thread = m.thread
  pageNum : m'.pageNum = Function.update m.pageNum m.thread (m.pageNum m.thread + 1)
  frames : ∀ a < m.pageNum m.thread * PAGESIZE, m'.frames a = m.frames a
  freeCount : freeCount m' + 1 = freeCount m
  /-- the first page starts as an empty heap -/
  first : m.pageNum m.thread = 0 →
    Header (readWord m'.frames 0) ⟨PAGESIZE - BLOCK_SIZE, true⟩ false

theorem GrownHome.pageCount (grown : GrownHome m m') :
    m'.pageNum m'.thread = m.pageNum m.thread + 1 := by
  rw [grown.pageNum, grown.thread, Function.update_self]

/-- **Room, and the new page in it.** -/
theorem Room.grows_home {index : Nat} {q : Place} (room : Room index q m m₁) (home : AtHome m)
    (inside : index < USER_PAGES) (next : index = m.pageNum m.thread)
    (new : Initialized index m₁ m') : GrownHome m m' := by
  subst next
  have fits : m.pageNum m.thread < 65536 := lt_of_le_of_lt home.bounded (by decide)
  have thread : m'.thread = m.thread := new.thread.trans room.thread
  have pageNum : m'.pageNum = Function.update m.pageNum m.thread (m.pageNum m.thread + 1) := by
    rw [new.pageNum, room.thread, room.pageNum]
  have pages : m'.pageNum m'.thread = m.pageNum m.thread + 1 := by
    rw [pageNum, thread, Function.update_self]
  have entry := room.new_entry new
  have label : Labels (newEntry (m₁.pages (m.pageNum m.thread)) m.thread (m.pageNum m.thread)) m.thread
      (m.pageNum m.thread) := newEntry_labels _ home.id fits
  -- the exchange leaves the frames of the thread alone
  have fixed : ∀ {k}, k < m.pageNum m.thread →
      Equiv.swap (.frame (m.pageNum m.thread)) q (.frame k) = .frame k := by
    intro k below
    refine Equiv.swap_apply_of_ne_of_ne (by simp; omega) ?_
    rintro rfl
    have isFree := room.isFree
    have used := (home.labels k below).used
    rw [show m.entry (.frame k) = m.pages k from rfl, used] at isFree
    cases isFree
  refine ⟨⟨?_, ?_, fun k below => ?_, fun place valid mine => ?_⟩, thread, pageNum,
    fun a owned => ?_, room.new_freeCount new inside, fun zero => ?_⟩
  · rw [thread]
    exact home.id
  · rw [pages]
    omega
  · rw [pages] at below
    show Labels (m'.entry (.frame k)) m'.thread k
    rw [entry, thread]
    by_cases last : k = m.pageNum m.thread
    · rw [last, Function.update_self]
      exact label
    · rw [Function.update_of_ne (by simp [last]), Function.comp_apply, fixed (by omega)]
      exact home.labels k (by omega)
  · rw [pages]
    rw [entry, thread] at mine
    by_cases here : place = .frame (m.pageNum m.thread)
    · exact ⟨_, Nat.lt_succ_self _, here⟩
    · rw [Function.update_of_ne here, Function.comp_apply] at mine
      have insideFrame : (Place.frame (m.pageNum m.thread)).Valid := inside
      have valid' := (swap_valid insideFrame room.valid place).mpr valid
      obtain ⟨k, below, same⟩ := home.only _ valid' mine
      refine ⟨k, by omega, ?_⟩
      rw [Equiv.swap_apply_eq_iff, fixed below] at same
      exact same
  · have split : a = a / PAGESIZE * PAGESIZE + a % PAGESIZE := (Nat.div_add_mod' a PAGESIZE).symm
    have below : a / PAGESIZE < m.pageNum m.thread :=
      Nat.div_lt_of_lt_mul (by rwa [Nat.mul_comm] at owned)
    have away : Place.frame (a / PAGESIZE) ≠ .frame (m.pageNum m.thread) := by
      simp only [ne_eq, Place.frame.injEq]
      omega
    have same := room.new_content new home.id fits rfl _ away (a % PAGESIZE)
      (Nat.mod_lt a (by decide))
    rw [fixed below] at same
    rw [split]
    exact same
  · have first : getPagePgID (newEntry (m₁.pages (m.pageNum m.thread)) m₁.thread (m₁.pageNum m₁.thread)) = 0 := by
      rw [room.thread, room.pageNum]
      exact BitVec.eq_of_toNat_eq (label.pgID.trans zero)
    rcases new.heap with ⟨notFirst, _⟩ | ⟨_, _, w, frames, header⟩
    · exact absurd first notFirst
    · rw [frames, readWord_writeWord]
      exact header

end NewPage

/-! ### Machines with room -/

/-- **All frames are open, and every entry that is not the thread's is free.** -/
structure Ample (m : Machine) : Prop where
  home : AtHome m
  opened : ∀ i, m.accessible i = true
  frames : ∀ i, m.pageNum m.thread ≤ i → i < USER_PAGES → getPageIsF (m.pages i) = 1
  slots : ∀ i < DISK_PAGES, getPageIsF (m.diskPages i) = 1

section Ample

variable {m m' : Machine}

/-- Other bytes and another timer make no difference. -/
theorem Ample.of_same (ample : Ample m) (same : SameTables m m')
    (opened : m'.accessible = m.accessible) : Ample m' := by
  refine ⟨ample.home.of_same same, ?_, ?_, ?_⟩
  · rw [opened]
    exact ample.opened
  · rw [same.pageNum, same.thread, same.pages]
    exact ample.frames
  · rw [same.diskPages]
    exact ample.slots

/-- An access returns. -/
theorem Ample.backed (ample : Ample m) :
    Backed paged (SameBut m) (·.frames) (USER_PAGES * PAGESIZE) :=
  paged_open m _ (le_refl _) fun k _ => ample.opened k

theorem SameBut.tables (same : SameBut m m') : SameTables m m' := by
  rw [same]
  exact ⟨rfl, rfl, rfl, rfl⟩

theorem Ample.of_sameBut (ample : Ample m) (same : SameBut m m') : Ample m' :=
  ample.of_same same.tables (by rw [same])

/-- **`alignPages` finds all as it should be.** -/
theorem Ample.alignPages (ample : Ample m) : alignPages m = some ((), m) := by
  have frames : ∀ indices, alignFrames indices m = some ((), m) := by
    intro indices
    induction indices with
    | nil => rfl
    | cons i rest ih =>
      rw [alignFrames, look_run, look_run]
      split
      · rename_i home
        have stays : Function.update m.accessible i true = m.accessible :=
          Function.update_eq_self_iff.mpr (ample.opened i).symm
        rw [← home.2, pageSwap, if_pos rfl, mprotect]
        show alignFrames rest { m with accessible := Function.update m.accessible i true } = _
        rw [stays]
        exact ih
      · exact ih
  unfold Paging.alignPages
  rw [then_run (frames _)]
  exact ample.home.alignSlots fun _ => List.mem_range.mp

/-- The first free frame is the thread's next one. -/
theorem Ample.freeFrame (ample : Ample m) (inside : m.pageNum m.thread < USER_PAGES) :
    freeFrame m = some (m.pageNum m.thread) := by
  unfold Paging.freeFrame
  rw [List.find?_range_eq_some]
  refine ⟨decide_eq_true (ample.frames _ (le_refl _) inside), List.mem_range.mpr inside,
    fun j before => ?_⟩
  rw [Bool.not_eq_true', decide_eq_false_iff_not, (ample.home.labels j before).used]
  decide

/-- **There is room for the next page.** -/
theorem Ample.makeRoom (ample : Ample m) (inside : m.pageNum m.thread < USER_PAGES) :
    makeRoom (m.pageNum m.thread) m = some (true, m) := by
  have moved : moveToFreeSpace (m.pageNum m.thread) m = some (true, m) := by
    rw [moveToFreeSpace, if_pos inside, look_run, ample.freeFrame inside]
    simp only [if_pos]
    rfl
  rw [Paging.makeRoom, then_run moved]
  rfl

/-- **The next page.** -/
theorem Ample.initializePage (ample : Ample m) (inside : m.pageNum m.thread < USER_PAGES) :
    Returns (initializePage (m.pageNum m.thread)) m fun _ m' => Ample m' ∧ GrownHome m m' := by
  refine (initializePage_spec m inside).mono fun _ m' new => ?_
  obtain ⟨_, ⟨_, q, room⟩ | ⟨impossible, _⟩⟩ := ample.home.makeRoom rfl (ample.makeRoom inside)
  · have grown := room.grows_home ample.home inside rfl new
    refine ⟨⟨grown.home, ?_, ?_, ?_⟩, grown⟩
    · intro i
      rcases new.heap with ⟨_, _, same⟩ | ⟨_, same, _⟩
      · rw [same]
        exact ample.opened i
      · rw [same]
        by_cases zero : i = 0
        · rw [zero, Function.update_self]
        · rw [Function.update_of_ne zero]
          exact ample.opened i
    · intro i beyond within
      rw [grown.pageCount] at beyond
      rw [new.pages, Function.update_of_ne (by omega)]
      exact ample.frames i (by omega) within
    · rw [new.diskPages]
      exact ample.slots
  · cases impossible

/-- A word is replaced. -/
theorem Ample.modify (ample : Ample m) {a : Nat} (inside : a + 4 ≤ USER_PAGES * PAGESIZE)
    (f : BitVec 32 → BitVec 32) : Returns (paged.modify a f) m fun _ m' =>
      SameBut m m' ∧ m'.frames = writeWord m.frames a (f (readWord m.frames a)) :=
  ample.backed.modify ⟨rfl, rfl⟩ inside

/-- **An ample machine some pages later.** -/
structure Gathered (pages : Nat) (m m' : Machine) : Prop where
  ample : Ample m'
  thread : m'.thread = m.thread
  pageNum : m'.pageNum m'.thread = m.pageNum m.thread + pages

/-- **The pages a block asks for.** -/
theorem Ample.gatherPages (ample : Ample m) {last n : Nat}
    (inside : last + 4 ≤ USER_PAGES * PAGESIZE) (fits : m.pageNum m.thread + n ≤ USER_PAGES) :
    Returns (gatherPages swapping last n) m fun _ m' => Gathered n m m' := by
  induction n generalizing m with
  | zero => exact ⟨(), m, rfl, ample, rfl, rfl⟩
  | succ n ih =>
    have room : m.pageNum m.thread < USER_PAGES := by omega
    unfold Paging.gatherPages
    refine Returns.look_bind (Returns.bind ⟨true, m, ample.makeRoom room, ?_⟩)
    refine Returns.bind ((ample.initializePage room).mono ?_)
    rintro _ m₁ ⟨ample₁, grown⟩
    refine Returns.bind ((ample₁.modify inside _).mono ?_)
    rintro _ m₂ ⟨same, _⟩
    have count : m₂.pageNum m₂.thread = m.pageNum m.thread + 1 := by
      rw [same.tables.pageCount, grown.pageCount]
    refine (ih (ample₁.of_sameBut same) (by omega)).mono fun _ m' gathered => ?_
    refine ⟨gathered.ample, ?_, ?_⟩
    · exact gathered.thread.trans (same.tables.thread.trans grown.thread)
    · rw [gathered.pageNum, count]
      omega

/-- A block is cut in two. -/
theorem Ample.splitBlock (ample : Ample m) {current size : Nat} {sizeWithBlock : BitVec 32}
    (inside : current + 4 ≤ USER_PAGES * PAGESIZE)
    (insideNew : current + sizeWithBlock.toNat + 4 ≤ USER_PAGES * PAGESIZE) :
    Returns (splitBlock paged current size sizeWithBlock) m fun _ m' => SameBut m m' := by
  have backed := ample.backed
  have step : ∀ {a : Nat} {f : BitVec 32 → BitVec 32} {s : Machine} {α : Type}
      {rest : Unit → StateT Machine Option α} {post : α → Machine → Prop}, SameBut m s →
      a + 4 ≤ USER_PAGES * PAGESIZE → (∀ s', SameBut m s' → Returns (rest ()) s' post) →
      Returns (paged.modify a f >>= rest) s post := fun same within next =>
    backed.modify_bind ⟨same, rfl⟩ within fun s' shows => next s' shows.1
  have look : ∀ {a : Nat} {s : Machine} {α : Type} {rest : BitVec 32 → StateT Machine Option α}
      {post : α → Machine → Prop}, SameBut m s → a + 4 ≤ USER_PAGES * PAGESIZE →
      (∀ w s', SameBut m s' → Returns (rest w) s' post) →
      Returns (paged.load a >>= rest) s post := fun same within next =>
    backed.load_bind ⟨same, rfl⟩ within fun s' shows => next _ s' shows.1
  unfold Heap.splitBlock
  refine step rfl insideNew fun _ same => look same inside fun _ _ same => ?_
  refine step same insideNew fun _ same => look same inside fun _ _ same => ?_
  refine step same insideNew fun _ same => step same inside fun _ same => ?_
  refine step same inside fun s same => ?_
  exact (backed.modify ⟨same, rfl⟩ inside).mono fun _ _ shows => shows.1

/-- All slots are free. -/
theorem slots_le_freeCount (slots : ∀ i < DISK_PAGES, getPageIsF (m.diskPages i) = 1) :
    DISK_PAGES ≤ freeCount m := by
  have all : (List.range DISK_PAGES).countP (fun i => getPageIsF (m.diskPages i) = 1)
      = DISK_PAGES := by
    rw [List.countP_eq_length.mpr, List.length_range]
    exact fun i member => decide_eq_true (slots i (List.mem_range.mp member))
  unfold Paging.freeCount
  rw [all]
  exact Nat.le_add_left _ _

theorem Ample.freeCount (ample : Ample m) : DISK_PAGES ≤ freeCount m :=
  slots_le_freeCount ample.slots

/-- A thread with `n` pages that hold `frames`, alone on the machine. -/
def alone (n : Nat) (frames : Memory) : Machine where
  frames := frames
  swpFile := fun _ => 0
  pages i := if i < n then newEntry 0 1 i else 1
  diskPages _ := 1
  accessible _ := true
  thread := 1
  pageNum t := if t = 1 then n else 0
  timer := ⟨QUANTUM, 0⟩

theorem alone_ample {n : Nat} (fits : n ≤ USER_PAGES) (frames : Memory) : Ample (alone n frames) := by
  have pages : ∀ {i}, i < n → (alone n frames).pages i = newEntry 0 1 i := fun below => if_pos below
  have others : ∀ {i}, ¬ i < n → (alone n frames).pages i = 1 := fun beyond => if_neg beyond
  have slots : ∀ i, getPageIsF ((alone n frames).diskPages i) = 1 := fun i => by
    show getPageIsF 1 = 1
    decide
  have one : (alone n frames).thread < 256 := by
    show 1 < 256
    decide
  refine ⟨⟨one, fits, fun k below => ?_, fun place valid mine => ?_⟩, fun _ => rfl,
    fun i beyond _ => ?_, fun i _ => slots i⟩
  · have owned : k < n := below
    have total : USER_PAGES = 1848 := by decide
    rw [pages owned]
    exact newEntry_labels 0 (by decide) (by omega)
  · cases place with
    | slot i =>
      have zero : (getPageThID 1).toNat = 1 := mine
      exact absurd zero (by decide)
    | frame i =>
      by_cases owned : i < n
      · exact ⟨i, owned, rfl⟩
      · rw [show (alone n frames).entry (.frame i) = 1 from others owned] at mine
        have zero : (getPageThID 1).toNat = 1 := mine
        exact absurd zero (by decide)
  · have notOwned : ¬ i < n := Nat.not_lt.mpr beyond
    rw [others notOwned]
    decide

end Ample

/-! ### A memory with given blocks -/

/-- The headers of the blocks from `a` on, and zeros. -/
def layout : Nat → List Block → Memory
  | _, [] => fun _ => 0
  | a, b :: rest => writeWord (layout (a + BLOCK_SIZE + b.size) rest) a
      (setBlockIsNext (setBlockSize (setBlockIsF 0 (flag b.free)) (BitVec.ofNat 32 b.size))
        (flag !rest.isEmpty))

theorem chain_layout {a : Nat} {blocks : List Block} (small : ∀ b ∈ blocks, b.size < 2 ^ 24) :
    Chain (layout a blocks) false a blocks := by
  induction blocks generalizing a with
  | nil => trivial
  | cons b rest ih =>
    have fits := small b List.mem_cons_self
    have four : BLOCK_SIZE = 4 := rfl
    refine ⟨?_, ?_⟩
    · rw [layout, readWord_writeWord, Bool.false_or]
      refine header_of_set _ _ ?_ fits _ _
      rw [BitVec.toNat_ofNat]
      exact Nat.mod_eq_of_lt (by omega)
    · have later := ih (a := a + BLOCK_SIZE + b.size) fun c member =>
        small c (List.mem_cons_of_mem b member)
      exact later.congr fun c above _ => writeWord_of_outside (by omega)

end OS2017.Paging
