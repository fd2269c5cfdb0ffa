/-
**When a call pauses the timer only once.**

`Call.PausesOnce` is read off a guarded run of the call. For a thread whose pages are in their own frames
and open (`Resident`), with blocks that tile them, it is a count: no access faults and no page is fetched,
so the only step left that pauses the timer again is a page that goes to the swap file. There is none
exactly if an allocation adds no more pages than there are free frames (`pausesOnce_iff`).
-/

import OS2017.Paging.Targets
import OS2017.Paging.Timer

namespace OS2017.Paging

open OS2017.Bytes OS2017.Heap OS2017.Guarded OS2017.FirstFit

/-- **The pages of the running thread are in their own frames, and open.** -/
structure Resident (m : Machine) : Prop where
  home : AtHome m
  opened : ∀ k < m.pageNum m.thread, m.accessible k = true

/-- **A resident thread with `n` free frames**, none of them protected. -/
structure Spacious (n : Nat) (m : Machine) : Prop extends Resident m where
  free : AllOpen m
  count : (freeFrames m).length = n

/-- Nothing goes wrong. -/
def Never (_ : Machine) : Prop := False

section States

variable {m m' : Machine} {n : Nat}

theorem SameTables.freeFrames (same : SameTables m m') : freeFrames m' = freeFrames m := by
  unfold Paging.freeFrames
  rw [same.pages]

theorem Resident.of_same (resident : Resident m) (same : SameTables m m')
    (accessible : m'.accessible = m.accessible) : Resident m' := by
  refine ⟨resident.home.of_same same, fun k below => ?_⟩
  rw [same.pageCount] at below
  rw [accessible]
  exact resident.opened k below

theorem Spacious.of_same (spacious : Spacious n m) (same : SameTables m m')
    (accessible : m'.accessible = m.accessible) : Spacious n m' := by
  refine ⟨spacious.toResident.of_same same accessible, fun f member => ?_, ?_⟩
  · rw [same.freeFrames] at member
    rw [accessible]
    exact spacious.free f member
  · rw [same.freeFrames]
    exact spacious.count

/-- Where there are free frames, room is made without the swap file. -/
theorem Spacious.freeFrame_open (spacious : Spacious (n + 1) m) :
    ∃ f, freeFrame m = some f ∧ m.accessible f = true := by
  have count := spacious.count
  have head := freeFrame_eq_head m
  cases frames : freeFrames m with
  | nil =>
    rw [frames] at count
    cases count
  | cons f rest =>
    rw [frames] at head
    exact ⟨f, head, spacious.free f (by rw [frames]; exact List.mem_cons_self)⟩

/-- Room without the swap file takes a free frame. -/
theorem Spacious.pos_of_roomy (spacious : Spacious n m) {index : Nat} (room : roomy index m = true) :
    0 < n := by
  rw [← spacious.count, List.length_pos_iff]
  intro none
  have head := freeFrame_eq_head m
  rw [none] at head
  unfold roomy at room
  rw [head] at room
  cases room

/-! ### Accesses -/

/-- **An access of a resident thread does not fault**, if it returns. -/
theorem Resident.touch (resident : Resident m) {k : Nat} (ran : touch k m = some ((), m')) :
    m.accessible k = true ∧ m' = m := by
  obtain ⟨_, opened | ⟨closed, place, there, _⟩⟩ := touch_run ran
  · exact opened
  · exfalso
    by_cases below : k < m.pageNum m.thread
    · rw [resident.opened k below] at closed
      cases closed
    · rw [resident.home.not_located (Nat.not_lt.mp below)] at there
      cases there

theorem Resident.touchBoth (resident : Resident m) {j k : Nat}
    (ran : touchBoth j k m = some ((), m')) : openFrames j k m = true ∧ m' = m := by
  obtain ⟨_, m₁, first, rest⟩ := run_bind ran
  obtain ⟨isOpen, rfl⟩ := resident.touch first
  obtain ⟨_, m₂, second, third⟩ := run_bind rest
  obtain ⟨isOpen', rfl⟩ := resident.touch second
  obtain ⟨_, rfl⟩ := resident.touch third
  refine ⟨?_, rfl⟩
  unfold openFrames
  rw [isOpen, isOpen']
  rfl

end States

section Accesses

variable {good : Machine → Prop}

theorem touchBoth_resident (resident : ∀ {m}, good m → Resident m) (j k : Nat) :
    UntilBad Never good (fun _ => good) (touchBoth j k) (watchedTouch j k) := by
  refine UntilBad.guard ?_ ?_ fun impossible _ => impossible.elim
  · intro m _ m' holds _ ran
    rw [((resident holds).touchBoth ran).2]
    exact holds
  · intro m _ m' holds failed ran
    rw [((resident holds).touchBoth ran).1] at failed
    cases failed

/-- **The accesses of a resident thread to its pages.** -/
theorem watchedPages_resident (resident : ∀ {m}, good m → Resident m)
    (keeps : ∀ {m} bytes, good m → good { m with frames := bytes }) :
    UntilBadStore Never good paged watchedPages where
  load _ := (touchBoth_resident resident _ _).bind fun _ => UntilBad.look
  store _ _ := (touchBoth_resident resident _ _).bind fun _ => by
    refine UntilBad.same ?_ fun impossible _ => impossible.elim
    rintro m _ _ holds ⟨⟩
    exact keeps _ holds

/-- Another timer makes no difference. -/
theorem timer_resident (timer : Machine → Timer) :
    UntilBad Never Resident (fun _ => Resident) (change fun m => { m with timer := timer m })
      (change fun m => { m with timer := timer m }) := by
  refine UntilBad.same ?_ fun impossible _ => impossible.elim
  rintro m _ _ resident ⟨⟩
  exact resident.of_same ⟨rfl, rfl, rfl, rfl⟩ rfl

/-- **The accesses and the stops of the timer, for a resident thread.** -/
theorem residentStops :
    UntilBadStops (Running Never) (Running Resident) (Running Resident) where
  mem := watchedSpace_watch (touchBoth_resident id)
    (fun _ resident => resident.of_same ⟨rfl, rfl, rfl, rfl⟩ rfl) fun _ impossible => impossible
  pause := timerCall_watched (timer_resident fun m => ⟨0, m.timer.remaining⟩)
  unpause := timerCall_watched (timer_resident fun m => ⟨m.timer.saved, m.timer.saved⟩)

theorem spaciousPages (n : Nat) : UntilBadStore Never (Spacious n) paged watchedPages :=
  watchedPages_resident (fun spacious => spacious.toResident)
    fun _ spacious => spacious.of_same ⟨rfl, rfl, rfl, rfl⟩ rfl

end Accesses

/-! ### New pages -/

section NewPage

variable {m m₁ m' : Machine} {index n : Nat} {freed : Bool}

/-- The frame of the new page is open. -/
theorem AtHome.makeRoom_opens (home : AtHome m) (next : index = m.pageNum m.thread) {f : Nat}
    (found : freeFrame m = some f) (isOpen : m.accessible f = true)
    (ran : Paging.makeRoom index m = some (freed, m₁)) :
    freed = true ∧ m₁.accessible index = true := by
  obtain ⟨moved, m₂, first, rest⟩ := run_bind ran
  obtain ⟨inside, ⟨none, _⟩ | ⟨here, rfl, rfl⟩ | ⟨i, different, found', rfl, m₃, touched, rfl⟩⟩ :=
    moveToFreeSpace_run first
  · rw [none] at found
    cases found
  · cases rest
    rw [found] at here
    cases here
    exact ⟨rfl, isOpen⟩
  · cases rest
    refine ⟨rfl, ?_⟩
    have missing := home.not_located_doubled inside next found'
    obtain ⟨_, rfl⟩ | ⟨_, place, _, there, _⟩ :=
      touchBoth_doubled different (by rw [missing]; simp) touched
    · exact (Function.update_of_ne (Ne.symm different) _ _).trans (Function.update_self _ _ _)
    · rw [missing] at there
      cases there

/-- What is open stays open with a new page. -/
theorem Initialized.stays_open (new : Initialized index m m') {i : Nat}
    (isOpen : m.accessible i = true) : m'.accessible i = true := by
  rcases new.heap with ⟨_, _, same⟩ | ⟨_, same, _⟩
  · rw [same, isOpen]
  · rw [same]
    by_cases zero : i = 0
    · rw [zero, Function.update_self]
    · rw [Function.update_of_ne zero, isOpen]

/-- **A new page takes the first free frame**, and the thread stays resident. -/
theorem Spacious.newPage (spacious : Spacious (n + 1) m) (next : index = m.pageNum m.thread)
    (ran : makeRoom index m = some (freed, m₁)) : roomy index m = true ∧ freed = true ∧
      ∀ m', initializePage index m₁ = some ((), m') → Spacious n m' := by
  have home := spacious.home
  obtain ⟨f, found, isOpen⟩ := spacious.freeFrame_open
  obtain ⟨rfl, opens⟩ := home.makeRoom_opens next found isOpen ran
  have room : roomy index m = true := by
    unfold roomy
    rw [found]
    simp only [isOpen, Bool.or_true]
  obtain ⟨inside, ⟨_, q, taken⟩ | ⟨impossible, _⟩⟩ := home.makeRoom next ran
  · refine ⟨room, rfl, fun m' ran' => ?_⟩
    have new := (initializePage_spec m₁ inside).of_run ran'
    have grown := taken.grows_home home inside next new
    have tail := taken.freeFrames_tail home inside next new
    -- the frames that were open stay open, but for the one that is taken
    have kept : ∀ i, i ≠ index → freeFrame m ≠ some i → m.accessible i = true →
        m'.accessible i = true := fun i other untaken opened =>
      new.stays_open ((home.makeRoom_accessible next ran other untaken).trans opened)
    refine ⟨⟨grown.home, fun k below => ?_⟩, fun i member => ?_, ?_⟩
    · rw [grown.pageCount] at below
      by_cases last : k = index
      · rw [last]
        exact new.stays_open opens
      · have owned : k < m.pageNum m.thread := by omega
        refine kept k last (fun first => ?_) (spacious.opened k owned)
        obtain ⟨_, isFree, _⟩ := freeFrame_eq_some first
        have beyond := home.beyond_of_free isFree
        omega
    · obtain ⟨_, isFree⟩ := mem_freeFrames.mp member
      obtain ⟨_, untaken⟩ := (taken.isFree_iff home inside next new).mp isFree
      have beyond := grown.home.beyond_of_free isFree
      rw [grown.pageCount] at beyond
      rw [tail] at member
      exact kept i (by omega) untaken (spacious.free i (List.mem_of_mem_tail member))
    · rw [tail, List.length_tail, spacious.count, Nat.add_sub_cancel]
  · cases impossible

/-- **A page that room is made for**, then the rest. -/
theorem newPage_spacious {α : Type} {post : α → Machine → Prop}
    {rest watchedRest other : StateT Machine Option α}
    (next : UntilBad Never (Spacious n) post rest watchedRest) :
    UntilBad Never (fun m => Spacious (n + 1) m ∧ index = m.pageNum m.thread) post
      (makeRoom index >>= fun freed =>
        if freed then initializePage index >>= fun _ => rest else other)
      (watching.makeRoom index >>= fun freed =>
        if freed then initializePage index >>= fun _ => watchedRest else other) := by
  have room : UntilBad Never (fun m => Spacious (n + 1) m ∧ index = m.pageNum m.thread)
      (fun freed m => freed = true ∧ ∀ m', initializePage index m = some ((), m') → Spacious n m')
      (makeRoom index) (watching.makeRoom index) := by
    refine UntilBad.guard ?_ ?_ fun impossible _ => impossible.elim
    · rintro m freed m₁ ⟨spacious, equal⟩ _ ran
      exact (spacious.newPage equal ran).2
    · rintro m freed m₁ ⟨spacious, equal⟩ failed ran
      rw [(spacious.newPage equal ran).1] at failed
      cases failed
  refine room.bind fun freed => .ite (fun _ => ?_) fun refused => ?_
  · refine UntilBad.bind (UntilBad.same (fun ready ran => ?_) fun impossible _ => impossible.elim)
      fun _ => next
    exact ready.2 _ ran
  · exact UntilBad.same (fun ready _ => absurd ready.1 refused) fun impossible _ => impossible.elim

/-- **As many rounds as there are free frames** need no swap file. -/
theorem gatherPages_spacious (last k : Nat) : ∀ n,
    UntilBad Never (Spacious (k + n)) (fun _ => Spacious k) (gatherPages swapping last n)
      (gatherPages watching last n) := by
  intro n
  induction n with
  | zero => exact .pure fun _ spacious => spacious
  | succ n ih =>
    refine UntilBad.look_eq.bind fun nextPage => newPage_spacious ?_
    exact ((spaciousPages (k + n)).modify last extend).bind fun _ => ih

/-- **A page without the swap file** takes a free frame. -/
theorem Spacious.newPage_watched {k : Nat} (spacious : Spacious k m) (next : index = m.pageNum m.thread)
    (ran : watching.makeRoom index m = some (freed, m₁)) : 0 < k ∧ freed = true ∧
      ∀ m', initializePage index m₁ = some ((), m') → Spacious (k - 1) m' := by
  obtain ⟨room, ran⟩ := guarded_run ran
  obtain ⟨k, rfl⟩ : ∃ less, k = less + 1 := ⟨k - 1, by have := spacious.pos_of_roomy room; omega⟩
  obtain ⟨_, isFreed, new⟩ := spacious.newPage next ran
  exact ⟨Nat.succ_pos k, isFreed, new⟩

/-- **More rounds** do. -/
theorem gatherPages_suffice {last : Nat} : ∀ {n k : Nat} {m m' : Machine}, Spacious k m →
    gatherPages watching last n m = some ((), m') → n ≤ k := by
  intro n
  induction n with
  | zero => exact fun _ _ => Nat.zero_le _
  | succ n ih =>
    intro k m m' spacious ran
    rw [gatherPages, look_run] at ran
    obtain ⟨freed, m₁, room, ran⟩ := run_bind ran
    obtain ⟨some, rfl, new⟩ := spacious.newPage_watched rfl room
    rw [if_pos rfl] at ran
    obtain ⟨_, m₂, ran₂, ran⟩ := run_bind ran
    obtain ⟨_, m₃, modified, ran⟩ := run_bind ran
    have spacious₃ := (((spaciousPages (k - 1)).modify _ _).agrees (new m₂ ran₂) modified).2
    have le := ih spacious₃ ran
    omega

end NewPage

/-! ### The growth of a heap -/

section Growth

variable {m m' : Machine} {front : List Block} {last : Block} {size k prev : Nat} {result : Option Nat}

/-- The pages counted for a growth, with `free` entries free. -/
def countedPages (front : List Block) (last : Block) (size free : Nat) : Nat :=
  if ¬ bytesLeft (extentOf front) < sizeWithBlock size ∧ pagesNeeded last size ≤ free then
    (pagesNeeded last size).toNat
  else 0

/-- The pages for a block, the cut, and its first part handed out. -/
def growBy (pager : Pager) (block n size : Nat) : StateT Machine Option (Option Nat) := do
  gatherPages pager block n
  splitBlock pager.mem block size (sizeWithBlock size)
  unpause_timer
  return some (block + BLOCK_SIZE)

theorem growBy_spacious (block n size k : Nat) :
    UntilBad Never (Spacious (k + n)) (fun _ _ => True) (growBy swapping block n size)
      (growBy watching block n size) := by
  refine (gatherPages_spacious block k n).bind fun _ => ?_
  refine (splitBlock_watched (spaciousPages k) block size (sizeWithBlock size)).bind fun _ => ?_
  exact UntilBad.same (fun _ _ => trivial) fun impossible _ => impossible.elim

theorem newLastBlock_spacious (prev k : Nat) :
    UntilBad Never (Spacious (k + 1)) (fun block m => block.isSome = true ∧ Spacious k m)
      (newLastBlock swapping prev) (newLastBlock watching prev) := by
  refine UntilBad.look_eq.bind fun nextPage => newPage_spacious ?_
  refine (freshBlock_watched (spaciousPages k) _ _).bind fun _ => ?_
  exact ((spaciousPages k).modify _ _).bind fun _ => .pure fun _ spacious => ⟨rfl, spacious⟩

theorem newLastBlock_suffices (spacious : Spacious k m)
    (ran : newLastBlock watching prev m = some (result, m')) :
    0 < k ∧ result.isSome = true ∧ Spacious (k - 1) m' := by
  have some : 0 < k := by
    have ran' := ran
    rw [newLastBlock, look_run] at ran'
    obtain ⟨freed, m₁, room, _⟩ := run_bind ran'
    exact (spacious.newPage_watched rfl room).1
  obtain ⟨k, rfl⟩ : ∃ less, k = less + 1 := ⟨k - 1, by omega⟩
  exact ⟨some, ((newLastBlock_spacious prev k).agrees spacious ran).2⟩

/-- **A free last block** gets the pages without the swap file exactly if there are as many free
frames. -/
theorem growFree_spacious {n : Nat} (spacious : Spacious k m)
    (ran : growBy swapping prev n size m = some (result, m')) :
    (growBy watching prev n size m).isSome ↔ n ≤ k := by
  constructor
  · intro returns
    obtain ⟨⟨_, _⟩, ran'⟩ := Option.isSome_iff_exists.mp returns
    obtain ⟨_, m₁, gathered, _⟩ := run_bind ran'
    exact gatherPages_suffice spacious gathered
  · intro enough
    obtain ⟨j, rfl⟩ := Nat.exists_eq_add_of_le' enough
    exact Option.isSome_of_eq_some ((growBy_spacious prev n size j).passes spacious ran id).1

/-- **A taken last block** gets one behind it, and the pages go to that. -/
theorem growTaken_spacious {n : Nat} {rest watchedRest : Option Nat → StateT Machine Option (Option Nat)}
    (grows : ∀ bl, rest (some bl) = growBy swapping bl n size)
    (watchedGrows : ∀ bl, watchedRest (some bl) = growBy watching bl n size) (spacious : Spacious k m)
    (ran : (newLastBlock swapping prev >>= rest) m = some (result, m')) :
    ((newLastBlock watching prev >>= watchedRest) m).isSome ↔ n + 1 ≤ k := by
  constructor
  · intro returns
    obtain ⟨⟨_, _⟩, ran'⟩ := Option.isSome_iff_exists.mp returns
    obtain ⟨block, m₁, new, ran'⟩ := run_bind ran'
    obtain ⟨some, isSome, spacious₁⟩ := newLastBlock_suffices spacious new
    obtain ⟨bl, rfl⟩ := Option.isSome_iff_exists.mp isSome
    rw [watchedGrows] at ran'
    obtain ⟨_, m₂, gathered, _⟩ := run_bind ran'
    have le := gatherPages_suffice spacious₁ gathered
    omega
  · intro enough
    obtain ⟨j, rfl⟩ : ∃ j, k = j + n + 1 := ⟨k - (n + 1), by omega⟩
    obtain ⟨block, m₁, new, ran⟩ := run_bind ran
    obtain ⟨new', isSome, spacious₁⟩ := (newLastBlock_spacious prev (j + n)).passes spacious new id
    obtain ⟨bl, rfl⟩ := Option.isSome_iff_exists.mp isSome
    rw [grows] at ran
    rw [then_run new', watchedGrows]
    exact (growFree_spacious spacious₁ ran).mpr (Nat.le_add_left n j)

/-- **A growth needs no swap file** exactly if there are as many free frames as pages are counted. -/
theorem growHeap_spacious (spacious : Spacious k m)
    (laid : Laid m.frames (m.pageNum m.thread * PAGESIZE) (front ++ [last]))
    (ran : growHeap swapping size (extentOf front) m = some (result, m')) :
    (growHeap watching size (extentOf front) m).isSome ↔
      countedPages front last size (freeCount m) ≤ k := by
  obtain ⟨header, ends⟩ := laid.ends
  have four : BLOCK_SIZE = 4 := rfl
  unfold countedPages
  rw [growHeap] at ran ⊢
  by_cases short : bytesLeft (extentOf front) < sizeWithBlock size
  · rw [if_pos short, if_neg fun both => both.1 short]
    exact iff_of_true rfl (Nat.zero_le k)
  · rw [if_neg short] at ran ⊢
    obtain ⟨word, m₁, loaded, ran⟩ := run_bind ran
    obtain ⟨watched, spacious₁⟩ := ((spaciousPages k).load _).passes spacious loaded id
    obtain ⟨value, around, _⟩ :=
      ((paged_home spacious.home).load m (extentOf front) rfl (by omega)).of_run loaded
    have headerWord : Header word last false := value ▸ header
    have watched' : watching.mem.load (extentOf front) m = some (word, m₁) := watched
    rw [then_run watched']
    rw [look_run, growthRequest_of_header headerWord] at ran ⊢
    have counted : isEnoughPages m₁ (growthRequest last size) =
        if pagesNeeded last size ≤ freeCount m then pagesNeeded last size else 0 := by
      rw [isEnoughPages, around.tables.freeCount]
      rfl
    rw [counted] at ran ⊢
    by_cases enough : pagesNeeded last size ≤ freeCount m
    · have both : ¬ bytesLeft (extentOf front) < sizeWithBlock size ∧
          pagesNeeded last size ≤ freeCount m := ⟨short, enough⟩
      rw [if_pos enough] at ran
      rw [if_pos enough, if_pos both]
      by_cases positive : 0 < pagesNeeded last size
      · rw [if_pos positive] at ran ⊢
        by_cases isFree : extraBlock word = 0
        · rw [if_pos isFree] at ran ⊢
          exact growFree_spacious spacious₁ ran
        · rw [if_neg isFree] at ran ⊢
          have pages : (pagesNeeded last size).toNat - 1 + 1 = (pagesNeeded last size).toNat := by omega
          rw [← pages]
          exact growTaken_spacious (fun _ => rfl) (fun _ => rfl) spacious₁ ran
      · rw [if_neg positive]
        exact iff_of_true rfl (by omega)
    · rw [if_neg enough, if_neg (lt_irrefl (0 : Int)), if_neg fun both => enough both.2]
      exact iff_of_true rfl (Nat.zero_le k)

end Growth

/-! ### The call -/

section Call

variable {m m' : Machine} {blocks front : List Block} {last : Block} {size k : Nat}
  {result : Option Nat}

/-- The first loop of `alignPages` opens the frames it comes to. -/
theorem alignFrames_opens (indices : List Nat) : ∀ {m m' : Machine},
    alignFrames indices m = some ((), m') → (∀ i, m.accessible i = true → m'.accessible i = true) ∧
      ∀ i ∈ indices, Labels (m.pages i) m.thread i → m'.accessible i = true := by
  induction indices with
  | nil =>
    rintro m _ ⟨⟩
    exact ⟨fun _ opened => opened, fun i member => by cases member⟩
  | cons j rest ih =>
    intro m m' ran
    rw [alignFrames, look_run, look_run] at ran
    by_cases here : (getPageThID (m.pages j)).toNat = m.thread ∧ j = (getPagePgID (m.pages j)).toNat
    · rw [if_pos here, ← here.2, pageSwap, if_pos rfl] at ran
      obtain ⟨_, m₁, opening, ran⟩ := run_bind ran
      cases opening
      obtain ⟨_, m₂, opening, ran⟩ := run_bind ran
      cases opening
      obtain ⟨stays, opens⟩ := ih ran
      have isOpen : m'.accessible j = true := stays j (Function.update_self _ _ _)
      refine ⟨fun i opened => ?_, fun i member label => ?_⟩
      · by_cases same : i = j
        · rw [same, isOpen]
        · exact stays i ((Function.update_of_ne same _ _).trans opened)
      · rcases List.mem_cons.mp member with rfl | member
        · exact isOpen
        · exact opens i member label
    · rw [if_neg here] at ran
      obtain ⟨stays, opens⟩ := ih ran
      refine ⟨stays, fun i member label => ?_⟩
      rcases List.mem_cons.mp member with rfl | member
      · exact absurd ⟨label.thID, label.pgID.symm⟩ here
      · exact opens i member label

/-- **`alignPages` makes a thread at home resident**, and takes nothing out of the swap file. -/
theorem AtHome.alignPages_spacious (home : AtHome m) (opened : AllOpen m)
    (ran : Paging.alignPages m = some ((), m')) : watching.alignPages m = some ((), m') ∧
      Resting m m' ∧ Spacious (freeFrames m).length m' := by
  have still : settled m = true := by
    unfold settled
    rw [List.all_eq_true]
    intro i member
    rw [Bool.not_eq_true', decide_eq_false_iff_not]
    rintro ⟨_, thID, _⟩
    have valid : (Place.slot i).Valid := List.mem_range.mp member
    obtain ⟨_, _, impossible⟩ := home.only (.slot i) valid thID
    cases impossible
  have resting := home.alignPages.of_run ran
  have tables := resting.tables
  obtain ⟨_, m₁, first, second⟩ := run_bind ran
  obtain ⟨stays, opens⟩ := alignFrames_opens _ first
  have home₁ := home.of_same ((alignFrames_rests _ m).of_run first).tables
  have same : m' = m₁ := by
    cases second.symm.trans (home₁.alignSlots fun _ => List.mem_range.mp)
    rfl
  have watched : watching.alignPages m = some ((), m') := by
    show guarded settled Paging.alignPages m = _
    rw [guarded_eq, if_pos still, ran]
  refine ⟨watched, resting, ⟨⟨home.of_same tables, fun i below => ?_⟩, fun f member => ?_, by
    rw [tables.freeFrames]⟩⟩
  · rw [tables.pageCount] at below
    rw [same]
    exact opens i (List.mem_range.mpr (lt_of_lt_of_le below home.bounded)) (home.labels i below)
  · rw [tables.freeFrames] at member
    rw [same]
    exact stays f (opened f member)

theorem AtHome.startsPage_iff (home : AtHome m) : StartsPage m ↔ m.pageNum m.thread = 0 := by
  constructor
  · rintro ⟨foreign, _⟩
    by_contra some
    exact foreign (home.labels 0 (Nat.pos_of_ne_zero some)).thID
  · intro none
    refine ⟨home.foreign_next (by decide) none.symm, fun label => ?_⟩
    obtain ⟨j, below, _⟩ := home.only (.slot 0) (show 0 < DISK_PAGES by decide) label.thID
    omega

/-- The heap of a thread at home, as it is read off its memory. -/
theorem AtHome.startBlocks (home : AtHome m) (heap : HomeHeap m blocks) :
    startBlocks m = searched blocks := by
  unfold Paging.startBlocks
  rcases heap with ⟨none, rfl⟩ | laid
  · rw [if_pos none]
    rfl
  · have some : m.pageNum m.thread ≠ 0 := Nat.pos_iff_ne_zero.mp laid.pages_pos
    have view : ∀ c < m.pageNum m.thread * PAGESIZE, m.view m.thread c = m.frames c := by
      intro c below
      have page : c / PAGESIZE < m.pageNum m.thread :=
        Nat.div_lt_of_lt_mul (by rwa [Nat.mul_comm] at below)
      have found : Paging.located { m with thread := m.thread } (c / PAGESIZE) = _ := home.located page
      unfold Machine.view
      rw [found]
      show m.frames (c / PAGESIZE * PAGESIZE + c % PAGESIZE) = m.frames c
      rw [Nat.div_add_mod']
    have chain : Chain (m.view m.thread) false 0 blocks := laid.chain.congr fun c _ below => by
      rw [Nat.zero_add, laid.extent] at below
      exact view c below
    rw [if_neg some, searched_of_ne laid.nonempty, Paging.heapOf, if_neg some]
    exact chain.blocksAt laid.nonempty (home.walks laid)

/-- The pages for the growth, off the blocks. -/
theorem growthPages_eq (split : startBlocks m = front ++ [last]) : growthPages m size =
    if firstFit BLOCK_SIZE size 0 (front ++ [last]) = none then
      countedPages front last size (freeCount m - firstPages m)
    else 0 := by
  unfold growthPages countedPages
  rw [split, List.getLast?_concat, lastBlock_append, Nat.zero_add]
  dsimp only
  by_cases full : firstFit BLOCK_SIZE size 0 (front ++ [last]) = none
  · simp only [full, true_and, if_true]
  · rw [if_neg full, if_neg fun all => full all.1]

/-- **The first page**, without the swap file if there is a free frame. -/
theorem firstPage_spacious {ready : Bool} (spacious : Spacious k m)
    (ran : firstPage swapping m = some (ready, m')) :
    (firstPages m ≤ k ∧ firstPage watching m = some (ready, m') ∧ ready = true ∧
        Spacious (k - firstPages m) m') ∨ (k < firstPages m ∧ firstPage watching m = none) := by
  by_cases none : m.pageNum m.thread = 0
  · have foreign := spacious.home.foreign_next (by decide) none.symm
    rw [firstPages_of (spacious.home.startsPage_iff.mpr none)]
    cases k with
    | zero =>
      refine Or.inr ⟨Nat.one_pos, ?_⟩
      cases watched : firstPage watching m with
      | none => rfl
      | some pair =>
        rw [firstPage, look_run, look_run, if_pos foreign] at watched
        obtain ⟨freed, m₁, room, _⟩ := run_bind watched
        exact absurd (spacious.newPage_watched none.symm room).1 (Nat.lt_irrefl 0)
    | succ k =>
      rw [firstPage, look_run, look_run, if_pos foreign] at ran
      rw [firstPage, look_run, look_run, if_pos foreign]
      have watch : UntilBad Never (fun m => Spacious (k + 1) m ∧ 0 = m.pageNum m.thread)
          (fun ready m => ready = true ∧ Spacious k m)
          (makeRoom 0 >>= fun freed =>
            if freed then initializePage 0 >>= fun _ => pure true else pure false)
          (watching.makeRoom 0 >>= fun freed =>
            if freed then initializePage 0 >>= fun _ => pure true else pure false) :=
        newPage_spacious (.pure fun _ spacious => ⟨rfl, spacious⟩)
      obtain ⟨watched, isReady, spacious'⟩ := watch.passes ⟨spacious, none.symm⟩ ran id
      exact Or.inl ⟨by omega, watched, isReady, spacious'⟩
  · have own : (getPageThID (m.pages 0)).toNat = m.thread :=
      (spacious.home.labels 0 (Nat.pos_of_ne_zero none)).thID
    rw [firstPages_of_not fun starts => none (spacious.home.startsPage_iff.mp starts)]
    rw [firstPage, look_run, look_run, if_neg (not_not.mpr own)] at ran
    cases ran
    refine Or.inl ⟨Nat.zero_le k, ?_, rfl, spacious⟩
    rw [firstPage, look_run, look_run, if_neg (not_not.mpr own)]
    rfl

/-- **The search, and the growth behind it.** -/
theorem searchHeap_spacious (spacious : Spacious k m)
    (laid : Laid m.frames (m.pageNum m.thread * PAGESIZE) (front ++ [last]))
    (ran : searchHeap swapping size m = some (result, m')) :
    (searchHeap watching size m).isSome ↔
      (if firstFit BLOCK_SIZE size 0 (front ++ [last]) = none then
        countedPages front last size (freeCount m)
      else 0) ≤ k := by
  have home := spacious.home
  have inside : 0 + extentOf (front ++ [last]) ≤ m.pageNum m.thread * PAGESIZE := by
    rw [Nat.zero_add, laid.extent]
  have shows : Shows (Around m) (·.frames) m.frames m := ⟨rfl, rfl⟩
  obtain ⟨search, m₁, found, ran⟩ := run_bind ran
  obtain ⟨found', spacious₁⟩ :=
    (firstFitLoop_watched (spaciousPages k) _ _ _ _).passes spacious found id
  have watched : firstFitLoop watching.mem size (sizeWithBlock size) walkFuel 0 m
      = some (search, m₁) := found'
  have allocated := (firstFitLoop_spec (paged_home home) laid.nonempty shows laid.chain inside
    (home.walks laid)).of_run found
  rw [searchHeap, then_run watched]
  cases fit : firstFit BLOCK_SIZE size 0 (front ++ [last]) with
  | none =>
    rw [fit] at allocated
    obtain ⟨rfl, around, frames⟩ := allocated
    rw [lastBlock_append, Nat.zero_add] at ran ⊢
    have tables := around.tables
    have laid₁ : Laid m₁.frames (m₁.pageNum m₁.thread * PAGESIZE) (front ++ [last]) := by
      rw [show m₁.frames = m.frames from frames, tables.pageCount]
      exact laid
    rw [if_pos rfl, ← tables.freeCount]
    exact growHeap_spacious spacious₁ laid₁ ran
  | some pair =>
    rw [fit] at allocated
    obtain ⟨rfl, _⟩ := allocated
    rw [if_neg (by simp)]
    exact iff_of_true rfl (Nat.zero_le k)

theorem SameTables.firstPages (same : SameTables m m') : firstPages m' = firstPages m := by
  have starts : StartsPage m' ↔ StartsPage m := by
    unfold StartsPage
    rw [same.pages, same.diskPages, same.thread]
  by_cases first : StartsPage m
  · rw [firstPages_of first, firstPages_of (starts.mpr first)]
  · rw [firstPages_of_not first, firstPages_of_not fun again => first (starts.mp again)]

/-- The entries that the first page leaves. -/
theorem AtSearch.freeCount_eq {s : Machine} (start : AtSearch m s blocks) (home : AtHome m)
    (heap : HomeHeap m blocks) : freeCount s = freeCount m - Paging.firstPages m := by
  rcases heap with ⟨none, rfl⟩ | laid
  · obtain ⟨impossible, _⟩ | ⟨_, _, taken⟩ := start.before
    · exact absurd rfl impossible
    · rw [firstPages_of (home.startsPage_iff.mpr none), ← taken, Nat.add_sub_cancel]
  · have some : m.pageNum m.thread ≠ 0 := Nat.pos_iff_ne_zero.mp laid.pages_pos
    obtain ⟨_, still⟩ | ⟨empty, _⟩ := start.before
    · rw [firstPages_of_not fun starts => some (home.startsPage_iff.mp starts), Nat.sub_zero,
        still.tables.freeCount]
    · exact absurd empty laid.nonempty

/-- **An allocation needs no swap file** exactly if there are as many free frames as it adds pages. -/
theorem myallocate_spacious (home : AtHome m) (heap : HomeHeap m blocks) (opened : AllOpen m)
    (ran : myallocate swapping size m = some (result, m')) : (myallocate watching size m).isSome ↔
      firstPages m + growthPages m size ≤ (freeFrames m).length := by
  rw [myallocate, pause_timer, change_run] at ran ⊢
  set paused : Machine := { m with timer := ⟨0, m.timer.remaining⟩ } with paused_eq
  have same : SameTables m paused := ⟨rfl, rfl, rfl, rfl⟩
  obtain ⟨_, m₁, aligned, ran⟩ := run_bind ran
  obtain ⟨aligned', resting, spacious₁⟩ := (home.of_same same).alignPages_spacious opened aligned
  have tables := same.trans resting.tables
  have stopped : Resting m paused := rfl
  have heap₁ : HomeHeap m₁ blocks := heap.of_resting (stopped.trans resting)
  rw [then_run aligned']
  obtain ⟨ready, m₂, first, ran⟩ := run_bind ran
  have pages := tables.firstPages
  have frames : (freeFrames paused).length = (freeFrames m).length := rfl
  obtain ⟨le, first', rfl, spacious₂⟩ | ⟨short, first'⟩ := firstPage_spacious spacious₁ first
  · rw [then_run first', if_pos rfl]
    rw [if_pos rfl] at ran
    obtain ⟨impossible, _⟩ | ⟨_, start⟩ := firstPage_home (home.of_same tables) heap₁ first
    · cases impossible
    obtain ⟨front, last, split⟩ : ∃ front last, searched blocks = front ++ [last] :=
      ⟨_, _, (List.dropLast_append_getLast start.laid.nonempty).symm⟩
    have laid : Laid m₂.frames (m₂.pageNum m₂.thread * PAGESIZE) (front ++ [last]) := by
      rw [← split]
      exact start.laid
    have count : freeCount m₂ = freeCount m - firstPages m := by
      rw [← tables.freeCount, ← pages]
      exact start.freeCount_eq (home.of_same tables) heap₁
    rw [searchHeap_spacious spacious₂ laid ran, count,
      growthPages_eq ((home.startBlocks heap).trans split)]
    omega
  · have stuck : (firstPage watching >>= fun ready =>
        if ready then searchHeap watching size else pure none) m₁ = none := by
      show (firstPage watching m₁).bind _ = none
      rw [first']
      rfl
    rw [stuck]
    exact iff_of_false (by simp) (by omega)

/-- **The free frames are enough for what a call adds.** -/
def Call.FramesSuffice (m : Machine) : Call → Prop
  | .create _ _ => False
  | .allocate size caller =>
    caller = LIBRARYREQ ∨ firstPages m + growthPages m size ≤ (freeFrames m).length
  | _ => True

/-- An allocation, as a call. -/
theorem malloc_spacious {p q : Process} {answer : Answer} {caller : Int} (timerSet : p.scheduled = true)
    (home : AtHome p.machine) (heap : HomeHeap p.machine blocks) (opened : AllOpen p.machine)
    (thread : caller ≠ LIBRARYREQ)
    (ran : (Call.allocate size caller).run space swapping p = some (answer, q)) :
    ((Call.allocate size caller).run watchedSpace watching p).isSome = true ↔
      firstPages p.machine + growthPages p.machine size ≤ (freeFrames p.machine).length := by
  rw [Call.run, myallocateFor] at ran ⊢
  by_cases disk : caller = DISKREQ
  · rw [if_pos disk] at ran
    cases ran
  rw [if_neg disk, if_neg thread] at ran ⊢
  obtain ⟨_, p₁, ran, _⟩ := run_bind ran
  rw [malloc, look_run, if_pos timerSet] at ran
  obtain ⟨result, p₂, ran, _⟩ := run_bind ran
  obtain ⟨⟨_, m'⟩, allocated, _⟩ := Option.map_eq_some_iff.mp ran
  rw [← myallocate_spacious home heap opened allocated]
  constructor
  · intro returns
    obtain ⟨⟨_, _⟩, ran'⟩ := Option.isSome_iff_exists.mp returns
    obtain ⟨_, p₃, ran', _⟩ := run_bind ran'
    rw [malloc, look_run, if_pos timerSet] at ran'
    obtain ⟨_, p₄, ran', _⟩ := run_bind ran'
    obtain ⟨_, watched, _⟩ := Option.map_eq_some_iff.mp ran'
    exact Option.isSome_of_eq_some watched
  · intro returns
    obtain ⟨⟨block, m₁⟩, watched⟩ := Option.isSome_iff_exists.mp returns
    have first : onMachine (myallocate watching size) p = some (block, { p with machine := m₁ }) := by
      unfold onMachine
      rw [watched]
      rfl
    have handed : malloc watchedSpace watching size p
        = some (block.map (LIBRARY_BYTES + ·), { p with machine := m₁ }) := by
      rw [malloc, look_run, if_pos timerSet, then_run first]
      rfl
    rw [then_run handed]
    rfl

/-- **When a call pauses the timer only once**, for a resident thread whose blocks tile its pages and
no free frame protected. -/
theorem pausesOnce_iff (call : Call) {p q : Process} {answer : Answer} (timerSet : p.scheduled = true)
    (resident : Resident p.machine) (heap : HomeHeap p.machine blocks) (opened : AllOpen p.machine)
    (ran : call.run space swapping p = some (answer, q)) :
    call.PausesOnce p ↔ call.FramesSuffice p.machine := by
  have running : Running Resident p := ⟨timerSet, resident⟩
  have never : ¬ Running Never q := And.right
  -- besides the allocations of a thread, no call needs a frame
  have passes : ∀ {call : Call}, call.run space swapping p = some (answer, q) →
      UntilBad (Running Never) (Running Resident) (fun _ => Running Resident)
        (call.run space swapping) (call.run watchedSpace watching) →
      (call.run watchedSpace watching p).isSome = true := fun ran watch =>
    Option.isSome_of_eq_some (watch.passes running ran never).1
  cases call with
  | create new thread => exact Iff.rfl
  | join threads id value_ptr =>
    refine iff_of_true (passes ran (UntilBad.bind ?_ fun _ => .pure fun _ holds => holds)) trivial
    exact my_pthread_join_watched residentStops threads id value_ptr
  | allocate size caller =>
    show (((Call.allocate size caller).run watchedSpace watching) p).isSome = true ↔ _
    by_cases library : caller = LIBRARYREQ
    · subst library
      refine iff_of_true (passes ran (UntilBad.bind ?_ fun _ => .pure fun _ holds => holds))
        (Or.inl rfl)
      exact .ite (fun _ => .stop) fun _ => .ite
        (fun _ => mallocLibrary_watched residentStops size) fun other => absurd rfl other
    · exact (malloc_spacious timerSet resident.home heap opened library ran).trans
        (or_iff_right library).symm
  | deallocate ptr caller =>
    refine iff_of_true (passes ran (UntilBad.bind ?_ fun _ => .pure fun _ holds => holds)) trivial
    exact mydeallocateFor_watched residentStops ptr caller

end Call

end OS2017.Paging
