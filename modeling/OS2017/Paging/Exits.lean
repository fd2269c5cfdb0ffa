/-
**What an exit releases.**

`freePages` marks the frames that carry the exiting thread's id as free, and does not look at the table
of the swap file. In every reachable state an exit releases all pages of its thread, and nothing else,
exactly if none of them is in the swap file (`exit_releases_iff`).
-/

import OS2017.Paging.Resolves
import OS2017.Paging.Indices

namespace OS2017.Paging

open OS2017.Bytes OS2017.Heap OS2017.FirstFit OS2017.Run

/-- **All pages of the thread are released**, and the others stay as they are. -/
structure ReleasesAll (t : Nat) (m m' : Machine) : Prop where
  released : ∀ place : Place, place.Valid → getPageIsF (m'.entry place) = 0 →
    (getPageThID (m'.entry place)).toNat ≠ t
  counted : freeCount m' = freeCount m + m.pageNum t
  others : ∀ place : Place, place.Valid → (getPageThID (m.entry place)).toNat ≠ t →
    m'.entry place = m.entry place
  content : m'.content = m.content

/-- **No page of the running thread is in the swap file.** -/
def InMemory (m : Machine) : Prop :=
  ∀ i < DISK_PAGES, getPageIsF (m.diskPages i) = 0 → (getPageThID (m.diskPages i)).toNat ≠ m.thread

/-! ### The pages of a thread -/

section Counts

variable {live : Nat → Bool} {threadNum : Nat} {pageNum : Nat → Nat} {entry : Place → BitVec 32}

/-- The places in use that carry the id. -/
def pagesOf (entry : Place → BitVec 32) (t : Nat) : Finset Place :=
  (places.filter fun place =>
    getPageIsF (entry place) = 0 ∧ (getPageThID (entry place)).toNat = t).toFinset

theorem mem_pagesOf {t : Nat} {place : Place} : place ∈ pagesOf entry t ↔
    place.Valid ∧ getPageIsF (entry place) = 0 ∧ (getPageThID (entry place)).toNat = t := by
  rw [pagesOf, List.mem_toFinset, List.mem_filter, mem_places, decide_eq_true_eq]

/-- **A live thread has as many places as pages.** -/
theorem Labelled.card_pagesOf (labelled : Labelled live threadNum pageNum entry) {t : Nat}
    (alive : live t = true) : (pagesOf entry t).card = pageNum t := by
  rw [← Finset.card_range (pageNum t)]
  refine Finset.card_bij (fun place _ => (getPagePgID (entry place)).toNat) ?_ ?_ ?_
  · intro place member
    obtain ⟨inside, used, thID⟩ := mem_pagesOf.mp member
    exact Finset.mem_range.mpr (labelled.below t alive _ place inside ⟨used, thID, rfl⟩)
  · intro place member place' member' same
    obtain ⟨inside, used, thID⟩ := mem_pagesOf.mp member
    obtain ⟨inside', used', thID'⟩ := mem_pagesOf.mp member'
    exact labelled.unique t alive _ place place' inside inside' ⟨used, thID, rfl⟩
      ⟨used', thID', same.symm⟩
  · intro k member
    obtain ⟨place, inside, label⟩ := labelled.exists_of_lt t alive k (Finset.mem_range.mp member)
    exact ⟨place, mem_pagesOf.mpr ⟨inside, label.used, label.thID⟩, label.pgID⟩

end Counts

/-! ### `freePages` -/

section Released

variable {live : Nat → Bool} {threadNum : Nat} {m : Machine}

/-- The places that are free afterwards, if all pages are in memory. -/
theorem freePlaces_released (labelled : Labelled live threadNum m.pageNum m.entry)
    (inMemory : InMemory m) :
    freePlaces (released m).entry = freePlaces m.entry ∪ pagesOf m.entry m.thread := by
  ext place
  rw [Finset.mem_union, mem_freePlaces, mem_freePlaces, mem_pagesOf, ← and_or_left, and_congr_right_iff]
  intro inside
  have mine_used : (getPageThID (m.entry place)).toNat = m.thread →
      getPageIsF (m.entry place) = 0 ∨ getPageIsF (m.entry place) = 1 := fun _ =>
    labelled.flags place inside
  cases place with
  | slot i =>
    have notMine := inMemory i inside
    constructor
    · exact Or.inl
    · rintro (isFree | ⟨used, thID⟩)
      · exact isFree
      · exact absurd thID (notMine used)
  | frame i =>
    by_cases mine : i < USER_PAGES ∧ (getPageThID (m.pages i)).toNat = m.thread
    · rw [released_entry_of_mine mine.1 mine.2, getPageIsF_setPageIsF (by decide)]
      refine ⟨fun _ => ?_, fun _ => rfl⟩
      exact (mine_used mine.2).symm.imp_right fun used => ⟨used, mine.2⟩
    · rw [released_entry_of_not mine]
      constructor
      · exact Or.inl
      · rintro (isFree | ⟨_, thID⟩)
        · exact isFree
        · exact absurd ⟨inside, thID⟩ mine

/-- **The pages that become free are those of the thread.** -/
theorem freeCount_released (labelled : Labelled live threadNum m.pageNum m.entry)
    (alive : live m.thread = true) (inMemory : InMemory m) :
    freeCount (released m) = freeCount m + m.pageNum m.thread := by
  have apart : Disjoint (freePlaces m.entry) (pagesOf m.entry m.thread) := by
    rw [Finset.disjoint_left]
    intro place free page
    rw [mem_freePlaces] at free
    rw [mem_pagesOf, free.2] at page
    exact absurd page.2.1 (by decide)
  rw [freeCount_eq, freeCount_eq, freePlaces_released labelled inMemory,
    Finset.card_union_of_disjoint apart, labelled.card_pagesOf alive]

/-- Where entries are in use, they are another thread's. -/
theorem released_not_mine (labelled : Labelled live threadNum m.pageNum m.entry)
    (inMemory : InMemory m) {place : Place} (inside : place.Valid)
    (used : getPageIsF ((released m).entry place) = 0) :
    (getPageThID ((released m).entry place)).toNat ≠ m.thread := by
  intro mine
  have flags : getPageIsF ((released m).entry place) ≠ 1 := by
    rw [used]
    decide
  have notFree : place ∉ freePlaces (released m).entry := fun free => flags (mem_freePlaces.mp free).2
  rw [freePlaces_released labelled inMemory, Finset.mem_union, not_or, mem_freePlaces, mem_pagesOf] at notFree
  rw [released_thID] at mine
  rcases labelled.flags place inside with before | before
  · exact notFree.2 ⟨inside, before, mine⟩
  · exact notFree.1 ⟨inside, before⟩

end Released

/-! ### Exits -/

theorem switchTo_returns (next : Nat) (m : Machine) :
    Returns (switchTo next) m fun _ m' => Switched next m m' := by
  by_cases same : next ≠ m.thread
  · refine ⟨(), { m with
      accessible := fun i =>
        if i < USER_PAGES ∧ (getPageThID (m.pages i)).toNat = m.thread then false else m.accessible i
      thread := next }, ?_, ?_⟩
    · rw [switchTo, look_run, if_pos same]
      rfl
    · exact ⟨rfl, rfl, rfl, rfl, rfl, rfl, (if_pos same).symm⟩
  · refine ⟨(), m, ?_, ⟨rfl, rfl, rfl, rfl, rfl, (not_not.mp same).symm, (if_neg same).symm⟩⟩
    rw [switchTo, look_run, if_neg same]
    rfl

/-- The tables and the bytes after an exit. -/
structure Exited (m m' : Machine) : Prop where
  entry : m'.entry = (released m).entry
  content : m'.content = m.content

/-- **An exit has a result.** -/
theorem exit_returns (s : System) (next : Option Nat) :
    ∃ s', s.next (.exit next) = some s' ∧ Exited s.machine s'.machine := by
  suffices returns : Returns (do
      freePages
      next.forM switchTo : StateT Machine Option Unit) s.machine fun _ m' => Exited s.machine m' by
    obtain ⟨_, m', ran, exited⟩ := returns
    exact ⟨_, Option.map_eq_some_iff.mpr ⟨_, ran, rfl⟩, exited⟩
  refine Returns.change_bind ?_
  cases next with
  | none => exact ⟨(), released s.machine, rfl, rfl, rfl⟩
  | some next =>
    refine (switchTo_returns next (released s.machine)).mono fun _ m' switched => ⟨?_, ?_⟩
    · exact entry_congr switched.pages switched.diskPages
    · funext place
      cases place with
      | frame i => exact congrArg (fun frames o => frames (i * PAGESIZE + o)) switched.frames
      | slot i => exact congrArg (fun swpFile o => swpFile (i * PAGESIZE + o)) switched.swpFile

theorem freeCount_congr {m m' : Machine} (entry : m'.entry = m.entry) : freeCount m' = freeCount m := by
  rw [freeCount_eq, freeCount_eq, entry]

/-- **An exit releases all pages exactly if they are in memory.** -/
theorem Exited.releases_iff {live : Nat → Bool} {threadNum : Nat} {m m' : Machine}
    (exited : Exited m m') (labelled : Labelled live threadNum m.pageNum m.entry)
    (alive : live m.thread = true) : ReleasesAll m.thread m m' ↔ InMemory m := by
  constructor
  · intro releases i inside used
    have slot : (Place.slot i).Valid := inside
    have entry : m'.entry (.slot i) = m.diskPages i := congrFun exited.entry (.slot i)
    have notMine := releases.released (.slot i) slot
    rw [entry] at notMine
    exact notMine used
  · intro inMemory
    refine ⟨fun place inside used => ?_, ?_, fun place _ other => ?_, exited.content⟩
    · rw [exited.entry] at used ⊢
      exact released_not_mine labelled inMemory inside used
    · rw [freeCount_congr exited.entry, freeCount_released labelled alive inMemory]
    · rw [exited.entry, released_of_ne place other]

/-- **An exit releases all of its thread's pages**, in every reachable state, exactly if none of them is
in the swap file. -/
theorem exit_releases_iff {s : System}
    (reached : Reach SystemStarted Admitted (execStep System.act) s) {next : Option Nat}
    (admitted : Admitted s (.event (.exit next))) :
    (∃ s', s.act (.event (.exit next)) = some s' ∧
      ReleasesAll s.machine.thread s.machine s'.machine) ↔ InMemory s.machine := by
  have well := (sound_of_acts reached).well
  obtain ⟨s', taken, exited⟩ := exit_returns s next
  have iff := exited.releases_iff well admitted.running
  constructor
  · rintro ⟨s'', taken', releases⟩
    cases Option.some.inj (taken.symm.trans taken')
    exact iff.mp releases
  · exact fun inMemory => ⟨s', taken, iff.mpr inMemory⟩

/-- A thread exits that has a page, and runs; the slots of the swap file are free. -/
def onePageExits (s : System) : Bool :=
  s.machine.pageNum 1 = 1 && s.machine.thread = 1 && s.live 1 && s.live 2 &&
    (List.range DISK_PAGES).all fun i => getPageIsF (s.machine.diskPages i) = 1

theorem exit_releases_onePage : ∃ s s' : System, s.machine.pageNum 1 = 1 ∧
    s.act (.event (.exit (some 2))) = some s' ∧ ReleasesAll 1 s.machine s'.machine := by
  have start : Reach SystemStarted Admitted (execStep System.act) zeroSystem :=
    .init zeroSystem_started
  obtain ⟨s, reached, held⟩ := start.exists_of_execAll [.event (.allocate 100), .event .create]
    onePageExits (by decide +kernel)
  unfold onePageExits at held
  simp only [Bool.and_eq_true, decide_eq_true_eq] at held
  obtain ⟨⟨⟨⟨count, thread⟩, running⟩, successor⟩, slots⟩ := held
  have admitted : Admitted s (.event (.exit (some 2))) := by
    refine ⟨?_, successor, ?_⟩
    · rw [thread]
      exact running
    · rw [thread]
      decide
  have inMemory : InMemory s.machine := by
    intro i inside used
    have isFree := List.all_eq_true.mp slots i (List.mem_range.mpr inside)
    rw [used] at isFree
    cases isFree
  obtain ⟨s', taken, releases⟩ := (exit_releases_iff reached admitted).mpr inMemory
  rw [thread] at releases
  exact ⟨s, s', count, taken, releases⟩

/-! ### A thread with a page in the swap file -/

/-- The pages of the other threads are not counted. -/
def SameOthers (m m' : Machine) : Prop :=
  m'.thread = m.thread ∧ ∀ t, t ≠ m.thread → m'.pageNum t = m.pageNum t

theorem sameOthers_composes : Composes SameOthers := by
  refine ⟨fun m => ⟨rfl, fun _ _ => rfl⟩, ?_⟩
  rintro m m' m'' ⟨thread, others⟩ ⟨thread', others'⟩
  refine ⟨thread'.trans thread, fun t other => ?_⟩
  rw [others' t (thread ▸ other), others t other]

theorem SameCount.others {m m' : Machine} (same : SameCount m m') : SameOthers m m' :=
  ⟨same.1, fun t _ => congrFun same.2 t⟩

theorem Permutes.sameOthers {m m' : Machine} (permutes : Permutes m m') : SameOthers m m' :=
  permutes.sameCount.others

/-- **The running thread's own pages grow**, and no others. -/
theorem sameOthers_parts : KeptByParts makeRoom SameOthers where
  composes := sameOthers_composes
  timer := fun _ _ => ⟨rfl, fun _ _ => rfl⟩
  frames := fun _ _ => ⟨rfl, fun _ _ => rfl⟩
  touch := fun k => (keeps_touch k).mono Permutes.sameOthers
  alignPages := keeps_alignPages.mono Permutes.sameOthers
  newPage := fun {m m₁ m₂ index} _ room new => by
    have same := makeRoom_sameCount index _ _ _ room
    by_cases inside : index < USER_PAGES
    · have initialized := (initializePage_spec m₁ inside).of_run new
      refine ⟨initialized.thread.trans same.1, fun t other => ?_⟩
      rw [initialized.pageNum, Function.update_of_ne (same.1 ▸ other), same.2]
    · rw [initializePage, if_neg inside] at new
      cases new
  noRoom := fun {m m₁ index} _ room => (makeRoom_sameCount index _ _ _ room).others

/-- The bytes with which the first request takes all frames. -/
def allFrames : Nat := (USER_PAGES - 1) * PAGESIZE - BLOCK_SIZE

theorem zeroSystem_ample : Ample zeroSystem.machine := by
  have alone : Ample (alone 0 fun _ => 0) := alone_ample (Nat.zero_le _) _
  refine alone.of_same ⟨?_, rfl, rfl, ?_⟩ rfl
  · funext i
    have others : (if i < 0 then newEntry 0 1 i else 1) = 1 := if_neg (Nat.not_lt_zero i)
    exact others.symm
  · funext t
    exact (ite_self 0).symm

/-- **The first request takes all frames.** -/
theorem allFrames_taken : Returns (myallocate swapping allFrames) zeroSystem.machine fun _ m' =>
    Gathered USER_PAGES zeroSystem.machine m' := by
  have needed : pagesNeeded ⟨PAGESIZE - BLOCK_SIZE, true⟩ allFrames = (USER_PAGES - 1 : Nat) := by
    decide
  refine zeroSystem_ample.starts rfl (by decide) fun s first header => ?_
  have count : s.pageNum s.thread = 1 := first.pageNum
  refine (first.ample.growHeap_free header rfl (by decide) (by decide) (by decide) ?_ ?_ ?_).mono ?_
  · rw [needed]
    decide
  · rw [needed]
    decide
  · rw [needed, count]
    decide
  · rintro _ m' ⟨_, gathered⟩
    rw [needed] at gathered
    refine ⟨gathered.ample, gathered.thread.trans first.thread, ?_⟩
    rw [gathered.pageNum, count]
    rfl

section Evicted

variable {live : Nat → Bool} {threadNum : Nat} {m : Machine}

/-- A thread that is alive and has no pages is at home. -/
theorem Labelled.atHome_none (labelled : Labelled live threadNum m.pageNum m.entry)
    (alive : live m.thread = true) (none : m.pageNum m.thread = 0) : AtHome m := by
  refine labelled.atHome alive (by rw [none]; exact Nat.zero_le _) fun k below => ?_
  rw [none] at below
  exact absurd below (Nat.not_lt_zero k)

/-- **Without a free frame the first page of a thread takes frame `0`**, even if the request is refused. -/
theorem firstPage_evicts (labelled : Labelled live threadNum m.pageNum m.entry)
    (alive : live m.thread = true) (none : m.pageNum m.thread = 0) (full : freeFrame m = Option.none)
    (slots : 0 < freeCount m) :
    Returns (myallocate swapping (USER_PAGES * PAGESIZE)) m fun _ m' =>
      Labels (m'.pages 0) m.thread 0 ∧ SameOthers m m' := by
  have home := labelled.atHome_none alive none
  have vain : StartsInVain m (USER_PAGES * PAGESIZE) := by
    refine ⟨slots, fun i free => ?_, ?_, Or.inl (by decide)⟩
    · rw [full] at free
      cases free
    · rintro ⟨_, exact | room⟩
      · exact absurd exact (by decide)
      · exact absurd room (by decide)
  obtain ⟨result, m', ran, refused⟩ := home.myallocate_inVain none (by decide) vain
  refine ⟨result, m', ran, ?_, sameOthers_parts.myallocate _ _ _ _ ran⟩
  subst refused
  cases myallocate_outcome home (Or.inl ⟨none, rfl⟩) ran with
  | noPage _ without => exact absurd without (Nat.pos_iff_ne_zero.mp slots)
  | refused start _ _ resting =>
    rcases start.before with ⟨some, _⟩ | ⟨_, one, _⟩
    · exact absurd rfl some
    · have label := start.home.labels 0 (by rw [one]; exact Nat.one_pos)
      rw [resting.tables.pages, ← start.thread]
      exact label

/-- **A thread with as many pages as there are frames, and not the first one**, has a page in the swap
file. -/
theorem not_inMemory (labelled : Labelled live threadNum m.pageNum m.entry)
    (alive : live m.thread = true) (count : m.pageNum m.thread = USER_PAGES)
    (foreign : (getPageThID (m.pages 0)).toNat ≠ m.thread) : ¬ InMemory m := by
  intro inMemory
  have frames : pagesOf m.entry m.thread ⊆ ((Finset.range USER_PAGES).erase 0).image Place.frame := by
    intro place member
    obtain ⟨inside, used, thID⟩ := mem_pagesOf.mp member
    cases place with
    | slot i => exact absurd thID (inMemory i inside used)
    | frame i =>
      refine Finset.mem_image_of_mem _ (Finset.mem_erase.mpr ⟨?_, Finset.mem_range.mpr inside⟩)
      rintro rfl
      exact foreign thID
  have fewer := Finset.card_le_card frames
  have erased : ((Finset.range USER_PAGES).erase 0).card = USER_PAGES - 1 := by
    rw [Finset.card_erase_of_mem (Finset.mem_range.mpr (by decide)), Finset.card_range]
  have images := Finset.card_image_le (s := (Finset.range USER_PAGES).erase 0) (f := Place.frame)
  rw [labelled.card_pagesOf alive, count] at fewer
  rw [erased] at images
  exact absurd (fewer.trans images) (Nat.not_le.mpr (Nat.sub_lt (by decide) Nat.one_pos))

end Evicted

theorem System.act_allocate {s : System} {size : Nat} {result : Option Nat} {m' : Machine}
    (ran : myallocate swapping size s.machine = some (result, m')) :
    s.act (.event (.allocate size)) = some { s with machine := m' } := by
  change s.call (myallocate swapping size) = _
  rw [System.call, ran]
  rfl

theorem System.act_switch {s : System} {next : Nat} {m' : Machine}
    (ran : switchTo next s.machine = some ((), m')) :
    s.act (.event (.switch next)) = some { s with machine := m' } := by
  change s.call (switchTo next) = _
  rw [System.call, ran]
  rfl

theorem System.reach_act {s s' : System} {a : Act}
    (reached : Reach SystemStarted Admitted (execStep System.act) s) (admitted : Admitted s a)
    (taken : s.act a = some s') : Reach SystemStarted Admitted (execStep System.act) s' :=
  .next reached admitted taken

/-- **A thread with a page in the swap file runs.** -/
theorem exists_swapped : ∃ s : System, Reach SystemStarted Admitted (execStep System.act) s ∧
    Admitted s (.event (.exit (some 2))) ∧ ¬ InMemory s.machine := by
  have start : Reach SystemStarted Admitted (execStep System.act) zeroSystem :=
    .init zeroSystem_started
  -- the first thread takes all frames
  obtain ⟨_, m₁, ran₁, gathered⟩ := allFrames_taken
  have first : m₁.thread = 1 := gathered.thread
  have count : m₁.pageNum 1 = USER_PAGES := by
    have all := gathered.pageNum
    rw [first] at all
    exact all.trans (Nat.zero_add _)
  have reached₁ := System.reach_act start
    (show Admitted zeroSystem (.event (.allocate allFrames)) from ⟨rfl, trivial⟩)
    (System.act_allocate ran₁)
  have running : zeroSystem.live m₁.thread = true := by
    rw [first]
    rfl
  -- a second one is created, and runs
  have reached₂ := System.reach_act reached₁
    (show Admitted _ (.event .create) from ⟨running, (show 2 < 256 by decide)⟩) rfl
  set m₂ : Machine := { m₁ with pageNum := Function.update m₁.pageNum 2 0 } with m₂_eq
  set live : Nat → Bool := Function.update zeroSystem.live 2 true with live_eq
  have one : live 1 = true := rfl
  have two : live 2 = true := rfl
  obtain ⟨_, m₃, ran₃, switched₃⟩ := switchTo_returns 2 m₂
  have reached₃ := System.reach_act reached₂
    (show Admitted _ (.event (.switch 2)) from ⟨(first ▸ one : live m₁.thread = true), two⟩)
    (System.act_switch ran₃)
  have well₃ : Labelled live 3 m₃.pageNum m₃.entry := (sound_of_acts reached₃).well
  have second : m₃.thread = 2 := switched₃.thread
  have none₃ : m₃.pageNum m₃.thread = 0 := by
    rw [second, switched₃.pageNum]
    exact Function.update_self 2 0 m₁.pageNum
  have entry₃ : m₃.entry = m₁.entry := entry_congr switched₃.pages switched₃.diskPages
  have full₃ : freeFrame m₃ = none := by
    cases found : freeFrame m₃ with
    | none => rfl
    | some i =>
      obtain ⟨inside, isFree, _⟩ := freeFrame_eq_some found
      have label := gathered.ample.home.labels i (by rw [first, count]; exact inside)
      rw [show m₃.pages i = m₁.pages i from congrFun switched₃.pages i, label.used] at isFree
      cases isFree
  have slots₃ : 0 < freeCount m₃ := by
    rw [freeCount_congr entry₃]
    exact lt_of_lt_of_le (by decide) gathered.ample.freeCount
  -- its first page takes frame `0`
  obtain ⟨_, m₄, ran₄, label, others⟩ :=
    firstPage_evicts well₃ (second ▸ two : live m₃.thread = true) none₃ full₃ slots₃
  have reached₄ := System.reach_act reached₃
    (show Admitted _ (.event (.allocate (USER_PAGES * PAGESIZE))) from
      ⟨(second ▸ two : live m₃.thread = true), trivial⟩) (System.act_allocate ran₄)
  obtain ⟨_, m₅, ran₅, switched₅⟩ := switchTo_returns 1 m₄
  have third : m₄.thread = 2 := others.1.trans second
  have reached₅ := System.reach_act reached₄
    (show Admitted _ (.event (.switch 1)) from ⟨(third ▸ two : live m₄.thread = true), one⟩)
    (System.act_switch ran₅)
  have last : m₅.thread = 1 := switched₅.thread
  have well₅ : Labelled live 3 m₅.pageNum m₅.entry := (sound_of_acts reached₅).well
  refine ⟨_, reached₅, ⟨(last ▸ one : live m₅.thread = true), two, ?_⟩, not_inMemory well₅ ?_ ?_ ?_⟩
  · show 2 ≠ m₅.thread
    rw [last]
    decide
  · exact (last ▸ one : live m₅.thread = true)
  · show m₅.pageNum m₅.thread = USER_PAGES
    rw [last, switched₅.pageNum, others.2 1 (by rw [second]; decide), switched₃.pageNum]
    exact (Function.update_of_ne (show 1 ≠ 2 by decide) 0 m₁.pageNum).trans count
  · show (getPageThID (m₅.pages 0)).toNat ≠ m₅.thread
    rw [last, switched₅.pages, label.thID, second]
    decide

/-- **An exit leaves pages in the swap file.** -/
theorem exit_not_releases : ¬ ∀ (s : System) (next : Option Nat),
    Reach SystemStarted Admitted (execStep System.act) s → Admitted s (.event (.exit next)) →
    ∃ s', s.act (.event (.exit next)) = some s' ∧
      ReleasesAll s.machine.thread s.machine s'.machine := by
  intro releases
  obtain ⟨s, reached, admitted, swapped⟩ := exists_swapped
  obtain ⟨s', taken, all⟩ := releases s (some 2) reached admitted
  obtain ⟨s'', taken', exited⟩ := exit_returns s (some 2)
  cases Option.some.inj (taken'.symm.trans taken)
  exact swapped ((exited.releases_iff (sound_of_acts reached).well admitted.running).mp all)

end OS2017.Paging
