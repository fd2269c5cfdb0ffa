/-
**Free frames that can be accessed.**

Free frames are open in the beginning. An exit leaves the frames it frees protected, since the switch
that follows protects all frames with the old thread's id, free or not. The free frames that are open are
those no page has been in: they are the last ones, and as long as there is one the swap file is empty
(`Tidy`). Every act leaves it so, whatever the threads do (`tidy_of_acts`).
-/

import OS2017.Paging.Exits

namespace OS2017.Paging

open OS2017.Bytes OS2017.Heap OS2017.Run

/-- A free frame that can be accessed. -/
structure OpenFree (m : Machine) (j : Nat) : Prop where
  inside : j < USER_PAGES
  isFree : getPageIsF (m.pages j) = 1
  accessible : m.accessible j = true

/-- **The free frames that are open are the last ones**, and with one the swap file is empty. -/
structure Tidy (m : Machine) : Prop where
  behind : ∀ {j k}, OpenFree m j → j < k → k < USER_PAGES → OpenFree m k
  slots : ∀ {j}, OpenFree m j → ∀ i < DISK_PAGES, getPageIsF (m.diskPages i) = 1

/-- The same free frames are open, and the swap file stays empty with one. -/
structure SameOpen (m m' : Machine) : Prop where
  frames : ∀ j, OpenFree m' j ↔ OpenFree m j
  slots : ∀ j, OpenFree m j → ∀ i < DISK_PAGES, m'.diskPages i = m.diskPages i

section Machines

variable {live : Nat → Bool} {threadNum : Nat} {m m' : Machine}

theorem Tidy.of_same (tidy : Tidy m) (same : SameOpen m m') : Tidy m' where
  behind := fun {j k} isOpen before inside =>
    (same.frames k).mpr (tidy.behind ((same.frames j).mp isOpen) before inside)
  slots := fun {j} isOpen i inside => by
    have before := (same.frames j).mp isOpen
    rw [same.slots j before i inside]
    exact tidy.slots before i inside

/-- Other bytes and another timer make no difference. -/
theorem SameOpen.of_eq (pages : m'.pages = m.pages) (diskPages : m'.diskPages = m.diskPages)
    (accessible : m'.accessible = m.accessible) : SameOpen m m' := by
  refine ⟨fun j => ?_, fun _ _ i _ => congrFun diskPages i⟩
  constructor
  · rintro ⟨inside, isFree, reachable⟩
    exact ⟨inside, pages ▸ isFree, accessible ▸ reachable⟩
  · rintro ⟨inside, isFree, reachable⟩
    exact ⟨inside, pages.symm ▸ isFree, accessible.symm ▸ reachable⟩

/-- No frame in use is among them. -/
theorem OpenFree.not_labels {j t k : Nat} (isOpen : OpenFree m j) (label : Labels (m.pages j) t k) :
    False := by
  have isFree := isOpen.isFree
  rw [label.used] at isFree
  cases isFree

/-- **A live thread's pages are before the open free frames.** -/
theorem Tidy.pageNum_le (tidy : Tidy m) (labelled : Labelled live threadNum m.pageNum m.entry)
    {t i : Nat} (alive : live t = true) (isOpen : OpenFree m i) : m.pageNum t ≤ i := by
  have frames : pagesOf m.entry t ⊆ (Finset.range i).image Place.frame := by
    intro place member
    obtain ⟨inside, used, _⟩ := mem_pagesOf.mp member
    cases place with
    | slot j =>
      have isFree := tidy.slots isOpen j inside
      rw [show m.entry (.slot j) = m.diskPages j from rfl, isFree] at used
      cases used
    | frame j =>
      refine Finset.mem_image_of_mem _ (Finset.mem_range.mpr ?_)
      by_contra notBefore
      rcases Nat.eq_or_lt_of_le (Nat.le_of_not_lt notBefore) with rfl | behind
      · rw [show m.entry (.frame i) = m.pages i from rfl, isOpen.isFree] at used
        cases used
      · have isFree := (tidy.behind isOpen behind inside).isFree
        rw [show m.entry (.frame j) = m.pages j from rfl, isFree] at used
        cases used
  calc m.pageNum t = (pagesOf m.entry t).card := (labelled.card_pagesOf alive).symm
    _ ≤ ((Finset.range i).image Place.frame).card := Finset.card_le_card frames
    _ ≤ (Finset.range i).card := Finset.card_image_le
    _ = i := Finset.card_range i

/-! ### Accesses -/

/-- **A fault opens no free frame, and closes none.** -/
theorem Fetched.sameOpen {k : Nat} {place : Place} (fetched : Fetched k place m m') (tidy : Tidy m)
    (closed : m.accessible k = false) (valid : place.Valid) {t : Nat}
    (label : Labels (m.entry place) t k) : SameOpen m m' := by
  have atHome : m'.pages k = m.entry place := by
    show m'.entry (.frame k) = _
    rw [fetched.entry, Function.comp_apply, Equiv.swap_apply_left]
  have notK : ∀ {j}, OpenFree m j → j ≠ k := by
    rintro j isOpen rfl
    rw [isOpen.accessible] at closed
    cases closed
  have notK' : ∀ {j}, OpenFree m' j → j ≠ k := by
    rintro j isOpen rfl
    refine isOpen.not_labels (t := t) (k := j) ?_
    rw [atHome]
    exact label
  cases place with
  | slot i =>
    have none : ∀ j, ¬ OpenFree m j := fun j isOpen => by
      have isFree := tidy.slots isOpen i valid
      rw [show m.diskPages i = m.entry (.slot i) from rfl, label.used] at isFree
      cases isFree
    refine ⟨fun j => ⟨fun isOpen => ?_, fun isOpen => absurd isOpen (none j)⟩,
      fun j isOpen => absurd isOpen (none j)⟩
    have other := notK' isOpen
    have entry : m'.pages j = m.pages j := by
      show m'.entry (.frame j) = m.entry (.frame j)
      rw [fetched.entry, Function.comp_apply,
        Equiv.swap_apply_of_ne_of_ne (by simp [other]) (by simp)]
    have reachable := isOpen.accessible
    rw [fetched.accessible, Function.update_of_ne other] at reachable
    exact ⟨isOpen.inside, entry ▸ isOpen.isFree, reachable⟩
  | frame i =>
    have slots : ∀ d, m'.diskPages d = m.diskPages d := by
      intro d
      show m'.entry (.slot d) = m.entry (.slot d)
      rw [fetched.entry, Function.comp_apply, Equiv.swap_apply_of_ne_of_ne (by simp) (by simp)]
    have accessible : ∀ {j}, j ≠ k → j ≠ i → m'.accessible j = m.accessible j := by
      intro j other away
      rw [fetched.accessible, Function.update_of_ne other]
      exact Function.update_of_ne away _ _
    have entry : ∀ {j}, j ≠ k → j ≠ i → m'.pages j = m.pages j := by
      intro j other away
      show m'.entry (.frame j) = m.entry (.frame j)
      rw [fetched.entry, Function.comp_apply,
        Equiv.swap_apply_of_ne_of_ne (by simp [other]) (by simp [away])]
    have notI : ∀ {j}, OpenFree m j → j ≠ i := by
      rintro j isOpen rfl
      exact isOpen.not_labels label
    have notI' : ∀ {j}, OpenFree m' j → j ≠ i := by
      rintro j isOpen rfl
      have reachable := isOpen.accessible
      rw [fetched.accessible, Function.update_of_ne (notK' isOpen)] at reachable
      change Function.update m.accessible j false j = true at reachable
      rw [Function.update_self] at reachable
      cases reachable
    refine ⟨fun j => ⟨fun isOpen => ?_, fun isOpen => ?_⟩, fun _ _ d _ => slots d⟩
    · have other := notK' isOpen
      have away := notI' isOpen
      exact ⟨isOpen.inside, entry other away ▸ isOpen.isFree,
        (accessible other away).symm.trans isOpen.accessible⟩
    · have other := notK isOpen
      have away := notI isOpen
      exact ⟨isOpen.inside, (entry other away).symm ▸ isOpen.isFree,
        (accessible other away).trans isOpen.accessible⟩

theorem touch_sameOpen (labelled : Labelled live threadNum m.pageNum m.entry)
    (alive : live m.thread = true) (tidy : Tidy m) {k : Nat} (ran : touch k m = some ((), m')) :
    SameOpen m m' := by
  obtain ⟨_, ⟨_, rfl⟩ | ⟨closed, place, found, fetched⟩⟩ := touch_run ran
  · exact .of_eq rfl rfl rfl
  · obtain ⟨valid, label⟩ := (located_iff labelled alive).mp found
    exact fetched.sameOpen tidy closed valid label

/-! ### `alignPages` -/

theorem homeward_of_not {indices : List Nat} {i : Nat} (stays : ¬ (i ∈ indices ∧ swappedAt m i)) :
    homeward m indices (.frame i) = .frame i ∧ homeward m indices (.slot i) = .slot i :=
  ⟨if_neg stays, if_neg stays⟩

/-- What `alignPages` does to a free frame: nothing. -/
theorem alignPages_frame (labelled : Labelled live threadNum m.pageNum m.entry)
    (alive : live m.thread = true) (ran : alignPages m = some ((), m')) {j : Nat}
    (inside : j < USER_PAGES) (isFree : getPageIsF (m'.pages j) = 1) :
    m'.pages j = m.pages j ∧ m'.accessible j = m.accessible j := by
  obtain ⟨slots, _, fetches⟩ := (alignPages_run (alignPages_inside ran)).of_run ran
  have entry : m'.pages j = m.entry (homeward (opened m (List.range USER_PAGES)) slots (.frame j)) :=
    fetches.entry (.frame j)
  have notFetched : ¬ (j ∈ slots ∧ swappedAt (opened m (List.range USER_PAGES)) j) := by
    intro fetched
    have slot : homeward (opened m (List.range USER_PAGES)) slots (.frame j) = .slot j := if_pos fetched
    rw [slot] at entry
    have used : getPageIsF (m'.pages j) = 0 := entry ▸ fetched.2.1
    rw [used] at isFree
    cases isFree
  rw [(homeward_of_not notFetched).1] at entry
  have same : m'.pages j = m.pages j := entry
  rw [same] at isFree
  have foreign : ¬ atHome m j := fun home =>
    labelled.stale (.frame j) inside isFree m.thread alive home.1
  refine ⟨same, ?_⟩
  rw [fetches.accessible, decide_eq_false notFetched, Bool.or_false]
  show (m.accessible j || (decide (j ∈ List.range USER_PAGES) && decide (atHome m j))) = _
  rw [decide_eq_false foreign, Bool.and_false, Bool.or_false]

/-- As long as a free frame is open, no slot is fetched. -/
theorem alignPages_still (tidy : Tidy m) (ran : alignPages m = some ((), m')) {i : Nat}
    (isOpen : OpenFree m i) : m'.entry = m.entry := by
  obtain ⟨slots, member, fetches⟩ := (alignPages_run (alignPages_inside ran)).of_run ran
  have none : ∀ d, ¬ (d ∈ slots ∧ swappedAt (opened m (List.range USER_PAGES)) d) := by
    rintro d ⟨inside, used, _⟩
    rw [show (opened m (List.range USER_PAGES)).diskPages d = m.diskPages d from rfl,
      tidy.slots isOpen d ((member d).mp inside)] at used
    cases used
  funext place
  rw [fetches.entry]
  cases place with
  | frame d =>
    rw [(homeward_of_not (none d)).1]
    rfl
  | slot d =>
    rw [(homeward_of_not (none d)).2]
    rfl

theorem alignPages_sameOpen (labelled : Labelled live threadNum m.pageNum m.entry)
    (alive : live m.thread = true) (tidy : Tidy m) (ran : alignPages m = some ((), m')) :
    SameOpen m m' := by
  refine ⟨fun j => ⟨fun isOpen => ?_, fun isOpen => ?_⟩, fun j isOpen i _ => ?_⟩
  · obtain ⟨pages, accessible⟩ := alignPages_frame labelled alive ran isOpen.inside isOpen.isFree
    exact ⟨isOpen.inside, pages ▸ isOpen.isFree, accessible ▸ isOpen.accessible⟩
  · have pages : m'.pages j = m.pages j := congrFun (alignPages_still tidy ran isOpen) (.frame j)
    have isFree : getPageIsF (m'.pages j) = 1 := pages ▸ isOpen.isFree
    obtain ⟨_, accessible⟩ := alignPages_frame labelled alive ran isOpen.inside isFree
    exact ⟨isOpen.inside, isFree, accessible.trans isOpen.accessible⟩
  · exact congrFun (alignPages_still tidy ran isOpen) (.slot i)

/-! ### New pages -/

/-- **One open free frame is taken**, the first one, or a frame before all of them. -/
structure Taken (f : Nat) (m m' : Machine) : Prop where
  frames : ∀ j, OpenFree m' j ↔ OpenFree m j ∧ j ≠ f
  first : ∀ j, OpenFree m j → f ≤ j
  slots : ∀ j, OpenFree m j → ∀ i < DISK_PAGES, m'.diskPages i = m.diskPages i

theorem Tidy.of_taken {f : Nat} (tidy : Tidy m) (taken : Taken f m m') : Tidy m' where
  behind := fun {j k} isOpen before inside => by
    obtain ⟨old, other⟩ := (taken.frames j).mp isOpen
    have above := taken.first j old
    exact (taken.frames k).mpr ⟨tidy.behind old before inside, by omega⟩
  slots := fun {j} isOpen i inside => by
    have old := ((taken.frames j).mp isOpen).1
    rw [taken.slots j old i inside]
    exact tidy.slots old i inside

/-- **A page is made before the open free frames.** -/
theorem Tidy.claimed_le (tidy : Tidy m) (labelled : Labelled live threadNum m.pageNum m.entry)
    (alive : live m.thread = true) {index first : Nat} (claimed : Claimed m index)
    (isOpen : OpenFree m first) : index ≤ first := by
  rcases claimed with rfl | ⟨rfl, _⟩
  · exact tidy.pageNum_le labelled alive isOpen
  · exact Nat.zero_le _

/-- The new page is in its frame, and the other frames are as they were. -/
theorem Initialized.elsewhere {m₁ m₂ : Machine} {index j : Nat} (new : Initialized index m₁ m₂)
    (labelled : Labelled live threadNum m.pageNum m.entry) (alive : live m.thread = true)
    (claimed : Claimed m index) (thread : m₁.thread = m.thread) (pageNum : m₁.pageNum = m.pageNum)
    (other : j ≠ index) : m₂.pages j = m₁.pages j ∧ m₂.accessible j = m₁.accessible j := by
  refine ⟨by rw [new.pages, Function.update_of_ne other], ?_⟩
  rcases new.heap with ⟨_, _, accessible⟩ | ⟨zero, accessible, _⟩
  · rw [accessible]
  · -- page `0` is the first of its thread, and in frame `0`
    have label := (labelled.newEntry alive (m₁.pages index)).pgID
    rw [thread, pageNum] at zero
    rw [zero] at label
    have first : index = 0 := by
      rcases claimed with next | ⟨here, _⟩
      · exact next.trans label.symm
      · exact here
    rw [accessible, Function.update_of_ne (first ▸ other)]

/-- **Of the open free frames, the new page takes its own.** -/
theorem Initialized.openFree_iff {m₁ m₂ : Machine} {index : Nat} (new : Initialized index m₁ m₂)
    (labelled : Labelled live threadNum m.pageNum m.entry) (alive : live m.thread = true)
    (claimed : Claimed m index) (thread : m₁.thread = m.thread) (pageNum : m₁.pageNum = m.pageNum)
    (j : Nat) : OpenFree m₂ j ↔ OpenFree m₁ j ∧ j ≠ index := by
  by_cases here : j = index
  · subst here
    refine ⟨fun isOpen => ?_, fun both => absurd rfl both.2⟩
    have isFree := isOpen.isFree
    rw [new.pages, Function.update_self, newEntry_isF] at isFree
    cases isFree
  · obtain ⟨pages, accessible⟩ := new.elsewhere labelled alive claimed thread pageNum here
    refine ⟨fun isOpen => ⟨⟨isOpen.inside, pages ▸ isOpen.isFree, accessible ▸ isOpen.accessible⟩, here⟩,
      fun both => ⟨both.1.inside, ?_, ?_⟩⟩
    · rw [pages]
      exact both.1.isFree
    · rw [accessible]
      exact both.1.accessible

/-- The same entry and the same protection. -/
theorem openFree_congr {j : Nat} (pages : m'.pages j = m.pages j)
    (accessible : m'.accessible j = m.accessible j) : OpenFree m' j ↔ OpenFree m j :=
  ⟨fun isOpen => ⟨isOpen.inside, pages ▸ isOpen.isFree, accessible ▸ isOpen.accessible⟩,
    fun isOpen => ⟨isOpen.inside, pages.symm ▸ isOpen.isFree, accessible.symm ▸ isOpen.accessible⟩⟩

/-- A frame that is protected, before and after. -/
theorem openFree_closed {j : Nat} (closed' : m'.accessible j = false)
    (none : ¬ OpenFree m j) : OpenFree m' j ↔ OpenFree m j := by
  refine ⟨fun isOpen => ?_, fun isOpen => absurd isOpen none⟩
  cases closed'.symm.trans isOpen.accessible

/-- **The copy of `moveToFreeSpace` without a fault** takes the frame it writes. -/
theorem taken_copied {m₂ : Machine} {index i : Nat} (tidy : Tidy m)
    (labelled : Labelled live threadNum m.pageNum m.entry) (alive : live m.thread = true)
    (claimed : Claimed m index) (found : freeFrame m = some i) (reachable : m.accessible i = true)
    (new : Initialized index (copied (doubled m index i) index i) m₂) : Taken i m m₂ := by
  obtain ⟨within, isFree, before⟩ := freeFrame_eq_some found
  have above : index ≤ i := tidy.claimed_le labelled alive claimed ⟨within, isFree, reachable⟩
  refine ⟨fun j => ?_, fun j other => ?_, fun j _ d _ => by rw [new.diskPages]; rfl⟩
  · rw [new.openFree_iff labelled alive claimed rfl rfl]
    by_cases here : j = index
    · refine ⟨fun both => absurd here both.2, fun both => absurd both.1.isFree (before j ?_)⟩
      omega
    · by_cases same : j = i
      · refine ⟨fun both => ?_, fun both => absurd same both.2⟩
        have closed : (copied (doubled m index i) index i).accessible j = false := by
          rw [same]
          exact Function.update_self _ _ _
        cases closed.symm.trans both.1.accessible
      · have pages : (copied (doubled m index i) index i).pages j = m.pages j :=
          (Function.update_of_ne here _ _).trans (Function.update_of_ne same _ _)
        have accessible : (copied (doubled m index i) index i).accessible j = m.accessible j :=
          (Function.update_of_ne same _ _).trans (Function.update_of_ne here _ _)
        rw [openFree_congr pages accessible]
        exact and_congr_right fun _ => ⟨fun _ => same, fun _ => here⟩
  · by_contra notAbove
    exact before j (by omega) other.isFree

/-- The page that the handler finds for the copy is in a frame in use, or in the swap file. -/
theorem located_doubled_not_openFree {index i j : Nat} (tidy : Tidy m)
    (labelled : Labelled live threadNum m.pageNum m.entry) (alive : live m.thread = true)
    {place : Place} (source : located (doubled m index i) i = some place) :
    (∀ d, place = .slot d → ¬ OpenFree m j) ∧ (place = .frame j → j ≠ i → ¬ OpenFree m j) := by
  unfold located at source
  cases frame : frameOf (doubled m index i) i with
  | some p =>
    rw [frame] at source
    cases source
    refine ⟨fun d impossible => (by cases impossible), ?_⟩
    rintro same other isOpen
    cases same
    obtain ⟨_, thID, _⟩ := frameOf_eq_some frame
    rw [show (doubled m index i).pages j = m.pages j from Function.update_of_ne other _ _] at thID
    exact labelled.stale (.frame j) isOpen.inside isOpen.isFree _ alive thID
  | none =>
    rw [frame] at source
    obtain ⟨p, slot, rfl⟩ := Option.map_eq_some_iff.mp source
    refine ⟨fun _ _ isOpen => ?_, fun impossible => (by cases impossible)⟩
    obtain ⟨inside, label⟩ := slotOf_eq_some slot
    have used := label.used
    rw [show (doubled m index i).diskPages p = m.diskPages p from rfl, tidy.slots isOpen p inside] at used
    cases used

/-- **With a fault** it takes none of them: the frame it writes was protected, and stays so. -/
theorem taken_fetched {m₁ m₂ : Machine} {index i : Nat} {place : Place} (tidy : Tidy m)
    (labelled : Labelled live threadNum m.pageNum m.entry) (alive : live m.thread = true)
    (claimed : Claimed m index) (closed : m.accessible i = false)
    (source : located (doubled m index i) i = some place)
    (fetched : Fetched i place (doubled m index i) m₁)
    (new : Initialized index (copied m₁ index i) m₂) : Taken index m m₂ := by
  have foreign := fun j => located_doubled_not_openFree (j := j) tidy labelled alive source
  refine ⟨fun j => ?_, fun j isOpen => tidy.claimed_le labelled alive claimed isOpen,
    fun j isOpen d _ => ?_⟩
  · rw [new.openFree_iff labelled alive claimed fetched.thread fetched.pageNum]
    refine and_congr_left fun here => ?_
    by_cases same : j = i
    · refine openFree_closed ?_ fun isOpen => ?_
      · rw [same]
        exact Function.update_self _ _ _
      · cases closed.symm.trans (same ▸ isOpen.accessible)
    · have reach : (copied m₁ index i).accessible j = m₁.accessible j := Function.update_of_ne same _ _
      rw [fetched.accessible, Function.update_of_ne same] at reach
      have before : (doubled m index i).accessible j = m.accessible j := Function.update_of_ne here _ _
      by_cases there : place = .frame j
      · subst there
        exact openFree_closed (reach.trans (Function.update_self _ _ _)) ((foreign j).2 rfl same)
      · refine openFree_congr ?_ (reach.trans ?_)
        · have permuted : m₁.pages j = (doubled m index i).entry (Equiv.swap (.frame i) place (.frame j)) :=
            congrFun fetched.entry (.frame j)
          rw [Equiv.swap_apply_of_ne_of_ne (by simp [same]) (Ne.symm there)] at permuted
          exact (Function.update_of_ne here _ _).trans (permuted.trans (Function.update_of_ne same _ _))
        · cases place with
          | slot d => exact before
          | frame p =>
            have apart : j ≠ p := fun equal => there (by rw [equal])
            exact (Function.update_of_ne apart _ _).trans before
  · rw [new.diskPages]
    show m₁.entry (.slot d) = m.entry (.slot d)
    rw [fetched.entry, Function.comp_apply]
    cases place with
    | slot p => exact absurd isOpen ((foreign j).1 p rfl)
    | frame p =>
      rw [Equiv.swap_apply_of_ne_of_ne (by simp) (by simp)]
      rfl

/-- **A new page takes at most one open free frame.** -/
theorem Tidy.taken {m₁ m₂ : Machine} {index : Nat} (tidy : Tidy m)
    (labelled : Labelled live threadNum m.pageNum m.entry) (alive : live m.thread = true)
    (claimed : Claimed m index) (room : makeRoom index m = some (true, m₁))
    (new : Initialized index m₁ m₂) : ∃ f, Taken f m m₂ := by
  have above : ∀ j, OpenFree m j → index ≤ j := fun j isOpen =>
    tidy.claimed_le labelled alive claimed isOpen
  obtain ⟨moved, m', first, rest⟩ := run_bind room
  obtain ⟨inside, ⟨full, rfl, rfl⟩ | ⟨found, rfl, rfl⟩ | ⟨i, other, found, rfl, s, touched, rfl⟩⟩ :=
    moveToFreeSpace_run first
  · -- there is no free frame, before and after
    obtain ⟨_, ⟨_, different, _⟩ | ⟨d, _, _, rfl⟩⟩ := moveToDiskSpace_run rest
    · cases different
    · have none : ∀ j, ¬ OpenFree m' j := fun j isOpen =>
        freeFrame_eq_none full isOpen.inside isOpen.isFree
      refine ⟨index, fun j => ?_, above, fun j isOpen => absurd isOpen (none j)⟩
      rw [new.openFree_iff labelled alive claimed rfl rfl]
      refine and_congr_left fun here => openFree_congr ?_ ?_
      · exact Function.update_of_ne here _ _
      · exact Function.update_of_ne here _ _
  · -- the first free frame is taken
    cases rest
    refine ⟨index, fun j => new.openFree_iff labelled alive claimed rfl rfl j, above,
      fun j _ d _ => by rw [new.diskPages]⟩
  · -- the page in the frame moves to the first free one
    cases rest
    have apart := located_doubled labelled alive inside claimed.claimable other
    obtain ⟨reachable, rfl⟩ | ⟨closed, place, _, source, fetched⟩ :=
      touchBoth_doubled other apart touched
    · exact ⟨i, taken_copied tidy labelled alive claimed found reachable new⟩
    · exact ⟨index, taken_fetched tidy labelled alive claimed closed source fetched new⟩

theorem Tidy.of_eq (tidy : Tidy m) (pages : m'.pages = m.pages) (diskPages : m'.diskPages = m.diskPages)
    (accessible : m'.accessible = m.accessible) : Tidy m' :=
  tidy.of_same (.of_eq pages diskPages accessible)

end Machines

/-- **A call keeps a machine tidy.** -/
theorem tidy_parts : KeptByParts makeRoom (KeepsWith Tidy) where
  composes := keepsWith_composes Tidy
  timer := fun _ _ _ _ labelled _ => ⟨⟨labelled, rfl⟩, fun tidy => Tidy.of_eq tidy rfl rfl rfl⟩
  frames := fun _ _ _ _ labelled _ => ⟨⟨labelled, rfl⟩, fun tidy => Tidy.of_eq tidy rfl rfl rfl⟩
  touch := fun k m _ m' ran live threadNum labelled alive =>
    ⟨(keeps_touch k m () m' ran).keepsLabels live threadNum labelled alive, fun tidy =>
      tidy.of_same (touch_sameOpen labelled alive tidy ran)⟩
  alignPages := fun m _ m' ran live threadNum labelled alive =>
    ⟨(keeps_alignPages m () m' ran).keepsLabels live threadNum labelled alive, fun tidy =>
      tidy.of_same (alignPages_sameOpen labelled alive tidy ran)⟩
  newPage := fun claimed room new live threadNum labelled alive => by
    obtain ⟨inside, ⟨_, vacated⟩ | ⟨other, _⟩⟩ := makeRoom_run labelled alive claimed.claimable room
    · have initialized := (initializePage_spec _ inside).of_run new
      refine ⟨vacated.initializes labelled alive inside initialized, fun tidy => ?_⟩
      obtain ⟨f, taken⟩ := tidy.taken labelled alive claimed room initialized
      exact tidy.of_taken taken
    · cases other
  noRoom := fun claimed room live threadNum labelled alive => by
    refine ⟨keepsLabels_noRoom claimed.claimable room live threadNum labelled alive, fun tidy => ?_⟩
    obtain ⟨moved, m', first, rest⟩ := run_bind room
    obtain ⟨_, ⟨_, rfl, rfl⟩ | ⟨_, rfl, _⟩ | ⟨_, _, _, rfl, _⟩⟩ := moveToFreeSpace_run first
    · obtain ⟨_, ⟨_, _, rfl⟩ | ⟨_, _, different, _⟩⟩ := moveToDiskSpace_run rest
      · exact tidy.of_eq rfl rfl rfl
      · cases different
    · cases rest
    · cases rest

/-! ### Switches and exits -/

section Switches

variable {live : Nat → Bool} {threadNum next : Nat} {m m' : Machine}

/-- An open free frame is no thread's that lives. -/
theorem OpenFree.foreign {j t : Nat} (isOpen : OpenFree m j)
    (labelled : Labelled live threadNum m.pageNum m.entry) (alive : live t = true) :
    (getPageThID (m.pages j)).toNat ≠ t :=
  labelled.stale (.frame j) isOpen.inside isOpen.isFree t alive

/-- **A switch protects frames in use.** -/
theorem Switched.sameOpen (switched : Switched next m m')
    (labelled : Labelled live threadNum m.pageNum m.entry) (alive : live m.thread = true) :
    SameOpen m m' := by
  have accessible : ∀ {j}, (getPageThID (m.pages j)).toNat ≠ m.thread →
      m'.accessible j = m.accessible j := by
    intro j foreign
    rw [switched.accessible]
    split
    · exact if_neg fun both => foreign both.2
    · rfl
  refine ⟨fun j => ⟨fun isOpen => ?_, fun isOpen => ?_⟩, fun _ _ i _ => congrFun switched.diskPages i⟩
  · have isFree : getPageIsF (m.pages j) = 1 := switched.pages ▸ isOpen.isFree
    have foreign := labelled.stale (.frame j) isOpen.inside isFree _ alive
    exact ⟨isOpen.inside, isFree, (accessible foreign).symm.trans isOpen.accessible⟩
  · refine ⟨isOpen.inside, switched.pages.symm ▸ isOpen.isFree, ?_⟩
    exact (accessible (isOpen.foreign labelled alive)).trans isOpen.accessible

/-- **The frames an exit frees are protected by the switch behind it.** -/
theorem Switched.sameOpen_released (switched : Switched next (released m) m') (other : next ≠ m.thread)
    (labelled : Labelled live threadNum m.pageNum m.entry) (alive : live m.thread = true) :
    SameOpen m m' := by
  have accessible : ∀ j < USER_PAGES, m'.accessible j =
      if (getPageThID (m.pages j)).toNat = m.thread then false else m.accessible j := by
    intro j inside
    have thID : getPageThID ((released m).pages j) = getPageThID (m.pages j) :=
      released_thID m (.frame j)
    rw [switched.accessible, if_pos (show next ≠ (released m).thread from other)]
    show (if j < USER_PAGES ∧ (getPageThID ((released m).pages j)).toNat = m.thread then false
      else if j < USER_PAGES ∧ (getPageThID (m.pages j)).toNat = m.thread then true
        else m.accessible j) = _
    rw [thID]
    by_cases mine : (getPageThID (m.pages j)).toNat = m.thread
    · rw [if_pos ⟨inside, mine⟩, if_pos mine]
    · rw [if_neg fun both => mine both.2, if_neg fun both => mine both.2, if_neg mine]
  have pages : ∀ {j}, (getPageThID (m.pages j)).toNat ≠ m.thread → m'.pages j = m.pages j := by
    intro j foreign
    rw [switched.pages]
    exact released_entry_of_not fun both => foreign both.2
  refine ⟨fun j => ⟨fun isOpen => ?_, fun isOpen => ?_⟩, fun _ _ i _ => congrFun switched.diskPages i⟩
  · have reachable := isOpen.accessible
    rw [accessible j isOpen.inside] at reachable
    by_cases mine : (getPageThID (m.pages j)).toNat = m.thread
    · rw [if_pos mine] at reachable
      cases reachable
    · rw [if_neg mine] at reachable
      exact ⟨isOpen.inside, pages mine ▸ isOpen.isFree, reachable⟩
  · have foreign := isOpen.foreign labelled alive
    refine ⟨isOpen.inside, (pages foreign).symm ▸ isOpen.isFree, ?_⟩
    rw [accessible j isOpen.inside, if_neg foreign]
    exact isOpen.accessible

end Switches

/-! ### Runs -/

/-- While there is a thread that runs, the machine is tidy. -/
def TidySystem (s : System) : Prop :=
  SoundTables s ∧ (s.live s.machine.thread = true → Tidy s.machine)

/-- **One act keeps the system tidy.** -/
theorem TidySystem.step {s s' : System} {a : Act} (inv : TidySystem s) (admitted : Admitted s a)
    (taken : s.act a = some s') : TidySystem s' := by
  obtain ⟨sound, tidy⟩ := inv
  have running := admitted.running
  replace tidy := tidy running
  refine ⟨sound.step admitted taken, fun alive' => ?_⟩
  cases a with
  | store address word =>
    obtain ⟨_, m', ran, rfl⟩ := System.call_run taken
    exact ((tidy_parts.store _ _ _ _ _ ran) _ _ sound.well running).2 tidy
  | event e =>
    change s.next e = some s' at taken
    cases e with
    | allocate size =>
      obtain ⟨result, m', ran, rfl⟩ := System.call_run taken
      exact ((tidy_parts.myallocate size s.machine result m' ran) _ _ sound.well running).2 tidy
    | access address =>
      obtain ⟨_, m', ran, rfl⟩ := System.call_run taken
      exact tidy.of_same (touch_sameOpen sound.well running tidy ran)
    | switch next =>
      obtain ⟨_, m', ran, rfl⟩ := System.call_run taken
      exact tidy.of_same ((switchTo_run ran).sameOpen sound.well running)
    | exit next =>
      obtain ⟨_, m', ran, rfl⟩ := System.call_run taken
      rw [freePages, change_run] at ran
      cases next with
      | none =>
        cases ran
        change Function.update s.live s.machine.thread false s.machine.thread = true at alive'
        rw [Function.update_self] at alive'
        cases alive'
      | some next =>
        exact tidy.of_same ((switchTo_run ran).sameOpen_released admitted.2.2 sound.well running)
    | create =>
      cases taken
      exact tidy.of_eq rfl rfl rfl

/-- The machine is tidy in the beginning. -/
theorem SystemStarted.tidy {s : System} (started : SystemStarted s) : TidySystem s := by
  refine ⟨started.sound, fun _ => ⟨fun {j k} _ _ inside => ⟨inside, ?_, started.accessible k⟩,
    fun _ i _ => ?_⟩⟩
  · rw [started.pages]
    decide
  · rw [started.diskPages]
    decide

/-- **The machine is tidy along every run.** -/
theorem tidy_of_acts {s : System} (reached : Reach SystemStarted Admitted (execStep System.act) s) :
    TidySystem s :=
  reached.invariant TidySystem (fun _ started => started.tidy)
    fun _ _ _ inv admitted taken => inv.step admitted taken

end OS2017.Paging
