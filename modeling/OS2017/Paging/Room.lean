/-
**Making room for a page, and the new page.**

`moveToFreeSpace` copies the page in a frame to a free frame, `moveToDiskSpace` to a free slot;
`initializePage` then labels the frame. Between the two calls the frame still carries the old label,
with the free flag; apart from that the entries are a permutation of what they were (`Vacated`).
The copy of `moveToFreeSpace` can fault, while the label it moves is in both frames.
-/

import OS2017.Paging.Faults

namespace OS2017.Paging

open OS2017.Bytes OS2017.Heap

/-! ### Accesses to open frames -/

/-- A machine that differs in the frames' bytes only. -/
def SameBut (m s : Machine) : Prop := s = { m with frames := s.frames }

theorem touch_open {m : Machine} {k : Nat} (inside : k < USER_PAGES)
    (reachable : m.accessible k = true) : touch k m = some ((), m) := by
  rw [touch, if_pos inside, look_run, reachable, if_pos rfl]
  rfl

theorem touchBoth_open {m : Machine} {j k : Nat} (first : j < USER_PAGES) (second : k < USER_PAGES)
    (openFirst : m.accessible j = true) (openSecond : m.accessible k = true) :
    touchBoth j k m = some ((), m) := by
  have left := touch_open first openFirst
  have right := touch_open second openSecond
  show (touch j m).bind (fun p => ((touch k >>= fun _ => touch j) : StateT Machine Option Unit) p.2)
    = _
  rw [left, Option.bind_some]
  show (touch k m).bind (fun p => touch j p.2) = _
  rw [right, Option.bind_some, left]

/-- **Where all frames are open, the accesses are those of plain memory.** -/
theorem paged_open (m : Machine) (extent : Nat) (inside : extent ≤ USER_PAGES * PAGESIZE)
    (reachable : ∀ k, k * PAGESIZE < extent → m.accessible k = true) :
    Backed paged (SameBut m) (·.frames) extent := by
  have pages : ∀ {a}, a < extent → a / PAGESIZE < USER_PAGES ∧ m.accessible (a / PAGESIZE) = true := by
    intro a below
    unfold PAGESIZE at inside reachable ⊢
    exact ⟨by omega, reachable _ (by omega)⟩
  have both : ∀ {s a}, SameBut m s → a + 4 ≤ extent →
      touchBoth (a / PAGESIZE) ((a + 3) / PAGESIZE) s = some ((), s) := by
    intro s a same within
    have accessible : s.accessible = m.accessible := by rw [same]
    obtain ⟨first, openFirst⟩ := pages (a := a) (by omega)
    obtain ⟨second, openSecond⟩ := pages (a := a + 3) (by omega)
    exact touchBoth_open first second (accessible ▸ openFirst) (accessible ▸ openSecond)
  refine ⟨fun s a same within => ?_, fun s a w same within => ?_⟩
  · refine Returns.bind ⟨(), s, both same within, ?_⟩
    exact ⟨readWord s.frames a, s, rfl, rfl, same, rfl⟩
  · refine Returns.bind ⟨(), s, both same within, ?_⟩
    refine ⟨(), _, rfl, ?_, rfl⟩
    show _ = _
    rw [same]

/-! ### `initializePage` -/

/-- **The new page**: its label, one page more, and for page `0` an empty heap in frame `0`. -/
structure Initialized (index : Nat) (m m' : Machine) : Prop where
  pages : m'.pages = Function.update m.pages index
    (newEntry (m.pages index) m.thread (m.pageNum m.thread))
  diskPages : m'.diskPages = m.diskPages
  swpFile : m'.swpFile = m.swpFile
  thread : m'.thread = m.thread
  pageNum : m'.pageNum = Function.update m.pageNum m.thread (m.pageNum m.thread + 1)
  timer : m'.timer = m.timer
  heap : (getPagePgID (newEntry (m.pages index) m.thread (m.pageNum m.thread)) ≠ 0 ∧
      m'.frames = m.frames ∧ m'.accessible = m.accessible) ∨
    (getPagePgID (newEntry (m.pages index) m.thread (m.pageNum m.thread)) = 0 ∧
      m'.accessible = Function.update m.accessible 0 true ∧
      ∃ w, m'.frames = writeWord m.frames 0 w ∧ Header w ⟨PAGESIZE - BLOCK_SIZE, true⟩ false)

theorem initializePage_spec (m : Machine) {index : Nat} (inside : index < USER_PAGES) :
    Returns (initializePage index) m fun _ m' => Initialized index m m' := by
  unfold initializePage
  rw [if_pos inside]
  refine Returns.look_bind (Returns.look_bind (Returns.look_bind (Returns.change_bind ?_)))
  show Returns (if getPagePgID (newEntry (m.pages index) m.thread (m.pageNum m.thread)) = 0
    then _ else _) _ _
  by_cases first : getPagePgID (newEntry (m.pages index) m.thread (m.pageNum m.thread)) = 0
  · rw [if_pos first]
    refine Returns.change_bind ?_
    set opened : Machine := { m with
      pageNum := Function.update m.pageNum m.thread (m.pageNum m.thread + 1)
      accessible := Function.update m.accessible 0 true } with opened_eq
    have reachable : ∀ k, k * PAGESIZE < PAGESIZE → opened.accessible k = true := by
      intro k below
      have zero : k = 0 := by
        unfold PAGESIZE at below
        omega
      rw [zero]
      exact Function.update_self 0 true m.accessible
    have shows : Shows (SameBut opened) (·.frames) m.frames opened := ⟨rfl, rfl⟩
    refine Returns.bind ((freshBlock_spec (paged_open opened PAGESIZE (by decide) reachable) shows
      (by decide) (by decide)).mono ?_)
    rintro _ s ⟨w, ⟨same, frames⟩, header⟩
    refine ⟨(), _, rfl, ?_⟩
    rw [same]
    exact ⟨rfl, rfl, rfl, rfl, rfl, rfl, Or.inr ⟨first, rfl, w, frames, header⟩⟩
  · rw [if_neg first]
    exact ⟨(), _, rfl, ⟨rfl, rfl, rfl, rfl, rfl, rfl, Or.inl ⟨first, rfl, rfl⟩⟩⟩

/-! ### `moveToFreeSpace` and `moveToDiskSpace` -/

theorem freeFrame_eq_some {m : Machine} {i : Nat} (found : freeFrame m = some i) :
    i < USER_PAGES ∧ getPageIsF (m.pages i) = 1 ∧ ∀ j < i, getPageIsF (m.pages j) ≠ 1 := by
  unfold freeFrame at found
  rw [List.find?_range_eq_some] at found
  obtain ⟨isFree, inside, first⟩ := found
  refine ⟨List.mem_range.mp inside, of_decide_eq_true isFree, fun j before isFree' => ?_⟩
  have none := first j before
  simp [isFree'] at none

theorem freeFrame_eq_none {m : Machine} (full : freeFrame m = none) {i : Nat}
    (inside : i < USER_PAGES) : getPageIsF (m.pages i) ≠ 1 := by
  unfold freeFrame at full
  rw [List.find?_range_eq_none] at full
  simpa using full i inside

theorem freeSlot_eq_some {m : Machine} {i : Nat} (found : freeSlot m = some i) :
    i < DISK_PAGES ∧ getPageIsF (m.diskPages i) = 1 := by
  unfold freeSlot at found
  rw [List.find?_range_eq_some] at found
  exact ⟨List.mem_range.mp found.2.1, of_decide_eq_true found.1⟩

/-- `moveToFreeSpace` before its copy: the label is in both frames. -/
def doubled (m : Machine) (index i : Nat) : Machine :=
  { m with
    accessible := Function.update m.accessible index true
    pages := Function.update m.pages i (m.pages index) }

/-- `moveToFreeSpace` from its copy on. -/
def copied (m : Machine) (index i : Nat) : Machine :=
  { m with
    frames := copyPage m.frames m.frames i index
    pages := Function.update m.pages index (setPageIsF (m.pages index) 1)
    accessible := Function.update m.accessible i false }

/-- **What `moveToFreeSpace` does.** -/
theorem moveToFreeSpace_run {m m' : Machine} {index : Nat} {result : Bool}
    (ran : moveToFreeSpace index m = some (result, m')) : index < USER_PAGES ∧
      ((freeFrame m = none ∧ result = false ∧ m' = m) ∨
        (freeFrame m = some index ∧ result = true ∧ m' = m) ∨
        ∃ i, i ≠ index ∧ freeFrame m = some i ∧ result = true ∧
          ∃ m₂, touchBoth index i (doubled m index i) = some ((), m₂) ∧ m' = copied m₂ index i) := by
  by_cases inside : index < USER_PAGES
  · refine ⟨inside, ?_⟩
    rw [moveToFreeSpace, if_pos inside, look_run] at ran
    cases found : freeFrame m with
    | none =>
      rw [found] at ran
      cases ran
      exact Or.inl ⟨rfl, rfl, rfl⟩
    | some i =>
      rw [found] at ran
      by_cases same : i = index
      · simp only [if_pos same] at ran
        cases ran
        exact Or.inr (Or.inl ⟨by rw [same], rfl, rfl⟩)
      · simp only [if_neg same] at ran
        refine Or.inr (Or.inr ⟨i, same, rfl, ?_⟩)
        rw [mprotect, change_run, look_run, setPage, change_run] at ran
        obtain ⟨_, m₂, touched, rest⟩ := run_bind ran
        cases rest
        exact ⟨rfl, m₂, touched, rfl⟩
  · rw [moveToFreeSpace, if_neg inside] at ran
    cases ran

/-- The page moved to the slot `d`. -/
def evicted (m : Machine) (index d : Nat) : Machine :=
  { m with
    accessible := Function.update m.accessible index true
    diskPages := Function.update m.diskPages d (m.pages index)
    swpFile := copyPage m.swpFile m.frames d index
    pages := Function.update m.pages index (setPageIsF (m.pages index) 1)
    timer := ⟨m.timer.remaining, m.timer.remaining⟩ }

/-- **What `moveToDiskSpace` does.** -/
theorem moveToDiskSpace_run {m m' : Machine} {index : Nat} {result : Bool}
    (ran : moveToDiskSpace index m = some (result, m')) : index < USER_PAGES ∧
      ((freeSlot m = none ∧ result = false ∧
          m' = { m with timer := ⟨m.timer.remaining, m.timer.remaining⟩ }) ∨
        ∃ d, freeSlot m = some d ∧ result = true ∧ m' = evicted m index d) := by
  by_cases inside : index < USER_PAGES
  · refine ⟨inside, ?_⟩
    rw [moveToDiskSpace, if_pos inside, pause_timer, change_run, look_run] at ran
    have same : freeSlot { m with timer := ⟨0, m.timer.remaining⟩ } = freeSlot m := by
      unfold freeSlot
      rfl
    rw [same] at ran
    cases found : freeSlot m with
    | none =>
      rw [found] at ran
      cases ran
      exact Or.inl ⟨rfl, rfl, rfl⟩
    | some d =>
      rw [found] at ran
      cases ran
      exact Or.inr ⟨d, rfl, rfl, rfl⟩
  · rw [moveToDiskSpace, if_neg inside] at ran
    cases ran

/-! ### The tables while a frame is vacant -/

/-- **The frame is vacant**: the entries elsewhere are a permutation of the old ones, which puts a
free entry into the frame. -/
structure Vacated (index : Nat) (m m' : Machine) : Prop where
  moved : ∃ moved : Equiv.Perm Place, (∀ place, (moved place).Valid ↔ place.Valid) ∧
    getPageIsF (m.entry (moved (.frame index))) = 1 ∧
    ∀ place, place ≠ .frame index → m'.entry place = m.entry (moved place)
  thread : m'.thread = m.thread
  pageNum : m'.pageNum = m.pageNum

/-- The frame a page can be made in: the running thread's next one, or one of another thread. -/
def Claimable (m : Machine) (index : Nat) : Prop :=
  index = m.pageNum m.thread ∨ (getPageThID (m.pages index)).toNat ≠ m.thread

/-- **The page fetched into the target of the copy is not the one being moved.** -/
theorem located_doubled {live : Nat → Bool} {threadNum : Nat} {m : Machine} {index i : Nat}
    (labelled : Labelled live threadNum m.pageNum m.entry) (alive : live m.thread = true)
    (inside : index < USER_PAGES) (claimable : Claimable m index) (different : i ≠ index) :
    located (doubled m index i) i ≠ some (.frame index) := by
  intro found
  have frame : frameOf (doubled m index i) i = some index := by
    unfold located at found
    cases frame : frameOf (doubled m index i) i with
    | some j =>
      rw [frame] at found
      cases found
      rfl
    | none =>
      rw [frame] at found
      obtain ⟨j, _, other⟩ := Option.map_eq_some_iff.mp found
      cases other
  obtain ⟨_, thID, pgID, first⟩ := frameOf_eq_some frame
  have atIndex : (doubled m index i).pages index = m.pages index :=
    Function.update_of_ne different.symm _ _
  have atI : (doubled m index i).pages i = m.pages index := Function.update_self _ _ _
  rw [atIndex] at thID pgID
  -- the copy of the label in frame `i` would have been found first
  have after : index < i := by
    by_contra notAfter
    refine first i (by omega) ?_ ?_
    · rw [atI]
      exact thID
    · rw [atI]
      exact pgID
  rcases claimable with next | foreign
  · rcases labelled.flags (.frame index) inside with used | isFree
    · have := labelled.below m.thread alive i (.frame index) inside ⟨used, thID, pgID⟩
      omega
    · exact labelled.stale (.frame index) inside isFree m.thread alive thID
  · exact foreign thID

/-- The accesses of the copy: none faults, or the one to the target. -/
theorem touchBoth_doubled {m m₂ : Machine} {index i : Nat} (different : i ≠ index)
    (apart : located (doubled m index i) i ≠ some (.frame index))
    (ran : touchBoth index i (doubled m index i) = some ((), m₂)) :
    (m.accessible i = true ∧ m₂ = doubled m index i) ∨
      (m.accessible i = false ∧ ∃ place, place ≠ .frame index ∧
        located (doubled m index i) i = some place ∧ Fetched i place (doubled m index i) m₂) := by
  have openIndex : (doubled m index i).accessible index = true := Function.update_self _ _ _
  have atI : (doubled m index i).accessible i = m.accessible i := Function.update_of_ne different _ _
  obtain ⟨_, m₁, first, rest⟩ := run_bind ran
  obtain ⟨_, ⟨_, rfl⟩ | ⟨closed, _⟩⟩ := touch_run first
  · obtain ⟨_, m₃, second, third⟩ := run_bind rest
    obtain ⟨_, ⟨reachable, rfl⟩ | ⟨closed, place, found, fetched⟩⟩ := touch_run second
    · obtain ⟨_, ⟨_, rfl⟩ | ⟨closed, _⟩⟩ := touch_run third
      · exact Or.inl ⟨atI ▸ reachable, rfl⟩
      · rw [openIndex] at closed
        cases closed
    · have other : place ≠ .frame index := fun same => apart (same ▸ found)
      have still : m₃.accessible index = true := by
        rw [fetched.accessible, Function.update_of_ne different.symm]
        cases place with
        | slot j => exact openIndex
        | frame j =>
          show Function.update (doubled m index i).accessible j false index = true
          rw [Function.update_of_ne (fun same => other (by rw [same]))]
          exact openIndex
      obtain ⟨_, ⟨_, rfl⟩ | ⟨closed', _⟩⟩ := touch_run third
      · exact Or.inr ⟨atI ▸ closed, place, other, found, fetched⟩
      · rw [still] at closed'
        cases closed'
  · rw [openIndex] at closed
    cases closed

/-- **`moveToFreeSpace` vacates the frame.** -/
theorem copied_vacates {m m₂ : Machine} {index i : Nat} (inside : index < USER_PAGES)
    (different : i ≠ index) (found : freeFrame m = some i)
    (apart : located (doubled m index i) i ≠ some (.frame index))
    (ran : touchBoth index i (doubled m index i) = some ((), m₂)) :
    Vacated index m (copied m₂ index i) := by
  obtain ⟨insideI, isFree, _⟩ := freeFrame_eq_some found
  -- the label in both frames is the exchange of the two, except in the frame itself
  have double : ∀ place, place ≠ .frame index → (doubled m index i).entry place
      = m.entry (Equiv.swap (.frame i) (.frame index) place) := by
    intro place other
    cases place with
    | slot j =>
      rw [Equiv.swap_apply_of_ne_of_ne (by simp) (by simp)]
      rfl
    | frame j =>
      show Function.update m.pages i (m.pages index) j = _
      by_cases same : j = i
      · rw [same, Function.update_self, Equiv.swap_apply_left]
        rfl
      · rw [Function.update_of_ne same, Equiv.swap_apply_of_ne_of_ne (by simp [same]) other]
        rfl
  have elsewhere : ∀ place, place ≠ .frame index → (copied m₂ index i).entry place = m₂.entry place := by
    intro place other
    cases place with
    | slot j => rfl
    | frame j =>
      show Function.update m₂.pages index _ j = _
      rw [Function.update_of_ne (fun same => other (by rw [same]))]
      rfl
  rcases touchBoth_doubled different apart ran with ⟨_, rfl⟩ | ⟨_, place, other, foundPlace, fetched⟩
  · refine ⟨⟨Equiv.swap (.frame i) (.frame index), swap_valid insideI inside, ?_, fun place away => ?_⟩,
      rfl, rfl⟩
    · rw [Equiv.swap_apply_right]
      exact isFree
    · rw [elsewhere place away, double place away]
  · have validPlace := located_valid foundPlace
    have validI : (Place.frame i).Valid := insideI
    have validIndex : (Place.frame index).Valid := inside
    have fixed : Equiv.swap (.frame i) place (.frame index) = .frame index :=
      Equiv.swap_apply_of_ne_of_ne (by simp [different.symm]) other.symm
    refine ⟨⟨(Equiv.swap (.frame i) place).trans (Equiv.swap (.frame i) (.frame index)),
      fun q => ?_, ?_, fun q away => ?_⟩, fetched.thread, fetched.pageNum⟩
    · rw [Equiv.trans_apply, swap_valid validI validIndex, swap_valid validI validPlace]
    · rw [Equiv.trans_apply, fixed, Equiv.swap_apply_right]
      exact isFree
    · have moved : Equiv.swap (.frame i) place q ≠ .frame index := fun same =>
        away ((Equiv.swap (.frame i) place).injective (same.trans fixed.symm))
      rw [elsewhere q away, fetched.entry, Function.comp_apply, double _ moved, Equiv.trans_apply]

/-- **`moveToDiskSpace` vacates the frame.** -/
theorem evicted_vacates {m : Machine} {index d : Nat} (inside : index < USER_PAGES)
    (found : freeSlot m = some d) : Vacated index m (evicted m index d) := by
  obtain ⟨insideD, isFree⟩ := freeSlot_eq_some found
  refine ⟨⟨Equiv.swap (.frame index) (.slot d), swap_valid inside insideD, ?_, fun place other => ?_⟩,
    rfl, rfl⟩
  · rw [Equiv.swap_apply_left]
    exact isFree
  · cases place with
    | slot j =>
      show Function.update m.diskPages d (m.pages index) j = _
      by_cases same : j = d
      · rw [same, Function.update_self, Equiv.swap_apply_right]
        rfl
      · rw [Function.update_of_ne same, Equiv.swap_apply_of_ne_of_ne (by simp) (by simp [same])]
        rfl
    | frame j =>
      rw [Equiv.swap_apply_of_ne_of_ne other (by simp)]
      show Function.update m.pages index _ j = _
      rw [Function.update_of_ne (fun same => other (by rw [same]))]
      rfl

/-- **Making room**: the frame is vacant, or there is no free entry anywhere. -/
theorem makeRoom_run {live : Nat → Bool} {threadNum : Nat} {m m' : Machine} {index : Nat}
    {result : Bool} (labelled : Labelled live threadNum m.pageNum m.entry)
    (alive : live m.thread = true) (claimable : Claimable m index)
    (ran : makeRoom index m = some (result, m')) : index < USER_PAGES ∧
      ((result = true ∧ Vacated index m m') ∨ (result = false ∧ Permutes m m')) := by
  obtain ⟨freed, m₁, first, rest⟩ := run_bind ran
  obtain ⟨inside, ⟨_, rfl, rfl⟩ | ⟨found, rfl, rfl⟩ | ⟨i, different, found, rfl, m₂, touched, rfl⟩⟩ :=
    moveToFreeSpace_run first
  · refine ⟨inside, ?_⟩
    obtain ⟨_, ⟨_, rfl, rfl⟩ | ⟨d, slot, rfl, rfl⟩⟩ := moveToDiskSpace_run rest
    · exact Or.inr ⟨rfl, permutes_of_eq rfl rfl rfl rfl⟩
    · exact Or.inl ⟨rfl, evicted_vacates inside slot⟩
  · cases rest
    refine ⟨inside, Or.inl ⟨rfl, ⟨Equiv.refl _, fun _ => Iff.rfl, ?_, fun _ _ => rfl⟩, rfl, rfl⟩⟩
    exact (freeFrame_eq_some found).2.1
  · cases rest
    refine ⟨inside, Or.inl ⟨rfl, copied_vacates inside different found ?_ touched⟩⟩
    exact located_doubled labelled alive inside claimable different

/-- The entries with the new page in the vacant frame. -/
theorem Vacated.filled {m m₁ m' : Machine} {index : Nat} (vacated : Vacated index m m₁)
    (new : Initialized index m₁ m') : ∃ moved : Equiv.Perm Place,
    (∀ place, (moved place).Valid ↔ place.Valid) ∧ getPageIsF (m.entry (moved (.frame index))) = 1 ∧
      m'.entry = Function.update (m.entry ∘ moved) (.frame index)
        (newEntry (m₁.pages index) m.thread (m.pageNum m.thread)) := by
  obtain ⟨moved, valid, isFree, elsewhere⟩ := vacated.moved
  refine ⟨moved, valid, isFree, ?_⟩
  funext place
  by_cases here : place = .frame index
  · rw [here, Function.update_self]
    show m'.pages index = _
    rw [new.pages, Function.update_self, vacated.thread, vacated.pageNum]
  · rw [Function.update_of_ne here, Function.comp_apply, ← elsewhere place here]
    cases place with
    | slot j => exact congrFun new.diskPages j
    | frame j =>
      show m'.pages j = m₁.pages j
      rw [new.pages, Function.update_of_ne (fun same => here (by rw [same]))]

/-- The label of the new page. -/
theorem Labelled.newEntry {live : Nat → Bool} {threadNum : Nat} {m : Machine}
    (labelled : Labelled live threadNum m.pageNum m.entry) (alive : live m.thread = true)
    (pg : BitVec 32) :
    Labels (newEntry pg m.thread (m.pageNum m.thread)) m.thread (m.pageNum m.thread) := by
  have small : m.thread < 256 :=
    lt_of_lt_of_le (labelled.ids _ alive).2 labelled.small
  have fits : m.pageNum m.thread < 65536 :=
    lt_of_le_of_lt (labelled.pageNum_le alive) (by decide)
  exact ⟨newEntry_isF _ _ _, newEntry_thID _ _ small, newEntry_pgID _ small fits⟩

/-- **The new page in the vacant frame.** -/
theorem Vacated.initializes {live : Nat → Bool} {threadNum : Nat} {m m₁ m' : Machine} {index : Nat}
    (labelled : Labelled live threadNum m.pageNum m.entry) (alive : live m.thread = true)
    (inside : index < USER_PAGES) (vacated : Vacated index m m₁) (new : Initialized index m₁ m') :
    Labelled live threadNum m'.pageNum m'.entry ∧ m'.thread = m.thread := by
  obtain ⟨moved, valid, isFree, entry⟩ := vacated.filled new
  have validIndex : (Place.frame index).Valid := inside
  have filled := (labelled.permute moved valid).fill alive validIndex isFree
    (labelled.newEntry alive (m₁.pages index))
  rw [entry, new.pageNum, vacated.thread, vacated.pageNum]
  exact ⟨filled, new.thread.trans vacated.thread⟩

end OS2017.Paging
