/-
**`alignPages` and the pages of the running thread.**

`alignPages` is meant to bring the running thread's pages to their frames. Its first loop finds only
the pages that are there already, and unprotects them; its second takes a page out of the swap file
only from the slot of the page's own number. Where no label occurs twice, it does what it is meant to
exactly if every page of the thread is in the frame or in the slot of its number, and no slot beyond
the frames holds a page of its own number (`alignPages_home_iff`).
-/

import OS2017.Paging.Guards

namespace OS2017.Paging

open OS2017.Bytes OS2017.Heap

/-- No label of an entry in use occurs twice. -/
def LabelsOnce (m : Machine) : Prop :=
  ∀ t k place place', place.Valid → place'.Valid → Labels (m.entry place) t k →
    Labels (m.entry place') t k → place = place'

/-- **The running thread's pages are home**, and every other page is somewhere, as it was. -/
structure BroughtHome (m m' : Machine) : Prop where
  home : ∀ k < USER_PAGES, ∀ place, place.Valid → Labels (m.entry place) m.thread k →
    Labels (m'.pages k) m.thread k ∧ m'.accessible k = true ∧
      ∀ o < PAGESIZE, m'.content (.frame k) o = m.content place o
  others : ∀ u k place, place.Valid → Labels (m.entry place) u k →
    (u ≠ m.thread ∨ USER_PAGES ≤ k) → ∃ place', place'.Valid ∧ Labels (m'.entry place') u k ∧
      ∀ o < PAGESIZE, m'.content place' o = m.content place o

/-- **Every page of the running thread is in the frame or the slot of its number**, and no slot beyond
the frames holds the page of its own number. -/
structure NearHome (m : Machine) : Prop where
  near : ∀ k < USER_PAGES, ∀ place, place.Valid → Labels (m.entry place) m.thread k →
    place = .frame k ∨ place = .slot k
  inside : ∀ i < DISK_PAGES, swappedAt m i → i < USER_PAGES

/-! ### The first loop -/

/-- The frames that are opened: those of the running thread's pages that are there. -/
def atHome (m : Machine) (i : Nat) : Prop :=
  (getPageThID (m.pages i)).toNat = m.thread ∧ i = (getPagePgID (m.pages i)).toNat

instance (m : Machine) (i : Nat) : Decidable (atHome m i) := by
  unfold atHome
  infer_instance

/-- The machine with the frames of a list opened that are at home. -/
def opened (m : Machine) (indices : List Nat) : Machine :=
  { m with accessible := fun i => m.accessible i || (decide (i ∈ indices) && decide (atHome m i)) }

theorem alignFrames_run (indices : List Nat) (m : Machine) :
    alignFrames indices m = some ((), opened m indices) := by
  induction indices generalizing m with
  | nil =>
    have same : opened m [] = m := by
      unfold opened
      simp
    rw [same]
    rfl
  | cons i rest ih =>
    rw [alignFrames, look_run, look_run]
    by_cases home : atHome m i
    · have test := home
      unfold atHome at test
      rw [if_pos test, ← home.2, pageSwap, if_pos rfl]
      show (mprotect i true >>= fun _ => alignFrames rest) m = _
      rw [mprotect, change_run, ih]
      refine congrArg (fun s => some ((), s)) ?_
      unfold opened
      refine congrArg (fun a => { m with accessible := a }) (funext fun j => ?_)
      have same : atHome { m with accessible := Function.update m.accessible i true } j ↔
          atHome m j := Iff.rfl
      by_cases here : j = i
      · subst here
        simp [home]
      · simp [here, same]
    · have test := home
      unfold atHome at test
      rw [if_neg test, ih]
      refine congrArg (fun s => some ((), s)) ?_
      unfold opened
      refine congrArg (fun a => { m with accessible := a }) (funext fun j => ?_)
      by_cases here : j = i
      · subst here
        simp [home]
      · simp [here]

/-! ### The second loop -/

/-- Where the loop over a list of indices gets the content of a place from. -/
def homeward (m : Machine) (indices : List Nat) : Place → Place
  | .frame i => if i ∈ indices ∧ swappedAt m i then .slot i else .frame i
  | .slot i => if i ∈ indices ∧ swappedAt m i then .frame i else .slot i

/-- **What the loop does**, over a list of indices. -/
structure Fetches (indices : List Nat) (m m' : Machine) : Prop where
  entry : ∀ place, m'.entry place = m.entry (homeward m indices place)
  content : ∀ place, ∀ o < PAGESIZE, m'.content place o = m.content (homeward m indices place) o
  accessible : ∀ i, m'.accessible i = (m.accessible i || decide (i ∈ indices ∧ swappedAt m i))
  thread : m'.thread = m.thread

theorem homeward_nil (m : Machine) (place : Place) : homeward m [] place = place := by
  cases place <;> simp [homeward]

/-- The step for a page that is in the slot of its number. -/
def fetchSlot (i : Nat) : StateT Machine Option Unit := do
  swapToMemFromDisk i i
  mprotect i true

theorem fetchSlot_run {i : Nat} (inside : i < USER_PAGES) (m : Machine) :
    Returns (fetchSlot i) m fun _ m' => Exchanged i (.slot i) m m' ∧
      m'.accessible = Function.update m.accessible i true := by
  obtain ⟨m₁, ran, exchanged, accessible, _⟩ := swapToMemFromDisk_exchanges (m := m) (i := i) inside
  refine Returns.bind ⟨(), m₁, ran, (), _, rfl, ⟨exchanged.entry, exchanged.content,
    exchanged.thread, exchanged.pageNum⟩, ?_⟩
  show Function.update m₁.accessible i true = _
  rw [accessible, Function.update_idem]

theorem fetchSlot_stops {i : Nat} (outside : ¬i < USER_PAGES) (m : Machine) :
    fetchSlot i m = none := by
  rw [fetchSlot, swapToMemFromDisk, if_neg outside]
  rfl

/-- The other slots are as they were. -/
theorem swappedAt_fetched {m m₁ : Machine} {i j : Nat} (exchanged : Exchanged i (.slot i) m m₁)
    (other : j ≠ i) : swappedAt m₁ j ↔ swappedAt m j := by
  have entry : m₁.diskPages j = m.diskPages j := by
    show m₁.entry (.slot j) = m.entry (.slot j)
    rw [exchanged.entry, Function.comp_apply,
      Equiv.swap_apply_of_ne_of_ne (by simp) (by simp [other])]
  unfold swappedAt
  rw [entry, exchanged.thread]

/-- **One round of the loop.** -/
theorem alignSlots_cons (i : Nat) (rest : List Nat) (m : Machine) :
    alignSlots (i :: rest) m = if swappedAt m i then (fetchSlot i >>= fun _ => alignSlots rest) m
      else alignSlots rest m := by
  rw [alignSlots, look_run, look_run]
  by_cases found : swappedAt m i
  · rw [if_pos found]
    unfold swappedAt at found
    rw [if_pos found, ← found.2.2]
    show ((swapToMemFromDisk i i m).bind _) = ((swapToMemFromDisk i i m).bind _).bind _
    rw [Option.bind_assoc]
    rfl
  · rw [if_neg found]
    unfold swappedAt at found
    rw [if_neg found]

/-- The step and the rest of the loop. -/
theorem Fetches.cons {m m₁ m' : Machine} {i : Nat} {rest : List Nat} (fresh : i ∉ rest)
    (found : swappedAt m i) (exchanged : Exchanged i (.slot i) m m₁)
    (accessible : m₁.accessible = Function.update m.accessible i true)
    (fetches : Fetches rest m₁ m') : Fetches (i :: rest) m m' := by
  have elsewhere : ∀ {place : Place}, place ≠ .frame i → place ≠ .slot i →
      Equiv.swap (Place.frame i) (.slot i) place = place := fun first second =>
    Equiv.swap_apply_of_ne_of_ne first second
  have member : ∀ {j}, j ≠ i → ((j ∈ rest ∧ swappedAt m₁ j) ↔ (j ∈ i :: rest ∧ swappedAt m j)) := by
    intro j other
    rw [swappedAt_fetched exchanged other, List.mem_cons, or_iff_right other]
  have places : ∀ place, Equiv.swap (Place.frame i) (.slot i) (homeward m₁ rest place)
      = homeward m (i :: rest) place := by
    intro place
    cases place with
    | frame j =>
      simp only [homeward]
      by_cases here : j = i
      · subst here
        rw [if_neg fun both => fresh both.1, if_pos ⟨List.mem_cons_self, found⟩,
          Equiv.swap_apply_left]
      · simp only [member here]
        split
        · exact elsewhere (by simp) (by simp [here])
        · exact elsewhere (by simp [here]) (by simp)
    | slot j =>
      simp only [homeward]
      by_cases here : j = i
      · subst here
        rw [if_neg fun both => fresh both.1, if_pos ⟨List.mem_cons_self, found⟩,
          Equiv.swap_apply_right]
      · simp only [member here]
        split
        · exact elsewhere (by simp [here]) (by simp)
        · exact elsewhere (by simp) (by simp [here])
  refine ⟨fun place => ?_, fun place o within => ?_, fun j => ?_,
    fetches.thread.trans exchanged.thread⟩
  · rw [fetches.entry, exchanged.entry, Function.comp_apply, places]
  · rw [fetches.content place o within, exchanged.content _ o within, places]
  · rw [fetches.accessible, accessible]
    by_cases here : j = i
    · subst here
      simp [found]
    · rw [Function.update_of_ne here]
      simp only [member here]

theorem alignSlots_run (indices : List Nat) : ∀ (m : Machine), indices.Nodup →
    (∀ i ∈ indices, swappedAt m i → i < USER_PAGES) →
    Returns (alignSlots indices) m fun _ m' => Fetches indices m m' := by
  induction indices with
  | nil =>
    intro m _ _
    exact Returns.pure ⟨fun place => by rw [homeward_nil], fun place o _ => by rw [homeward_nil],
      fun i => by simp, rfl⟩
  | cons i rest ih =>
    intro m nodup inside
    obtain ⟨fresh, nodup'⟩ := List.nodup_cons.mp nodup
    by_cases found : swappedAt m i
    · obtain ⟨_, m₁, ran, exchanged, accessible⟩ := fetchSlot_run (inside i (by simp) found) m
      have later : ∀ j ∈ rest, swappedAt m₁ j → j < USER_PAGES := by
        intro j member found'
        have other : j ≠ i := fun same => fresh (same ▸ member)
        exact inside j (List.mem_cons_of_mem i member) ((swappedAt_fetched exchanged other).mp found')
      obtain ⟨_, m', ran', fetches⟩ := ih m₁ nodup' later
      refine ⟨(), m', ?_, fetches.cons fresh found exchanged accessible⟩
      rw [alignSlots_cons, if_pos found]
      show (fetchSlot i m).bind _ = _
      rw [ran]
      exact ran'
    · obtain ⟨_, m', ran, fetches⟩ := ih m nodup' fun j member =>
        inside j (List.mem_cons_of_mem i member)
      have member : ∀ {j}, (j ∈ i :: rest ∧ swappedAt m j) ↔ (j ∈ rest ∧ swappedAt m j) := by
        intro j
        refine ⟨fun both => ⟨(List.mem_cons.mp both.1).resolve_left ?_, both.2⟩, fun both =>
          ⟨List.mem_cons_of_mem i both.1, both.2⟩⟩
        rintro rfl
        exact found both.2
      have places : ∀ place, homeward m (i :: rest) place = homeward m rest place := by
        intro place
        cases place <;> simp only [homeward, member]
      refine ⟨(), m', ?_, fun place => ?_, fun place o within => ?_, fun j => ?_, fetches.thread⟩
      · rw [alignSlots_cons, if_neg found]
        exact ran
      · rw [places, fetches.entry]
      · rw [places, fetches.content place o within]
      · rw [fetches.accessible]
        simp only [member]

/-- A page in a slot beyond the frames ends the process. -/
theorem alignSlots_inside (indices : List Nat) : ∀ {m m' : Machine}, indices.Nodup →
    alignSlots indices m = some ((), m') → ∀ i ∈ indices, swappedAt m i → i < USER_PAGES := by
  induction indices with
  | nil => exact fun _ _ _ member => by simp at member
  | cons i rest ih =>
    intro m m' nodup ran j member found'
    obtain ⟨fresh, nodup'⟩ := List.nodup_cons.mp nodup
    rw [alignSlots_cons] at ran
    by_cases found : swappedAt m i
    · rw [if_pos found] at ran
      have inside : i < USER_PAGES := by
        by_contra outside
        have stops : (fetchSlot i >>= fun _ => alignSlots rest) m = none := by
          show (fetchSlot i m).bind _ = none
          rw [fetchSlot_stops outside]
          rfl
        rw [stops] at ran
        cases ran
      obtain ⟨_, m₁, first, ran'⟩ := run_bind ran
      rcases List.mem_cons.mp member with rfl | later
      · exact inside
      · obtain ⟨exchanged, _⟩ := (fetchSlot_run inside m).of_run first
        have other : j ≠ i := fun same => fresh (same ▸ later)
        exact ih nodup' ran' j later ((swappedAt_fetched exchanged other).mpr found')
    · rw [if_neg found] at ran
      rcases List.mem_cons.mp member with rfl | later
      · exact absurd found' found
      · exact ih nodup' ran j later found'

/-! ### Both loops -/

theorem homeward_homeward (m : Machine) (indices : List Nat) (place : Place) :
    homeward m indices (homeward m indices place) = place := by
  cases place with
  | frame i =>
    by_cases fetched : i ∈ indices ∧ swappedAt m i
    · simp only [homeward, if_pos fetched]
    · simp only [homeward, if_neg fetched]
  | slot i =>
    by_cases fetched : i ∈ indices ∧ swappedAt m i
    · simp only [homeward, if_pos fetched]
    · simp only [homeward, if_neg fetched]

/-- **`alignPages`**, where no slot beyond the frames holds the page of its number. -/
theorem alignPages_run {m : Machine} (inside : ∀ i < DISK_PAGES, swappedAt m i → i < USER_PAGES) :
    Returns alignPages m fun _ m' => ∃ slots, (∀ i, i ∈ slots ↔ i < DISK_PAGES) ∧
      Fetches slots (opened m (List.range USER_PAGES)) m' := by
  refine Returns.bind ⟨(), _, alignFrames_run _ m, ?_⟩
  refine (alignSlots_run _ _ List.nodup_range fun i member found => ?_).mono fun _ m' fetches =>
    ⟨_, fun i => List.mem_range, fetches⟩
  exact inside i (List.mem_range.mp member) found

theorem alignPages_inside {m m' : Machine} (ran : alignPages m = some ((), m')) :
    ∀ i < DISK_PAGES, swappedAt m i → i < USER_PAGES := by
  obtain ⟨_, m₁, first, second⟩ := run_bind ran
  rw [alignFrames_run] at first
  cases first
  exact fun i below found =>
    alignSlots_inside _ List.nodup_range second i (List.mem_range.mpr below) found

/-- A page is found in the frame or in the slot of its number, or not brought home. -/
theorem near_of_home {m m' : Machine} (once : LabelsOnce m) (ran : alignPages m = some ((), m'))
    (home : BroughtHome m m') : NearHome m := by
  have inside := alignPages_inside ran
  obtain ⟨slots, listed, fetches⟩ := (alignPages_run inside).of_run ran
  refine ⟨fun k below place valid label => ?_, inside⟩
  have there : Labels (m'.entry (.frame k)) m.thread k := (home.home k below place valid label).1
  rw [fetches.entry] at there
  have frames : USER_PAGES ≤ DISK_PAGES := by decide
  by_cases fetched : k ∈ slots ∧ swappedAt (opened m (List.range USER_PAGES)) k
  · simp only [homeward, if_pos fetched] at there
    have slot : (Place.slot k).Valid := lt_of_lt_of_le below frames
    exact Or.inr (once m.thread k place (.slot k) valid slot label there)
  · simp only [homeward, if_neg fetched] at there
    have frame : (Place.frame k).Valid := below
    exact Or.inl (once m.thread k place (.frame k) valid frame label there)

/-- **Pages near home are brought home.** -/
theorem home_of_near {m : Machine} (once : LabelsOnce m) (near : NearHome m) :
    Returns alignPages m fun _ m' => BroughtHome m m' := by
  have frames : USER_PAGES ≤ DISK_PAGES := by decide
  refine (alignPages_run near.inside).mono ?_
  rintro _ m' ⟨slots, listed, fetches⟩
  set before := opened m (List.range USER_PAGES) with before_eq
  refine ⟨fun k below place valid label => ?_, fun u k place valid label _ => ?_⟩
  · have inFrames : (Place.frame k).Valid := below
    have inSlots : (Place.slot k).Valid := lt_of_lt_of_le below frames
    rcases near.near k below place valid label with rfl | rfl
    · have stays : ¬(k ∈ slots ∧ swappedAt before k) := by
        rintro ⟨_, used, thID, pgID⟩
        have twice := once m.thread k (.slot k) (.frame k) inSlots inFrames
          ⟨used, thID, pgID.symm⟩ label
        cases twice
      have same : homeward before slots (.frame k) = .frame k := if_neg stays
      refine ⟨?_, ?_, fun o within => ?_⟩
      · show Labels (m'.entry (.frame k)) m.thread k
        rw [fetches.entry, same]
        exact label
      · have home : atHome m k := ⟨label.thID, label.pgID.symm⟩
        rw [fetches.accessible]
        show ((m.accessible k || (decide (k ∈ List.range USER_PAGES) && decide (atHome m k))) || _)
          = true
        simp [home, below]
      · rw [fetches.content _ o within, same]
        rfl
    · have found : k ∈ slots ∧ swappedAt before k :=
        ⟨(listed k).mpr inSlots, label.used, label.thID, label.pgID.symm⟩
      have same : homeward before slots (.frame k) = .slot k := if_pos found
      refine ⟨?_, ?_, fun o within => ?_⟩
      · show Labels (m'.entry (.frame k)) m.thread k
        rw [fetches.entry, same]
        exact label
      · rw [fetches.accessible, decide_eq_true found, Bool.or_true]
      · rw [fetches.content _ o within, same]
        rfl
  · refine ⟨homeward before slots place, ?_, ?_, fun o within => ?_⟩
    · cases place with
      | frame i =>
        simp only [homeward]
        split
        · exact lt_of_lt_of_le valid frames
        · exact valid
      | slot i =>
        simp only [homeward]
        split
        · rename_i fetched
          exact near.inside i valid fetched.2
        · exact valid
    · rw [fetches.entry, homeward_homeward]
      exact label
    · rw [fetches.content _ o within, homeward_homeward]
      rfl

/-- **When `alignPages` brings the running thread's pages home.** -/
theorem alignPages_home_iff (m : Machine) (once : LabelsOnce m) :
    (∃ m', alignPages m = some ((), m') ∧ BroughtHome m m') ↔ NearHome m := by
  constructor
  · rintro ⟨m', ran, home⟩
    exact near_of_home once ran home
  · intro near
    obtain ⟨_, m', ran, home⟩ := home_of_near once near
    exact ⟨m', ran, home⟩

/-- A machine with one page in use, page `0` of thread `1`, in the frame `i`. -/
def onePage (i : Nat) : Machine where
  frames := fun _ => 0
  swpFile := fun _ => 0
  pages := fun j => if j = i then 0x100#32 else 1
  diskPages := fun _ => 1
  accessible := fun _ => true
  thread := 1
  pageNum := fun t => if t = 1 then 1 else 0
  timer := ⟨QUANTUM, QUANTUM⟩

/-- Its only label in use. -/
theorem onePage_label {i t k : Nat} {place : Place} (label : Labels ((onePage i).entry place) t k) :
    place = .frame i ∧ t = 1 ∧ k = 0 := by
  have free : ∀ {t k}, ¬Labels (1#32) t k := fun label => absurd label.used (by decide)
  cases place with
  | slot j => exact absurd label free
  | frame j =>
    by_cases here : j = i
    · have entry : (onePage i).entry (.frame j) = 0x100#32 := if_pos here
      rw [entry] at label
      exact ⟨by rw [here], label.thID.symm, label.pgID.symm⟩
    · have entry : (onePage i).entry (.frame j) = 1#32 := if_neg here
      rw [entry] at label
      exact absurd label free

theorem onePage_once (i : Nat) : LabelsOnce (onePage i) := by
  intro t k place place' _ _ label label'
  rw [(onePage_label label).1, (onePage_label label').1]

/-- Page `0` of thread `1` is in slot `0` of the swap file, and page `0` of thread `2` in its frame. -/
def swappedPage : Machine where
  frames := fun _ => 0
  swpFile := fun _ => 0
  pages := fun j => if j = 0 then 0x200#32 else 1
  diskPages := fun j => if j = 0 then 0x100#32 else 1
  accessible := fun _ => true
  thread := 1
  pageNum := fun t => if t = 1 ∨ t = 2 then 1 else 0
  timer := ⟨QUANTUM, QUANTUM⟩

/-- Its labels in use. -/
theorem swappedPage_label {t k : Nat} {place : Place} (label : Labels (swappedPage.entry place) t k) :
    (place = .slot 0 ∧ t = 1 ∧ k = 0) ∨ (place = .frame 0 ∧ t = 2 ∧ k = 0) := by
  have free : ∀ {t k}, ¬Labels (1#32) t k := fun label => absurd label.used (by decide)
  cases place with
  | slot j =>
    by_cases here : j = 0
    · have entry : swappedPage.entry (.slot j) = 0x100#32 := if_pos here
      rw [entry] at label
      exact Or.inl ⟨by rw [here], label.thID.symm, label.pgID.symm⟩
    · have entry : swappedPage.entry (.slot j) = 1#32 := if_neg here
      rw [entry] at label
      exact absurd label free
  | frame j =>
    by_cases here : j = 0
    · have entry : swappedPage.entry (.frame j) = 0x200#32 := if_pos here
      rw [entry] at label
      exact Or.inr ⟨by rw [here], label.thID.symm, label.pgID.symm⟩
    · have entry : swappedPage.entry (.frame j) = 1#32 := if_neg here
      rw [entry] at label
      exact absurd label free

theorem swappedPage_once : LabelsOnce swappedPage := by
  intro t k place place' _ _ label label'
  rcases swappedPage_label label with ⟨rfl, rfl, _⟩ | ⟨rfl, rfl, _⟩ <;>
    rcases swappedPage_label label' with ⟨rfl, same, _⟩ | ⟨rfl, same, _⟩ <;> first | rfl | cases same

/-- The page is taken out of the slot of its number. -/
theorem alignPages_home_swappedPage :
    ∃ m', alignPages swappedPage = some ((), m') ∧ BroughtHome swappedPage m' := by
  refine (alignPages_home_iff swappedPage swappedPage_once).mpr ⟨?_, ?_⟩
  · intro k _ place _ label
    rcases swappedPage_label label with ⟨rfl, _, rfl⟩ | ⟨_, other, _⟩
    · exact Or.inr rfl
    · cases other
  · rintro i _ ⟨used, thID, pgID⟩
    have label : Labels (swappedPage.entry (.slot i)) 1 i := ⟨used, thID, pgID.symm⟩
    rcases swappedPage_label label with ⟨_, _, rfl⟩ | ⟨other, _⟩
    · decide
    · cases other

/-- **A page in another frame is not brought home.** -/
theorem alignPages_not_home : ¬∀ m m' : Machine, LabelsOnce m → alignPages m = some ((), m') →
    BroughtHome m m' := by
  intro always
  have inside : ∀ i < DISK_PAGES, swappedAt (onePage 1) i → i < USER_PAGES := by
    rintro i _ ⟨used, _⟩
    exact absurd used (by decide : ¬getPageIsF (1#32) = 0)
  obtain ⟨_, m', ran, _⟩ := alignPages_run inside
  have near := near_of_home (onePage_once 1) ran (always _ m' (onePage_once 1) ran)
  have zero : 0 < USER_PAGES := by decide
  have valid : (Place.frame 1).Valid := by
    show 1 < USER_PAGES
    decide
  have label : Labels ((onePage 1).entry (.frame 1)) (onePage 1).thread 0 :=
    ⟨by decide, by decide, by decide⟩
  rcases near.near 0 zero (.frame 1) valid label with same | same
  · cases same
  · cases same

end OS2017.Paging
