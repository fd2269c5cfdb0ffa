/-
**The memory a thread sees.**

`view m t` is the memory of the thread `t`: the bytes of its pages, in whichever frames or slots they
are. `Sheltered` is what has to hold while `t` runs: an open frame in use is `t`'s page of that number,
and an open free frame is one no thread has a page for. Then an access of `t` to one of its pages
reads or writes its view, whatever faults it causes (`paged_backed`), and nobody else's view changes.
-/

import OS2017.Paging.Room

namespace OS2017.Paging

open OS2017.Bytes OS2017.Heap

/-- The memory of a thread: the bytes of its pages, wherever they are. -/
def Machine.view (m : Machine) (t : Nat) : Memory := fun a =>
  match located { m with thread := t } (a / PAGESIZE) with
  | some place => m.content place (a % PAGESIZE)
  | none => 0

/-! ### Where the pages are -/

section Views

variable {live : Nat → Bool} {threadNum : Nat} {m m' : Machine}

/-- **The search of `sigHandler` finds the page.** -/
theorem located_iff (labelled : Labelled live threadNum m.pageNum m.entry)
    (alive : live m.thread = true) {k : Nat} {place : Place} :
    located m k = some place ↔ place.Valid ∧ Labels (m.entry place) m.thread k := by
  have forward : ∀ {place}, located m k = some place →
      place.Valid ∧ Labels (m.entry place) m.thread k := by
    intro place found
    refine ⟨located_valid found, ?_⟩
    unfold located at found
    cases frame : frameOf m k with
    | some i =>
      rw [frame] at found
      cases found
      obtain ⟨inside, thID, pgID, _⟩ := frameOf_eq_some frame
      rcases labelled.flags (.frame i) inside with used | isFree
      · exact ⟨used, thID, pgID⟩
      · exact absurd thID (labelled.stale (.frame i) inside isFree _ alive)
    | none =>
      rw [frame] at found
      obtain ⟨i, slot, rfl⟩ := Option.map_eq_some_iff.mp found
      exact (slotOf_eq_some slot).2
  refine ⟨forward, ?_⟩
  rintro ⟨inside, label⟩
  cases found : located m k with
  | some other =>
    obtain ⟨inside', label'⟩ := forward found
    rw [labelled.unique _ alive k other place inside' inside label' label]
  | none =>
    exfalso
    unfold located at found
    cases frame : frameOf m k with
    | some i =>
      rw [frame] at found
      cases found
    | none =>
      rw [frame] at found
      have slot := Option.map_eq_none_iff.mp found
      unfold frameOf at frame
      unfold slotOf at slot
      rw [List.find?_range_eq_none] at frame slot
      cases place with
      | frame i =>
        have none := frame i inside
        simp only [Bool.not_eq_true', decide_eq_false_iff_not] at none
        exact none ⟨label.thID, label.pgID⟩
      | slot i =>
        have none := slot i inside
        simp only [Bool.not_eq_true', decide_eq_false_iff_not] at none
        exact none ⟨label.used, label.thID, label.pgID⟩

/-- The view of a page is its content. -/
theorem view_of_labels (labelled : Labelled live threadNum m.pageNum m.entry) {t k o : Nat}
    (alive : live t = true) (place : Place) (inside : place.Valid)
    (label : Labels (m.entry place) t k) (within : o < PAGESIZE) :
    m.view t (k * PAGESIZE + o) = m.content place o := by
  have found : located { m with thread := t } k = some place :=
    (located_iff (m := { m with thread := t }) labelled alive).mpr ⟨inside, label⟩
  unfold Machine.view
  rw [page_of_offset within, offset_of_offset within, found]

/-- Behind its pages a thread sees nothing. -/
theorem view_beyond (labelled : Labelled live threadNum m.pageNum m.entry) {t a : Nat}
    (alive : live t = true) (beyond : m.pageNum t * PAGESIZE ≤ a) : m.view t a = 0 := by
  have missing : located { m with thread := t } (a / PAGESIZE) = none := by
    cases found : located { m with thread := t } (a / PAGESIZE) with
    | none => rfl
    | some place =>
      obtain ⟨inside, label⟩ :=
        (located_iff (m := { m with thread := t }) labelled alive).mp found
      have below := labelled.below t alive _ place inside label
      unfold PAGESIZE at beyond below
      omega
  unfold Machine.view
  rw [missing]

/-- **A view is kept** where each page is kept, at whatever place. -/
theorem view_of_kept (labelled : Labelled live threadNum m.pageNum m.entry)
    (labelled' : Labelled live threadNum m'.pageNum m'.entry) {t : Nat} (alive : live t = true)
    (kept : ∀ k place, place.Valid → Labels (m.entry place) t k → ∃ place', place'.Valid ∧
      Labels (m'.entry place') t k ∧ ∀ o < PAGESIZE, m'.content place' o = m.content place o)
    {a : Nat} (owned : a < m.pageNum t * PAGESIZE) : m'.view t a = m.view t a := by
  have page : a / PAGESIZE < m.pageNum t := by
    unfold PAGESIZE at owned ⊢
    omega
  have offset : a % PAGESIZE < PAGESIZE := Nat.mod_lt _ (by decide)
  have split : a / PAGESIZE * PAGESIZE + a % PAGESIZE = a := Nat.div_add_mod' a PAGESIZE
  obtain ⟨place, inside, label⟩ := labelled.exists_of_lt t alive _ page
  obtain ⟨place', inside', label', same⟩ := kept _ place inside label
  rw [← split, view_of_labels labelled alive _ inside label offset,
    view_of_labels labelled' alive _ inside' label' offset, same _ offset]

/-- The same for the whole view, if the thread has no new page. -/
theorem view_eq_of_kept (labelled : Labelled live threadNum m.pageNum m.entry)
    (labelled' : Labelled live threadNum m'.pageNum m'.entry) {t : Nat} (alive : live t = true)
    (pageNum : m'.pageNum t = m.pageNum t)
    (kept : ∀ k place, place.Valid → Labels (m.entry place) t k → ∃ place', place'.Valid ∧
      Labels (m'.entry place') t k ∧ ∀ o < PAGESIZE, m'.content place' o = m.content place o) :
    m'.view t = m.view t := by
  funext a
  by_cases owned : a < m.pageNum t * PAGESIZE
  · exact view_of_kept labelled labelled' alive kept owned
  · rw [view_beyond labelled alive (by omega), view_beyond labelled' alive (by rw [pageNum]; omega)]

/-- **An exchange keeps the views.** -/
theorem Exchanged.view {k : Nat} {place : Place} (exchanged : Exchanged k place m m')
    (inside : k < USER_PAGES) (valid : place.Valid)
    (labelled : Labelled live threadNum m.pageNum m.entry) {t : Nat} (alive : live t = true) :
    m'.view t = m.view t := by
  have permuted : Labelled live threadNum m'.pageNum m'.entry := by
    rw [exchanged.entry, exchanged.pageNum]
    exact labelled.permute _ (swap_valid (a := .frame k) inside valid)
  refine view_eq_of_kept labelled permuted alive (by rw [exchanged.pageNum]) ?_
  intro j other validOther label
  refine ⟨Equiv.swap (.frame k) place other, (swap_valid (a := .frame k) inside valid _).mpr validOther, ?_, ?_⟩
  · rw [exchanged.entry, Function.comp_apply, Equiv.swap_apply_self]
    exact label
  · intro o within
    rw [exchanged.content _ o within, Equiv.swap_apply_self]

end Views

/-! ### Sheltered pages -/

/-- **While a thread runs**: what is open is its own, or nobody's. -/
structure Sheltered (live : Nat → Bool) (threadNum : Nat) (m : Machine) : Prop where
  labelled : Labelled live threadNum m.pageNum m.entry
  running : live m.thread = true
  bounded : ∀ u, live u = true → m.pageNum u ≤ USER_PAGES
  home : ∀ i < USER_PAGES, m.accessible i = true → getPageIsF (m.pages i) = 0 →
    Labels (m.pages i) m.thread i
  spare : ∀ i < USER_PAGES, m.accessible i = true → getPageIsF (m.pages i) = 1 →
    ∀ u, live u = true → m.pageNum u ≤ i

/-- The page `j` of the running thread is in its frame, and open. -/
structure Open (m : Machine) (j : Nat) : Prop where
  reachable : m.accessible j = true
  label : Labels (m.pages j) m.thread j

/-- No page of the running thread has its frame free. -/
def Reserved (m : Machine) : Prop :=
  ∀ i < USER_PAGES, getPageIsF (m.pages i) = 1 → m.pageNum m.thread ≤ i

/-- **Pages have been fetched**, and nothing has changed for anybody. -/
structure Settled (live : Nat → Bool) (threadNum : Nat) (m m' : Machine) : Prop where
  sheltered : Sheltered live threadNum m'
  thread : m'.thread = m.thread
  pageNum : m'.pageNum = m.pageNum
  views : ∀ u, live u = true → m'.view u = m.view u
  stays : ∀ j, Open m j → Open m' j
  reserved : Reserved m → Reserved m'

section Settled

variable {live : Nat → Bool} {threadNum : Nat} {m m' m'' : Machine}

theorem Settled.refl (sheltered : Sheltered live threadNum m) : Settled live threadNum m m :=
  ⟨sheltered, rfl, rfl, fun _ _ => rfl, fun _ => id, id⟩

theorem Settled.trans (first : Settled live threadNum m m')
    (second : Settled live threadNum m' m'') : Settled live threadNum m m'' :=
  ⟨second.sheltered, second.thread.trans first.thread, second.pageNum.trans first.pageNum,
    fun u alive => (second.views u alive).trans (first.views u alive),
    fun j opened => second.stays j (first.stays j opened),
    fun reserved => second.reserved (first.reserved reserved)⟩

/-- An open frame among those of its pages is the running thread's. -/
theorem Sheltered.opened (sheltered : Sheltered live threadNum m) {k : Nat}
    (owned : k < m.pageNum m.thread) (reachable : m.accessible k = true) : Open m k := by
  have inside : k < USER_PAGES := lt_of_lt_of_le owned (sheltered.bounded _ sheltered.running)
  rcases sheltered.labelled.flags (.frame k) inside with used | isFree
  · exact ⟨reachable, sheltered.home k inside reachable used⟩
  · exact absurd (sheltered.spare k inside reachable isFree _ sheltered.running) (not_le.mpr owned)

/-- **A fetched page settles.** -/
theorem Exchanged.settles {k : Nat} {place : Place} (exchanged : Exchanged k place m m')
    (accessible : m'.accessible = Function.update (match place with
      | .frame i => Function.update m.accessible i false
      | .slot _ => m.accessible) k true)
    (sheltered : Sheltered live threadNum m) (owned : k < m.pageNum m.thread) (valid : place.Valid)
    (label : Labels (m.entry place) m.thread k) :
    Settled live threadNum m m' ∧ Open m' k := by
  have inside : k < USER_PAGES := lt_of_lt_of_le owned (sheltered.bounded _ sheltered.running)
  have atK : m'.entry (.frame k) = m.entry place := by
    rw [exchanged.entry, Function.comp_apply, Equiv.swap_apply_left]
  have labelK : Labels (m'.pages k) m'.thread k := by
    rw [exchanged.thread]
    show Labels (m'.entry (.frame k)) m.thread k
    rw [atK]
    exact label
  have elsewhere : ∀ {i}, i ≠ k → Place.frame i ≠ place →
      m'.pages i = m.pages i ∧ m'.accessible i = m.accessible i := by
    intro i other away
    refine ⟨?_, ?_⟩
    · show m'.entry (.frame i) = m.entry (.frame i)
      rw [exchanged.entry, Function.comp_apply,
        Equiv.swap_apply_of_ne_of_ne (by simp [other]) away]
    · rw [accessible, Function.update_of_ne other]
      cases place with
      | slot d => rfl
      | frame j => exact Function.update_of_ne (fun same => away (by rw [same])) _ _
  -- the frame the page was in is protected
  have left : ∀ {i}, i ≠ k → Place.frame i = place → m'.accessible i = false := by
    rintro i other rfl
    rw [accessible, Function.update_of_ne other]
    exact Function.update_self _ _ _
  have openK : Open m' k := ⟨by rw [accessible, Function.update_self], labelK⟩
  refine ⟨⟨⟨?_, ?_, ?_, fun i within reachable used => ?_, fun i within reachable isFree => ?_⟩,
    exchanged.thread, exchanged.pageNum, fun u alive => ?_, fun j opened => ?_, fun reserved => ?_⟩, openK⟩
  · rw [exchanged.entry, exchanged.pageNum]
    exact sheltered.labelled.permute _ (swap_valid inside valid)
  · rw [exchanged.thread]
    exact sheltered.running
  · rw [exchanged.pageNum]
    exact sheltered.bounded
  · by_cases same : i = k
    · rw [same]
      exact labelK
    · by_cases there : Place.frame i = place
      · rw [left same there] at reachable
        cases reachable
      · obtain ⟨pages, reach⟩ := elsewhere same there
        rw [pages] at used ⊢
        rw [reach] at reachable
        rw [exchanged.thread]
        exact sheltered.home i within reachable used
  · by_cases same : i = k
    · rw [same, labelK.used] at isFree
      cases isFree
    · by_cases there : Place.frame i = place
      · rw [left same there] at reachable
        cases reachable
      · obtain ⟨pages, reach⟩ := elsewhere same there
        rw [pages] at isFree
        rw [reach] at reachable
        rw [exchanged.pageNum]
        exact sheltered.spare i within reachable isFree
  · exact exchanged.view inside valid sheltered.labelled alive
  · by_cases same : j = k
    · rw [same]
      exact openK
    · have away : Place.frame j ≠ place := by
        rintro rfl
        exact same (opened.label.pgID.symm.trans label.pgID)
      obtain ⟨pages, reach⟩ := elsewhere same away
      exact ⟨reach ▸ opened.reachable, by rw [pages, exchanged.thread]; exact opened.label⟩
  · intro i within isFree
    rw [exchanged.pageNum, exchanged.thread]
    by_cases same : i = k
    · rw [same, labelK.used] at isFree
      cases isFree
    · by_cases there : Place.frame i = place
      · have entry : m'.entry (.frame i) = m.entry (.frame k) := by
          rw [exchanged.entry, Function.comp_apply, there, Equiv.swap_apply_right]
        have freeK : getPageIsF (m.pages k) = 1 := by
          rw [← isFree]
          exact congrArg getPageIsF entry.symm
        exact absurd (reserved k inside freeK) (not_le.mpr owned)
      · rw [(elsewhere same there).1] at isFree
        exact reserved i within isFree

/-- **An access to an own page settles it.** -/
theorem touch_settles (sheltered : Sheltered live threadNum m) {k : Nat}
    (owned : k < m.pageNum m.thread) :
    Returns (touch k) m fun _ m' => Settled live threadNum m m' ∧ Open m' k := by
  have inside : k < USER_PAGES := lt_of_lt_of_le owned (sheltered.bounded _ sheltered.running)
  cases reachable : m.accessible k with
  | true => exact ⟨(), m, touch_open inside reachable, Settled.refl sheltered,
      sheltered.opened owned reachable⟩
  | false =>
    obtain ⟨place, valid, label⟩ := sheltered.labelled.exists_of_lt _ sheltered.running k owned
    have found := (located_iff sheltered.labelled sheltered.running).mpr ⟨valid, label⟩
    have fault : touch k m = sigHandler k m := by
      rw [touch, if_pos inside, look_run, reachable, if_neg (by simp)]
    obtain ⟨_, m', ran, fetched⟩ := sigHandler_fetches inside found
    exact ⟨(), m', fault.trans ran, fetched.settles fetched.accessible sheltered owned valid label⟩

theorem touchBoth_settles (sheltered : Sheltered live threadNum m) {j k : Nat}
    (first : j < m.pageNum m.thread) (second : k < m.pageNum m.thread) :
    Returns (touchBoth j k) m fun _ m' => Settled live threadNum m m' ∧ Open m' j ∧ Open m' k := by
  have again : ∀ {s i}, Settled live threadNum m s → i < m.pageNum m.thread →
      i < s.pageNum s.thread := fun settled owned => by rwa [settled.pageNum, settled.thread]
  refine Returns.bind ((touch_settles sheltered first).mono ?_)
  rintro _ m₁ ⟨settled₁, _⟩
  refine Returns.bind ((touch_settles settled₁.sheltered (again settled₁ second)).mono ?_)
  rintro _ m₂ ⟨settled₂, open₂⟩
  have settled := settled₁.trans settled₂
  refine (touch_settles settled₂.sheltered (again settled first)).mono ?_
  rintro _ m₃ ⟨settled₃, open₃⟩
  exact ⟨settled.trans settled₃, open₃, settled₃.stays k open₂⟩

end Settled

/-! ### Loads and stores -/

section Stores

variable {live : Nat → Bool} {threadNum : Nat} {m : Machine}

/-- In an open page the view is the frame. -/
theorem view_of_open (sheltered : Sheltered live threadNum m) {a : Nat}
    (inside : a / PAGESIZE < USER_PAGES) (opened : Open m (a / PAGESIZE)) :
    m.view m.thread a = m.frames a := by
  have same := view_of_labels sheltered.labelled sheltered.running (.frame (a / PAGESIZE)) inside
    opened.label (Nat.mod_lt a (by decide))
  rw [Nat.div_add_mod'] at same
  rw [same]
  exact congrArg m.frames (Nat.div_add_mod' a PAGESIZE)

/-- **A byte written to an open page** changes the view of the running thread there. -/
theorem view_write (sheltered : Sheltered live threadNum m) {a u : Nat} (alive : live u = true)
    (inside : a / PAGESIZE < USER_PAGES) (opened : Open m (a / PAGESIZE)) (value : BitVec 8) :
    { m with frames := Function.update m.frames a value }.view u
      = if u = m.thread then Function.update (m.view u) a value else m.view u := by
  set written : Machine := { m with frames := Function.update m.frames a value } with written_eq
  -- the frame of the byte is the running thread's page of that number
  have frame : ∀ {c i}, located { m with thread := u } (c / PAGESIZE) = some (.frame i) →
      i * PAGESIZE + c % PAGESIZE = a → u = m.thread ∧ c = a := by
    intro c i found here
    have page : i = a / PAGESIZE := by
      unfold PAGESIZE at here ⊢
      omega
    have label := ((located_iff (m := { m with thread := u }) sheltered.labelled alive).mp found).2
    have same : Labels (m.pages i) u (c / PAGESIZE) := label
    rw [page] at same here
    have equal := same.pgID.symm.trans opened.label.pgID
    refine ⟨same.thID.symm.trans opened.label.thID, ?_⟩
    rw [← equal, Nat.div_add_mod'] at here
    exact here
  have search : ∀ c, located { written with thread := u } (c / PAGESIZE)
      = located { m with thread := u } (c / PAGESIZE) := fun c =>
    located_congr (by rfl) (by rfl) (by rfl) _
  have away : ∀ c, (u = m.thread → c ≠ a) → written.view u c = m.view u c := by
    intro c other
    unfold Machine.view
    rw [search c]
    cases found : located { m with thread := u } (c / PAGESIZE) with
    | none => rfl
    | some place =>
      cases place with
      | slot i => rfl
      | frame i =>
        refine Function.update_of_ne (fun here => ?_) _ _
        obtain ⟨mine, same⟩ := frame found here
        exact other mine same
  by_cases mine : u = m.thread
  · rw [if_pos mine]
    funext c
    by_cases here : c = a
    · have still : Sheltered live threadNum written :=
        ⟨sheltered.labelled, sheltered.running, sheltered.bounded, sheltered.home, sheltered.spare⟩
      have same := view_of_open still inside ⟨opened.reachable, opened.label⟩
      rw [here, mine, Function.update_self]
      exact same.trans (Function.update_self _ _ _)
    · rw [Function.update_of_ne here]
      exact away c fun _ => here
  · rw [if_neg mine]
    funext c
    exact away c fun equal => absurd equal mine

/-- **A word written to open pages.** -/
theorem view_writeWord (sheltered : Sheltered live threadNum m) {a u : Nat} (alive : live u = true)
    (inside : (a + 3) / PAGESIZE < USER_PAGES) (first : Open m (a / PAGESIZE))
    (second : Open m ((a + 3) / PAGESIZE)) (w : BitVec 32) :
    { m with frames := writeWord m.frames a w }.view u
      = if u = m.thread then writeWord (m.view u) a w else m.view u := by
  have within : ∀ {c}, a ≤ c → c < a + 4 → c / PAGESIZE < USER_PAGES ∧ Open m (c / PAGESIZE) := by
    intro c low high
    have either : c / PAGESIZE = a / PAGESIZE ∨ c / PAGESIZE = (a + 3) / PAGESIZE := by
      unfold PAGESIZE
      omega
    refine ⟨lt_of_le_of_lt (Nat.div_le_div_right (by omega)) inside, ?_⟩
    rcases either with same | same
    · exact same ▸ first
    · exact same ▸ second
  -- one byte more, on top of any bytes
  have byte : ∀ (frames : Memory) (c : Nat) (value : BitVec 8), a ≤ c → c < a + 4 →
      { m with frames := Function.update frames c value }.view u
        = if u = m.thread then Function.update ({ m with frames := frames }.view u) c value
          else { m with frames := frames }.view u := fun frames c value low high =>
    view_write (m := { m with frames := frames }) ⟨sheltered.labelled, sheltered.running,
      sheltered.bounded, sheltered.home, sheltered.spare⟩ alive (within low high).1
      ⟨(within low high).2.reachable, (within low high).2.label⟩ value
  rw [writeWord_eq_update, byte _ a _ (by omega) (by omega), byte _ (a + 1) _ (by omega) (by omega),
    byte _ (a + 2) _ (by omega) (by omega), byte _ (a + 3) _ (by omega) (by omega)]
  by_cases mine : u = m.thread
  · simp only [if_pos mine]
    rw [writeWord_eq_update]
  · simp only [if_neg mine]

/-- **The machine serves a thread**: the others see what they saw. -/
structure Serving (live : Nat → Bool) (threadNum t : Nat) (pageNum : Nat → Nat)
    (others : Nat → Memory) (reserve : Prop) (m : Machine) : Prop where
  sheltered : Sheltered live threadNum m
  thread : m.thread = t
  pageNum : m.pageNum = pageNum
  others : ∀ u, live u = true → u ≠ t → m.view u = others u
  reserved : reserve → Reserved m

variable {t : Nat} {pageNum : Nat → Nat} {others : Nat → Memory} {reserve : Prop}

theorem Serving.settle {m' : Machine} (serving : Serving live threadNum t pageNum others reserve m)
    (settled : Settled live threadNum m m') :
    Serving live threadNum t pageNum others reserve m' ∧ m'.view t = m.view t := by
  have running : live t = true := serving.thread ▸ serving.sheltered.running
  refine ⟨⟨settled.sheltered, settled.thread.trans serving.thread,
    settled.pageNum.trans serving.pageNum, fun u alive different => ?_,
    fun holds => settled.reserved (serving.reserved holds)⟩, settled.views t running⟩
  rw [settled.views u alive]
  exact serving.others u alive different

/-- **The running thread's loads and stores are on its view.** -/
theorem paged_backed (live : Nat → Bool) (threadNum t : Nat) (pageNum : Nat → Nat)
    (others : Nat → Memory) (reserve : Prop) :
    Backed paged (Serving live threadNum t pageNum others reserve) (·.view t)
      (pageNum t * PAGESIZE) := by
  have both : ∀ {s a}, Serving live threadNum t pageNum others reserve s →
      a + 4 ≤ pageNum t * PAGESIZE →
      Returns (touchBoth (a / PAGESIZE) ((a + 3) / PAGESIZE)) s fun _ s' =>
        Serving live threadNum t pageNum others reserve s' ∧ s'.view t = s.view t ∧
        (a + 3) / PAGESIZE < USER_PAGES ∧ Open s' (a / PAGESIZE) ∧ Open s' ((a + 3) / PAGESIZE) := by
    intro s a serving within
    have last : (a + 3) / PAGESIZE < s.pageNum s.thread := by
      rw [serving.pageNum, serving.thread]
      unfold PAGESIZE at within ⊢
      omega
    have first : a / PAGESIZE < s.pageNum s.thread :=
      lt_of_le_of_lt (Nat.div_le_div_right (by omega)) last
    refine (touchBoth_settles serving.sheltered first last).mono ?_
    rintro _ s' ⟨settled, openFirst, openLast⟩
    obtain ⟨serving', same⟩ := serving.settle settled
    exact ⟨serving', same, lt_of_lt_of_le last
      (serving.sheltered.bounded _ serving.sheltered.running), openFirst, openLast⟩
  refine ⟨fun s a serving within => ?_, fun s a w serving within => ?_⟩
  · refine Returns.bind ((both serving within).mono ?_)
    rintro _ s' ⟨serving', same, inside, first, last⟩
    refine ⟨_, s', rfl, ?_, serving', same⟩
    rw [← same]
    refine readWord_congr fun c low high => ?_
    have either : c / PAGESIZE = a / PAGESIZE ∨ c / PAGESIZE = (a + 3) / PAGESIZE := by
      unfold PAGESIZE
      omega
    have opened : Open s' (c / PAGESIZE) := by
      rcases either with same | same
      · exact same ▸ first
      · exact same ▸ last
    have below : c / PAGESIZE < USER_PAGES :=
      lt_of_le_of_lt (Nat.div_le_div_right (by omega)) inside
    rw [← view_of_open serving'.sheltered below opened, serving'.thread]
  · refine Returns.bind ((both serving within).mono ?_)
    rintro _ s' ⟨serving', same, inside, first, last⟩
    have alive : live t = true := serving'.thread ▸ serving'.sheltered.running
    have sheltered := serving'.sheltered
    refine ⟨(), _, rfl, ⟨⟨sheltered.labelled, sheltered.running, sheltered.bounded, sheltered.home,
      sheltered.spare⟩, serving'.thread, serving'.pageNum, fun u lives different => ?_,
      serving'.reserved⟩, ?_⟩
    · rw [view_writeWord sheltered lives inside first last w,
        if_neg (by rw [serving'.thread]; exact different)]
      exact serving'.others u lives different
    · rw [← same]
      show Machine.view _ t = _
      rw [view_writeWord sheltered alive inside first last w, if_pos serving'.thread.symm]

end Stores

end OS2017.Paging
