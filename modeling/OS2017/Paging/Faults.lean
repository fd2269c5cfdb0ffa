/-
**Faults and swaps.**

`sigHandler` exchanges the frame of the fault with the place of the running thread's page: labels
and contents together (`Fetched`). Loads and stores, `alignPages` and the search of `myallocate` do
nothing else to the tables (`Permutes`).
-/

import OS2017.Paging.Tables

namespace OS2017.Paging

open OS2017.Bytes OS2017.Heap

/-- The bytes at a place. -/
def Machine.content (m : Machine) : Place → Nat → BitVec 8
  | .frame i, o => m.frames (i * PAGESIZE + o)
  | .slot i, o => m.swpFile (i * PAGESIZE + o)

/-- **The frame `k` exchanged with a place.** -/
structure Exchanged (k : Nat) (place : Place) (m m' : Machine) : Prop where
  entry : m'.entry = m.entry ∘ Equiv.swap (.frame k) place
  content : ∀ other, ∀ o < PAGESIZE,
    m'.content other o = m.content (Equiv.swap (.frame k) place other) o
  thread : m'.thread = m.thread
  pageNum : m'.pageNum = m.pageNum

/-- **What a fault in the frame `k` does.** -/
structure Fetched (k : Nat) (place : Place) (m m' : Machine) : Prop extends
    Exchanged k place m m' where
  accessible : m'.accessible = Function.update (match place with
    | .frame i => Function.update m.accessible i false
    | .slot _ => m.accessible) k true
  timer : m'.timer = match place with
    | .frame _ => ⟨m.timer.remaining, m.timer.remaining⟩
    | .slot _ => ⟨0, 0⟩

/-! ### Copies -/

theorem page_of_offset {i o : Nat} (inside : o < PAGESIZE) : (i * PAGESIZE + o) / PAGESIZE = i := by
  unfold PAGESIZE at inside ⊢
  omega

theorem offset_of_offset {i o : Nat} (inside : o < PAGESIZE) :
    (i * PAGESIZE + o) % PAGESIZE = o := by
  unfold PAGESIZE at inside ⊢
  omega

theorem copyPage_apply (dst src : Memory) (target source i : Nat) {o : Nat} (inside : o < PAGESIZE) :
    copyPage dst src target source (i * PAGESIZE + o)
      = if i = target then src (source * PAGESIZE + o) else dst (i * PAGESIZE + o) := by
  unfold copyPage
  rw [page_of_offset inside, offset_of_offset inside]

/-! ### Exchanges -/

/-- Any exchange of a frame with itself is none. -/
theorem Exchanged.refl (k : Nat) (m : Machine) : Exchanged k (.frame k) m m := by
  refine ⟨?_, fun other o _ => ?_, rfl, rfl⟩
  · rw [Equiv.swap_self]
    rfl
  · rw [Equiv.swap_self]
    rfl

/-- Two exchanged frames are set twice. -/
theorem update_twice {α : Type} (f : Nat → α) (i k : Nat) (x y z w : α) :
    Function.update (Function.update (Function.update (Function.update f i x) k y) i z) k w
      = Function.update (Function.update f i z) k w := by
  funext j
  by_cases atK : j = k
  · rw [atK, Function.update_self, Function.update_self]
  · by_cases atI : j = i
    · rw [Function.update_of_ne atK, Function.update_of_ne atK, atI, Function.update_self,
        Function.update_self]
    · simp only [Function.update_of_ne atK, Function.update_of_ne atI]

/-- **`pageSwap` exchanges two frames.** -/
theorem pageSwap_exchanges {m : Machine} {k i : Nat} (different : k ≠ i) :
    ∃ m', pageSwap k i m = some ((), m') ∧ Exchanged k (.frame i) m m' ∧
      m'.accessible = Function.update (Function.update m.accessible i false) k false ∧
      m'.timer = m.timer := by
  have ran : pageSwap k i m = some ((), { m with
      frames := copyPage (copyPage m.frames m.frames i k) m.frames k i
      pages := Function.update (Function.update m.pages i (m.pages k)) k (m.pages i)
      accessible := Function.update (Function.update (Function.update (Function.update m.accessible
        i true) k true) i false) k false }) := by
    rw [pageSwap, if_neg different]
    rfl
  refine ⟨_, ran, ⟨?_, fun other o inside => ?_, rfl, rfl⟩, update_twice _ _ _ _ _ _ _, rfl⟩
  · funext other
    show _ = m.entry (Equiv.swap (.frame k) (.frame i) other)
    cases other with
    | slot j => rw [Equiv.swap_apply_of_ne_of_ne (by simp) (by simp)]; rfl
    | frame j =>
      show Function.update (Function.update m.pages i (m.pages k)) k (m.pages i) j = _
      by_cases atK : j = k
      · rw [atK, Function.update_self, Equiv.swap_apply_left]
        rfl
      · rw [Function.update_of_ne atK]
        by_cases atI : j = i
        · rw [atI, Function.update_self, Equiv.swap_apply_right]
          rfl
        · rw [Function.update_of_ne atI,
            Equiv.swap_apply_of_ne_of_ne (by simp [atK]) (by simp [atI])]
          rfl
  · cases other with
    | slot j => rw [Equiv.swap_apply_of_ne_of_ne (by simp) (by simp)]; rfl
    | frame j =>
      show copyPage (copyPage m.frames m.frames i k) m.frames k i (j * PAGESIZE + o) = _
      rw [copyPage_apply _ _ _ _ _ inside, copyPage_apply _ _ _ _ _ inside]
      by_cases atK : j = k
      · rw [if_pos atK, atK, Equiv.swap_apply_left]
        rfl
      · rw [if_neg atK]
        by_cases atI : j = i
        · rw [if_pos atI, atI, Equiv.swap_apply_right]
          rfl
        · rw [if_neg atI, Equiv.swap_apply_of_ne_of_ne (by simp [atK]) (by simp [atI])]
          rfl

/-- **`swapToMemFromDisk` exchanges a frame and a slot.** -/
theorem swapToMemFromDisk_exchanges {m : Machine} {k i : Nat} (inside : k < USER_PAGES) :
    ∃ m', swapToMemFromDisk k i m = some ((), m') ∧ Exchanged k (.slot i) m m' ∧
      m'.accessible = Function.update m.accessible k false ∧
      m'.timer = ⟨m.timer.remaining, m.timer.remaining⟩ := by
  have ran : swapToMemFromDisk k i m = some ((), { m with
      frames := copyPage m.frames m.swpFile k i
      swpFile := copyPage m.swpFile m.frames i k
      diskPages := Function.update m.diskPages i (m.pages k)
      pages := Function.update m.pages k (m.diskPages i)
      accessible := Function.update (Function.update m.accessible k true) k false
      timer := ⟨m.timer.remaining, m.timer.remaining⟩ }) := by
    rw [swapToMemFromDisk, if_pos inside]
    rfl
  refine ⟨_, ran, ⟨?_, fun other o within => ?_, rfl, rfl⟩, Function.update_idem _ _ _, rfl⟩
  · funext other
    show _ = m.entry (Equiv.swap (.frame k) (.slot i) other)
    cases other with
    | slot j =>
      show Function.update m.diskPages i (m.pages k) j = _
      by_cases same : j = i
      · rw [same, Function.update_self, Equiv.swap_apply_right]
        rfl
      · rw [Function.update_of_ne same,
          Equiv.swap_apply_of_ne_of_ne (by simp) (by simp [same])]
        rfl
    | frame j =>
      show Function.update m.pages k (m.diskPages i) j = _
      by_cases same : j = k
      · rw [same, Function.update_self, Equiv.swap_apply_left]
        rfl
      · rw [Function.update_of_ne same,
          Equiv.swap_apply_of_ne_of_ne (by simp [same]) (by simp)]
        rfl
  · cases other with
    | slot j =>
      show copyPage m.swpFile m.frames i k (j * PAGESIZE + o) = _
      rw [copyPage_apply _ _ _ _ _ within]
      by_cases same : j = i
      · rw [if_pos same, same, Equiv.swap_apply_right]
        rfl
      · rw [if_neg same, Equiv.swap_apply_of_ne_of_ne (by simp) (by simp [same])]
        rfl
    | frame j =>
      show copyPage m.frames m.swpFile k i (j * PAGESIZE + o) = _
      rw [copyPage_apply _ _ _ _ _ within]
      by_cases same : j = k
      · rw [if_pos same, same, Equiv.swap_apply_left]
        rfl
      · rw [if_neg same, Equiv.swap_apply_of_ne_of_ne (by simp [same]) (by simp)]
        rfl

/-! ### `sigHandler` -/

/-- The search reads the labels only. -/
theorem located_congr {m m' : Machine} (pages : m'.pages = m.pages)
    (diskPages : m'.diskPages = m.diskPages) (thread : m'.thread = m.thread) (k : Nat) :
    located m' k = located m k := by
  unfold located frameOf slotOf
  rw [pages, diskPages, thread]

/-- **The fault handler fetches the page it finds.** -/
theorem sigHandler_fetches {m : Machine} {k : Nat} {place : Place} (inside : k < USER_PAGES)
    (found : located m k = some place) :
    Returns (sigHandler k) m fun _ m' => Fetched k place m m' := by
  set paused : Machine := { m with timer := ⟨0, m.timer.remaining⟩ } with paused_eq
  have same : located paused k = located m k := located_congr (by rfl) (by rfl) (by rfl) k
  rw [found] at same
  unfold sigHandler pause_timer
  refine Returns.change_bind (Returns.look_bind ?_)
  rw [← paused_eq, same]
  cases place with
  | frame i =>
    by_cases home : k = i
    · subst home
      have none : pageSwap k k paused = some ((), paused) := by
        rw [pageSwap, if_pos rfl]
        rfl
      refine Returns.bind ⟨(), paused, none, Returns.change_bind ⟨(), _, rfl, ?_⟩⟩
      have stays := Exchanged.refl k m
      exact ⟨⟨stays.entry, stays.content, rfl, rfl⟩, (Function.update_idem _ _ _).symm, rfl⟩
    · obtain ⟨swapped, ran, exchanged, accessible, timer⟩ := pageSwap_exchanges (m := paused) home
      refine Returns.bind ⟨(), swapped, ran, Returns.change_bind ⟨(), _, rfl, ?_⟩⟩
      refine ⟨⟨exchanged.entry, exchanged.content, exchanged.thread, exchanged.pageNum⟩, ?_, ?_⟩
      · show Function.update swapped.accessible k true = _
        rw [accessible, Function.update_idem]
      · show (⟨swapped.timer.saved, swapped.timer.saved⟩ : Timer) = _
        rw [timer]
  | slot i =>
    obtain ⟨swapped, ran, exchanged, accessible, timer⟩ :=
      swapToMemFromDisk_exchanges (m := paused) (i := i) inside
    refine Returns.bind ⟨(), swapped, ran, Returns.change_bind ⟨(), _, rfl, ?_⟩⟩
    refine ⟨⟨exchanged.entry, exchanged.content, exchanged.thread, exchanged.pageNum⟩, ?_, ?_⟩
    · show Function.update swapped.accessible k true = _
      rw [accessible, Function.update_idem]
    · show (⟨swapped.timer.saved, swapped.timer.saved⟩ : Timer) = _
      rw [timer]

/-- **Without the page, the process ends.** -/
theorem sigHandler_stops {m : Machine} {k : Nat} (missing : located m k = none) :
    sigHandler k m = none := by
  have same : located { m with timer := ⟨0, m.timer.remaining⟩ } k = located m k :=
    located_congr (by rfl) (by rfl) (by rfl) k
  rw [missing] at same
  unfold sigHandler pause_timer
  rw [change_run, look_run, same]
  rfl

theorem frameOf_eq_some {m : Machine} {page i : Nat} (found : frameOf m page = some i) :
    i < USER_PAGES ∧ (getPageThID (m.pages i)).toNat = m.thread ∧
      (getPagePgID (m.pages i)).toNat = page ∧
      ∀ j < i, (getPageThID (m.pages j)).toNat = m.thread →
        (getPagePgID (m.pages j)).toNat ≠ page := by
  unfold frameOf at found
  rw [List.find?_range_eq_some] at found
  obtain ⟨label, inside, first⟩ := found
  obtain ⟨thID, pgID⟩ := of_decide_eq_true label
  refine ⟨List.mem_range.mp inside, thID, pgID, fun j before same equal => ?_⟩
  have none := first j before
  simp [same, equal] at none

theorem slotOf_eq_some {m : Machine} {page i : Nat} (found : slotOf m page = some i) :
    i < DISK_PAGES ∧ Labels (m.diskPages i) m.thread page := by
  unfold slotOf at found
  rw [List.find?_range_eq_some] at found
  obtain ⟨label, inside, _⟩ := found
  obtain ⟨used, thID, pgID⟩ := of_decide_eq_true label
  exact ⟨List.mem_range.mp inside, used, thID, pgID⟩

/-- A place found is one of the tables. -/
theorem located_valid {m : Machine} {k : Nat} {place : Place} (found : located m k = some place) :
    place.Valid := by
  unfold located at found
  cases frame : frameOf m k with
  | some i =>
    rw [frame] at found
    cases found
    exact (frameOf_eq_some frame).1
  | none =>
    rw [frame] at found
    obtain ⟨i, slot, rfl⟩ := Option.map_eq_some_iff.mp found
    exact (slotOf_eq_some slot).1

/-- **An access**: nothing, or a fault. -/
theorem touch_run {m m' : Machine} {k : Nat} (ran : touch k m = some ((), m')) :
    k < USER_PAGES ∧ ((m.accessible k = true ∧ m' = m) ∨
      (m.accessible k = false ∧ ∃ place, located m k = some place ∧ Fetched k place m m')) := by
  by_cases inside : k < USER_PAGES
  · refine ⟨inside, ?_⟩
    rw [touch, if_pos inside, look_run] at ran
    cases reachable : m.accessible k with
    | true =>
      rw [reachable, if_pos rfl] at ran
      cases ran
      exact Or.inl ⟨rfl, rfl⟩
    | false =>
      rw [reachable, if_neg (by simp)] at ran
      refine Or.inr ⟨rfl, ?_⟩
      cases found : located m k with
      | none =>
        rw [sigHandler_stops found] at ran
        cases ran
      | some place => exact ⟨place, rfl, (sigHandler_fetches inside found).of_run ran⟩
  · rw [touch, if_neg inside] at ran
    cases ran

/-! ### Permuted entries -/

/-- **The entries are permuted**, and nothing else of the tables changes. -/
structure Permutes (m m' : Machine) : Prop where
  moved : ∃ moved : Equiv.Perm Place,
    (∀ place, (moved place).Valid ↔ place.Valid) ∧ m'.entry = m.entry ∘ moved
  thread : m'.thread = m.thread
  pageNum : m'.pageNum = m.pageNum

theorem permutes_composes : Composes Permutes := by
  refine ⟨fun m => ⟨⟨Equiv.refl _, fun _ => Iff.rfl, rfl⟩, rfl, rfl⟩, ?_⟩
  rintro m m' m'' ⟨⟨first, valid, entry⟩, thread, pageNum⟩ ⟨⟨second, valid', entry'⟩, thread', pageNum'⟩
  refine ⟨⟨second.trans first, fun place => ?_, ?_⟩, thread'.trans thread, pageNum'.trans pageNum⟩
  · rw [Equiv.trans_apply, valid, valid']
  · rw [entry', entry]
    rfl

theorem swap_valid {a b : Place} (left : a.Valid) (right : b.Valid) (place : Place) :
    (Equiv.swap a b place).Valid ↔ place.Valid := by
  by_cases atA : place = a
  · rw [atA, Equiv.swap_apply_left]
    exact ⟨fun _ => left, fun _ => right⟩
  · by_cases atB : place = b
    · rw [atB, Equiv.swap_apply_right]
      exact ⟨fun _ => right, fun _ => left⟩
    · rw [Equiv.swap_apply_of_ne_of_ne atA atB]

theorem Exchanged.permutes {k : Nat} {place : Place} {m m' : Machine}
    (exchanged : Exchanged k place m m') (inside : k < USER_PAGES) (valid : place.Valid) :
    Permutes m m' :=
  ⟨⟨Equiv.swap (.frame k) place, swap_valid inside valid, exchanged.entry⟩, exchanged.thread,
    exchanged.pageNum⟩

/-- A change of what is not in the tables. -/
theorem permutes_of_eq {m m' : Machine} (pages : m'.pages = m.pages)
    (diskPages : m'.diskPages = m.diskPages) (thread : m'.thread = m.thread)
    (pageNum : m'.pageNum = m.pageNum) : Permutes m m' := by
  refine ⟨⟨Equiv.refl _, fun _ => Iff.rfl, ?_⟩, thread, pageNum⟩
  funext place
  cases place with
  | frame i => exact congrFun pages i
  | slot i => exact congrFun diskPages i

/-- **An access permutes the entries.** -/
theorem keeps_touch (k : Nat) : Keeps Permutes (touch k) := by
  rintro m ⟨⟩ m' ran
  obtain ⟨inside, ⟨_, rfl⟩ | ⟨_, place, found, fetched⟩⟩ := touch_run ran
  · exact permutes_composes.refl _
  · exact fetched.permutes inside (located_valid found)

theorem keeps_touchBoth (first second : Nat) : Keeps Permutes (touchBoth first second) :=
  Keeps.bind permutes_composes (keeps_touch _) fun _ =>
    Keeps.bind permutes_composes (keeps_touch _) fun _ => keeps_touch _

theorem keeps_load (a : Nat) : Keeps Permutes (paged.load a) :=
  Keeps.bind permutes_composes (keeps_touchBoth _ _) fun _ => Keeps.look permutes_composes _

theorem keeps_store (a : Nat) (w : BitVec 32) : Keeps Permutes (paged.store a w) :=
  Keeps.bind permutes_composes (keeps_touchBoth _ _) fun _ =>
    Keeps.change fun _ => permutes_of_eq rfl rfl rfl rfl

theorem keeps_mprotect (k : Nat) (access : Bool) : Keeps Permutes (mprotect k access) :=
  Keeps.change fun _ => permutes_of_eq rfl rfl rfl rfl

theorem keeps_pause : Keeps Permutes pause_timer :=
  Keeps.change fun _ => permutes_of_eq rfl rfl rfl rfl

theorem keeps_unpause : Keeps Permutes unpause_timer :=
  Keeps.change fun _ => permutes_of_eq rfl rfl rfl rfl

theorem keeps_pageSwap {k i : Nat} (inside : k < USER_PAGES) (inside' : i < USER_PAGES) :
    Keeps Permutes (pageSwap k i) := by
  rintro m ⟨⟩ m' ran
  by_cases same : k = i
  · rw [pageSwap, if_pos same] at ran
    cases ran
    exact permutes_composes.refl _
  · obtain ⟨m'', ran', exchanged, _⟩ := pageSwap_exchanges (m := m) same
    rw [ran] at ran'
    cases ran'
    exact exchanged.permutes inside inside'

theorem keeps_swapToMemFromDisk {k i : Nat} (inside : i < DISK_PAGES) :
    Keeps Permutes (swapToMemFromDisk k i) := by
  rintro m ⟨⟩ m' ran
  by_cases inMemory : k < USER_PAGES
  · obtain ⟨m'', ran', exchanged, _⟩ := swapToMemFromDisk_exchanges (m := m) (i := i) inMemory
    rw [ran] at ran'
    cases ran'
    exact exchanged.permutes inMemory inside
  · rw [swapToMemFromDisk, if_neg inMemory] at ran
    cases ran

/-- **`alignPages` permutes the entries.** -/
theorem keeps_alignPages : Keeps Permutes alignPages := by
  have frames : ∀ indices : List Nat, (∀ i ∈ indices, i < USER_PAGES) →
      Keeps Permutes (alignFrames indices) := by
    intro indices inside
    induction indices with
    | nil => exact Keeps.pure permutes_composes _
    | cons i rest ih =>
      have later := ih fun j member => inside j (List.mem_cons_of_mem _ member)
      refine Keeps.bind permutes_composes (Keeps.look permutes_composes _) fun pg => ?_
      refine Keeps.bind permutes_composes (Keeps.look permutes_composes _) fun thread => ?_
      split
      · rename_i home
        have bound := inside i List.mem_cons_self
        exact Keeps.bind permutes_composes (keeps_pageSwap bound (home.2 ▸ bound)) fun _ =>
          Keeps.bind permutes_composes (keeps_mprotect _ _) fun _ => later
      · exact later
  have slots : ∀ indices : List Nat, (∀ i ∈ indices, i < DISK_PAGES) →
      Keeps Permutes (alignSlots indices) := by
    intro indices inside
    induction indices with
    | nil => exact Keeps.pure permutes_composes _
    | cons i rest ih =>
      have later := ih fun j member => inside j (List.mem_cons_of_mem _ member)
      refine Keeps.bind permutes_composes (Keeps.look permutes_composes _) fun pg => ?_
      refine Keeps.bind permutes_composes (Keeps.look permutes_composes _) fun thread => ?_
      split
      · rename_i home
        have bound := inside i List.mem_cons_self
        exact Keeps.bind permutes_composes (keeps_swapToMemFromDisk (home.2.2 ▸ bound)) fun _ =>
          Keeps.bind permutes_composes (keeps_mprotect _ _) fun _ => later
      · exact later
  exact Keeps.bind permutes_composes (frames _ fun _ => List.mem_range.mp) fun _ =>
    slots _ fun _ => List.mem_range.mp

end OS2017.Paging
