/-
**A thread gets a page.**

`alignPages` opens the pages of the running thread that are at home and fetches some from the swap
file. `makeRoom` and `initializePage` give it its next page: every page of every thread is kept, and
one free entry less is left (`Grown`). This needs that no page of the thread has its frame free
(`Reserved`): the copy of `moveToFreeSpace` would fault otherwise, and overwrite what it fetched.
-/

import OS2017.Paging.Views

namespace OS2017.Paging

open OS2017.Bytes OS2017.Heap

variable {live : Nat → Bool} {threadNum : Nat} {m m' : Machine}

/-! ### Alignment -/

/-- What is in no table does not matter. -/
theorem settled_of_eq (sheltered : Sheltered live threadNum m) (entry : m'.entry = m.entry)
    (content : m'.content = m.content) (thread : m'.thread = m.thread)
    (pageNum : m'.pageNum = m.pageNum)
    (reachable : ∀ i, m'.accessible i = true → m.accessible i = true ∨ Open m' i)
    (stays : ∀ i, m.accessible i = true → m'.accessible i = true) : Settled live threadNum m m' := by
  have pages : m'.pages = m.pages := funext fun i => congrFun entry (.frame i)
  have labelled : Labelled live threadNum m'.pageNum m'.entry := by
    rw [entry, pageNum]
    exact sheltered.labelled
  refine ⟨⟨labelled, ?_, ?_, fun i inside opened used => ?_, fun i inside opened isFree => ?_⟩, thread,
    pageNum, fun u alive => ?_, fun j opened => ?_, fun reserved => ?_⟩
  · rw [thread]
    exact sheltered.running
  · rw [pageNum]
    exact sheltered.bounded
  · rcases reachable i opened with before | now
    · rw [pages] at used ⊢
      rw [thread]
      exact sheltered.home i inside before used
    · exact now.label
  · rcases reachable i opened with before | now
    · rw [pages] at isFree
      rw [pageNum]
      exact sheltered.spare i inside before isFree
    · rw [now.label.used] at isFree
      cases isFree
  · refine view_eq_of_kept sheltered.labelled labelled alive (by rw [pageNum]) ?_
    intro k place inside label
    exact ⟨place, inside, by rw [entry]; exact label, fun o _ => by rw [content]⟩
  · exact ⟨stays j opened.reachable, by rw [pages, thread]; exact opened.label⟩
  · unfold Reserved
    rw [pages, pageNum, thread]
    exact reserved

/-- The timer is not memory. -/
theorem settled_timer (sheltered : Sheltered live threadNum m) (timer : Timer) :
    Settled live threadNum m { m with timer := timer } :=
  settled_of_eq sheltered rfl rfl rfl rfl (fun _ => Or.inl) fun _ => id

/-- A page at home is opened. -/
theorem settled_open (sheltered : Sheltered live threadNum m) {i : Nat}
    (label : Labels (m.pages i) m.thread i) :
    Settled live threadNum m { m with accessible := Function.update m.accessible i true } := by
  refine settled_of_eq sheltered rfl rfl rfl rfl (fun j opened => ?_) fun j opened => ?_
  · by_cases same : j = i
    · exact Or.inr ⟨opened, same ▸ label⟩
    · refine Or.inl ?_
      rw [← opened]
      exact (Function.update_of_ne same _ _).symm
  · by_cases same : j = i
    · show Function.update m.accessible i true j = true
      rw [same, Function.update_self]
    · show Function.update m.accessible i true j = true
      rwa [Function.update_of_ne same]

/-- **The first loop of `alignPages`** opens pages at home. -/
theorem alignFrames_settles {indices : List Nat} (inside : ∀ i ∈ indices, i < USER_PAGES)
    (sheltered : Sheltered live threadNum m) (ran : alignFrames indices m = some ((), m')) :
    Settled live threadNum m m' ∧ m'.entry = m.entry := by
  induction indices generalizing m with
  | nil =>
    cases ran
    exact ⟨Settled.refl sheltered, rfl⟩
  | cons i rest ih =>
    have later : ∀ j ∈ rest, j < USER_PAGES := fun j member => inside j (List.mem_cons_of_mem _ member)
    rw [alignFrames, look_run, look_run] at ran
    split at ran
    · rename_i home
      obtain ⟨thID, pgID⟩ := home
      have label : Labels (m.pages i) m.thread i := by
        rcases sheltered.labelled.flags (.frame i) (inside i List.mem_cons_self) with used | isFree
        · exact ⟨used, thID, pgID.symm⟩
        · exact absurd thID (sheltered.labelled.stale (.frame i) (inside i List.mem_cons_self) isFree _
            sheltered.running)
      rw [← pgID, pageSwap, if_pos rfl, mprotect] at ran
      have settled := settled_open sheltered label
      obtain ⟨settled', entry⟩ := ih later settled.sheltered ran
      exact ⟨settled.trans settled', entry⟩
    · exact ih later sheltered ran

/-- **The second loop of `alignPages`** fetches pages; a page in frame `0` is not sent away. -/
theorem alignSlots_settles {indices : List Nat} (inside : ∀ i ∈ indices, i < DISK_PAGES)
    (sheltered : Sheltered live threadNum m) (ran : alignSlots indices m = some ((), m')) :
    Settled live threadNum m m' ∧
      ((getPageThID (m.pages 0)).toNat = m.thread ∨
        (0 ∈ indices ∧ Labels (m.diskPages 0) m.thread 0) →
        (getPageThID (m'.pages 0)).toNat = m.thread) := by
  induction indices generalizing m with
  | nil =>
    cases ran
    refine ⟨Settled.refl sheltered, ?_⟩
    rintro (mine | ⟨none, _⟩)
    · exact mine
    · exact (List.not_mem_nil none).elim
  | cons i rest ih =>
    have later : ∀ j ∈ rest, j < DISK_PAGES := fun j member => inside j (List.mem_cons_of_mem _ member)
    rw [alignSlots, look_run, look_run] at ran
    split at ran
    · rename_i home
      obtain ⟨used, thID, pgID⟩ := home
      have label : Labels (m.diskPages i) m.thread i := ⟨used, thID, pgID.symm⟩
      have valid : (Place.slot i).Valid := inside i List.mem_cons_self
      have owned := sheltered.labelled.below _ sheltered.running i (.slot i) valid label
      have within : i < USER_PAGES := lt_of_lt_of_le owned (sheltered.bounded _ sheltered.running)
      rw [← pgID] at ran
      obtain ⟨m₁, ran₁, exchanged, accessible, _⟩ :=
        swapToMemFromDisk_exchanges (m := m) (i := i) within
      obtain ⟨_, m₁', ran₁', ran⟩ := run_bind ran
      rw [ran₁] at ran₁'
      cases ran₁'
      rw [mprotect, change_run] at ran
      set opened : Machine := { m₁ with accessible := Function.update m₁.accessible i true }
      have exchanged' : Exchanged i (.slot i) m opened :=
        ⟨exchanged.entry, exchanged.content, exchanged.thread, exchanged.pageNum⟩
      have accessible' : opened.accessible = Function.update m.accessible i true := by
        show Function.update m₁.accessible i true = _
        rw [accessible, Function.update_idem]
      obtain ⟨settled, openI⟩ := exchanged'.settles accessible' sheltered owned valid label
      obtain ⟨settled', zero⟩ := ih later settled.sheltered ran
      refine ⟨settled.trans settled', fun start => ?_⟩
      rw [← settled.thread]
      refine zero ?_
      by_cases first : i = 0
      · subst first
        exact Or.inl openI.label.thID
      · -- neither frame 0 nor slot 0 takes part
        have frame : opened.pages 0 = m.pages 0 := by
          show opened.entry (.frame 0) = m.entry (.frame 0)
          rw [exchanged'.entry, Function.comp_apply,
            Equiv.swap_apply_of_ne_of_ne (by simp [Ne.symm first]) (by simp)]
        have slot : opened.diskPages 0 = m.diskPages 0 := by
          show opened.entry (.slot 0) = m.entry (.slot 0)
          rw [exchanged'.entry, Function.comp_apply,
            Equiv.swap_apply_of_ne_of_ne (by simp) (by simp [Ne.symm first])]
        rw [frame, slot, settled.thread]
        rcases start with mine | ⟨member, zeroLabel⟩
        · exact Or.inl mine
        · exact Or.inr ⟨(List.mem_cons.mp member).resolve_left (Ne.symm first), zeroLabel⟩
    · rename_i other
      obtain ⟨settled, zero⟩ := ih later sheltered ran
      refine ⟨settled, fun start => zero ?_⟩
      rcases start with mine | ⟨member, zeroLabel⟩
      · exact Or.inl mine
      · rcases List.mem_cons.mp member with same | member
        · subst same
          exact absurd ⟨zeroLabel.used, zeroLabel.thID, zeroLabel.pgID.symm⟩ other
        · exact Or.inr ⟨member, zeroLabel⟩

/-- **`alignPages` settles.** Frame `0` then has a page of the running thread, if it had one before or
if slot `0` holds the thread's page `0`. -/
theorem alignPages_settles (sheltered : Sheltered live threadNum m)
    (ran : alignPages m = some ((), m')) : Settled live threadNum m m' ∧
      ((getPageThID (m.pages 0)).toNat = m.thread ∨ Labels (m.diskPages 0) m.thread 0 →
        (getPageThID (m'.pages 0)).toNat = m.thread) := by
  obtain ⟨_, m₁, first, second⟩ := run_bind ran
  obtain ⟨settled, entry⟩ := alignFrames_settles (fun _ => List.mem_range.mp) sheltered first
  obtain ⟨settled', zero⟩ := alignSlots_settles (fun _ => List.mem_range.mp) settled.sheltered second
  have frame : m₁.pages 0 = m.pages 0 := congrFun entry (.frame 0)
  have slot : m₁.diskPages 0 = m.diskPages 0 := congrFun entry (.slot 0)
  rw [frame, slot, settled.thread] at zero
  refine ⟨settled.trans settled', fun start => zero ?_⟩
  exact start.imp_right fun label => ⟨List.mem_range.mpr (by decide), label⟩

/-! ### Free entries -/

/-- All places. -/
def places : List Place := (List.range USER_PAGES).map .frame ++ (List.range DISK_PAGES).map .slot

/-- The free places. -/
def freePlaces (entry : Place → BitVec 32) : Finset Place :=
  (places.filter fun place => getPageIsF (entry place) = 1).toFinset

theorem mem_places {place : Place} : place ∈ places ↔ place.Valid := by
  unfold places
  cases place with
  | frame i => simp [Place.Valid]
  | slot i => simp [Place.Valid]

theorem mem_freePlaces {entry : Place → BitVec 32} {place : Place} :
    place ∈ freePlaces entry ↔ place.Valid ∧ getPageIsF (entry place) = 1 := by
  rw [freePlaces, List.mem_toFinset, List.mem_filter, mem_places, decide_eq_true_eq]

theorem places_nodup : places.Nodup := by
  refine List.nodup_append.mpr ⟨List.nodup_range.map fun i j => Place.frame.inj,
    List.nodup_range.map fun i j => Place.slot.inj, ?_⟩
  intro a left b right
  obtain ⟨i, _, rfl⟩ := List.mem_map.mp left
  obtain ⟨j, _, rfl⟩ := List.mem_map.mp right
  simp

theorem freeCount_eq (m : Machine) : freeCount m = (freePlaces m.entry).card := by
  have count : (freePlaces m.entry).card
      = places.countP fun place => getPageIsF (m.entry place) = 1 := by
    rw [freePlaces, List.toFinset_card_of_nodup (places_nodup.filter _),
      List.countP_eq_length_filter]
  rw [count]
  unfold places freeCount
  rw [List.countP_append, List.countP_map, List.countP_map]
  rfl

/-- **Permuted entries have as many free ones.** -/
theorem card_freePlaces_comp (entry : Place → BitVec 32) (moved : Equiv.Perm Place)
    (valid : ∀ place, (moved place).Valid ↔ place.Valid) :
    (freePlaces (entry ∘ moved)).card = (freePlaces entry).card := by
  refine Finset.card_equiv moved fun place => ?_
  rw [mem_freePlaces, mem_freePlaces, valid]
  rfl

/-- One free entry less. -/
theorem card_freePlaces_update (entry : Place → BitVec 32) {place : Place} (inside : place.Valid)
    (isFree : getPageIsF (entry place) = 1) {pg : BitVec 32} (used : getPageIsF pg = 0) :
    (freePlaces (Function.update entry place pg)).card + 1 = (freePlaces entry).card := by
  have erased : freePlaces (Function.update entry place pg) = (freePlaces entry).erase place := by
    ext other
    rw [Finset.mem_erase, mem_freePlaces, mem_freePlaces]
    by_cases same : other = place
    · rw [same, Function.update_self, used]
      simp
    · rw [Function.update_of_ne same]
      simp [same]
  rw [erased]
  exact Finset.card_erase_add_one (mem_freePlaces.mpr ⟨inside, isFree⟩)

theorem Permutes.freeCount (permutes : Permutes m m') : freeCount m' = freeCount m := by
  obtain ⟨moved, valid, entry⟩ := permutes.moved
  rw [freeCount_eq, freeCount_eq, entry, card_freePlaces_comp _ _ valid]

theorem freeCount_eq_zero (frames : freeFrame m = none) (slots : freeSlot m = none) :
    freeCount m = 0 := by
  rw [freeCount_eq, Finset.card_eq_zero, Finset.eq_empty_iff_forall_notMem]
  intro place free
  obtain ⟨inside, isFree⟩ := mem_freePlaces.mp free
  cases place with
  | frame i => exact freeFrame_eq_none frames inside isFree
  | slot i =>
    unfold freeSlot at slots
    rw [List.find?_range_eq_none] at slots
    have used := slots i inside
    simp only [Bool.not_eq_true', decide_eq_false_iff_not] at used
    exact used isFree

/-! ### The next page -/

/-- **Room in the frame `index`**: what was there is in the free entry `q`, the first free frame or,
without one, a slot. -/
structure Room (index : Nat) (q : Place) (m m' : Machine) : Prop where
  valid : q.Valid
  isFree : getPageIsF (m.entry q) = 1
  first : ∀ i < USER_PAGES, getPageIsF (m.pages i) = 1 → ∃ j, q = .frame j ∧ j ≤ i
  entry : ∀ place, place ≠ .frame index →
    m'.entry place = m.entry (Equiv.swap (.frame index) q place)
  content : ∀ place, place ≠ .frame index → ∀ o < PAGESIZE,
    m'.content place o = m.content (Equiv.swap (.frame index) q place) o
  accessible : ∀ i, i ≠ index → m'.accessible i = true → m.accessible i = true ∧ q ≠ .frame i
  thread : m'.thread = m.thread
  pageNum : m'.pageNum = m.pageNum

/-- A thread has no page with a number from `pageNum` on. -/
theorem not_located_doubled (sheltered : Sheltered live threadNum m) {index i : Nat}
    (inside : index < USER_PAGES) (beyond : m.pageNum m.thread ≤ i) :
    located (doubled m index i) i = none := by
  have label : ∀ place : Place, place.Valid → (getPageThID (m.entry place)).toNat = m.thread →
      (getPagePgID (m.entry place)).toNat ≠ i := by
    intro place valid thID pgID
    rcases sheltered.labelled.flags place valid with used | isFree
    · have below := sheltered.labelled.below _ sheltered.running i place valid ⟨used, thID, pgID⟩
      omega
    · exact sheltered.labelled.stale place valid isFree _ sheltered.running thID
  cases found : located (doubled m index i) i with
  | none => rfl
  | some place =>
    exfalso
    unfold located at found
    cases frame : frameOf (doubled m index i) i with
    | some j =>
      obtain ⟨within, thID, pgID, _⟩ := frameOf_eq_some frame
      by_cases same : j = i
      · have copy : (doubled m index i).pages j = m.pages index := by
          rw [same]
          exact Function.update_self _ _ _
        rw [copy] at thID pgID
        exact label (.frame index) inside thID pgID
      · have other : (doubled m index i).pages j = m.pages j := Function.update_of_ne same _ _
        rw [other] at thID pgID
        exact label (.frame j) within thID pgID
    | none =>
      rw [frame] at found
      obtain ⟨d, slot, _⟩ := Option.map_eq_some_iff.mp found
      obtain ⟨within, labels⟩ := slotOf_eq_some slot
      exact label (.slot d) within labels.thID labels.pgID

/-- **`makeRoom` makes room**, if the copy of `moveToFreeSpace` fetches no page. -/
theorem makeRoom_of_missing {index : Nat}
    (missing : ∀ i, freeFrame m = some i → located (doubled m index i) i = none)
    (ran : makeRoom index m = some (true, m')) :
    index < USER_PAGES ∧ ∃ q, Room index q m m' := by
  obtain ⟨freed, m₁, first, rest⟩ := run_bind ran
  obtain ⟨inside, ⟨none, rfl, rfl⟩ | ⟨found, rfl, rfl⟩ | ⟨i, different, found, rfl, m₂, touched, rfl⟩⟩ :=
    moveToFreeSpace_run first
  · -- to the swap file
    obtain ⟨_, ⟨_, impossible, _⟩ | ⟨d, slot, _, rfl⟩⟩ := moveToDiskSpace_run rest
    · cases impossible
    · obtain ⟨insideD, isFree⟩ := freeSlot_eq_some slot
      refine ⟨inside, .slot d, insideD, isFree, fun i within isFree' => ?_, fun place other => ?_,
        fun place other o within => ?_, fun i other reachable => ?_, rfl, rfl⟩
      · exact absurd isFree' (freeFrame_eq_none none within)
      · cases place with
        | slot j =>
          show Function.update m₁.diskPages d (m₁.pages index) j = _
          by_cases same : j = d
          · rw [same, Function.update_self, Equiv.swap_apply_right]
            rfl
          · rw [Function.update_of_ne same, Equiv.swap_apply_of_ne_of_ne (by simp) (by simp [same])]
            rfl
        | frame j =>
          rw [Equiv.swap_apply_of_ne_of_ne other (by simp)]
          exact Function.update_of_ne (fun same => other (by rw [same])) _ _
      · cases place with
        | slot j =>
          show copyPage m₁.swpFile m₁.frames d index (j * PAGESIZE + o) = _
          rw [copyPage_apply _ _ _ _ _ within]
          by_cases same : j = d
          · rw [if_pos same, same, Equiv.swap_apply_right]
            rfl
          · rw [if_neg same, Equiv.swap_apply_of_ne_of_ne (by simp) (by simp [same])]
            rfl
        | frame j =>
          rw [Equiv.swap_apply_of_ne_of_ne other (by simp)]
          rfl
      · refine ⟨?_, by simp⟩
        rw [← reachable]
        exact (Function.update_of_ne other _ _).symm
  · -- the frame is free already
    cases rest
    obtain ⟨_, isFree, before⟩ := freeFrame_eq_some found
    refine ⟨inside, .frame index, inside, isFree, fun i _ isFree' => ⟨index, rfl, ?_⟩,
      fun place _ => by rw [Equiv.swap_self]; rfl, fun place _ o _ => by rw [Equiv.swap_self]; rfl,
      fun i other reachable => ⟨reachable, by simp [Ne.symm other]⟩, rfl, rfl⟩
    by_contra later
    exact before i (by omega) isFree'
  · -- to the first free frame, which is open: the thread has no page for it
    cases rest
    obtain ⟨insideI, isFree, before⟩ := freeFrame_eq_some found
    have none := missing i found
    rcases touchBoth_doubled different (by rw [none]; simp) touched with
      ⟨_, rfl⟩ | ⟨_, place, _, there, _⟩
    · refine ⟨inside, .frame i, insideI, isFree, fun j _ isFree' => ⟨i, rfl, ?_⟩,
        fun place other => ?_, fun place other o within => ?_, fun j other reachable => ?_, rfl, rfl⟩
      · by_contra later
        exact before j (by omega) isFree'
      · cases place with
        | slot j =>
          rw [Equiv.swap_apply_of_ne_of_ne (by simp) (by simp)]
          rfl
        | frame j =>
          have away : j ≠ index := fun same => other (by rw [same])
          show Function.update (Function.update m.pages i (m.pages index)) index _ j = _
          rw [Function.update_of_ne away]
          by_cases same : j = i
          · rw [same, Function.update_self, Equiv.swap_apply_right]
            rfl
          · rw [Function.update_of_ne same, Equiv.swap_apply_of_ne_of_ne other (by simp [same])]
            rfl
      · cases place with
        | slot j =>
          rw [Equiv.swap_apply_of_ne_of_ne (by simp) (by simp)]
          rfl
        | frame j =>
          show copyPage m.frames m.frames i index (j * PAGESIZE + o) = _
          rw [copyPage_apply _ _ _ _ _ within]
          by_cases same : j = i
          · rw [if_pos same, same, Equiv.swap_apply_right]
            rfl
          · rw [if_neg same, Equiv.swap_apply_of_ne_of_ne other (by simp [same])]
            rfl
      · have opened : Function.update (Function.update m.accessible index true) i false j = true :=
          reachable
        by_cases same : j = i
        · rw [same, Function.update_self] at opened
          cases opened
        · rw [Function.update_of_ne same, Function.update_of_ne other] at opened
          exact ⟨opened, by simp [Ne.symm same]⟩
    · rw [none] at there
      cases there

/-- **`makeRoom` for the next page.** -/
theorem makeRoom_room (sheltered : Sheltered live threadNum m) (reserved : Reserved m)
    {index : Nat} (ran : makeRoom index m = some (true, m')) :
    index < USER_PAGES ∧ ∃ q, Room index q m m' := by
  have inside : index < USER_PAGES := by
    obtain ⟨_, _, first, _⟩ := run_bind ran
    exact (moveToFreeSpace_run first).1
  refine makeRoom_of_missing (fun i found => ?_) ran
  obtain ⟨insideI, isFree, _⟩ := freeFrame_eq_some found
  exact not_located_doubled sheltered inside (reserved i insideI isFree)

/-- **Without room** there is no free entry, and nothing has changed. -/
theorem makeRoom_fails {index : Nat} (sheltered : Sheltered live threadNum m)
    (ran : makeRoom index m = some (false, m')) :
    freeCount m = 0 ∧ Settled live threadNum m m' := by
  obtain ⟨freed, m₁, first, rest⟩ := run_bind ran
  obtain ⟨_, ⟨none, rfl, rfl⟩ | ⟨_, rfl, rfl⟩ | ⟨_, _, _, rfl, _⟩⟩ := moveToFreeSpace_run first
  · obtain ⟨_, ⟨slots, _, rfl⟩ | ⟨_, _, impossible, _⟩⟩ := moveToDiskSpace_run rest
    · exact ⟨freeCount_eq_zero none slots, settled_timer sheltered _⟩
    · cases impossible
  · cases rest
  · cases rest

/-- **The running thread has a page more**, and nobody has lost anything. -/
structure Grown (live : Nat → Bool) (threadNum : Nat) (m m' : Machine) : Prop where
  sheltered : Sheltered live threadNum m'
  thread : m'.thread = m.thread
  pageNum : m'.pageNum = Function.update m.pageNum m.thread (m.pageNum m.thread + 1)
  others : ∀ u, live u = true → u ≠ m.thread → m'.view u = m.view u
  mine : ∀ a < m.pageNum m.thread * PAGESIZE, m'.view m.thread a = m.view m.thread a
  reserved : Reserved m'
  freeCount : freeCount m' + 1 = freeCount m
  /-- the first page starts as an empty heap -/
  first : m.pageNum m.thread = 0 →
    Header (readWord (m'.view m.thread) 0) ⟨PAGESIZE - BLOCK_SIZE, true⟩ false

/-- The entry of a new page labels it. -/
theorem newEntry_labels (pg : BitVec 32) {thread page : Nat} (small : thread < 256)
    (fits : page < 65536) : Labels (newEntry pg thread page) thread page :=
  ⟨newEntry_isF _ _ _, newEntry_thID _ _ small, newEntry_pgID _ small fits⟩

section NewPage

variable {index : Nat} {q : Place} {m₁ : Machine}

/-- What is exchanged with the frame is free. -/
theorem Room.free_index (room : Room index q m m₁) :
    getPageIsF ((m.entry ∘ Equiv.swap (.frame index) q) (.frame index)) = 1 := by
  rw [Function.comp_apply, Equiv.swap_apply_left]
  exact room.isFree

/-- **The entries with the new page**: the frame is exchanged with the free entry, and labelled. -/
theorem Room.new_entry (room : Room index q m m₁) (new : Initialized index m₁ m') :
    m'.entry = Function.update (m.entry ∘ Equiv.swap (.frame index) q) (.frame index)
      (newEntry (m₁.pages index) m.thread (m.pageNum m.thread)) := by
  funext place
  by_cases here : place = .frame index
  · rw [here, Function.update_self]
    show m'.pages index = _
    rw [new.pages, Function.update_self, room.thread, room.pageNum]
  · rw [Function.update_of_ne here, Function.comp_apply, ← room.entry place here]
    cases place with
    | slot j => exact congrFun new.diskPages j
    | frame j =>
      show m'.pages j = m₁.pages j
      rw [new.pages, Function.update_of_ne (fun same => here (by rw [same]))]

/-- **What is elsewhere**: a header is written to the new page only. -/
theorem Room.new_content (room : Room index q m m₁) (new : Initialized index m₁ m')
    (small : m.thread < 256) (fits : m.pageNum m.thread < 65536)
    (next : index = m.pageNum m.thread) : ∀ place, place ≠ .frame index → ∀ o < PAGESIZE,
      m'.content place o = m.content (Equiv.swap (.frame index) q place) o := by
  intro place other o within
  rw [← room.content place other o within]
  cases place with
  | slot j => exact congrFun new.swpFile _
  | frame j =>
    rcases new.heap with ⟨_, frames, _⟩ | ⟨first, _, w, frames, _⟩
    · exact congrFun frames _
    · have zero : m.pageNum m.thread = 0 := by
        rw [room.thread, room.pageNum] at first
        rw [← newEntry_pgID (m₁.pages index) small fits, first]
        rfl
      have away : j ≠ 0 := fun same => other (by rw [same, next, zero])
      show m'.frames (j * PAGESIZE + o) = m₁.frames (j * PAGESIZE + o)
      rw [frames]
      refine writeWord_of_outside (Or.inr ?_)
      unfold PAGESIZE
      omega

/-- **One free entry less.** -/
theorem Room.new_freeCount (room : Room index q m m₁) (new : Initialized index m₁ m')
    (inside : index < USER_PAGES) : freeCount m' + 1 = freeCount m := by
  have valid : (Place.frame index).Valid := inside
  rw [freeCount_eq, freeCount_eq, room.new_entry new,
    card_freePlaces_update _ valid room.free_index (newEntry_isF _ _ _),
    card_freePlaces_comp _ _ (swap_valid valid room.valid)]

end NewPage

/-- **Room, and the new page in it.** -/
theorem Room.grows {index : Nat} {q : Place} {m₁ : Machine} (room : Room index q m m₁)
    (sheltered : Sheltered live threadNum m) (reserved : Reserved m) (inside : index < USER_PAGES)
    (next : index = m.pageNum m.thread) (new : Initialized index m₁ m') :
    Grown live threadNum m m' := by
  have running := sheltered.running
  have small : m.thread < 256 :=
    lt_of_lt_of_le (sheltered.labelled.ids _ running).2 sheltered.labelled.small
  have fits : m.pageNum m.thread < 65536 :=
    lt_of_le_of_lt (sheltered.labelled.pageNum_le running) (by decide)
  have validIndex : (Place.frame index).Valid := inside
  have thread : m'.thread = m.thread := new.thread.trans room.thread
  have pageNum : m'.pageNum = Function.update m.pageNum m.thread (m.pageNum m.thread + 1) := by
    rw [new.pageNum, room.thread, room.pageNum]
  have freeAtIndex := room.free_index
  have entry := room.new_entry new
  have content := room.new_content new small fits next
  have count := room.new_freeCount new inside
  set pg := newEntry (m₁.pages index) m.thread (m.pageNum m.thread) with pg_eq
  have label : Labels pg m.thread (m.pageNum m.thread) := newEntry_labels _ small fits
  have atIndex : m'.pages index = pg := by
    show m'.entry (.frame index) = pg
    rw [entry, Function.update_self]
  have labelled : Labelled live threadNum m'.pageNum m'.entry := by
    rw [entry, pageNum]
    exact (sheltered.labelled.permute _ (swap_valid validIndex room.valid)).fill running validIndex
      freeAtIndex label
  have accessible : ∀ i, i ≠ index → m'.accessible i = true →
      m.accessible i = true ∧ q ≠ .frame i := by
    intro i other reachable
    refine room.accessible i other ?_
    rcases new.heap with ⟨_, _, same⟩ | ⟨first, same, _⟩
    · rwa [same] at reachable
    · have zero : m.pageNum m.thread = 0 := by
        rw [room.thread, room.pageNum, ← pg_eq] at first
        rw [← label.pgID, first]
        rfl
      rwa [same, Function.update_of_ne (fun equal => other (by rw [equal, next, zero]))] at reachable
  have unmoved : ∀ {i}, i ≠ index → q ≠ .frame i → m'.pages i = m.pages i := by
    intro i other away
    show m'.entry (.frame i) = m.entry (.frame i)
    rw [entry, Function.update_of_ne (by simp [other]), Function.comp_apply,
      Equiv.swap_apply_of_ne_of_ne (by simp [other]) away.symm]
  have kept : ∀ u k place, place.Valid → Labels (m.entry place) u k → ∃ place', place'.Valid ∧
      Labels (m'.entry place') u k ∧ ∀ o < PAGESIZE, m'.content place' o = m.content place o := by
    intro u k place valid labels
    have notFree : place ≠ q := by
      rintro rfl
      have isFree := room.isFree
      rw [labels.used] at isFree
      cases isFree
    have other : Equiv.swap (.frame index) q place ≠ .frame index := by
      intro same
      rw [Equiv.swap_apply_eq_iff, Equiv.swap_apply_left] at same
      exact notFree same
    refine ⟨_, (swap_valid validIndex room.valid _).mpr valid, ?_, fun o within => ?_⟩
    · rw [entry, Function.update_of_ne other, Function.comp_apply, Equiv.swap_apply_self]
      exact labels
    · rw [content _ other o within, Equiv.swap_apply_self]
  refine ⟨⟨labelled, thread ▸ running, fun u alive => ?_, fun i within reachable used => ?_,
    fun i within reachable isFree u alive => ?_⟩, thread, pageNum, fun u alive different => ?_,
    fun a owned => view_of_kept sheltered.labelled labelled running (kept _) owned,
    fun i within isFree => ?_, ?_, fun zero => ?_⟩
  · rw [pageNum]
    by_cases same : u = m.thread
    · rw [same, Function.update_self]
      omega
    · rw [Function.update_of_ne same]
      exact sheltered.bounded u alive
  · by_cases same : i = index
    · rw [same, atIndex, thread]
      exact next ▸ label
    · obtain ⟨reachable', away⟩ := accessible i same reachable
      rw [unmoved same away] at used ⊢
      rw [thread]
      exact sheltered.home i within reachable' used
  · by_cases same : i = index
    · rw [same, atIndex, label.used] at isFree
      cases isFree
    · obtain ⟨reachable', away⟩ := accessible i same reachable
      rw [unmoved same away] at isFree
      have above := sheltered.spare i within reachable' isFree
      rw [pageNum]
      by_cases mine : u = m.thread
      · have := above _ running
        rw [mine, Function.update_self]
        omega
      · rw [Function.update_of_ne mine]
        exact above u alive
  · refine view_eq_of_kept sheltered.labelled labelled alive ?_ (kept u)
    rw [pageNum, Function.update_of_ne different]
  · rw [pageNum, thread, Function.update_self]
    by_cases same : i = index
    · rw [same, atIndex, label.used] at isFree
      cases isFree
    · by_cases away : q = .frame i
      · -- what came from the frame is not free: the first free one is not before it
        have moved : m'.pages i = m.pages index := by
          show m'.entry (.frame i) = m.entry (.frame index)
          rw [entry, Function.update_of_ne (by simp [same]), Function.comp_apply, away,
            Equiv.swap_apply_right]
        rw [moved] at isFree
        obtain ⟨j, equal, before⟩ := room.first index inside isFree
        rw [away] at equal
        cases equal
        have freeI : getPageIsF (m.pages i) = 1 := by
          have isFreeQ := room.isFree
          rw [away] at isFreeQ
          exact isFreeQ
        have := reserved i within freeI
        omega
      · rw [unmoved same away] at isFree
        have := reserved i within isFree
        omega
  · exact count
  · have atZero : Labels (m'.entry (.frame 0)) m.thread 0 := by
      have labels := label
      rw [← atIndex, next, zero] at labels
      exact labels
    have valid : (Place.frame 0).Valid := by
      show 0 < USER_PAGES
      decide
    have same : readWord (m'.view m.thread) 0 = readWord m'.frames 0 := by
      refine readWord_congr fun c _ below => ?_
      have byte := view_of_labels (o := c) labelled running _ valid atZero (by unfold PAGESIZE; omega)
      rw [Nat.zero_mul, Nat.zero_add] at byte
      rw [byte]
      show m'.frames (0 * PAGESIZE + c) = _
      rw [Nat.zero_mul, Nat.zero_add]
    rw [same]
    rcases new.heap with ⟨notFirst, _⟩ | ⟨_, _, w, frames, header⟩
    · exfalso
      apply notFirst
      rw [room.thread, room.pageNum, ← pg_eq]
      exact BitVec.eq_of_toNat_eq (label.pgID.trans zero)
    · rw [frames, readWord_writeWord]
      exact header

end OS2017.Paging
