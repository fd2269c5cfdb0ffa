/-
**Pages are neither lost nor doubled.**

`pageSwap` and `swapToMemFromDisk` exchange two entries with their contents; `moveToFreeSpace` and
`moveToDiskSpace` copy an entry over a free one and mark the old place free. What is in use, with
thread id, page id and content, is `Machine.held` at each place and `Machine.inUse` all together:
each of the four only moves it between the places (`move_relocates`), whatever the tables hold
before, so any run of them keeps it (`moves_keep_pages`).

The copy of `moveToFreeSpace` is the only access that the functions do not unprotect first: it is
called with all frames accessible, and between the calls frames may be protected and opened.
-/

import OS2017.Paging.Growth
import OS2017.Lib.Relocation
import OS2017.Lib.Run

namespace OS2017.Paging

open OS2017.Bytes OS2017.Heap OS2017.Run OS2017.Relocation

/-! ### What is in use -/

/-- **The entry in use at a place**: thread id, page id and content. -/
def Machine.held (m : Machine) (place : Place) :
    Option (BitVec 32 × BitVec 32 × List (BitVec 8)) :=
  if getPageIsF (m.entry place) = 1 then none
  else some (getPageThID (m.entry place), getPagePgID (m.entry place),
    (List.range PAGESIZE).map (m.content place))

/-- **All entries in use**, of both tables. -/
def Machine.inUse (m : Machine) : Multiset (BitVec 32 × BitVec 32 × List (BitVec 8)) :=
  holdings places m.held

/-- A call of one of the four functions, or a change of the protection between two calls. -/
inductive Move
  | pageSwap (initial swapTo : Nat)
  | swapToMemFromDisk (inMem fromDisk : Nat)
  | moveToFreeSpace (index : Nat)
  | moveToDiskSpace (index : Nat)
  | mprotect (index : Nat) (access : Bool)

/-- The machine after a call. -/
def move (m : Machine) : Move → Option Machine
  | .pageSwap initial swapTo => (pageSwap initial swapTo m).map (·.2)
  | .swapToMemFromDisk inMem fromDisk => (swapToMemFromDisk inMem fromDisk m).map (·.2)
  | .moveToFreeSpace index => (moveToFreeSpace index m).map (·.2)
  | .moveToDiskSpace index => (moveToDiskSpace index m).map (·.2)
  | .mprotect index access => (mprotect index access m).map (·.2)

/-- **The indices are in range, and the frames `moveToFreeSpace` copies are accessible.** -/
def InRange (m : Machine) : Move → Prop
  | .pageSwap initial swapTo => initial < USER_PAGES ∧ swapTo < USER_PAGES
  | .swapToMemFromDisk inMem fromDisk => inMem < USER_PAGES ∧ fromDisk < DISK_PAGES
  | .moveToFreeSpace index => index < USER_PAGES ∧ ∀ i < USER_PAGES, m.accessible i = true
  | .moveToDiskSpace index => index < USER_PAGES
  | .mprotect _ _ => True

/-- **The result of making room**: with `true` the entry is free, with `false` nothing has
changed. -/
structure MadeRoom (index : Nat) (result : Bool) (m m' : Machine) : Prop where
  freed : result = true → getPageIsF (m'.pages index) = 1
  unchanged : result = false → m' = { m with timer := m'.timer }

/-! ### One call -/

/-- A place that has got the entry and the content of another one. -/
theorem held_of_same {m m' : Machine} {p q : Place} (entry : m'.entry p = m.entry q)
    (content : ∀ o < PAGESIZE, m'.content p o = m.content q o) : m'.held p = m.held q := by
  have bytes : (List.range PAGESIZE).map (m'.content p) = (List.range PAGESIZE).map (m.content q) :=
    List.map_congr_left fun o inside => content o (List.mem_range.mp inside)
  unfold Machine.held
  rw [entry, bytes]

theorem held_of_free {m : Machine} {p : Place} (isFree : getPageIsF (m.entry p) = 1) :
    m.held p = none := if_pos isFree

/-- **An exchange relocates what is in use.** -/
theorem Exchanged.relocates {k : Nat} {place : Place} {m m' : Machine}
    (exchanged : Exchanged k place m m') (inside : k < USER_PAGES) (valid : place.Valid) :
    Relocated places m.held m'.held := by
  have frame : (Place.frame k).Valid := inside
  exact .exchange (mem_places.mpr frame) (mem_places.mpr valid) fun p =>
    held_of_same (congrFun exchanged.entry p) (exchanged.content p)

theorem pageSwap_returns {m : Machine} {initial swapTo : Nat} (inside : initial < USER_PAGES)
    (inside' : swapTo < USER_PAGES) :
    Returns (pageSwap initial swapTo) m fun _ m' => Relocated places m.held m'.held := by
  by_cases same : initial = swapTo
  · exact ⟨(), m, by rw [pageSwap, if_pos same]; rfl, .refl _⟩
  · obtain ⟨m', ran, exchanged, _⟩ := pageSwap_exchanges (m := m) same
    exact ⟨(), m', ran, exchanged.relocates inside inside'⟩

theorem swapToMemFromDisk_returns {m : Machine} {inMem fromDisk : Nat} (inside : inMem < USER_PAGES)
    (inside' : fromDisk < DISK_PAGES) :
    Returns (swapToMemFromDisk inMem fromDisk) m fun _ m' => Relocated places m.held m'.held := by
  obtain ⟨m', ran, exchanged, _⟩ := swapToMemFromDisk_exchanges (m := m) (i := fromDisk) inside
  exact ⟨(), m', ran, exchanged.relocates inside inside'⟩

/-- **The copy to a free frame.** -/
theorem copied_relocates {m : Machine} {index i : Nat} (different : i ≠ index)
    (inside : index < USER_PAGES) (inside' : i < USER_PAGES) (isFree : getPageIsF (m.pages i) = 1) :
    Relocated places m.held (copied (doubled m index i) index i).held := by
  have frame : (Place.frame index).Valid := inside
  have frame' : (Place.frame i).Valid := inside'
  refine .move (.frame index) (.frame i) (mem_places.mpr frame) (mem_places.mpr frame')
    (held_of_free isFree) (held_of_same ?_ fun o upTo => ?_)
    (held_of_free ?_) fun p notSource notTarget => held_of_same ?_ fun o upTo => ?_
  · show Function.update (doubled m index i).pages index _ i = m.pages index
    rw [Function.update_of_ne different]
    exact Function.update_self _ _ _
  · show copyPage m.frames m.frames i index (i * PAGESIZE + o) = m.frames (index * PAGESIZE + o)
    rw [copyPage_apply _ _ _ _ _ upTo, if_pos rfl]
  · show getPageIsF (Function.update (doubled m index i).pages index _ index) = 1
    rw [Function.update_self]
    exact getPageIsF_setPageIsF (by decide)
  · cases p with
    | slot j => rfl
    | frame j =>
      have away : j ≠ index := fun same => notSource (by rw [same])
      have away' : j ≠ i := fun same => notTarget (by rw [same])
      show Function.update (Function.update m.pages i _) index _ j = m.pages j
      rw [Function.update_of_ne away, Function.update_of_ne away']
  · cases p with
    | slot j => rfl
    | frame j =>
      have away' : j ≠ i := fun same => notTarget (by rw [same])
      show copyPage m.frames m.frames i index (j * PAGESIZE + o) = m.frames (j * PAGESIZE + o)
      rw [copyPage_apply _ _ _ _ _ upTo, if_neg away']

/-- **The copy to a free slot.** -/
theorem evicted_relocates {m : Machine} {index d : Nat} (inside : index < USER_PAGES)
    (inside' : d < DISK_PAGES) (isFree : getPageIsF (m.diskPages d) = 1) :
    Relocated places m.held (evicted m index d).held := by
  have frame : (Place.frame index).Valid := inside
  have slot : (Place.slot d).Valid := inside'
  refine .move (.frame index) (.slot d) (mem_places.mpr frame) (mem_places.mpr slot)
    (held_of_free isFree) (held_of_same ?_ fun o upTo => ?_)
    (held_of_free ?_) fun p notSource notTarget => held_of_same ?_ fun o upTo => ?_
  · exact Function.update_self d (m.pages index) m.diskPages
  · show copyPage m.swpFile m.frames d index (d * PAGESIZE + o) = m.frames (index * PAGESIZE + o)
    rw [copyPage_apply _ _ _ _ _ upTo, if_pos rfl]
  · show getPageIsF (Function.update m.pages index _ index) = 1
    rw [Function.update_self]
    exact getPageIsF_setPageIsF (by decide)
  · cases p with
    | slot j => exact Function.update_of_ne (fun same => notTarget (by rw [same])) _ _
    | frame j => exact Function.update_of_ne (fun same => notSource (by rw [same])) _ _
  · cases p with
    | slot j =>
      have away : j ≠ d := fun same => notTarget (by rw [same])
      show copyPage m.swpFile m.frames d index (j * PAGESIZE + o) = m.swpFile (j * PAGESIZE + o)
      rw [copyPage_apply _ _ _ _ _ upTo, if_neg away]
    | frame j => rfl

theorem moveToFreeSpace_returns {m : Machine} {index : Nat} (inside : index < USER_PAGES)
    (reachable : ∀ i < USER_PAGES, m.accessible i = true) :
    Returns (moveToFreeSpace index) m fun result m' =>
      MadeRoom index result m m' ∧ Relocated places m.held m'.held := by
  rw [moveToFreeSpace, if_pos inside]
  refine Returns.look_bind ?_
  cases found : freeFrame m with
  | none => exact Returns.pure ⟨⟨fun freed => (by cases freed), fun _ => rfl⟩, .refl _⟩
  | some i =>
    obtain ⟨inside', isFree, _⟩ := freeFrame_eq_some found
    dsimp only
    split
    · rename_i same
      subst same
      exact Returns.pure ⟨⟨fun _ => isFree, fun failed => (by cases failed)⟩, .refl _⟩
    · rename_i different
      have touched : touchBoth index i (doubled m index i) = some ((), doubled m index i) := by
        refine touchBoth_open inside inside' (Function.update_self _ _ _) ?_
        exact (Function.update_of_ne different _ _).trans (reachable i inside')
      refine Returns.change_bind (Returns.look_bind (Returns.change_bind ?_))
      refine Returns.bind ⟨(), _, touched, Returns.change_bind (Returns.look_bind ?_)⟩
      refine Returns.change_bind (Returns.change_bind (Returns.pure
        ⟨⟨fun _ => ?_, fun failed => ?_⟩, ?_⟩))
      · show getPageIsF (Function.update (doubled m index i).pages index _ index) = 1
        rw [Function.update_self]
        exact getPageIsF_setPageIsF (by decide)
      · cases failed
      · exact copied_relocates different inside inside' isFree

theorem moveToDiskSpace_returns {m : Machine} {index : Nat} (inside : index < USER_PAGES) :
    Returns (moveToDiskSpace index) m fun result m' =>
      MadeRoom index result m m' ∧ Relocated places m.held m'.held := by
  have same : freeSlot { m with timer := ⟨0, m.timer.remaining⟩ } = freeSlot m := by
    unfold freeSlot
    rfl
  rw [moveToDiskSpace, if_pos inside]
  refine Returns.change_bind (Returns.look_bind ?_)
  rw [same]
  cases found : freeSlot m with
  | none =>
    refine Returns.change_bind (Returns.pure ⟨⟨fun freed => (by cases freed), fun _ => rfl⟩, ?_⟩)
    exact .refl _
  | some d =>
    obtain ⟨inside', isFree⟩ := freeSlot_eq_some found
    refine Returns.change_bind (Returns.change_bind (Returns.look_bind ?_))
    refine Returns.change_bind (Returns.change_bind (Returns.pure
      ⟨⟨fun _ => ?_, fun failed => ?_⟩, ?_⟩))
    · show getPageIsF (Function.update m.pages index _ index) = 1
      rw [Function.update_self]
      exact getPageIsF_setPageIsF (by decide)
    · cases failed
    · exact evicted_relocates inside inside' isFree

/-! ### Runs -/

theorem map_of_returns {α : Type} {prog : StateT Machine Option α} {m : Machine}
    (returns : Returns prog m fun _ m' => Relocated places m.held m'.held) :
    ∃ m', (prog m).map (·.2) = some m' ∧ Relocated places m.held m'.held := by
  obtain ⟨_, m', ran, relocated⟩ := returns
  exact ⟨m', by rw [ran]; rfl, relocated⟩

/-- **Each call returns, and relocates what is in use.** -/
theorem move_relocates {m : Machine} {call : Move} (inRange : InRange m call) :
    ∃ m', move m call = some m' ∧ Relocated places m.held m'.held := by
  cases call with
  | pageSwap initial swapTo => exact map_of_returns (pageSwap_returns inRange.1 inRange.2)
  | swapToMemFromDisk inMem fromDisk =>
    exact map_of_returns (swapToMemFromDisk_returns inRange.1 inRange.2)
  | moveToFreeSpace index =>
    exact map_of_returns ((moveToFreeSpace_returns inRange.1 inRange.2).mono fun _ _ done => done.2)
  | moveToDiskSpace index =>
    exact map_of_returns ((moveToDiskSpace_returns inRange).mono fun _ _ done => done.2)
  | mprotect index access =>
    have ran : mprotect index access m
      = some ((), { m with accessible := Function.update m.accessible index access }) := rfl
    have unmoved : Relocated places m.held
        { m with accessible := Function.update m.accessible index access }.held := .refl _
    exact map_of_returns ⟨(), _, ran, unmoved⟩

theorem relocated_of_reach {m m' : Machine} (reached : Reach (· = m) InRange (execStep move) m') :
    Relocated places m.held m'.held := by
  refine reached.invariant (fun m' => Relocated places m.held m'.held) (fun _ started => ?_)
    fun _ _ _ before inRange taken => ?_
  · rw [started]
    exact .refl _
  · obtain ⟨after, ran, relocated⟩ := move_relocates inRange
    cases taken.symm.trans ran
    exact before.trans relocated

/-- **Page moves keep what is in use**: from every state, after every run of the four functions, the
entries in use are those there were, with their ids and contents, and the next call of any of the
functions returns; one that makes room says truthfully whether it did. -/
theorem moves_keep_pages (m m' : Machine) (reached : Reach (· = m) InRange (execStep move) m') :
    m'.inUse = m.inUse ∧ (∀ call, InRange m' call → ∃ after, move m' call = some after) ∧
      (∀ index, InRange m' (.moveToFreeSpace index) →
        Returns (moveToFreeSpace index) m' fun result after => MadeRoom index result m' after) ∧
      ∀ index, InRange m' (.moveToDiskSpace index) →
        Returns (moveToDiskSpace index) m' fun result after => MadeRoom index result m' after := by
  refine ⟨(relocated_of_reach reached).holdings_eq places_nodup, fun call inRange => ?_,
    fun index inRange => ?_, fun index inRange => ?_⟩
  · obtain ⟨after, ran, _⟩ := move_relocates inRange
    exact ⟨after, ran⟩
  · exact (moveToFreeSpace_returns inRange.1 inRange.2).mono fun _ _ done => done.1
  · exact (moveToDiskSpace_returns inRange).mono fun _ _ done => done.1

/-- The page 5 of thread 3 in frame 0, the page 6 in frame 1, and nothing free. -/
def twoPages : Machine where
  frames := fun a => if a < PAGESIZE then 7 else 8
  swpFile := fun _ => 0
  pages := fun i => if i = 0 then 0x50300 else if i = 1 then 0x60300 else 0
  diskPages := fun _ => 0
  accessible := fun _ => true
  thread := 3
  pageNum := fun _ => 0
  timer := ⟨0, 0⟩

theorem moves_keep_pages_twoPages :
    ∃ m', move twoPages (.pageSwap 0 1) = some m' ∧ m'.pages 0 = 0x60300 ∧ m'.frames 0 = 8 ∧
      m'.inUse = twoPages.inUse := by
  have start : Reach (· = twoPages) InRange (execStep move) twoPages := .init rfl
  have inRange : InRange twoPages (.pageSwap 0 1) := ⟨by decide, by decide⟩
  have ran : move twoPages (.pageSwap 0 1) = some _ := rfl
  exact ⟨_, ran, by decide, by decide, (moves_keep_pages _ _ (.next start inRange ran)).1⟩

end OS2017.Paging
