/-
**The steps that lose the timer.**

`pause_timer` saves the remaining time in `scd->timer`, of which there is only one. Inside a call the
timer is paused already; a second `pause_timer` saves the time `0` over the first one, and from there
on both times are `0` (`Lost`): whatever `unpause_timer` follows, the timer is not armed again. The
steps that pause a second time are the faults on protected frames, the pages `alignPages` takes out
of the swap file, and the pages `moveToDiskSpace` puts there. The pager `watching` stops where one of
these would happen, and is the paged memory otherwise.
-/

import OS2017.Heap.Guarded
import OS2017.Paging.Room

namespace OS2017.Paging

open OS2017.Bytes OS2017.Heap OS2017.Guarded

/-! ### The guards -/

/-- Both frames can be accessed without a fault. -/
def openFrames (first second : Nat) (m : Machine) : Bool :=
  m.accessible first && m.accessible second

/-- Room for a page in the frame needs no swap file and no fault. -/
def roomy (index : Nat) (m : Machine) : Bool :=
  match freeFrame m with
  | none => false
  | some i => i = index || m.accessible i

/-- The swap file has the running thread's page at the page's own index. -/
def swappedAt (m : Machine) (i : Nat) : Prop :=
  getPageIsF (m.diskPages i) = 0 ∧ (getPageThID (m.diskPages i)).toNat = m.thread ∧
    i = (getPagePgID (m.diskPages i)).toNat

instance (m : Machine) (i : Nat) : Decidable (swappedAt m i) := by
  unfold swappedAt
  infer_instance

/-- `alignPages` takes nothing out of the swap file. -/
def settled (m : Machine) : Bool := (List.range DISK_PAGES).all fun i => !decide (swappedAt m i)

/-- An access to two frames that does not fault. -/
def watchedTouch (first second : Nat) : StateT Machine Option Unit :=
  guarded (openFrames first second) (touchBoth first second)

/-- The accesses of user space that do not fault. -/
def watchedPages : Store Machine where
  load a := do
    watchedTouch (a / PAGESIZE) ((a + 3) / PAGESIZE)
    look fun m => readWord m.frames a
  store a w := do
    watchedTouch (a / PAGESIZE) ((a + 3) / PAGESIZE)
    change fun m => { m with frames := writeWord m.frames a w }

/-- The paged memory without the steps that pause the timer. -/
def watching : Pager :=
  ⟨watchedPages, fun index => guarded (roomy index) (makeRoom index), guarded settled alignPages⟩

/-! ### Paused and lost -/

/-- The timer is paused, with the time saved. -/
def Paused (time : Nat) (m : Machine) : Prop := m.timer = ⟨0, time⟩

/-- Both times are `0`. -/
def Lost (m : Machine) : Prop := m.timer = ⟨0, 0⟩

/-- The timer stays as it is. -/
def SameTimer (m m' : Machine) : Prop := m'.timer = m.timer

variable {time : Nat}

/-- A program that leaves the timer alone. -/
theorem sameTimer_watched {α : Type} {program : StateT Machine Option α}
    (keeps : Keeps SameTimer program) :
    UntilBad Lost (Paused time) (fun _ => Paused time) program program :=
  UntilBad.same (fun paused ran => (keeps _ _ _ ran).trans paused)
    (fun lost ran => (keeps _ _ _ ran).trans lost)

/-- **One guarded step of a call**: where the timer is stopped, the step leaves it alone or loses it,
as the check says. -/
theorem stopped_watched {α : Type} {program : StateT Machine Option α} {check : Machine → Bool}
    {h : α → Prop}
    (run : ∀ {m a m'}, m.timer.remaining = 0 → program m = some (a, m') →
      (check m = true ∧ h a ∧ SameTimer m m') ∨ (check m = false ∧ Lost m')) :
    UntilBad Lost (Paused time) (fun a m => h a ∧ Paused time m) program
      (guarded check program) := by
  refine UntilBad.guard ?_ ?_ ?_
  · intro m a m' paused passed ran
    obtain ⟨_, answer, same⟩ | ⟨failed, _⟩ := run (by rw [paused]) ran
    · exact ⟨answer, same.trans paused⟩
    · rw [passed] at failed
      cases failed
  · intro m a m' paused failed ran
    obtain ⟨passed, _⟩ | ⟨_, lost⟩ := run (by rw [paused]) ran
    · rw [failed] at passed
      cases passed
    · exact lost
  · intro m a m' lost ran
    obtain ⟨_, _, same⟩ | ⟨_, lost'⟩ := run (by rw [lost]) ran
    · exact same.trans lost
    · exact lost'

/-- **A fault inside a call loses the timer.** -/
theorem touch_timer {m m' : Machine} {k : Nat} (stopped : m.timer.remaining = 0)
    (ran : touch k m = some ((), m')) :
    (m.accessible k = true ∧ m' = m) ∨ (m.accessible k = false ∧ Lost m') := by
  obtain ⟨_, opened | ⟨closed, place, _, fetched⟩⟩ := touch_run ran
  · exact Or.inl opened
  · refine Or.inr ⟨closed, ?_⟩
    unfold Lost
    rw [fetched.timer]
    cases place with
    | frame i =>
      show (⟨m.timer.remaining, m.timer.remaining⟩ : Timer) = _
      rw [stopped]
    | slot i => rfl

theorem touch_lost {m m' : Machine} {k : Nat} (lost : Lost m) (ran : touch k m = some ((), m')) :
    Lost m' := by
  obtain ⟨_, rfl⟩ | ⟨_, lost'⟩ := touch_timer (by rw [lost]) ran
  · exact lost
  · exact lost'

/-- **Two accesses at once.** -/
theorem touchBoth_timer {m m' : Machine} {j k : Nat} (stopped : m.timer.remaining = 0)
    (ran : touchBoth j k m = some ((), m')) :
    (openFrames j k m = true ∧ m' = m) ∨ (openFrames j k m = false ∧ Lost m') := by
  obtain ⟨_, m₁, first, rest⟩ := run_bind ran
  obtain ⟨_, m₂, second, third⟩ := run_bind rest
  unfold openFrames
  obtain ⟨opened, rfl⟩ | ⟨closed, lost⟩ := touch_timer stopped first
  · obtain ⟨opened', rfl⟩ | ⟨closed, lost⟩ := touch_timer stopped second
    · obtain ⟨_, rfl⟩ | ⟨closed, _⟩ := touch_timer stopped third
      · exact Or.inl ⟨by rw [opened, opened']; rfl, rfl⟩
      · rw [opened] at closed
        cases closed
    · exact Or.inr ⟨by rw [closed, Bool.and_false], touch_lost lost third⟩
  · exact Or.inr ⟨by rw [closed, Bool.false_and], touch_lost (touch_lost lost second) third⟩

theorem touchBoth_watched (j k : Nat) :
    UntilBad Lost (Paused time) (fun _ => Paused time) (touchBoth j k) (watchedTouch j k) := by
  refine (stopped_watched (h := fun _ => True) ?_).mono fun _ _ good => good.2
  intro m a m' stopped ran
  obtain ⟨opened, rfl⟩ | lost := touchBoth_timer stopped ran
  · exact Or.inl ⟨opened, trivial, rfl⟩
  · exact Or.inr lost

/-- **The accesses of user space.** -/
theorem watchedPages_watch : UntilBadStore Lost (Paused time) paged watchedPages where
  load _ := (touchBoth_watched _ _).bind fun _ => UntilBad.look
  store _ _ := (touchBoth_watched _ _).bind fun _ =>
    sameTimer_watched (Keeps.change fun _ => rfl)

/-! ### Moving pages -/

/-- **Room for a page**: from a free frame that can be accessed, or the timer is lost. -/
theorem makeRoom_timer {m m' : Machine} {index : Nat} {freed : Bool}
    (stopped : m.timer.remaining = 0) (ran : makeRoom index m = some (freed, m')) :
    (roomy index m = true ∧ freed = true ∧ SameTimer m m') ∨
      (roomy index m = false ∧ Lost m') := by
  obtain ⟨freed₁, m₁, first, rest⟩ := run_bind ran
  unfold roomy
  obtain ⟨_, ⟨full, rfl, rfl⟩ | ⟨found, rfl, rfl⟩ | ⟨i, different, found, rfl, m₂, touched, rfl⟩⟩ :=
    moveToFreeSpace_run first
  · rw [full]
    refine Or.inr ⟨rfl, ?_⟩
    have lost : (⟨m₁.timer.remaining, m₁.timer.remaining⟩ : Timer) = ⟨0, 0⟩ := by rw [stopped]
    obtain ⟨_, ⟨_, _, rfl⟩ | ⟨d, _, _, rfl⟩⟩ := moveToDiskSpace_run rest
    · exact lost
    · exact lost
  · cases rest
    rw [found]
    exact Or.inl ⟨by simp, rfl, rfl⟩
  · cases rest
    rw [found]
    have opened : openFrames index i (doubled m index i) = m.accessible i := by
      show (Function.update m.accessible index true index &&
        Function.update m.accessible index true i) = _
      rw [Function.update_self, Function.update_of_ne different, Bool.true_and]
    have stopped' : (doubled m index i).timer.remaining = 0 := stopped
    obtain ⟨isOpen, rfl⟩ | ⟨closed, lost⟩ := touchBoth_timer stopped' touched
    · rw [opened] at isOpen
      exact Or.inl ⟨by simp [isOpen], rfl, rfl⟩
    · rw [opened] at closed
      exact Or.inr ⟨by simp [closed, different], lost⟩

theorem makeRoom_watched (index : Nat) :
    UntilBad Lost (Paused time) (fun freed m => freed = true ∧ Paused time m) (makeRoom index)
      (watching.makeRoom index) :=
  stopped_watched makeRoom_timer

theorem initializePage_sameTimer (index : Nat) : Keeps SameTimer (initializePage index) := by
  intro m _ m' ran
  by_cases inside : index < USER_PAGES
  · exact ((initializePage_spec m inside).of_run ran).timer
  · rw [initializePage, if_neg inside] at ran
    cases ran

/-- The first loop of `alignPages` leaves alone what the second one reads, and the timer. -/
def SameSlots (m m' : Machine) : Prop :=
  m'.timer = m.timer ∧ m'.diskPages = m.diskPages ∧ m'.thread = m.thread

theorem sameSlots_composes : Composes SameSlots := by
  refine ⟨fun _ => ⟨rfl, rfl, rfl⟩, ?_⟩
  rintro m m' m'' ⟨timer, diskPages, thread⟩ ⟨timer', diskPages', thread'⟩
  exact ⟨timer'.trans timer, diskPages'.trans diskPages, thread'.trans thread⟩

theorem alignFrames_sameSlots (indices : List Nat) : Keeps SameSlots (alignFrames indices) := by
  induction indices with
  | nil => exact Keeps.pure sameSlots_composes ()
  | cons i rest ih =>
    intro m _ m' ran
    rw [alignFrames, look_run, look_run] at ran
    split at ran
    · rename_i home
      have opens : Keeps SameSlots (mprotect i true) := Keeps.change fun _ => ⟨rfl, rfl, rfl⟩
      rw [← home.2, pageSwap, if_pos rfl] at ran
      exact Keeps.bind sameSlots_composes (Keeps.pure sameSlots_composes ())
        (fun _ => Keeps.bind sameSlots_composes opens fun _ => ih) _ _ _ ran
    · exact ih _ _ _ ran

/-- **The second loop of `alignPages`**: it finds nothing to do, or loses the timer. -/
theorem alignSlots_timer (indices : List Nat) : ∀ {m m' : Machine}, m.timer.remaining = 0 →
    alignSlots indices m = some ((), m') →
    (∀ i ∈ indices, ¬swappedAt m i) ∧ m' = m ∨ (∃ i ∈ indices, swappedAt m i) ∧ Lost m' := by
  induction indices with
  | nil =>
    rintro m _ stopped ⟨⟩
    exact Or.inl ⟨by simp, rfl⟩
  | cons i rest ih =>
    intro m m' stopped ran
    rw [alignSlots, look_run, look_run] at ran
    by_cases found : swappedAt m i
    · refine Or.inr ⟨⟨i, by simp, found⟩, ?_⟩
      unfold swappedAt at found
      rw [if_pos found, swapToMemFromDisk] at ran
      split at ran
      · -- both times are lost with the second pause, and stay lost to the end of the list
        obtain ⟨_, m₁, swapped, ran'⟩ := run_bind ran
        cases swapped
        rw [mprotect, change_run] at ran'
        obtain ⟨_, rfl⟩ | ⟨_, lost⟩ := ih (by exact stopped) ran'
        · show (⟨m.timer.remaining, m.timer.remaining⟩ : Timer) = _
          rw [stopped]
        · exact lost
      · cases ran
    · have passed := found
      unfold swappedAt at passed
      rw [if_neg passed] at ran
      obtain ⟨none, rfl⟩ | ⟨⟨j, member, found'⟩, lost⟩ := ih stopped ran
      · exact Or.inl ⟨List.forall_mem_cons.mpr ⟨found, none⟩, rfl⟩
      · exact Or.inr ⟨⟨j, List.mem_cons_of_mem i member, found'⟩, lost⟩

theorem alignPages_watched :
    UntilBad Lost (Paused time) (fun _ => Paused time) alignPages watching.alignPages := by
  refine (stopped_watched (h := fun _ => True) ?_).mono fun _ _ good => good.2
  intro m _ m' stopped ran
  obtain ⟨_, m₁, first, second⟩ := run_bind ran
  obtain ⟨timer, diskPages, thread⟩ := alignFrames_sameSlots _ _ _ _ first
  have same : ∀ i, swappedAt m₁ i ↔ swappedAt m i := by
    intro i
    unfold swappedAt
    rw [diskPages, thread]
  have check : settled m = true ↔ ∀ i ∈ List.range DISK_PAGES, ¬swappedAt m₁ i := by
    unfold settled
    simp only [List.all_eq_true, Bool.not_eq_true', decide_eq_false_iff_not, same]
  obtain ⟨none, rfl⟩ | ⟨⟨i, member, found⟩, lost⟩ :=
    alignSlots_timer _ (by rw [timer, stopped]) second
  · exact Or.inl ⟨check.mpr none, trivial, timer⟩
  · refine Or.inr ⟨?_, lost⟩
    rw [← Bool.not_eq_true, check]
    exact fun none => none i member found

/-! ### Allocations -/

/-- The remaining time. -/
def Armed (time : Nat) (m : Machine) : Prop := m.timer.remaining = time

theorem pause_watched :
    UntilBad Lost (Armed time) (fun _ => Paused time) pause_timer pause_timer := by
  refine UntilBad.same ?_ ?_
  · rintro m _ _ armed ⟨⟩
    show (⟨0, m.timer.remaining⟩ : Timer) = _
    rw [armed]
  · rintro m _ _ lost ⟨⟩
    show (⟨0, m.timer.remaining⟩ : Timer) = _
    rw [lost]

theorem unpause_watched :
    UntilBad Lost (Paused time) (fun _ => Armed time) unpause_timer unpause_timer := by
  refine UntilBad.same ?_ ?_
  · rintro m _ _ paused ⟨⟩
    show m.timer.saved = _
    rw [paused]
  · rintro m _ _ lost ⟨⟩
    show (⟨m.timer.saved, m.timer.saved⟩ : Timer) = _
    rw [lost]

/-- A result, with the timer running again. -/
theorem unpause_return_watched {α : Type} (a : α) :
    UntilBad Lost (Paused time) (fun _ => Armed time) (unpause_timer >>= fun _ => pure a)
      (unpause_timer >>= fun _ => pure a) :=
  unpause_watched.bind fun _ => .pure fun _ armed => armed

/-- **A page that room is made for**, then the rest; without room there is nothing to watch. -/
theorem newPage_watched {α : Type} {index : Nat} {post : α → Machine → Prop}
    {rest watchedRest other : StateT Machine Option α}
    (next : UntilBad Lost (Paused time) post rest watchedRest)
    (stays : ∀ {m a m'}, Lost m → other m = some (a, m') → Lost m') :
    UntilBad Lost (Paused time) post
      (makeRoom index >>= fun freed =>
        if freed then initializePage index >>= fun _ => rest else other)
      (watching.makeRoom index >>= fun freed =>
        if freed then initializePage index >>= fun _ => watchedRest else other) := by
  refine (makeRoom_watched index).bind fun freed => .ite (fun _ => ?_) fun refused => ?_
  · refine UntilBad.strengthen ?_ fun _ good => good.2
    exact (sameTimer_watched (initializePage_sameTimer index)).bind fun _ => next
  · exact UntilBad.same (fun good _ => absurd good.1 refused) stays

theorem gatherPages_watched (lastBlock : Nat) : ∀ pagesNeeded,
    UntilBad Lost (Paused time) (fun _ => Paused time) (gatherPages swapping lastBlock pagesNeeded)
      (gatherPages watching lastBlock pagesNeeded) := by
  intro pagesNeeded
  induction pagesNeeded with
  | zero => exact .pure fun _ paused => paused
  | succ pagesNeeded ih =>
    refine UntilBad.look.bind fun nextPage => newPage_watched ?_ ?_
    · exact (watchedPages_watch.modify _ _).bind fun _ => ih
    · rintro m _ _ lost ⟨⟩
      exact lost

theorem newLastBlock_watched (prev : Nat) :
    UntilBad Lost (Paused time) (fun block m => block.isSome = true ∧ Paused time m)
      (newLastBlock swapping prev) (newLastBlock watching prev) := by
  refine UntilBad.look.bind fun nextPage => newPage_watched ?_ ?_
  · refine (freshBlock_watched watchedPages_watch _ _).bind fun _ => ?_
    exact (watchedPages_watch.modify _ _).bind fun _ => .pure fun _ paused => ⟨rfl, paused⟩
  · rintro m _ _ lost ⟨⟩
    exact lost

theorem growHeap_watched (size prev : Nat) :
    UntilBad Lost (Paused time) (fun _ => Armed time) (growHeap swapping size prev)
      (growHeap watching size prev) := by
  have hand : ∀ block, UntilBad Lost (Paused time) (fun _ => Armed time)
      (splitBlock paged block size (sizeWithBlock size) >>= fun _ =>
        unpause_timer >>= fun _ => pure (some (block + BLOCK_SIZE)))
      (splitBlock watchedPages block size (sizeWithBlock size) >>= fun _ =>
        unpause_timer >>= fun _ => pure (some (block + BLOCK_SIZE))) := fun block =>
    (splitBlock_watched watchedPages_watch _ _ _).bind fun _ => unpause_return_watched _
  refine .ite (fun _ => unpause_return_watched none) fun _ => ?_
  refine (watchedPages_watch.load prev).bind fun word => UntilBad.look.bind fun pagesNeeded => ?_
  refine .ite (fun _ => .ite (fun _ => ?_) fun _ => ?_) fun _ => unpause_return_watched none
  · exact (gatherPages_watched _ _).bind fun _ => hand prev
  · refine (newLastBlock_watched prev).bind fun block => ?_
    cases block with
    | none =>
      refine UntilBad.same (fun good _ => absurd good.1 (by decide)) ?_
      rintro m _ _ lost ⟨⟩
      exact lost
    | some block =>
      refine UntilBad.strengthen ?_ fun _ good => good.2
      exact (gatherPages_watched _ _).bind fun _ => hand block

theorem firstPage_watched :
    UntilBad Lost (Paused time) (fun ready m => ready = true ∧ Paused time m)
      (firstPage swapping) (firstPage watching) := by
  refine UntilBad.look.bind fun pg => UntilBad.look.bind fun thread => ?_
  refine .ite (fun _ => newPage_watched (.pure fun _ paused => ⟨rfl, paused⟩) ?_) fun _ =>
    .pure fun _ paused => ⟨rfl, paused⟩
  rintro m _ _ lost ⟨⟩
  exact lost

theorem searchHeap_watched (size : Nat) :
    UntilBad Lost (Paused time) (fun _ => Armed time) (searchHeap swapping size)
      (searchHeap watching size) := by
  refine (firstFitLoop_watched watchedPages_watch _ _ _ _).bind fun result => ?_
  cases result with
  | found ptr => exact unpause_return_watched _
  | exhausted prev => exact growHeap_watched size prev

/-- **`myallocate` with `THREADREQ`.** -/
theorem myallocate_watched (size : Nat) :
    UntilBad Lost (Armed time) (fun _ => Armed time) (myallocate swapping size)
      (myallocate watching size) := by
  refine pause_watched.bind fun _ => alignPages_watched.bind fun _ => ?_
  refine firstPage_watched.bind fun ready => .ite (fun _ => ?_) fun refused => ?_
  · exact (searchHeap_watched size).strengthen fun _ good => good.2
  · refine UntilBad.same (fun good _ => absurd good.1 refused) ?_
    rintro m _ _ lost ⟨⟩
    exact lost

end OS2017.Paging
