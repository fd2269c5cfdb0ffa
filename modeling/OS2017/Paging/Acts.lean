/-
**Acts of the threads, and the labels of all of them.**

An `Act` is an event of the system, or a store of the running thread; `free` and the threads' own
writes are stores. The labels stay right, and no label of an entry in use occurs twice, a dead
thread's neither (`SoundTables`, `sound_of_acts`).
-/

import OS2017.Paging.Labels
import OS2017.Paging.Align

namespace OS2017.Paging

open OS2017.Bytes OS2017.Heap OS2017.Run

/-- What can happen, with the stores of the running thread. -/
inductive Act
  | event (e : Event)
  | store (address : Nat) (word : BitVec 32)

/-- One act. -/
def System.act (s : System) : Act → Option System
  | .event e => s.next e
  | .store address word => s.call (paged.store address word)

/-- Events are in bounds, and a store is made by a live thread. -/
def Admitted (s : System) : Act → Prop
  | .event e => InBounds s e
  | .store _ _ => s.live s.machine.thread = true

instance (s : System) (a : Act) : Decidable (Admitted s a) := by
  cases a <;> unfold Admitted <;> infer_instance

theorem Admitted.running {s : System} {a : Act} (admitted : Admitted s a) :
    s.live s.machine.thread = true := by
  cases a with
  | event e => exact admitted.1
  | store address word => exact admitted

/-- **The tables are sound.** -/
structure SoundTables (s : System) : Prop where
  well : WellLabelled s
  once : LabelsOnce s.machine

/-! ### One call -/

/-- **The labels stay right**, and with right labels a property of the machine is kept. -/
def KeepsWith (holds : Machine → Prop) (m m' : Machine) : Prop :=
  ∀ live threadNum, Labelled live threadNum m.pageNum m.entry → live m.thread = true →
    (Labelled live threadNum m'.pageNum m'.entry ∧ m'.thread = m.thread) ∧ (holds m → holds m')

theorem keepsWith_composes (holds : Machine → Prop) : Composes (KeepsWith holds) := by
  refine ⟨fun m live threadNum labelled _ => ⟨⟨labelled, rfl⟩, id⟩, ?_⟩
  intro m m' m'' first second live threadNum labelled alive
  obtain ⟨⟨labelled', thread⟩, kept⟩ := first live threadNum labelled alive
  obtain ⟨⟨labelled'', thread'⟩, kept'⟩ := second live threadNum labelled' (thread ▸ alive)
  exact ⟨⟨labelled'', thread'.trans thread⟩, kept' ∘ kept⟩

/-- Permuted entries are labelled right. -/
theorem Permutes.keepsWith {holds : Machine → Prop} {m m' : Machine} (permutes : Permutes m m')
    (kept : holds m → holds m') : KeepsWith holds m m' := fun live threadNum labelled alive =>
  ⟨permutes.keepsLabels live threadNum labelled alive, kept⟩

theorem Permutes.once {m m' : Machine} (permutes : Permutes m m') (once : LabelsOnce m) :
    LabelsOnce m' := by
  obtain ⟨moved, valid, entry⟩ := permutes.moved
  intro t k place place' inside inside' left right
  rw [entry] at left right
  exact moved.injective (once t k _ _ ((valid place).mpr inside) ((valid place').mpr inside') left right)

theorem Permutes.keepsOnce {m m' : Machine} (permutes : Permutes m m') : KeepsWith LabelsOnce m m' :=
  permutes.keepsWith permutes.once

/-- The label of the new page is a new one. -/
theorem Vacated.once {live : Nat → Bool} {threadNum : Nat} {m m₁ m' : Machine} {index : Nat}
    (labelled : Labelled live threadNum m.pageNum m.entry) (alive : live m.thread = true)
    (vacated : Vacated index m m₁) (new : Initialized index m₁ m') (once : LabelsOnce m) :
    LabelsOnce m' := by
  obtain ⟨moved, valid, _, entry⟩ := vacated.filled new
  have label := labelled.newEntry alive (m₁.pages index)
  -- a label is one from before, elsewhere, or that of the new page
  have cases_label : ∀ {t k place}, place.Valid → Labels (m'.entry place) t k →
      (place ≠ .frame index ∧ Labels (m.entry (moved place)) t k ∧
        ¬ (t = m.thread ∧ k = m.pageNum m.thread)) ∨
      (place = .frame index ∧ t = m.thread ∧ k = m.pageNum m.thread) := by
    intro t k place inside found
    by_cases here : place = .frame index
    · rw [entry, here, Function.update_self] at found
      exact Or.inr ⟨here, found.thID.symm.trans label.thID, found.pgID.symm.trans label.pgID⟩
    · rw [entry, Function.update_of_ne here] at found
      refine Or.inl ⟨here, found, ?_⟩
      rintro ⟨rfl, rfl⟩
      exact absurd (labelled.below _ alive _ _ ((valid place).mpr inside) found) (lt_irrefl _)
  intro t k place place' inside inside' left right
  rcases cases_label inside left with ⟨_, old, notNew⟩ | ⟨here, isNew⟩ <;>
    rcases cases_label inside' right with ⟨_, old', notNew'⟩ | ⟨here', isNew'⟩
  · exact moved.injective (once t k _ _ ((valid place).mpr inside) ((valid place').mpr inside') old old')
  · exact absurd isNew' notNew
  · exact absurd isNew notNew'
  · rw [here, here']

/-- **The parts of a call keep the labels right and single.** -/
theorem keepsOnce_parts : KeptByParts makeRoom (KeepsWith LabelsOnce) where
  composes := keepsWith_composes LabelsOnce
  timer := fun _ _ => (permutes_of_eq rfl rfl rfl rfl).keepsOnce
  frames := fun _ _ => (permutes_of_eq rfl rfl rfl rfl).keepsOnce
  touch := fun k => (keeps_touch k).mono Permutes.keepsOnce
  alignPages := keeps_alignPages.mono Permutes.keepsOnce
  newPage := fun claimed room new live threadNum labelled alive => by
    obtain ⟨inside, ⟨_, vacated⟩ | ⟨other, _⟩⟩ := makeRoom_run labelled alive claimed.claimable room
    · have initialized := (initializePage_spec _ inside).of_run new
      exact ⟨vacated.initializes labelled alive inside initialized,
        vacated.once labelled alive initialized⟩
    · cases other
  noRoom := fun claimed room live threadNum labelled alive => by
    obtain ⟨_, ⟨other, _⟩ | ⟨_, permutes⟩⟩ := makeRoom_run labelled alive claimed.claimable room
    · cases other
    · exact permutes.keepsOnce live threadNum labelled alive

/-- **`myallocate` keeps the labels right and single.** -/
theorem keepsOnce_myallocate (size : Nat) :
    Keeps (KeepsWith LabelsOnce) (myallocate swapping size) :=
  keepsOnce_parts.myallocate size

/-! ### Switches and exits -/

/-- Entries that are released are not in use. -/
theorem labels_of_released {m : Machine} {t k : Nat} {place : Place}
    (label : Labels ((released m).entry place) t k) : Labels (m.entry place) t k := by
  cases place with
  | slot i => exact label
  | frame i =>
    by_cases both : i < USER_PAGES ∧ (getPageThID (m.pages i)).toNat = m.thread
    · have used := label.used
      rw [released_entry_of_mine both.1 both.2, getPageIsF_setPageIsF (by decide)] at used
      cases used
    · rwa [released_entry_of_not both] at label

theorem LabelsOnce.released {m : Machine} (once : LabelsOnce m) : LabelsOnce (released m) :=
  fun t k place place' inside inside' left right =>
    once t k place place' inside inside' (labels_of_released left) (labels_of_released right)

theorem LabelsOnce.of_entry {m m' : Machine} (once : LabelsOnce m) (entry : m'.entry = m.entry) :
    LabelsOnce m' := by
  unfold LabelsOnce
  rw [entry]
  exact once

theorem Switched.once {next : Nat} {m m' : Machine} (switched : Switched next m m')
    (once : LabelsOnce m) : LabelsOnce m' :=
  once.of_entry (entry_congr switched.pages switched.diskPages)

/-! ### Runs -/

theorem SoundTables.call {s : System} {m' : Machine} (sound : SoundTables s)
    (running : s.live s.machine.thread = true) (keeps : KeepsWith LabelsOnce s.machine m') :
    SoundTables { s with machine := m' } := by
  obtain ⟨labels, once⟩ := keeps _ _ sound.well running
  exact ⟨labels.1, once sound.once⟩

/-- **One act keeps the tables sound.** -/
theorem SoundTables.step {s s' : System} {a : Act} (sound : SoundTables s) (admitted : Admitted s a)
    (taken : s.act a = some s') : SoundTables s' := by
  have running := admitted.running
  cases a with
  | store address word =>
    obtain ⟨_, m', ran, rfl⟩ := System.call_run taken
    exact sound.call running (keepsOnce_parts.store _ _ _ _ _ ran)
  | event e =>
    refine ⟨sound.well.step admitted taken, ?_⟩
    change s.next e = some s' at taken
    cases e with
    | allocate size =>
      obtain ⟨result, m', ran, rfl⟩ := System.call_run taken
      exact (sound.call running (keepsOnce_myallocate size _ _ _ ran)).once
    | access address =>
      obtain ⟨_, m', ran, rfl⟩ := System.call_run taken
      exact (keeps_touch _ _ _ _ ran).once sound.once
    | switch next =>
      obtain ⟨_, m', ran, rfl⟩ := System.call_run taken
      exact (switchTo_run ran).once sound.once
    | exit next =>
      obtain ⟨_, m', ran, rfl⟩ := System.call_run taken
      rw [freePages, change_run] at ran
      cases next with
      | none =>
        cases ran
        exact sound.once.released
      | some next => exact (switchTo_run ran).once sound.once.released
    | create =>
      cases taken
      exact sound.once.of_entry rfl

theorem SystemStarted.sound {s : System} (started : SystemStarted s) : SoundTables s := by
  refine ⟨started.wellLabelled, fun t k place place' _ _ left _ => ?_⟩
  have used := left.used
  cases place with
  | frame i =>
    rw [show s.machine.entry (.frame i) = 1 from started.pages i] at used
    exact absurd used (by decide)
  | slot i =>
    rw [show s.machine.entry (.slot i) = 1 from started.diskPages i] at used
    exact absurd used (by decide)

/-- **The tables are sound along every run.** -/
theorem sound_of_acts {s : System} (reached : Reach SystemStarted Admitted (execStep System.act) s) :
    SoundTables s :=
  reached.invariant SoundTables (fun _ started => started.sound)
    fun _ _ _ sound admitted taken => sound.step admitted taken

end OS2017.Paging
