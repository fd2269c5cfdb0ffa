/-
**Thread ids fit their field of the page table.**

Nothing compares an id with `255` when `my_pthread_create` assigns it, and `setPageThID` would spill
a larger one into the page number. The bound is the library heap: each create that succeeds takes a
stack there which nobody gives back, and there is no room for more than `45` of them. So over whole
runs of the library each id fits its field (`ids_fit`), and the entry `initializePage` writes has the
id of the running thread and the number of its new page.
-/

import OS2017.Paging.Creates
import OS2017.Paging.Pointers

namespace OS2017.Paging

open OS2017.Bytes OS2017.Heap OS2017.FirstFit OS2017.Run

/-! ### The machines of a call -/

/-- **The machines met in a call of `myallocate`**, from the one it starts in on. -/
inductive Met : Machine → Machine → Prop
  | refl (m : Machine) : Met m m
  | trans {m m₁ m₂ : Machine} : Met m m₁ → Met m₁ m₂ → Met m m₂
  | timer (m : Machine) (timer : Timer) : Met m { m with timer := timer }
  | frames (m : Machine) (frames : Memory) : Met m { m with frames := frames }
  | touch {k : Nat} {m m₁ : Machine} : touch k m = some ((), m₁) → Met m m₁
  | alignPages {m m₁ : Machine} : alignPages m = some ((), m₁) → Met m m₁
  | newPage {m m₁ m₂ : Machine} {index : Nat} : Claimed m index →
      makeRoom index m = some (true, m₁) → initializePage index m₁ = some ((), m₂) → Met m m₂
  | noRoom {m m₁ : Machine} {index : Nat} : Claimed m index →
      makeRoom index m = some (false, m₁) → Met m m₁

theorem met_parts : KeptByParts makeRoom Met where
  composes := ⟨Met.refl, Met.trans⟩
  timer := Met.timer
  frames := Met.frames
  touch := fun _ _ _ _ ran => Met.touch ran
  alignPages := fun _ _ _ ran => Met.alignPages ran
  newPage := Met.newPage
  noRoom := Met.noRoom

/-- **A call of `myallocate` goes through machines that are met.** -/
theorem met_myallocate (size : Nat) : Keeps Met (myallocate swapping size) :=
  met_parts.myallocate size

/-- What the parts of a call keep holds of every machine met. -/
theorem Met.kept {related : Machine → Machine → Prop} (parts : KeptByParts makeRoom related)
    {m m' : Machine} (met : Met m m') : related m m' := by
  induction met with
  | refl m => exact parts.composes.refl m
  | trans _ _ first second => exact parts.composes.trans first second
  | timer m timer => exact parts.timer m timer
  | frames m frames => exact parts.frames m frames
  | touch ran => exact parts.touch _ _ _ _ ran
  | alignPages ran => exact parts.alignPages _ _ _ ran
  | newPage claimed room new => exact parts.newPage claimed room new
  | noRoom claimed room => exact parts.noRoom claimed room

/-! ### Runs -/

/-- The process, with the ids that `my_pthread_create` has assigned. -/
structure Colony where
  world : World
  ids : List Nat

/-- What can happen: an event of the process, or a create. -/
inductive ColonyEvent
  | call (e : WorldEvent)
  | my_pthread_create (placed : Placed) (thread : Object)

/-- The creation, with the id it assigns. -/
def Placed.assign (placed : Placed) (id : Nat) : Placed where
  new := { placed.new with threadNum := BitVec.ofNat 32 id }
  fields := placed.fields
  getcontext := placed.getcontext
  makecontext := placed.makecontext
  entry := placed.entry
  listed := placed.listed
  node := placed.node
  enQ := placed.enQ

/-- One event. A create that returns `0` has assigned `scd->threadNum` and made the thread. -/
def Colony.next (c : Colony) : ColonyEvent → Option Colony
  | .call e => (c.world.next e).map fun w => { c with world := w }
  | .my_pthread_create placed thread =>
    (my_pthread_create space (placed.assign c.world.threadNum).new thread c.world.process).bind
      fun (code, p) =>
        if code = 0 then
          ((c.world.put p).next .create).map fun w => ⟨w, c.world.threadNum :: c.ids⟩
        else some { c with world := c.world.put p }

/-- The blocks of the library heap, as its headers say. -/
def World.blocks (w : World) : List Block := blocksAt w.library LIBRARY_BYTES 0

theorem writable_iff {blocks : List Block} {a : Nat} : (LIBRARY_BYTES ≤ a ∨
    ∃ block ∈ taken BLOCK_SIZE 0 blocks, block.1 ≤ a ∧ a < block.1 + block.2) ↔
      Writable blocks a := by
  refine or_congr_right ⟨?_, ?_⟩
  · rintro ⟨⟨p, n⟩, member, low, high⟩
    exact ⟨p, n, mem_taken.mp member, low, high⟩
  · rintro ⟨p, n, holds, low, high⟩
    exact ⟨(p, n), mem_taken.mpr holds, low, high⟩

instance (blocks : List Block) (a : Nat) : Decidable (Writable blocks a) :=
  decidable_of_iff _ writable_iff

instance (blocks : List Block) (a : Nat) : Decidable (WordWritable blocks a) :=
  inferInstanceAs (Decidable (∀ i < 4, Writable blocks (a + i)))

instance (blocks : List Block) : ∀ thread : Object, Decidable (thread.Inside (Writable blocks))
  | .inside address => inferInstanceAs (Decidable (∀ i < 32, Writable blocks (address + i)))
  | .outside _ => isTrue trivial

/-- **What the events are.** `free` never gets the pointer of a block that the library took for
itself, the library frees its own, in the library heap only taken blocks are written, and the
scheduler switches to live threads. -/
def Conforms (w : World) : WorldEvent → Prop
  | .malloc _ => True
  | .free ptr => ∀ block ∈ taken BLOCK_SIZE 0 w.blocks, block.1 = ptr → block ∈ w.early
  | .write address _ => Writable w.blocks address
  | .read _ => True
  | .mallocLibrary _ => True
  | .freeLibrary ptr => ∃ block ∈ w.own, block.1 = ptr
  | .writeLibrary address _ => Writable w.blocks address
  | .initializeScheduler => w.scheduled = false
  | .switch next => w.scheduled = true ∧ w.live next = true
  | .exit next => w.scheduled = true ∧ w.live next = true ∧ next ≠ w.machine.thread
  -- a thread is made by `my_pthread_create` only
  | .create => False

instance (w : World) : ∀ e : WorldEvent, Decidable (Conforms w e)
  | .malloc _ | .read _ | .mallocLibrary _ => isTrue trivial
  | .free ptr => inferInstanceAs (Decidable (∀ block ∈ taken BLOCK_SIZE 0 w.blocks,
      block.1 = ptr → block ∈ w.early))
  | .write address _ => inferInstanceAs (Decidable (Writable w.blocks address))
  | .freeLibrary ptr => inferInstanceAs (Decidable (∃ block ∈ w.own, block.1 = ptr))
  | .writeLibrary address _ => inferInstanceAs (Decidable (Writable w.blocks address))
  | .initializeScheduler => inferInstanceAs (Decidable (w.scheduled = false))
  | .switch next => inferInstanceAs (Decidable (w.scheduled = true ∧ w.live next = true))
  | .exit next => inferInstanceAs (Decidable
      (w.scheduled = true ∧ w.live next = true ∧ next ≠ w.machine.thread))
  | .create => isFalse id

/-- The same, with the creates, which write to the fields of the scheduler and to the record of the
thread. -/
def ColonyLawful (c : Colony) : ColonyEvent → Prop
  | .call e => Conforms c.world e
  | .my_pthread_create placed thread => c.world.scheduled = true ∧
      (∀ field ∈ placed.fields, WordWritable c.world.blocks field) ∧
      thread.Inside (Writable c.world.blocks)

instance (c : Colony) : ∀ e : ColonyEvent, Decidable (ColonyLawful c e)
  | .call e => inferInstanceAs (Decidable (Conforms c.world e))
  | .my_pthread_create placed thread => inferInstanceAs (Decidable (c.world.scheduled = true ∧
      (∀ field ∈ placed.fields, WordWritable c.world.blocks field) ∧
      thread.Inside (Writable c.world.blocks)))

/-- The heap and the tables just made, and no id assigned. -/
def ColonyStarted (c : Colony) : Prop := WorldStarted c.world ∧ c.ids = []

/-- **The ids fit.** -/
structure IdsFit (c : Colony) : Prop where
  ids : ∀ id ∈ c.ids, id ≤ 255
  /-- the next one too -/
  threadNum : c.world.threadNum ≤ 255
  /-- each create has taken a stack, and it is taken still -/
  stack : ∃ (blocks : List Block) (ptrs : List Nat),
    Tiled c.world.library LIBRARY_BYTES blocks ∧ ptrs.Nodup ∧ ptrs.length = c.ids.length ∧
    ∀ stack ∈ ptrs, Holds BLOCK_SIZE 0 blocks stack STACK_SIZE
  /-- `initializePage`, wherever a call makes a page, writes the id and the number of the page -/
  labels : ∀ {m m₁ m₂ : Machine} {index : Nat}, Met c.world.machine m → Claimed m index →
    makeRoom index m = some (true, m₁) → initializePage index m₁ = some ((), m₂) →
    (getPageThID (m₂.pages index)).toNat = m₁.thread ∧
      (getPagePgID (m₂.pages index)).toNat = m₁.pageNum m₁.thread

/-! ### The stacks in the library heap -/

/-- **The stacks are taken blocks**, besides the other ones that somebody knows. -/
structure Stocked (m : Memory) (others : List (Nat × Nat)) (blocks : List Block)
    (ptrs : List Nat) : Prop where
  tiled : Tiled m LIBRARY_BYTES blocks
  known : ∀ p n, (p, n) ∈ others → Holds BLOCK_SIZE 0 blocks p n
  distinct : ptrs.Nodup
  stack : ∀ stack ∈ ptrs, Holds BLOCK_SIZE 0 blocks stack STACK_SIZE
  apart : ∀ stack ∈ ptrs, ∀ n, (stack, n) ∉ others

namespace Stocked

variable {m m' : Memory} {others others' : List (Nat × Nat)} {blocks blocks' : List Block}
  {ptrs : List Nat}

/-- **There is no room for more than `45` stacks.** -/
theorem length_le (stocked : Stocked m others blocks ptrs) : ptrs.length ≤ 45 := by
  have count := Holds.count stocked.distinct stocked.stack
  have extent := stocked.tiled.extent
  have bytes : LIBRARY_BYTES = 819200 := rfl
  have each : BLOCK_SIZE + STACK_SIZE = 18196 := rfl
  rw [show span BLOCK_SIZE blocks = LIBRARY_BYTES from extent, bytes, each] at count
  omega

theorem blocksAt_eq (stocked : Stocked m others blocks ptrs) :
    blocksAt m LIBRARY_BYTES 0 = blocks :=
  stocked.tiled.chain.blocksAt stocked.tiled.nonempty stocked.tiled.length_le

/-- Bytes are written, and something is forgotten. -/
theorem keep (stocked : Stocked m others blocks ptrs) (tiled : Tiled m' LIBRARY_BYTES blocks)
    (fewer : ∀ block ∈ others', block ∈ others) : Stocked m' others' blocks ptrs :=
  ⟨tiled, fun p n member => stocked.known p n (fewer _ member), stocked.distinct, stocked.stack,
    fun stack member n known => stocked.apart stack member n (fewer _ known)⟩

/-- **An allocation.** -/
theorem grant (stocked : Stocked m others blocks ptrs) {size : Nat} {result : Option Nat}
    (tiled : Tiled m' LIBRARY_BYTES blocks') (granted : Granted blocks blocks' size result)
    (known : ∀ p n, (p, n) ∈ others' → (p, n) ∈ others ∨ (result = some p ∧ n = size)) :
    Stocked m' others' blocks' ptrs := by
  refine ⟨tiled, fun p n member => ?_, stocked.distinct, fun stack member => ?_,
    fun stack member n bad => ?_⟩
  · exact (granted.holds p n).mpr ((known p n member).imp_left (stocked.known p n))
  · exact (granted.holds _ _).mpr (Or.inl (stocked.stack stack member))
  · rcases known stack n bad with before | ⟨new, _⟩
    · exact stocked.apart stack member n before
    · exact granted.fresh stack new STACK_SIZE (stocked.stack stack member)

/-- **A release** of a block that is no stack. -/
theorem release (stocked : Stocked m others blocks ptrs) {ptr n : Nat}
    (holds : Holds BLOCK_SIZE 0 blocks ptr n) (noStack : ptr ∉ ptrs)
    (released : FirstFit.release BLOCK_SIZE (ptr - BLOCK_SIZE) 0 blocks = some blocks')
    (tiled : Tiled m' LIBRARY_BYTES blocks')
    (rest : ∀ p k, (p, k) ∈ others' → (p, k) ∈ others ∧ p ≠ ptr) :
    Stocked m' others' blocks' ptrs := by
  have front := (stocked.tiled.bounds holds).1
  have after : ∀ p k, Holds BLOCK_SIZE 0 blocks' p k ↔ Holds BLOCK_SIZE 0 blocks p k ∧ p ≠ ptr := by
    intro p k
    rw [release_holds (by decide) released, Nat.sub_add_cancel front]
  refine ⟨tiled, fun p k member => ?_, stocked.distinct, fun stack member => ?_,
    fun stack member k bad => stocked.apart stack member k (rest _ _ bad).1⟩
  · obtain ⟨before, different⟩ := rest p k member
    exact (after p k).mpr ⟨stocked.known p k before, different⟩
  · refine (after _ _).mpr ⟨stocked.stack stack member, ?_⟩
    rintro rfl
    exact noStack member

/-- More blocks are taken. -/
theorem retain (stocked : Stocked m others blocks ptrs) (tiled : Tiled m' LIBRARY_BYTES blocks')
    (retains : Retains blocks blocks') : Stocked m' others blocks' ptrs :=
  ⟨tiled, fun p n member => retains p n (stocked.known p n member), stocked.distinct,
    fun stack member => retains _ _ (stocked.stack stack member), stocked.apart⟩

/-- **A new stack.** -/
theorem push (stocked : Stocked m others blocks ptrs) (tiled : Tiled m' LIBRARY_BYTES blocks')
    (retains : Retains blocks blocks') {stack : Nat}
    (new : Holds BLOCK_SIZE 0 blocks' stack STACK_SIZE)
    (fresh : ∀ n, ¬ Holds BLOCK_SIZE 0 blocks stack n) :
    Stocked m' others blocks' (stack :: ptrs) := by
  have kept := stocked.retain tiled retains
  refine ⟨tiled, kept.known, List.nodup_cons.mpr ⟨fun member => ?_, stocked.distinct⟩,
    List.forall_mem_cons.mpr ⟨new, kept.stack⟩, List.forall_mem_cons.mpr ⟨fun n known => ?_,
    kept.apart⟩⟩
  · exact fresh _ (stocked.stack stack member)
  · exact fresh n (stocked.known stack n known)

end Stocked

/-! ### One event -/

/-- **The invariant of a process**: the labels are right, the running thread is live, and the stacks
are taken. -/
structure Fits (w : World) (ptrs : List Nat) : Prop where
  labelled : Labelled w.live w.threadNum w.machine.pageNum w.machine.entry
  running : w.live w.machine.thread = true
  heap : ∃ blocks, Stocked w.library (w.early ++ w.own) blocks ptrs

/-- The access of a thread to a byte. -/
theorem reachByte_keeps {w : World} {a : Nat} {p : Process}
    (ran : reachByte a w.process = some ((), p)) :
    KeepsLabels w.machine p.machine ∧ p.library = w.library := by
  unfold reachByte at ran
  split at ran
  · cases ran
    exact ⟨keepsLabels_composes.refl _, rfl⟩
  · have permuted : Shuffles w.process p := keeps_onMachine (keeps_touch _) _ _ _ ran
    exact ⟨permuted.keepsLabels, sameLibrary_onMachine _ _ _ _ ran⟩

/-- Only a create changes the next id. -/
theorem World.next_threadNum {w w' : World} {e : WorldEvent} (conforms : Conforms w e)
    (taken : w.next e = some w') : w'.threadNum = w.threadNum := by
  cases e with
  | create => exact conforms.elim
  | writeLibrary address value =>
    cases taken
    rfl
  | initializeScheduler =>
    cases taken
    rfl
  | malloc size =>
    obtain ⟨_, _, rfl⟩ := Option.map_eq_some_iff.mp taken
    dsimp only
    split <;> rfl
  | free ptr =>
    obtain ⟨_, _, rfl⟩ := Option.map_eq_some_iff.mp taken
    dsimp only
    split <;> rfl
  | _ =>
    obtain ⟨_, _, rfl⟩ := Option.map_eq_some_iff.mp taken
    rfl

namespace Fits

variable {w w' : World} {ptrs : List Nat}

/-- **A call of the running thread.** -/
theorem call (fits : Fits w ptrs) (live : w'.live = w.live) (threadNum : w'.threadNum = w.threadNum)
    (machine : KeepsLabels w.machine w'.machine)
    (heap : ∃ blocks, Stocked w'.library (w'.early ++ w'.own) blocks ptrs) : Fits w' ptrs := by
  obtain ⟨labelled, thread⟩ := machine w.live w.threadNum fits.labelled fits.running
  refine ⟨?_, ?_, heap⟩
  · rw [live, threadNum]
    exact labelled
  · rw [live, thread]
    exact fits.running

theorem mem_others {early own : List (Nat × Nat)} {size p n : Nat} {result : Option Nat}
    (member : (p, n) ∈ record early size result ++ own ∨
      (p, n) ∈ early ++ record own size result) :
    (p, n) ∈ early ++ own ∨ (result = some p ∧ n = size) := by
  simp only [List.mem_append, mem_record] at member ⊢
  tauto

theorem malloc (fits : Fits w ptrs) {size : Nat} (taken : w.next (.malloc size) = some w') :
    Fits w' ptrs := by
  rcases World.next_malloc taken with ⟨_, offset, m, served, rfl⟩ | ⟨_, result, p, ran, rfl⟩
  · exact fits.call rfl rfl (keepsLabels_myallocate size _ _ _ served) fits.heap
  · obtain ⟨blocks, stocked⟩ := fits.heap
    obtain ⟨_, blocks', tiled', granted⟩ :=
      (mallocLibrary_spec (p := w.process) stocked.tiled size).of_run ran
    have permuted : Shuffles w.process p := shuffles_space.mallocLibrary size _ _ _ ran
    exact fits.call rfl rfl permuted.keepsLabels
      ⟨blocks', stocked.grant tiled' granted fun _ _ member => mem_others (Or.inl member)⟩

theorem mallocLibrary (fits : Fits w ptrs) {size : Nat}
    (taken : w.next (.mallocLibrary size) = some w') : Fits w' ptrs := by
  rw [World.next] at taken
  obtain ⟨⟨result, p⟩, ran, rfl⟩ := Option.map_eq_some_iff.mp taken
  obtain ⟨blocks, stocked⟩ := fits.heap
  obtain ⟨_, blocks', tiled', granted⟩ :=
    (mallocLibrary_spec (p := w.process) stocked.tiled size).of_run ran
  have permuted : Shuffles w.process p := shuffles_space.mallocLibrary size _ _ _ ran
  exact fits.call rfl rfl permuted.keepsLabels
    ⟨blocks', stocked.grant tiled' granted fun _ _ member => mem_others (Or.inr member)⟩

theorem mem_rest {early own : List (Nat × Nat)} {ptr p n : Nat}
    (member : (p, n) ∈ forget early ptr ++ forget own ptr) : (p, n) ∈ early ++ own ∧ p ≠ ptr := by
  simp only [List.mem_append, mem_forget] at member ⊢
  tauto

/-- **`free`** of a pointer of the threads. -/
theorem free (fits : Fits w ptrs) {ptr : Nat} (conforms : Conforms w (.free ptr))
    (taken : w.next (.free ptr) = some w') : Fits w' ptrs := by
  rw [World.next] at taken
  obtain ⟨⟨report, p⟩, ran, rfl⟩ := Option.map_eq_some_iff.mp taken
  obtain ⟨blocks, stocked⟩ := fits.heap
  have permuted : Shuffles w.process p := shuffles_space.free _ _ _ _ ran
  have blocksEq : w.blocks = blocks := stocked.blocksAt_eq
  have noStack : ∀ n, Holds BLOCK_SIZE 0 blocks ptr n → ptr ∉ ptrs := by
    intro n holds member
    have same := holds.size_unique (by decide) (stocked.stack ptr member)
    have early := conforms (ptr, n) (by rw [blocksEq]; exact mem_taken.mpr holds) rfl
    exact stocked.apart ptr member n (List.mem_append_left _ early)
  rcases free_library (p := w.process) stocked.tiled ran with
    same | ⟨n, blocks', holds, released, tiled'⟩
  · have tiled : Tiled p.library LIBRARY_BYTES blocks := same.symm ▸ stocked.tiled
    by_cases library : ptr < LIBRARY_BYTES + BLOCK_SIZE
    · simp only [if_pos library]
      exact fits.call rfl rfl permuted.keepsLabels
        ⟨blocks, stocked.keep tiled fun _ member => (mem_rest member).1⟩
    · simp only [if_neg library]
      exact fits.call rfl rfl permuted.keepsLabels ⟨blocks, stocked.keep tiled fun _ => id⟩
  · have bounds := stocked.tiled.bounds holds
    have positive : 0 < BLOCK_SIZE := by decide
    simp only [if_pos (show ptr < LIBRARY_BYTES + BLOCK_SIZE by omega)]
    exact fits.call rfl rfl permuted.keepsLabels
      ⟨blocks', stocked.release holds (noStack n holds) released tiled' fun _ _ => mem_rest⟩

theorem freeLibrary (fits : Fits w ptrs) {ptr : Nat} (conforms : Conforms w (.freeLibrary ptr))
    (taken : w.next (.freeLibrary ptr) = some w') : Fits w' ptrs := by
  obtain ⟨⟨_, n⟩, member, rfl⟩ := conforms
  rw [World.next] at taken
  obtain ⟨⟨report, p⟩, ran, rfl⟩ := Option.map_eq_some_iff.mp taken
  obtain ⟨blocks, stocked⟩ := fits.heap
  have known := List.mem_append_right w.early member
  have holds := stocked.known _ n known
  have permuted : Shuffles w.process p := shuffles_space.freeLibrary _ _ _ _ ran
  obtain ⟨_, _, blocks', released, tiled'⟩ :=
    (freeLibrary_spec (p := w.process) stocked.tiled holds).of_run ran
  exact fits.call rfl rfl permuted.keepsLabels ⟨blocks', stocked.release holds
    (fun stack => stocked.apart _ stack n known) released tiled' fun _ _ => mem_rest⟩

theorem write (fits : Fits w ptrs) {a : Nat} {value : BitVec 8}
    (conforms : Conforms w (.write a value)) (taken : w.next (.write a value) = some w') :
    Fits w' ptrs := by
  rw [World.next] at taken
  obtain ⟨⟨_, p⟩, ran, rfl⟩ := Option.map_eq_some_iff.mp taken
  obtain ⟨keeps, same⟩ := reachByte_keeps ran
  obtain ⟨blocks, stocked⟩ := fits.heap
  have blocksEq : w.blocks = blocks := stocked.blocksAt_eq
  have writable : Writable blocks a := blocksEq ▸ conforms
  have tiled : Tiled p.library LIBRARY_BYTES blocks := same.symm ▸ stocked.tiled
  exact fits.call rfl rfl (keepsLabels_composes.trans keeps (shuffles_poke p a value).keepsLabels)
    ⟨blocks, stocked.keep (tiled_poke tiled writable value) fun _ => id⟩

theorem read (fits : Fits w ptrs) {a : Nat} (taken : w.next (.read a) = some w') :
    Fits w' ptrs := by
  rw [World.next] at taken
  obtain ⟨⟨_, p⟩, ran, rfl⟩ := Option.map_eq_some_iff.mp taken
  obtain ⟨keeps, same⟩ := reachByte_keeps ran
  obtain ⟨blocks, stocked⟩ := fits.heap
  have tiled : Tiled p.library LIBRARY_BYTES blocks := same.symm ▸ stocked.tiled
  exact fits.call rfl rfl keeps ⟨blocks, stocked.keep tiled fun _ => id⟩

theorem writeLibrary (fits : Fits w ptrs) {a : Nat} {value : BitVec 8}
    (conforms : Conforms w (.writeLibrary a value))
    (taken : w.next (.writeLibrary a value) = some w') : Fits w' ptrs := by
  cases taken
  obtain ⟨blocks, stocked⟩ := fits.heap
  have blocksEq : w.blocks = blocks := stocked.blocksAt_eq
  have writable : Writable blocks a := blocksEq ▸ conforms
  exact fits.call rfl rfl (keepsLabels_composes.refl _)
    ⟨blocks, stocked.keep (tiled_write stocked.tiled writable value) fun _ => id⟩

/-- **A switch**, of a thread that lives on. -/
theorem switch (fits : Fits w ptrs) {next : Nat} (conforms : Conforms w (.switch next))
    (taken : w.next (.switch next) = some w') : Fits w' ptrs := by
  rw [World.next] at taken
  obtain ⟨⟨_, m⟩, ran, rfl⟩ := Option.map_eq_some_iff.mp taken
  have switched := switchTo_run ran
  refine ⟨switched.labelled fits.labelled, ?_, fits.heap⟩
  show w.live m.thread = true
  rw [switched.thread]
  exact conforms.2

/-- **A switch** behind an exit. -/
theorem exit (fits : Fits w ptrs) {next : Nat} (conforms : Conforms w (.exit next))
    (taken : w.next (.exit next) = some w') : Fits w' ptrs := by
  rw [World.next] at taken
  obtain ⟨⟨_, m⟩, ran, rfl⟩ := Option.map_eq_some_iff.mp taken
  have switched := switchTo_run ran
  have released : Labelled (Function.update w.live w.machine.thread false) w.threadNum
      (released w.machine).pageNum (released w.machine).entry := fits.labelled.exit
  refine ⟨switched.labelled released, ?_, fits.heap⟩
  show Function.update w.live w.machine.thread false m.thread = true
  rw [switched.thread, Function.update_of_ne conforms.2.2]
  exact conforms.2.1

/-- **An event that is no create** keeps the invariant, and the stacks. -/
theorem step (fits : Fits w ptrs) {e : WorldEvent} (conforms : Conforms w e)
    (taken : w.next e = some w') : Fits w' ptrs := by
  cases e with
  | malloc size => exact fits.malloc taken
  | free ptr => exact fits.free conforms taken
  | write address value => exact fits.write conforms taken
  | read address => exact fits.read taken
  | mallocLibrary size => exact fits.mallocLibrary taken
  | freeLibrary ptr => exact fits.freeLibrary conforms taken
  | writeLibrary address value => exact fits.writeLibrary conforms taken
  | initializeScheduler =>
    cases taken
    exact fits.call rfl rfl (permutes_of_eq rfl rfl rfl rfl).keepsLabels fits.heap
  | switch next => exact fits.switch conforms taken
  | exit next => exact fits.exit conforms taken
  | create => exact conforms.elim

/-- **A create.** -/
theorem create (fits : Fits w ptrs) (placed : Placed) {thread : Object} {code : Nat} {p : Process}
    (fields : ∀ field ∈ placed.fields, WordWritable w.blocks field)
    (inside : thread.Inside (Writable w.blocks))
    (ran : my_pthread_create space placed.new thread w.process = some (code, p)) :
    Fits (w.put p) ptrs ∧ (code = 0 → ∃ stack, Fits (w.put p) (stack :: ptrs)) := by
  obtain ⟨blocks, stocked⟩ := fits.heap
  have blocksEq : w.blocks = blocks := stocked.blocksAt_eq
  rw [blocksEq] at fields inside
  have permuted : Shuffles w.process p := shuffles_space.my_pthread_create _ _ _ _ _ ran
  obtain ⟨blocks', tiled', retains, taken⟩ :=
    my_pthread_create_takes (p := w.process) stocked.tiled fields inside ran
  have kept : Fits (w.put p) ptrs :=
    fits.call rfl rfl permuted.keepsLabels ⟨blocks', stocked.retain tiled' retains⟩
  refine ⟨kept, fun zero => ?_⟩
  obtain ⟨stack, new, fresh⟩ := taken zero
  exact ⟨stack, kept.labelled, kept.running, blocks', stocked.push tiled' retains new fresh⟩

/-- **The new thread.** -/
theorem make (fits : Fits w ptrs) (count : w.threadNum = 1 + ptrs.length)
    (taken : w.next .create = some w') : Fits w' ptrs ∧ w'.threadNum = w.threadNum + 1 := by
  cases taken
  obtain ⟨blocks, stocked⟩ := fits.heap
  have few := stocked.length_le
  have older := (fits.labelled.ids _ fits.running).2
  have running : w.machine.thread ≠ w.threadNum := ne_of_lt older
  refine ⟨⟨fits.labelled.create (by omega) (by omega), ?_, fits.heap⟩, rfl⟩
  show Function.update w.live w.threadNum true w.machine.thread = true
  rw [Function.update_of_ne running]
  exact fits.running

end Fits

/-! ### Whole runs -/

/-- **The invariant**: the process, and a stack for each id assigned. -/
structure Colony.Bounded (c : Colony) (ptrs : List Nat) : Prop where
  fits : Fits c.world ptrs
  threadNum : c.world.threadNum = 2 + ptrs.length
  assigned : c.ids.length = ptrs.length
  ids : ∀ id ∈ c.ids, id < c.world.threadNum

/-- **One event** keeps it, and the stacks. -/
theorem Colony.Bounded.step {c c' : Colony} {ptrs : List Nat} {e : ColonyEvent}
    (bounded : c.Bounded ptrs) (lawful : ColonyLawful c e) (taken : c.next e = some c') :
    ∃ ptrs', c'.Bounded ptrs' ∧ ptrs <:+ ptrs' := by
  cases e with
  | call e =>
    obtain ⟨w, called, rfl⟩ := Option.map_eq_some_iff.mp taken
    have same := World.next_threadNum lawful called
    refine ⟨ptrs, ⟨bounded.fits.step lawful called, same.trans bounded.threadNum, bounded.assigned,
      fun id member => ?_⟩, List.suffix_refl ptrs⟩
    show id < w.threadNum
    rw [same]
    exact bounded.ids id member
  | my_pthread_create placed thread =>
    obtain ⟨_, fields, inside⟩ := lawful
    obtain ⟨⟨code, p⟩, ran, answered⟩ := Option.bind_eq_some_iff.mp taken
    obtain ⟨kept, new⟩ :=
      bounded.fits.create (placed.assign c.world.threadNum) fields inside ran
    by_cases zero : code = 0
    · obtain ⟨stack, fits⟩ := new zero
      simp only [if_pos zero] at answered
      obtain ⟨w, made, rfl⟩ := Option.map_eq_some_iff.mp answered
      have before : (c.world.put p).threadNum = 2 + ptrs.length := bounded.threadNum
      obtain ⟨fits', next⟩ := fits.make (by rw [before, List.length_cons]; omega) made
      have after : w.threadNum = c.world.threadNum + 1 := next
      refine ⟨stack :: ptrs, ⟨fits', ?_, ?_, List.forall_mem_cons.mpr ⟨?_, fun id member => ?_⟩⟩,
        List.suffix_cons stack ptrs⟩
      · rw [after, bounded.threadNum, List.length_cons, Nat.add_assoc]
      · rw [List.length_cons, List.length_cons, bounded.assigned]
      · rw [after]
        exact Nat.lt_succ_self _
      · rw [after]
        exact Nat.lt_succ_of_lt (bounded.ids id member)
    · simp only [if_neg zero] at answered
      cases answered
      exact ⟨ptrs, ⟨kept, bounded.threadNum, bounded.assigned, bounded.ids⟩, List.suffix_refl ptrs⟩

theorem ColonyStarted.bounded {c : Colony} (started : ColonyStarted c) : c.Bounded [] := by
  obtain ⟨started, none⟩ := started
  refine ⟨⟨labelled_of_fresh started.pages started.diskPages started.pageNum started.live
    started.threadNum, ?_, ?_⟩, started.threadNum, by rw [none], fun id member => ?_⟩
  · rw [started.live, started.thread]
    rfl
  · obtain ⟨before, ran⟩ := started.library
    have heap : LibraryHeap ⟨c.world.library, []⟩ [⟨LIBRARY_BYTES - BLOCK_SIZE, true⟩] :=
      LibraryStarted.heap ⟨before, ran, rfl⟩
    rw [started.early, started.own]
    exact ⟨_, heap.tiled, fun _ _ known => (List.not_mem_nil known).elim, List.nodup_nil,
      fun _ member => (List.not_mem_nil member).elim, fun _ member => (List.not_mem_nil member).elim⟩
  · rw [none] at member
    exact (List.not_mem_nil member).elim

/-- **The invariant says that the ids fit.** -/
theorem Colony.Bounded.idsFit {c : Colony} {ptrs : List Nat} (bounded : c.Bounded ptrs) :
    IdsFit c := by
  obtain ⟨blocks, stocked⟩ := bounded.fits.heap
  have few := stocked.length_le
  have count := bounded.threadNum
  refine ⟨fun id member => ?_, by omega, ⟨blocks, ptrs, stocked.tiled, stocked.distinct,
    bounded.assigned.symm, stocked.stack⟩, fun {m m₁ m₂ index} met claimed room new => ?_⟩
  · have below := bounded.ids id member
    omega
  · -- the machine the page is made on has the labels, and room leaves the thread and its pages
    obtain ⟨labelled, thread⟩ := Met.kept keepsLabels_parts met c.world.live c.world.threadNum
      bounded.fits.labelled bounded.fits.running
    have alive : c.world.live m.thread = true := by
      rw [thread]
      exact bounded.fits.running
    obtain ⟨inside, ⟨_, vacated⟩ | ⟨failed, _⟩⟩ := makeRoom_run labelled alive claimed.claimable room
    · have label := labelled.newEntry alive (m₁.pages index)
      have written := ((initializePage_spec m₁ inside).of_run new).pages
      rw [written, Function.update_self, vacated.thread, vacated.pageNum]
      exact ⟨label.thID, label.pgID⟩
    · cases failed

/-- **Thread ids fit their field over whole runs.** -/
theorem ids_fit (c : Colony)
    (reached : Reach ColonyStarted ColonyLawful (execStep Colony.next) c) : IdsFit c := by
  obtain ⟨ptrs, bounded⟩ : ∃ ptrs, c.Bounded ptrs :=
    reached.invariant (fun c => ∃ ptrs, c.Bounded ptrs) (fun _ started => ⟨[], started.bounded⟩)
      fun _ _ _ ⟨_, bounded⟩ lawful taken =>
        (bounded.step lawful taken).imp fun _ kept => kept.1
  exact bounded.idsFit

/-- What a create stores, left out. -/
def bareCreation : Placed where
  new :=
    { contextBytes := 936
      nodeBytes := 64
      getcontext := []
      makecontext := fun _ => []
      entry := []
      threadNum := 0
      head := (0, 0)
      listed := [(100, 3)]
      node := fun _ => []
      enQ := fun _ => [] }
  fields := [100]
  getcontext := fun _ none => (List.not_mem_nil none).elim
  makecontext := fun _ _ none => (List.not_mem_nil none).elim
  entry := fun _ none => (List.not_mem_nil none).elim
  listed := fun word member => by
    rw [List.mem_singleton.mp member]
    exact List.mem_singleton_self 100
  node := fun _ _ none => (List.not_mem_nil none).elim
  enQ := fun _ _ none => (List.not_mem_nil none).elim

/-- Before the scheduler the main thread gets a block and frees it, the thread `2` is created, and it
makes a page. -/
theorem ids_fit_twoThreads :
    ∃ c, Reach ColonyStarted ColonyLawful (execStep Colony.next) c ∧ c.ids = [2] ∧
      c.world.machine.thread = 2 ∧ c.world.machine.pageNum 2 = 1 ∧ IdsFit c := by
  have start : Reach ColonyStarted ColonyLawful (execStep Colony.next) ⟨zeroWorld, []⟩ :=
    .init ⟨zeroWorld_started, rfl⟩
  obtain ⟨c, reached, held⟩ := start.exists_of_execAll
    [.call (.mallocLibrary 200), .call (.malloc 20), .call .initializeScheduler, .call (.free 208),
      .my_pthread_create bareCreation (.inside 40), .call (.switch 2), .call (.malloc 50)]
    (fun c => c.ids = [2] ∧ c.world.machine.thread = 2 ∧ c.world.machine.pageNum 2 = 1)
    (by decide +kernel)
  obtain ⟨ids, thread, pageNum⟩ := of_decide_eq_true held
  exact ⟨c, reached, ids, thread, pageNum, ids_fit c reached⟩

end OS2017.Paging
