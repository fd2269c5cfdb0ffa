/-
**The library heap under the calls of a program.**

The library's own allocations are never given back: `my_pthread_create` takes a stack and keeps it
(`my_pthread_create_takes`). What `free` can release in the library heap is the taken block of the
pointer it is called with (`free_library`): for a pointer into the pages the walk stays in user space,
or reaches the end of the library heap without finding it.
-/

import OS2017.Heap.BadFrees
import OS2017.Paging.Freeing
import OS2017.Paging.Timer

namespace OS2017.Paging

open OS2017.Bytes OS2017.Heap OS2017.FirstFit OS2017.Run

/-! ### The tables stay -/

/-- The entries of the tables are permuted. -/
def Shuffles (p q : Process) : Prop := Permutes p.machine q.machine

theorem shuffles_composes : Composes Shuffles :=
  ⟨fun p => permutes_composes.refl p.machine,
    fun first second => permutes_composes.trans first second⟩

theorem keeps_onMachine {α : Type} {program : StateT Machine Option α}
    (keeps : Keeps Permutes program) : Keeps Shuffles (onMachine program) := by
  intro p a q ran
  obtain ⟨⟨_, m⟩, ran', same⟩ := Option.map_eq_some_iff.mp ran
  cases same
  exact keeps _ _ _ ran'

theorem shuffles_poke (p : Process) (a : Nat) (value : BitVec 8) : Shuffles p (p.poke a value) := by
  unfold Process.poke
  split
  · exact shuffles_composes.refl p
  · exact permutes_of_eq rfl rfl rfl rfl

/-- **The accesses to `memory` permute the entries of the tables.** -/
theorem shuffles_space : KeptBySpace Shuffles := by
  have reached : ∀ a, Keeps Shuffles (reach a) := fun a => by
    unfold reach
    split
    · exact Keeps.pure shuffles_composes _
    · exact keeps_onMachine (keeps_touchBoth _ _)
  have word : ∀ (p : Process) a w, Shuffles p (p.pokeWord a w) := fun p a w =>
    shuffles_composes.trans (shuffles_poke _ _ _) (shuffles_composes.trans (shuffles_poke _ _ _)
      (shuffles_composes.trans (shuffles_poke _ _ _) (shuffles_poke _ _ _)))
  refine ⟨shuffles_composes, fun a => ?_, fun a w => ?_, ?_, ?_⟩
  · exact Keeps.bind shuffles_composes (reached a) fun _ => Keeps.look shuffles_composes _
  · exact Keeps.bind shuffles_composes (reached a) fun _ => Keeps.change fun p => word p a w
  · refine Keeps.bind shuffles_composes (Keeps.look shuffles_composes _) fun scheduled => ?_
    split
    · exact keeps_onMachine keeps_pause
    · exact Keeps.pure shuffles_composes _
  · refine Keeps.bind shuffles_composes (Keeps.look shuffles_composes _) fun scheduled => ?_
    split
    · exact keeps_onMachine keeps_unpause
    · exact Keeps.pure shuffles_composes _

/-! ### What leaves the library heap alone -/

/-- The library's bytes are as before. -/
def SameLibrary (p q : Process) : Prop := q.library = p.library

theorem sameLibrary_composes : Composes SameLibrary :=
  ⟨fun _ => rfl, fun first second => second.trans first⟩

theorem sameLibrary_onMachine {α : Type} (program : StateT Machine Option α) :
    Keeps SameLibrary (onMachine program) := by
  intro p a q ran
  obtain ⟨⟨_, m⟩, _, same⟩ := Option.map_eq_some_iff.mp ran
  cases same
  rfl

theorem sameLibrary_reach (a : Nat) : Keeps SameLibrary (reach a) := by
  unfold reach
  split
  · exact Keeps.pure sameLibrary_composes _
  · exact sameLibrary_onMachine _

theorem sameLibrary_load (a : Nat) : Keeps SameLibrary (space.load a) :=
  Keeps.bind sameLibrary_composes (sameLibrary_reach a) fun _ => Keeps.look sameLibrary_composes _

/-- A store in user space. -/
theorem sameLibrary_store (a : Nat) (w : BitVec 32) (user : LIBRARY_BYTES ≤ a) :
    Keeps SameLibrary (space.store a w) := by
  refine Keeps.bind sameLibrary_composes (sameLibrary_reach a) fun _ => Keeps.change fun p => ?_
  unfold SameLibrary Process.pokeWord Process.poke
  simp only [if_neg (show ¬ a + 3 < LIBRARY_BYTES by omega),
    if_neg (show ¬ a + 2 < LIBRARY_BYTES by omega), if_neg (show ¬ a + 1 < LIBRARY_BYTES by omega),
    if_neg (show ¬ a < LIBRARY_BYTES by omega)]

theorem sameLibrary_pause : Keeps SameLibrary pauseTimer := by
  refine Keeps.bind sameLibrary_composes (Keeps.look sameLibrary_composes _) fun scheduled => ?_
  split
  · exact sameLibrary_onMachine _
  · exact Keeps.pure sameLibrary_composes _

theorem sameLibrary_unpause : Keeps SameLibrary unpauseTimer := by
  refine Keeps.bind sameLibrary_composes (Keeps.look sameLibrary_composes _) fun scheduled => ?_
  split
  · exact sameLibrary_onMachine _
  · exact Keeps.pure sameLibrary_composes _

/-! ### What `free` releases -/

section Free

variable {p q : Process} {ptr : Nat} {report : Report} {blocks : List Block}

/-- **`mydeallocate` with `LIBRARYREQ`** of a pointer that no taken block has. -/
theorem freeLibrary_unheld (tiled : Tiled p.library LIBRARY_BYTES blocks)
    (unheld : ∀ n, ¬ Holds BLOCK_SIZE 0 blocks ptr n)
    (ran : freeLibrary space (ptr : Int) p = some (report, q)) : q.library = p.library := by
  have four : BLOCK_SIZE = 4 := rfl
  have bytes : LIBRARY_BYTES = 819200 := rfl
  obtain ⟨_, p₁, paused, ran⟩ := run_bind ran
  have same₁ : p₁.library = p.library := sameLibrary_pause _ _ _ paused
  obtain ⟨answer, p₂, released, ran⟩ := run_bind ran
  obtain ⟨_, p₃, restarted, ran⟩ := run_bind ran
  cases ran
  refine (sameLibrary_unpause _ _ _ restarted).trans (Eq.trans ?_ same₁)
  unfold mydeallocateLibrary at released
  split at released
  · split at released
    · cases released
    · rename_i front
      simp only [Int.toNat_natCast] at released
      obtain ⟨word, p₄, loaded, released⟩ := run_bind released
      have same₄ : p₄.library = p₁.library := sameLibrary_load _ _ _ _ loaded
      split at released
      · cases released
        exact same₄
      · rename_i notFree
        obtain ⟨found, p₅, walked, released⟩ := run_bind released
        cases released
        have tiled₄ : Tiled p₄.library LIBRARY_BYTES blocks := by
          rw [same₄, same₁]
          exact tiled
        have absent : ptr - BLOCK_SIZE ∉ headers 0 blocks := by
          intro member
          rcases tiled₄.chain.header_of_mem member with ⟨n, holds⟩ | free
          · rw [Nat.sub_add_cancel (by omega)] at holds
            exact unheld n holds
          · have below := headers_lt member
            have extent := tiled₄.extent
            have read := (((space_library p₁).load p₁ (ptr - BLOCK_SIZE) rfl (by omega)).of_run
              loaded).1
            rw [read, ← same₄] at notFree
            exact notFree free
        have shows : Shows (SameUser p₄) (·.library) p₄.library p₄ := ⟨rfl, rfl⟩
        have missing := (freeAndMergeLoop_missing (space_library p₄) shows tiled₄.chain
          tiled₄.nonempty (by rw [tiled₄.extent, Nat.zero_add]) tiled₄.length_le absent).of_run walked
        exact missing.2.2.trans same₄
  · cases released
    rfl

/-- **What `free` releases in the library heap** is the taken block of the pointer, or nothing. -/
theorem free_library (tiled : Tiled p.library LIBRARY_BYTES blocks)
    (ran : free space (ptr : Int) p = some (report, q)) : q.library = p.library ∨
      ∃ n blocks', Holds BLOCK_SIZE 0 blocks ptr n ∧
        release BLOCK_SIZE (ptr - BLOCK_SIZE) 0 blocks = some blocks' ∧
        Tiled q.library LIBRARY_BYTES blocks' := by
  unfold Paging.free at ran
  obtain ⟨_, p₁, paused, ran⟩ := run_bind ran
  have same₁ : p₁.library = p.library := sameLibrary_pause _ _ _ paused
  have ended : ∀ {s : Process} {answer : Report}, s.library = p.library →
      (unpauseTimer >>= fun _ => (pure answer : StateT Process Option Report)) s = some (report, q) →
      q.library = p.library := by
    intro s answer same ran
    obtain ⟨_, s', restarted, ran⟩ := run_bind ran
    cases ran
    exact (sameLibrary_unpause _ _ _ restarted).trans same
  split at ran
  · split at ran
    · cases ran
    · obtain ⟨word, p₂, loaded, ran⟩ := run_bind ran
      have same₂ : p₂.library = p.library := (sameLibrary_load _ _ _ _ loaded).trans same₁
      split at ran
      · exact Or.inl (ended same₂ ran)
      · rw [look_run] at ran
        split at ran
        · -- the library heap is searched
          obtain ⟨_, p₃, restarted, ran⟩ := run_bind ran
          have same₃ : p₃.library = p.library := (sameLibrary_unpause _ _ _ restarted).trans same₂
          have tiled₃ : Tiled p₃.library LIBRARY_BYTES blocks := same₃ ▸ tiled
          by_cases held : ∃ n, Holds BLOCK_SIZE 0 blocks ptr n
          · obtain ⟨n, holds⟩ := held
            obtain ⟨_, _, blocks', released, tiled'⟩ := (freeLibrary_spec tiled₃ holds).of_run ran
            exact Or.inr ⟨n, blocks', holds, released, tiled'⟩
          · exact Or.inl ((freeLibrary_unheld tiled₃ (not_exists.mp held) ran).trans same₃)
        · -- the pages are searched
          obtain ⟨found, p₃, walked, ran⟩ := run_bind ran
          refine Or.inl (ended (Eq.trans ?_ same₂) ran)
          unfold freeAndMerge at walked
          rw [look_run] at walked
          cases frame : firstFrame p₂.machine (getPageThID (findPage p₂.machine p₂.caller)).toNat with
          | none =>
            rw [frame] at walked
            cases walked
            rfl
          | some index =>
            rw [frame] at walked
            have first : ∀ a, (none : Option Nat) = some a → LIBRARY_BYTES ≤ a :=
              fun _ impossible => by cases impossible
            exact keeps_freeAndMergeLoop sameLibrary_composes sameLibrary_load sameLibrary_store _ _
              first (Nat.le_add_right LIBRARY_BYTES _) _ _ _ walked
  · exact Or.inl (ended same₁ ran)

end Free

/-! ### What `my_pthread_create` takes -/

/-- The taken blocks are taken still. -/
def Retains (blocks blocks' : List Block) : Prop :=
  ∀ a n, Holds BLOCK_SIZE 0 blocks a n → Holds BLOCK_SIZE 0 blocks' a n

theorem Retains.trans {blocks blocks' blocks'' : List Block} (first : Retains blocks blocks')
    (second : Retains blocks' blocks'') : Retains blocks blocks'' :=
  fun a n holds => second a n (first a n holds)

/-- A byte of a taken block, or of user space. -/
def Writable (blocks : List Block) (a : Nat) : Prop :=
  LIBRARY_BYTES ≤ a ∨ ∃ p n, Holds BLOCK_SIZE 0 blocks p n ∧ p ≤ a ∧ a < p + n

/-- The four bytes of a word. -/
def WordWritable (blocks : List Block) (a : Nat) : Prop := ∀ i < 4, Writable blocks (a + i)

theorem Writable.mono {blocks blocks' : List Block} {a : Nat} (writable : Writable blocks a)
    (retains : Retains blocks blocks') : Writable blocks' a :=
  writable.imp_right fun ⟨p, n, holds, bounds⟩ => ⟨p, n, retains p n holds, bounds⟩

theorem WordWritable.mono {blocks blocks' : List Block} {a : Nat}
    (writable : WordWritable blocks a) (retains : Retains blocks blocks') :
    WordWritable blocks' a :=
  fun i below => (writable i below).mono retains

/-- A word in a taken block. -/
theorem wordWritable_inside {blocks : List Block} {p n a : Nat}
    (holds : Holds BLOCK_SIZE 0 blocks p n) (inside : a + 4 ≤ n) : WordWritable blocks (p + a) :=
  fun i below => Or.inr ⟨p, n, holds, by omega, by omega⟩

/-- **A write to a taken block or to user space** leaves the library heap alone. -/
theorem tiled_write {m : Memory} {a : Nat} {blocks : List Block}
    (tiled : Tiled m LIBRARY_BYTES blocks) (writable : Writable blocks a) (value : BitVec 8) :
    Tiled (Function.update m a value) LIBRARY_BYTES blocks := by
  rcases writable with user | ⟨q, n, holds, low, high⟩
  · refine ⟨tiled.nonempty, ?_, tiled.extent, tiled.merged⟩
    refine tiled.chain.congr fun c _ below => Function.update_of_ne ?_ _ _
    rw [tiled.extent] at below
    omega
  · exact tiled.update holds low high value

theorem tiled_poke {p : Process} {a : Nat} {blocks : List Block}
    (tiled : Tiled p.library LIBRARY_BYTES blocks) (writable : Writable blocks a)
    (value : BitVec 8) : Tiled (p.poke a value).library LIBRARY_BYTES blocks := by
  unfold Process.poke
  split
  · exact tiled_write tiled writable value
  · exact tiled

/-- **The heap stays tiled and its taken blocks taken**, if it has at least those of `blocks`. -/
def Beyond (blocks : List Block) (p q : Process) : Prop :=
  ∀ before, Tiled p.library LIBRARY_BYTES before → Retains blocks before →
    ∃ behind, Tiled q.library LIBRARY_BYTES behind ∧ Retains before behind

section Beyond

variable {blocks : List Block}

theorem beyond_composes (blocks : List Block) : Composes (Beyond blocks) := by
  refine ⟨fun p before tiled _ => ⟨before, tiled, fun _ _ holds => holds⟩, ?_⟩
  intro p p' p'' first second before tiled retains
  obtain ⟨middle, tiled', retains'⟩ := first before tiled retains
  obtain ⟨behind, tiled'', retains''⟩ := second middle tiled' (retains.trans retains')
  exact ⟨behind, tiled'', retains'.trans retains''⟩

theorem SameLibrary.beyond {p q : Process} (same : SameLibrary p q) : Beyond blocks p q :=
  fun before tiled _ => ⟨before, same.symm ▸ tiled, fun _ _ holds => holds⟩

theorem beyond_unpause : Keeps (Beyond blocks) unpauseTimer :=
  sameLibrary_unpause.mono SameLibrary.beyond

/-- **A store to a taken block or to user space.** -/
theorem beyond_store {a : Nat} (writable : WordWritable blocks a) (w : BitVec 32) :
    Keeps (Beyond blocks) (space.store a w) := by
  refine Keeps.bind (beyond_composes blocks) ((sameLibrary_reach a).mono SameLibrary.beyond)
    fun _ => Keeps.change fun p before tiled retains => ⟨before, ?_, fun _ _ holds => holds⟩
  have third := tiled_poke tiled ((writable 3 (by omega)).mono retains) (w.extractLsb' 24 8)
  have second := tiled_poke third ((writable 2 (by omega)).mono retains) (w.extractLsb' 16 8)
  have first := tiled_poke second ((writable 1 (by omega)).mono retains) (w.extractLsb' 8 8)
  exact tiled_poke first ((writable 0 (by omega)).mono retains) (w.extractLsb' 0 8)

theorem beyond_storeWords {address : Nat} {words : List (Nat × BitVec 32)}
    (writable : ∀ word ∈ words, WordWritable blocks (address + word.1)) :
    Keeps (Beyond blocks) (storeWords space address words) := by
  induction words with
  | nil => exact Keeps.pure (beyond_composes blocks) ()
  | cons word rest ih =>
    exact Keeps.bind (beyond_composes blocks) (beyond_store (writable word List.mem_cons_self) _)
      fun _ => ih fun later member => writable later (List.mem_cons_of_mem _ member)

/-- **An allocation, then the rest**, which may use the new block. -/
theorem beyond_malloc {β : Type} {size : Nat} {rest : Option Nat → StateT Process Option β}
    (failed : Keeps (Beyond blocks) (rest none))
    (granted : ∀ ptr blocks', Retains blocks blocks' → Holds BLOCK_SIZE 0 blocks' ptr size →
      Keeps (Beyond blocks') (rest (some ptr))) :
    Keeps (Beyond blocks) (mallocLibrary space size >>= rest) := by
  intro p b q ran before tiled retains
  obtain ⟨result, p₁, served, ran⟩ := run_bind ran
  obtain ⟨_, blocks', tiled', grant⟩ := (mallocLibrary_spec tiled size).of_run served
  have kept : Retains before blocks' := fun a n holds => (grant.holds a n).mpr (Or.inl holds)
  have all : Retains blocks blocks' := retains.trans kept
  have rested : ∃ behind, Tiled q.library LIBRARY_BYTES behind ∧ Retains blocks' behind := by
    cases result with
    | none => exact failed _ _ _ ran blocks' tiled' all
    | some ptr =>
      have new : Holds BLOCK_SIZE 0 blocks' ptr size := (grant.holds ptr size).mpr (Or.inr ⟨rfl, rfl⟩)
      exact granted ptr blocks' all new _ _ _ ran blocks' tiled' fun _ _ holds => holds
  obtain ⟨behind, tiled'', retains'⟩ := rested
  exact ⟨behind, tiled'', kept.trans retains'⟩

end Beyond

/-- **A creation whose words are inside their blocks**, or at the fields of the scheduler and the run
queue that it changes. -/
structure Placed where
  new : Creation
  /-- the addresses of these fields -/
  fields : List Nat
  getcontext : ∀ word ∈ new.getcontext, word.1 + 4 ≤ new.contextBytes
  makecontext : ∀ stack, ∀ word ∈ new.makecontext stack, word.1 + 4 ≤ new.contextBytes
  entry : ∀ word ∈ new.entry, word.1 + 4 ≤ STACK_SIZE
  listed : ∀ word ∈ new.listed, word.1 ∈ fields
  node : ∀ newCxt, ∀ word ∈ new.node newCxt, word.1 + 4 ≤ new.nodeBytes
  enQ : ∀ newNode, ∀ word ∈ new.enQ newNode, word.1 ∈ fields ∨
    (newNode ≤ word.1 ∧ word.1 + 4 ≤ newNode + new.nodeBytes)

/-- The bytes of the record an object is, if it is in `memory`. -/
def Object.Inside (writable : Nat → Prop) : Object → Prop
  | .inside address => ∀ i < 32, writable (address + i)
  | .outside _ => True

theorem beyond_object {blocks : List Block} {thread : Object} {offset : Nat}
    (inside : thread.Inside (Writable blocks)) (below : offset + 4 ≤ 32) (w : BitVec 32) :
    Keeps (Beyond blocks) (thread.store space offset w) := by
  cases thread with
  | outside words => exact Keeps.pure (beyond_composes blocks) ()
  | inside address =>
    refine beyond_store (fun i small => ?_) w
    rw [Nat.add_assoc]
    exact inside (offset + i) (by omega)

theorem Object.Inside.mono {blocks blocks' : List Block} {thread : Object}
    (inside : thread.Inside (Writable blocks)) (retains : Retains blocks blocks') :
    thread.Inside (Writable blocks') := by
  cases thread with
  | outside words => trivial
  | inside address => exact fun i below => (inside i below).mono retains

/-- **A create that returns `0` has taken a stack**, and no create gives a block back. -/
theorem my_pthread_create_takes {p q : Process} {blocks : List Block} {placed : Placed}
    {thread : Object} {code : Nat} (tiled : Tiled p.library LIBRARY_BYTES blocks)
    (fields : ∀ field ∈ placed.fields, WordWritable blocks field)
    (inside : thread.Inside (Writable blocks))
    (ran : my_pthread_create space placed.new thread p = some (code, q)) :
    ∃ blocks', Tiled q.library LIBRARY_BYTES blocks' ∧ Retains blocks blocks' ∧
      (code = 0 → ∃ stack, Holds BLOCK_SIZE 0 blocks' stack STACK_SIZE ∧
        ∀ n, ¬ Holds BLOCK_SIZE 0 blocks stack n) := by
  unfold my_pthread_create at ran
  have refused : ∀ {s : Process} {b : List Block}, Tiled s.library LIBRARY_BYTES b →
      Retains blocks b → (unpauseTimer >>= fun _ => (pure 1 : StateT Process Option Nat)) s
        = some (code, q) →
      ∃ blocks', Tiled q.library LIBRARY_BYTES blocks' ∧ Retains blocks blocks' ∧
        (code = 0 → ∃ stack, Holds BLOCK_SIZE 0 blocks' stack STACK_SIZE ∧
          ∀ n, ¬ Holds BLOCK_SIZE 0 blocks stack n) := by
    intro s b tiled' retains ran
    obtain ⟨_, s', restarted, ran⟩ := run_bind ran
    cases ran
    have same : q.library = s.library := sameLibrary_unpause _ _ _ restarted
    exact ⟨b, same ▸ tiled', retains, fun zero => by cases zero⟩
  obtain ⟨_, p₁, paused, ran⟩ := run_bind ran
  have same₁ : p₁.library = p.library := sameLibrary_pause _ _ _ paused
  have tiled₁ : Tiled p₁.library LIBRARY_BYTES blocks := same₁ ▸ tiled
  obtain ⟨newCxt, p₂, served, ran⟩ := run_bind ran
  obtain ⟨_, blocks₂, tiled₂, grant₂⟩ := (mallocLibrary_spec tiled₁ _).of_run served
  have retains₂ : Retains blocks blocks₂ := fun a n holds => (grant₂.holds a n).mpr (Or.inl holds)
  cases newCxt with
  | none => exact refused tiled₂ retains₂ ran
  | some newCxt =>
    have context₂ : Holds BLOCK_SIZE 0 blocks₂ newCxt placed.new.contextBytes :=
      (grant₂.holds _ _).mpr (Or.inr ⟨rfl, rfl⟩)
    obtain ⟨_, p₃, stored, ran⟩ := run_bind ran
    obtain ⟨blocks₃, tiled₃, retains₃⟩ := beyond_storeWords (fun word member =>
      wordWritable_inside context₂ (placed.getcontext word member)) _ _ _ stored blocks₂ tiled₂
      fun _ _ holds => holds
    obtain ⟨stack, p₄, served, ran⟩ := run_bind ran
    obtain ⟨_, blocks₄, tiled₄, grant₄⟩ := (mallocLibrary_spec tiled₃ _).of_run served
    have retains₄ : Retains blocks₃ blocks₄ := fun a n holds =>
      (grant₄.holds a n).mpr (Or.inl holds)
    have kept₄ : Retains blocks blocks₄ := (retains₂.trans retains₃).trans retains₄
    cases stack with
    | none => exact refused tiled₄ kept₄ ran
    | some stack =>
      have context₄ := retains₄ _ _ (retains₃ _ _ context₂)
      have stack₄ : Holds BLOCK_SIZE 0 blocks₄ stack STACK_SIZE :=
        (grant₄.holds _ _).mpr (Or.inr ⟨rfl, rfl⟩)
      have composes := beyond_composes blocks₄
      have record : ∀ offset w, offset + 4 ≤ 32 →
          Keeps (Beyond blocks₄) (thread.store space offset w) := fun offset w below =>
        beyond_object (inside.mono kept₄) below w
      -- everything behind the two allocations keeps the blocks
      obtain ⟨blocks₅, tiled₅, retains₅⟩ : ∃ behind, Tiled q.library LIBRARY_BYTES behind ∧
          Retains blocks₄ behind := by
        refine (?_ : Keeps (Beyond blocks₄) _) _ _ _ ran blocks₄ tiled₄ fun _ _ holds => holds
        refine Keeps.bind composes (beyond_storeWords fun word member =>
          wordWritable_inside context₄ (placed.makecontext stack word member)) fun _ => ?_
        refine Keeps.bind composes (beyond_storeWords fun word member =>
          wordWritable_inside stack₄ (placed.entry word member)) fun _ => ?_
        refine Keeps.bind composes (record _ _ (by omega)) fun _ => ?_
        refine Keeps.bind composes (record _ _ (by omega)) fun _ => ?_
        refine Keeps.bind composes (record _ _ (by omega)) fun _ => ?_
        refine Keeps.bind composes (record _ _ (by omega)) fun _ => ?_
        refine Keeps.bind composes (record _ _ (by omega)) fun _ => ?_
        refine Keeps.bind composes (record _ _ (by omega)) fun _ => ?_
        refine Keeps.bind composes (record _ _ (by omega)) fun _ => ?_
        refine Keeps.bind composes (beyond_storeWords fun word member => ?_) fun _ => ?_
        · rw [Nat.zero_add]
          exact (fields _ (placed.listed word member)).mono kept₄
        refine beyond_malloc Keeps.stop fun newNode blocks₆ retains₆ node₆ => ?_
        have composes₆ := beyond_composes blocks₆
        refine Keeps.bind composes₆ (beyond_storeWords fun word member =>
          wordWritable_inside node₆ (placed.node newCxt word member)) fun _ => ?_
        refine Keeps.bind composes₆ (beyond_storeWords fun word member => ?_) fun _ => ?_
        · rw [Nat.zero_add]
          rcases placed.enQ newNode word member with field | ⟨low, high⟩
          · exact (fields _ field).mono (kept₄.trans retains₆)
          · exact fun i below => Or.inr ⟨newNode, _, node₆, by omega, by omega⟩
        exact Keeps.bind composes₆ beyond_unpause fun _ => Keeps.pure composes₆ _
      refine ⟨blocks₅, tiled₅, kept₄.trans retains₅, fun _ => ⟨stack, retains₅ _ _ stack₄,
        fun n holds => ?_⟩⟩
      exact grant₄.fresh stack rfl n ((retains₂.trans retains₃) _ _ holds)

end OS2017.Paging
