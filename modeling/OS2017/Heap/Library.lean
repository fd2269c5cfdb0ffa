/-
**The library heap over whole runs.**

`myallocate` and `mydeallocate` with `LIBRARYREQ` work on the first `LIBPAGES` pages of `memory`,
which are never protected. Whatever the callers do with the bytes of their payloads, the headers
tile the arena exactly, no two neighbours are free, the live payloads are apart from each other and
from every header, every call returns, and no call changes a byte of another live payload
(`library_heap_safe`).
-/

import OS2017.Lib.Run
import OS2017.Heap.Chain

namespace OS2017.Heap

open OS2017.Bytes OS2017.FirstFit OS2017.Run

/-! ### The calls -/

/-- The bytes of the library heap. -/
def LIBRARY_BYTES : Nat := LIBPAGES * PAGESIZE

section Calls

variable {σ : Type} (mem : Store σ)

/-- A free block of `size` bytes that is the last of its heap, as `initializeRoot`, `initializePage`
and the growth of a thread's heap make it. -/
def freshBlock (a size : Nat) : StateT σ Option Unit := do
  mem.modify a (setBlockIsF · 1)
  mem.modify a (setBlockSize · (BitVec.ofNat 32 size))
  mem.modify a (setBlockIsNext · 0)

/-- `initializeRoot`. -/
def initializeRoot : StateT σ Option Unit := freshBlock mem 0 (LIBRARY_BYTES - BLOCK_SIZE)

/-- `myallocate` with `LIBRARYREQ`; no result is `NULL`. -/
def myallocateLibrary (size : Nat) : StateT σ Option (Option Nat) := do
  match ← firstFitLoop mem size (sizeWithBlock size) LIBRARY_BYTES 0 with
  | .found ptr => return some ptr
  | .exhausted _ => return none

/-- How `mydeallocate` ends: without a message, or with one of its two. -/
inductive Report
  | freed
  | notCreated
  | alreadyFreed
  deriving DecidableEq

/-- `inMemSpace`. -/
def inMemSpace (ptr : Int) : Prop := 0 ≤ ptr ∧ ptr < MAX_MEMORY

instance (ptr : Int) : Decidable (inMemSpace ptr) := by
  unfold inMemSpace
  infer_instance

/-- `mydeallocate` with `LIBRARYREQ`. The word before `memory` is nobody's. -/
def mydeallocateLibrary (ptr : Int) : StateT σ Option Report :=
  if inMemSpace ptr then
    if ptr < BLOCK_SIZE then fun _ => none
    else do
      let block := ptr.toNat - BLOCK_SIZE
      let word ← mem.load block
      if getBlockIsF word = 1 then return .alreadyFreed
      else
        let found ← freeAndMergeLoop mem block LIBRARY_BYTES none 0
        return if found then .freed else .notCreated
  else return .notCreated

end Calls

/-! ### What the calls do to a chain -/

section Specs

variable {σ : Type} {mem : Store σ} {good : σ → Prop} {view : σ → Memory} {extent : Nat}

/-- **A fresh block.** -/
theorem freshBlock_spec (backed : Backed mem good view extent) {a size : Nat} {s : σ} {m : Memory}
    (shows : Shows good view m s) (inside : a + BLOCK_SIZE ≤ extent) (small : size < 2 ^ 24) :
    Returns (freshBlock mem a size) s fun _ s' =>
      ∃ w, Shows good view (writeWord m a w) s' ∧ Header w ⟨size, true⟩ false := by
  unfold freshBlock
  refine backed.modify_bind shows inside fun s₁ shows₁ => ?_
  refine backed.modify_again_bind shows₁ inside fun s₂ shows₂ => ?_
  refine (backed.modify_again shows₂ inside).mono fun _ s₃ shows₃ => ⟨_, shows₃, ?_⟩
  refine header_of_set _ _ ?_ small true false
  rw [BitVec.toNat_ofNat]
  exact Nat.mod_eq_of_lt (by omega)

/-- **A heap**: a chain that tiles `[0, bytes)` with its neighbours merged. -/
structure Tiled (m : Memory) (bytes : Nat) (blocks : List Block) : Prop where
  nonempty : blocks ≠ []
  chain : Chain m false 0 blocks
  extent : extentOf blocks = bytes
  merged : Merged blocks

theorem Tiled.length_le {m : Memory} {bytes : Nat} {blocks : List Block}
    (tiled : Tiled m bytes blocks) : blocks.length ≤ bytes :=
  tiled.extent ▸ length_le_span (by decide) blocks

/-- Its sizes fit the header field. -/
theorem Tiled.small {m : Memory} {blocks : List Block} (tiled : Tiled m LIBRARY_BYTES blocks) :
    extentOf blocks ≤ 2 ^ 24 := by
  rw [tiled.extent]
  decide

/-- A payload is inside the heap. -/
theorem Tiled.bounds {m : Memory} {bytes : Nat} {blocks : List Block} (tiled : Tiled m bytes blocks)
    {p n : Nat} (holds : Holds BLOCK_SIZE 0 blocks p n) : BLOCK_SIZE ≤ p ∧ p + n ≤ bytes := by
  have bounds := holds.bounds
  have extent := tiled.extent
  simp only [extentOf] at extent
  omega

/-- **`myallocate` on a heap**: nothing, or first fit. -/
theorem myallocateLibrary_spec (backed : Backed mem good view extent)
    (inside : LIBRARY_BYTES ≤ extent) {size : Nat} {s : σ} {m : Memory} {blocks : List Block}
    (shows : Shows good view m s) (tiled : Tiled m LIBRARY_BYTES blocks) :
    Returns (myallocateLibrary mem size) s fun result s' =>
      (firstFit BLOCK_SIZE size 0 blocks = none ∧ result = none ∧ Shows good view m s') ∨
      ∃ header blocks' m', firstFit BLOCK_SIZE size 0 blocks = some (header, blocks') ∧
        result = some (header + BLOCK_SIZE) ∧ Shows good view m' s' ∧
        Tiled m' LIBRARY_BYTES blocks' ∧ ∀ c, Spared 0 blocks c → m' c = m c := by
  have fits : 0 + extentOf blocks ≤ extent := by
    rw [tiled.extent]
    omega
  unfold myallocateLibrary
  refine Returns.bind ((firstFitLoop_spec backed tiled.nonempty shows tiled.chain fits
    tiled.length_le).mono ?_)
  intro result s' allocated
  cases fit : firstFit BLOCK_SIZE size 0 blocks with
  | none =>
    rw [fit] at allocated
    obtain ⟨rfl, shows'⟩ := allocated
    exact Returns.pure (Or.inl ⟨rfl, rfl, shows'⟩)
  | some found =>
    obtain ⟨header, blocks'⟩ := found
    rw [fit] at allocated
    obtain ⟨rfl, m', shows', chain', same⟩ := allocated
    refine Returns.pure (Or.inr ⟨header, blocks', m', rfl, rfl, shows', ?_, same⟩)
    exact ⟨firstFit_ne_nil fit, chain', (firstFit_span fit).trans tiled.extent,
      firstFit_merged fit tiled.merged⟩

/-- A taken block has a header that says so. -/
theorem Chain.header_of_holds {m : Memory} {a p n : Nat} {blocks : List Block}
    (chain : Chain m false a blocks) (holds : Holds BLOCK_SIZE a blocks p n) :
    ∃ more, Header (readWord m (p - BLOCK_SIZE)) ⟨n, false⟩ more := by
  induction blocks generalizing a with
  | nil => exact holds.elim
  | cons b rest ih =>
    rcases holds with ⟨rfl, rfl⟩ | later
    · rw [Nat.add_sub_cancel]
      exact ⟨_, chain.1⟩
    · exact ih chain.2 later

/-- A write to a taken payload leaves the chain alone. -/
theorem Chain.update {m : Memory} {more : Bool} {a p n c : Nat} {blocks : List Block}
    (chain : Chain m more a blocks) (holds : Holds BLOCK_SIZE a blocks p n) (low : p ≤ c)
    (high : c < p + n) (value : BitVec 8) : Chain (Function.update m c value) more a blocks := by
  induction blocks generalizing a with
  | nil => trivial
  | cons b rest ih =>
    have four : BLOCK_SIZE = 4 := rfl
    have bounds := holds.bounds
    refine ⟨?_, ?_⟩
    · have same : readWord (Function.update m c value) a = readWord m a :=
        readWord_congr fun x _ below => Function.update_of_ne (by omega) _ _
      rw [same]
      exact chain.1
    · rcases holds with ⟨rfl, rfl⟩ | later
      · refine chain.2.congr fun x above _ => Function.update_of_ne ?_ _ _
        simp only at above
        omega
      · exact ih chain.2 later

/-- **A write to a taken payload** leaves the heap alone. -/
theorem Tiled.update {m : Memory} {bytes p n c : Nat} {blocks : List Block}
    (tiled : Tiled m bytes blocks) (holds : Holds BLOCK_SIZE 0 blocks p n) (low : p ≤ c)
    (high : c < p + n) (value : BitVec 8) : Tiled (Function.update m c value) bytes blocks where
  nonempty := tiled.nonempty
  chain := tiled.chain.update holds low high value
  extent := tiled.extent
  merged := tiled.merged

/-- **`mydeallocate` of a taken block**: a release. -/
theorem mydeallocateLibrary_spec (backed : Backed mem good view extent)
    (inside : LIBRARY_BYTES ≤ extent) {p n : Nat} {s : σ} {m : Memory}
    {blocks : List Block} (shows : Shows good view m s) (tiled : Tiled m LIBRARY_BYTES blocks)
    (holds : Holds BLOCK_SIZE 0 blocks p n) :
    Returns (mydeallocateLibrary mem p) s fun report s' => report = .freed ∧ ∃ blocks' m',
      release BLOCK_SIZE (p - BLOCK_SIZE) 0 blocks = some blocks' ∧ Shows good view m' s' ∧
      Tiled m' LIBRARY_BYTES blocks' ∧ ∀ c, Spared 0 blocks c → m' c = m c := by
  have bounds := tiled.bounds holds
  have four : BLOCK_SIZE = 4 := rfl
  have bytes : LIBRARY_BYTES = 819200 := rfl
  have max : MAX_MEMORY = 8388608 := rfl
  obtain ⟨more, header⟩ := tiled.chain.header_of_holds holds
  have fits : 0 + extentOf blocks ≤ extent := by
    rw [tiled.extent]
    omega
  have target : p - BLOCK_SIZE + BLOCK_SIZE = p := Nat.sub_add_cancel bounds.1
  obtain ⟨blocks', released⟩ := Option.isSome_iff_exists.mp
    (release_isSome (by decide) (target.symm ▸ holds))
  unfold mydeallocateLibrary
  have within : inMemSpace p := ⟨by omega, by omega⟩
  rw [if_pos within, if_neg (by omega)]
  simp only [Int.toNat_natCast]
  refine backed.load_bind shows (by omega) fun s₁ shows₁ => ?_
  rw [if_neg (by rw [header.isF, flag_eq_one]; simp)]
  refine Returns.bind ((freeAndMergeLoop_spec backed shows₁ tiled.chain fits tiled.small
    tiled.length_le released).mono ?_)
  rintro found s₂ ⟨rfl, m', shows₂, chain', same⟩
  refine Returns.pure ⟨rfl, blocks', m', released, shows₂, ?_, same⟩
  exact ⟨release_ne_nil (by decide) released, chain', (release_span released).trans tiled.extent,
    (release_merged released tiled.merged).1⟩

end Specs

/-! ### Runs -/

/-- The accesses to unprotected memory. -/
def plain : Store Memory where
  load a := fun m => some (readWord m a, m)
  store a w := fun m => some ((), writeWord m a w)

theorem plain_backed (extent : Nat) : Backed plain (fun _ => True) id extent :=
  ⟨fun m a _ _ => ⟨readWord m a, m, rfl, rfl, trivial, rfl⟩,
    fun m a w _ _ => ⟨(), writeWord m a w, rfl, trivial, rfl⟩⟩

/-- The library heap, and the allocations its callers hold: pointer and size. -/
structure Library where
  memory : Memory
  live : List (Nat × Nat)

/-- What can happen to the library heap. -/
inductive LibraryEvent
  | allocate (size : Nat)
  | deallocate (ptr : Nat)
  | write (address : Nat) (value : BitVec 8)

/-- Callers free live pointers and write inside live payloads. -/
def Permitted (s : Library) : LibraryEvent → Prop
  | .allocate _ => True
  | .deallocate ptr => ∃ block ∈ s.live, block.1 = ptr
  | .write address _ => ∃ block ∈ s.live, block.1 ≤ address ∧ address < block.1 + block.2

instance (s : Library) (e : LibraryEvent) : Decidable (Permitted s e) := by
  cases e <;> unfold Permitted <;> infer_instance

/-- One event. -/
def Library.next (s : Library) : LibraryEvent → Option Library
  | .allocate size =>
    (myallocateLibrary plain size s.memory).map fun (result, memory) =>
      { memory := memory
        live := match result with
          | none => s.live
          | some ptr => (ptr, size) :: s.live }
  | .deallocate ptr =>
    (mydeallocateLibrary plain ptr s.memory).map fun (_, memory) =>
      { memory := memory, live := s.live.filter fun block => block.1 ≠ ptr }
  | .write address value => some { s with memory := Function.update s.memory address value }

/-- The library heap behind `initializeRoot`, whatever the memory held before. -/
def LibraryStarted (s : Library) : Prop :=
  ∃ before, initializeRoot plain before = some ((), s.memory) ∧ s.live = []

/-- The headers met by following `getNextBlock` from `block` on. -/
def visited (m : Memory) : Nat → Nat → Option (List Nat)
  | 0, _ => none
  | fuel + 1, block =>
    (getNextBlock plain block m).bind fun (next, _) =>
      match next with
      | none => some [block]
      | some next => (visited m fuel next).map (block :: ·)

/-- The headers of blocks laid out from `a` on. -/
def headers : Nat → List Block → List Nat
  | _, [] => []
  | a, b :: rest => a :: headers (a + BLOCK_SIZE + b.size) rest

/-- **Safety of the library heap**, in a state and over the next call. -/
structure LibrarySafe (s : Library) : Prop where
  /-- following `getNextBlock` from `rootBlock` visits blocks that tile the arena, with `isNext`
  clear on the last only and no two neighbours free, and the taken ones are the live payloads -/
  tiles : ∃ blocks, Tiled s.memory LIBRARY_BYTES blocks ∧
    visited s.memory LIBRARY_BYTES 0 = some (headers 0 blocks) ∧
    (∀ p n, (p, n) ∈ s.live ↔ Holds BLOCK_SIZE 0 blocks p n) ∧
    ∀ block ∈ s.live, ∀ a ∈ headers 0 blocks, block.1 + block.2 ≤ a ∨ a + BLOCK_SIZE ≤ block.1
  apart : s.live.Pairwise fun x y => x.1 ≠ y.1 ∧ (x.1 + x.2 ≤ y.1 ∨ y.1 + y.2 ≤ x.1)
  returns : ∀ e, Permitted s e → (s.next e).isSome
  untouched : ∀ e s', Permitted s e → (∀ address value, e ≠ .write address value) →
    s.next e = some s' → ∀ block ∈ s.live, block ∈ s'.live →
      ∀ c, block.1 ≤ c → c < block.1 + block.2 → s'.memory c = s.memory c

/-- The invariant: a heap whose taken blocks are the live allocations. -/
structure LibraryHeap (s : Library) (blocks : List Block) : Prop where
  tiled : Tiled s.memory LIBRARY_BYTES blocks
  live : ∀ p n, (p, n) ∈ s.live ↔ Holds BLOCK_SIZE 0 blocks p n
  nodup : (s.live.map Prod.fst).Nodup

/-- A byte of a live payload is spared. -/
theorem LibraryHeap.spared {s : Library} {blocks : List Block} (heap : LibraryHeap s blocks)
    {block : Nat × Nat} (live : block ∈ s.live) {c : Nat} (low : block.1 ≤ c)
    (high : c < block.1 + block.2) : Spared 0 blocks c :=
  Or.inr (Or.inr ⟨block.1, block.2, (heap.live _ _).mp live, low, high⟩)

/-- **An allocation keeps the invariant.** -/
theorem LibraryHeap.allocate {s : Library} {blocks : List Block} (heap : LibraryHeap s blocks)
    (size : Nat) : ∃ s' blocks', s.next (.allocate size) = some s' ∧ LibraryHeap s' blocks' ∧
      ∀ c, Spared 0 blocks c → s'.memory c = s.memory c := by
  have shows : Shows (fun _ => True) id s.memory s.memory := ⟨trivial, rfl⟩
  have spec : Returns (myallocateLibrary plain size) s.memory _ :=
    myallocateLibrary_spec (plain_backed LIBRARY_BYTES) (le_refl _) shows heap.tiled
  obtain ⟨result, memory, ran,
    ⟨_, rfl, _, rfl⟩ | ⟨header, blocks', _, fit, rfl, ⟨_, rfl⟩, tiled, same⟩⟩ := spec
  · refine ⟨s, blocks, ?_, heap, fun _ _ => rfl⟩
    simp only [Library.next, ran, Option.map_some]
  · refine ⟨⟨memory, (header + BLOCK_SIZE, size) :: s.live⟩, blocks', ?_, ⟨tiled, ?_, ?_⟩, same⟩
    · simp only [Library.next, ran, Option.map_some]
    · intro p n
      rw [firstFit_holds fit, ← heap.live, List.mem_cons, Prod.mk.injEq, or_comm]
    · refine List.nodup_cons.mpr ⟨fun member => ?_, heap.nodup⟩
      obtain ⟨⟨p, n⟩, live, rfl⟩ := List.mem_map.mp member
      exact firstFit_fresh (by decide) fit ((heap.live _ _).mp live)

/-- **A deallocation of a live pointer keeps the invariant.** -/
theorem LibraryHeap.deallocate {s : Library} {blocks : List Block} (heap : LibraryHeap s blocks)
    {block : Nat × Nat} (live : block ∈ s.live) :
    ∃ s' blocks', s.next (.deallocate block.1) = some s' ∧ LibraryHeap s' blocks' ∧
      ∀ c, Spared 0 blocks c → s'.memory c = s.memory c := by
  have shows : Shows (fun _ => True) id s.memory s.memory := ⟨trivial, rfl⟩
  have holds := (heap.live _ _).mp live
  have target : block.1 - BLOCK_SIZE + BLOCK_SIZE = block.1 :=
    Nat.sub_add_cancel (heap.tiled.bounds holds).1
  have spec : Returns (mydeallocateLibrary plain (block.1 : Nat)) s.memory _ :=
    mydeallocateLibrary_spec (plain_backed LIBRARY_BYTES) (le_refl _) shows heap.tiled holds
  obtain ⟨_, memory, ran, _, blocks', _, released, ⟨_, rfl⟩, tiled, same⟩ := spec
  refine ⟨⟨memory, s.live.filter fun other => other.1 ≠ block.1⟩, blocks', ?_, ⟨tiled, ?_, ?_⟩,
    same⟩
  · simp only [Library.next, ran, Option.map_some]
  · intro p n
    rw [release_holds (by decide) released, ← heap.live, target, List.mem_filter,
      decide_eq_true_eq]
  · exact heap.nodup.sublist (List.filter_sublist.map Prod.fst)

/-- **A write inside a live payload keeps the invariant.** -/
theorem LibraryHeap.write {s : Library} {blocks : List Block} (heap : LibraryHeap s blocks)
    {block : Nat × Nat} (live : block ∈ s.live) {c : Nat} (low : block.1 ≤ c)
    (high : c < block.1 + block.2) (value : BitVec 8) :
    LibraryHeap { s with memory := Function.update s.memory c value } blocks :=
  ⟨heap.tiled.update ((heap.live _ _).mp live) low high value, heap.live, heap.nodup⟩

/-- **One event keeps it.** -/
theorem LibraryHeap.step {s : Library} {blocks : List Block} (heap : LibraryHeap s blocks)
    {e : LibraryEvent} (permitted : Permitted s e) : ∃ s' blocks', s.next e = some s' ∧
      LibraryHeap s' blocks' ∧ ((∀ address value, e ≠ .write address value) →
        ∀ c, Spared 0 blocks c → s'.memory c = s.memory c) := by
  cases e with
  | allocate size =>
    obtain ⟨s', blocks', taken, heap', same⟩ := heap.allocate size
    exact ⟨s', blocks', taken, heap', fun _ => same⟩
  | deallocate ptr =>
    obtain ⟨block, live, rfl⟩ := permitted
    obtain ⟨s', blocks', taken, heap', same⟩ := heap.deallocate live
    exact ⟨s', blocks', taken, heap', fun _ => same⟩
  | write address value =>
    obtain ⟨block, live, low, high⟩ := permitted
    exact ⟨_, blocks, rfl, heap.write live low high value, fun other => absurd rfl (other _ _)⟩

/-! ### Safety -/

/-- Following `getNextBlock` visits the headers of a chain. -/
theorem visited_chain {m : Memory} {blocks : List Block} {a fuel : Nat} (nonempty : blocks ≠ [])
    (chain : Chain m false a blocks) (enough : blocks.length ≤ fuel) :
    visited m fuel a = some (headers a blocks) := by
  induction blocks generalizing a fuel with
  | nil => exact absurd rfl nonempty
  | cons b rest ih =>
    obtain ⟨fuel, rfl⟩ : ∃ less, fuel = less + 1 := ⟨fuel - 1, by simp at enough; omega⟩
    have shows : Shows (fun _ => True) id m m := ⟨trivial, rfl⟩
    obtain ⟨next, _, ran, ⟨_, rfl⟩, rfl⟩ :=
      getNextBlock_spec (plain_backed (a + BLOCK_SIZE)) shows (le_refl _) chain.1
    unfold visited
    rw [ran, Option.bind_some]
    cases rest with
    | nil => rfl
    | cons d rest =>
      show (visited _ fuel (a + BLOCK_SIZE + b.size)).map _ = _
      rw [ih (by simp) chain.2 (by simpa using enough)]
      rfl

/-- A taken payload is apart from every header. -/
theorem holds_headers_apart {a p n x : Nat} {blocks : List Block}
    (holds : Holds BLOCK_SIZE a blocks p n) (header : x ∈ headers a blocks) :
    p + n ≤ x ∨ x + BLOCK_SIZE ≤ p := by
  have above : ∀ {blocks : List Block} {a : Nat}, x ∈ headers a blocks → a ≤ x := by
    intro blocks
    induction blocks with
    | nil =>
      intro a member
      cases member
    | cons b rest ih =>
      intro a member
      rcases List.mem_cons.mp member with rfl | later
      · exact le_refl _
      · have := ih later
        omega
  induction blocks generalizing a with
  | nil => exact holds.elim
  | cons b rest ih =>
    rcases List.mem_cons.mp header with rfl | later
    · exact Or.inr holds.bounds.1
    · rcases holds with ⟨rfl, rfl⟩ | holds
      · exact Or.inl (above later)
      · exact ih holds later

/-- **The invariant is safety.** -/
theorem LibraryHeap.safe {s : Library} {blocks : List Block} (heap : LibraryHeap s blocks) :
    LibrarySafe s := by
  refine ⟨⟨blocks, heap.tiled, visited_chain heap.tiled.nonempty heap.tiled.chain
    heap.tiled.length_le, heap.live, fun block live a header => ?_⟩, ?_, fun e permitted => ?_, ?_⟩
  · exact holds_headers_apart ((heap.live _ _).mp live) header
  · have distinct := List.pairwise_map.mp heap.nodup
    refine distinct.imp_of_mem fun {x y} left right different => ⟨different, ?_⟩
    have := ((heap.live _ _).mp left).apart ((heap.live _ _).mp right) different
    omega
  · obtain ⟨s', _, taken, _⟩ := heap.step permitted
    rw [taken]
    rfl
  · intro e s' permitted call taken block live _ c low high
    obtain ⟨s'', _, taken', _, same⟩ := heap.step permitted
    rw [taken] at taken'
    cases taken'
    exact same call c (heap.spared live low high)

theorem LibraryStarted.heap {s : Library} (started : LibraryStarted s) :
    LibraryHeap s [⟨LIBRARY_BYTES - BLOCK_SIZE, true⟩] := by
  obtain ⟨before, ran, nobody⟩ := started
  have shows : Shows (fun _ => True) id before before := ⟨trivial, rfl⟩
  have spec : Returns (initializeRoot plain) before _ :=
    freshBlock_spec (plain_backed LIBRARY_BYTES) shows (by decide) (by decide)
  obtain ⟨w, ⟨_, same⟩, header⟩ := spec.of_run ran
  have memory : s.memory = writeWord before 0 w := same
  refine ⟨⟨by simp, ⟨?_, trivial⟩, by decide, List.isChain_singleton _⟩, fun p n => ?_, ?_⟩
  · rw [memory, readWord_writeWord]
    exact header
  · rw [nobody, holds_cons_free rfl]
    exact ⟨fun member => (List.not_mem_nil member).elim, fun holds => holds.elim⟩
  · rw [nobody]
    exact List.nodup_nil

/-- Every state of such a run meets the invariant. -/
theorem exists_heap_of_reach {s : Library}
    (reached : Reach LibraryStarted Permitted (execStep Library.next) s) :
    ∃ blocks, LibraryHeap s blocks := by
  refine reached.invariant (fun s => ∃ blocks, LibraryHeap s blocks)
    (fun s started => ⟨_, started.heap⟩) ?_
  rintro s e s' ⟨blocks, heap⟩ permitted taken
  obtain ⟨s'', blocks', taken', heap', _⟩ := heap.step permitted
  have same : some s' = some s'' := taken.symm.trans taken'
  cases same
  exact ⟨blocks', heap'⟩

/-- **Library-heap safety over whole runs.** -/
theorem library_heap_safe (s : Library)
    (reached : Reach LibraryStarted Permitted (execStep Library.next) s) : LibrarySafe s := by
  obtain ⟨blocks, heap⟩ := exists_heap_of_reach reached
  exact heap.safe

/-- The library heap in zeroed memory. -/
def zeroLibrary : Library where
  memory := ((initializeRoot plain fun _ => 0).map Prod.snd).getD fun _ => 0
  live := []

theorem zeroLibrary_started : LibraryStarted zeroLibrary := ⟨fun _ => 0, rfl, rfl⟩

/-- Two allocations, a write into the first, which is then freed. -/
def twoBlocks : List LibraryEvent := [.allocate 10, .allocate 20, .write 13 255, .deallocate 4]

/-- The heap is safe behind them, with the second block alive. -/
theorem library_heap_safe_twoBlocks :
    ∃ s, Reach LibraryStarted Permitted (execStep Library.next) s ∧ s.live = [(18, 20)] ∧
      LibrarySafe s := by
  have start : Reach LibraryStarted Permitted (execStep Library.next) zeroLibrary :=
    .init zeroLibrary_started
  obtain ⟨s, reached, held⟩ := start.exists_of_execAll twoBlocks (fun s => s.live = [(18, 20)])
    (by decide +kernel)
  exact ⟨s, reached, of_decide_eq_true held, library_heap_safe s reached⟩

end OS2017.Heap
