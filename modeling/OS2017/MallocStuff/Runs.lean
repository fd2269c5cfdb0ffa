/-
**Runs of the two allocators.**

`mymalloc`/`myfree` of `mymalloc.c` and `myallocate`/`mydeallocate` with `LIBRARYREQ` of
`my_pthread.c` are one allocator: on every list of requests of at least one byte, frees of what is
held and writes to it, both return what first fit returns (`allocators_implement`).

A request for no byte is outside of that. It may be served by a free block of no byte at the very
end of `myblock`, and `myfree` does not take the pointer to it back, as it is behind the last byte.
In the runs where that does not happen, releasing all restores the heap (`heap_restored`).
-/

import OS2017.Lib.Run
import OS2017.MallocStuff.Linked

namespace OS2017.MallocStuff

open OS2017.Bytes OS2017.FirstFit OS2017.Allocator OS2017.Run
open OS2017.Heap (Report LIBRARY_BYTES plain Tiled)

/-! ### The calls on related states -/

/-- **The heap has the blocks of the allocator**, or waits for the first call. -/
def Related (place : Placement) (heap : Heap) (t : State) : Prop :=
  (heap.firstMalloc = true ∧ t = initial BLOCK_SIZE MAX_MEMORY) ∨
    (heap.firstMalloc = false ∧ Linked place heap.memory 0 t.blocks)

theorem initializeRoot_linked (place : Placement) (m : Memory) :
    Linked place (initializeRoot m) 0 (initial BLOCK_SIZE MAX_MEMORY).blocks := by
  refine ⟨⟨?_, ?_, ?_⟩, trivial⟩
  · unfold initializeRoot
    rw [isFree_setNext, isFree_setSize, isFree_setIsFree]
  · unfold initializeRoot
    rw [size_setNext, size_setSize]
    rfl
  · unfold initializeRoot
    rw [next_setNext]
    rfl

section Calls

variable {place : Placement} {heap : Heap} {t : State}

/-- The memory `mymalloc` searches. -/
theorem Related.searched (relates : Related place heap t) :
    Linked place (if heap.firstMalloc then initializeRoot heap.memory else heap.memory) 0 t.blocks := by
  rcases relates with ⟨first, rfl⟩ | ⟨later, linked⟩
  · rw [if_pos first]
    exact initializeRoot_linked place heap.memory
  · rw [if_neg (by rw [later]; decide)]
    exact linked

/-- **`mymalloc` is a request.** -/
theorem mymalloc_spec (relates : Related place heap t) (sound : t.Sound BLOCK_SIZE MAX_MEMORY)
    (request : Nat) : ∃ heap', mymalloc place request heap = some (t.served BLOCK_SIZE request, heap') ∧
      heap'.firstMalloc = false ∧ Related place heap' (t.next BLOCK_SIZE (.malloc request)) := by
  have inside : 0 + span BLOCK_SIZE t.blocks ≤ MAX_MEMORY := by
    rw [sound.extent]
    exact Nat.le_of_eq (Nat.zero_add _)
  have enough : t.blocks.length ≤ MAX_MEMORY :=
    sound.extent ▸ length_le_span (by decide) t.blocks
  have spec : Served place _ 0 request t.blocks _ :=
    mallocLoop_spec sound.nonempty relates.searched inside enough
  unfold Served at spec
  unfold mymalloc State.served
  cases fit : firstFit BLOCK_SIZE request 0 t.blocks with
  | none =>
    rw [fit] at spec
    rw [State.next_malloc_none fit]
    refine ⟨⟨_, false⟩, ?_, rfl, Or.inr ⟨rfl, relates.searched⟩⟩
    dsimp only
    rw [spec]
    rfl
  | some found =>
    obtain ⟨header, blocks⟩ := found
    rw [fit] at spec
    obtain ⟨m', ran, linked, _⟩ := spec
    rw [State.next_malloc_some fit]
    refine ⟨⟨m', false⟩, ?_, rfl, Or.inr ⟨rfl, linked⟩⟩
    dsimp only
    rw [ran]
    rfl

/-- What is held was asked for. -/
theorem Related.linked_of_live (relates : Related place heap t) {p n : Nat}
    (member : (p, n) ∈ t.live) : heap.firstMalloc = false ∧ Linked place heap.memory 0 t.blocks := by
  refine relates.resolve_left ?_
  rintro ⟨_, rfl⟩
  exact List.not_mem_nil member

/-- A taken block says that it is. -/
theorem Linked.isFree_of_holds {m : Memory} {a p n : Nat} {blocks : List Block}
    (linked : Linked place m a blocks) (holds : Holds BLOCK_SIZE a blocks p n) :
    isFree m (p - BLOCK_SIZE) = false := by
  induction blocks generalizing a with
  | nil => exact holds.elim
  | cons b rest ih =>
    rcases holds with ⟨rfl, rfl⟩ | later
    · rw [Nat.add_sub_cancel]
      exact linked.1.isFree
    · exact ih linked.2 later

/-- **`myfree` is a release**, if the pointer is in `myblock`. -/
theorem myfree_spec (relates : Related place heap t) (sound : t.Sound BLOCK_SIZE MAX_MEMORY)
    {p n : Nat} (member : (p, n) ∈ t.live) (within : inMemorySpace p) :
    ∃ heap', myfree place p heap = some (.freed, heap') ∧
      heap'.firstMalloc = heap.firstMalloc ∧ Related place heap' (t.next BLOCK_SIZE (.free p)) := by
  obtain ⟨later, linked⟩ := relates.linked_of_live member
  have holds := (sound.live p n).mp member
  have inside : 0 + span BLOCK_SIZE t.blocks ≤ MAX_MEMORY := by
    rw [sound.extent]
    exact Nat.le_of_eq (Nat.zero_add _)
  have enough : t.blocks.length ≤ MAX_MEMORY :=
    sound.extent ▸ length_le_span (by decide) t.blocks
  obtain ⟨blocks, released⟩ := sound.releases (by decide) member
  obtain ⟨m', ran, linked'⟩ := freeAndMergeLoop_spec linked inside enough released
  rw [State.next_free_some released]
  refine ⟨{ heap with memory := m' }, ?_, rfl, Or.inr ⟨later, linked'⟩⟩
  have behind : ¬ p < BLOCK_SIZE := by
    have := holds.bounds
    omega
  unfold myfree
  rw [if_pos within, if_neg behind, linked.isFree_of_holds holds, ran]
  rfl

/-- A caller writes into what it holds. -/
theorem Related.write (relates : Related place heap t) (sound : t.Sound BLOCK_SIZE MAX_MEMORY)
    {address : Nat} {value : BitVec 8} (holder : t.Holder (.write address value)) :
    Related place { heap with memory := Function.update heap.memory address value } t := by
  obtain ⟨⟨p, n⟩, member, low, high⟩ := holder
  obtain ⟨later, linked⟩ := relates.linked_of_live member
  exact Or.inr ⟨later, linked.update ((sound.live p n).mp member) low high value⟩

end Calls

/-! ### One first-fit allocator -/

/-- The calls of `mymalloc.c`. -/
def mallocStuff (place : Placement) : Machine Heap where
  malloc request := mymalloc place request
  free ptr heap := (myfree place ptr heap).map fun (_, heap) => ((), heap)
  write address value heap := { heap with memory := Function.update heap.memory address value }

/-- The calls of `my_pthread.c` with `LIBRARYREQ`. -/
def libraryHeap : Machine Memory where
  malloc size := OS2017.Heap.myallocateLibrary plain size
  free ptr m := (OS2017.Heap.mydeallocateLibrary plain (ptr : Int) m).map fun (_, m) => ((), m)
  write address value m := Function.update m address value

/-- Requests are for at least one byte. -/
def AtLeastOne : Event → Prop
  | .malloc size => 1 ≤ size
  | _ => True

instance : (e : Event) → Decidable (AtLeastOne e)
  | .malloc size => inferInstanceAs (Decidable (1 ≤ size))
  | .free _ => isTrue trivial
  | .write _ _ => isTrue trivial

/-- **`mymalloc.c` is simulated by first fit.** -/
theorem mallocStuff_simulates (place : Placement) :
    Simulates BLOCK_SIZE MAX_MEMORY AtLeastOne (mallocStuff place)
      fun heap t => Related place heap t ∧ ∀ p n, (p, n) ∈ t.live → 1 ≤ n where
  step := by
    rintro heap t e ⟨relates, positive⟩ sound atLeast holder
    cases e with
    | malloc request =>
      obtain ⟨heap', ran, _, relates'⟩ := mymalloc_spec relates sound request
      refine ⟨heap', ran, relates', fun p n member => ?_⟩
      cases fit : firstFit BLOCK_SIZE request 0 t.blocks with
      | none =>
        rw [State.next_malloc_none fit] at member
        exact positive p n member
      | some found =>
        rw [State.next_malloc_some fit] at member
        rcases List.mem_cons.mp member with same | before
        · cases same
          exact atLeast
        · exact positive p n before
    | free ptr =>
      obtain ⟨⟨p, n⟩, member, rfl⟩ := holder
      have bounds := ((sound.live p n).mp member).bounds
      rw [sound.extent] at bounds
      have atLeastOne := positive p n member
      have max : MAX_MEMORY = 5000 := rfl
      obtain ⟨heap', ran, _, relates'⟩ :=
        myfree_spec relates sound member (by unfold inMemorySpace; omega)
      refine ⟨heap', ?_, relates', fun q m member' => ?_⟩
      · unfold Machine.step mallocStuff
        dsimp only
        rw [ran]
        rfl
      · obtain ⟨blocks, released⟩ := sound.releases (by decide) member
        rw [State.next_free_some released] at member'
        exact positive q m (List.mem_of_mem_filter member')
    | write address value =>
      exact ⟨_, rfl, relates.write sound holder, positive⟩

/-- **So is the library heap of `my_pthread.c`.** -/
theorem libraryHeap_simulates : Simulates OS2017.Heap.BLOCK_SIZE LIBRARY_BYTES AtLeastOne libraryHeap
    fun m t => Tiled m LIBRARY_BYTES t.blocks where
  step := by
    intro m t e tiled sound _ holder
    have shows : OS2017.Bytes.Shows (fun _ => True) id m m := ⟨trivial, rfl⟩
    have backed := OS2017.Heap.plain_backed LIBRARY_BYTES
    cases e with
    | malloc size =>
      have spec : Returns (OS2017.Heap.myallocateLibrary plain size) m _ :=
        OS2017.Heap.myallocateLibrary_spec backed (Nat.le_refl _) shows tiled
      obtain ⟨result, m', ran, served⟩ := spec
      refine ⟨m', ?_, ?_⟩
      · refine ran.trans ?_
        show _ = some (t.served _ size, m')
        unfold State.served
        obtain ⟨fit, rfl, _⟩ | ⟨header, blocks, _, fit, rfl, _⟩ := served
        · rw [fit]
          rfl
        · rw [fit]
          rfl
      · obtain ⟨fit, _, _, same⟩ | ⟨header, blocks, m₁, fit, _, ⟨_, same⟩, tiled', _⟩ := served
        · rw [State.next_malloc_none fit, show m' = m from same]
          exact tiled
        · rw [State.next_malloc_some fit, show m' = m₁ from same]
          exact tiled'
    | free ptr =>
      obtain ⟨⟨p, n⟩, member, rfl⟩ := holder
      obtain ⟨_, m', ran, _, blocks, m₁, released, ⟨_, same⟩, tiled', _⟩ :=
        OS2017.Heap.mydeallocateLibrary_spec backed (Nat.le_refl _) shows tiled
          ((sound.live p n).mp member)
      refine ⟨m', ?_, ?_⟩
      · unfold Machine.step libraryHeap
        dsimp only
        rw [ran]
        rfl
      · rw [State.next_free_some released, show m' = m₁ from same]
        exact tiled'
    | write address value =>
      obtain ⟨⟨p, n⟩, member, low, high⟩ := holder
      exact ⟨_, rfl, tiled.update ((sound.live p n).mp member) low high value⟩

/-- **Both allocators implement first fit**, each with its header and its arena. -/
theorem allocators_implement :
    (∀ place m, Implements BLOCK_SIZE MAX_MEMORY AtLeastOne (mallocStuff place) ⟨m, true⟩) ∧
      ∀ before m, OS2017.Heap.initializeRoot plain before = some ((), m) →
        Implements OS2017.Heap.BLOCK_SIZE LIBRARY_BYTES AtLeastOne libraryHeap m := by
  refine ⟨fun place m => ?_, fun before m ran => ?_⟩
  · refine (mallocStuff_simulates place).implements (by decide) (by decide) ⟨Or.inl ⟨rfl, rfl⟩, ?_⟩
    exact fun p n member => (List.not_mem_nil member).elim
  · have started : OS2017.Heap.LibraryStarted ⟨m, []⟩ := ⟨before, ran, rfl⟩
    exact libraryHeap_simulates.implements (by decide) (by decide) started.heap.tiled

/-- `myblock` at some address. -/
def somePlace : Placement where
  address := 4096
  notNull := by decide
  fits := by decide

/-- Two requests, a free, a request that is too large and one that fills the gap. -/
theorem allocators_implement_fiveCalls :
    (mallocStuff somePlace).run ⟨fun _ => 0, true⟩
        [.malloc 10, .malloc 20, .free 16, .malloc (2 ^ 64 - 1), .malloc 10] =
      some [some 16, some 42, none, none, some 16] ∧
    libraryHeap.run OS2017.Heap.zeroLibrary.memory
        [.malloc 10, .malloc 20, .free 4, .malloc (2 ^ 64 - 1), .malloc 10] =
      some [some 4, some 18, none, none, some 4] :=
  ⟨(allocators_implement.1 somePlace (fun _ => 0) _ (by decide)).trans (by decide),
    (allocators_implement.2 (fun _ => 0) _ rfl _ (by decide)).trans (by decide)⟩

/-! ### Releasing all -/

/-- The heap of `mymalloc.c`, and what its callers hold: pointer and size. -/
structure Client where
  heap : Heap
  live : List (Nat × Nat)

/-- One event. What is passed to `myfree` is no longer held, whatever `myfree` reports. -/
def Client.next (place : Placement) (s : Client) : Event → Option Client
  | .malloc size =>
    (mymalloc place size s.heap).map fun (result, heap) =>
      { heap := heap
        live := match result with
          | none => s.live
          | some ptr => (ptr, size) :: s.live }
  | .free ptr =>
    (myfree place ptr s.heap).map fun (_, heap) =>
      { heap := heap, live := s.live.filter fun block => block.1 ≠ ptr }
  | .write address value =>
    some { s with heap := { s.heap with memory := Function.update s.heap.memory address value } }

/-- Callers free what they hold and write inside it. -/
def Client.Holder (s : Client) (e : Event) : Prop := State.Holder ⟨[], s.live⟩ e

instance (s : Client) (e : Event) : Decidable (s.Holder e) :=
  inferInstanceAs (Decidable (State.Holder _ e))

/-- Before the first call. -/
def Client.Started (s : Client) : Prop := s.heap.firstMalloc = true ∧ s.live = []

/-- **The end of `myblock` serves a request for no byte**: there is a free block of no byte at the
end, and no free block before it is of no byte or large enough to be cut. -/
def EndServes (place : Placement) (heap : Heap) : Prop :=
  heap.firstMalloc = false ∧ ∃ front, Linked place heap.memory 0 (front ++ [⟨0, true⟩]) ∧
    span BLOCK_SIZE front + BLOCK_SIZE = MAX_MEMORY ∧
    ∀ b ∈ front, b.free = true → b.size ≠ 0 ∧ b.size < BLOCK_SIZE

/-- Nothing is asked for where the end of `myblock` would serve it. -/
def Client.Guard (place : Placement) (s : Client) (e : Event) : Prop :=
  s.Holder e ∧ (e = .malloc 0 → ¬ EndServes place s.heap)

/-- **One free block**, at the start of `myblock`. -/
structure Restored (m : Memory) : Prop where
  isFree : isFree m 0 = true
  size : (size m 0).toNat = MAX_MEMORY - BLOCK_SIZE
  next : next m 0 = 0

/-- The invariant: what is held is taken, and `myfree` takes it back. -/
structure Client.Inv (place : Placement) (s : Client) (t : State) : Prop where
  related : Related place s.heap t
  sound : t.Sound BLOCK_SIZE MAX_MEMORY
  live : s.live = t.live
  within : ∀ p n, (p, n) ∈ s.live → inMemorySpace p

section Releasing

variable {place : Placement} {s : Client} {t : State}

/-- A pointer that is not in `myblock` comes from the end of it. -/
theorem endServes_of_outside (relates : Related place s.heap t)
    (sound : t.Sound BLOCK_SIZE MAX_MEMORY) {request header : Nat} {blocks : List Block}
    (fit : firstFit BLOCK_SIZE request 0 t.blocks = some (header, blocks))
    (outside : ¬ inMemorySpace (header + BLOCK_SIZE)) :
    request = 0 ∧ EndServes place s.heap := by
  have sixteen : BLOCK_SIZE = 16 := rfl
  have max : MAX_MEMORY = 5000 := rfl
  have behind : MAX_MEMORY ≤ header + BLOCK_SIZE := by
    unfold inMemorySpace at outside
    omega
  obtain ⟨front, b, back, split, isFree, rfl, size, passed⟩ := firstFit_first fit
  have extent := sound.extent
  rw [split, span_append, span] at extent
  have noByte : b.size = 0 := by omega
  have request : request = 0 := by omega
  have last : back = [] := by
    cases back with
    | nil => rfl
    | cons c back =>
      simp only [span] at extent
      omega
  have block : b = ⟨0, true⟩ := by
    cases b with
    | mk size free =>
      simp only at noByte isFree
      rw [noByte, isFree]
  subst last block request
  rw [Nat.zero_add] at passed
  refine ⟨rfl, ?_⟩
  rcases relates with ⟨_, rfl⟩ | ⟨later, linked⟩
  · have single : front.length = 0 := by
      have := congrArg List.length split
      simp only [initial, List.length_append, List.length_singleton] at this
      omega
    rw [List.length_eq_zero_iff.mp single, span] at behind
    omega
  · rw [split] at linked
    exact ⟨later, front, linked, by omega, passed⟩

/-- **A request keeps the invariant.** -/
theorem Client.Inv.malloc (inv : s.Inv place t) (size : Nat)
    (guard : size = 0 → ¬ EndServes place s.heap) : ∃ s', s.next place (.malloc size) = some s' ∧
      s'.Inv place (t.next BLOCK_SIZE (.malloc size)) := by
  obtain ⟨heap, ran, _, relates⟩ := mymalloc_spec inv.related inv.sound size
  have sound := inv.sound.next (by decide) (e := .malloc size) trivial
  unfold Client.next
  simp only [ran, Option.map_some]
  refine ⟨_, rfl, ⟨relates, sound, ?_, ?_⟩⟩
  · unfold State.served
    cases fit : firstFit BLOCK_SIZE size 0 t.blocks with
    | none =>
      rw [State.next_malloc_none fit]
      exact inv.live
    | some found =>
      rw [State.next_malloc_some fit]
      exact congrArg _ inv.live
  · intro p n member
    unfold State.served at member
    cases fit : firstFit BLOCK_SIZE size 0 t.blocks with
    | none =>
      rw [fit] at member
      exact inv.within p n member
    | some found =>
      rw [fit] at member
      rcases List.mem_cons.mp member with same | before
      · cases same
        by_contra outside
        obtain ⟨nothing, serves⟩ := endServes_of_outside inv.related inv.sound fit outside
        exact guard nothing serves
      · exact inv.within p n before

/-- **A free keeps it.** -/
theorem Client.Inv.free (inv : s.Inv place t) {p n : Nat} (member : (p, n) ∈ s.live) :
    ∃ s', s.next place (.free p) = some s' ∧ s'.Inv place (t.next BLOCK_SIZE (.free p)) := by
  have held : (p, n) ∈ t.live := inv.live ▸ member
  obtain ⟨heap, ran, _, relates⟩ := myfree_spec inv.related inv.sound held (inv.within p n member)
  have sound := inv.sound.next (by decide) (e := .free p) ⟨(p, n), held, rfl⟩
  obtain ⟨blocks, released⟩ := inv.sound.releases (by decide) held
  unfold Client.next
  simp only [ran, Option.map_some]
  refine ⟨_, rfl, ⟨relates, sound, ?_, fun q m member' => ?_⟩⟩
  · rw [State.next_free_some released, inv.live]
  · exact inv.within q m (List.mem_of_mem_filter member')

/-- **Every event keeps it.** -/
theorem Client.Inv.step (inv : s.Inv place t) {e : Event} (guard : s.Guard place e) :
    ∃ s', s.next place e = some s' ∧ s'.Inv place (t.next BLOCK_SIZE e) := by
  obtain ⟨holder, notEnd⟩ := guard
  cases e with
  | malloc size => exact inv.malloc size fun nothing => notEnd (by rw [nothing])
  | free ptr =>
    obtain ⟨⟨p, n⟩, member, rfl⟩ := holder
    exact inv.free member
  | write address value =>
    have held : t.Holder (.write address value) := by
      obtain ⟨block, member, inside⟩ := holder
      exact ⟨block, inv.live ▸ member, inside⟩
    exact ⟨_, rfl, ⟨inv.related.write inv.sound held, inv.sound, inv.live, inv.within⟩⟩

/-- **Releasing all restores the heap**, in every run that asks for nothing where the end of
`myblock` would serve it. -/
theorem heap_restored (place : Placement) (s : Client)
    (reached : Reach Client.Started (Client.Guard place) (execStep (Client.next place)) s)
    (called : s.heap.firstMalloc = false) (released : s.live = []) : Restored s.heap.memory := by
  obtain ⟨t, inv⟩ : ∃ t, s.Inv place t := by
    refine reached.invariant (fun s => ∃ t, s.Inv place t) ?_ ?_
    · rintro s ⟨first, nobody⟩
      refine ⟨initial BLOCK_SIZE MAX_MEMORY, Or.inl ⟨first, rfl⟩, sound_initial (by decide), nobody,
        fun p n member => ?_⟩
      rw [nobody] at member
      exact (List.not_mem_nil member).elim
    · rintro s e s' ⟨t, inv⟩ guard taken
      obtain ⟨s'', taken', inv'⟩ := inv.step guard
      have same : some s' = some s'' := taken.symm.trans taken'
      cases same
      exact ⟨_, inv'⟩
  have linked : Linked place s.heap.memory 0 t.blocks :=
    (inv.related.resolve_left fun first => by simp [called] at first).2
  rw [inv.sound.unheld (inv.live ▸ released)] at linked
  exact ⟨linked.1.isFree, linked.1.size, linked.1.next⟩

end Releasing

/-- A heap nobody has used. -/
def freshClient : Client := ⟨⟨fun _ => 0, true⟩, []⟩

instance (m : Memory) : Decidable (Restored m) :=
  decidable_of_iff (isFree m 0 = true ∧ (size m 0).toNat = MAX_MEMORY - BLOCK_SIZE ∧ next m 0 = 0)
    ⟨fun ⟨a, b, c⟩ => ⟨a, b, c⟩, fun ⟨a, b, c⟩ => ⟨a, b, c⟩⟩

/-- Three blocks, freed out of order. -/
theorem heap_restored_threeBlocks : ∃ s : Client, s.heap.firstMalloc = false ∧ s.live = [] ∧
    Restored s.heap.memory := by
  have start : Reach Client.Started (fun s e => s.Holder e ∧ e ≠ .malloc 0)
      (execStep (Client.next somePlace)) freshClient := .init ⟨rfl, rfl⟩
  obtain ⟨s, reached, held⟩ := start.exists_of_execAll
    [.malloc 10, .malloc 20, .write 43 255, .malloc 30, .free 42, .free 78, .free 16]
    (fun s => s.heap.firstMalloc = false ∧ s.live = []) (by decide +kernel)
  obtain ⟨called, released⟩ := of_decide_eq_true held
  refine ⟨s, called, released, heap_restored somePlace s ?_ called released⟩
  exact reached.mono fun s e ⟨holder, positive⟩ => ⟨holder, fun nothing => absurd nothing positive⟩

/-- **All is released and the heap is not restored**: the last 16 bytes stay taken. -/
theorem heap_not_restored : ∃ s : Client,
    Reach Client.Started Client.Holder (execStep (Client.next somePlace)) s ∧
      s.heap.firstMalloc = false ∧ s.live = [] ∧ ¬ Restored s.heap.memory := by
  have start : Reach Client.Started Client.Holder (execStep (Client.next somePlace)) freshClient :=
    .init ⟨rfl, rfl⟩
  obtain ⟨s, reached, held⟩ := start.exists_of_execAll
    [.malloc 4968, .malloc 0, .free 16, .free 5000]
    (fun s => s.heap.firstMalloc = false ∧ s.live = [] ∧ ¬ Restored s.heap.memory)
    (by decide +kernel)
  exact ⟨s, reached, of_decide_eq_true held⟩

end OS2017.MallocStuff
