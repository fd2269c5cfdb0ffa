/-
**Bad frees of library memory.**

`mydeallocate` with `LIBRARYREQ` first looks at the four bytes before the pointer, which may be
anything: a stale header, user data, bytes before the arena. Whatever they are, the block is freed
only if the walk of `freeAndMerge` meets it, and the walk meets the headers of the blocks and
nothing else. A header that the walk meets is that of a taken block, which is a proper free, or that
of a free block, which the look at its flag has turned away.

A pointer into the first word of the arena has its header in front of the arena, so the memory here
shows more than the arena, which starts at `root` (`mydeallocateFrom`).
-/

import OS2017.Heap.Library

namespace OS2017.Heap

open OS2017.Bytes OS2017.FirstFit OS2017.Run

section Call

variable {σ : Type} (mem : Store σ)

/-- **`mydeallocate` with `LIBRARYREQ`**, in a memory that shows the arena from `root` on. The
pointer counts from the start of the arena. -/
def mydeallocateFrom (root : Nat) (ptr : Int) : StateT σ Option Report :=
  if inMemSpace ptr then
    if root + ptr < BLOCK_SIZE then fun _ => none
    else do
      let block := (root + ptr).toNat - BLOCK_SIZE
      let word ← mem.load block
      if getBlockIsF word = 1 then return .alreadyFreed
      else
        let found ← freeAndMergeLoop mem block LIBRARY_BYTES none root
        return if found then .freed else .notCreated
  else return .notCreated

/-- In a memory that shows the arena only, it is `mydeallocateLibrary`. -/
theorem mydeallocateFrom_zero (ptr : Int) :
    mydeallocateFrom mem 0 ptr = mydeallocateLibrary mem ptr := by
  have same : ((0 : Nat) : Int) + ptr = ptr := Int.zero_add ptr
  unfold mydeallocateFrom mydeallocateLibrary
  rw [same]

end Call

/-- The arena in such a memory. -/
def arena (root : Nat) (m : Memory) : Memory := fun c => m (root + c)

/-! ### The walk -/

section Walk

variable {σ : Type} {mem : Store σ} {good : σ → Prop} {view : σ → Memory} {extent : Nat}

/-- **`freeAndMerge` does not find** what is not a header of the chain, and leaves the memory as it
is. -/
theorem freeAndMergeLoop_missing (backed : Backed mem good view extent) {target : Nat}
    {blocks : List Block} {fuel a : Nat} {previous : Option Nat} {s : σ} {m : Memory}
    (shows : Shows good view m s) (chain : Chain m false a blocks) (nonempty : blocks ≠ [])
    (inside : a + extentOf blocks ≤ extent) (enough : blocks.length ≤ fuel)
    (absent : target ∉ headers a blocks) :
    Returns (freeAndMergeLoop mem target fuel previous a) s fun found s' =>
      found = false ∧ Shows good view m s' := by
  induction blocks generalizing fuel a previous s with
  | nil => exact absurd rfl nonempty
  | cons b rest ih =>
    obtain ⟨fuel, rfl⟩ : ∃ less, fuel = less + 1 := ⟨fuel - 1, by simp at enough; omega⟩
    obtain ⟨notHere, notLater⟩ := not_or.mp (mt List.mem_cons.mpr absent)
    simp only [extentOf, span] at inside
    unfold freeAndMergeLoop
    rw [if_neg (Ne.symm notHere)]
    refine Returns.bind ((getNextBlock_spec backed shows (by omega) chain.1).mono ?_)
    rintro next s₁ ⟨shows₁, rfl⟩
    cases rest with
    | nil => exact Returns.pure ⟨rfl, shows₁⟩
    | cons d rest =>
      refine ih shows₁ chain.2 (by simp) ?_ (by simpa using enough) notLater
      simp only [extentOf, span] at inside ⊢
      omega

/-- **A header of the chain** is that of a taken block or says that its block is free. -/
theorem Chain.header_of_mem {m : Memory} {a x : Nat} {blocks : List Block}
    (chain : Chain m false a blocks) (member : x ∈ headers a blocks) :
    (∃ n, Holds BLOCK_SIZE a blocks (x + BLOCK_SIZE) n) ∨ getBlockIsF (readWord m x) = 1 := by
  induction blocks generalizing a with
  | nil => cases member
  | cons b rest ih =>
    rcases List.mem_cons.mp member with rfl | later
    · obtain ⟨size, free⟩ := b
      cases free with
      | true => exact Or.inr (by rw [chain.1.isF]; rfl)
      | false => exact Or.inl ⟨size, Or.inl ⟨rfl, rfl⟩⟩
    · exact (ih chain.2 later).imp_left fun ⟨n, holds⟩ => ⟨n, Or.inr holds⟩

/-- A header lies inside the chain. -/
theorem headers_lt {a x : Nat} {blocks : List Block} (member : x ∈ headers a blocks) :
    x + BLOCK_SIZE ≤ a + extentOf blocks := by
  induction blocks generalizing a with
  | nil => cases member
  | cons b rest ih =>
    simp only [extentOf, span] at ih ⊢
    rcases List.mem_cons.mp member with rfl | later
    · omega
    · have := ih later
      omega

/-- **A pointer that no taken block has**: nothing happens. -/
theorem mydeallocateFrom_bad (backed : Backed mem good view extent) {root : Nat}
    (front : BLOCK_SIZE ≤ root) (shown : root + MAX_MEMORY ≤ extent) {s : σ} {m : Memory}
    {blocks : List Block} (shows : Shows good view m s)
    (tiled : Tiled (arena root m) LIBRARY_BYTES blocks) {ptr : Int}
    (bad : ∀ p n, ptr = (p : Nat) → ¬ Holds BLOCK_SIZE 0 blocks p n) :
    Returns (mydeallocateFrom mem root ptr) s fun report s' =>
      report ≠ .freed ∧ Shows good view m s' := by
  have chain : Chain m false root blocks :=
    (chain_shift (k := root) (a := 0) fun _ => rfl).mpr tiled.chain
  unfold mydeallocateFrom
  by_cases within : inMemSpace ptr
  · obtain ⟨p, rfl⟩ := Int.eq_ofNat_of_zero_le within.1
    have four : BLOCK_SIZE = 4 := rfl
    have below : p < MAX_MEMORY := Int.ofNat_lt.mp within.2
    have block : ((root : Int) + (p : Int)).toNat = root + p := by omega
    rw [if_pos within, if_neg (by omega), block]
    refine backed.load_bind shows (by omega) fun s₁ shows₁ => ?_
    by_cases isFree : getBlockIsF (readWord m (root + p - BLOCK_SIZE)) = 1
    · rw [if_pos isFree]
      exact Returns.pure ⟨by simp, shows₁⟩
    · rw [if_neg isFree]
      have absent : root + p - BLOCK_SIZE ∉ headers root blocks := by
        intro member
        rcases chain.header_of_mem member with ⟨n, holds⟩ | free
        · rw [Nat.sub_add_cancel (by omega)] at holds
          exact bad p n rfl (holds_shift (k := root) (a := 0) |>.mp holds)
        · exact isFree free
      have extents := tiled.extent
      have bytes : LIBRARY_BYTES = 819200 := rfl
      have max : MAX_MEMORY = 8388608 := rfl
      refine Returns.bind ((freeAndMergeLoop_missing backed shows₁ chain tiled.nonempty
        (by omega) tiled.length_le absent).mono ?_)
      rintro found s₂ ⟨rfl, shows₂⟩
      exact Returns.pure ⟨by simp, shows₂⟩
  · rw [if_neg within]
    exact Returns.pure ⟨by simp, shows⟩

/-- **The pointer of a taken block**: a release. -/
theorem mydeallocateFrom_good (backed : Backed mem good view extent) {root : Nat}
    (shown : root + LIBRARY_BYTES ≤ extent) {p n : Nat} {s : σ} {m : Memory}
    {blocks : List Block} (shows : Shows good view m s)
    (tiled : Tiled (arena root m) LIBRARY_BYTES blocks) (holds : Holds BLOCK_SIZE 0 blocks p n) :
    Returns (mydeallocateFrom mem root p) s fun report s' => report = .freed ∧ ∃ blocks' m',
      release BLOCK_SIZE (p - BLOCK_SIZE) 0 blocks = some blocks' ∧ Shows good view m' s' ∧
      Tiled (arena root m') LIBRARY_BYTES blocks' ∧ ∀ c, Spared root blocks c → m' c = m c := by
  have chain : Chain m false root blocks :=
    (chain_shift (k := root) (a := 0) fun _ => rfl).mpr tiled.chain
  have bounds := tiled.bounds holds
  have four : BLOCK_SIZE = 4 := rfl
  have bytes : LIBRARY_BYTES = 819200 := rfl
  have max : MAX_MEMORY = 8388608 := rfl
  have extents := tiled.extent
  have target : p - BLOCK_SIZE + BLOCK_SIZE = p := Nat.sub_add_cancel bounds.1
  have block : root + p - BLOCK_SIZE = root + (p - BLOCK_SIZE) := by omega
  obtain ⟨blocks', released⟩ := Option.isSome_iff_exists.mp
    (release_isSome (by decide) (target.symm ▸ holds))
  obtain ⟨more, header⟩ := tiled.chain.header_of_holds holds
  have shifted : readWord m (root + (p - BLOCK_SIZE)) = readWord (arena root m) (p - BLOCK_SIZE) :=
    readWord_shift (fun _ => rfl) _
  have moved : release BLOCK_SIZE (root + (p - BLOCK_SIZE)) root blocks = some blocks' :=
    (release_shift root _ 0 blocks).trans released
  unfold mydeallocateFrom
  have within : inMemSpace p := ⟨by omega, by omega⟩
  have index : ((root : Int) + (p : Int)).toNat = root + p := by omega
  rw [if_pos within, if_neg (by omega), index, block]
  refine backed.load_bind shows (by omega) fun s₁ shows₁ => ?_
  rw [shifted, if_neg (by rw [header.isF, flag_eq_one]; simp)]
  refine Returns.bind ((freeAndMergeLoop_spec backed shows₁ chain (by omega) tiled.small
    tiled.length_le moved).mono ?_)
  rintro found s₂ ⟨rfl, m', shows₂, chain', same⟩
  refine Returns.pure ⟨rfl, blocks', m', released, shows₂, ?_, same⟩
  exact ⟨release_ne_nil (by decide) released, (chain_shift (k := root) (a := 0) fun _ => rfl).mp chain',
    (release_span released).trans tiled.extent, (release_merged released tiled.merged).1⟩

end Walk

/-- **Bad frees are harmless.** On a wellformed heap, whatever the other bytes of the memory are: a
pointer that is not the payload of a taken block changes no byte, and that of a taken block frees
exactly this block and merges it with its free neighbours. -/
theorem bad_free_harmless {root : Nat} (front : BLOCK_SIZE ≤ root) {m : Memory}
    {blocks : List Block} (tiled : Tiled (arena root m) LIBRARY_BYTES blocks) (ptr : Int) :
    ((∀ p n, ptr = (p : Nat) → ¬ Holds BLOCK_SIZE 0 blocks p n) →
      ∃ report, mydeallocateFrom plain root ptr m = some (report, m) ∧ report ≠ .freed) ∧
    ∀ p n, ptr = (p : Nat) → Holds BLOCK_SIZE 0 blocks p n → ∃ blocks' m',
      release BLOCK_SIZE (p - BLOCK_SIZE) 0 blocks = some blocks' ∧
      mydeallocateFrom plain root ptr m = some (.freed, m') ∧
      Tiled (arena root m') LIBRARY_BYTES blocks' ∧ ∀ c, Spared root blocks c → m' c = m c := by
  have shows : Shows (fun _ => True) id m m := ⟨trivial, rfl⟩
  constructor
  · intro bad
    obtain ⟨report, m', ran, notFreed, _, rfl⟩ :=
      mydeallocateFrom_bad (plain_backed (root + MAX_MEMORY)) front le_rfl shows tiled bad
    exact ⟨report, ran, notFreed⟩
  · rintro p n rfl holds
    obtain ⟨report, m', ran, rfl, blocks', _, released, ⟨_, rfl⟩, tiled', same⟩ :=
      mydeallocateFrom_good (plain_backed (root + LIBRARY_BYTES)) le_rfl shows tiled holds
    exact ⟨blocks', _, released, ran, tiled', same⟩

/-- Behind a freed block and a live one, with the arena at `4096`: the double free and a pointer into
the first word change nothing, and the live block is freed. -/
theorem bad_free_harmless_twoBlocks :
    ∃ m blocks, Tiled (arena 4096 m) LIBRARY_BYTES blocks ∧
      (∃ report, mydeallocateFrom plain 4096 4 m = some (report, m) ∧ report ≠ .freed) ∧
      (∃ report, mydeallocateFrom plain 4096 2 m = some (report, m) ∧ report ≠ .freed) ∧
      ∃ blocks' m', release BLOCK_SIZE 14 0 blocks = some blocks' ∧
        mydeallocateFrom plain 4096 18 m = some (.freed, m') ∧
        Tiled (arena 4096 m') LIBRARY_BYTES blocks' ∧ ∀ c, Spared 4096 blocks c → m' c = m c := by
  have start : Reach LibraryStarted Permitted (execStep Library.next) zeroLibrary :=
    .init zeroLibrary_started
  obtain ⟨s, reached, held⟩ := start.exists_of_execAll twoBlocks (fun s => s.live = [(18, 20)])
    (by decide +kernel)
  have live : s.live = [(18, 20)] := of_decide_eq_true held
  obtain ⟨blocks, heap⟩ := exists_heap_of_reach reached
  have shifted : arena 4096 (fun c => s.memory (c - 4096)) = s.memory := by
    funext c
    exact congrArg s.memory (Nat.add_sub_cancel_left 4096 c)
  have only : ∀ p n, Holds BLOCK_SIZE 0 blocks p n → p = 18 := fun p n holds => by
    have member := (heap.live p n).mpr holds
    rw [live, List.mem_singleton, Prod.mk.injEq] at member
    exact member.1
  have tiled : Tiled (arena 4096 fun c => s.memory (c - 4096)) LIBRARY_BYTES blocks :=
    shifted.symm ▸ heap.tiled
  have harmless := fun ptr => bad_free_harmless (show BLOCK_SIZE ≤ 4096 by decide) tiled ptr
  refine ⟨_, blocks, tiled, (harmless 4).1 fun p n same holds => ?_,
    (harmless 2).1 fun p n same holds => ?_, (harmless 18).2 18 20 rfl ?_⟩
  · have := only p n holds
    omega
  · have := only p n holds
    omega
  · exact (heap.live 18 20).mp (by rw [live]; exact List.mem_cons_self)

end OS2017.Heap
