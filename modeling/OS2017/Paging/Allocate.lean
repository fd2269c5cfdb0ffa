/-
**A thread allocates.**

On sheltered pages `myallocate` does what first fit does to the blocks of the running thread's heap,
which it extends by pages first if nothing fits (`myallocate_serves`). `CanAllocate` is the condition
for it: frame `0` is the thread's, or can be made so by `alignPages`; and if the heap has to grow, no
page of the thread has its frame free and the pages counted are enough for the new block.
-/

import OS2017.Paging.Growth

namespace OS2017.Paging

open OS2017.Bytes OS2017.Heap OS2017.FirstFit

variable {live : Nat → Bool} {threadNum : Nat}

/-! ### The heap of a thread -/

/-- **The heap of a thread**: none yet, or blocks that tile its pages. -/
def Arena (m : Machine) (t : Nat) (blocks : List Block) : Prop :=
  (m.pageNum t = 0 ∧ blocks = []) ∨ Tiled (m.view t) (m.pageNum t * PAGESIZE) blocks

/-- The heap of a thread as it is in memory. -/
def heapOf (m : Machine) (t : Nat) : List Block :=
  if m.pageNum t = 0 then [] else blocksAt (m.view t) walkFuel 0

theorem pages_pos_of_tiled {v : Memory} {pages : Nat} {blocks : List Block}
    (tiled : Tiled v (pages * PAGESIZE) blocks) : 0 < pages := by
  rcases Nat.eq_zero_or_pos pages with rfl | positive
  · have extent := tiled.extent
    cases blocks with
    | nil => exact absurd rfl tiled.nonempty
    | cons b rest =>
      simp only [extentOf, span, BLOCK_SIZE] at extent
      omega
  · exact positive

theorem user_bytes : USER_PAGES * PAGESIZE + LIBRARY_BYTES = MAX_MEMORY := by decide

/-- **A heap is read off the memory.** -/
theorem Arena.heapOf {m : Machine} {t : Nat} {blocks : List Block} (arena : Arena m t blocks)
    (bounded : m.pageNum t ≤ USER_PAGES) : heapOf m t = blocks := by
  unfold Paging.heapOf
  rcases arena with ⟨none, rfl⟩ | tiled
  · rw [if_pos none]
  · rw [if_neg (by have := pages_pos_of_tiled tiled; omega)]
    refine tiled.chain.blocksAt tiled.nonempty (le_trans tiled.length_le ?_)
    have bytes := user_bytes
    have below : m.pageNum t * PAGESIZE ≤ USER_PAGES * PAGESIZE := Nat.mul_le_mul_right _ bounded
    unfold walkFuel
    omega

/-- The blocks the search of `myallocate` starts with. -/
def startBlocks (m : Machine) : List Block :=
  if m.pageNum m.thread = 0 then [⟨PAGESIZE - BLOCK_SIZE, true⟩] else heapOf m m.thread

/-- The argument of `isEnoughPages`, behind a heap that ends with `last`. -/
def growthRequest (last : Block) (size : Nat) : BitVec 32 :=
  (if last.free then 0 else BitVec.ofNat 32 BLOCK_SIZE) + sizeWithBlock size -
    BitVec.ofNat 32 last.size

/-- The pages counted for it. -/
def pagesNeeded (last : Block) (size : Nat) : Int := (growthRequest last size).toInt.tdiv PAGESIZE + 1

/-- The entries free for growth: the first page takes one. -/
def spareCount (m : Machine) : Nat := freeCount m - if m.pageNum m.thread = 0 then 1 else 0

instance (pg : BitVec 32) (thread page : Nat) : Decidable (Labels pg thread page) :=
  decidable_of_iff (getPageIsF pg = 0 ∧ (getPageThID pg).toNat = thread ∧
    (getPagePgID pg).toNat = page) ⟨fun h => ⟨h.1, h.2.1, h.2.2⟩, fun h => ⟨h.used, h.thID, h.pgID⟩⟩

instance (m : Machine) : Decidable (Reserved m) := by
  unfold Reserved
  infer_instance

/-- The heap grows: nothing fits, and the checks before the growth pass. -/
def Grows (m : Machine) (size : Nat) (last : Block) : Prop :=
  firstFit BLOCK_SIZE size 0 (startBlocks m) = none ∧
    ¬ bytesLeft (lastBlock 0 (startBlocks m)) < sizeWithBlock size ∧
    0 < pagesNeeded last size ∧ pagesNeeded last size ≤ spareCount m

instance (m : Machine) (size : Nat) (last : Block) : Decidable (Grows m size last) := by
  unfold Grows
  infer_instance

/-- **The running thread can allocate `size` bytes safely.** -/
def CanAllocate (m : Machine) (size : Nat) : Prop :=
  (m.pageNum m.thread = 0 ∨ (getPageThID (m.pages 0)).toNat = m.thread ∨
      Labels (m.diskPages 0) m.thread 0) ∧
    ∀ last ∈ (startBlocks m).getLast?, Grows m size last →
      Reserved m ∧ size + BLOCK_SIZE < 2 ^ 32 ∧
        (last.free = true ∨ (size + 2 * BLOCK_SIZE : Int) ≤ pagesNeeded last size * PAGESIZE)

instance (m : Machine) (size : Nat) : Decidable (CanAllocate m size) := by
  unfold CanAllocate
  infer_instance

/-! ### Pages for the last block -/

section Gather

variable {t : Nat} {pageNum : Nat → Nat} {others : Nat → Memory} {m m' : Machine}

/-- **The new page of a served thread.** -/
theorem Serving.grow {index : Nat} {freed : Bool} {m₁ : Machine}
    (serving : Serving live threadNum t pageNum others True m) (next : index = pageNum t)
    (enough : 0 < freeCount m) (room : makeRoom index m = some (freed, m₁)) :
    freed = true ∧ index < USER_PAGES ∧ ∀ m', initializePage index m₁ = some ((), m') →
      Serving live threadNum t (Function.update pageNum t (pageNum t + 1)) others True m' ∧
      (∀ a < pageNum t * PAGESIZE, m'.view t a = m.view t a) ∧ freeCount m' + 1 = freeCount m ∧
      (pageNum t = 0 → Header (readWord (m'.view t) 0) ⟨PAGESIZE - BLOCK_SIZE, true⟩ false) := by
  obtain ⟨sheltered, rfl, rfl, others, reserved⟩ := serving
  cases freed with
  | false =>
    have none := (makeRoom_fails sheltered room).1
    omega
  | true =>
    obtain ⟨inside, q, room⟩ := makeRoom_room sheltered (reserved trivial) room
    refine ⟨rfl, inside, fun m' new => ?_⟩
    have grown := room.grows sheltered (reserved trivial) inside next
      ((initializePage_spec m₁ inside).of_run new)
    refine ⟨⟨grown.sheltered, grown.thread, grown.pageNum, fun u alive different => ?_,
      fun _ => grown.reserved⟩, grown.mine, grown.freeCount, grown.first⟩
    rw [grown.others u alive different]
    exact others u alive different

/-- A served thread's pages fit into user space. -/
theorem Serving.bounded {reserve : Prop}
    (serving : Serving live threadNum t pageNum others reserve m) : pageNum t ≤ USER_PAGES := by
  have bounded := serving.sheltered.bounded _ serving.sheltered.running
  rwa [serving.pageNum, serving.thread] at bounded

theorem freeCount_modify {a : Nat} {f : BitVec 32 → BitVec 32}
    (ran : paged.modify a f m = some ((), m')) : freeCount m' = freeCount m :=
  (Store.keeps_modify permutes_composes (keeps_load a) (keeps_store a) f m () m' ran).freeCount

/-- **A memory that grows with the pages of the thread `t`**: the accesses below them are plain, and
each new page leaves what is below it. -/
structure Growing (t : Nat) (good : (Nat → Nat) → Machine → Prop) (view : Machine → Memory) :
    Prop where
  thread : ∀ {pageNum m}, good pageNum m → m.thread = t
  pageNum : ∀ {pageNum m}, good pageNum m → m.pageNum = pageNum
  bounded : ∀ {pageNum m}, good pageNum m → pageNum t ≤ USER_PAGES
  backed : ∀ pageNum, Backed paged (good pageNum) view (pageNum t * PAGESIZE)
  grow : ∀ {pageNum m index freed m₁}, good pageNum m → index = pageNum t → 0 < freeCount m →
    makeRoom index m = some (freed, m₁) → freed = true ∧ index < USER_PAGES ∧
      ∀ m', initializePage index m₁ = some ((), m') →
        good (Function.update pageNum t (pageNum t + 1)) m' ∧
        (∀ a < pageNum t * PAGESIZE, view m' a = view m a) ∧ freeCount m' + 1 = freeCount m

theorem growing_serving : Growing t (fun pageNum => Serving live threadNum t pageNum others True)
    (·.view t) where
  thread serving := serving.thread
  pageNum serving := serving.pageNum
  bounded serving := serving.bounded
  backed pageNum := paged_backed live threadNum t pageNum others True
  grow serving next enough room := by
    obtain ⟨freed, inside, grown⟩ := serving.grow next enough room
    refine ⟨freed, inside, fun m' new => ?_⟩
    obtain ⟨serving', mine, count, _⟩ := grown m' new
    exact ⟨serving', mine, count⟩

variable {good : (Nat → Nat) → Machine → Prop} {view : Machine → Memory}

/-- **`gatherPages` extends the last block.** -/
theorem gatherPages_grows {n last z : Nat} {free : Bool} (growing : Growing t good view)
    (served : good pageNum m) (enough : n ≤ freeCount m)
    (header : Header (readWord (view m) last) ⟨z, free⟩ false)
    (ends : last + BLOCK_SIZE + z = pageNum t * PAGESIZE)
    (ran : gatherPages swapping last n m = some ((), m')) :
    good (Function.update pageNum t (pageNum t + n)) m' ∧
      Header (readWord (view m') last) ⟨z + n * PAGESIZE, free⟩ false ∧
      ∀ c < pageNum t * PAGESIZE, c < last ∨ last + BLOCK_SIZE ≤ c → view m' c = view m c := by
  have four : BLOCK_SIZE = 4 := rfl
  induction n generalizing m pageNum z with
  | zero =>
    cases ran
    rw [Nat.add_zero, Function.update_eq_self, Nat.zero_mul, Nat.add_zero]
    exact ⟨served, header, fun _ _ _ => rfl⟩
  | succ n ih =>
    rw [gatherPages, look_run, growing.thread served, growing.pageNum served] at ran
    obtain ⟨freed, m₁, room, ran⟩ := run_bind ran
    obtain ⟨rfl, inside, grown⟩ := growing.grow served rfl (by omega) room
    obtain ⟨_, m₂, new, ran⟩ := run_bind ran
    obtain ⟨served₂, mine, count⟩ := grown m₂ new
    obtain ⟨_, m₃, modified, ran⟩ := run_bind ran
    have bounded := growing.bounded served₂
    rw [Function.update_self] at bounded
    have bytes : (pageNum t + 1) * PAGESIZE ≤ USER_PAGES * PAGESIZE := Nat.mul_le_mul_right _ bounded
    have total : USER_PAGES * PAGESIZE < 2 ^ 24 := by decide
    have extent : (pageNum t + 1) * PAGESIZE = pageNum t * PAGESIZE + PAGESIZE := Nat.succ_mul _ _
    have backed := growing.backed (Function.update pageNum t (pageNum t + 1))
    rw [Function.update_self] at backed
    obtain ⟨served₃, view₃⟩ := (backed.modify ⟨served₂, rfl⟩ (by omega)).of_run modified
    -- the header is still where it was
    have header₂ : Header (readWord (view m₂) last) ⟨z, free⟩ false := by
      rw [readWord_congr fun c _ _ => mine c (by omega)]
      exact header
    have header₃ : Header (readWord (view m₃) last) ⟨z + PAGESIZE, free⟩ false := by
      rw [view₃, readWord_writeWord]
      refine header₂.setSize ?_ (by omega)
      have size : (getBlockSize (readWord (view m₂) last)).toNat = z := header₂.size
      rw [BitVec.toNat_add, size, BitVec.toNat_ofNat]
      have page : PAGESIZE % 2 ^ 32 = PAGESIZE := by decide
      rw [page]
      exact Nat.mod_eq_of_lt (by omega)
    have count₃ := freeCount_modify modified
    obtain ⟨served', header', same⟩ := ih served₃ (by omega) header₃
      (by rw [Function.update_self]; omega) ran
    rw [Function.update_self, Function.update_idem] at served'
    refine ⟨?_, ?_, fun c below outside => ?_⟩
    · rw [show pageNum t + (n + 1) = pageNum t + 1 + n by omega]
      exact served'
    · rw [show z + (n + 1) * PAGESIZE = z + PAGESIZE + n * PAGESIZE by rw [Nat.succ_mul]; omega]
      exact header'
    · rw [same c (by rw [Function.update_self]; omega) outside, view₃,
        writeWord_of_outside (by omega)]
      exact mine c below

/-- **A new last block on a new page.** -/
theorem newLastBlock_grows {prev z : Nat} {free : Bool} {result : Option Nat}
    (growing : Growing t good view) (served : good pageNum m) (enough : 0 < freeCount m)
    (header : Header (readWord (view m) prev) ⟨z, free⟩ false)
    (ends : prev + BLOCK_SIZE + z = pageNum t * PAGESIZE)
    (ran : newLastBlock swapping prev m = some (result, m')) :
    result = some (pageNum t * PAGESIZE) ∧
      good (Function.update pageNum t (pageNum t + 1)) m' ∧
      freeCount m' + 1 = freeCount m ∧
      Header (readWord (view m') prev) ⟨z, free⟩ true ∧
      Header (readWord (view m') (pageNum t * PAGESIZE)) ⟨PAGESIZE - BLOCK_SIZE, true⟩ false ∧
      ∀ c < pageNum t * PAGESIZE, c < prev ∨ prev + BLOCK_SIZE ≤ c → view m' c = view m c := by
  have four : BLOCK_SIZE = 4 := rfl
  have page : PAGESIZE = 4096 := rfl
  rw [newLastBlock, look_run, growing.thread served, growing.pageNum served] at ran
  obtain ⟨freed, m₁, room, ran⟩ := run_bind ran
  obtain ⟨rfl, inside, grown⟩ := growing.grow served rfl enough room
  obtain ⟨_, m₂, new, ran⟩ := run_bind ran
  obtain ⟨served₂, mine, count⟩ := grown m₂ new
  obtain ⟨_, m₃, fresh, ran⟩ := run_bind ran
  obtain ⟨_, m₄, modified, ran⟩ := run_bind ran
  cases ran
  have extent : (pageNum t + 1) * PAGESIZE = pageNum t * PAGESIZE + PAGESIZE := Nat.succ_mul _ _
  have backed := growing.backed (Function.update pageNum t (pageNum t + 1))
  rw [Function.update_self] at backed
  obtain ⟨w, shows₃, headerNew⟩ :=
    (freshBlock_spec backed ⟨served₂, rfl⟩ (by omega) (by decide)).of_run fresh
  obtain ⟨served₄, view₄⟩ := (backed.modify shows₃ (by omega)).of_run modified
  have before : readWord (writeWord (view m₂) (pageNum t * PAGESIZE) w) prev
      = readWord (view m) prev := by
    rw [readWord_writeWord_of_apart (by omega)]
    exact readWord_congr fun c _ _ => mine c (by omega)
  have freshCount : freeCount m₃ = freeCount m₂ := by
    have keeps : Keeps Permutes (freshBlock paged (pageNum t * PAGESIZE) (PAGESIZE - BLOCK_SIZE)) := by
      have modify : ∀ a f, Keeps Permutes (paged.modify a f) := fun a f =>
        Store.keeps_modify permutes_composes (keeps_load a) (keeps_store a) f
      exact Keeps.bind permutes_composes (modify _ _) fun _ =>
        Keeps.bind permutes_composes (modify _ _) fun _ => modify _ _
    exact (keeps _ _ _ fresh).freeCount
  have modifiedCount := freeCount_modify modified
  refine ⟨rfl, served₄, by omega, ?_, ?_, fun c below outside => ?_⟩
  · rw [view₄, readWord_writeWord, before]
    exact header.setIsNext true
  · rw [view₄, readWord_writeWord_of_apart (by omega), readWord_writeWord]
    exact headerNew
  · rw [view₄, writeWord_of_outside (by omega), writeWord_of_outside (by omega)]
    exact mine c below

end Gather

/-! ### The growth of a heap -/

/-- **The argument of `isEnoughPages`**, as the `int` it is passed as. -/
theorem toInt_growthRequest_width {last : Block} {size : Nat} (small : last.size < 2 ^ 24)
    (fits : (sizeWithBlock size).toNat + BLOCK_SIZE < 2 ^ 31) : (growthRequest last size).toInt =
      (sizeWithBlock size).toNat + (if last.free then 0 else BLOCK_SIZE : Nat) - last.size := by
  have four : BLOCK_SIZE = 4 := rfl
  have extra : (if last.free then 0 else BitVec.ofNat 32 BLOCK_SIZE).toNat
      = if last.free then 0 else BLOCK_SIZE := by
    cases last.free <;> rfl
  have bound : (if last.free then 0 else BLOCK_SIZE) ≤ BLOCK_SIZE := by
    cases last.free <;> decide
  unfold growthRequest
  rw [BitVec.toInt_eq_toNat_cond, BitVec.toNat_sub, BitVec.toNat_add, extra, BitVec.toNat_ofNat,
    Nat.mod_eq_of_lt (by omega : last.size < 2 ^ 32)]
  split <;> omega

theorem toInt_growthRequest {last : Block} {size : Nat} (small : last.size < 2 ^ 24)
    (fits : size + 2 * BLOCK_SIZE < 2 ^ 31) : (growthRequest last size).toInt =
      size + BLOCK_SIZE + (if last.free then 0 else BLOCK_SIZE : Nat) - last.size := by
  have four : BLOCK_SIZE = 4 := rfl
  have width := toNat_sizeWithBlock (n := size) (by omega)
  rw [toInt_growthRequest_width small (by omega), width, Int.natCast_add]

/-- **A free last block grows enough.** -/
theorem pagesNeeded_of_free {last : Block} (isFree : last.free = true) {size : Nat}
    (small : last.size < 2 ^ 24) (short : last.size < size + BLOCK_SIZE)
    (fits : size + 2 * BLOCK_SIZE < 2 ^ 31) :
    size + BLOCK_SIZE ≤ last.size + (pagesNeeded last size).toNat * PAGESIZE := by
  have signed : (growthRequest last size).toInt = (size + BLOCK_SIZE - last.size : Nat) := by
    rw [toInt_growthRequest small fits, if_pos isFree]
    omega
  unfold pagesNeeded
  rw [signed, ← Int.ofNat_tdiv]
  unfold PAGESIZE
  omega

/-- The bytes that are left behind the last header. -/
theorem toNat_bytesLeft {prev : Nat} (inside : prev + BLOCK_SIZE ≤ USER_PAGES * PAGESIZE) :
    (bytesLeft prev).toNat = USER_PAGES * PAGESIZE - prev - BLOCK_SIZE := by
  have bytes := user_bytes
  have max : MAX_MEMORY = 8388608 := rfl
  unfold bytesLeft
  rw [BitVec.toNat_ofInt]
  omega

/-- What a header says of the request. -/
theorem growthRequest_of_header {w : BitVec 32} {last : Block} {more : Bool}
    (header : Header w last more) (size : Nat) :
    extraBlock w + sizeWithBlock size - getBlockSize w = growthRequest last size := by
  have value : getBlockSize w = BitVec.ofNat 32 last.size := by
    rw [← header.size, BitVec.ofNat_toNat, BitVec.setWidth_eq]
  unfold growthRequest extraBlock
  rw [value, header.isF]
  cases last.free <;> rfl

/-- The last block is cut in two, the first part handed out. -/
theorem merged_split {front : List Block} {z size rest : Nat}
    (merged : Merged (front ++ [⟨z, true⟩])) : Merged (front ++ [⟨size, false⟩, ⟨rest, true⟩]) := by
  unfold Merged at merged ⊢
  rw [List.isChain_append] at merged ⊢
  refine ⟨merged.1, List.isChain_cons_cons.mpr ⟨by simp, List.isChain_singleton _⟩, ?_⟩
  intro b _ c head
  cases head
  simp

theorem holds_split {a p n size rest : Nat} {front : List Block} :
    Holds BLOCK_SIZE a (front ++ [⟨size, false⟩, ⟨rest, true⟩]) p n ↔
      Holds BLOCK_SIZE a front p n ∨ (p = a + extentOf front + BLOCK_SIZE ∧ n = size) := by
  rw [holds_append]
  simp only [Holds, Block.mk.injEq, and_true, Bool.true_eq_false, and_false, or_false]
  exact or_congr_right (and_congr_right fun _ => eq_comm)

/-- A free last block holds nothing. -/
theorem holds_concat_free {a p n : Nat} {front : List Block} {last : Block}
    (isFree : last.free = true) :
    Holds BLOCK_SIZE a (front ++ [last]) p n ↔ Holds BLOCK_SIZE a front p n := by
  rw [holds_append, holds_cons_free isFree]
  simp [Holds]

/-- **A heap that has grown by `pages` pages for a block of `size` bytes.** -/
structure Extended (v v' : Memory) (pageNum pages size : Nat) (blocks front : List Block) (z : Nat) :
    Prop where
  tiled : Tiled v' ((pageNum + pages) * PAGESIZE) (front ++ [⟨z, true⟩])
  holds : ∀ p n, Holds BLOCK_SIZE 0 front p n ↔ Holds BLOCK_SIZE 0 blocks p n
  room : size + BLOCK_SIZE ≤ z
  payloads : ∀ p n c, Holds BLOCK_SIZE 0 blocks p n → p ≤ c → c < p + n → v' c = v c

section Grow

variable {t : Nat} {pageNum : Nat → Nat} {others : Nat → Memory} {reserve : Prop} {m m' : Machine}
  {front : List Block} {last : Block} {size : Nat}

/-- A payload is not in the last header. -/
theorem payload_apart {p n c : Nat} (holds : Holds BLOCK_SIZE 0 (front ++ [last]) p n) (low : p ≤ c)
    (high : c < p + n) : (c < extentOf front ∨ extentOf front + BLOCK_SIZE ≤ c) ∧
      c < extentOf (front ++ [last]) := by
  have bounds := holds.bounds
  refine ⟨?_, by simp only [extentOf]; omega⟩
  rcases holds_append.mp holds with early | late
  · have := early.bounds
    exact Or.inl (by simp only [extentOf]; omega)
  · have := late.bounds
    exact Or.inr (by simp only [extentOf]; omega)

/-- **The free last block gets pages.** -/
theorem extended_free {n : Nat} (serving : Serving live threadNum t pageNum others True m)
    (tiled : Tiled (m.view t) (pageNum t * PAGESIZE) (front ++ [last])) (isFree : last.free = true)
    (enough : n ≤ freeCount m) (room : size + BLOCK_SIZE ≤ last.size + n * PAGESIZE)
    (ran : gatherPages swapping (extentOf front) n m = some ((), m')) :
    Serving live threadNum t (Function.update pageNum t (pageNum t + n)) others True m' ∧
      Extended (m.view t) (m'.view t) (pageNum t) n size (front ++ [last]) front
        (last.size + n * PAGESIZE) := by
  have whole := tiled.extent
  simp only [extentOf, span_append, span] at whole
  obtain ⟨frontChain, header, _⟩ := chain_append.mp tiled.chain
  rw [Nat.zero_add] at header
  obtain ⟨serving', header', same⟩ := gatherPages_grows growing_serving serving enough header
    (by simp only [extentOf]; omega) ran
  refine ⟨serving', ⟨⟨by simp, ?_, ?_, ?_⟩, fun p k => (holds_concat_free isFree).symm, room,
    fun p k c holds low high => ?_⟩⟩
  · refine chain_append.mpr ⟨frontChain.congr fun c _ high => same c ?_ (Or.inl ?_), ?_, trivial⟩
    · simp only [extentOf] at high
      omega
    · simpa using high
    · rw [Nat.zero_add]
      rw [isFree] at header'
      exact header'
  · simp only [extentOf, span_append, span]
    rw [Nat.add_mul]
    omega
  · have merged := tiled.merged
    unfold Merged at merged ⊢
    rw [List.isChain_append] at merged ⊢
    refine ⟨merged.1, List.isChain_singleton _, fun b member c head => ?_⟩
    cases head
    have apart := merged.2.2 b member last (by simp)
    rw [isFree] at apart
    exact apart
  · obtain ⟨apart, below⟩ := payload_apart holds low high
    refine same c ?_ apart
    simp only [extentOf, span_append, span] at below
    omega

/-- **A new free block behind a taken last one.** -/
theorem extended_taken {n : Nat} {m₁ : Machine} {result : Option Nat}
    (serving : Serving live threadNum t pageNum others True m)
    (tiled : Tiled (m.view t) (pageNum t * PAGESIZE) (front ++ [last])) (taken : last.free = false)
    (enough : n + 1 ≤ freeCount m) (room : size + 2 * BLOCK_SIZE ≤ (n + 1) * PAGESIZE)
    (new : newLastBlock swapping (extentOf front) m = some (result, m₁))
    (ran : gatherPages swapping (pageNum t * PAGESIZE) n m₁ = some ((), m')) :
    result = some (pageNum t * PAGESIZE) ∧
      Serving live threadNum t (Function.update pageNum t (pageNum t + (n + 1))) others True m' ∧
      Extended (m.view t) (m'.view t) (pageNum t) (n + 1) size (front ++ [last]) (front ++ [last])
        (PAGESIZE - BLOCK_SIZE + n * PAGESIZE) := by
  have four : BLOCK_SIZE = 4 := rfl
  have page : PAGESIZE = 4096 := rfl
  have whole := tiled.extent
  have parts := whole
  simp only [extentOf, span_append, span] at parts
  obtain ⟨frontChain, header, _⟩ := chain_append.mp tiled.chain
  rw [Nat.zero_add] at header
  obtain ⟨rfl, serving₁, count, header₁, fresh, same₁⟩ :=
    newLastBlock_grows growing_serving serving (by omega) header
    (by simp only [extentOf]; omega) new
  have extent : (pageNum t + 1) * PAGESIZE = pageNum t * PAGESIZE + PAGESIZE := Nat.succ_mul _ _
  obtain ⟨serving', header', same⟩ := gatherPages_grows growing_serving serving₁ (by omega) fresh
    (by rw [Function.update_self]; omega) ran
  rw [Function.update_self, Function.update_idem] at serving'
  rw [Function.update_self] at same
  have kept : ∀ c < pageNum t * PAGESIZE, m'.view t c = m₁.view t c := fun c below =>
    same c (by omega) (Or.inl below)
  refine ⟨rfl, by rw [show pageNum t + (n + 1) = pageNum t + 1 + n by omega]; exact serving',
    ⟨⟨by simp, ?_, ?_, ?_⟩, fun p k => Iff.rfl, ?_, fun p k c holds low high => ?_⟩⟩
  · refine chain_append.mpr ⟨chain_append.mpr ⟨frontChain.congr fun c _ high => ?_, ?_, trivial⟩, ?_,
      trivial⟩
    · simp only [extentOf] at high
      rw [kept c (by omega), same₁ c (by omega) (Or.inl (by simp only [extentOf]; omega))]
    · rw [Nat.zero_add]
      have word : readWord (m'.view t) (extentOf front) = readWord (m₁.view t) (extentOf front) :=
        readWord_congr fun c _ below => kept c (by simp only [extentOf] at below; omega)
      rw [word]
      exact header₁
    · rw [Nat.zero_add, whole]
      exact header'
  · have count' : (pageNum t + (n + 1)) * PAGESIZE
        = pageNum t * PAGESIZE + n * PAGESIZE + PAGESIZE := by
      rw [Nat.add_mul, Nat.succ_mul, Nat.add_assoc]
    simp only [extentOf, span_append, span]
    omega
  · have merged := tiled.merged
    unfold Merged at merged ⊢
    refine List.isChain_append.mpr ⟨merged, List.isChain_singleton _, fun b member c head => ?_⟩
    rw [List.getLast?_concat] at member
    cases member
    cases head
    rw [taken]
    simp
  · have wide : (n + 1) * PAGESIZE = n * PAGESIZE + PAGESIZE := Nat.succ_mul _ _
    omega
  · obtain ⟨apart, below⟩ := payload_apart holds low high
    rw [whole] at below
    rw [kept c below, same₁ c below apart]

/-- **The handed-out part of the extended heap.** -/
theorem Extended.split {v : Memory} {pages z : Nat} {blocks : List Block} {m₁ : Machine}
    (serving : Serving live threadNum t (Function.update pageNum t (pageNum t + pages)) others True m)
    (extended : Extended v (m.view t) (pageNum t) pages size blocks front z)
    (ran : splitBlock paged (extentOf front) size (sizeWithBlock size) m = some ((), m₁)) :
    Serving live threadNum t (Function.update pageNum t (pageNum t + pages)) others True m₁ ∧
      Tiled (m₁.view t) ((pageNum t + pages) * PAGESIZE)
        (front ++ [⟨size, false⟩, ⟨z - (size + BLOCK_SIZE), true⟩]) ∧
      ∀ p n c, Holds BLOCK_SIZE 0 blocks p n → p ≤ c → c < p + n → m₁.view t c = v c := by
  have whole := extended.tiled.extent
  simp only [extentOf, span_append, span] at whole
  have room := extended.room
  obtain ⟨frontChain, header, _⟩ := chain_append.mp extended.tiled.chain
  rw [Nat.zero_add] at header
  have backed := paged_backed live threadNum t (Function.update pageNum t (pageNum t + pages)) others
    True
  rw [Function.update_self] at backed
  obtain ⟨v', ⟨serving', shown⟩, headerFront, headerRest, same⟩ :=
    (splitBlock_spec backed ⟨serving, rfl⟩ header room (by simp only [extentOf]; omega)).of_run ran
  have view : m₁.view t = v' := shown
  refine ⟨serving', ⟨by simp, ?_, ?_, merged_split extended.tiled.merged⟩,
    fun p n c holds low high => ?_⟩
  · rw [view]
    refine chain_append.mpr ⟨frontChain.congr fun c _ high => ?_, ?_, ?_, trivial⟩
    · rw [Nat.zero_add] at high
      exact same c (Or.inl high)
    · rw [Nat.zero_add]
      exact headerFront
    · rw [Nat.zero_add]
      exact headerRest
  · simp only [extentOf, span_append, span]
    omega
  · have bounds := ((extended.holds p n).mpr holds).bounds
    rw [view, same c (Or.inl (by simp only [extentOf]; omega))]
    exact extended.payloads p n c holds low high

/-- **A call on a heap of a served thread**, from the view `v` and the blocks `blocks`. -/
structure Handed (live : Nat → Bool) (threadNum t : Nat) (pageNum : Nat → Nat)
    (others : Nat → Memory) (size : Nat) (blocks : List Block) (v : Memory) (result : Option Nat)
    (m' : Machine) : Prop where
  heap : ∃ pages blocks',
    Serving live threadNum t (Function.update pageNum t (pageNum t + pages)) others False m' ∧
    Tiled (m'.view t) ((pageNum t + pages) * PAGESIZE) blocks' ∧
    ∀ p n, Holds BLOCK_SIZE 0 blocks' p n ↔
      Holds BLOCK_SIZE 0 blocks p n ∨ (result = some p ∧ n = size)
  fresh : ∀ p n, result = some p → ¬ Holds BLOCK_SIZE 0 blocks p n
  payloads : ∀ p n c, Holds BLOCK_SIZE 0 blocks p n → p ≤ c → c < p + n → m'.view t c = v c

/-- Nothing is handed out. -/
theorem Handed.none {blocks : List Block}
    (serving : Serving live threadNum t pageNum others reserve m)
    (tiled : Tiled (m.view t) (pageNum t * PAGESIZE) blocks) {v : Memory} (view : m.view t = v) :
    Handed live threadNum t pageNum others size blocks v none m := by
  refine ⟨⟨0, blocks, ?_, ?_, fun p n => by simp⟩, fun p n impossible => (by cases impossible),
    fun p n c _ _ _ => by rw [view]⟩
  · rw [Nat.add_zero, Function.update_eq_self]
    exact ⟨serving.sheltered, serving.thread, serving.pageNum, serving.others, False.elim⟩
  · rw [Nat.add_zero]
    exact tiled

/-- The timer is restarted at the end. -/
theorem Handed.unpause {blocks : List Block} {v : Memory} {result : Option Nat}
    (handed : Handed live threadNum t pageNum others size blocks v result m) (timer : Timer) :
    Handed live threadNum t pageNum others size blocks v result { m with timer := timer } := by
  obtain ⟨⟨pages, blocks', serving, tiled, holds⟩, fresh, payloads⟩ := handed
  obtain ⟨serving', same⟩ := serving.settle (settled_timer serving.sheltered timer)
  rw [← same] at tiled payloads
  exact ⟨⟨pages, blocks', serving', tiled, holds⟩, fresh, payloads⟩

/-- **The cut of the extended heap hands out its first part.** -/
theorem Extended.handed {v : Memory} {pages z : Nat} {blocks : List Block} {m₁ : Machine}
    (serving : Serving live threadNum t (Function.update pageNum t (pageNum t + pages)) others True m)
    (extended : Extended v (m.view t) (pageNum t) pages size blocks front z)
    (ran : splitBlock paged (extentOf front) size (sizeWithBlock size) m = some ((), m₁)) :
    Handed live threadNum t pageNum others size blocks v (some (extentOf front + BLOCK_SIZE)) m₁ := by
  obtain ⟨serving', tiled, payloads⟩ := extended.split serving ran
  refine ⟨⟨pages, _, ⟨serving'.sheltered, serving'.thread, serving'.pageNum, serving'.others,
    False.elim⟩, tiled, fun p n => ?_⟩, fun p n equal holds => ?_, payloads⟩
  · rw [holds_split, extended.holds, Nat.zero_add, Option.some_inj]
    exact or_congr_right (and_congr_left fun _ => eq_comm)
  · cases equal
    have four : BLOCK_SIZE = 4 := rfl
    have bounds := ((extended.holds _ _).mpr holds).bounds
    simp only [extentOf] at bounds
    omega

/-- **The growth of a heap** in which nothing fits. -/
theorem growHeap_hands {v : Memory} {result : Option Nat}
    (serving : Serving live threadNum t pageNum others reserve m) (view : m.view t = v)
    (tiled : Tiled v (pageNum t * PAGESIZE) (front ++ [last]))
    (full : firstFit BLOCK_SIZE size 0 (front ++ [last]) = none)
    (safe : ¬ bytesLeft (extentOf front) < sizeWithBlock size → 0 < pagesNeeded last size →
      pagesNeeded last size ≤ freeCount m → reserve ∧ size + BLOCK_SIZE < 2 ^ 32 ∧
        (last.free = true ∨ (size + 2 * BLOCK_SIZE : Int) ≤ pagesNeeded last size * PAGESIZE))
    (ran : growHeap swapping size (extentOf front) m = some (result, m')) :
    Handed live threadNum t pageNum others size (front ++ [last]) v result m' := by
  have four : BLOCK_SIZE = 4 := rfl
  subst view
  have whole := tiled.extent
  simp only [extentOf, span_append, span] at whole
  have bounded : pageNum t * PAGESIZE ≤ USER_PAGES * PAGESIZE :=
    Nat.mul_le_mul_right _ serving.bounded
  rw [growHeap] at ran
  by_cases short : bytesLeft (extentOf front) < sizeWithBlock size
  · rw [if_pos short] at ran
    cases ran
    exact (Handed.none serving tiled rfl).unpause _
  · rw [if_neg short] at ran
    obtain ⟨word, m₁, loaded, ran⟩ := run_bind ran
    have backed := paged_backed live threadNum t pageNum others reserve
    obtain ⟨wordEq, serving₁, shown⟩ :=
      (backed.load m (extentOf front) serving (by simp only [extentOf]; omega)).of_run loaded
    have view₁ : m₁.view t = m.view t := shown
    have count : freeCount m₁ = freeCount m := (keeps_load _ _ _ _ loaded).freeCount
    obtain ⟨_, header, _⟩ := chain_append.mp tiled.chain
    rw [Nat.zero_add] at header
    have headerWord : Header word last false := by
      rw [wordEq]
      exact header
    rw [look_run, growthRequest_of_header headerWord] at ran
    have tiled₁ : Tiled (m₁.view t) (pageNum t * PAGESIZE) (front ++ [last]) := view₁.symm ▸ tiled
    set needed := isEnoughPages m₁ (growthRequest last size) with needed_eq
    by_cases positive : needed > 0
    · rw [if_pos positive] at ran
      -- the pages are there
      have counted : needed = pagesNeeded last size ∧ pagesNeeded last size ≤ freeCount m := by
        have value : needed = if pagesNeeded last size ≤ freeCount m then pagesNeeded last size
            else 0 := by rw [needed_eq, isEnoughPages, count]; rfl
        by_cases enough : pagesNeeded last size ≤ freeCount m
        · rw [if_pos enough] at value
          exact ⟨value, enough⟩
        · rw [if_neg enough] at value
          omega
      obtain ⟨equal, enough⟩ := counted
      rw [equal] at ran positive
      obtain ⟨reserved, fits, growth⟩ := safe short positive enough
      have serving₂ : Serving live threadNum t pageNum others True m₁ :=
        ⟨serving₁.sheltered, serving₁.thread, serving₁.pageNum, serving₁.others,
          fun _ => serving₁.reserved reserved⟩
      have small : last.size < 2 ^ 24 := header.size_lt
      cases isFree : last.free with
      | true =>
        have none : extraBlock word = 0 := by
          rw [extraBlock, headerWord.isF, isFree]
          rfl
        rw [if_pos none] at ran
        obtain ⟨_, m₂, gathered, ran⟩ := run_bind ran
        obtain ⟨_, m₃, split, ran⟩ := run_bind ran
        cases ran
        have tooSmall : last.size < size + BLOCK_SIZE := by
          by_contra large
          exact firstFit_eq_none.mp full last (by simp) ⟨isFree, Or.inr (by omega)⟩
        have limit : (bytesLeft (extentOf front)).toNat = _ :=
          toNat_bytesLeft (by simp only [extentOf]; omega)
        have bytes := user_bytes
        have max : MAX_MEMORY = 8388608 := rfl
        rw [BitVec.lt_def, toNat_sizeWithBlock fits] at short
        have room := pagesNeeded_of_free isFree small tooSmall (by omega)
        obtain ⟨serving₃, extended⟩ := extended_free serving₂ tiled₁ isFree
          (by rw [count]; omega) room gathered
        rw [view₁] at extended
        exact (extended.handed serving₃ split).unpause _
      | false =>
        have some : extraBlock word ≠ 0 := by
          rw [extraBlock, headerWord.isF, isFree]
          decide
        rw [if_neg some] at ran
        obtain ⟨block, m₂, new, ran⟩ := run_bind ran
        have wide := growth.resolve_left (by rw [isFree]; simp)
        obtain ⟨n, pages⟩ : ∃ n : Nat, (pagesNeeded last size).toNat = n + 1 :=
          ⟨(pagesNeeded last size).toNat - 1, by omega⟩
        have address : block = Option.some (pageNum t * PAGESIZE) := by
          have header₁ : Header (readWord (m₁.view t) (extentOf front)) ⟨last.size, last.free⟩ false := by
            rw [view₁]
            exact header
          exact (newLastBlock_grows growing_serving serving₂ (by omega) header₁
            (by simp only [extentOf]; omega) new).1
        subst address
        rw [pages, Nat.add_sub_cancel] at ran
        obtain ⟨_, m₃, gathered, ran⟩ := run_bind ran
        obtain ⟨_, m₄, split, ran⟩ := run_bind ran
        cases ran
        have room : size + 2 * BLOCK_SIZE ≤ (n + 1) * PAGESIZE := by
          unfold PAGESIZE at wide ⊢
          omega
        obtain ⟨_, serving₃, extended⟩ := extended_taken serving₂ tiled₁ isFree (by omega) room new
          gathered
        rw [view₁] at extended
        have start : extentOf (front ++ [last]) = pageNum t * PAGESIZE := tiled.extent
        rw [← start] at split
        have handed := (extended.handed serving₃ split).unpause ⟨m₄.timer.saved, m₄.timer.saved⟩
        rw [start] at handed
        exact handed
    · rw [if_neg positive] at ran
      cases ran
      exact (Handed.none serving₁ tiled₁ view₁).unpause _

end Grow

/-! ### `myallocate` -/

section Calls

variable {m m' : Machine} {blocks : List Block} {size : Nat}

theorem startBlocks_of_arena (sheltered : Sheltered live threadNum m)
    (arena : Arena m m.thread blocks) (started : m.pageNum m.thread ≠ 0) : startBlocks m = blocks := by
  unfold startBlocks
  rw [if_neg started, arena.heapOf (sheltered.bounded _ sheltered.running)]

/-- Fetched pages leave the heap as it is. -/
theorem Settled.startBlocks (settled : Settled live threadNum m m')
    (sheltered : Sheltered live threadNum m) : startBlocks m' = startBlocks m := by
  unfold Paging.startBlocks heapOf
  rw [settled.thread, settled.pageNum, settled.views _ sheltered.running]

theorem Settled.arena (settled : Settled live threadNum m m') {t : Nat} (alive : live t = true)
    (arena : Arena m t blocks) : Arena m' t blocks := by
  unfold Arena
  rw [settled.pageNum, settled.views t alive]
  exact arena

/-- **The first page.** Either there is no room for it, or the search has blocks to start with. -/
theorem firstPage_serves {ready : Bool} (sheltered : Sheltered live threadNum m)
    (arena : Arena m m.thread blocks)
    (home : m.pageNum m.thread = 0 ∨ (getPageThID (m.pages 0)).toNat = m.thread)
    (ran : firstPage swapping m = some (ready, m')) :
    (ready = false ∧ Settled live threadNum m m') ∨
    (ready = true ∧ ∃ pageNum,
      Serving live threadNum m.thread pageNum m.view (Reserved m) m' ∧
      Tiled (m'.view m.thread) (pageNum m.thread * PAGESIZE) (startBlocks m) ∧
      freeCount m' = spareCount m ∧ (∀ u, u ≠ m.thread → pageNum u = m.pageNum u) ∧
      (∀ p n, Holds BLOCK_SIZE 0 (startBlocks m) p n ↔ Holds BLOCK_SIZE 0 blocks p n) ∧
      ∀ p n c, Holds BLOCK_SIZE 0 blocks p n → p ≤ c → c < p + n →
        m'.view m.thread c = m.view m.thread c) := by
  have running := sheltered.running
  have serving : Serving live threadNum m.thread m.pageNum m.view (Reserved m) m :=
    ⟨sheltered, rfl, rfl, fun _ _ _ => rfl, id⟩
  rw [firstPage, look_run, look_run] at ran
  split at ran
  · -- a thread without pages
    rename_i foreign
    have none : m.pageNum m.thread = 0 := home.resolve_right foreign
    have empty : blocks = [] := by
      rcases arena with ⟨_, empty⟩ | tiled
      · exact empty
      · exact absurd none (by have := pages_pos_of_tiled tiled; omega)
    have reserved : Reserved m := fun i _ _ => by rw [none]; exact Nat.zero_le _
    obtain ⟨freed, m₁, room, ran⟩ := run_bind ran
    cases freed with
    | false =>
      cases ran
      exact Or.inl ⟨rfl, (makeRoom_fails sheltered room).2⟩
    | true =>
      obtain ⟨_, m₂, new, ran⟩ := run_bind ran
      cases ran
      obtain ⟨inside, q, roomy⟩ := makeRoom_room sheltered reserved room
      have grown := roomy.grows sheltered reserved inside none.symm
        ((initializePage_spec m₁ inside).of_run new)
      have start : startBlocks m = [⟨PAGESIZE - BLOCK_SIZE, true⟩] := if_pos none
      have held : ∀ p n, Holds BLOCK_SIZE 0 (startBlocks m) p n ↔ Holds BLOCK_SIZE 0 blocks p n := by
        intro p n
        rw [start, empty, holds_cons_free rfl]
        rfl
      refine Or.inr ⟨rfl, _, ⟨grown.sheltered, grown.thread, grown.pageNum, grown.others,
        fun _ => grown.reserved⟩, ?_, ?_, fun u other => Function.update_of_ne other _ _, held, ?_⟩
      · rw [Function.update_self, none, start]
        exact ⟨by simp, ⟨grown.first none, trivial⟩, by decide, List.isChain_singleton _⟩
      · have count := grown.freeCount
        unfold spareCount
        rw [if_pos none]
        omega
      · intro p n c holds
        rw [empty] at holds
        exact holds.elim
  · -- its first frame is its own
    rename_i mine
    cases ran
    have own : (getPageThID (m.pages 0)).toNat = m.thread := not_not.mp mine
    have zero : (Place.frame 0).Valid := by
      show 0 < USER_PAGES
      decide
    have started : m.pageNum m.thread ≠ 0 := by
      intro none
      rcases sheltered.labelled.flags (.frame 0) zero with used | isFree
      · have below := sheltered.labelled.below _ running _ (.frame 0) zero ⟨used, own, rfl⟩
        omega
      · exact sheltered.labelled.stale (.frame 0) zero isFree _ running own
    have start := startBlocks_of_arena sheltered arena started
    refine Or.inr ⟨rfl, m.pageNum, serving, ?_, ?_, fun _ _ => rfl, fun p n => by rw [start],
      fun _ _ _ _ _ _ => rfl⟩
    · rw [start]
      exact arena.resolve_left fun both => started both.1
    · unfold spareCount
      rw [if_neg started, Nat.sub_zero]

/-- **What `myallocate` does for the running thread.** -/
structure Served (live : Nat → Bool) (threadNum size : Nat) (blocks : List Block) (m m' : Machine)
    (result : Option Nat) : Prop where
  sheltered : Sheltered live threadNum m'
  thread : m'.thread = m.thread
  pageNum : ∀ u, u ≠ m.thread → m'.pageNum u = m.pageNum u
  others : ∀ u, live u = true → u ≠ m.thread → m'.view u = m.view u
  heap : ∃ blocks', Arena m' m.thread blocks' ∧ ∀ p n, Holds BLOCK_SIZE 0 blocks' p n ↔
    Holds BLOCK_SIZE 0 blocks p n ∨ (result = some p ∧ n = size)
  fresh : ∀ p n, result = some p → ¬ Holds BLOCK_SIZE 0 blocks p n
  payloads : ∀ p n c, Holds BLOCK_SIZE 0 blocks p n → p ≤ c → c < p + n →
    m'.view m.thread c = m.view m.thread c

/-- The search and the growth behind it. -/
theorem searchHeap_hands {t : Nat} {pageNum : Nat → Nat} {others : Nat → Memory} {reserve : Prop}
    {result : Option Nat} (serving : Serving live threadNum t pageNum others reserve m)
    (tiled : Tiled (m.view t) (pageNum t * PAGESIZE) blocks)
    (safe : ∀ last ∈ blocks.getLast?, firstFit BLOCK_SIZE size 0 blocks = none →
      ¬ bytesLeft (lastBlock 0 blocks) < sizeWithBlock size → 0 < pagesNeeded last size →
      pagesNeeded last size ≤ freeCount m → reserve ∧ size + BLOCK_SIZE < 2 ^ 32 ∧
        (last.free = true ∨ (size + 2 * BLOCK_SIZE : Int) ≤ pagesNeeded last size * PAGESIZE))
    (ran : searchHeap swapping size m = some (result, m')) :
    Handed live threadNum t pageNum others size blocks (m.view t) result m' := by
  have bounded : pageNum t * PAGESIZE ≤ USER_PAGES * PAGESIZE :=
    Nat.mul_le_mul_right _ serving.bounded
  have bytes := user_bytes
  obtain ⟨search, m₁, searched, ran⟩ := run_bind ran
  have backed := paged_backed live threadNum t pageNum others reserve
  have inside : 0 + extentOf blocks ≤ pageNum t * PAGESIZE := by
    rw [Nat.zero_add, tiled.extent]
  have enough : blocks.length ≤ walkFuel := by
    refine le_trans tiled.length_le ?_
    unfold walkFuel
    omega
  have allocated := (firstFitLoop_spec (n := size) backed tiled.nonempty ⟨serving, rfl⟩ tiled.chain
    inside enough).of_run searched
  cases fit : firstFit BLOCK_SIZE size 0 blocks with
  | none =>
    rw [fit] at allocated
    obtain ⟨rfl, serving₁, shown⟩ := allocated
    have view₁ : m₁.view t = m.view t := shown
    have count : freeCount m₁ = freeCount m :=
      (keeps_firstFitLoop permutes_composes keeps_load keeps_store _ _ _ _ _ _ _ searched).freeCount
    obtain ⟨front, last, rfl⟩ : ∃ front last, blocks = front ++ [last] :=
      ⟨_, _, (List.dropLast_append_getLast tiled.nonempty).symm⟩
    rw [lastBlock_append, Nat.zero_add] at ran safe
    refine growHeap_hands serving₁ view₁ tiled fit (fun short positive enough => ?_) ran
    rw [count] at enough
    exact safe last (by simp) fit short positive enough
  | some found =>
    obtain ⟨header, blocks'⟩ := found
    rw [fit] at allocated
    obtain ⟨rfl, v', ⟨serving₁, shown⟩, chain, same⟩ := allocated
    have view₁ : m₁.view t = v' := shown
    cases ran
    refine Handed.unpause ⟨⟨0, blocks', ?_, ?_, fun p n => ?_⟩, fun p n equal => ?_,
      fun p n c holds low high => ?_⟩ _
    · rw [Nat.add_zero, Function.update_eq_self]
      exact ⟨serving₁.sheltered, serving₁.thread, serving₁.pageNum, serving₁.others, False.elim⟩
    · rw [Nat.add_zero, view₁]
      exact ⟨firstFit_ne_nil fit, chain, (firstFit_span fit).trans tiled.extent,
        firstFit_merged fit tiled.merged⟩
    · rw [firstFit_holds fit, Option.some_inj]
      exact or_congr_right (and_congr_left fun _ => eq_comm)
    · cases equal
      exact firstFit_fresh (by decide) fit
    · rw [view₁]
      exact same c (Or.inr (Or.inr ⟨p, n, holds, low, high⟩))

/-- **`myallocate` serves the running thread.** -/
theorem myallocate_serves {result : Option Nat} (sheltered : Sheltered live threadNum m)
    (arena : Arena m m.thread blocks) (can : CanAllocate m size)
    (ran : myallocate swapping size m = some (result, m')) :
    Served live threadNum size blocks m m' result := by
  rw [myallocate, pause_timer, change_run] at ran
  obtain ⟨_, m₁, aligned, ran⟩ := run_bind ran
  have paused := settled_timer sheltered ⟨0, m.timer.remaining⟩
  obtain ⟨settled₁, zero⟩ := alignPages_settles paused.sheltered aligned
  have settled := paused.trans settled₁
  have paused' : Permutes m { m with timer := ⟨0, m.timer.remaining⟩ } :=
    permutes_of_eq rfl rfl rfl rfl
  have permutes : Permutes m m₁ :=
    permutes_composes.trans paused' (keeps_alignPages _ _ _ aligned)
  have arena₁ : Arena m₁ m₁.thread blocks := by
    rw [settled.thread]
    exact settled.arena sheltered.running arena
  have home : m₁.pageNum m₁.thread = 0 ∨ (getPageThID (m₁.pages 0)).toNat = m₁.thread := by
    rw [settled.thread, settled.pageNum]
    exact can.1.imp_right zero
  obtain ⟨ready, m₂, first, ran⟩ := run_bind ran
  rcases firstPage_serves settled.sheltered arena₁ home first with
    ⟨rfl, settled₂⟩ | ⟨rfl, pageNum, serving, tiled, count, pages, held, payloads⟩
  · cases ran
    have whole := settled.trans settled₂
    refine ⟨whole.sheltered, whole.thread, fun u _ => by rw [whole.pageNum],
      fun u alive _ => whole.views u alive, ⟨blocks, whole.arena sheltered.running arena, by simp⟩,
      fun p n impossible => (by cases impossible), fun p n c _ _ _ => ?_⟩
    rw [whole.views _ sheltered.running]
  · rw [if_pos rfl] at ran
    have spare : spareCount m₁ = spareCount m := by
      unfold spareCount
      rw [permutes.freeCount, permutes.pageNum, permutes.thread]
    rw [settled.thread] at serving tiled pages payloads
    rw [settled.startBlocks sheltered] at tiled held
    have reserve : Reserved m → Reserved m₁ := settled.reserved
    have handed := searchHeap_hands serving tiled (fun last member full short positive enough => by
      rw [count, spare] at enough
      obtain ⟨reserved, rest⟩ := can.2 last member ⟨full, short, positive, enough⟩
      exact ⟨reserve reserved, rest⟩) ran
    obtain ⟨⟨more, blocks', serving', tiled', holds⟩, fresh, same⟩ := handed
    refine ⟨serving'.sheltered, serving'.thread, fun u other => ?_, fun u alive other => ?_,
      ⟨blocks', Or.inr ?_, fun p n => by rw [holds, held]⟩, fun p n equal => ?_,
      fun p n c holds low high => ?_⟩
    · rw [serving'.pageNum, Function.update_of_ne other, pages u other, settled.pageNum]
    · rw [serving'.others u alive other, settled.views u alive]
    · rw [serving'.pageNum, Function.update_self]
      exact tiled'
    · rw [← held]
      exact fresh p n equal
    · rw [same p n c ((held p n).mpr holds) low high, payloads p n c holds low high,
        settled.views _ sheltered.running]

end Calls

end OS2017.Paging
