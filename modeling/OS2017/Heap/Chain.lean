/-
**The block code refines first fit.**

`Chain m more a blocks` says that the memory `m` has the headers of `blocks` from `a` on, with
`isNext` clear on the last exactly if `more` is false. On a chain the first-fit loop does what
`firstFit` does to the list (`firstFitLoop_spec`) and `freeAndMerge` what `release` does
(`freeAndMergeLoop_spec`), and neither changes a byte outside the chain or in a taken payload.
-/

import OS2017.Lib.FirstFit
import OS2017.Heap.Block

namespace OS2017.Heap

open OS2017.Bytes OS2017.FirstFit

/-- A flag of a header. -/
def flag (b : Bool) : BitVec 32 := if b then 1 else 0

/-- The word is the header of a block, followed by more blocks or not. -/
structure Header (w : BitVec 32) (b : Block) (more : Bool) : Prop where
  size : (getBlockSize w).toNat = b.size
  isF : getBlockIsF w = flag b.free
  isNext : getBlockIsNext w = flag more

/-- **The headers of the blocks from `a` on.** -/
def Chain (m : Memory) (more : Bool) : Nat → List Block → Prop
  | _, [] => True
  | a, b :: rest =>
    Header (readWord m a) b (more || !rest.isEmpty) ∧ Chain m more (a + BLOCK_SIZE + b.size) rest

/-- The bytes of a list of blocks. -/
abbrev extentOf (blocks : List Block) : Nat := span BLOCK_SIZE blocks

/-- The header of the last block. -/
def lastBlock : Nat → List Block → Nat
  | a, [] => a
  | a, [_] => a
  | a, b :: rest => lastBlock (a + BLOCK_SIZE + b.size) rest

@[simp] theorem flag_fits (b : Bool) : (flag b).toNat < 2 ^ 4 := by cases b <;> decide

theorem flag_eq_one {b : Bool} : flag b = 1 ↔ b = true := by cases b <;> decide

theorem Header.size_lt {w : BitVec 32} {b : Block} {more : Bool} (header : Header w b more) :
    b.size < 2 ^ 24 := header.size ▸ toNat_getBlockSize_lt

/-- A chain depends on the bytes it lies in only. -/
theorem Chain.congr {m m' : Memory} {more : Bool} {a : Nat} {blocks : List Block}
    (chain : Chain m more a blocks)
    (same : ∀ c, a ≤ c → c < a + extentOf blocks → m' c = m c) : Chain m' more a blocks := by
  induction blocks generalizing a with
  | nil => trivial
  | cons b rest ih =>
    have four : BLOCK_SIZE = 4 := rfl
    simp only [extentOf, span] at same ih
    refine ⟨?_, ih chain.2 fun c low high => same c (by omega) (by omega)⟩
    rw [readWord_congr fun c low high => same c low (by omega)]
    exact chain.1

/-- A chain seen at another address. -/
theorem chain_shift {m m' : Memory} {more : Bool} {k a : Nat} {blocks : List Block}
    (same : ∀ c, m' (k + c) = m c) : Chain m' more (k + a) blocks ↔ Chain m more a blocks := by
  induction blocks generalizing a with
  | nil => exact Iff.rfl
  | cons b rest ih =>
    have address : k + a + BLOCK_SIZE + b.size = k + (a + BLOCK_SIZE + b.size) := by omega
    rw [Chain, Chain, readWord_shift same, address, ih]

/-- **A chain in two parts.** -/
theorem chain_append {m : Memory} {more : Bool} {a : Nat} {xs ys : List Block} :
    Chain m more a (xs ++ ys) ↔
      Chain m (more || !ys.isEmpty) a xs ∧ Chain m more (a + extentOf xs) ys := by
  induction xs generalizing a with
  | nil => simp [Chain, extentOf, span]
  | cons b xs ih =>
    have address : a + BLOCK_SIZE + b.size + extentOf xs = a + extentOf (b :: xs) := by
      simp only [extentOf, span]
      omega
    have flag : (more || !(xs ++ ys).isEmpty) = ((more || !ys.isEmpty) || !xs.isEmpty) := by
      cases xs <;> cases ys <;> cases more <;> rfl
    rw [List.cons_append, Chain, Chain, ih, address, flag, and_assoc]

theorem lastBlock_append (a : Nat) (xs : List Block) (b : Block) :
    lastBlock a (xs ++ [b]) = a + extentOf xs := by
  induction xs generalizing a with
  | nil => rfl
  | cons c xs ih =>
    have step : lastBlock a (c :: xs ++ [b]) = lastBlock (a + BLOCK_SIZE + c.size) (xs ++ [b]) := by
      cases xs <;> rfl
    rw [step, ih]
    simp only [extentOf, span]
    omega

/-- The blocks read off a memory, from `a` on. -/
def blocksAt (m : Memory) : Nat → Nat → List Block
  | 0, _ => []
  | fuel + 1, a =>
    ⟨(getBlockSize (readWord m a)).toNat, getBlockIsF (readWord m a) = 1⟩ ::
      if getBlockIsNext (readWord m a) = 0 then []
      else blocksAt m fuel (a + BLOCK_SIZE + (getBlockSize (readWord m a)).toNat)

/-- **They are those of the chain.** -/
theorem Chain.blocksAt {m : Memory} {fuel a : Nat} {blocks : List Block}
    (chain : Chain m false a blocks) (nonempty : blocks ≠ []) (enough : blocks.length ≤ fuel) :
    blocksAt m fuel a = blocks := by
  induction blocks generalizing a fuel with
  | nil => exact absurd rfl nonempty
  | cons b rest ih =>
    obtain ⟨fuel, rfl⟩ : ∃ less, fuel = less + 1 := ⟨fuel - 1, by simp at enough; omega⟩
    have header := chain.1
    have head : (⟨(getBlockSize (readWord m a)).toNat, getBlockIsF (readWord m a) = 1⟩ : Block) = b := by
      rw [header.size, header.isF]
      cases b with
      | mk size free => cases free <;> rfl
    unfold Heap.blocksAt
    rw [head, header.isNext, header.size]
    cases rest with
    | nil => rfl
    | cons c rest =>
      rw [if_neg (by simp [flag]), ih chain.2 (by simp) (by simpa using enough)]

/-! ### What every access keeps -/

section Keeps

variable {σ : Type} {mem : Store σ} {related : σ → σ → Prop}

theorem keeps_getNextBlock (composes : Composes related) (load : ∀ a, Keeps related (mem.load a))
    (block : Nat) : Keeps related (getNextBlock mem block) := by
  refine Keeps.bind composes (load _) fun word => ?_
  split
  · exact Keeps.pure composes _
  · exact Keeps.pure composes _

/-- The next block is further up. -/
theorem getNextBlock_le {block next : Nat} {s s' : σ}
    (ran : getNextBlock mem block s = some (some next, s')) : block ≤ next := by
  obtain ⟨word, s₁, _, rest⟩ := run_bind ran
  split at rest
  · cases rest
  · cases rest
    omega

/-- **A walk of `freeAndMerge` keeps what loads keep, and stores from its start on.** -/
theorem keeps_freeAndMergeLoop {low : Nat} (composes : Composes related)
    (load : ∀ a, Keeps related (mem.load a)) (store : ∀ a w, low ≤ a → Keeps related (mem.store a w))
    (toFree fuel : Nat) {previous : Option Nat} {current : Nat}
    (behind : ∀ a, previous = some a → low ≤ a) (here : low ≤ current) :
    Keeps related (freeAndMergeLoop mem toFree fuel previous current) := by
  have modify : ∀ a f, low ≤ a → Keeps related (mem.modify a f) := fun a f above =>
    Store.keeps_modify composes (load a) (fun w => store a w above) f
  have merge : ∀ a b, low ≤ a → Keeps related (mergeBlocks mem a b) := fun a b above =>
    Keeps.bind composes (load _) fun _ => Keeps.bind composes (modify _ _ above) fun _ =>
      Keeps.bind composes (load _) fun _ => modify _ _ above
  have next := keeps_getNextBlock composes load
  induction fuel generalizing previous current with
  | zero => exact Keeps.stop
  | succ fuel ih =>
    unfold freeAndMergeLoop
    split
    · refine Keeps.bind composes (Keeps.bind composes (modify _ _ here) fun _ =>
        Keeps.bind composes (next _) fun next => ?_) fun _ =>
        Keeps.bind composes ?_ fun _ => Keeps.pure composes _
      · cases next with
        | none => exact Keeps.pure composes _
        | some next =>
          refine Keeps.bind composes (load _) fun word => ?_
          split
          · exact merge _ _ here
          · exact Keeps.pure composes _
      · cases previous with
        | none => exact Keeps.pure composes _
        | some previous =>
          refine Keeps.bind composes (load _) fun word => ?_
          split
          · exact merge _ _ (behind _ rfl)
          · exact Keeps.pure composes _
    · intro s found s' ran
      obtain ⟨answer, s₁, walked, rest⟩ := run_bind ran
      refine composes.trans (next _ _ _ _ walked) ?_
      cases answer with
      | none => exact Keeps.pure composes _ _ _ _ rest
      | some after =>
        have above : low ≤ after := here.trans (getNextBlock_le walked)
        exact ih (fun a same => Option.some.inj same ▸ here) above _ _ _ rest

variable (composes : Composes related) (load : ∀ a, Keeps related (mem.load a))
  (store : ∀ a w, Keeps related (mem.store a w))

include composes load store

theorem keeps_splitBlock (current size : Nat) (width : BitVec 32) :
    Keeps related (splitBlock mem current size width) := by
  have modify : ∀ a f, Keeps related (mem.modify a f) := fun a f =>
    Store.keeps_modify composes (load a) (store a) f
  unfold splitBlock
  refine Keeps.bind composes (modify _ _) fun _ => Keeps.bind composes (load _) fun _ => ?_
  refine Keeps.bind composes (modify _ _) fun _ => Keeps.bind composes (load _) fun _ => ?_
  refine Keeps.bind composes (modify _ _) fun _ => Keeps.bind composes (modify _ _) fun _ => ?_
  exact Keeps.bind composes (modify _ _) fun _ => modify _ _

/-- **The first-fit loop keeps what loads and stores keep.** -/
theorem keeps_firstFitLoop (size : Nat) (width : BitVec 32) (fuel current : Nat) :
    Keeps related (firstFitLoop mem size width fuel current) := by
  induction fuel generalizing current with
  | zero => exact Keeps.stop
  | succ fuel ih =>
    unfold firstFitLoop
    refine Keeps.bind composes (load _) fun word => ?_
    split
    · exact Keeps.bind composes (Store.keeps_modify composes (load _) (store _) _) fun _ =>
        Keeps.pure composes _
    · split
      · exact Keeps.bind composes (keeps_splitBlock composes load store _ _ _) fun _ =>
          Keeps.pure composes _
      · refine Keeps.bind composes (keeps_getNextBlock composes load _) fun next => ?_
        cases next with
        | none => exact Keeps.pure composes _
        | some next => exact ih next

end Keeps

/-! ### Headers after the updates -/

/-- `setBlockIsF` on a header. -/
theorem Header.setIsF {w : BitVec 32} {b : Block} {more : Bool} (header : Header w b more)
    (free : Bool) : Header (setBlockIsF w (flag free)) ⟨b.size, free⟩ more := by
  refine ⟨?_, ?_, ?_⟩
  · rw [getBlockSize_setBlockIsF (flag_fits _)]
    exact header.size
  · rw [getBlockIsF_setBlockIsF (flag_fits _)]
  · rw [getBlockIsNext_setBlockIsF (flag_fits _)]
    exact header.isNext

/-- `setBlockSize` on a header. -/
theorem Header.setSize {w : BitVec 32} {b : Block} {more : Bool} (header : Header w b more)
    {v : BitVec 32} {size : Nat} (value : v.toNat = size) (fits : size < 2 ^ 24) :
    Header (setBlockSize w v) ⟨size, b.free⟩ more := by
  have fits' : v.toNat < 2 ^ 24 := value ▸ fits
  refine ⟨?_, ?_, ?_⟩
  · rw [getBlockSize_setBlockSize fits']
    exact value
  · rw [getBlockIsF_setBlockSize fits']
    exact header.isF
  · rw [getBlockIsNext_setBlockSize fits']
    exact header.isNext

/-- `setBlockIsNext` on a header. -/
theorem Header.setIsNext {w : BitVec 32} {b : Block} {more : Bool} (header : Header w b more)
    (more' : Bool) : Header (setBlockIsNext w (flag more')) b more' := by
  refine ⟨?_, ?_, ?_⟩
  · rw [getBlockSize_setBlockIsNext (flag_fits _)]
    exact header.size
  · rw [getBlockIsF_setBlockIsNext (flag_fits _)]
    exact header.isF
  · rw [getBlockIsNext_setBlockIsNext (flag_fits _)]

/-- Any word becomes a header once its three fields are set. -/
theorem header_of_set (w v : BitVec 32) {size : Nat} (value : v.toNat = size) (fits : size < 2 ^ 24)
    (free more : Bool) :
    Header (setBlockIsNext (setBlockSize (setBlockIsF w (flag free)) v) (flag more)) ⟨size, free⟩
      more := by
  have fits' : v.toNat < 2 ^ 24 := value ▸ fits
  refine ⟨?_, ?_, ?_⟩
  · rw [getBlockSize_setBlockIsNext (flag_fits _), getBlockSize_setBlockSize fits']
    exact value
  · rw [getBlockIsF_setBlockIsNext (flag_fits _), getBlockIsF_setBlockSize fits',
      getBlockIsF_setBlockIsF (flag_fits _)]
  · rw [getBlockIsNext_setBlockIsNext (flag_fits _)]

/-! ### One operation at a time -/

variable {σ : Type} {mem : Store σ} {good : σ → Prop} {view : σ → Memory} {extent : Nat}

/-- **`getNextBlock`** on a header. -/
theorem getNextBlock_spec (backed : Backed mem good view extent) {a : Nat} {s : σ} {m : Memory}
    {b : Block} {more : Bool} (shows : Shows good view m s) (inside : a + BLOCK_SIZE ≤ extent)
    (header : Header (readWord m a) b more) :
    Returns (getNextBlock mem a) s fun next s' => Shows good view m s' ∧
      next = if more then some (a + BLOCK_SIZE + b.size) else none := by
  refine backed.load_bind shows inside fun s' shows' => ?_
  rw [header.isNext, header.size]
  cases more with
  | false =>
    rw [if_pos (by rfl)]
    exact Returns.pure ⟨shows', rfl⟩
  | true =>
    rw [if_neg (by decide)]
    refine Returns.pure ⟨shows', ?_⟩
    rw [if_pos rfl, Nat.add_right_comm]

theorem toNat_sizeWithBlock {n : Nat} (small : n + BLOCK_SIZE < 2 ^ 32) :
    (sizeWithBlock n).toNat = n + BLOCK_SIZE := by
  unfold sizeWithBlock
  rw [BitVec.toNat_ofNat]
  exact Nat.mod_eq_of_lt small

/-- **A block is cut in two.** Its payload changes in the header of the rest only. -/
theorem splitBlock_spec (backed : Backed mem good view extent) {a n z : Nat} {s : σ} {m : Memory}
    {free more : Bool} (shows : Shows good view m s) (header : Header (readWord m a) ⟨z, free⟩ more)
    (room : n + BLOCK_SIZE ≤ z) (inside : a + BLOCK_SIZE + z ≤ extent) :
    Returns (splitBlock mem a n (sizeWithBlock n)) s fun _ s' => ∃ m', Shows good view m' s' ∧
      Header (readWord m' a) ⟨n, false⟩ true ∧
      Header (readWord m' (a + BLOCK_SIZE + n)) ⟨z - (n + BLOCK_SIZE), true⟩ more ∧
      ∀ c, c < a ∨ a + BLOCK_SIZE + z ≤ c → m' c = m c := by
  have four : BLOCK_SIZE = 4 := rfl
  have small : z < 2 ^ 24 := header.size_lt
  have width : (sizeWithBlock n).toNat = n + BLOCK_SIZE := toNat_sizeWithBlock (by omega)
  have address : a + (sizeWithBlock n).toNat = a + BLOCK_SIZE + n := by omega
  unfold splitBlock
  simp only [address]
  -- the header of the rest
  refine backed.modify_bind shows (by omega) fun s₁ shows₁ => ?_
  refine backed.load_apart_bind shows₁ (by omega) (by omega) fun s₂ shows₂ => ?_
  refine backed.modify_again_bind shows₂ (by omega) fun s₃ shows₃ => ?_
  refine backed.load_apart_bind shows₃ (by omega) (by omega) fun s₄ shows₄ => ?_
  refine backed.modify_again_bind shows₄ (by omega) fun s₅ shows₅ => ?_
  -- the header of the block handed out
  refine backed.modify_bind shows₅ (by omega) fun s₆ shows₆ => ?_
  refine backed.modify_again_bind shows₆ (by omega) fun s₇ shows₇ => ?_
  refine (backed.modify_again shows₇ (by omega)).mono fun _ s₈ shows₈ => ?_
  refine ⟨_, shows₈, ?_, ?_, fun c outside => ?_⟩
  · rw [readWord_writeWord, readWord_writeWord_of_apart (by omega)]
    have value : (BitVec.ofNat 32 n).toNat = n := by
      rw [BitVec.toNat_ofNat]
      exact Nat.mod_eq_of_lt (by omega)
    exact ((header.setSize value (by omega)).setIsNext true).setIsF false
  · rw [readWord_writeWord_of_apart (by omega), readWord_writeWord, header.isNext]
    refine header_of_set _ _ ?_ (by omega) true more
    have size : (getBlockSize (readWord m a)).toNat = z := header.size
    rw [BitVec.toNat_sub_of_le (by rw [BitVec.le_def]; omega), size, width]
  · rw [writeWord_of_outside (by omega), writeWord_of_outside (by omega)]

/-! ### The first-fit loop -/

/-- A byte in no header and no free payload of the chain: outside it, or of a taken payload. -/
def Spared (a : Nat) (blocks : List Block) (c : Nat) : Prop :=
  c < a ∨ a + extentOf blocks ≤ c ∨ ∃ p n, Holds BLOCK_SIZE a blocks p n ∧ p ≤ c ∧ c < p + n

/-- What the rest of a chain spares, the whole chain does. -/
theorem spared_cons {a c : Nat} {b : Block} {rest : List Block} (spared : Spared a (b :: rest) c) :
    Spared (a + BLOCK_SIZE + b.size) rest c := by
  rcases spared with before | behind | ⟨p, n, ⟨rfl, rfl⟩ | holds, low, high⟩
  · exact Or.inl (by omega)
  · simp only [extentOf, span] at behind
    exact Or.inr (Or.inl (by simp only [extentOf]; omega))
  · exact Or.inl (by simp only; omega)
  · exact Or.inr (Or.inr ⟨p, n, holds, low, high⟩)

/-- A free block spares what is outside it. -/
theorem spared_free {a c : Nat} {b : Block} {rest : List Block} (isFree : b.free = true)
    (spared : Spared a (b :: rest) c) : c < a ∨ a + BLOCK_SIZE + b.size ≤ c := by
  rcases spared with before | behind | ⟨p, n, holds, low, high⟩
  · exact Or.inl before
  · simp only [extentOf, span] at behind
    exact Or.inr (by omega)
  · have := ((holds_cons_free isFree).mp holds).bounds
    exact Or.inr (by omega)

/-- The head of a chain is before its rest. -/
theorem chain_cons {m m' : Memory} {a : Nat} {b : Block} {rest rest' : List Block}
    (chain : Chain m false a (b :: rest)) (chain' : Chain m' false (a + BLOCK_SIZE + b.size) rest')
    (nonempty : rest ≠ []) (nonempty' : rest' ≠ [])
    (same : ∀ c, c < a + BLOCK_SIZE → m' c = m c) : Chain m' false a (b :: rest') := by
  refine ⟨?_, chain'⟩
  rw [readWord_congr fun c _ high => same c high]
  have header := chain.1
  rw [Bool.false_or, List.isEmpty_eq_false_iff.mpr nonempty] at header
  rw [Bool.false_or, List.isEmpty_eq_false_iff.mpr nonempty']
  exact header

/-- What the first-fit loop has done to a chain, by the first fit of the list. -/
def Allocated (good : σ → Prop) (view : σ → Memory) (m : Memory) (a : Nat) (blocks : List Block)
    (fit : Option (Nat × List Block)) (result : Search) (s : σ) : Prop :=
  match fit with
  | none => result = .exhausted (lastBlock a blocks) ∧ Shows good view m s
  | some (header, blocks') => result = .found (header + BLOCK_SIZE) ∧ ∃ m', Shows good view m' s ∧
      Chain m' false a blocks' ∧ ∀ c, Spared a blocks c → m' c = m c

/-- The test for a cut: the sum does not wrap once the size is below that of a block. -/
theorem room_iff {w : BitVec 32} {b : Block} {more : Bool} {n : Nat} (header : Header w b more) :
    (n ≤ (getBlockSize w).toNat ∧ sizeWithBlock n ≤ getBlockSize w) ↔ n + BLOCK_SIZE ≤ b.size := by
  have four : BLOCK_SIZE = 4 := rfl
  have small := header.size_lt
  rw [header.size, BitVec.le_def, header.size]
  constructor
  · rintro ⟨below, room⟩
    rw [toNat_sizeWithBlock (by omega)] at room
    exact room
  · intro room
    rw [toNat_sizeWithBlock (by omega)]
    exact ⟨by omega, room⟩

/-- **The first-fit loop does first fit.** -/
theorem firstFitLoop_spec (backed : Backed mem good view extent) {n : Nat} {blocks : List Block}
    {fuel a : Nat} {s : σ} {m : Memory} (nonempty : blocks ≠ []) (shows : Shows good view m s)
    (chain : Chain m false a blocks) (inside : a + extentOf blocks ≤ extent)
    (enough : blocks.length ≤ fuel) :
    Returns (firstFitLoop mem n (sizeWithBlock n) fuel a) s
      (Allocated good view m a blocks (firstFit BLOCK_SIZE n a blocks)) := by
  induction blocks generalizing fuel a s with
  | nil => exact absurd rfl nonempty
  | cons b rest ih =>
    have four : BLOCK_SIZE = 4 := rfl
    obtain ⟨fuel, rfl⟩ : ∃ less, fuel = less + 1 := ⟨fuel - 1, by simp at enough; omega⟩
    have header := chain.1
    simp only [extentOf, span] at inside ih
    have isF : getBlockIsF (readWord m a) = 1 ↔ b.free = true := by
      rw [header.isF, flag_eq_one]
    unfold firstFitLoop firstFit
    refine backed.load_bind shows (by omega) fun s₁ shows₁ => ?_
    by_cases whole : b.free = true ∧ b.size = n
    · -- the block is taken as it is
      obtain ⟨isFree, rfl⟩ := whole
      rw [if_pos ⟨isF.mpr isFree, header.size⟩, if_pos ⟨isFree, rfl⟩]
      refine backed.modify_bind shows₁ (by omega) fun s₂ shows₂ => Returns.pure ⟨rfl, _, shows₂, ?_, ?_⟩
      · refine ⟨?_, chain.2.congr fun c low _ => writeWord_of_outside (by omega)⟩
        rw [readWord_writeWord]
        exact header.setIsF false
      · intro c spared
        have := spared_free isFree spared
        exact writeWord_of_outside (by omega)
    · rw [if_neg fun both => whole ⟨isF.mp both.1, header.size.symm.trans both.2⟩, if_neg whole]
      by_cases room : b.free = true ∧ n + BLOCK_SIZE ≤ b.size
      · -- it is cut in two
        obtain ⟨isFree, wide⟩ := room
        rw [if_pos ⟨isF.mpr isFree, (room_iff header).mpr wide⟩, if_pos ⟨isFree, wide⟩]
        refine Returns.bind ((splitBlock_spec backed shows₁ header wide (by omega)).mono ?_)
        rintro _ s₂ ⟨m', shows₂, front, back, same⟩
        refine Returns.pure ⟨rfl, m', shows₂, ?_, ?_⟩
        · refine ⟨front, back, ?_⟩
          have address : a + BLOCK_SIZE + n + BLOCK_SIZE + (b.size - (n + BLOCK_SIZE))
              = a + BLOCK_SIZE + b.size := by omega
          rw [address]
          exact chain.2.congr fun c low _ => same c (by omega)
        · intro c spared
          exact same c (spared_free isFree spared)
      · rw [if_neg fun all => room ⟨isF.mp all.1, (room_iff header).mp all.2⟩, if_neg room]
        refine Returns.bind ((getNextBlock_spec backed shows₁ (by omega) header).mono ?_)
        rintro next s₂ ⟨shows₂, rfl⟩
        cases rest with
        | nil => exact Returns.pure ⟨rfl, shows₂⟩
        | cons d rest =>
          refine (ih (by simp) shows₂ chain.2 (by omega) (by simpa using enough)).mono ?_
          intro result s₃ allocated
          cases fit : firstFit BLOCK_SIZE n (a + BLOCK_SIZE + b.size) (d :: rest) with
          | none =>
            rw [fit] at allocated
            exact allocated
          | some found =>
            obtain ⟨place, blocks'⟩ := found
            rw [fit] at allocated
            obtain ⟨rfl, m', shows₃, chain', same⟩ := allocated
            refine ⟨rfl, m', shows₃, ?_, fun c spared => same c (spared_cons spared)⟩
            exact chain_cons chain chain' (by simp) (firstFit_ne_nil fit) fun c below =>
              same c (Or.inl (by omega))

/-! ### `freeAndMerge` -/

/-- **A block takes in the one behind it**: its header is all that changes. -/
theorem mergeBlocks_spec (backed : Backed mem good view extent) {a z y : Nat} {s : σ} {m : Memory}
    {free other more more' : Bool} (shows : Shows good view m s)
    (left : Header (readWord m a) ⟨z, free⟩ more)
    (right : Header (readWord m (a + BLOCK_SIZE + z)) ⟨y, other⟩ more')
    (inside : a + BLOCK_SIZE + z + BLOCK_SIZE ≤ extent) (small : z + y + BLOCK_SIZE < 2 ^ 24) :
    Returns (mergeBlocks mem a (a + BLOCK_SIZE + z)) s fun _ s' =>
      ∃ w, Shows good view (writeWord m a w) s' ∧ Header w ⟨z + y + BLOCK_SIZE, free⟩ more' := by
  have four : BLOCK_SIZE = 4 := rfl
  have leftSize : (getBlockSize (readWord m a)).toNat = z := left.size
  have rightSize : (getBlockSize (readWord m (a + BLOCK_SIZE + z))).toNat = y := right.size
  unfold mergeBlocks
  refine backed.load_bind shows (by omega) fun s₁ shows₁ => ?_
  refine backed.modify_bind shows₁ (by omega) fun s₂ shows₂ => ?_
  refine backed.load_apart_bind shows₂ (by omega) (by omega) fun s₃ shows₃ => ?_
  refine (backed.modify_again shows₃ (by omega)).mono fun _ s₄ shows₄ => ⟨_, shows₄, ?_⟩
  rw [right.isNext]
  refine (left.setSize ?_ small).setIsNext more'
  rw [BitVec.toNat_add, BitVec.toNat_add, leftSize, rightSize, BitVec.toNat_ofNat]
  omega

/-- **The block is marked free and takes in a free one behind it.** -/
theorem freeBlock_spec (backed : Backed mem good view extent) {a : Nat} {s : σ} {m : Memory}
    {b : Block} {rest : List Block} (shows : Shows good view m s)
    (chain : Chain m false a (b :: rest)) (inside : a + extentOf (b :: rest) ≤ extent)
    (small : extentOf (b :: rest) ≤ 2 ^ 24) :
    Returns (freeBlock mem a) s fun _ s' =>
      ∃ w, Shows good view (writeWord m a w) s' ∧
        Chain (writeWord m a w) false a (absorb BLOCK_SIZE ⟨b.size, true⟩ rest) := by
  have four : BLOCK_SIZE = 4 := rfl
  simp only [extentOf, span] at inside small
  have later : ∀ w, Chain (writeWord m a w) false (a + BLOCK_SIZE + b.size) rest := fun w =>
    chain.2.congr fun c low _ => writeWord_of_outside (by omega)
  unfold freeBlock
  refine backed.modify_bind shows (by omega) fun s₁ shows₁ => ?_
  have header : Header (readWord (writeWord m a (setBlockIsF (readWord m a) 1)) a) ⟨b.size, true⟩
      (false || !rest.isEmpty) := by
    rw [readWord_writeWord]
    exact chain.1.setIsF true
  refine Returns.bind ((getNextBlock_spec backed shows₁ (by omega) header).mono ?_)
  rintro next s₂ ⟨shows₂, rfl⟩
  cases rest with
  | nil => exact Returns.pure ⟨_, shows₂, header, trivial⟩
  | cons d rest =>
    simp only [span] at inside small
    have behind := (later (setBlockIsF (readWord m a) 1)).1
    show Returns (mem.load (a + BLOCK_SIZE + b.size) >>= _) s₂ _
    refine backed.load_bind shows₂ (by omega) fun s₃ shows₃ => ?_
    by_cases isFree : d.free = true
    · rw [if_pos (by rw [behind.isF, flag_eq_one]; exact isFree), absorb_cons, if_pos isFree]
      refine (mergeBlocks_spec backed shows₃ header behind (by omega) (by omega)).mono ?_
      rintro _ s₄ ⟨w, shows₄, merged⟩
      rw [writeWord_writeWord] at shows₄
      refine ⟨w, shows₄, ?_, ?_⟩
      · rw [readWord_writeWord]
        exact merged
      · have address : a + BLOCK_SIZE + (b.size + d.size + BLOCK_SIZE)
            = a + BLOCK_SIZE + b.size + BLOCK_SIZE + d.size := by omega
        rw [address]
        exact (later w).2
    · rw [if_neg (by rw [behind.isF, flag_eq_one]; exact isFree), absorb_cons, if_neg isFree]
      exact Returns.pure ⟨_, shows₃, header, later _⟩

/-- What `freeAndMerge` has done to a chain. -/
def Freed (good : σ → Prop) (view : σ → Memory) (m : Memory) (a : Nat)
    (blocks blocks' : List Block) (result : Bool) (s : σ) : Prop :=
  result = true ∧ ∃ m', Shows good view m' s ∧ Chain m' false a blocks' ∧
    ∀ c, Spared a blocks c → m' c = m c

/-- A byte that a chain spares is in no header. -/
theorem Spared.not_header {a c : Nat} {b : Block} {rest : List Block}
    (spared : Spared a (b :: rest) c) : c < a ∨ a + BLOCK_SIZE ≤ c := by
  rcases spared with before | behind | ⟨p, n, holds, low, high⟩
  · exact Or.inl before
  · simp only [extentOf, span] at behind
    exact Or.inr (by omega)
  · have := holds.bounds
    exact Or.inr (by omega)

/-- **`freeAndMerge` behind another block.** -/
theorem freeAndMergeLoop_behind (backed : Backed mem good view extent)
    {target : Nat} {blocks blocks' : List Block} {c : Block} {fuel q : Nat} {s : σ} {m : Memory}
    (shows : Shows good view m s) (chain : Chain m false q (c :: blocks))
    (inside : q + extentOf (c :: blocks) ≤ extent)
    (small : extentOf (c :: blocks) ≤ 2 ^ 24) (enough : blocks.length ≤ fuel)
    (later : q ≠ target) (released : release BLOCK_SIZE target q (c :: blocks) = some blocks') :
    Returns (freeAndMergeLoop mem target fuel (some q) (q + BLOCK_SIZE + c.size)) s
      (Freed good view m q (c :: blocks) blocks') := by
  induction blocks generalizing fuel q c s blocks' with
  | nil =>
    unfold release at released
    rw [if_neg later] at released
    cases released
  | cons b rest ih =>
    have four : BLOCK_SIZE = 4 := rfl
    obtain ⟨fuel, rfl⟩ : ∃ less, fuel = less + 1 := ⟨fuel - 1, by simp at enough; omega⟩
    unfold release at released
    rw [if_neg later] at released
    obtain ⟨after, released', rfl⟩ := Option.map_eq_some_iff.mp released
    simp only [extentOf, span] at inside small
    unfold freeAndMergeLoop
    by_cases here : q + BLOCK_SIZE + c.size = target
    · subst here
      rw [if_pos rfl, release_here released']
      have inside' : q + BLOCK_SIZE + c.size + extentOf (b :: rest) ≤ extent := by
        simp only [extentOf, span]
        omega
      have small' : extentOf (b :: rest) ≤ 2 ^ 24 := by
        simp only [extentOf, span]
        omega
      refine Returns.bind ((freeBlock_spec backed shows chain.2 inside' small').mono ?_)
      rintro _ s₁ ⟨w, shows₁, chain₁⟩
      obtain ⟨size, rest', shape⟩ := absorb_eq_cons ⟨b.size, true⟩ rest
      have extent₁ := absorb_span (h := BLOCK_SIZE) ⟨b.size, true⟩ rest
      rw [shape] at chain₁ extent₁ ⊢
      simp only [span] at extent₁
      have left : Header (readWord (writeWord m (q + BLOCK_SIZE + c.size) w) q) c true := by
        rw [readWord_writeWord_of_apart (by omega)]
        exact chain.1
      have same₁ : ∀ x, Spared q (c :: b :: rest) x →
          writeWord m (q + BLOCK_SIZE + c.size) w x = m x := fun x spared =>
        writeWord_of_outside (spared_cons spared).not_header
      unfold mergePrevious
      refine Returns.bind (backed.load_bind shows₁ (by omega) fun s₂ shows₂ => ?_)
      by_cases isFree : c.free = true
      · rw [if_pos (by rw [left.isF, flag_eq_one]; exact isFree), if_pos ⟨rfl, isFree⟩,
          absorb_cons, if_pos rfl]
        refine (mergeBlocks_spec backed shows₂ left chain₁.1 (by omega) (by omega)).mono ?_
        rintro _ s₃ ⟨w', shows₃, merged⟩
        refine Returns.pure ⟨rfl, _, shows₃, ⟨?_, ?_⟩, fun x spared => ?_⟩
        · rw [readWord_writeWord]
          exact merged
        · have address : q + BLOCK_SIZE + (c.size + size + BLOCK_SIZE)
              = q + BLOCK_SIZE + c.size + BLOCK_SIZE + size := by omega
          rw [address]
          exact chain₁.2.congr fun x low _ => writeWord_of_outside (by omega)
        · rw [writeWord_of_outside spared.not_header]
          exact same₁ x spared
      · rw [if_neg (by rw [left.isF, flag_eq_one]; exact isFree), if_neg fun both => isFree both.2]
        exact Returns.pure (Returns.pure ⟨rfl, _, shows₂, ⟨left, chain₁⟩, same₁⟩)
    · rw [if_neg here, if_neg fun both => here both.1]
      refine Returns.bind ((getNextBlock_spec backed shows (by omega) chain.2.1).mono ?_)
      rintro next s₁ ⟨shows₁, rfl⟩
      cases rest with
      | nil =>
        unfold release at released'
        rw [if_neg here] at released'
        cases released'
      | cons d rest =>
        have inside' : q + BLOCK_SIZE + c.size + extentOf (b :: d :: rest) ≤ extent := by
          simp only [extentOf, span] at inside ⊢
          omega
        have small' : extentOf (b :: d :: rest) ≤ 2 ^ 24 := by
          simp only [extentOf, span] at small ⊢
          omega
        refine (ih shows₁ chain.2 inside' small' (by simpa using enough) here released').mono ?_
        rintro result s₂ ⟨rfl, m', shows₂, chain', same⟩
        refine ⟨rfl, m', shows₂, ?_, fun x spared => same x (spared_cons spared)⟩
        exact chain_cons chain chain' (by simp) (release_ne_nil (by decide) released') fun x below =>
          same x (Or.inl (by omega))

/-- **`freeAndMerge` releases the block.** -/
theorem freeAndMergeLoop_spec (backed : Backed mem good view extent)
    {target : Nat} {blocks blocks' : List Block} {fuel a : Nat} {s : σ} {m : Memory}
    (shows : Shows good view m s) (chain : Chain m false a blocks)
    (inside : a + extentOf blocks ≤ extent) (small : extentOf blocks ≤ 2 ^ 24) (enough : blocks.length ≤ fuel)
    (released : release BLOCK_SIZE target a blocks = some blocks') :
    Returns (freeAndMergeLoop mem target fuel none a) s (Freed good view m a blocks blocks') := by
  cases blocks with
  | nil => cases released
  | cons b rest =>
    have four : BLOCK_SIZE = 4 := rfl
    obtain ⟨fuel, rfl⟩ : ∃ less, fuel = less + 1 := ⟨fuel - 1, by simp at enough; omega⟩
    unfold freeAndMergeLoop
    by_cases here : a = target
    · subst here
      rw [if_pos rfl, release_here released]
      refine Returns.bind ((freeBlock_spec backed shows chain inside small).mono ?_)
      rintro _ s₁ ⟨w, shows₁, chain₁⟩
      refine Returns.pure ⟨rfl, _, shows₁, chain₁, fun x spared => ?_⟩
      exact writeWord_of_outside spared.not_header
    · simp only [extentOf, span] at inside
      rw [if_neg here]
      refine Returns.bind ((getNextBlock_spec backed shows (by omega) chain.1).mono ?_)
      rintro next s₁ ⟨shows₁, rfl⟩
      cases rest with
      | nil =>
        unfold release at released
        rw [if_neg here] at released
        cases released
      | cons d rest =>
        have inside' : a + extentOf (b :: d :: rest) ≤ extent := by
          simp only [extentOf, span] at inside ⊢
          omega
        exact freeAndMergeLoop_behind backed shows₁ chain inside' small (by simpa using enough) here
          released

end OS2017.Heap
