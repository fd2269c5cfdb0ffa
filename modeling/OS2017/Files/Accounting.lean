/-
**The data blocks of the files.**

A file of `size` bytes has the blocks of the entries `0`, …, `size / BLOCK_SIZE` of its `data`, also
where the last of them holds no byte yet. The block bitmap is to mark exactly these
(`Drive.Accounted`). Along a run of calls it does (`blocks_accounted`) as long as no `sfs_create`
with a free inode finds the disk full, no write leaves a gap, runs out of blocks midway or starts behind the
end of its file and takes a block, and the one entry too many that `sfs_unlink` releases is of no other file.
-/

import OS2017.Files.Names
import OS2017.Lib.Ledger

namespace OS2017.Files

open OS2017.Bytes OS2017.Run OS2017.Ledger

/-! ### What is to be accounted for -/

/-- The entry `p.2` of the file `p.1` has the block `b`. -/
def Holds (live : Nat → Prop) (node : Nat → Inode) (p : Nat × Nat) (b : Nat) : Prop :=
  live p.1 ∧ (p.2 : Int) ≤ (node p.1).size.tdiv BLOCK_SIZE ∧ p.2 < DATA_ENTRIES ∧
    (node p.1).data p.2 = (b : Int)

/-- The entries of the files, as they are on the disk. The root is a directory and has none. -/
def Drive.Holds (d : Drive) : Nat × Nat → Nat → Prop := Files.Holds d.Live (readInode d)

/-- **Exact accounting**: a block is marked used if it is the block of exactly one entry, and no block
is the block of two. -/
structure Drive.Accounted (d : Drive) : Prop where
  marked : ∀ b < BLOCK_LIST_SIZE, isBlockFree d b = 0 ↔ ∃! p, d.Holds p b
  distinct : ∀ p q b, d.Holds p b → d.Holds q b → p = q

/-- A block that is marked used. -/
def Drive.Used (d : Drive) (b : Nat) : Prop := b < BLOCK_LIST_SIZE ∧ d.blockFree b = false

/-- The number of free blocks. -/
@[irreducible] def freeBlocks (d : Drive) : Nat :=
  (List.range BLOCK_LIST_SIZE).countP fun n => isBlockFree d n = 1

/-! ### Runs -/

/-- A call, or a read. -/
inductive Access
  | call (call : Call)
  | read (path : Path) (size : Nat) (offset : Int)

/-- The disk after it. -/
def Drive.exec (d : Drive) : Access → Option Drive
  | .call (.create path mode fh) => (sfs_create path mode fh d).map (·.2)
  | .call (.write path buf offset fh) => (sfs_write path buf offset fh d).map (·.2)
  | .call (.unlink path) => (sfs_unlink path d).map (·.2)
  | .read path size offset => (sfs_read path size offset d).map (·.2)

/-- A disk of zeros after `sfs_init`. -/
def Drive.Fresh (d : Drive) : Prop := ∃ stack, sfs_init stack ⟨zeroDisk, []⟩ = some ((), d)

/-- The byte of the file that a write comes to first. The number of its block is an `int`. -/
def startOf (offset : Int) : Int := blkOf offset * BLOCK_SIZE + chrOf offset

/-- **Enough blocks for `rest` bytes at `pos`**: in the file there is one for each boundary that the file
grows over; behind its end, where the entries do not get the blocks that are taken, the file grows over none. -/
def EnoughBlocks (d : Drive) (file : Inode) (pos : Int) (rest : Nat) : Prop :=
  if pos ≤ file.size then
    min (max file.size.toNat (pos.toNat + rest)) 16777215 / BLOCK_SIZE ≤
      file.size.toNat / BLOCK_SIZE + freeBlocks d
  else min (file.size.toNat + rest) 16777215 / BLOCK_SIZE ≤ file.size.toNat / BLOCK_SIZE

/-- A write of `count` bytes at `offset` does not leave a gap and has enough blocks, or no block is free. -/
def Fits (d : Drive) (file : Inode) (count : Nat) (offset : Int) : Prop :=
  (blkOf offset ≤ file.size.tdiv BLOCK_SIZE + 1 ∧ EnoughBlocks d file (startOf offset) count) ∨
    freeBlocks d = 0

/-- The entry behind those of the file has a free block, or one of the file's own. -/
def Spare (d : Drive) (file : Inode) : Prop :=
  let extra := file.size.toNat / BLOCK_SIZE + 1
  extra < DATA_ENTRIES → isBlockFree d (file.data extra).toNat = 1 ∨
    ∃ k < extra, file.data k = file.data extra

/-- **The calls that keep the account.** -/
def Drive.Sound (d : Drive) : Access → Prop
  | .call (.create _ _ _) => (∃ i < INODE_LIST_SIZE, isInodeFree d i = 1) →
      ∃ n < BLOCK_LIST_SIZE, isBlockFree d n = 1
  | .call (.write path buf offset fh) => fh ≠ -1 → buf ≠ [] → strcmp path slash = false ∧
      ∀ i, inodeOf d path = some i → Fits d (readInode d i) buf.length offset
  | .call (.unlink path) => strcmp path slash = false ∧
      ∀ i, inodeOf d path = some i → Spare d (readInode d i)
  | .read _ _ _ => True

/-! ### The invariant -/

/-- A file as it has to be, on the disk or in memory. -/
structure Proper (i : Nat) (file : Inode) : Prop where
  slot : file.id = i
  linked : file.hardlinks = 1
  sized : 0 ≤ file.size ∧ file.size ≤ 16777216
  inRange : InRange file

/-- **The account along a run.** -/
structure Kept (d : Drive) : Prop where
  rootUsed : d.inodeFree 0 = false
  rootPath : ∀ path, strcmp path (readInode d 0).path = strcmp path slash
  proper : ∀ i, d.Live i → Proper i (readInode d i)
  inRange : ∀ i, 0 < i → i < INODE_LIST_SIZE → InRange (readInode d i)
  exact : Exact d.Used d.Holds

theorem Kept.accounted {d : Drive} (kept : Kept d) : d.Accounted where
  marked := by
    intro b small
    rw [← kept.exact.used_iff_existsUnique, isBlockFree_eq]
    unfold Drive.Used
    cases d.blockFree b <;> simp [small]
  distinct := fun p q b held held' => kept.exact.distinct held held'

theorem Kept.live {d : Drive} (kept : Kept d) {path : Path} {i : Nat}
    (proper : strcmp path slash = false) (found : inodeOf d path = some i) : d.Live i := by
  obtain ⟨small, used, same⟩ := inodeOf_some found
  refine ⟨Nat.pos_of_ne_zero fun root => ?_, small, used⟩
  rw [root, kept.rootPath, proper] at same
  cases same

/-- **The table is as it was, and the account is exact again.** -/
theorem Kept.of_sameTable {d d' : Drive} (kept : Kept d) (table : SameTable d d')
    (exact : Exact d'.Used d.Holds) : Kept d' := by
  have live : ∀ i, d'.Live i ↔ d.Live i := by
    intro i
    unfold Drive.Live
    rw [table.inodeFree]
  refine ⟨(table.inodeFree 0).trans kept.rootUsed, ?_, ?_, ?_, ?_⟩
  · rw [table.readInode 0 (by decide)]
    exact kept.rootPath
  · intro i live'
    rw [table.readInode i live'.2.1]
    exact kept.proper i ((live i).mp live')
  · intro i positive small
    rw [table.readInode i small]
    exact kept.inRange i positive small
  · refine exact.congr (fun _ => Iff.rfl) fun p b => ?_
    unfold Drive.Holds Holds
    rw [live]
    refine and_congr_right fun live' => ?_
    rw [table.readInode p.1 live'.2.1]

/-- **A file is written back, and the account is exact with it.** -/
theorem Kept.putInode {d d' : Drive} (kept : Kept d) (table : SameTable d d') {i : Nat}
    (live : d.Live i) {file : Inode} (proper : Proper i file)
    (exact : Exact d'.Used (Holds d.Live (Function.update (readInode d) i file))) :
    Kept (d'.putInode i file) := by
  have free : ∀ k, (d'.putInode i file).inodeFree k = d.inodeFree k := fun k =>
    (inodeFree_putInode d' i k file).trans (table.inodeFree k)
  have live' : ∀ k, (d'.putInode i file).Live k ↔ d.Live k := by
    intro k
    unfold Drive.Live
    rw [free]
  have own : readInode (d'.putInode i file) i = file.record := by
    rw [readInode_putInode, if_pos rfl]
  have others : ∀ k < INODE_LIST_SIZE, k ≠ i → readInode (d'.putInode i file) k = readInode d k := by
    intro k small other
    rw [readInode_putInode, if_neg other]
    exact table.readInode k small
  refine ⟨(free 0).trans kept.rootUsed, ?_, ?_, ?_, ?_⟩
  · have positive := live.1
    rw [others 0 (by decide) (by omega)]
    exact kept.rootPath
  · intro k live₁
    by_cases here : k = i
    · subst here
      rw [own]
      exact ⟨(Inode.id_record file).trans proper.slot, (Inode.hardlinks_record file).trans proper.linked,
        by rw [Inode.size_record]; exact proper.sized, proper.inRange.record⟩
    · rw [others k live₁.2.1 here]
      exact kept.proper k ((live' k).mp live₁)
  · intro k positive small
    by_cases here : k = i
    · subst here
      rw [own]
      exact proper.inRange.record
    · rw [others k small here]
      exact kept.inRange k positive small
  · refine exact.congr (fun b => ?_) fun p b => ?_
    · unfold Drive.Used
      rw [blockFree_putInode]
    · unfold Drive.Holds Holds
      rw [live']
      refine and_congr_right fun live₁ => ?_
      by_cases here : p.1 = i
      · rw [here, own, Function.update_self, Inode.size_record]
        refine and_congr_right fun _ => and_congr_right fun inside => ?_
        rw [Inode.data_record _ inside]
      · rw [others p.1 live₁.2.1 here, Function.update_of_ne here]

/-! ### The first state -/

theorem Kept.fresh {d : Drive} (fresh : d.Fresh) : Kept d := by
  have named : Named ⟨d, []⟩ := Named.fresh ⟨fresh, rfl⟩
  have unused : ∀ i, ¬ d.Live i := by
    intro i live
    obtain ⟨path, _, _, member⟩ := named.titled i live
    cases member
  obtain ⟨stack, ran⟩ := fresh
  have initialises : Reinitialises stack zeroDisk := reinitialises_fresh (by decide) stack
  obtain ⟨d', ran', empty⟩ := initialises
  rw [ran] at ran'
  cases ran'
  refine ⟨named.rootUsed, named.rootPath, fun i live => absurd live (unused i), named.inRange,
    ⟨fun held => absurd held.1 (unused _), fun b => ?_⟩⟩
  constructor
  · rintro ⟨small, taken⟩
    rw [isBlockFree_eq_one.mp (empty.blocks b small)] at taken
    cases taken
  · rintro ⟨p, live, _⟩
    exact absurd live (unused p.1)

/-! ### `sfs_create` -/

theorem createdInode_size (d : Drive) (i : Nat) (path : Path) (mode : BitVec 32) (n : Nat) :
    (createdInode d i path mode n).size = 0 := by
  unfold createdInode newInode
  rw [Inode.size_setData, Inode.size_setPath _ _ (Nat.le_refl _), Inode.size_setHardlinks,
    Inode.size_setMode, Inode.size_setSize]
  decide

theorem createdInode_hardlinks (d : Drive) (i : Nat) (path : Path) (mode : BitVec 32) (n : Nat) :
    (createdInode d i path mode n).hardlinks = 1 := by
  unfold createdInode newInode
  rw [Inode.hardlinks_setData _ _ (by decide), Inode.hardlinks_setPath _ _ (Nat.le_refl _),
    Inode.hardlinks_setHardlinks]
  decide

theorem createdInode_data (d : Drive) (i : Nat) (path : Path) (mode : BitVec 32) {n : Nat}
    (small : n < BLOCK_LIST_SIZE) : (createdInode d i path mode n).data 0 = (n : Int) := by
  unfold createdInode
  rw [Inode.data_setData, if_pos rfl, toInt_ofInt_natCast small]

theorem createdInode_inRange {d : Drive} {i : Nat} (path : Path) (mode : BitVec 32) {n : Nat}
    (small : n < BLOCK_LIST_SIZE) (inRange : InRange (readInode d i)) :
    InRange (createdInode d i path mode n) := by
  unfold createdInode newInode
  refine InRange.setData (fun k inside => ?_) 0 small
  rw [Inode.data_setPath _ _ _ (Nat.le_refl _), Inode.data_setHardlinks _ _ inside,
    Inode.data_setMode, Inode.data_setSize, Inode.data_setId]
  exact inRange k inside

/-- A free block is not in use. -/
theorem not_used {d : Drive} {n : Nat} (available : d.blockFree n = true) : ¬ d.Used n := by
  rintro ⟨_, taken⟩
  rw [available] at taken
  cases taken

/-- **A block is taken.** -/
theorem used_markBlock {d : Drive} {n : Nat} (below : n < BLOCK_LIST_SIZE) (c : Nat) :
    (d.markBlock n false).Used c ↔ d.Used c ∨ c = n := by
  unfold Drive.Used
  rw [blockFree_markBlock]
  by_cases same : c = n
  · subst same
    simp [below]
  · simp [same]

/-- The entries there are with the new file: the block taken is its first. -/
theorem created_holds {d : Drive} {path : Path} {i n : Nat} {mode : BitVec 32} (positive : 0 < i)
    (small : i < INODE_LIST_SIZE) (free : d.inodeFree i = true)
    (below : n < BLOCK_LIST_SIZE) (p : Nat × Nat) (b : Nat) :
    (d.created i path mode n).Holds p b ↔ d.Holds p b ∨ (p = (i, 0) ∧ b = n) := by
  obtain ⟨j, k⟩ := p
  have size := createdInode_size d i path mode n
  have entry := createdInode_data d i path mode below
  have dead : ¬ d.Live i := by
    rintro ⟨_, _, used⟩
    rw [free] at used
    cases used
  unfold Drive.Holds Files.Holds
  rw [created_live positive small, created_readInode]
  by_cases here : j = i
  · subst here
    rw [if_pos rfl, Inode.size_record, size]
    have first : (k : Int) ≤ Int.tdiv 0 BLOCK_SIZE ↔ k = 0 := by
      rw [Int.zero_tdiv]
      omega
    simp only [first, dead, false_and, false_or, Prod.mk.injEq, true_and, or_false]
    constructor
    · rintro ⟨rfl, inside, data⟩
      rw [Inode.data_record _ inside, entry] at data
      exact ⟨rfl, by omega⟩
    · rintro ⟨rfl, rfl⟩
      exact ⟨rfl, by decide, by rw [Inode.data_record _ (by decide), entry]⟩
  · simp [here]

/-- **A new file has one block.** -/
theorem Kept.create {d : Drive} (kept : Kept d) (path : Path) (mode : BitVec 32) {i n : Nat}
    (slot : i < INODE_LIST_SIZE) (free : d.inodeFree i = true) (small : n < BLOCK_LIST_SIZE)
    (available : d.blockFree n = true) :
    Kept (((d.markInode i false).markBlock n false).putInode i (createdInode d i path mode n)) := by
  have positive : 0 < i := by
    refine Nat.pos_of_ne_zero fun root => ?_
    rw [root, kept.rootUsed] at free
    cases free
  have inRange := createdInode_inRange path mode small (kept.inRange i positive slot)
  have proper : Proper i (createdInode d i path mode n).record :=
    ⟨(Inode.id_record _).trans (createdInode_id d path mode n slot),
      (Inode.hardlinks_record _).trans (createdInode_hardlinks d i path mode n),
      by rw [Inode.size_record, createdInode_size]; decide, inRange.record⟩
  have dead : ¬ d.Live i := by
    rintro ⟨_, _, used⟩
    rw [free] at used
    cases used
  show Kept (d.created i path mode n)
  refine ⟨?_, ?_, ?_, ?_, ?_⟩
  · rw [created_inodeFree, if_neg (by omega)]
    exact kept.rootUsed
  · rw [created_readInode, if_neg (by omega)]
    exact kept.rootPath
  · intro j live'
    rw [created_readInode]
    rcases (created_live positive slot j).mp live' with rfl | live₀
    · rw [if_pos rfl]
      exact proper
    · rw [if_neg (by rintro rfl; exact dead live₀)]
      exact kept.proper j live₀
  · intro j positive' small'
    rw [created_readInode]
    split
    · exact proper.inRange
    · exact kept.inRange j positive' small'
  · refine kept.exact.take (p := (i, 0)) (b := n) (not_used available) (fun c => ?_)
      (created_holds positive slot free small)
    unfold Drive.Used
    rw [created_blockFree, ← blockFree_markBlock]
    exact used_markBlock small c

/-! ### `sfs_unlink` -/

theorem tdiv_of_nonneg {size : Int} (positive : 0 ≤ size) :
    size.tdiv BLOCK_SIZE = (size.toNat / BLOCK_SIZE : Nat) := by
  obtain ⟨n, rfl⟩ := Int.eq_ofNat_of_zero_le positive
  rw [Int.toNat_natCast]
  exact (Int.ofNat_tdiv n BLOCK_SIZE).symm

/-- The entries of a file. -/
theorem holds_iff {d : Drive} {i : Nat} (live : d.Live i) (positive : 0 ≤ (readInode d i).size)
    (k b : Nat) : d.Holds (i, k) b ↔ k ≤ (readInode d i).size.toNat / BLOCK_SIZE ∧
      k < DATA_ENTRIES ∧ (readInode d i).data k = (b : Int) := by
  unfold Drive.Holds Holds
  rw [tdiv_of_nonneg positive]
  simp only [live, true_and, Int.ofNat_le]

/-- **A file is gone with its blocks.** -/
theorem Kept.remove {d d₁ : Drive} (kept : Kept d) {i : Nat} (live : d.Live i)
    (spare : Spare d (readInode d i))
    (released : Released (readInode d i)
      (List.range ((readInode d i).size.tdiv BLOCK_SIZE + 2).toNat) d d₁) :
    Kept (d₁.markInode i true) := by
  have proper := kept.proper i live
  have sized := proper.sized.1
  have count : ((readInode d i).size.tdiv BLOCK_SIZE + 2).toNat =
      (readInode d i).size.toNat / BLOCK_SIZE + 2 := by
    rw [tdiv_of_nonneg sized]
    exact Int.toNat_natCast _
  rw [count] at released
  have table := released.table
  have live' : ∀ j, (d₁.markInode i true).Live j ↔ d.Live j ∧ j ≠ i := by
    intro j
    unfold Drive.Live
    rw [inodeFree_markInode, table.inodeFree]
    by_cases here : j = i
    · simp [here]
    · simp [here]
  refine ⟨?_, ?_, ?_, ?_, ?_⟩
  · have positive := live.1
    rw [inodeFree_markInode, if_neg (by omega), table.inodeFree]
    exact kept.rootUsed
  · rw [readInode_markInode, table.readInode 0 (by decide)]
    exact kept.rootPath
  · intro j live₁
    rw [readInode_markInode, table.readInode j live₁.2.1]
    exact kept.proper j ((live' j).mp live₁).1
  · intro j positive small
    rw [readInode_markInode, table.readInode j small]
    exact kept.inRange j positive small
  · refine kept.exact.release (fun p => p.1 = i) (fun c => ?_) (fun q c => ?_)
    · unfold Drive.Used
      rw [blockFree_markInode, ← Bool.not_eq_true, released.blockFree, ← Bool.not_eq_true]
      constructor
      · rintro ⟨small, taken⟩
        refine ⟨⟨small, fun open_ => taken (Or.inl open_)⟩, ?_⟩
        rintro ⟨⟨j, k⟩, rfl, held⟩
        obtain ⟨owned, _, data⟩ := (holds_iff live sized k c).mp held
        exact taken (Or.inr ⟨k, List.mem_range.mpr (by omega), data⟩)
      · rintro ⟨⟨small, taken⟩, others⟩
        have notOwn : ∀ k < (readInode d i).size.toNat / BLOCK_SIZE + 1, k < DATA_ENTRIES →
            ¬ (readInode d i).data k = (c : Int) := fun k below inside data =>
          others ⟨(i, k), rfl, (holds_iff live sized k c).mpr ⟨by omega, inside, data⟩⟩
        refine ⟨small, ?_⟩
        rintro (open_ | ⟨k, member, data⟩)
        · exact taken open_
        · have inside := released.inside k member
          have below := List.mem_range.mp member
          rcases Nat.lt_or_ge k ((readInode d i).size.toNat / BLOCK_SIZE + 1) with own | extra
          · exact notOwn k own inside data
          · have last : k = (readInode d i).size.toNat / BLOCK_SIZE + 1 := by omega
            subst last
            rcases spare inside with open_ | ⟨k', own, same⟩
            · rw [data, Int.toNat_natCast, isBlockFree_eq_one] at open_
              exact taken open_
            · exact notOwn k' own (Nat.lt_trans own inside) (same.trans data)
    · unfold Drive.Holds Holds
      rw [live', readInode_markInode]
      constructor
      · rintro ⟨⟨live₀, other⟩, rest⟩
        rw [table.readInode q.1 live₀.2.1] at rest
        exact ⟨⟨live₀, rest⟩, other⟩
      · rintro ⟨⟨live₀, rest⟩, other⟩
        rw [table.readInode q.1 live₀.2.1]
        exact ⟨⟨live₀, other⟩, rest⟩

theorem Kept.unlink {d d' : Drive} (kept : Kept d) {path : Path} {ret : Int}
    (proper : strcmp path slash = false)
    (spare : ∀ i, inodeOf d path = some i → Spare d (readInode d i))
    (step : UnlinkStep path d ret d') : Kept d' := by
  cases step with
  | missing => exact kept
  | linked i found _ more =>
    refine absurd ?_ more
    rw [Inode.hardlinks_setHardlinks, (kept.proper i (kept.live proper found)).linked]
    decide
  | removed i d₁ found _ released =>
    exact kept.remove (kept.live proper found) (spare i found) released

/-! ### `sfs_read` -/

theorem readLoop_keeps {file : Inode} : ∀ (count : Nat) {blk chr : Nat} {diskbuf : Memory}
    {d d' : Drive} {bytes : List (BitVec 8)},
    readLoop file count blk chr diskbuf d = some (bytes, d') → d' = d := by
  intro count
  induction count with
  | zero =>
    intro blk chr diskbuf d d' bytes ran
    cases ran
    rfl
  | succ count ih =>
    intro blk chr diskbuf d d' bytes ran
    unfold readLoop at ran
    dsimp only at ran
    split at ran
    · obtain ⟨block, d₁, entry, ran₁⟩ := run_bind ran
      obtain ⟨_, _, _, rfl⟩ := dataAt_run entry
      obtain ⟨next, d₂, loaded, ran₂⟩ := run_bind ran₁
      have same := block_read_keeps loaded
      subst same
      obtain ⟨more, d₃, ran₃, done⟩ := run_bind ran₂
      cases done
      exact ih ran₃
    · obtain ⟨more, d₃, ran₃, done⟩ := run_bind ran
      cases done
      exact ih ran₃

/-- **`sfs_read` leaves the disk as it is.** -/
theorem sfs_read_keeps {path : Path} {size : Nat} {offset : Int} {d d' : Drive}
    {result : Int × List (BitVec 8)} (ran : sfs_read path size offset d = some (result, d')) :
    d' = d := by
  unfold sfs_read at ran
  rw [look_run] at ran
  split at ran
  · cases ran
    rfl
  split at ran
  · cases ran
    rfl
  split at ran
  · cases ran
    rfl
  obtain ⟨block, d₁, entry, ran₁⟩ := run_bind ran
  obtain ⟨_, _, _, rfl⟩ := dataAt_run entry
  obtain ⟨diskbuf, d₂, loaded, ran₂⟩ := run_bind ran₁
  have same := block_read_keeps loaded
  subst same
  split at ran₂
  · cases ran₂
  · obtain ⟨bytes, d₃, ran₃, done⟩ := run_bind ran₂
    cases done
    exact readLoop_keeps size ran₃

/-! ### `sfs_write` -/

theorem freeBlocks_congr {d d' : Drive} (same : ∀ n, d'.blockFree n = d.blockFree n) :
    freeBlocks d' = freeBlocks d := by
  unfold freeBlocks
  refine List.countP_congr fun n _ => ?_
  rw [isBlockFree_eq, isBlockFree_eq, same]

theorem freeBlocks_eq_zero {d : Drive} :
    freeBlocks d = 0 ↔ ∀ n < BLOCK_LIST_SIZE, d.blockFree n = false := by
  unfold freeBlocks
  rw [List.countP_eq_zero]
  refine forall_congr' fun n => ?_
  rw [List.mem_range, decide_eq_true_eq, isBlockFree_eq_one, Bool.not_eq_true]

/-- A block is taken. -/
theorem freeBlocks_markBlock {d : Drive} {n : Nat} (small : n < BLOCK_LIST_SIZE)
    (available : d.blockFree n = true) :
    freeBlocks (d.markBlock n false) + 1 = freeBlocks d := by
  unfold freeBlocks
  have nodup : (List.range BLOCK_LIST_SIZE).Nodup := List.nodup_range
  have member : n ∈ List.range BLOCK_LIST_SIZE := List.mem_range.mpr small
  generalize List.range BLOCK_LIST_SIZE = blocks at nodup member
  have others : blocks.countP (fun k => isBlockFree (d.markBlock n false) k = 1) =
      (blocks.erase n).countP fun k => isBlockFree d k = 1 := by
    rw [nodup.erase_eq_filter, List.countP_filter]
    refine List.countP_congr fun k _ => ?_
    simp only [decide_eq_true_eq, isBlockFree_eq_one, blockFree_markBlock, Bool.and_eq_true, bne_iff_ne]
    by_cases here : k = n <;> simp [here]
  have taken : isBlockFree d n = 1 := isBlockFree_eq_one.mpr available
  rw [others, (List.perm_cons_erase member).countP_eq, List.countP_cons, if_pos (decide_eq_true taken)]

/-- **The account while a file is written**: the file in memory stands for its inode, and there are
blocks for the `rest` bytes still to come, or there were none from the start. -/
structure Growing (i : Nat) (d₀ d : Drive) (file : Inode) (pos rest : Nat) : Prop where
  table : SameTable d₀ d
  proper : Proper i file
  exact : Exact d.Used (Holds d₀.Live (Function.update (readInode d₀) i file))
  room : EnoughBlocks d file pos rest ∨ (freeBlocks d = 0 ∧ Exact d.Used d₀.Holds)

/-- Data is written. -/
theorem Growing.putData {i : Nat} {d₀ d : Drive} {file : Inode} {pos rest : Nat}
    (growing : Growing i d₀ d file pos rest) (n : Nat) (buf : Memory) :
    Growing i d₀ (d.putData n buf) file pos rest := by
  have free : ∀ k, (d.putData n buf).blockFree k = d.blockFree k :=
    fun k => blockFree_putData d n k buf
  have used : ∀ b, (d.putData n buf).Used b ↔ d.Used b := by
    intro b
    unfold Drive.Used
    rw [free]
  refine ⟨growing.table.trans (.putData d n buf), growing.proper,
    growing.exact.congr used fun _ _ => Iff.rfl, ?_⟩
  unfold EnoughBlocks
  rw [freeBlocks_congr free]
  exact growing.room.imp_right fun ⟨full, exact⟩ => ⟨full, exact.congr used fun _ _ => Iff.rfl⟩

/-- A file with one byte more. -/
theorem size_succ {file : Inode} (sized : 0 ≤ file.size ∧ file.size < 16777216) :
    (file.setSize (file.size + 1)).size = file.size + 1 := by
  rw [Inode.size_setSize, BitVec.toInt_ofInt]
  exact Int.bmod_eq_of_le (by omega) (by omega)

theorem Proper.setSize {i : Nat} {file : Inode} (proper : Proper i file)
    (small : file.size < 16777216) : Proper i (file.setSize (file.size + 1)) where
  slot := (Inode.id_setSize file _).trans proper.slot
  linked := (Inode.hardlinks_setSize file _).trans proper.linked
  sized := by
    have sized := proper.sized
    rw [size_succ ⟨sized.1, small⟩]
    omega
  inRange := proper.inRange.setSize _

theorem Proper.setData {i : Nat} {file : Inode} (proper : Proper i file) {k n : Nat}
    (inside : k < DATA_ENTRIES) (small : n < BLOCK_LIST_SIZE) : Proper i (file.setData k n) where
  slot := (Inode.id_setData file k n).trans proper.slot
  linked := (Inode.hardlinks_setData file n inside).trans proper.linked
  sized := by
    rw [Inode.size_setData]
    exact proper.sized
  inRange := proper.inRange.setData k small

/-- The entries of the file in memory. -/
theorem holds_update {live : Nat → Prop} {node : Nat → Inode} {i : Nat} {file : Inode} (j k b : Nat) :
    Holds live (Function.update node i file) (j, k) b ↔ live j ∧
      if j = i then (k : Int) ≤ file.size.tdiv BLOCK_SIZE ∧ k < DATA_ENTRIES ∧ file.data k = (b : Int)
      else (k : Int) ≤ (node j).size.tdiv BLOCK_SIZE ∧ k < DATA_ENTRIES ∧ (node j).data k = (b : Int) := by
  unfold Holds
  by_cases here : j = i
  · subst here
    simp
  · simp [here]

/-- **A growth within the last block**, or to the maximal size, needs no entry. -/
theorem holds_longer {live : Nat → Prop} {node : Nat → Inode} {i : Nat} {file : Inode} {pos : Nat}
    (size : file.size = (pos : Int)) (small : pos < 16777216)
    (same : (pos + 1) % BLOCK_SIZE ≠ 0 ∨ pos + 1 = 16777216) (p : Nat × Nat) (b : Nat) :
    Holds live (Function.update node i (file.setSize (file.size + 1))) p b ↔
      Holds live (Function.update node i file) p b := by
  obtain ⟨j, k⟩ := p
  have size' : (file.setSize (file.size + 1)).size = ((pos + 1 : Nat) : Int) := by
    rw [size_succ ⟨by omega, by omega⟩, size]
    rfl
  have before : file.size.tdiv BLOCK_SIZE = ((pos / BLOCK_SIZE : Nat) : Int) := by
    rw [size]
    exact (Int.ofNat_tdiv pos BLOCK_SIZE).symm
  have after : (file.setSize (file.size + 1)).size.tdiv BLOCK_SIZE =
      (((pos + 1) / BLOCK_SIZE : Nat) : Int) := by
    rw [size']
    exact (Int.ofNat_tdiv (pos + 1) BLOCK_SIZE).symm
  rw [holds_update, holds_update, before, after, Inode.data_setSize]
  by_cases here : j = i
  · rw [if_pos here, if_pos here]
    unfold BLOCK_SIZE at same ⊢
    unfold DATA_ENTRIES
    refine and_congr_right fun _ => ⟨?_, ?_⟩
    · rintro ⟨owned, inside, data⟩
      exact ⟨by omega, inside, data⟩
    · rintro ⟨owned, inside, data⟩
      exact ⟨by omega, inside, data⟩
  · rw [if_neg here, if_neg here]

/-- **A growth over a boundary takes an entry.** -/
theorem holds_block {live : Nat → Prop} {node : Nat → Inode} {i : Nat} (used : live i) {file : Inode}
    {pos blk n : Nat} (size : file.size = (pos : Int)) (small : pos + 1 < 16777216)
    (boundary : pos + 1 = (blk + 1) * BLOCK_SIZE) (below : n < BLOCK_LIST_SIZE)
    (inside : blk + 1 < DATA_ENTRIES) (p : Nat × Nat) (b : Nat) :
    Holds live (Function.update node i ((file.setSize (file.size + 1)).setData (blk + 1) n)) p b ↔
      Holds live (Function.update node i file) p b ∨ (p = (i, blk + 1) ∧ b = n) := by
  obtain ⟨j, k⟩ := p
  have before : file.size.tdiv BLOCK_SIZE = (blk : Int) := by
    rw [size]
    refine (Int.ofNat_tdiv pos BLOCK_SIZE).symm.trans (congrArg Nat.cast ?_)
    unfold BLOCK_SIZE at boundary ⊢
    omega
  have after : ((file.setSize (file.size + 1)).setData (blk + 1) n).size.tdiv BLOCK_SIZE =
      ((blk + 1 : Nat) : Int) := by
    rw [Inode.size_setData, size_succ ⟨by omega, by omega⟩, size]
    refine (Int.ofNat_tdiv (pos + 1) BLOCK_SIZE).symm.trans (congrArg Nat.cast ?_)
    rw [boundary]
    exact Nat.mul_div_cancel _ (by decide)
  rw [holds_update, holds_update, before, after, Inode.data_setData, Inode.data_setSize,
    toInt_ofInt_natCast below]
  by_cases here : j = i
  · subst here
    rw [if_pos rfl, if_pos rfl, Prod.mk.injEq]
    by_cases last : k = blk + 1
    · subst last
      rw [if_pos rfl]
      constructor
      · rintro ⟨_, _, _, data⟩
        exact Or.inr ⟨⟨rfl, rfl⟩, by omega⟩
      · rintro (⟨_, owned, _⟩ | ⟨_, rfl⟩)
        · omega
        · exact ⟨used, by omega, inside, rfl⟩
    · rw [if_neg last]
      constructor
      · rintro ⟨_, owned, rest⟩
        exact Or.inl ⟨used, by omega, rest⟩
      · rintro (⟨_, owned, rest⟩ | ⟨⟨_, same⟩, _⟩)
        · exact ⟨used, by omega, rest⟩
        · exact absurd same last
  · rw [if_neg here, if_neg here]
    simp [here]

section Writing

variable {i : Nat} {d₀ : Drive}

/-- The file is longer, in the same block or to its maximal size. -/
theorem Growing.longer {d : Drive} {file : Inode} {pos rest : Nat}
    (growing : Growing i d₀ d file pos (rest + 1)) (beyond : file.size ≤ (pos : Int))
    (small : file.size < 16777216)
    (same : (file.size.toNat + 1) % BLOCK_SIZE ≠ 0 ∨ file.size.toNat + 1 = 16777216) :
    Growing i d₀ d (file.setSize (file.size + 1)) (pos + 1) rest := by
  have sized := growing.proper.sized.1
  have size' : (file.setSize (file.size + 1)).size = file.size + 1 := size_succ ⟨sized, small⟩
  refine ⟨growing.table, growing.proper.setSize small,
    growing.exact.congr (fun _ => Iff.rfl)
      (holds_longer (Int.toNat_of_nonneg sized).symm (by omega) same),
    growing.room.imp_left fun enough => ?_⟩
  have block : file.size.toNat / BLOCK_SIZE ≤ (file.size.toNat + 1) / BLOCK_SIZE :=
    Nat.div_le_div_right (Nat.le_succ _)
  have next : (file.size + 1).toNat = file.size.toNat + 1 := by omega
  unfold EnoughBlocks at enough ⊢
  rw [size', next, Int.toNat_natCast]
  rw [Int.toNat_natCast] at enough
  by_cases inside : (pos : Int) ≤ file.size
  · have total : max (file.size.toNat + 1) (pos + 1 + rest) =
        max file.size.toNat (pos + (rest + 1)) := by omega
    rw [if_pos inside] at enough
    rw [if_pos (by omega), total]
    omega
  · rw [if_neg inside, ← Nat.add_assoc, Nat.add_right_comm] at enough
    rw [if_neg (by omega)]
    omega

/-- The file has another block. -/
theorem Growing.block {d : Drive} {file : Inode} {pos rest blk n : Nat} (live : d₀.Live i)
    (growing : Growing i d₀ d file pos (rest + 1)) (atEnd : file.size = (pos : Int))
    (small : pos + 1 < 16777216) (boundary : pos + 1 = (blk + 1) * BLOCK_SIZE)
    (below : n < BLOCK_LIST_SIZE) (available : d.blockFree n = true)
    (inside : blk + 1 < DATA_ENTRIES) :
    Growing i d₀ (d.markBlock n false)
      ((file.setSize (file.size + 1)).setData (blk + 1) n) (pos + 1) rest := by
  have size' : ((file.setSize (file.size + 1)).setData (blk + 1) n).size =
      ((pos + 1 : Nat) : Int) := by
    rw [Inode.size_setData, size_succ ⟨by omega, by omega⟩, atEnd]
    rfl
  have count := freeBlocks_markBlock below available
  refine ⟨growing.table.trans (.markBlock d n false),
    (growing.proper.setSize (by omega)).setData inside below, ?_, ?_⟩
  · exact growing.exact.take (p := (i, blk + 1)) (b := n) (not_used available) (used_markBlock below)
      (holds_block live atEnd small boundary below inside)
  · rcases growing.room with enough | ⟨full, _⟩
    · refine Or.inl ?_
      unfold EnoughBlocks at enough ⊢
      rw [atEnd, if_pos (Int.le_refl _), Int.toNat_natCast] at enough
      rw [size', if_pos (Int.le_refl _), Int.toNat_natCast]
      have next : (pos + 1) / BLOCK_SIZE = pos / BLOCK_SIZE + 1 := by
        unfold BLOCK_SIZE at boundary ⊢
        omega
      have total : max (pos + 1) (pos + 1 + rest) = max pos (pos + (rest + 1)) := by omega
      rw [total]
      omega
    · omega

/-- A file that grows over a boundary has a block more to come. -/
theorem div_lt_of_boundary {size reach : Nat} (boundary : (size + 1) % BLOCK_SIZE = 0)
    (smaller : size + 1 ≠ 16777216) (small : size < 16777216) (further : size < reach) :
    size / BLOCK_SIZE < min reach 16777215 / BLOCK_SIZE := by
  unfold BLOCK_SIZE at boundary ⊢
  omega

/-- **A step of the loop keeps the account.** -/
theorem Growing.grow {d d' : Drive} {file : Inode} {blk chr rest : Nat} {growth : Growth}
    (live : d₀.Live i) (growing : Growing i d₀ d file (chr + blk * BLOCK_SIZE) (rest + 1))
    (within : chr < BLOCK_SIZE) (inside : blk < DATA_ENTRIES)
    (step : GrowStep file blk (chr + 1) d growth d') :
    (∀ file', growth = .grown file' ∨ growth = .full file' →
      Growing i d₀ d' file' (chr + blk * BLOCK_SIZE + 1) rest) ∧
      (growth = .noSpace → SameTable d₀ d' ∧ Exact d'.Used d₀.Holds) := by
  have shift : chr + 1 + blk * BLOCK_SIZE = chr + blk * BLOCK_SIZE + 1 := by omega
  have sized := growing.proper.sized.1
  have limit : chr + blk * BLOCK_SIZE < 16777216 := by
    unfold BLOCK_SIZE at within ⊢
    unfold DATA_ENTRIES at inside
    omega
  have atEnd : ((chr + 1 + blk * BLOCK_SIZE : Nat) : Int) > file.size →
      file.size ≤ ((chr + blk * BLOCK_SIZE : Nat) : Int) ∧ file.size < 16777216 := by
    intro beyond
    omega
  have size' : ((chr + 1 + blk * BLOCK_SIZE : Nat) : Int) > file.size →
      (file.setSize (file.size + 1)).size = ((file.size.toNat + 1 : Nat) : Int) := by
    intro beyond
    rw [size_succ ⟨sized, (atEnd beyond).2⟩]
    omega
  have remainder : ((chr + 1 + blk * BLOCK_SIZE : Nat) : Int) > file.size →
      (file.setSize (file.size + 1)).size.tmod BLOCK_SIZE =
        (((file.size.toNat + 1) % BLOCK_SIZE : Nat) : Int) := by
    intro beyond
    rw [size' beyond]
    exact (Int.ofNat_tmod _ BLOCK_SIZE).symm
  cases step with
  | inside contained =>
    refine ⟨?_, nofun⟩
    rintro file' (⟨⟨⟩⟩ | ⟨⟨⟩⟩)
    refine ⟨growing.table, growing.proper, growing.exact, growing.room.imp_left fun enough => ?_⟩
    unfold EnoughBlocks at enough ⊢
    rw [if_pos (by omega), Int.toNat_natCast] at enough
    rw [if_pos (by omega), Int.toNat_natCast, Nat.add_assoc, Nat.add_comm 1 rest]
    exact enough
  | longer beyond same =>
    refine ⟨?_, nofun⟩
    rintro file' (⟨⟨⟩⟩ | ⟨⟨⟩⟩)
    rw [remainder beyond] at same
    exact growing.longer (atEnd beyond).1 (atEnd beyond).2 (Or.inl (by omega))
  | full beyond maximal =>
    refine ⟨?_, nofun⟩
    rintro file' (⟨⟨⟩⟩ | ⟨⟨⟩⟩)
    rw [size' beyond] at maximal
    exact growing.longer (atEnd beyond).1 (atEnd beyond).2 (Or.inr (by omega))
  | noSpace beyond boundary smaller taken =>
    refine ⟨?_, fun _ => ⟨growing.table, ?_⟩⟩
    · rintro file' (⟨⟨⟩⟩ | ⟨⟨⟩⟩)
    · rcases growing.room with enough | ⟨_, exact⟩
      · exfalso
        rw [remainder beyond] at boundary
        rw [size' beyond] at smaller
        obtain ⟨before, small⟩ := atEnd beyond
        have crossed := fun reach further => @div_lt_of_boundary file.size.toNat reach (by omega) (by omega)
          (by omega) further
        unfold EnoughBlocks at enough
        rw [freeBlocks_eq_zero.mpr taken, Int.toNat_natCast] at enough
        split at enough
        · exact absurd enough (Nat.not_le.mpr (crossed _ (by omega)))
        · exact absurd enough (Nat.not_le.mpr (crossed _ (by omega)))
      · exact exact
  | block n beyond boundary smaller below available inside' =>
    refine ⟨?_, nofun⟩
    rintro file' (⟨⟨⟩⟩ | ⟨⟨⟩⟩)
    rw [remainder beyond] at boundary
    rw [size' beyond] at smaller
    -- a boundary is grown over, so the file ends at the position
    have here : file.size = ((chr + blk * BLOCK_SIZE : Nat) : Int) := by
      rcases growing.room with enough | ⟨full, _⟩
      · by_contra apart
        obtain ⟨before, small⟩ := atEnd beyond
        unfold EnoughBlocks at enough
        rw [if_neg (by omega)] at enough
        exact absurd enough
          (Nat.not_le.mpr (div_lt_of_boundary (by omega) (by omega) (by omega) (by omega)))
      · have count := freeBlocks_markBlock below available
        omega
    refine growing.block live here (by omega) ?_ below available inside'
    unfold BLOCK_SIZE at *
    omega

/-- The end of a write: the last block and the inode. -/
theorem Growing.finish (kept : Kept d₀) (live : d₀.Live i) {d d₁ d' : Drive} {file : Inode}
    {blk pos rest : Nat} {diskbuf : Memory} {a b : Unit} (growing : Growing i d₀ d file pos rest)
    (flushed : flush file blk diskbuf d = some (a, d₁)) (put : writeInode file d₁ = some (b, d')) :
    Kept d' := by
  obtain ⟨_, n, _, _, rfl⟩ := flush_run growing.proper.inRange flushed
  rw [writeInode_run growing.proper.slot live.2.1] at put
  cases put
  have written := growing.putData n diskbuf
  exact kept.putInode written.table live written.proper written.exact

/-- **The loop of `sfs_write` keeps the account.** -/
theorem writeLoop_kept (kept : Kept d₀) (live : d₀.Live i) :
    ∀ (buf : List (BitVec 8)) {file : Inode} {blk chr : Nat} {diskbuf : Memory} {written : Nat}
      {d d' : Drive} {ret : Int}, Growing i d₀ d file (chr + blk * BLOCK_SIZE) buf.length →
      chr < BLOCK_SIZE → blk < DATA_ENTRIES →
      writeLoop buf file blk chr diskbuf written d = some (ret, d') → Kept d' := by
  intro buf
  induction buf with
  | nil =>
    intro file blk chr diskbuf written d d' ret growing within inside ran
    obtain ⟨_, d₁, flushed, ran₁⟩ := run_bind ran
    obtain ⟨_, d₂, put, done⟩ := run_bind ran₁
    cases done
    exact growing.finish kept live flushed put
  | cons byte rest ih =>
    intro file blk chr diskbuf written d d' ret growing within inside ran
    obtain ⟨growth, d₁, grew, ran₁⟩ := run_bind ran
    obtain ⟨grown, failed⟩ := growing.grow live within inside (growFile_step grew)
    cases growth with
    | noSpace =>
      cases ran₁
      obtain ⟨table, exact⟩ := failed rfl
      exact kept.of_sameTable table exact
    | full file' =>
      obtain ⟨_, d₂, flushed, ran₂⟩ := run_bind ran₁
      obtain ⟨_, d₃, put, done⟩ := run_bind ran₂
      cases done
      exact (grown file' (Or.inr rfl)).finish kept live flushed put
    | grown file' =>
      have growing' := grown file' (Or.inl rfl)
      dsimp only at ran₁
      split at ran₁
      · rename_i boundary
        obtain ⟨_, d₂, flushed, ran₂⟩ := run_bind ran₁
        obtain ⟨_, n, _, _, rfl⟩ := flush_run growing'.proper.inRange flushed
        obtain ⟨block, d₃, entry, ran₃⟩ := run_bind ran₂
        obtain ⟨_, inside', _, rfl⟩ := dataAt_run entry
        obtain ⟨next, d₄, loaded, ran₄⟩ := run_bind ran₃
        have same := block_read_keeps loaded
        subst same
        have position : chr + blk * BLOCK_SIZE + 1 = 0 + (blk + 1) * BLOCK_SIZE := by
          unfold BLOCK_SIZE at *
          omega
        have moved := growing'.putData n (Function.update diskbuf chr byte)
        rw [position] at moved
        exact ih moved (by decide) (by omega) ran₄
      · rename_i notBoundary
        have position : chr + blk * BLOCK_SIZE + 1 = chr + 1 + blk * BLOCK_SIZE := by omega
        rw [position] at growing'
        refine ih growing' ?_ inside ran₁
        unfold BLOCK_SIZE at *
        omega

end Writing

/-- An offset in the file is in one of its blocks. -/
theorem blkOf_of_le {offset : Nat} (small : offset ≤ 16777216) :
    blkOf offset = ((offset / BLOCK_SIZE : Nat) : Int) := by
  unfold blkOf
  rw [← Int.ofNat_tdiv, BitVec.toInt_ofInt]
  have below : offset / BLOCK_SIZE ≤ 1024 := Nat.div_le_div_right (c := BLOCK_SIZE) small
  generalize offset / BLOCK_SIZE = block at below ⊢
  exact Int.bmod_eq_of_le (by omega) (by omega)

/-- **A write in the file fits** where it has a block for each boundary. -/
theorem Fits.of_within {d : Drive} {file : Inode} {offset count : Nat} (within : (offset : Int) ≤ file.size)
    (bounded : file.size ≤ 16777216)
    (room : max file.size.toNat (offset + count) / BLOCK_SIZE ≤
      file.size.toNat / BLOCK_SIZE + freeBlocks d) : Fits d file count offset := by
  have block : blkOf offset = ((offset / BLOCK_SIZE : Nat) : Int) := blkOf_of_le (by omega)
  have start : startOf offset = (offset : Int) := by
    unfold startOf
    rw [block]
    have char : chrOf offset = ((offset % BLOCK_SIZE : Nat) : Int) := (Int.ofNat_tmod offset BLOCK_SIZE).symm
    have whole : offset / BLOCK_SIZE * BLOCK_SIZE + offset % BLOCK_SIZE = offset := Nat.div_add_mod' _ _
    rw [char]
    exact_mod_cast whole
  refine Or.inl ⟨?_, ?_⟩
  · have below : offset / BLOCK_SIZE ≤ file.size.toNat / BLOCK_SIZE := Nat.div_le_div_right (by omega)
    rw [block, tdiv_of_nonneg (by omega)]
    omega
  · unfold EnoughBlocks
    rw [start, if_pos within, Int.toNat_natCast]
    exact Nat.le_trans (Nat.div_le_div_right (Nat.min_le_left _ _)) room

/-- The gap is not filled where no block is free. -/
theorem fillGap_full {count : Nat} {blksOwned : Int} {file : Inode} {d : Drive}
    (full : freeBlocks d = 0) : fillGap (count + 1) blksOwned file d = some (none, d) := by
  have none_ : findNextOpenBlock d = -1 := by
    rcases findNextOpenBlock_cases d with ⟨n, below, _, available, _⟩ | ⟨found, _⟩
    · rw [freeBlocks_eq_zero.mp full n below] at available
      cases available
    · exact found
  unfold fillGap
  rw [look_run, none_, if_pos rfl]
  rfl

/-- **The gap of a write that fits**: there is none, or the write is refused. -/
theorem Fits.fillGap {d d' : Drive} {file : Inode} {count : Nat} {offset : Int} {filled : Option Inode}
    (fits : Fits d file count offset)
    (ran : fillGap (blkOf offset - (file.size.tdiv BLOCK_SIZE + 1)).toNat (file.size.tdiv BLOCK_SIZE + 1)
      file d = some (filled, d')) :
    d' = d ∧ (filled = none ∨ filled = some file) := by
  rcases fits with ⟨noGap, _⟩ | full
  · have none_ : (blkOf offset - (file.size.tdiv BLOCK_SIZE + 1)).toNat = 0 := by omega
    rw [none_] at ran
    cases ran
    exact ⟨rfl, Or.inr rfl⟩
  · cases gap : (blkOf offset - (file.size.tdiv BLOCK_SIZE + 1)).toNat with
    | zero =>
      rw [gap] at ran
      cases ran
      exact ⟨rfl, Or.inr rfl⟩
    | succ count =>
      rw [gap, fillGap_full full] at ran
      cases ran
      exact ⟨rfl, Or.inl rfl⟩

theorem Kept.write {d d' : Drive} (kept : Kept d) {path : Path} {buf : List (BitVec 8)}
    {offset ret : Int} {fh : BitVec 64}
    (sound : fh ≠ -1 → buf ≠ [] → strcmp path slash = false ∧
      ∀ i, inodeOf d path = some i → Fits d (readInode d i) buf.length offset)
    (step : WriteStep path buf offset fh d ret d') : Kept d' := by
  cases step with
  | nothing => exact kept
  | noSpace found _ handle some_ gap =>
    obtain ⟨same, _⟩ := ((sound handle some_).2 _ found).fillGap gap
    rw [same]
    exact kept
  | @written i file diskbuf d₁ _ _ found _ handle some_ gap lower upper start ran =>
    obtain ⟨proper, fits⟩ := sound handle some_
    obtain ⟨same, refused | whole⟩ := (fits i found).fillGap gap
    · cases refused
    cases whole
    subst same
    have live := kept.live proper found
    have position : ((chrOf offset).toNat + (blkOf offset).toNat * BLOCK_SIZE : Nat) = startOf offset := by
      unfold startOf
      rw [Int.natCast_add, Int.natCast_mul, Int.toNat_of_nonneg start, Int.toNat_of_nonneg lower]
      exact Int.add_comm _ _
    have below : (chrOf offset).toNat < BLOCK_SIZE := by
      have remainder : chrOf offset < BLOCK_SIZE := Int.tmod_lt_of_pos _ (by decide)
      omega
    refine writeLoop_kept kept live buf ⟨.refl d₁, kept.proper i live, ?_, ?_⟩ below (by omega) ran
    · rw [Function.update_eq_self]
      exact kept.exact
    · rw [position]
      exact (fits i found).imp And.right fun full => ⟨full, kept.exact⟩

/-- **Every step keeps the account.** -/
theorem Kept.step {d d' : Drive} (kept : Kept d) {access : Access} (sound : d.Sound access)
    (taken : d.exec access = some d') : Kept d' := by
  match access with
  | .call (.create path mode fh) =>
    obtain ⟨⟨⟨ret, fh'⟩, _⟩, ran, rfl⟩ := Option.map_eq_some_iff.mp taken
    cases (sfs_create_returns path mode fh d).of_run ran with
    | noInode => exact kept
    | noBlock i slot free used =>
      obtain ⟨n, below, available⟩ := sound ⟨i, slot, isInodeFree_eq_one.mpr free⟩
      rw [isBlockFree_eq_one, used n below] at available
      cases available
    | created i n slot free _ small available _ => exact kept.create path mode slot free small available
  | .call (.write path buf offset fh) =>
    obtain ⟨⟨ret, _⟩, ran, rfl⟩ := Option.map_eq_some_iff.mp taken
    exact kept.write sound (sfs_write_step ran)
  | .call (.unlink path) =>
    obtain ⟨⟨ret, _⟩, ran, rfl⟩ := Option.map_eq_some_iff.mp taken
    refine kept.unlink sound.1 sound.2 (sfs_unlink_step (fun i found => ?_) ran)
    have proper := kept.proper i (kept.live sound.1 found)
    exact ⟨proper.slot, proper.inRange⟩
  | .read path size offset =>
    obtain ⟨⟨result, _⟩, ran, rfl⟩ := Option.map_eq_some_iff.mp taken
    rw [sfs_read_keeps ran]
    exact kept

/-- **The block bitmap marks exactly the blocks of the files**, along every run whose steps keep the
account. -/
theorem blocks_accounted {d : Drive}
    (reached : Reach Drive.Fresh Drive.Sound (execStep Drive.exec) d) : d.Accounted :=
  (reached.invariant Kept (fun _ fresh => Kept.fresh fresh)
    fun _ _ _ kept sound taken => kept.step sound taken).accounted

/-- The file system of zeros. -/
def freshDrive : Drive :=
  let d := (Drive.mk zeroDisk []).write 0 (magicBlock zeroStack)
  let d := (d.write 0 (imapBlock zeroStack)).write 1 (bmapBlock zeroStack)
  (d.write 0 (rootBitBlock zeroStack)).write 3 (rootBlock zeroStack (zeroDisk 3))

theorem freshDrive_fresh : freshDrive.Fresh :=
  ⟨zeroStack, sfs_init_run (d := ⟨zeroDisk, []⟩) (by decide) zeroStack⟩

/-- The first file. -/
def createFirst : Access := .call (.create (lettersPath 0 (by decide)) 0 0)

theorem blocks_accounted_one_file : ∃ d, freshDrive.Sound createFirst ∧
    freshDrive.exec createFirst = some d ∧ d.Accounted := by
  have sound : freshDrive.Sound createFirst := fun _ => ⟨0, by decide, by decide +kernel⟩
  obtain ⟨result, d, ran, _⟩ := sfs_create_returns (lettersPath 0 (by decide)) 0 0 freshDrive
  have taken : freshDrive.exec createFirst = some d := Option.map_eq_some_iff.mpr ⟨_, ran, rfl⟩
  exact ⟨d, sound, taken, blocks_accounted (.next (.init freshDrive_fresh) sound taken)⟩

/-- Two files are created, and the second is unlinked. -/
def unlinkSecond : List Access :=
  [createFirst, .call (.create (lettersPath 1 (by decide)) 0 0),
    .call (.unlink (lettersPath 1 (by decide)))]

/-- The block of the first file is free. -/
def firstFreed (d : Drive) : Bool :=
  isBlockFree d 0 = 1 && isInodeFree d 1 = 0 && (readInode d 1).size = 0 && (readInode d 1).data 0 = 0

/-- **The unlinked file takes a block of another file along.** -/
theorem blocks_not_accounted :
    ∃ d, Reach Drive.Fresh anyStep (execStep Drive.exec) d ∧ ¬ d.Accounted := by
  have ran : (execAll anyStep Drive.exec freshDrive unlinkSecond).any firstFreed = true := by
    decide +kernel
  obtain ⟨d, reached, freed⟩ := Reach.exists_of_execAll (.init freshDrive_fresh) unlinkSecond
    firstFreed ran
  refine ⟨d, reached, fun accounted => ?_⟩
  unfold firstFreed at freed
  simp only [Bool.and_eq_true, decide_eq_true_eq] at freed
  obtain ⟨⟨⟨free, used⟩, size⟩, entry⟩ := freed
  have live : d.Live 1 := ⟨by decide, by decide, isInodeFree_eq_zero.mp used⟩
  have held : d.Holds (1, 0) 0 := ⟨live, by rw [size]; decide, by decide, entry⟩
  have taken := (accounted.marked 0 (by decide)).mpr
    ⟨(1, 0), held, fun q held' => accounted.distinct q (1, 0) 0 held' held⟩
  rw [free] at taken
  exact absurd taken (by decide)

end OS2017.Files
