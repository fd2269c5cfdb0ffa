/-
**What the parts of the calls do.**

The searches of the bitmaps and of the inode table find the first item there is, and a loop of
`sfs_write` takes its steps by `GrowStep`. The proofs about whole calls go by these.
-/

import OS2017.Files.Metadata

namespace OS2017.Files

open OS2017.Bytes

/-! ### Searches -/

/-- **`findNextOpenBlock`**: the first free block, or none is free. -/
theorem findNextOpenBlock_cases (d : Drive) :
    (∃ n < BLOCK_LIST_SIZE, findNextOpenBlock d = (n : Int) ∧ d.blockFree n = true ∧
      ∀ m < n, d.blockFree m = false) ∨
      (findNextOpenBlock d = -1 ∧ ∀ n < BLOCK_LIST_SIZE, d.blockFree n = false) := by
  unfold findNextOpenBlock
  cases found : (List.range BLOCK_LIST_SIZE).find? fun i => isBlockFree d i = 1 with
  | some n =>
    obtain ⟨free, member, first⟩ := List.find?_range_eq_some.mp found
    refine Or.inl ⟨n, List.mem_range.mp member, rfl, ?_, fun m below => ?_⟩
    · exact isBlockFree_eq_one.mp (of_decide_eq_true free)
    · have taken := first m below
      rw [Bool.not_eq_true', decide_eq_false_iff_not, isBlockFree_eq_one] at taken
      exact Bool.eq_false_iff.mpr taken
  | none =>
    refine Or.inr ⟨rfl, fun n small => ?_⟩
    have taken := List.find?_eq_none.mp found n (List.mem_range.mpr small)
    rw [decide_eq_true_eq, isBlockFree_eq_one] at taken
    exact Bool.eq_false_iff.mpr taken

theorem freeInode_some {d : Drive} {i : Nat} (found : freeInode d = some i) :
    i < INODE_LIST_SIZE ∧ d.inodeFree i = true ∧ ∀ j < i, d.inodeFree j = false := by
  unfold freeInode at found
  obtain ⟨free, member, first⟩ := List.find?_range_eq_some.mp found
  refine ⟨List.mem_range.mp member, isInodeFree_eq_one.mp (of_decide_eq_true free), fun j below => ?_⟩
  have taken := first j below
  rw [Bool.not_eq_true', decide_eq_false_iff_not, isInodeFree_eq_one] at taken
  exact Bool.eq_false_iff.mpr taken

theorem freeInode_none {d : Drive} (found : freeInode d = none) :
    ∀ i < INODE_LIST_SIZE, d.inodeFree i = false := by
  intro i small
  unfold freeInode at found
  have used := List.find?_eq_none.mp found i (List.mem_range.mpr small)
  rw [decide_eq_true_eq, isInodeFree_eq_one] at used
  exact Bool.eq_false_iff.mpr used

theorem inodeOf_some {d : Drive} {path : Path} {i : Nat} (found : inodeOf d path = some i) :
    i < INODE_LIST_SIZE ∧ d.inodeFree i = false ∧ strcmp path (readInode d i).path = true := by
  unfold inodeOf at found
  have matching := List.find?_some found
  rw [decide_eq_true_eq] at matching
  have member := List.mem_of_find?_eq_some found
  exact ⟨List.mem_range.mp member, isInodeFree_eq_zero.mp matching.1, matching.2⟩

theorem inodeOf_none {d : Drive} {path : Path} (found : inodeOf d path = none) {i : Nat}
    (small : i < INODE_LIST_SIZE) (used : d.inodeFree i = false) :
    strcmp path (readInode d i).path = false := by
  unfold inodeOf at found
  have differs := List.find?_eq_none.mp found i (List.mem_range.mpr small)
  rw [decide_eq_true_eq, isInodeFree_eq_zero] at differs
  exact Bool.eq_false_iff.mpr fun same => differs ⟨used, same⟩

theorem found_file {d : Drive} {path : Path} {i : Nat} (found : inodeOf d path = some i) :
    checkiNodePathName d path = readInode d i := by
  unfold checkiNodePathName
  rw [found]

theorem missing_file {d : Drive} {path : Path} (found : inodeOf d path = none) :
    checkiNodePathName d path = badresult := by
  unfold checkiNodePathName
  rw [found]

theorem badresult_id : badresult.id = -1 := by
  unfold badresult
  rw [Inode.id_setId]
  decide

/-! ### The entries of a file -/

theorem dataAt_run {file : Inode} {k block : Int} {d d' : Drive}
    (ran : dataAt file k d = some (block, d')) :
    0 ≤ k ∧ k < DATA_ENTRIES ∧ block = file.data k.toNat ∧ d' = d := by
  unfold dataAt at ran
  split at ran
  · rename_i inside
    cases ran
    exact ⟨inside.1, inside.2, rfl, rfl⟩
  · cases ran

theorem setDataAt_run {file file' : Inode} {k value : Int} {d d' : Drive}
    (ran : setDataAt file k value d = some (file', d')) :
    0 ≤ k ∧ k < DATA_ENTRIES ∧ file' = file.setData k.toNat value ∧ d' = d := by
  unfold setDataAt at ran
  split at ran
  · rename_i inside
    cases ran
    exact ⟨inside.1, inside.2, rfl, rfl⟩
  · cases ran

/-- The entries of `data` are data blocks. -/
def InRange (file : Inode) : Prop :=
  ∀ k < DATA_ENTRIES, ∃ n < BLOCK_LIST_SIZE, file.data k = (n : Int)

theorem toInt_ofInt_natCast {n : Nat} (small : n < BLOCK_LIST_SIZE) :
    (BitVec.ofInt 32 (n : Int)).toInt = n := by
  unfold BLOCK_LIST_SIZE at small
  rw [BitVec.toInt_ofInt]
  exact Int.bmod_eq_of_le (by omega) (by omega)

theorem InRange.setData {file : Inode} (inRange : InRange file) (k : Nat) {n : Nat}
    (small : n < BLOCK_LIST_SIZE) : InRange (file.setData k n) := by
  intro j inside
  rw [Inode.data_setData]
  by_cases here : j = k
  · exact ⟨n, small, by rw [if_pos here, toInt_ofInt_natCast small]⟩
  · rw [if_neg here]
    exact inRange j inside

theorem InRange.setSize {file : Inode} (inRange : InRange file) (value : Int) :
    InRange (file.setSize value) := by
  intro j inside
  rw [Inode.data_setSize]
  exact inRange j inside

theorem InRange.setHardlinks {file : Inode} (inRange : InRange file) (value : Int) :
    InRange (file.setHardlinks value) := by
  intro j inside
  rw [Inode.data_setHardlinks _ _ inside]
  exact inRange j inside

theorem InRange.record {file : Inode} (inRange : InRange file) : InRange file.record := by
  intro j inside
  rw [Inode.data_record _ inside]
  exact inRange j inside

/-- **A block of the file is written.** -/
theorem flush_run {file : Inode} (inRange : InRange file) {blk : Nat} {diskbuf : Memory}
    {d d' : Drive} {a : Unit} (ran : flush file blk diskbuf d = some (a, d')) :
    blk < DATA_ENTRIES ∧ ∃ n < BLOCK_LIST_SIZE, file.data blk = (n : Int) ∧
      d' = d.putData n diskbuf := by
  obtain ⟨block, d₁, entry, wrote⟩ := run_bind ran
  obtain ⟨_, inside, rfl, rfl⟩ := dataAt_run entry
  have inside' : blk < DATA_ENTRIES := by omega
  obtain ⟨n, small, same⟩ := inRange blk inside'
  refine ⟨inside', n, small, same, ?_⟩
  have start : (D_BLOCK_START : Int) + file.data (blk : Int).toNat = (D_BLOCK_START + n : Nat) := by
    rw [Int.toNat_natCast, same]
    omega
  rw [start, block_write_run (by unfold BLOCK_LIST_SIZE at small; unfold D_BLOCK_START; omega)]
    at wrote
  cases wrote
  rfl

theorem block_read_keeps {n : Int} {buf : Memory} {d d' : Drive}
    (ran : block_read n d = some (buf, d')) : d' = d := by
  unfold block_read at ran
  split at ran
  · cases ran
    rfl
  · split at ran
    · cases ran
      rfl
    · cases ran

/-! ### Growth -/

/-- **What the growth by a byte can do**, with the byte before the offset `chr` of the block `blk`. -/
inductive GrowStep (file : Inode) (blk chr : Nat) (d : Drive) : Growth → Drive → Prop
  /-- the byte is in the file already -/
  | inside : ((chr + blk * BLOCK_SIZE : Nat) : Int) ≤ file.size → GrowStep file blk chr d (.grown file) d
  /-- the last block has room -/
  | longer : ((chr + blk * BLOCK_SIZE : Nat) : Int) > file.size →
      (file.setSize (file.size + 1)).size.tmod BLOCK_SIZE ≠ 0 →
      GrowStep file blk chr d (.grown (file.setSize (file.size + 1))) d
  | full : ((chr + blk * BLOCK_SIZE : Nat) : Int) > file.size →
      (file.setSize (file.size + 1)).size = 16777216 →
      GrowStep file blk chr d (.full (file.setSize (file.size + 1))) d
  | noSpace : ((chr + blk * BLOCK_SIZE : Nat) : Int) > file.size →
      (file.setSize (file.size + 1)).size.tmod BLOCK_SIZE = 0 →
      (file.setSize (file.size + 1)).size ≠ 16777216 →
      (∀ n < BLOCK_LIST_SIZE, d.blockFree n = false) → GrowStep file blk chr d .noSpace d
  /-- the file gets another block -/
  | block (n : Nat) : ((chr + blk * BLOCK_SIZE : Nat) : Int) > file.size →
      (file.setSize (file.size + 1)).size.tmod BLOCK_SIZE = 0 →
      (file.setSize (file.size + 1)).size ≠ 16777216 → n < BLOCK_LIST_SIZE → d.blockFree n = true →
      blk + 1 < DATA_ENTRIES →
      GrowStep file blk chr d (.grown ((file.setSize (file.size + 1)).setData (blk + 1) n))
        (d.markBlock n false)

theorem growFile_step {file : Inode} {blk chr : Nat} {d d' : Drive} {growth : Growth}
    (ran : growFile file blk chr d = some (growth, d')) : GrowStep file blk chr d growth d' := by
  unfold growFile at ran
  split at ran
  · rename_i beyond
    dsimp only at ran
    split at ran
    · rename_i boundary
      split at ran
      · rename_i maximal
        cases ran
        exact .full beyond maximal
      · rename_i smaller
        rw [look_run] at ran
        rcases findNextOpenBlock_cases d with ⟨n, small, found, free, _⟩ | ⟨found, taken⟩
        · rw [found, if_neg (by omega)] at ran
          obtain ⟨file', d₁, assigned, marked⟩ := run_bind ran
          obtain ⟨_, inside, rfl, rfl⟩ := setDataAt_run assigned
          rw [then_run (setBlock_run (by unfold BLOCK_LIST_SIZE at small; omega) 0 _)] at marked
          cases marked
          exact .block n beyond boundary smaller small free (by omega)
        · rw [found, if_pos rfl] at ran
          cases ran
          exact .noSpace beyond boundary smaller taken
    · rename_i within
      cases ran
      exact .longer beyond within
  · rename_i notBeyond
    cases ran
    exact .inside (by omega)

/-! ### The inode table -/

/-- **The inode table is as it was.** -/
structure SameTable (d d' : Drive) : Prop where
  inodeFree : ∀ k, d'.inodeFree k = d.inodeFree k
  readInode : ∀ k < INODE_LIST_SIZE, readInode d' k = readInode d k

theorem SameTable.refl (d : Drive) : SameTable d d := ⟨fun _ => rfl, fun _ _ => rfl⟩

theorem SameTable.trans {d d' d'' : Drive} (first : SameTable d d') (second : SameTable d' d'') :
    SameTable d d'' :=
  ⟨fun k => (second.inodeFree k).trans (first.inodeFree k),
    fun k small => (second.readInode k small).trans (first.readInode k small)⟩

theorem SameTable.markBlock (d : Drive) (n : Nat) (free : Bool) : SameTable d (d.markBlock n free) :=
  ⟨fun k => inodeFree_markBlock d n k free, fun k _ => readInode_markBlock d n k free⟩

theorem SameTable.putData (d : Drive) (n : Nat) (buf : Memory) : SameTable d (d.putData n buf) :=
  ⟨fun k => inodeFree_putData d n k buf, fun _ small => readInode_putData d n buf small⟩

/-- **The blocks of the entries are marked free**, and nothing else changes. -/
structure Released (file : Inode) (entries : List Nat) (d d' : Drive) : Prop where
  table : SameTable d d'
  inside : ∀ k ∈ entries, k < DATA_ENTRIES
  blockFree : ∀ n, d'.blockFree n = true ↔
    d.blockFree n = true ∨ ∃ k ∈ entries, file.data k = (n : Int)

/-- One more block. -/
theorem Released.cons {file : Inode} {k n : Nat} {rest : List Nat} {d d' : Drive}
    (inside : k < DATA_ENTRIES) (same : file.data k = (n : Int))
    (released : Released file rest (d.markBlock n true) d') : Released file (k :: rest) d d' := by
  refine ⟨(SameTable.markBlock d n _).trans released.table, ?_, fun j => ?_⟩
  · intro j member
    rcases List.mem_cons.mp member with rfl | member'
    · exact inside
    · exact released.inside j member'
  · rw [released.blockFree, blockFree_markBlock]
    by_cases here : j = n
    · subst here
      simp [same]
    · have other : ¬ (n : Int) = j := by omega
      simp [here, same, other]

theorem releaseBlocks_run {file : Inode} (inRange : InRange file) :
    ∀ (entries : List Nat) {d d' : Drive} {a : Unit},
      releaseBlocks file entries d = some (a, d') → Released file entries d d' := by
  intro entries
  induction entries with
  | nil =>
    intro d d' a ran
    cases ran
    exact ⟨.refl d, fun k member => absurd member List.not_mem_nil, fun n => by simp⟩
  | cons k rest ih =>
    intro d d' a ran
    obtain ⟨block, d₁, entry, ran'⟩ := run_bind ran
    obtain ⟨_, inside, rfl, rfl⟩ := dataAt_run entry
    have inside' : k < DATA_ENTRIES := by omega
    obtain ⟨n, small, same⟩ := inRange k inside'
    rw [Int.toNat_natCast, same,
      then_run (setBlock_run (by unfold BLOCK_LIST_SIZE at small; omega) 1 _)] at ran'
    exact (ih ran').cons inside' same

/-! ### `sfs_create` and `sfs_unlink` -/

/-- The inode of a new file. -/
def createdInode (d : Drive) (i : Nat) (path : Path) (mode : BitVec 32) (n : Nat) : Inode :=
  (newInode (readInode d i) i path mode).setData 0 n

theorem createdInode_id (d : Drive) {i : Nat} (path : Path) (mode : BitVec 32) (n : Nat)
    (small : i < INODE_LIST_SIZE) : (createdInode d i path mode n).id = i := by
  unfold INODE_LIST_SIZE at small
  unfold createdInode newInode
  simp only [Inode.id_setData, Inode.id_setPath, Inode.id_setHardlinks, Inode.id_setMode,
    Inode.id_setSize, Inode.id_setId]
  rw [BitVec.toInt_eq_toNat_of_lt] <;> rw [BitVec.toNat_ofNat] <;> omega

section Created

variable {d : Drive} {path : Path} {i n : Nat} {mode : BitVec 32}

/-- The disk with the new file. -/
def Drive.created (d : Drive) (i : Nat) (path : Path) (mode : BitVec 32) (n : Nat) : Drive :=
  ((d.markInode i false).markBlock n false).putInode i (createdInode d i path mode n)

theorem created_readInode (j : Nat) : readInode (d.created i path mode n) j =
    if j = i then (createdInode d i path mode n).record else readInode d j := by
  unfold Drive.created
  rw [readInode_putInode, readInode_markBlock, readInode_markInode]

theorem created_inodeFree (j : Nat) :
    (d.created i path mode n).inodeFree j = if j = i then false else d.inodeFree j := by
  unfold Drive.created
  rw [inodeFree_putInode, inodeFree_markBlock, inodeFree_markInode]

theorem created_blockFree (m : Nat) :
    (d.created i path mode n).blockFree m = if m = n then false else d.blockFree m := by
  unfold Drive.created
  rw [blockFree_putInode, blockFree_markBlock, blockFree_markInode]

end Created

/-- **What `sfs_create` can do.** -/
inductive CreateStep (path : Path) (mode : BitVec 32) (d : Drive) : Int → Drive → Prop
  | noInode : (∀ i < INODE_LIST_SIZE, d.inodeFree i = false) → CreateStep path mode d 0 d
  | noBlock (i : Nat) : i < INODE_LIST_SIZE → d.inodeFree i = true →
      (∀ n < BLOCK_LIST_SIZE, d.blockFree n = false) →
      CreateStep path mode d (-1) (d.markInode i false)
  /-- the first free inode gets the first free block -/
  | created (i n : Nat) : i < INODE_LIST_SIZE → d.inodeFree i = true →
      (∀ j < i, d.inodeFree j = false) → n < BLOCK_LIST_SIZE → d.blockFree n = true →
      (∀ m < n, d.blockFree m = false) → CreateStep path mode d 0
        (((d.markInode i false).markBlock n false).putInode i (createdInode d i path mode n))

theorem sfs_create_returns (path : Path) (mode : BitVec 32) (fh : BitVec 64) (d : Drive) :
    Returns (sfs_create path mode fh) d fun result d' => CreateStep path mode d result.1 d' := by
  unfold sfs_create
  refine Returns.look_bind ?_
  cases found : freeInode d with
  | none => exact Returns.pure (.noInode (freeInode_none found))
  | some i =>
    obtain ⟨small, free, first⟩ := freeInode_some found
    refine Returns.bind ⟨(), _, setInode_run small 0 d, Returns.look_bind (Returns.look_bind ?_)⟩
    rw [readInode_markInode]
    rcases findNextOpenBlock_cases (d.markInode i ((0 : Int) == 1)) with
      ⟨n, below, next, open_, least⟩ | ⟨next, taken⟩
    · have entry : ((newInode (readInode d i) i path mode).setData 0 n).data 0 = (n : Int) := by
        rw [Inode.data_setData, if_pos rfl, toInt_ofInt_natCast below]
      have slot : ((newInode (readInode d i) i path mode).setData 0 n).id = i :=
        createdInode_id d path mode n small
      rw [next]
      dsimp only
      rw [entry, if_neg (by omega)]
      refine Returns.bind ⟨(), _, setBlock_run (by unfold BLOCK_LIST_SIZE at below; omega) 0 _, ?_⟩
      refine Returns.bind ⟨(), _, writeInode_run slot small _, Returns.pure ?_⟩
      simp only [blockFree_markInode] at open_ least
      exact .created i n small free first below open_ least
    · have entry : ((newInode (readInode d i) i path mode).setData 0 (-1)).data 0 = -1 := by
        rw [Inode.data_setData, if_pos rfl]
        decide
      rw [next]
      dsimp only
      rw [if_pos entry]
      simp only [blockFree_markInode] at taken
      exact Returns.pure (.noBlock i small free taken)

/-- **What `sfs_unlink` can do**, where the entries of the file are in range. -/
inductive UnlinkStep (path : Path) (d : Drive) : Int → Drive → Prop
  | missing : (checkiNodePathName d path).id = -1 → UnlinkStep path d (-1) d
  /-- the blocks stay, there are more links -/
  | linked (i : Nat) : inodeOf d path = some i → (readInode d i).id ≠ -1 →
      ¬ ((readInode d i).setHardlinks ((readInode d i).hardlinks - 2)).hardlinks < 1 →
      UnlinkStep path d 0 (d.markInode i true)
  | removed (i : Nat) (d₁ : Drive) : inodeOf d path = some i → (readInode d i).id ≠ -1 →
      Released (readInode d i) (List.range ((readInode d i).size.tdiv BLOCK_SIZE + 2).toNat) d d₁ →
      UnlinkStep path d 0 (d₁.markInode i true)

theorem sfs_unlink_step {path : Path} {d d' : Drive} {ret : Int}
    (sound : ∀ i, inodeOf d path = some i → (readInode d i).id = i ∧ InRange (readInode d i))
    (ran : sfs_unlink path d = some (ret, d')) : UnlinkStep path d ret d' := by
  unfold sfs_unlink at ran
  rw [look_run] at ran
  by_cases missing : (checkiNodePathName d path).id = -1
  · rw [if_pos missing] at ran
    cases ran
    exact .missing missing
  · rw [if_neg missing] at ran
    cases found : inodeOf d path with
    | none =>
      rw [missing_file found] at missing
      exact absurd badresult_id missing
    | some i =>
      have file := found_file found
      obtain ⟨small, used, _⟩ := inodeOf_some found
      obtain ⟨slot, inRange⟩ := sound i found
      rw [file] at ran missing
      rw [Inode.id_setHardlinks, slot, Inode.size_setHardlinks] at ran
      split at ran
      · obtain ⟨_, d₁, freed, ran'⟩ := run_bind ran
        rw [then_run (setInode_run small 1 d₁)] at ran'
        cases ran'
        have released := releaseBlocks_run (inRange.setHardlinks _) _ freed
        refine .removed i d₁ found missing ⟨released.table, released.inside, fun n => ?_⟩
        rw [released.blockFree]
        refine or_congr_right (exists_congr fun k => and_congr_right fun member => ?_)
        rw [Inode.data_setHardlinks _ _ (released.inside k member)]
      · rename_i linked
        rw [then_run (setInode_run small 1 d)] at ran
        cases ran
        exact .linked i found missing linked

/-! ### `sfs_write` -/

/-- **What `sfs_write` can do**: nothing, or fail in the gap, or run its loop. -/
inductive WriteStep (path : Path) (buf : List (BitVec 8)) (offset : Int) (fh : BitVec 64)
    (d : Drive) : Int → Drive → Prop
  | nothing {ret : Int} : WriteStep path buf offset fh d ret d
  | noSpace {i : Nat} {d' : Drive} : inodeOf d path = some i → (readInode d i).id ≠ -1 →
      fh ≠ -1 → buf ≠ [] →
      fillGap (blkOf offset - ((readInode d i).size.tdiv BLOCK_SIZE + 1)).toNat
        ((readInode d i).size.tdiv BLOCK_SIZE + 1) (readInode d i) d = some (none, d') →
      WriteStep path buf offset fh d (-1) d'
  | written {i : Nat} {file : Inode} {diskbuf : Memory} {d₁ d' : Drive} {ret : Int} :
      inodeOf d path = some i → (readInode d i).id ≠ -1 → fh ≠ -1 → buf ≠ [] →
      fillGap (blkOf offset - ((readInode d i).size.tdiv BLOCK_SIZE + 1)).toNat
        ((readInode d i).size.tdiv BLOCK_SIZE + 1) (readInode d i) d = some (some file, d₁) →
      0 ≤ blkOf offset → blkOf offset < DATA_ENTRIES → 0 ≤ chrOf offset →
      writeLoop buf file (blkOf offset).toNat (chrOf offset).toNat diskbuf 0 d₁ = some (ret, d') →
      WriteStep path buf offset fh d ret d'

theorem sfs_write_step {path : Path} {buf : List (BitVec 8)} {offset : Int} {fh : BitVec 64}
    {d d' : Drive} {ret : Int} (ran : sfs_write path buf offset fh d = some (ret, d')) :
    WriteStep path buf offset fh d ret d' := by
  unfold sfs_write at ran
  rw [look_run] at ran
  by_cases missing : (checkiNodePathName d path).id = -1
  · rw [if_pos missing] at ran
    cases ran
    exact .nothing
  rw [if_neg missing] at ran
  split at ran
  · cases ran
    exact .nothing
  rename_i handle
  split at ran
  · cases ran
    exact .nothing
  rename_i some_
  cases found : inodeOf d path with
  | none =>
    rw [missing_file found] at missing
    exact absurd badresult_id missing
  | some i =>
    have file := found_file found
    rw [file] at ran missing
    obtain ⟨filled, d₁, gap, ran₁⟩ := run_bind ran
    cases filled with
    | none =>
      cases ran₁
      exact .noSpace found missing handle some_ gap
    | some file₁ =>
      obtain ⟨block, d₂, entry, ran₂⟩ := run_bind ran₁
      obtain ⟨lower, upper, _, rfl⟩ := dataAt_run entry
      obtain ⟨diskbuf, d₃, loaded, ran₃⟩ := run_bind ran₂
      have same := block_read_keeps loaded
      subst same
      split at ran₃
      · cases ran₃
      · rename_i start
        exact .written found missing handle some_ gap lower upper (by omega) ran₃

end OS2017.Files
