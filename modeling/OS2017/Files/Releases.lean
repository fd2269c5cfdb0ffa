/-
**Files come and go.**

`sfs_unlink` marks free the blocks of a file and one entry more: it releases exactly the file where that
entry is no block of another one (`unlink_releases_iff`). `sfs_create` gives a new file its inode and its
block, and says so; but it returns the same value where it finds no free inode (`create_truthful_iff`).

The path of the new file is copied to 256 bytes, and `sfs_readdir` copies 255 of them, from the second
on. A name of 255 bytes, the longest there is, fills both arrays without a terminator: names come back
up to 254 bytes (`name_round_trips_iff`).
-/

import OS2017.Files.Splicing

namespace OS2017.Files

open OS2017.Bytes OS2017.Ledger

/-! ### `sfs_unlink` -/

/-- **The bit of a block is set**, where there is one in the block of the bitmap. -/
theorem setBlock_some {v setting : Int} {d d' : Drive} {a : Unit}
    (ran : setBlock v setting d = some (a, d')) : ∃ n : Nat, n < 8 * BLOCK_SIZE ∧ v = (n : Int) := by
  unfold setBlock at ran
  obtain ⟨buf, d₁, _, ran₁⟩ := run_bind ran
  dsimp only at ran₁
  split at ran₁
  · rename_i inside
    obtain ⟨lower, upper, shift⟩ := inside
    have whole := Int.mul_tdiv_add_tmod v 8
    have low := Int.tmod_lt_of_pos v (show (0 : Int) < 8 by decide)
    refine ⟨v.toNat, ?_, ?_⟩
    · unfold BLOCK_SIZE at *
      omega
    · omega
  · cases ran₁

/-- The entries of a loop that has come to its end. -/
theorem releaseBlocks_entries {file : Inode} : ∀ (entries : List Nat) {d d' : Drive} {a : Unit},
    releaseBlocks file entries d = some (a, d') →
    ∀ k ∈ entries, k < DATA_ENTRIES ∧ ∃ n : Nat, n < 8 * BLOCK_SIZE ∧ file.data k = (n : Int) := by
  intro entries
  induction entries with
  | nil => exact fun _ k member => absurd member List.not_mem_nil
  | cons k rest ih =>
    intro d d' a ran j member
    obtain ⟨block, d₁, entry, ran₁⟩ := run_bind ran
    obtain ⟨_, inside, rfl, _⟩ := dataAt_run entry
    obtain ⟨_, d₂, set, ran₂⟩ := run_bind ran₁
    rcases List.mem_cons.mp member with rfl | member'
    · obtain ⟨n, small, same⟩ := setBlock_some set
      exact ⟨by omega, n, small, same⟩
    · exact ih ran₂ j member'

/-- **The loop releases the blocks of its entries**, where they are in the bitmap. -/
theorem releaseBlocks_returns {file : Inode} : ∀ (entries : List Nat) (d : Drive),
    (∀ k ∈ entries, k < DATA_ENTRIES ∧ ∃ n : Nat, n < 8 * BLOCK_SIZE ∧ file.data k = (n : Int)) →
    Returns (releaseBlocks file entries) d fun _ d' => Released file entries d d' ∧ d'.content = d.content := by
  intro entries
  induction entries with
  | nil =>
    intro d _
    exact Returns.pure ⟨⟨.refl d, fun k member => absurd member List.not_mem_nil, fun n => by simp⟩, rfl⟩
  | cons k rest ih =>
    intro d numbered
    obtain ⟨inside, n, small, same⟩ := numbered k List.mem_cons_self
    have set := setBlock_run (n := n) (by unfold BLOCK_SIZE at small; omega) 1 d
    obtain ⟨a, d', ran, released, content⟩ := ih (d.markBlock n true) fun j member =>
      numbered j (List.mem_cons_of_mem _ member)
    refine ⟨a, d', ?_, released.cons inside same, content.trans (content_markBlock d n _)⟩
    unfold releaseBlocks
    rw [dataAt_bind inside, same, then_run set]
    exact ran

section Unlink

variable {d : Drive} {path : Path} {i : Nat}

/-- **Exactly one file is released**: its inode and its blocks are free, and nothing else has changed. -/
structure ReleasesOne (d d' : Drive) (i : Nat) : Prop where
  freed : d'.inodeFree i = true
  blocks : ∀ n < BLOCK_LIST_SIZE, d'.blockFree n = true ↔ d.blockFree n = true ∨ ∃ k, d.Holds (i, k) n
  inodes : ∀ k < INODE_LIST_SIZE, k ≠ i → d'.inodeFree k = d.inodeFree k ∧ readInode d' k = readInode d k
  contents : ∀ j, d.Live j → j ≠ i → ∀ p, byteOf d' (readInode d' j) p = byteOf d (readInode d j) p

/-- `sfs_unlink` returns 0, and has released the file. -/
def UnlinksOne (d : Drive) (path : Path) (i : Nat) : Prop :=
  ∃ d', sfs_unlink path d = some (0, d') ∧ ReleasesOne d d' i

/-- **A file that is released alone**: there is no link beside the two that are taken away, and the entry
behind its blocks is there and marks nothing free that is in use. -/
structure Releasable (d : Drive) (file : Inode) : Prop where
  unlinked : (BitVec.ofInt 32 (file.hardlinks - 2)).toInt < 1
  inside : file.size.toNat / BLOCK_SIZE + 1 < DATA_ENTRIES
  extra : ∃ n : Nat, n < 8 * BLOCK_SIZE ∧ file.data (file.size.toNat / BLOCK_SIZE + 1) = (n : Int) ∧
    (n < BLOCK_LIST_SIZE → d.blockFree n = true ∨
      ∃ k ≤ file.size.toNat / BLOCK_SIZE, file.data k = (n : Int))

/-- **`sfs_unlink` of a file.** -/
theorem sfs_unlink_eq (finds : d.Finds path i) (known : (readInode d i).id ≠ -1)
    (sized : 0 ≤ (readInode d i).size) : sfs_unlink path d =
      if (BitVec.ofInt 32 ((readInode d i).hardlinks - 2)).toInt < 1 then
        (releaseBlocks ((readInode d i).setHardlinks ((readInode d i).hardlinks - 2))
          (List.range ((readInode d i).size.toNat / BLOCK_SIZE + 2)) >>= fun _ =>
          setInode (readInode d i).id 1 >>= fun _ => pure 0) d
      else (setInode (readInode d i).id 1 >>= fun _ => pure 0) d := by
  have count : ((readInode d i).size.tdiv BLOCK_SIZE + 2).toNat =
      (readInode d i).size.toNat / BLOCK_SIZE + 2 := by
    rw [tdiv_of_nonneg sized]
    exact Int.toNat_natCast _
  unfold sfs_unlink
  rw [look_run, finds.file, if_neg known, Inode.hardlinks_setHardlinks, Inode.size_setHardlinks,
    Inode.id_setHardlinks, count]
  split <;> rfl

theorem released_of_setHardlinks {file : Inode} {value : Int} {entries : List Nat} {d' : Drive}
    (released : Released (file.setHardlinks value) entries d d') : Released file entries d d' := by
  refine ⟨released.table, released.inside, fun n => ?_⟩
  rw [released.blockFree]
  refine or_congr_right (exists_congr fun k => and_congr_right fun member => ?_)
  rw [Inode.data_setHardlinks _ _ (released.inside k member)]

/-- **When `sfs_unlink` releases exactly one file.** -/
theorem unlink_releases_iff (accounts : d.Accounts) (finds : d.Finds path i) :
    UnlinksOne d path i ↔ Releasable d (readInode d i) := by
  have live := finds.live
  have sized := accounts.sized i live
  have slot := accounts.slots i live
  have holds := holds_iff live sized
  have run := sfs_unlink_eq finds (accounts.id_ne live) sized
  unfold UnlinksOne
  rw [run, slot]
  constructor
  · rintro ⟨d', ran, releases⟩
    by_cases unlinked : (BitVec.ofInt 32 ((readInode d i).hardlinks - 2)).toInt < 1
    · rw [if_pos unlinked] at ran
      obtain ⟨_, d₁, loop, ran₁⟩ := run_bind ran
      rw [then_run (setInode_run live.2.1 1 d₁)] at ran₁
      cases ran₁
      have entries := releaseBlocks_entries _ loop
      obtain ⟨inside, n, small, entry⟩ := entries ((readInode d i).size.toNat / BLOCK_SIZE + 1)
        (List.mem_range.mpr (Nat.lt_succ_self _))
      have released := released_of_setHardlinks
        ((releaseBlocks_returns _ d entries).of_run loop).1
      rw [Inode.data_setHardlinks _ _ inside] at entry
      refine ⟨unlinked, inside, n, small, entry, fun below => ?_⟩
      have free := (released.blockFree n).mpr
        (Or.inr ⟨_, List.mem_range.mpr (Nat.lt_succ_self _), entry⟩)
      have freed := (releases.blocks n below).mp (by rw [blockFree_markInode]; exact free)
      refine freed.imp_right ?_
      rintro ⟨k, held⟩
      obtain ⟨owned, _, data⟩ := (holds k n).mp held
      exact ⟨k, owned, data⟩
    · rw [if_neg unlinked, then_run (setInode_run live.2.1 1 d)] at ran
      cases ran
      obtain ⟨n, small, entry⟩ := accounts.entries i 0 live (Nat.zero_le _) (by decide)
      have held := accounts.holds live (Nat.zero_le _) (by decide) entry
      have free := (releases.blocks n small).mpr (Or.inr ⟨0, held⟩)
      rw [blockFree_markInode, (accounts.covered.used held).2] at free
      cases free
  · rintro ⟨unlinked, inside, n, small, entry, extra⟩
    have entries : ∀ k ∈ List.range ((readInode d i).size.toNat / BLOCK_SIZE + 2), k < DATA_ENTRIES ∧
        ∃ n : Nat, n < 8 * BLOCK_SIZE ∧
          ((readInode d i).setHardlinks ((readInode d i).hardlinks - 2)).data k = (n : Int) := by
      intro k member
      have below := List.mem_range.mp member
      have inside' : k < DATA_ENTRIES := by omega
      rw [Inode.data_setHardlinks _ _ inside']
      rcases Nat.lt_or_ge k ((readInode d i).size.toNat / BLOCK_SIZE + 1) with own | last
      · obtain ⟨m, small', data⟩ := accounts.entries i k live (by omega) inside'
        exact ⟨inside', m, by unfold BLOCK_LIST_SIZE at small'; unfold BLOCK_SIZE; omega, data⟩
      · have here : k = (readInode d i).size.toNat / BLOCK_SIZE + 1 := by omega
        subst here
        exact ⟨inside, n, small, entry⟩
    obtain ⟨a, d₁, loop, released', content⟩ := releaseBlocks_returns _ d entries
    have released := released_of_setHardlinks released'
    have table := released.table
    refine ⟨d₁.markInode i true, ?_, ?_, fun m below => ?_, fun k small' other => ?_, fun j live' other p => ?_⟩
    · rw [if_pos unlinked, then_run loop, then_run (setInode_run live.2.1 1 d₁)]
      rfl
    · rw [inodeFree_markInode, if_pos rfl]
    · rw [blockFree_markInode, released.blockFree]
      constructor
      · rintro (free | ⟨k, member, data⟩)
        · exact Or.inl free
        · have upTo := List.mem_range.mp member
          rcases Nat.lt_or_ge k ((readInode d i).size.toNat / BLOCK_SIZE + 1) with own | last
          · exact Or.inr ⟨k, (holds k m).mpr ⟨by omega, released.inside k member, data⟩⟩
          · have here : k = (readInode d i).size.toNat / BLOCK_SIZE + 1 := by omega
            subst here
            have same : m = n := by omega
            subst same
            refine (extra below).imp_right ?_
            rintro ⟨k, owned, data'⟩
            exact ⟨k, (holds k m).mpr ⟨owned, by omega, data'⟩⟩
      · rintro (free | ⟨k, held⟩)
        · exact Or.inl free
        · obtain ⟨owned, _, data⟩ := (holds k m).mp held
          exact Or.inr ⟨k, List.mem_range.mpr (by omega), data⟩
    · rw [inodeFree_markInode, if_neg other, readInode_markInode]
      exact ⟨table.inodeFree k, table.readInode k small'⟩
    · rw [readInode_markInode, table.readInode j live'.2.1]
      unfold byteOf
      rw [content_markInode, content]

end Unlink

/-- The empty file is released: the entry behind its block is the same block. -/
theorem unlink_releases_emptyFile : UnlinksOne emptyFileDrive firstPath 1 := by
  have size : (readInode emptyFileDrive 1).size = 0 := by decide +kernel
  have first : (readInode emptyFileDrive 1).data 0 = ((0 : Nat) : Int) := by decide +kernel
  have second : (readInode emptyFileDrive 1).data 1 = ((0 : Nat) : Int) := by decide +kernel
  refine (unlink_releases_iff emptyFileDrive_kept.accounts emptyFileDrive_names.toFinds).mpr
    ⟨by decide +kernel, ?_, 0, by decide, ?_, fun _ => Or.inr ⟨0, Nat.zero_le _, first⟩⟩
  · rw [size]
    decide
  · rw [size]
    exact second

theorem one_lt_inodes : 1 < INODE_LIST_SIZE := by decide

/-- The path of a second file. -/
def secondPath : Path := lettersPath 1 one_lt_inodes

/-- A second file is created. -/
def createSecond : Access := .call (.create secondPath 0 0)

/-- The file system with two empty files. -/
def twoFilesDrive : Drive := (emptyFileDrive.exec createSecond).getD emptyFileDrive

theorem twoFilesDrive_kept : Kept twoFilesDrive := by
  have sound : emptyFileDrive.Sound createSecond := fun _ => ⟨1, by decide, by decide +kernel⟩
  exact emptyFileDrive_kept.step sound (eq_some_getD _ (by decide +kernel))

/-- **The second file takes the block of the first along.** -/
theorem unlink_not_releases : ¬ ∀ (d : Drive) (path : Path) (i : Nat), d.Accounts → d.Finds path i →
    UnlinksOne d path i := by
  intro releases
  have finds : twoFilesDrive.Finds secondPath 2 :=
    ⟨by decide +kernel, by decide, by decide, by decide +kernel⟩
  obtain ⟨d', ran, one⟩ := releases twoFilesDrive secondPath 2 twoFilesDrive_kept.accounts finds
  have free : (sfs_unlink secondPath twoFilesDrive).map (·.2.blockFree 0) = some true := by
    decide +kernel
  rw [ran] at free
  have used : twoFilesDrive.blockFree 0 = false := by decide +kernel
  have live : twoFilesDrive.Live 1 := ⟨by decide, by decide, by decide +kernel⟩
  rcases (one.blocks 0 (by decide)).mp (Option.some.inj free) with before | ⟨k, held⟩
  · rw [used] at before
    cases before
  · have accounts := twoFilesDrive_kept.accounts
    have own : twoFilesDrive.Holds (1, 0) 0 :=
      accounts.holds live (Nat.zero_le _) (by decide) (by decide +kernel)
    have same : 1 = 2 := congrArg Prod.fst (accounts.covered.distinct own held)
    exact absurd same (by decide)

/-! ### `sfs_create` -/

section Create

variable {d : Drive} {path : Path} {i n : Nat} {mode : BitVec 32}

theorem createdInode_path (d : Drive) (i : Nat) (path : Path) (mode : BitVec 32) (n : Nat) {k : Nat}
    (inside : k < PATH_BYTES) : (createdInode d i path mode n).path k = path.bytes k := by
  unfold createdInode newInode
  rw [Inode.path_setData _ _ inside, Inode.path_setPath _ inside]

theorem created_content (small : i < INODE_LIST_SIZE) :
    (d.created i path mode n).content = d.content := by
  funext k
  unfold Drive.created
  rw [content_putInode _ small, content_markBlock, content_markInode]

/-- **The new file**: it is found, is empty, has its own block, and the other files are as they were. -/
structure CreatesFile (d d' : Drive) (path : Path) (i : Nat) : Prop where
  found : d'.Names path i
  id : (readInode d' i).id = i
  size : (readInode d' i).size = 0
  block : ∃ n < BLOCK_LIST_SIZE, (readInode d' i).data 0 = (n : Int) ∧ d'.blockFree n = false ∧
    ∀ p, d'.Holds p n → p = (i, 0)
  accounts : d'.Accounts
  names : ∀ (path' : Path) (j : Nat), d.Names path' j → d'.Names path' j
  others : ∀ j, d.Live j → readInode d' j = readInode d j ∧
    ∀ p, byteOf d' (readInode d' j) p = byteOf d (readInode d j) p

/-- `sfs_create` returns 0 if there was an inode and a block for the file, and only then, and has created
it. -/
def TellsTruth (d : Drive) (path : Path) (mode : BitVec 32) (fh : BitVec 64) : Prop :=
  ∃ ret fh' d', sfs_create path mode fh d = some ((ret, fh'), d') ∧
    (ret = 0 ↔ (∃ i < INODE_LIST_SIZE, isInodeFree d i = 1) ∧
      ∃ n < BLOCK_LIST_SIZE, isBlockFree d n = 1) ∧
    ((∃ i < INODE_LIST_SIZE, isInodeFree d i = 1) → (∃ n < BLOCK_LIST_SIZE, isBlockFree d n = 1) →
      ∃ i, CreatesFile d d' path i)

/-- **The new file has the block taken**, and the accounting is that of the others with it. -/
theorem created_accounts (accounts : d.Accounts) (path : Path) (mode : BitVec 32)
    (small : i < INODE_LIST_SIZE) (free : d.inodeFree i = true) (below : n < BLOCK_LIST_SIZE)
    (available : d.blockFree n = true) : (d.created i path mode n).Accounts := by
  have positive : 0 < i := by
    refine Nat.pos_of_ne_zero fun root => ?_
    rw [root, accounts.rootUsed] at free
    cases free
  have live := @created_live d path i n mode positive small
  have own : readInode (d.created i path mode n) i = (createdInode d i path mode n).record := by
    rw [created_readInode, if_pos rfl]
  have others : ∀ {j}, d.Live j → readInode (d.created i path mode n) j = readInode d j := by
    rintro j ⟨_, _, used⟩
    refine (created_readInode j).trans (if_neg ?_)
    rintro rfl
    rw [free] at used
    cases used
  have size := createdInode_size d i path mode n
  refine ⟨?_, fun j live' => ?_, fun j live' => ?_, fun j k live' owned inside => ?_, ?_⟩
  · rw [created_inodeFree, if_neg (by omega)]
    exact accounts.rootUsed
  · rcases (live j).mp live' with rfl | old
    · rw [own, Inode.id_record, createdInode_id d path mode n small]
    · rw [others old]
      exact accounts.slots j old
  · rcases (live j).mp live' with rfl | old
    · rw [own, Inode.size_record]
      exact Int.le_of_eq size.symm
    · rw [others old]
      exact accounts.sized j old
  · rcases (live j).mp live' with rfl | old
    · rw [own, Inode.size_record, size] at owned
      have zero : k = 0 := Nat.le_zero.mp owned
      subst zero
      exact ⟨n, below, by rw [own, Inode.data_record _ (by decide), createdInode_data _ _ _ _ below]⟩
    · rw [others old] at owned ⊢
      exact accounts.entries j k old owned inside
  · refine accounts.covered.take (p := (i, 0)) (b := n) ?_ (fun c => ?_)
      (created_holds positive small free below)
    · rintro ⟨_, taken⟩
      rw [available] at taken
      cases taken
    · unfold Drive.Used
      rw [created_blockFree]
      by_cases same : c = n
      · subst same
        simp [below]
      · simp [same]

/-- **The new file is found**, and no other file is lost. -/
theorem created_names (short : path.len < PATH_BYTES) (missing : inodeOf d path = none)
    (mode : BitVec 32) (n : Nat) (positive : 0 < i) (small : i < INODE_LIST_SIZE)
    (free : d.inodeFree i = true) : (d.created i path mode n).Names path i ∧
      ∀ (path' : Path) (j : Nat), d.Names path' j → (d.created i path mode n).Names path' j := by
  have live := @created_live d path i n mode positive small
  have title : strcmp path (createdInode d i path mode n).record.path = true := by
    refine strcmp_iff.mpr fun k upTo => ?_
    rw [Inode.path_record _ (by omega), createdInode_path d i path mode n (by omega)]
  constructor
  · refine ⟨⟨?_, (live i).mpr (Or.inl rfl)⟩, short⟩
    cases result : inodeOf (d.created i path mode n) path with
    | none =>
      have unlike := inodeOf_none result small (by rw [created_inodeFree, if_pos rfl])
      rw [created_readInode, if_pos rfl, title] at unlike
      cases unlike
    | some k =>
      obtain ⟨inside, used, same⟩ := inodeOf_some result
      by_contra other
      have notHere : k ≠ i := fun here => other (congrArg some here)
      rw [created_inodeFree, if_neg notHere] at used
      rw [created_readInode, if_neg notHere, inodeOf_none missing inside used] at same
      cases same
  · rintro path' j ⟨⟨found, live'⟩, short'⟩
    obtain ⟨inside, used, same⟩ := inodeOf_some found
    have different : strcmp path' (createdInode d i path mode n).record.path = false := by
      refine Bool.eq_false_iff.mpr fun same' => ?_
      have old := inodeOf_none missing inside used
      rw [strcmp_of_strcmp same' same title] at old
      cases old
    refine ⟨⟨?_, (live j).mpr (Or.inr live')⟩, short'⟩
    have searches : inodeOf (d.created i path mode n) path' = inodeOf d path' := by
      unfold inodeOf
      rw [← List.head?_filter, ← List.head?_filter]
      refine congrArg List.head? (List.filter_congr fun k _ => ?_)
      by_cases here : k = i
      · subst here
        rw [created_readInode, if_pos rfl, different, isInodeFree_eq_one.mpr free]
        simp
      · rw [isInodeFree_eq, isInodeFree_eq, created_inodeFree, created_readInode, if_neg here,
          if_neg here]
    rw [searches]
    exact found

/-- **The first free inode gets the first free block.** -/
theorem CreatesFile.of_created (accounts : d.Accounts) (short : path.len < PATH_BYTES)
    (missing : inodeOf d path = none) (mode : BitVec 32) (small : i < INODE_LIST_SIZE)
    (free : d.inodeFree i = true) (below : n < BLOCK_LIST_SIZE) (available : d.blockFree n = true) :
    CreatesFile d (d.created i path mode n) path i := by
  have positive : 0 < i := by
    refine Nat.pos_of_ne_zero fun root => ?_
    rw [root, accounts.rootUsed] at free
    cases free
  have accounts' := created_accounts accounts path mode small free below available
  obtain ⟨named, names⟩ := created_names short missing mode n positive small free
  have own : readInode (d.created i path mode n) i = (createdInode d i path mode n).record := by
    rw [created_readInode, if_pos rfl]
  have held : (d.created i path mode n).Holds (i, 0) n :=
    (created_holds positive small free below _ _).mpr (Or.inr ⟨rfl, rfl⟩)
  refine ⟨named, ?_, ?_, ⟨n, below, ?_, ?_, ?_⟩, accounts', names, fun j live => ?_⟩
  · rw [own, Inode.id_record, createdInode_id d path mode n small]
  · rw [own, Inode.size_record, createdInode_size]
  · rw [own, Inode.data_record _ (by decide), createdInode_data _ _ _ _ below]
  · rw [created_blockFree, if_pos rfl]
  · exact fun p held' => accounts'.covered.distinct held' held
  · have same : readInode (d.created i path mode n) j = readInode d j := by
      refine (created_readInode j).trans (if_neg ?_)
      rintro rfl
      rw [live.2.2] at free
      cases free
    refine ⟨same, fun p => ?_⟩
    rw [same]
    unfold byteOf
    rw [created_content small]

/-- **When `sfs_create` tells the truth**: where there is a free inode. -/
theorem create_truthful_iff (accounts : d.Accounts) (short : path.len < PATH_BYTES)
    (missing : inodeOf d path = none) (mode : BitVec 32) (fh : BitVec 64) :
    TellsTruth d path mode fh ↔ ∃ i < INODE_LIST_SIZE, isInodeFree d i = 1 := by
  obtain ⟨⟨ret, fh'⟩, d', ran, step⟩ := sfs_create_returns path mode fh d
  have unfolded : TellsTruth d path mode fh ↔
      (ret = 0 ↔ (∃ i < INODE_LIST_SIZE, isInodeFree d i = 1) ∧
        ∃ n < BLOCK_LIST_SIZE, isBlockFree d n = 1) ∧
      ((∃ i < INODE_LIST_SIZE, isInodeFree d i = 1) → (∃ n < BLOCK_LIST_SIZE, isBlockFree d n = 1) →
        ∃ i, CreatesFile d d' path i) := by
    constructor
    · rintro ⟨ret', fh'', d'', ran', truth⟩
      rw [ran] at ran'
      cases ran'
      exact truth
    · exact fun truth => ⟨ret, fh', d', ran, truth⟩
  rw [unfolded]
  dsimp only at step
  cases step with
  | noInode used =>
    have none_ : ¬ ∃ i < INODE_LIST_SIZE, isInodeFree d i = 1 := by
      rintro ⟨i, small, free⟩
      rw [isInodeFree_eq_one, used i small] at free
      cases free
    exact ⟨fun truth => (truth.1.mp rfl).1, fun free => absurd free none_⟩
  | noBlock i small free used =>
    have none_ : ¬ ∃ n < BLOCK_LIST_SIZE, isBlockFree d n = 1 := by
      rintro ⟨n, below, available⟩
      rw [isBlockFree_eq_one, used n below] at available
      cases available
    refine ⟨fun _ => ⟨i, small, isInodeFree_eq_one.mpr free⟩, fun _ => ⟨?_, fun _ some_ => absurd some_ none_⟩⟩
    exact iff_of_false (by decide) fun both => none_ both.2
  | created i n small free _ below available _ =>
    have inode : ∃ i < INODE_LIST_SIZE, isInodeFree d i = 1 := ⟨i, small, isInodeFree_eq_one.mpr free⟩
    have block : ∃ n < BLOCK_LIST_SIZE, isBlockFree d n = 1 :=
      ⟨n, below, isBlockFree_eq_one.mpr available⟩
    exact ⟨fun _ => inode, fun _ => ⟨iff_of_true rfl ⟨inode, block⟩, fun _ _ =>
      ⟨i, .of_created accounts short missing mode small free below available⟩⟩⟩

end Create

theorem create_truthful_emptyFile : TellsTruth emptyFileDrive secondPath 0 0 :=
  (create_truthful_iff emptyFileDrive_kept.accounts (by decide) (by decide +kernel) 0 0).mpr
    ⟨2, by decide, by decide +kernel⟩

/-- The states with more and more files are accounted for. -/
theorem filled_accounts (k : Nat) (small : k < INODE_LIST_SIZE) :
    ∃ s, Filled k s ∧ Named s ∧ s.drive.Accounts := by
  induction k with
  | zero =>
    obtain ⟨s, fresh, filled⟩ := exists_fresh
    exact ⟨s, filled, Named.fresh fresh, (Kept.fresh fresh.1).accounts⟩
  | succ k ih =>
    obtain ⟨s, filled, named, accounts⟩ := ih (by omega)
    obtain ⟨s', admits, keeps, taken, filled'⟩ := filled.next named small
    refine ⟨s', filled', named.step admits keeps taken, ?_⟩
    obtain ⟨⟨⟨ret, fh⟩, d⟩, ran, rfl⟩ := Option.map_eq_some_iff.mp taken
    cases (sfs_create_returns _ _ _ _).of_run ran with
    | noInode => exact accounts
    | noBlock i _ _ used =>
      obtain ⟨_, n, below, available⟩ := keeps
      rw [isBlockFree_eq_one, used n below] at available
      cases available
    | created i n slot free _ below available =>
      exact created_accounts accounts _ 0 slot free below available

/-- **With all inodes in use a file is said to be created.** -/
theorem create_not_truthful : ¬ ∀ (d : Drive) (path : Path) (mode : BitVec 32) (fh : BitVec 64),
    d.Accounts → path.len < PATH_BYTES → inodeOf d path = none → TellsTruth d path mode fh := by
  intro truthful
  obtain ⟨s, filled, named, accounts⟩ := filled_accounts 127 (by decide)
  have used : ∀ i < INODE_LIST_SIZE, s.drive.inodeFree i = false := by
    intro i inside
    rw [filled.inodes i inside]
    exact decide_eq_false (by unfold INODE_LIST_SIZE at inside; omega)
  have long := lettersPath_legal (k := 127) (by decide)
  have missing : inodeOf s.drive (lettersPath 127 (by decide)) = none := by
    cases found : inodeOf s.drive (lettersPath 127 (by decide)) with
    | none => rfl
    | some i =>
      obtain ⟨title, _, same, member⟩ :=
        named.titled i (named.not_root (strcmp_slash_of_long long.named) found)
      have short := filled.names _ member
      rw [← text_of_strcmp (inodeOf_some found).2.2 same, length_lettersPath] at short
      omega
  obtain ⟨ret, fh', d', ran, truth, _⟩ := truthful s.drive _ 0 0 accounts long.short missing
  cases (sfs_create_returns _ _ _ _).of_run ran with
  | noInode =>
    obtain ⟨⟨i, small, free⟩, _⟩ := truth.mp rfl
    rw [isInodeFree_eq_one, used i small] at free
    cases free
  | noBlock i slot free =>
    rw [used i slot] at free
    cases free
  | created i n slot free =>
    rw [used i slot] at free
    cases free

/-! ### The name of a new file -/

/-- **A path with a legal name**: a slash, and 1 to 255 bytes other than the terminator and the
slash. -/
structure Path.Named (path : Path) : Prop where
  rooted : path.bytes 0 = 47
  named : 2 ≤ path.len
  fits : path.len ≤ 256
  noSlash : ∀ k, 0 < k → k < path.len → path.bytes k ≠ 47

/-- **The name comes back**: the path is found in the record and no other one is, and `sfs_readdir`
gives the filler a string, the name. -/
structure ComesBack (path : Path) (nd : Inode) : Prop where
  found : strcmp path nd.path = true
  only : ∀ other : Path, other.Named → strcmp other nd.path = true → other.text = path.text
  isString : 0 ∈ filename nd
  listed : (filename nd).takeWhile (· ≠ 0) = path.name

/-- `sfs_create` takes a free inode, and the name comes back from its record. -/
def StoresName (d : Drive) (path : Path) (mode : BitVec 32) (fh : BitVec 64) : Prop :=
  ∃ i fh' d', sfs_create path mode fh d = some ((0, fh'), d') ∧ i < INODE_LIST_SIZE ∧
    isInodeFree d i = 1 ∧ isInodeFree d' i = 0 ∧ ComesBack path (readInode d' i)

section Name

variable {d : Drive} {path : Path} {i n : Nat} {mode : BitVec 32}

/-- The record of the new file has the bytes of the path, the first 256 of them. -/
theorem created_path {k : Nat} (inside : k < PATH_BYTES) :
    (readInode (d.created i path mode n) i).path k = path.bytes k := by
  rw [created_readInode, if_pos rfl, Inode.path_record _ inside,
    createdInode_path d i path mode n inside]

/-- **A name of up to 254 bytes comes back.** -/
theorem ComesBack.of_short (name : path.Named) (short : path.len ≤ 255) :
    ComesBack path (readInode (d.created i path mode n) i) := by
  have found : strcmp path (readInode (d.created i path mode n) i).path = true :=
    strcmp_iff.mpr fun k upTo => (created_path (by unfold PATH_BYTES; omega)).symm
  exact ⟨found, fun other _ same => text_of_strcmp same found,
    zero_mem_filename name.named short found, filename_of_strcmp ⟨name.rooted, name.named, short⟩ found⟩

/-- **A name of 255 bytes does not**: the array given to the filler has no terminator. -/
theorem not_comesBack_of_longest (longest : path.len = 256) :
    ¬ ComesBack path (readInode (d.created i path mode n) i) := by
  intro back
  obtain ⟨k, below, ends⟩ := List.mem_map.mp back.isString
  have inside := List.mem_range.mp below
  have byte : (readInode (d.created i path mode n) i).path (1 + k) = path.bytes (1 + k) :=
    created_path (by unfold PATH_BYTES; omega)
  have same : (readInode (d.created i path mode n) i).path (1 + k) = 0 := by
    rw [← ends, Nat.add_assoc]
    rfl
  exact path.nonzero (1 + k) (by omega) (byte.symm.trans same)

/-- `sfs_create` with a free inode and a free block. -/
theorem storesName_iff (inode : ∃ i < INODE_LIST_SIZE, isInodeFree d i = 1)
    (block : ∃ n < BLOCK_LIST_SIZE, isBlockFree d n = 1) (path : Path) (mode : BitVec 32)
    (fh : BitVec 64) :
    ∃ i n, StoresName d path mode fh ↔ ComesBack path (readInode (d.created i path mode n) i) := by
  obtain ⟨⟨ret, fh'⟩, d', ran, step⟩ := sfs_create_returns path mode fh d
  dsimp only at step
  cases step with
  | noInode used =>
    obtain ⟨i, small, free⟩ := inode
    rw [isInodeFree_eq_one, used i small] at free
    cases free
  | noBlock i small free used =>
    obtain ⟨n, below, available⟩ := block
    rw [isBlockFree_eq_one, used n below] at available
    cases available
  | created i n small free _ below available _ =>
    have free' : isInodeFree d i = 1 := isInodeFree_eq_one.mpr free
    have used : isInodeFree (d.created i path mode n) i = 0 := by
      rw [isInodeFree_eq_zero, created_inodeFree, if_pos rfl]
    refine ⟨i, n, ?_, fun back => ⟨i, fh', _, ran, small, free', used, back⟩⟩
    rintro ⟨j, fh'', d'', ran', _, before, after, back⟩
    rw [ran] at ran'
    cases ran'
    have here : j = i := by
      by_contra other
      have still : (d.created i path mode n).inodeFree j = false := isInodeFree_eq_zero.mp after
      rw [created_inodeFree, if_neg other, isInodeFree_eq_one.mp before] at still
      cases still
    exact here ▸ back

/-- **When a name comes back**: where it has at most 254 bytes. -/
theorem name_round_trips_iff (name : path.Named) (inode : ∃ i < INODE_LIST_SIZE, isInodeFree d i = 1)
    (block : ∃ n < BLOCK_LIST_SIZE, isBlockFree d n = 1) (mode : BitVec 32) (fh : BitVec 64) :
    StoresName d path mode fh ↔ path.len ≤ 255 := by
  obtain ⟨i, n, stored⟩ := storesName_iff inode block path mode fh
  rw [stored]
  constructor
  · intro back
    have fits := name.fits
    by_contra long
    exact not_comesBack_of_longest (by omega) back
  · exact ComesBack.of_short name

end Name

/-- The file `/aa`, created. -/
theorem name_round_trips_secondPath : StoresName emptyFileDrive secondPath 0 0 := by
  have plain : ∀ k, 0 < k → k < 3 → secondPath.bytes k ≠ 47 := by
    intro k positive below
    have upper : k = 1 ∨ k = 2 := by omega
    rcases upper with rfl | rfl <;> decide
  exact (name_round_trips_iff ⟨rfl, by decide, by decide, plain⟩ ⟨2, by decide, by decide +kernel⟩
    ⟨1, by decide, by decide +kernel⟩ 0 0).mpr (by decide)

/-- The path of a slash and 255 letters. -/
def longestPath : Path where
  bytes := fun j => if j = 0 then 47 else if j < 256 then 97 else 0
  len := 256
  nonzero := by
    intro j below
    by_cases first : j = 0
    · rw [if_pos first]
      decide
    · rw [if_neg first, if_pos below]
      decide
  terminated := rfl
  bounded := by decide

theorem longestPath_named : longestPath.Named where
  rooted := rfl
  named := by decide
  fits := Nat.le_refl _
  noSlash := by
    intro k positive below
    show (if k = 0 then 47 else if k < 256 then 97 else 0 : BitVec 8) ≠ 47
    have inside : k < 256 := below
    rw [if_neg (by omega), if_pos inside]
    decide

/-- **The longest name does not come back.** -/
theorem name_not_round_trips : ¬ ∀ (d : Drive) (path : Path) (mode : BitVec 32) (fh : BitVec 64),
    path.Named → (∃ i < INODE_LIST_SIZE, isInodeFree d i = 1) →
    (∃ n < BLOCK_LIST_SIZE, isBlockFree d n = 1) → StoresName d path mode fh := by
  intro stores
  have inode : ∃ i < INODE_LIST_SIZE, isInodeFree emptyFileDrive i = 1 :=
    ⟨2, by decide, by decide +kernel⟩
  have block : ∃ n < BLOCK_LIST_SIZE, isBlockFree emptyFileDrive n = 1 :=
    ⟨1, by decide, by decide +kernel⟩
  obtain ⟨i, n, stored⟩ := storesName_iff inode block longestPath 0 0
  exact not_comesBack_of_longest rfl
    (stored.mp (stores emptyFileDrive longestPath 0 0 longestPath_named inode block))

end OS2017.Files
