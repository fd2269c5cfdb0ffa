/-
**What the files hold.**

The bytes of a file are those of the blocks of its entries, one block behind the other. On a disk whose
entries are data blocks, each of one file only (`Drive.Accounts`), a read that stays inside a file returns
the bytes of that file; one that goes on behind its end returns as many bytes as were asked for
(`read_stops_iff`).
-/

import OS2017.Files.Accounting

namespace OS2017.Files

open OS2017.Bytes OS2017.Ledger OS2017.Run

/-! ### The files of a disk -/

/-- **Block accounting**: the entries of a file up to its size are data blocks, marked used, and no block
is the block of two entries. Blocks may be marked used that no file has. -/
structure Drive.Accounts (d : Drive) : Prop where
  rootUsed : d.inodeFree 0 = false
  slots : ∀ i, d.Live i → (readInode d i).id = i
  sized : ∀ i, d.Live i → 0 ≤ (readInode d i).size
  entries : ∀ i k, d.Live i → k ≤ (readInode d i).size.toNat / BLOCK_SIZE → k < DATA_ENTRIES →
    ∃ n < BLOCK_LIST_SIZE, (readInode d i).data k = (n : Int)
  covered : Covered d.Used d.Holds

/-- **The file of a path**: the inode that is found is not the root's. -/
structure Drive.Finds (d : Drive) (path : Path) (i : Nat) : Prop where
  found : inodeOf d path = some i
  live : d.Live i

/-- The file of a path that the field `path` has room for. -/
structure Drive.Names (d : Drive) (path : Path) (i : Nat) : Prop extends d.Finds path i where
  short : path.len < PATH_BYTES

/-- The byte `p` of a file. -/
def byteOf (d : Drive) (file : Inode) (p : Nat) : BitVec 8 :=
  d.content (file.data (p / BLOCK_SIZE)).toNat (p % BLOCK_SIZE)

/-- The bytes of a file from `start` on. -/
def bytesOf (d : Drive) (file : Inode) (start count : Nat) : List (BitVec 8) :=
  (List.range' start count).map (byteOf d file)

theorem length_bytesOf (d : Drive) (file : Inode) (start count : Nat) :
    (bytesOf d file start count).length = count := by
  unfold bytesOf
  rw [List.length_map, List.length_range']

/-- The entries `first`, …, `last` of a file are there, and are data blocks. -/
def Spans (file : Inode) (first last : Nat) : Prop :=
  ∀ k, first ≤ k → k ≤ last → k < DATA_ENTRIES ∧ ∃ n < BLOCK_LIST_SIZE, file.data k = (n : Int)

theorem Spans.mono {file : Inode} {first last first' last' : Nat} (spans : Spans file first last)
    (from_ : first ≤ first') (upTo : last' ≤ last) : Spans file first' last' :=
  fun k lower upper => spans k (by omega) (by omega)

/-- Two disks with the same blocks there hold the same bytes. -/
theorem bytesOf_congr {d d' : Drive} {file : Inode} {start count : Nat}
    (same : ∀ k, start / BLOCK_SIZE ≤ k → k ≤ (start + count) / BLOCK_SIZE →
      d'.content (file.data k).toNat = d.content (file.data k).toNat) :
    bytesOf d' file start count = bytesOf d file start count := by
  unfold bytesOf
  refine List.map_congr_left fun p member => ?_
  obtain ⟨lower, upper⟩ := List.mem_range'_1.mp member
  unfold byteOf
  rw [same _ (Nat.div_le_div_right lower) (Nat.div_le_div_right (Nat.le_of_lt upper))]

theorem Kept.accounts {d : Drive} (kept : Kept d) : d.Accounts where
  rootUsed := kept.rootUsed
  slots := fun i live => (kept.proper i live).slot
  sized := fun i live => (kept.proper i live).sized.1
  entries := fun i k live _ inside => (kept.proper i live).inRange k inside
  covered := kept.exact.covered

theorem Drive.Accounts.holds {d : Drive} (accounts : d.Accounts) {i k n : Nat} (live : d.Live i)
    (owned : k ≤ (readInode d i).size.toNat / BLOCK_SIZE) (inside : k < DATA_ENTRIES)
    (entry : (readInode d i).data k = (n : Int)) : d.Holds (i, k) n :=
  (holds_iff live (accounts.sized i live) k n).mpr ⟨owned, inside, entry⟩

theorem Drive.Accounts.spans {d : Drive} (accounts : d.Accounts) {i last : Nat} (live : d.Live i)
    (owned : last ≤ (readInode d i).size.toNat / BLOCK_SIZE) (inside : last < DATA_ENTRIES) :
    Spans (readInode d i) 0 last := fun k _ upper =>
  ⟨by omega, accounts.entries i k live (by omega) (by omega)⟩

theorem Drive.Finds.file {d : Drive} {path : Path} {i : Nat} (finds : d.Finds path i) :
    checkiNodePathName d path = readInode d i := found_file finds.found

theorem Drive.Accounts.id_ne {d : Drive} (accounts : d.Accounts) {i : Nat} (live : d.Live i) :
    (readInode d i).id ≠ -1 := by
  rw [accounts.slots i live]
  omega

/-! ### Reading -/

/-- An entry is looked up, then the rest. -/
theorem dataAt_bind {α : Type} {file : Inode} {k : Nat} (inside : k < DATA_ENTRIES)
    (rest : Int → StateT Drive Option α) (d : Drive) :
    (dataAt file k >>= rest) d = rest (file.data k) d := by
  unfold dataAt
  rw [if_pos (by omega), Int.toNat_natCast]
  rfl

/-- A data block is read, then the rest. -/
theorem readData_bind {α : Type} {n : Nat} (small : n < BLOCK_LIST_SIZE)
    (rest : Memory → StateT Drive Option α) (d : Drive) :
    (block_read (D_BLOCK_START + (n : Int)) >>= rest) d = rest (d.content n) d := by
  have start : (D_BLOCK_START : Int) + (n : Int) = (D_BLOCK_START + n : Nat) := rfl
  rw [start, block_read_run (by unfold BLOCK_LIST_SIZE at small; unfold D_BLOCK_START; omega)]
  rfl

/-- A block of the file is read, then the rest. -/
theorem readEntry_bind {α : Type} {file : Inode} {k n : Nat} (inside : k < DATA_ENTRIES)
    (small : n < BLOCK_LIST_SIZE) (entry : file.data k = (n : Int))
    (rest : Memory → StateT Drive Option α) (d : Drive) :
    (dataAt file k >>= fun block => block_read (D_BLOCK_START + block) >>= rest) d =
      rest (d.content (file.data k).toNat) d := by
  rw [dataAt_bind inside, entry, readData_bind small, Int.toNat_natCast]

theorem byteOf_block {d : Drive} {file : Inode} {blk chr : Nat} (within : chr < BLOCK_SIZE) :
    byteOf d file (blk * BLOCK_SIZE + chr) = d.content (file.data blk).toNat chr := by
  have block : (blk * BLOCK_SIZE + chr) / BLOCK_SIZE = blk := by
    unfold BLOCK_SIZE at within ⊢
    omega
  have byte : (blk * BLOCK_SIZE + chr) % BLOCK_SIZE = chr := by
    unfold BLOCK_SIZE at within ⊢
    omega
  unfold byteOf
  rw [block, byte]

/-- **The loop of `sfs_read` returns the bytes of the file.** -/
theorem readLoop_run {d : Drive} {file : Inode} : ∀ (count : Nat) {blk chr : Nat},
    chr < BLOCK_SIZE → Spans file (blk + 1) ((blk * BLOCK_SIZE + chr + count) / BLOCK_SIZE) →
    readLoop file count blk chr (d.content (file.data blk).toNat) d =
      some (bytesOf d file (blk * BLOCK_SIZE + chr) count, d) := by
  intro count
  induction count with
  | zero =>
    intro blk chr _ _
    rfl
  | succ count ih =>
    intro blk chr within spans
    have byte := @byteOf_block d file blk chr within
    have bytes : bytesOf d file (blk * BLOCK_SIZE + chr) (count + 1) =
        byteOf d file (blk * BLOCK_SIZE + chr) ::
          bytesOf d file (blk * BLOCK_SIZE + chr + 1) count := by
      unfold bytesOf
      rw [List.range'_succ, List.map_cons]
    rw [bytes, byte]
    unfold readLoop
    dsimp only
    by_cases boundary : (chr + 1) % BLOCK_SIZE = 0
    · have position : blk * BLOCK_SIZE + chr + 1 = (blk + 1) * BLOCK_SIZE + 0 := by
        unfold BLOCK_SIZE at *
        omega
      have total : blk * BLOCK_SIZE + chr + (count + 1) = (blk + 1) * BLOCK_SIZE + 0 + count := by
        omega
      rw [total] at spans
      obtain ⟨inside, n, small, entry⟩ := spans (blk + 1) (Nat.le_refl _) (by
        unfold BLOCK_SIZE
        omega)
      have next : ((blk : Int) + 1) = ((blk + 1 : Nat) : Int) := rfl
      have run := @ih (blk + 1) 0 (by decide) (spans.mono (by omega) (Nat.le_refl _))
      rw [if_pos boundary, next, readEntry_bind inside small entry, then_run run, position]
      rfl
    · have total : blk * BLOCK_SIZE + chr + (count + 1) = blk * BLOCK_SIZE + (chr + 1) + count := by
        omega
      rw [total] at spans
      have run := @ih blk (chr + 1) (by unfold BLOCK_SIZE at *; omega) spans
      rw [if_neg boundary, then_run run, Nat.add_assoc]
      rfl

/-- **What a completed loop tells**: it has put every byte, and every entry it went over is one of the
array. -/
theorem readLoop_returned {file : Inode} : ∀ (count : Nat) {blk chr : Nat} {diskbuf : Memory}
    {d d' : Drive} {bytes : List (BitVec 8)}, chr < BLOCK_SIZE → blk < DATA_ENTRIES →
    readLoop file count blk chr diskbuf d = some (bytes, d') →
    bytes.length = count ∧ (blk * BLOCK_SIZE + chr + count) / BLOCK_SIZE < DATA_ENTRIES := by
  intro count
  induction count with
  | zero =>
    intro blk chr diskbuf d d' bytes within inside ran
    cases ran
    refine ⟨rfl, ?_⟩
    unfold BLOCK_SIZE at *
    omega
  | succ count ih =>
    intro blk chr diskbuf d d' bytes within inside ran
    unfold readLoop at ran
    dsimp only at ran
    split at ran
    · rename_i boundary
      obtain ⟨block, d₁, entry, ran₁⟩ := run_bind ran
      obtain ⟨_, inside', _, _⟩ := dataAt_run entry
      obtain ⟨next, d₂, _, ran₂⟩ := run_bind ran₁
      obtain ⟨more, d₃, ran₃, done⟩ := run_bind ran₂
      cases done
      obtain ⟨length, extent⟩ := ih (by decide) (by omega) ran₃
      refine ⟨congrArg (· + 1) length, ?_⟩
      have total : blk * BLOCK_SIZE + chr + (count + 1) = (blk + 1) * BLOCK_SIZE + 0 + count := by
        unfold BLOCK_SIZE at *
        omega
      rw [total]
      exact extent
    · rename_i notBoundary
      obtain ⟨more, d₃, ran₃, done⟩ := run_bind ran
      cases done
      obtain ⟨length, extent⟩ := ih (by unfold BLOCK_SIZE at *; omega) inside ran₃
      refine ⟨congrArg (· + 1) length, ?_⟩
      have total : blk * BLOCK_SIZE + chr + (count + 1) = blk * BLOCK_SIZE + (chr + 1) + count := by
        omega
      rw [total]
      exact extent

/-! ### Offsets -/

theorem chrOf_natCast (offset : Nat) : chrOf offset = ((offset % BLOCK_SIZE : Nat) : Int) :=
  (Int.ofNat_tmod offset BLOCK_SIZE).symm

/-- The block of an offset, where its number is an `int`. -/
theorem blkOf_natCast {offset : Nat} (small : offset / BLOCK_SIZE < 2147483648) :
    blkOf offset = ((offset / BLOCK_SIZE : Nat) : Int) := by
  unfold blkOf
  rw [← Int.ofNat_tdiv, BitVec.toInt_ofInt]
  generalize offset / BLOCK_SIZE = block at small ⊢
  exact Int.bmod_eq_of_le (by omega) (by omega)

theorem position_eq (offset : Nat) :
    offset / BLOCK_SIZE * BLOCK_SIZE + offset % BLOCK_SIZE = offset :=
  Nat.div_add_mod' offset BLOCK_SIZE

/-- A size is an `int`. -/
theorem size_lt (file : Inode) : file.size < 2147483648 := BitVec.toInt_lt

/-! ### `sfs_read` -/

section Reads

variable {d : Drive} {path : Path} {i offset count : Nat}

/-- **A read that is not refused** looks up the block of the offset and runs the loop. -/
theorem sfs_read_eq (finds : d.Finds path i) (known : (readInode d i).id ≠ -1)
    (within : (offset : Int) ≤ (readInode d i).size) (some_ : count ≠ 0) :
    sfs_read path count offset d =
      (dataAt (readInode d i) (offset / BLOCK_SIZE : Nat) >>= fun block =>
        block_read (D_BLOCK_START + block) >>= fun diskbuf =>
        readLoop (readInode d i) count (offset / BLOCK_SIZE) (offset % BLOCK_SIZE) diskbuf >>=
        fun bytes => pure ((bytes.length : Int), bytes)) d := by
  have bounded := size_lt (readInode d i)
  have block : blkOf offset = ((offset / BLOCK_SIZE : Nat) : Int) :=
    blkOf_natCast (Nat.lt_of_le_of_lt (Nat.div_le_self _ _) (by omega))
  unfold sfs_read
  rw [look_run, finds.file, if_neg known, if_neg (by omega), if_neg some_, block,
    chrOf_natCast, Int.toNat_natCast, Int.toNat_natCast]
  refine congrFun (congrArg _ (funext fun entry => congrArg _ (funext fun diskbuf => ?_))) d
  rw [if_neg (by omega)]

/-- **A read that stays on the blocks of a file returns their bytes.** -/
theorem sfs_read_run (finds : d.Finds path i) (known : (readInode d i).id ≠ -1)
    (within : (offset : Int) ≤ (readInode d i).size)
    (spans : Spans (readInode d i) (offset / BLOCK_SIZE) ((offset + count) / BLOCK_SIZE)) :
    sfs_read path count offset d =
      some (((count : Int), bytesOf d (readInode d i) offset count), d) := by
  by_cases none_ : count = 0
  · subst none_
    unfold sfs_read
    rw [look_run, finds.file, if_neg known, if_neg (by omega), if_pos rfl]
    rfl
  · obtain ⟨inside, n, small, entry⟩ := spans _ (Nat.le_refl _) (Nat.div_le_div_right (by omega))
    have position := position_eq offset
    have loop := @readLoop_run d (readInode d i) count (offset / BLOCK_SIZE)
      (offset % BLOCK_SIZE) (Nat.mod_lt offset (by decide))
      (by rw [position]; exact spans.mono (by omega) (Nat.le_refl _))
    rw [position] at loop
    rw [sfs_read_eq finds known within none_, readEntry_bind inside small entry, then_run loop,
      length_bytesOf]
    rfl

/-- A read that returns has put all bytes, from entries of the array. -/
theorem sfs_read_returned (finds : d.Finds path i) (known : (readInode d i).id ≠ -1)
    (within : (offset : Int) ≤ (readInode d i).size) (some_ : count ≠ 0) {d' : Drive} {ret : Int}
    {bytes : List (BitVec 8)} (ran : sfs_read path count offset d = some ((ret, bytes), d')) :
    ret = (count : Int) ∧ offset + count < 16777216 := by
  rw [sfs_read_eq finds known within some_] at ran
  obtain ⟨block, d₁, entry, ran₁⟩ := run_bind ran
  obtain ⟨_, inside, _, _⟩ := dataAt_run entry
  obtain ⟨diskbuf, d₂, _, ran₂⟩ := run_bind ran₁
  obtain ⟨bytes', d₃, loop, done⟩ := run_bind ran₂
  cases done
  obtain ⟨length, extent⟩ :=
    readLoop_returned count (Nat.mod_lt offset (by decide)) (by omega) loop
  rw [position_eq] at extent
  refine ⟨by rw [length], ?_⟩
  unfold BLOCK_SIZE DATA_ENTRIES at extent
  omega

/-- **The read stops at the end of the file**, and returns the bytes of the file up to there. -/
def StopsAtEnd (d : Drive) (path : Path) (file : Inode) (offset count : Nat) : Prop :=
  let length := min count (file.size.toNat - offset)
  sfs_read path count offset d = some (((length : Int), bytesOf d file offset length), d)

/-- **When a read stops at the end of the file**: it is of no byte, or it does not go further. -/
theorem read_stops_iff (accounts : d.Accounts) (finds : d.Finds path i)
    (within : (offset : Int) ≤ (readInode d i).size) (count : Nat) :
    StopsAtEnd d path (readInode d i) offset count ↔
      count = 0 ∨ (offset + count ≤ (readInode d i).size.toNat ∧ offset + count < 16777216) := by
  have known := accounts.id_ne finds.live
  unfold StopsAtEnd
  dsimp only
  constructor
  · intro stops
    by_cases none_ : count = 0
    · exact Or.inl none_
    · obtain ⟨length, extent⟩ := sfs_read_returned finds known within none_ stops
      exact Or.inr ⟨by omega, extent⟩
  · intro inside
    have most : min count ((readInode d i).size.toNat - offset) = count := by
      rcases inside with none_ | ⟨fits, _⟩ <;> omega
    rw [most]
    rcases inside with rfl | ⟨fits, below⟩
    · unfold sfs_read
      rw [look_run, finds.file, if_neg known, if_neg (by omega), if_pos rfl]
      rfl
    · refine sfs_read_run finds known within ((accounts.spans finds.live ?_ ?_).mono (Nat.zero_le _)
        (Nat.le_refl _))
      · exact Nat.div_le_div_right fits
      · unfold BLOCK_SIZE DATA_ENTRIES
        omega

end Reads

/-! ### A small file -/

theorem zero_lt_inodes : 0 < INODE_LIST_SIZE := by decide

/-- The path of the first file. -/
def firstPath : Path := lettersPath 0 zero_lt_inodes

/-- The file system with an empty file. -/
def emptyFileDrive : Drive := (freshDrive.exec createFirst).getD freshDrive

/-- Two bytes are written to it. -/
def writeFirst : Access := .call (.write firstPath [7, 8] 0 0)

/-- The file system with a file of two bytes. -/
def smallFileDrive : Drive := (emptyFileDrive.exec writeFirst).getD emptyFileDrive

theorem eq_some_getD {o : Option Drive} (d : Drive) (taken : o.isSome = true) : o = some (o.getD d) := by
  obtain ⟨d', rfl⟩ := Option.isSome_iff_exists.mp taken
  rfl

theorem emptyFileDrive_kept : Kept emptyFileDrive := by
  have sound : freshDrive.Sound createFirst := fun _ => ⟨0, by decide, by decide +kernel⟩
  exact (Kept.fresh freshDrive_fresh).step sound (eq_some_getD _ (by decide +kernel))

theorem emptyFileDrive_names : emptyFileDrive.Names firstPath 1 :=
  ⟨⟨by decide +kernel, by decide, by decide, by decide +kernel⟩, by decide⟩

theorem smallFileDrive_kept : Kept smallFileDrive := by
  have sound : emptyFileDrive.Sound writeFirst := by
    refine fun _ _ => ⟨by decide, fun i found => ?_⟩
    have same := found.symm.trans emptyFileDrive_names.found
    cases same
    have empty : (readInode emptyFileDrive 1).size = 0 := by decide +kernel
    refine @Fits.of_within _ _ 0 _ (Int.le_of_eq empty.symm) (by rw [empty]; decide) ?_
    rw [empty]
    exact Nat.zero_le _
  exact emptyFileDrive_kept.step sound (eq_some_getD _ (by decide +kernel))

theorem smallFileDrive_names : smallFileDrive.Names firstPath 1 :=
  ⟨⟨by decide +kernel, by decide, by decide, by decide +kernel⟩, by decide⟩

theorem smallFileDrive_size : (readInode smallFileDrive 1).size = 2 := by decide +kernel

/-- The last byte of the small file is read. -/
theorem read_stops_smallFile : StopsAtEnd smallFileDrive firstPath (readInode smallFileDrive 1) 1 1 :=
  (read_stops_iff smallFileDrive_kept.accounts smallFileDrive_names.toFinds
    (by rw [smallFileDrive_size]; decide) 1).mpr (Or.inr (by rw [smallFileDrive_size]; decide))

/-- **A read of the empty file returns a byte.** -/
theorem read_not_stops : ¬ ∀ (d : Drive) (path : Path) (i offset count : Nat), d.Accounts →
    d.Finds path i → (offset : Int) ≤ (readInode d i).size →
    StopsAtEnd d path (readInode d i) offset count := by
  intro stops
  have empty : (readInode emptyFileDrive 1).size = 0 := by decide +kernel
  have accounts := emptyFileDrive_kept.accounts
  have finds := emptyFileDrive_names.toFinds
  have within : ((0 : Nat) : Int) ≤ (readInode emptyFileDrive 1).size := by rw [empty]; decide
  have ran := stops emptyFileDrive firstPath 1 0 1 accounts finds within
  obtain ⟨length, _⟩ :=
    sfs_read_returned finds (accounts.id_ne finds.live) within Nat.one_ne_zero ran
  rw [empty] at length
  exact absurd length (by decide)

end OS2017.Files
