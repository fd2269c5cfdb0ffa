/-
**The array `data` and the maximal size.**

A subscript of `data` that is not in the array gives no result. The size of 16777216 bytes is looked for
at one place only, where a file grows over a boundary; `sfs_read`, `sfs_unlink`, the gap of `sfs_write` and
the end of its blocks take subscripts without it. Along a run whose calls stay in the array by themselves
(`Drive.Bounded`), all calls have a result and no size is over the maximum (`calls_bounded`).
-/

import OS2017.Files.Failures
import OS2017.Files.Releases

namespace OS2017.Files

open OS2017.Bytes OS2017.Run

/-! ### The records -/

/-- A record that is an inode: its number is one of the table, its size is not over the maximum, its
entries are data blocks. -/
structure Regular (file : Inode) : Prop where
  slot : 0 ≤ file.id ∧ file.id < INODE_LIST_SIZE
  sized : 0 ≤ file.size ∧ file.size ≤ 16777216
  inRange : InRange file

/-- The records of the disk, the root's aside. -/
def Drive.Limited (d : Drive) : Prop := ∀ i, 0 < i → i < INODE_LIST_SIZE → Regular (readInode d i)

theorem Regular.setSize {file : Inode} (regular : Regular file) (small : file.size < 16777216) :
    Regular (file.setSize (file.size + 1)) where
  slot := by
    rw [Inode.id_setSize]
    exact regular.slot
  sized := by
    have sized := regular.sized
    rw [size_succ ⟨sized.1, small⟩]
    omega
  inRange := regular.inRange.setSize _

theorem Regular.setData {file : Inode} (regular : Regular file) (k : Nat) {n : Nat}
    (small : n < BLOCK_LIST_SIZE) : Regular (file.setData k n) where
  slot := by
    rw [Inode.id_setData]
    exact regular.slot
  sized := by
    rw [Inode.size_setData]
    exact regular.sized
  inRange := regular.inRange.setData k small

theorem Regular.record {file : Inode} (regular : Regular file) : Regular file.record where
  slot := by
    rw [Inode.id_record]
    exact regular.slot
  sized := by
    rw [Inode.size_record]
    exact regular.sized
  inRange := regular.inRange.record

theorem Drive.Limited.of_table {d d' : Drive} (limited : d.Limited) (table : SameTable d d') :
    d'.Limited := fun i positive small => by
  rw [table.readInode i small]
  exact limited i positive small

theorem Drive.Limited.markInode {d : Drive} (limited : d.Limited) (n : Nat) (free : Bool) :
    (d.markInode n free).Limited := fun i positive small => by
  rw [readInode_markInode]
  exact limited i positive small

theorem Drive.Limited.putInode {d : Drive} (limited : d.Limited) (n : Nat) {file : Inode}
    (regular : Regular file) : (d.putInode n file).Limited := fun i positive small => by
  rw [readInode_putInode]
  split
  · exact regular.record
  · exact limited i positive small

/-- An inode is written to its slot. -/
theorem Regular.writeInode_run {file : Inode} (regular : Regular file) (d : Drive) :
    writeInode file d = some ((), d.putInode file.id.toNat file) := by
  obtain ⟨lower, upper⟩ := regular.slot
  exact Files.writeInode_run (by omega) (by omega) d

theorem Regular.flush_bind {α : Type} {file : Inode} (regular : Regular file) {blk : Nat}
    (inside : blk < DATA_ENTRIES) (diskbuf : Memory) (rest : Unit → StateT Drive Option α) (d : Drive) :
    ∃ n, (flush file blk diskbuf >>= rest) d = rest () (d.putData n diskbuf) := by
  obtain ⟨n, small, entry⟩ := regular.inRange blk inside
  exact ⟨n, Files.flush_bind inside small entry rest⟩

theorem Regular.readEntry_bind {α : Type} {file : Inode} (regular : Regular file) {blk : Nat}
    (inside : blk < DATA_ENTRIES) (rest : Memory → StateT Drive Option α) (d : Drive) :
    (dataAt file blk >>= fun block => block_read (D_BLOCK_START + block) >>= rest) d =
      rest (d.content (file.data blk).toNat) d := by
  obtain ⟨n, small, entry⟩ := regular.inRange blk inside
  exact Files.readEntry_bind inside small entry rest d

/-! ### The loop of `sfs_write` -/

/-- **The bytes to come stay in the array**, with the next one at `pos`: those in the file, or at its end,
where the file can still grow or the maximum is not reached; those behind the end, where each byte that would
take a subscript behind the array comes after the last free block is taken. -/
def Stays (free size pos count : Nat) : Prop :=
  (pos ≤ size ∧ (size < 16777216 ∨ pos + count < 16777216)) ∨
    (size < pos ∧ ∀ n, 0 < n → n ≤ count →
      (pos + n = 16777216 ∨ ((size + n) % BLOCK_SIZE = 0 ∧ 1023 * BLOCK_SIZE < pos + n)) →
      free < (size + n) / BLOCK_SIZE - size / BLOCK_SIZE)

/-- The growth by a byte has a result. -/
theorem growFile_returns {file : Inode} {blk chr : Nat} {d : Drive} (sized : 0 ≤ file.size)
    (bounded : file.size ≤ 16777216) (small : blk * BLOCK_SIZE + chr + 1 ≤ 16777216)
    (room : file.size.toNat ≤ blk * BLOCK_SIZE + chr → (file.size.toNat + 1) % BLOCK_SIZE = 0 →
      file.size.toNat + 1 ≠ 16777216 → freeBlocks d ≠ 0 → blk + 1 < DATA_ENTRIES) :
    Returns (growFile file blk (chr + 1)) d (GrowStep file blk (chr + 1) d) := by
  suffices some_ : ∃ growth d', growFile file blk (chr + 1) d = some (growth, d') by
    obtain ⟨growth, d', ran⟩ := some_
    exact ⟨growth, d', ran, growFile_step ran⟩
  unfold growFile
  by_cases beyond : ((chr + 1 + blk * BLOCK_SIZE : Nat) : Int) > file.size
  · have succ := @size_succ file ⟨sized, by omega⟩
    obtain ⟨n, size⟩ := Int.eq_ofNat_of_zero_le sized
    have rem : ((n : Int) + 1).tmod BLOCK_SIZE = (((n + 1) % BLOCK_SIZE : Nat) : Int) :=
      (Int.ofNat_tmod (n + 1) BLOCK_SIZE).symm
    rw [size, Int.toNat_natCast] at room
    rw [if_pos beyond, succ, size, rem]
    by_cases boundary : (n + 1) % BLOCK_SIZE = 0
    · rw [if_pos (by omega)]
      by_cases maximal : n + 1 = 16777216
      · rw [if_pos (by omega)]
        exact ⟨_, _, rfl⟩
      · rw [if_neg (by omega), look_run]
        rcases findNextOpenBlock_cases d with ⟨m, below, found, available, _⟩ | ⟨found, _⟩
        · have some_ : freeBlocks d ≠ 0 := by
            intro none_
            rw [freeBlocks_eq_zero.mp none_ m below] at available
            cases available
          have inside := room (by omega) boundary maximal some_
          have assigned : setDataAt (file.setSize ((n : Int) + 1)) ((blk : Int) + 1) (m : Int) d =
              some ((file.setSize ((n : Int) + 1)).setData (blk + 1) m, d) := by
            unfold setDataAt
            rw [if_pos (by omega)]
            rfl
          have marked := setBlock_run (n := m) (by unfold BLOCK_LIST_SIZE at below; omega) 0 d
          rw [found, if_neg (by omega), then_run assigned, then_run marked]
          exact ⟨_, _, rfl⟩
        · rw [found, if_pos rfl]
          exact ⟨_, _, rfl⟩
    · rw [if_neg (by omega)]
      exact ⟨_, _, rfl⟩
  · rw [if_neg beyond]
    exact ⟨_, _, rfl⟩

/-- **A step of the loop**: the file that goes on is an inode, the next block is in the array where it is
needed, and the bytes to come still stay. -/
theorem Stays.step {file file' : Inode} {blk chr count : Nat} {d d' : Drive} (regular : Regular file)
    (within : chr < BLOCK_SIZE) (inside : blk < DATA_ENTRIES)
    (stays : Stays (freeBlocks d) file.size.toNat (blk * BLOCK_SIZE + chr) (count + 1))
    (step : GrowStep file blk (chr + 1) d (.grown file') d') :
    Regular file' ∧ SameTable d d' ∧ (chr + 1 = BLOCK_SIZE → blk + 1 < DATA_ENTRIES) ∧
      Stays (freeBlocks d') file'.size.toNat (blk * BLOCK_SIZE + chr + 1) count := by
  have sized := regular.sized
  have small : blk * BLOCK_SIZE + chr + 1 ≤ 16777216 := by
    unfold BLOCK_SIZE DATA_ENTRIES at *
    omega
  obtain ⟨n, size⟩ := Int.eq_ofNat_of_zero_le sized.1
  rw [size, Int.toNat_natCast] at stays
  cases step with
  | inside contained =>
    refine ⟨regular, .refl d, fun last => ?_, ?_⟩
    · unfold DATA_ENTRIES
      unfold BLOCK_SIZE at *
      rcases stays with ⟨_, room⟩ | ⟨behind, _⟩ <;> omega
    · rw [size, Int.toNat_natCast]
      rcases stays with ⟨reached, room⟩ | ⟨behind, _⟩
      · exact Or.inl ⟨by omega, room.imp_right fun fits => by omega⟩
      · omega
  | longer beyond same =>
    have succ := @size_succ file ⟨sized.1, by omega⟩
    have rem : ((n : Int) + 1).tmod BLOCK_SIZE = (((n + 1) % BLOCK_SIZE : Nat) : Int) :=
      (Int.ofNat_tmod (n + 1) BLOCK_SIZE).symm
    rw [succ, size, rem] at same
    have size' : (file.setSize (file.size + 1)).size.toNat = n + 1 := by
      rw [succ, size]
      rfl
    have quotient : (n + 1) / BLOCK_SIZE = n / BLOCK_SIZE := by
      unfold BLOCK_SIZE at *
      omega
    refine ⟨regular.setSize (by omega), .refl d, fun last => ?_, ?_⟩
    · unfold DATA_ENTRIES
      rcases stays with ⟨reached, room⟩ | ⟨behind, counted⟩
      · unfold BLOCK_SIZE at *
        omega
      · have first := counted 1 (by omega) (by omega)
        rw [quotient] at first
        unfold BLOCK_SIZE at *
        omega
    · rw [size']
      rcases stays with ⟨reached, room⟩ | ⟨behind, counted⟩
      · refine Or.inl ⟨by omega, Or.inl ?_⟩
        unfold BLOCK_SIZE at same
        omega
      · refine Or.inr ⟨by omega, fun m positive upTo trigger => ?_⟩
        have size₁ : n + 1 + m = n + (m + 1) := by omega
        have pos₁ : blk * BLOCK_SIZE + chr + 1 + m = blk * BLOCK_SIZE + chr + (m + 1) := by omega
        rw [size₁, pos₁] at trigger
        rw [quotient, size₁]
        exact counted (m + 1) (by omega) (by omega) trigger
  | block m beyond multiple smaller below available inside' =>
    have succ := @size_succ file ⟨sized.1, by omega⟩
    have rem : ((n : Int) + 1).tmod BLOCK_SIZE = (((n + 1) % BLOCK_SIZE : Nat) : Int) :=
      (Int.ofNat_tmod (n + 1) BLOCK_SIZE).symm
    rw [succ, size] at multiple smaller
    rw [rem] at multiple
    have size' : ((file.setSize (file.size + 1)).setData (blk + 1) m).size.toNat = n + 1 := by
      rw [Inode.size_setData, succ, size]
      rfl
    have quotient : (n + 1) / BLOCK_SIZE = n / BLOCK_SIZE + 1 := by
      unfold BLOCK_SIZE at *
      omega
    have taken := freeBlocks_markBlock below available
    refine ⟨(regular.setSize (by omega)).setData _ below, .markBlock d m false, fun _ => inside', ?_⟩
    rw [size']
    rcases stays with ⟨reached, room⟩ | ⟨behind, counted⟩
    · exact Or.inl ⟨by omega, Or.inl (by omega)⟩
    · refine Or.inr ⟨by omega, fun k positive upTo trigger => ?_⟩
      have size₁ : n + 1 + k = n + (k + 1) := by omega
      have pos₁ : blk * BLOCK_SIZE + chr + 1 + k = blk * BLOCK_SIZE + chr + (k + 1) := by omega
      rw [size₁, pos₁] at trigger
      have later := counted (k + 1) (by omega) (by omega) trigger
      rw [size₁]
      omega

/-- **The loop of `sfs_write` has a result**, and writes back an inode. -/
theorem writeLoop_limited : ∀ (rest : List (BitVec 8)) {file : Inode} {blk chr written : Nat}
    {diskbuf : Memory} {d : Drive}, d.Limited → Regular file → chr < BLOCK_SIZE → blk < DATA_ENTRIES →
    Stays (freeBlocks d) file.size.toNat (blk * BLOCK_SIZE + chr) rest.length →
    Returns (writeLoop rest file blk chr diskbuf written) d fun _ d' => d'.Limited := by
  intro rest
  induction rest with
  | nil =>
    intro file blk chr written diskbuf d limited regular _ inside _
    obtain ⟨n, flushed⟩ := regular.flush_bind inside diskbuf
      (fun _ => writeInode file >>= fun _ => pure (written : Int)) d
    refine ⟨written, _, flushed.trans (then_run (regular.writeInode_run _) _), ?_⟩
    exact (limited.of_table (.putData d n diskbuf)).putInode _ regular
  | cons byte rest ih =>
    intro file blk chr written diskbuf d limited regular within inside stays
    have sized := regular.sized
    rw [List.length_cons] at stays
    have small : blk * BLOCK_SIZE + chr + 1 ≤ 16777216 := by
      unfold BLOCK_SIZE DATA_ENTRIES at *
      omega
    refine Returns.bind ((growFile_returns sized.1 sized.2 small fun atEnd boundary smaller some_ => ?_).mono
      fun growth d' step => ?_)
    · unfold DATA_ENTRIES
      rcases stays with ⟨reached, room⟩ | ⟨behind, counted⟩
      · unfold BLOCK_SIZE at *
        omega
      · have first := counted 1 (by omega) (by omega)
        have quotient : (file.size.toNat + 1) / BLOCK_SIZE = file.size.toNat / BLOCK_SIZE + 1 := by
          unfold BLOCK_SIZE at *
          omega
        rw [quotient] at first
        unfold BLOCK_SIZE at *
        omega
    · cases growth with
      | noSpace =>
        cases step with
        | noSpace => exact Returns.pure limited
      | full file' =>
        cases step with
        | full beyond maximal =>
          have regular' := regular.setSize (by omega)
          obtain ⟨n, flushed⟩ := regular'.flush_bind inside (Function.update diskbuf chr byte)
            (fun _ => writeInode (file.setSize (file.size + 1)) >>= fun _ => pure ((written : Int) + 1)) d
          refine ⟨written + 1, _, flushed.trans (then_run (regular'.writeInode_run _) _), ?_⟩
          exact (limited.of_table (.putData d n _)).putInode _ regular'
      | grown file' =>
        obtain ⟨regular', table, next, stays'⟩ := stays.step regular within inside step
        have limited' := limited.of_table table
        dsimp only
        by_cases boundary : (chr + 1) % BLOCK_SIZE = 0
        · have full : chr + 1 = BLOCK_SIZE := by
            unfold BLOCK_SIZE at *
            omega
          have turned : blk * BLOCK_SIZE + chr + 1 = (blk + 1) * BLOCK_SIZE + 0 := by
            unfold BLOCK_SIZE at *
            omega
          have cast : ((blk : Int) + 1) = ((blk + 1 : Nat) : Int) := rfl
          obtain ⟨n, flushed⟩ := regular'.flush_bind inside (Function.update diskbuf chr byte)
            (fun _ => dataAt file' ((blk + 1 : Nat) : Int) >>= fun block =>
              block_read (D_BLOCK_START + block) >>= fun diskbuf =>
              writeLoop rest file' (blk + 1) 0 diskbuf (written + 1)) d'
          have free := freeBlocks_congr fun k =>
            blockFree_putData d' n k (Function.update diskbuf chr byte)
          have loop : Returns (writeLoop rest file' (blk + 1) 0
              ((d'.putData n (Function.update diskbuf chr byte)).content
                (file'.data (blk + 1)).toNat) (written + 1))
              (d'.putData n (Function.update diskbuf chr byte)) fun _ d'' => d''.Limited := ih
            (limited'.of_table (.putData d' n (Function.update diskbuf chr byte))) regular'
            (show 0 < BLOCK_SIZE by decide) (next full) (by rw [free, ← turned]; exact stays')
          obtain ⟨ret, d'', ran, limited''⟩ := loop
          refine ⟨ret, d'', ?_, limited''⟩
          rw [if_pos boundary, cast]
          exact flushed.trans ((regular'.readEntry_bind (next full) _ _).trans ran)
        · rw [if_neg boundary]
          exact ih limited' regular' (by unfold BLOCK_SIZE at *; omega) inside (by
            rw [← Nat.add_assoc]
            exact stays')

/-! ### The calls -/

/-- **The gap has a result**, where no entry behind the array is given a block. -/
theorem fillGap_limited : ∀ (count blksOwned : Nat) {file : Inode} {d : Drive}, Regular file →
    (min count (freeBlocks d) = 0 ∨ blksOwned + min count (freeBlocks d) < DATA_ENTRIES) →
    Returns (fillGap count blksOwned file) d fun filled d' => SameTable d d' ∧
      ∀ file', filled = some file' →
        Regular file' ∧ file'.size = file.size ∧ freeBlocks d' + count = freeBlocks d := by
  intro count
  induction count with
  | zero =>
    intro blksOwned file d regular _
    refine Returns.pure ⟨.refl d, ?_⟩
    rintro file' ⟨⟩
    exact ⟨regular, rfl, rfl⟩
  | succ count ih =>
    intro blksOwned file d regular room
    by_cases full : freeBlocks d = 0
    · refine ⟨none, d, fillGap_full full, .refl d, ?_⟩
      rintro file' ⟨⟩
    · rcases findNextOpenBlock_cases d with ⟨n, below, found, available, _⟩ | ⟨_, taken⟩
      · have fewer := freeBlocks_markBlock below available
        have run := ih (blksOwned + 1) (regular.setData (blksOwned + 1) below) (d := d.markBlock n false)
          (by unfold DATA_ENTRIES at *; omega)
        obtain ⟨filled, d', ran, table, result⟩ := run
        refine ⟨filled, d', (fillGap_succ (by unfold DATA_ENTRIES at *; omega) below found).trans ran,
          (SameTable.markBlock d n false).trans table, fun file' same => ?_⟩
        obtain ⟨regular', size, count'⟩ := result file' same
        exact ⟨regular', size.trans (Inode.size_setData file _ _), by omega⟩
      · exact absurd (freeBlocks_eq_zero.mpr taken) full

/-- **A write that stays in the array**: from inside a file, the file can grow or the maximum is not
reached; from behind it, the entries there are are not passed before the last free block is taken. -/
def InArray (free size offset count : Nat) : Prop :=
  if offset ≤ size then size < 16777216 ∨ offset + count < 16777216
  else if offset < 16777216 then ∀ n, 0 < n → n ≤ count →
    (offset + n = 16777216 ∨ ((size + n) % BLOCK_SIZE = 0 ∧ 1023 * BLOCK_SIZE < offset + n)) →
    free < (offset / BLOCK_SIZE - (size / BLOCK_SIZE + 1)) +
      ((size + n) / BLOCK_SIZE - size / BLOCK_SIZE)
  else size / BLOCK_SIZE + 1 < offset / BLOCK_SIZE ∧
    (free = 0 ∨ size / BLOCK_SIZE + 1 + free < DATA_ENTRIES)

/-- **The calls that stay in the array.** They are not made on the root. -/
def Drive.Bounded (d : Drive) : Access → Prop
  | .call (.create _ _ _) => True
  | .call (.write path buf offset fh) => ∀ i, inodeOf d path = some i → fh ≠ -1 → buf ≠ [] → i ≠ 0 ∧
      0 ≤ offset ∧ 0 ≤ blkOf offset ∧
      InArray (freeBlocks d) (readInode d i).size.toNat (landing offset.toNat) buf.length
  | .call (.unlink path) => ∀ i, inodeOf d path = some i → i ≠ 0 ∧
      ((BitVec.ofInt 32 ((readInode d i).hardlinks - 2)).toInt < 1 →
        (readInode d i).size.toNat / BLOCK_SIZE + 1 < DATA_ENTRIES)
  | .read path count offset => ∀ i, inodeOf d path = some i → i ≠ 0 ∧
      (offset ≤ (readInode d i).size → count ≠ 0 → 0 ≤ offset ∧ offset.toNat + count < 16777216)

section Calls

variable {d : Drive} {path : Path} {i : Nat}

theorem finds_of_found (found : inodeOf d path = some i) (file : i ≠ 0) : d.Finds path i := by
  obtain ⟨small, used, _⟩ := inodeOf_some found
  exact ⟨found, Nat.pos_of_ne_zero file, small, used⟩

theorem Regular.known {file : Inode} (regular : Regular file) : file.id ≠ -1 := by
  have slot := regular.slot
  omega

/-- A write that is not refused. -/
theorem sfs_write_limited (limited : d.Limited) (finds : d.Finds path i) {buf : List (BitVec 8)}
    {offset : Nat} {fh : BitVec 64} (handle : fh ≠ -1) (some_ : buf ≠ [])
    (small : offset / BLOCK_SIZE < 2147483648)
    (within : InArray (freeBlocks d) (readInode d i).size.toNat offset buf.length) :
    Returns (sfs_write path buf offset fh) d fun _ d' => d'.Limited := by
  have regular := limited i finds.live.1 finds.live.2.1
  have sized := regular.sized
  have position := position_eq offset
  have low := Nat.mod_lt offset (show 0 < BLOCK_SIZE by decide)
  unfold InArray at within
  have run := fillGap_limited (offset / BLOCK_SIZE - ((readInode d i).size.toNat / BLOCK_SIZE + 1))
    ((readInode d i).size.toNat / BLOCK_SIZE + 1) (d := d) regular (by
      unfold BLOCK_SIZE DATA_ENTRIES at *
      split at within <;> try split at within
      all_goals omega)
  obtain ⟨filled, d₁, gap, table, result⟩ := run
  have limited₁ := limited.of_table table
  have write := sfs_write_eq finds regular.known handle some_ sized.1 small
  rw [then_run gap] at write
  cases filled with
  | none => exact ⟨-1, d₁, write, limited₁⟩
  | some file =>
    obtain ⟨regular', size, free⟩ := result file rfl
    have block : offset / BLOCK_SIZE < DATA_ENTRIES := by
      unfold BLOCK_SIZE DATA_ENTRIES at *
      split at within <;> try split at within
      all_goals omega
    have stays : Stays (freeBlocks d₁) file.size.toNat
        (offset / BLOCK_SIZE * BLOCK_SIZE + offset % BLOCK_SIZE) buf.length := by
      rw [position, size]
      by_cases inside : offset ≤ (readInode d i).size.toNat
      · rw [if_pos inside] at within
        exact Or.inl ⟨inside, within⟩
      · rw [if_neg inside, if_pos (by unfold BLOCK_SIZE DATA_ENTRIES at *; omega)] at within
        refine Or.inr ⟨by omega, fun n positive upTo trigger => ?_⟩
        have later := within n positive upTo trigger
        omega
    obtain ⟨ret, d', ran, limited'⟩ := @writeLoop_limited buf file (offset / BLOCK_SIZE)
      (offset % BLOCK_SIZE) 0 (d₁.content (file.data (offset / BLOCK_SIZE)).toNat) d₁ limited₁ regular' low
      block stays
    refine ⟨ret, d', write.trans ?_, limited'⟩
    dsimp only
    exact (regular'.readEntry_bind block _ _).trans ran

/-- **A call that stays in the array has a result**, and leaves inodes. -/
theorem Drive.Limited.exec {access : Access} (limited : d.Limited) (bounded : d.Bounded access) :
    ∃ d', d.exec access = some d' ∧ d'.Limited := by
  match access with
  | .call (.create path mode fh) =>
    obtain ⟨⟨ret, fh'⟩, d', ran, step⟩ := sfs_create_returns path mode fh d
    refine ⟨d', Option.map_eq_some_iff.mpr ⟨_, ran, rfl⟩, ?_⟩
    cases step with
    | noInode => exact limited
    | noBlock i => exact limited.markInode i false
    | created i n slot free _ below =>
      intro j positive small
      rw [readInode_putInode, readInode_markBlock, readInode_markInode]
      split
      · rename_i here
        subst here
        refine Regular.record ⟨?_, ?_, createdInode_inRange path mode below (limited j positive small).inRange⟩
        · rw [createdInode_id d path mode n small]
          omega
        · rw [createdInode_size]
          decide
      · exact limited j positive small
  | .call (.write path buf offset fh) =>
    suffices returns : Returns (sfs_write path buf offset fh) d fun _ d' => d'.Limited by
      obtain ⟨ret, d', ran, limited'⟩ := returns
      exact ⟨d', Option.map_eq_some_iff.mpr ⟨_, ran, rfl⟩, limited'⟩
    cases found : inodeOf d path with
    | none =>
      unfold sfs_write
      refine Returns.look_bind ?_
      rw [missing_file found, if_pos badresult_id]
      exact Returns.pure limited
    | some i =>
      by_cases refused : fh = -1 ∨ buf = []
      · unfold sfs_write
        refine Returns.look_bind ?_
        split
        · exact Returns.pure limited
        · rcases refused with handle | none_
          · rw [if_pos handle]
            exact Returns.pure limited
          · by_cases handle : fh = -1
            · rw [if_pos handle]
              exact Returns.pure limited
            · rw [if_neg handle, if_pos none_]
              exact Returns.pure limited
      · have handle : fh ≠ -1 := fun handle => refused (Or.inl handle)
        have some_ : buf ≠ [] := fun none_ => refused (Or.inr none_)
        obtain ⟨file, positive, block, within⟩ := bounded i found handle some_
        obtain ⟨n, rfl⟩ := Int.eq_ofNat_of_zero_le positive
        rw [Int.toNat_natCast] at within
        have bound := blkOf_lt n
        obtain ⟨ret, d', ran, limited'⟩ := sfs_write_limited limited (finds_of_found found file) handle some_
          (by rw [landing_div]; omega) within
        rw [sfs_write_landing block] at ran
        exact ⟨ret, d', ran, limited'⟩
  | .call (.unlink path) =>
    suffices returns : Returns (sfs_unlink path) d fun _ d' => d'.Limited by
      obtain ⟨ret, d', ran, limited'⟩ := returns
      exact ⟨d', Option.map_eq_some_iff.mpr ⟨_, ran, rfl⟩, limited'⟩
    cases found : inodeOf d path with
    | none =>
      unfold sfs_unlink
      refine Returns.look_bind ?_
      rw [missing_file found, if_pos badresult_id]
      exact Returns.pure limited
    | some i =>
      obtain ⟨file, inside⟩ := bounded i found
      have finds := finds_of_found found file
      have regular := limited i finds.live.1 finds.live.2.1
      obtain ⟨lower, upper⟩ := regular.slot
      have freed : ∀ d', setInode (readInode d i).id 1 d' =
          some ((), d'.markInode (readInode d i).id.toNat true) := by
        intro d'
        have slot : (readInode d i).id = ((readInode d i).id.toNat : Int) := by omega
        rw [slot]
        exact setInode_run (by omega) 1 d'
      have run := sfs_unlink_eq finds regular.known regular.sized.1
      by_cases unlinked : (BitVec.ofInt 32 ((readInode d i).hardlinks - 2)).toInt < 1
      · rw [if_pos unlinked] at run
        have within := inside unlinked
        obtain ⟨a, d₁, loop, released, _⟩ := @releaseBlocks_returns ((readInode d i).setHardlinks
          ((readInode d i).hardlinks - 2)) (List.range ((readInode d i).size.toNat / BLOCK_SIZE + 2)) d
          fun k member => by
            have below := List.mem_range.mp member
            have inside' : k < DATA_ENTRIES := by omega
            obtain ⟨n, small, entry⟩ := regular.inRange.setHardlinks ((readInode d i).hardlinks - 2) k inside'
            exact ⟨inside', n, by unfold BLOCK_LIST_SIZE at small; unfold BLOCK_SIZE; omega, entry⟩
        rw [then_run loop, then_run (freed d₁)] at run
        exact ⟨0, _, run, (limited.of_table released.table).markInode _ _⟩
      · rw [if_neg unlinked, then_run (freed d)] at run
        exact ⟨0, _, run, limited.markInode _ _⟩
  | .read path count offset =>
    suffices returns : ∃ result, sfs_read path count offset d = some (result, d) by
      obtain ⟨result, ran⟩ := returns
      exact ⟨d, Option.map_eq_some_iff.mpr ⟨_, ran, rfl⟩, limited⟩
    cases found : inodeOf d path with
    | none =>
      unfold sfs_read
      rw [look_run, missing_file found, if_pos badresult_id]
      exact ⟨_, rfl⟩
    | some i =>
      obtain ⟨file, inside⟩ := bounded i found
      have finds := finds_of_found found file
      have regular := limited i finds.live.1 finds.live.2.1
      by_cases within : offset ≤ (readInode d i).size
      · by_cases none_ : count = 0
        · unfold sfs_read
          rw [look_run, finds.file, if_neg regular.known, if_neg (by omega), if_pos none_]
          exact ⟨_, rfl⟩
        · obtain ⟨positive, below⟩ := inside within none_
          obtain ⟨n, rfl⟩ := Int.eq_ofNat_of_zero_le positive
          rw [Int.toNat_natCast] at below
          refine ⟨_, sfs_read_run finds regular.known within fun k _ upTo => ?_⟩
          have block : k < DATA_ENTRIES := by
            unfold BLOCK_SIZE DATA_ENTRIES at *
            omega
          exact ⟨block, regular.inRange k block⟩
      · unfold sfs_read
        rw [look_run, finds.file, if_neg regular.known, if_pos (by omega)]
        exact ⟨_, rfl⟩

end Calls

/-! ### The runs -/

/-- The records of zeros. -/
theorem Drive.Limited.fresh {d : Drive} (fresh : d.Fresh) : d.Limited := fun i positive small => by
  have named : Named ⟨d, []⟩ := Named.fresh ⟨fresh, rfl⟩
  obtain ⟨stack, ran⟩ := fresh
  have unset : checkIfInit ⟨zeroDisk, []⟩ ≠ 1 := by decide
  have zero : readInode ⟨zeroDisk, []⟩ i = fun _ => 0 := by
    funext a
    unfold readInode zeroDisk
    simp
  have record : readInode d i = fun _ => 0 := by
    rw [readInode_initialised unset ran, if_neg (by omega), zero]
  have word : (0#8 ++ 0#8 ++ 0#8 ++ 0#8 : BitVec 32).toInt = 0 := by decide
  have slot : (readInode d i).id = 0 := by
    rw [record]
    exact word
  have size : (readInode d i).size = 0 := by
    rw [record]
    exact word
  refine ⟨?_, ?_, named.inRange i positive small⟩
  · rw [slot]
    decide
  · rw [size]
    decide

/-- **No call leaves the array, no size is over the maximum**, along every run whose calls stay in the array. -/
theorem calls_bounded {d : Drive}
    (reached : Reach Drive.Fresh Drive.Bounded (execStep Drive.exec) d) :
    (∀ i, d.Live i → 0 ≤ (readInode d i).size ∧ (readInode d i).size ≤ 16777216) ∧
      ∀ access, d.Bounded access → (d.exec access).isSome := by
  have limited : d.Limited := reached.invariant Drive.Limited (fun _ fresh => Drive.Limited.fresh fresh)
    fun s access s' limited bounded taken => by
      obtain ⟨d', ran, limited'⟩ := limited.exec bounded
      cases ran.symm.trans taken
      exact limited'
  refine ⟨fun i live => (limited i live.1 live.2.1).sized, fun access bounded => ?_⟩
  obtain ⟨d', ran, _⟩ := limited.exec bounded
  exact Option.isSome_iff_exists.mpr ⟨d', ran⟩

theorem emptyFileDrive_created : freshDrive.exec createFirst = some emptyFileDrive :=
  eq_some_getD _ (by decide +kernel)

/-- A read of a byte. -/
def readFirst : Access := .read firstPath 1 0

theorem calls_bounded_emptyFile : (emptyFileDrive.exec readFirst).isSome := by
  have reached : Reach Drive.Fresh Drive.Bounded (execStep Drive.exec) emptyFileDrive :=
    .next (.init freshDrive_fresh) (e := createFirst) trivial emptyFileDrive_created
  refine (calls_bounded reached).2 readFirst fun i found => ?_
  have same := found.symm.trans emptyFileDrive_names.found
  cases same
  exact ⟨by decide, fun _ _ => ⟨by decide, by decide⟩⟩

/-- **A read of 16777216 bytes takes a subscript behind the array.** -/
theorem calls_not_bounded : ¬ ∀ d, Reach Drive.Fresh anyStep (execStep Drive.exec) d →
    (∀ i, d.Live i → 0 ≤ (readInode d i).size ∧ (readInode d i).size ≤ 16777216) ∧
      ∀ access, (d.exec access).isSome := by
  intro bounded
  have reached : Reach Drive.Fresh anyStep (execStep Drive.exec) emptyFileDrive :=
    .next (.init freshDrive_fresh) trivial emptyFileDrive_created
  have some_ := (bounded emptyFileDrive reached).2 (.read firstPath 16777216 0)
  have known : (readInode emptyFileDrive 1).id ≠ -1 := by decide +kernel
  have size : (readInode emptyFileDrive 1).size = 0 := by decide +kernel
  have none_ := @sfs_read_none emptyFileDrive firstPath 1 0 16777216 emptyFileDrive_names.toFinds
    known (by rw [size]; decide) (by decide) (by decide)
  unfold Drive.exec at some_
  dsimp only at some_
  rw [show (0 : Int) = ((0 : Nat) : Int) from rfl, none_] at some_
  cases some_

end OS2017.Files
