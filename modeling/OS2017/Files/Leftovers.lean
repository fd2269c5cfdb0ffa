/-
**A write, and what the other files read.**

A read behind the end of a file goes on over the entries of `data` that are left from earlier files, or
were never set, and returns the bytes of the blocks they lead to. A write that starts in its file and finds
its blocks splices the buffer into the file, but such a read of another file may see it: where an entry
behind the end of another file leads to a block that the write changes (`Drive.Disturbs`). Without one, all
reads of the other files are as before (`write_splices`).
-/

import OS2017.Files.Splicing
import OS2017.Files.Releases

namespace OS2017.Files

open OS2017.Bytes OS2017.Splice

/-! ### The blocks of a write -/

/-- **The data blocks a write puts bytes to**: those of the file that it comes to, and for the growth the
first free ones. -/
def Drive.Writes (d : Drive) (i offset count n : Nat) : Prop :=
  (∃ k, offset / BLOCK_SIZE ≤ k ∧ k * BLOCK_SIZE < offset + count ∧
      k ≤ (readInode d i).size.toNat / BLOCK_SIZE ∧ (readInode d i).data k = (n : Int)) ∨
    (d.blockFree n = true ∧
      ((readInode d i).size.toNat / BLOCK_SIZE + 1 + freeBefore d n) * BLOCK_SIZE < offset + count)

/-- **A write changes what the entry `value` leads to.** A negative entry leads to the bitmaps or to the
inodes. -/
def Drive.Disturbs (d : Drive) (i offset count : Nat) (value : Int) : Prop :=
  0 < count ∧ (value < 0 ∨ d.Writes i offset count value.toNat)

/-- **No entry behind the end of another file leads to what the write changes.** -/
def Drive.Unread (d : Drive) (i offset count : Nat) : Prop :=
  ∀ (path : Path) (j : Nat), j ≠ i → d.Finds path j →
    ∀ k, (readInode d j).size.toNat / BLOCK_SIZE < k → k < DATA_ENTRIES →
      ¬ d.Disturbs i offset count ((readInode d j).data k)

/-! ### Reads that are the same -/

/-- The entries of a file lead to the same bytes on both disks. -/
def SameBytes (d d' : Drive) (file : Inode) : Prop :=
  ∀ k < DATA_ENTRIES, 0 ≤ file.data k ∧
    ∀ r < BLOCK_SIZE, d'.content (file.data k).toNat r = d.content (file.data k).toNat r

section Reads

variable {d d' : Drive} {file : Inode}

/-- **A block of the file is read**, on both disks. -/
theorem SameBytes.readEntry {α : Type} (same : SameBytes d d' file) (k : Int)
    {rest : Memory → StateT Drive Option α}
    (next : ∀ buf buf', (∀ r < BLOCK_SIZE, buf' r = buf r) →
      rest buf' d' = (rest buf d).map fun ran => (ran.1, d')) :
    (dataAt file k >>= fun block => block_read (D_BLOCK_START + block) >>= rest) d' =
      ((dataAt file k >>= fun block => block_read (D_BLOCK_START + block) >>= rest) d).map
        fun ran => (ran.1, d') := by
  unfold dataAt
  by_cases inside : 0 ≤ k ∧ k < DATA_ENTRIES
  · obtain ⟨positive, bytes⟩ := same k.toNat (by omega)
    rw [if_pos inside]
    show (block_read (D_BLOCK_START + file.data k.toNat) >>= rest) d' =
      ((block_read (D_BLOCK_START + file.data k.toNat) >>= rest) d).map fun ran => (ran.1, d')
    unfold block_read
    have block : ((D_BLOCK_START : Int) + file.data k.toNat).toNat =
        D_BLOCK_START + (file.data k.toNat).toNat := by omega
    rw [if_neg (by unfold D_BLOCK_START; omega)]
    by_cases small : ((D_BLOCK_START : Int) + file.data k.toNat) * BLOCK_SIZE < 2 ^ 31
    · rw [if_pos small, block]
      exact next _ _ bytes
    · rw [if_neg small]
      rfl
  · rw [if_neg inside]
    rfl

theorem SameBytes.readLoop (same : SameBytes d d' file) : ∀ (count : Nat) {blk chr : Nat}
    {buf buf' : Memory}, chr < BLOCK_SIZE → (∀ r < BLOCK_SIZE, buf' r = buf r) →
    Files.readLoop file count blk chr buf' d' =
      (Files.readLoop file count blk chr buf d).map fun ran => (ran.1, d') := by
  intro count
  induction count with
  | zero =>
    intro blk chr buf buf' within equal
    rfl
  | succ count ih =>
    intro blk chr buf buf' within equal
    -- a byte is put before what the rest of the loop returns
    have put : ∀ {next next' : StateT Drive Option (List (BitVec 8))},
        next' d' = (next d).map (fun ran => (ran.1, d')) →
        (next' >>= fun bytes => pure (buf chr :: bytes)) d' =
          ((next >>= fun bytes => pure (buf chr :: bytes)) d).map fun ran => (ran.1, d') := by
      intro next next' ran
      show (next' d').bind (fun p => some (buf chr :: p.1, p.2)) =
        ((next d).bind fun p => some (buf chr :: p.1, p.2)).map fun ran => (ran.1, d')
      rw [ran]
      cases next d with
      | none => rfl
      | some result => rfl
    unfold Files.readLoop
    dsimp only
    rw [equal chr within]
    by_cases boundary : (chr + 1) % BLOCK_SIZE = 0
    · rw [if_pos boundary, if_pos boundary]
      exact same.readEntry _ fun next next' equal' => put (ih (by decide) equal')
    · rw [if_neg boundary, if_neg boundary]
      exact put (ih (by unfold BLOCK_SIZE at *; omega) equal)

/-- **A read returns the same on both disks**, where the path leads to the same file. -/
theorem SameBytes.sfs_read {path : Path} {i : Nat} (same : SameBytes d d' (readInode d i))
    (found : checkiNodePathName d path = readInode d i)
    (found' : checkiNodePathName d' path = readInode d i) (start : Int) (count : Nat) :
    Files.sfs_read path count start d' =
      (Files.sfs_read path count start d).map fun ran => (ran.1, d') := by
  unfold Files.sfs_read
  rw [look_run, look_run, found, found']
  by_cases missing : (readInode d i).id = -1
  · rw [if_pos missing]
    rfl
  · rw [if_neg missing]
    by_cases behind : start > (readInode d i).size
    · rw [if_pos behind]
      rfl
    · rw [if_neg behind]
      by_cases none_ : count = 0
      · rw [if_pos none_]
        rfl
      · rw [if_neg none_]
        refine same.readEntry _ fun buf buf' equal => ?_
        by_cases negative : chrOf start < 0
        · rw [if_pos negative, if_pos negative]
          rfl
        · rw [if_neg negative, if_neg negative]
          have within : (chrOf start).toNat < BLOCK_SIZE := by
            have below : chrOf start < BLOCK_SIZE := Int.tmod_lt_of_pos _ (by decide)
            omega
          have loop := @SameBytes.readLoop _ _ _ same count (blkOf start).toNat _ _ _ within equal
          show (Files.readLoop _ _ _ _ buf' d').bind (fun p => some (((p.1.length : Int), p.1), p.2)) =
            ((Files.readLoop _ _ _ _ buf d).bind fun p =>
              some (((p.1.length : Int), p.1), p.2)).map fun ran => (ran.1, d')
          rw [loop]
          cases Files.readLoop (readInode d i) count (blkOf start).toNat (chrOf start).toNat buf d with
          | none => rfl
          | some result => rfl

end Reads

/-! ### The disk behind a write -/

section Writes

variable {d d' d₁ : Drive} {path : Path} {i offset blk chr n : Nat} {buf : List (BitVec 8)} {file : Inode}
  {diskbuf : Memory} {fh : BitVec 64}

/-- **Every path leads to the inode it led to.** The path of the file ends before the fields that change, so
that a longer one differs from its record at that end. -/
theorem Rewritten.inodeOf_eq (rewritten : Rewritten d d' i file) (finds : d.Finds path i)
    (ends : path.len < PATH_ROOM) (paths : ∀ k < PATH_ROOM, file.path k = (readInode d i).path k)
    (path' : Path) : inodeOf d' path' = inodeOf d path' := by
  refine inodeOf_congr (fun k _ => rewritten.inodeFree k) fun k small => ?_
  by_cases here : k = i
  · subst here
    have room : ∀ b < PATH_ROOM, (readInode d' k).path b = (readInode d k).path b := fun b inside => by
      rw [rewritten.own, Inode.path_record_room _ inside]
      exact paths b inside
    by_cases short : path'.len < PATH_ROOM
    · exact strcmp_congr short room
    · have terminated : (readInode d k).path path.len = 0 := by
        rw [← strcmp_iff.mp (inodeOf_some finds.found).2.2 path.len (Nat.le_refl _)]
        exact path.terminated
      have before : path.len < path'.len := Nat.lt_of_lt_of_le ends (Nat.le_of_not_lt short)
      have differs : ∀ {m : Memory}, m path.len = 0 → strcmp path' m = false := by
        intro m zero
        refine Bool.eq_false_iff.mpr fun equal => path'.nonzero path.len before ?_
        exact (strcmp_iff.mp equal path.len (Nat.le_of_lt before)).trans zero
      rw [differs terminated, differs ((room path.len ends).trans terminated)]
  · rw [rewritten.others k small here]

/-- **A block that the write puts no byte to is as it was.** -/
theorem Writing.content_kept (live : d.Live i) (writing : Writing d i offset buf d₁ file blk chr diskbuf)
    (entry : file.data blk = (n : Int)) {m : Nat} (unwritten : ¬ d.Writes i offset buf.length m) {r : Nat}
    (inside : r < BLOCK_SIZE) :
    ((d₁.putData n diskbuf).putInode i file).content m r = d.content m r := by
  by_cases passed : ∃ k ≤ blk, offset / BLOCK_SIZE ≤ k ∧ file.data k = (m : Int)
  · obtain ⟨k, upTo, lower, here⟩ := passed
    -- the write has come to the block, and no further
    have behind : offset + buf.length ≤ k * BLOCK_SIZE := by
      by_contra short
      have owned := writing.owned (k := k) (Nat.le_trans (Nat.mul_le_mul_right _ upTo) (Nat.le_add_right _ _))
      rcases Nat.lt_or_ge ((readInode d i).size.toNat / BLOCK_SIZE) k with new | old
      · obtain ⟨m', taken, free, first⟩ := writing.longer.first k new owned
        have same : m' = m := by omega
        subst same
        have start : ((readInode d i).size.toNat / BLOCK_SIZE + 1 + freeBefore d m') * BLOCK_SIZE ≤
            k * BLOCK_SIZE := Nat.mul_le_mul_right _ (by omega)
        exact unwritten (Or.inr ⟨free, by omega⟩)
      · refine unwritten (Or.inl ⟨k, lower, by omega, old, ?_⟩)
        rw [← writing.longer.old k old, here]
    have flushed := (writing.putData live entry).1 k lower (by omega) r inside
    rw [here, Int.toNat_natCast] at flushed
    rw [content_putInode _ live.2.1, flushed]
    unfold patched
    rw [splice_behind (by omega), here, Int.toNat_natCast]
  · rw [writing.untouched live entry fun k upTo lower here => passed ⟨k, upTo, lower, here⟩]

/-- **The entries of another file lead to the bytes they led to.** -/
theorem Writing.sameBytes (live : d.Live i) (accounts : d.Accounts)
    (writing : Writing d i offset buf d₁ file blk chr diskbuf) (entry : file.data blk = (n : Int))
    (some_ : buf ≠ []) (unread : d.Unread i offset buf.length) {path' : Path} {j : Nat} (other : j ≠ i)
    (finds : d.Finds path' j) :
    SameBytes d ((d₁.putData n diskbuf).putInode i file) (readInode d j) := by
  intro k inside
  by_cases owned : k ≤ (readInode d j).size.toNat / BLOCK_SIZE
  · obtain ⟨m, _, entry'⟩ := accounts.entries j k finds.live owned inside
    refine ⟨by omega, fun r _ => ?_⟩
    rw [writing.others_kept live accounts entry other finds.live owned inside]
  · have calm := unread path' j other finds k (Nat.lt_of_not_le owned) inside
    have positive : 0 ≤ (readInode d j).data k := by
      by_contra negative
      exact calm ⟨List.length_pos_iff.mpr some_, Or.inl (Int.lt_of_not_ge negative)⟩
    refine ⟨positive, fun r within => writing.content_kept live entry (fun writes => ?_) within⟩
    exact calm ⟨List.length_pos_iff.mpr some_, Or.inr writes⟩

/-! ### `sfs_write` -/

/-- **A write is spliced into the file**: its size, what is read inside it, and that every read of another
file returns what it would have returned before. -/
structure Splices (d d' : Drive) (path : Path) (i offset : Nat) (buf : List (BitVec 8)) : Prop where
  size : (readInode d' i).size = max (readInode d i).size ((offset + buf.length : Nat) : Int)
  reads : ∀ start count : Nat, ((start + count : Nat) : Int) ≤ (readInode d' i).size →
    sfs_read path count start d' = some (((count : Int),
      (List.range' start count).map (splice (byteOf d (readInode d i)) offset buf)), d')
  others : ∀ (path' : Path) (j : Nat), j ≠ i → d.Finds path' j → ∀ (start : Int) (count : Nat),
    sfs_read path' count start d' = (sfs_read path' count start d).map fun ran => (ran.1, d')
  accounts : d'.Accounts

/-- The end of the loop leaves the splice. -/
theorem Splices.of_writing (accounts : d.Accounts) (finds : d.Finds path i) (ends : path.len < PATH_ROOM)
    (within : (offset : Int) ≤ (readInode d i).size) (unread : d.Unread i offset buf.length)
    (some_ : buf ≠ []) (writing : Writing d i offset buf d₁ file blk chr diskbuf)
    (entry : file.data blk = (n : Int)) (small : file.size < 16777216) :
    Splices d ((d₁.putData n diskbuf).putInode i file) path i offset buf := by
  have live := finds.live
  have rewritten := Rewritten.putInode (writing.longer.table.trans (.putData d₁ n diskbuf)) i file
  have size := writing.longer.size
  rw [writing.position] at size
  have recorded : (readInode ((d₁.putData n diskbuf).putInode i file) i).size = file.size := by
    rw [rewritten.own, Inode.size_record]
  have accounts' := rewritten.accounts accounts writing.longer fun c => by
    rw [blockFree_putInode, blockFree_putData]
  have leads := rewritten.inodeOf_eq finds ends writing.longer.path
  have bytes := fun p => writing.bytes (p := p) live entry within
  have same : ∀ path' j, j ≠ i → d.Finds path' j →
      SameBytes d ((d₁.putData n diskbuf).putInode i file) (readInode d j) := fun _ _ other found =>
    writing.sameBytes live accounts entry some_ unread other found
  generalize (d₁.putData n diskbuf).putInode i file = d' at *
  have finds' : ∀ {path' : Path} {j : Nat}, d.Finds path' j → d'.Finds path' j := fun found =>
    ⟨(leads _).trans found.found, (rewritten.live_iff _).mpr found.live⟩
  refine ⟨recorded.trans size, fun start count inside => ?_, fun path' j other found start count => ?_,
    accounts'⟩
  · have found := finds' finds
    have sized := accounts'.sized i found.live
    rw [recorded] at inside sized
    have spans := @Drive.Accounts.spans d' accounts' i ((start + count) / BLOCK_SIZE) found.live
      (Nat.div_le_div_right (by rw [recorded]; omega)) (by unfold BLOCK_SIZE DATA_ENTRIES; omega)
    rw [sfs_read_run found (accounts'.id_ne found.live) (by rw [recorded]; omega)
      (spans.mono (Nat.zero_le _) (Nat.le_refl _))]
    have spliced : bytesOf d' (readInode d' i) start count =
        (List.range' start count).map (splice (byteOf d (readInode d i)) offset buf) := by
      refine List.map_congr_left fun p member => ?_
      obtain ⟨lower, upper⟩ := List.mem_range'_1.mp member
      have block : p / BLOCK_SIZE < DATA_ENTRIES := by
        unfold BLOCK_SIZE DATA_ENTRIES
        omega
      rw [← bytes p (by omega)]
      unfold byteOf
      rw [rewritten.own, Inode.data_record _ block]
    rw [spliced]
  · have record : readInode d' j = readInode d j := rewritten.others j found.live.2.1 other
    exact (same path' j other found).sfs_read found.file ((finds' found).file.trans record) start count

/-- **A write at or before the end of the file splices**, where no other file has an entry behind its end
that leads to what the write changes. -/
theorem write_splices (accounts : d.Accounts) (finds : d.Finds path i) (ends : path.len < PATH_ROOM)
    (handle : fh ≠ -1) (within : (offset : Int) ≤ (readInode d i).size)
    (notFull : (readInode d i).size < 16777216) (fits : offset + buf.length < 16777216)
    (room : max (readInode d i).size.toNat (offset + buf.length) / BLOCK_SIZE ≤
      (readInode d i).size.toNat / BLOCK_SIZE + freeBlocks d)
    (unread : d.Unread i offset buf.length) :
    ∃ d', sfs_write path buf offset fh d = some ((buf.length : Int), d') ∧
      Splices d d' path i offset buf := by
  have live := finds.live
  by_cases none_ : buf = []
  · subst none_
    refine ⟨d, ?_, ⟨?_, fun start count inside => ?_, fun path' j _ _ start count => ?_, accounts⟩⟩
    · unfold sfs_write
      rw [look_run, finds.file, if_neg (accounts.id_ne live), if_neg handle, if_pos rfl]
      rfl
    · rw [List.length_nil]
      omega
    · have sized := accounts.sized i live
      have spans := @Drive.Accounts.spans d accounts i ((start + count) / BLOCK_SIZE) live
        (Nat.div_le_div_right (by omega)) (by unfold BLOCK_SIZE DATA_ENTRIES; omega)
      have same : splice (byteOf d (readInode d i)) offset [] = byteOf d (readInode d i) :=
        funext fun p => splice_nil _ _ p
      rw [sfs_read_run finds (accounts.id_ne live) (by omega)
        (spans.mono (Nat.zero_le _) (Nat.le_refl _)), same]
      rfl
    · cases ran : sfs_read path' count start d with
      | none => rfl
      | some result =>
        obtain ⟨value, d'⟩ := result
        rw [sfs_read_keeps ran]
        rfl
  · obtain ⟨ret, d', ran, ended⟩ :=
      sfs_write_ends accounts finds handle none_ within notFull (Or.inl fits)
    cases ended with
    | finished writing entry =>
      have size := writing.longer.size
      have position := writing.position
      exact ⟨_, ran, .of_writing accounts finds ends within unread none_ writing entry (by omega)⟩
    | @noSpace _ file blk chr diskbuf put more whole some' writing none' size boundary =>
      -- the blocks there were do for the whole buffer
      have position := writing.position
      have spent := writing.longer.room
      have longer : put.length < buf.length := by
        have positive := List.length_pos_iff.mpr some'
        rw [whole, List.length_append]
        omega
      have upTo : (blk * BLOCK_SIZE + chr + 1) / BLOCK_SIZE ≤
          max (readInode d i).size.toNat (offset + buf.length) / BLOCK_SIZE :=
        Nat.div_le_div_right (by omega)
      rw [size, Int.toNat_natCast, none'] at spent
      unfold BLOCK_SIZE at *
      omega

end Writes

/-! ### Two files -/

theorem twoFilesDrive_finds : twoFilesDrive.Finds firstPath 1 :=
  ⟨by decide +kernel, by decide, by decide, by decide +kernel⟩

theorem twoFilesDrive_second : twoFilesDrive.Finds secondPath 2 :=
  ⟨by decide +kernel, by decide, by decide, by decide +kernel⟩

theorem twoFilesDrive_live : ∀ j < INODE_LIST_SIZE, twoFilesDrive.inodeFree j = false → j < 3 := by
  decide +kernel

/-- A byte is appended to the second file. The entries behind the block of the first one lead to that
block. -/
theorem write_splices_secondFile : ∃ d', sfs_write secondPath [9] 0 0 twoFilesDrive = some (1, d') ∧
    Splices twoFilesDrive d' secondPath 2 0 [9] := by
  have empty : (readInode twoFilesDrive 2).size = 0 := by decide +kernel
  have leftover : ∀ k < DATA_ENTRIES, (readInode twoFilesDrive 1).data k = 0 := by decide +kernel
  have own : (readInode twoFilesDrive 2).data 0 = 1 := by decide +kernel
  refine write_splices twoFilesDrive_kept.accounts twoFilesDrive_second (by decide) (by decide)
    (by rw [empty]; decide) (by rw [empty]; decide) (by decide) (by rw [empty]; exact Nat.zero_le _) ?_
  intro path' j other finds k _ inside disturbs
  have first : j = 1 := by
    have small := twoFilesDrive_live j finds.live.2.1 finds.live.2.2
    have root := finds.live.1
    omega
  subst first
  rw [leftover k inside] at disturbs
  rcases disturbs.2 with negative | ⟨k', _, before, _, leads⟩ | ⟨free, _⟩
  · omega
  · have byte : k' * BLOCK_SIZE < 1 := before
    have start : k' = 0 := by
      unfold BLOCK_SIZE at byte
      omega
    subst start
    rw [own] at leads
    exact absurd leads (by decide)
  · exact absurd free (by decide +kernel)

/-- A byte is written to the first of the two files. -/
def patchedDrive : Drive :=
  (twoFilesDrive.exec (.call (.write firstPath [9] 0 0))).getD twoFilesDrive

/-- **The second file is read across its end**: its entry behind is the block of the first one. -/
theorem write_not_splices : ¬ ∀ (d : Drive) (path : Path) (i offset : Nat) (buf : List (BitVec 8))
    (fh : BitVec 64), d.Accounts → d.Finds path i → fh ≠ -1 → (offset : Int) ≤ (readInode d i).size →
    (readInode d i).size < 16777216 → offset + buf.length < 16777216 →
    max (readInode d i).size.toNat (offset + buf.length) / BLOCK_SIZE ≤
      (readInode d i).size.toNat / BLOCK_SIZE + freeBlocks d →
    ∃ d', sfs_write path buf offset fh d = some ((buf.length : Int), d') ∧
      Splices d d' path i offset buf := by
  intro splices
  have empty : (readInode twoFilesDrive 1).size = 0 := by decide +kernel
  have accounts := twoFilesDrive_kept.accounts
  obtain ⟨d', ran, spliced⟩ := splices twoFilesDrive firstPath 1 0 [9] 0 accounts twoFilesDrive_finds
    (by decide) (by rw [empty]; decide) (by rw [empty]; decide) (by decide)
    (by rw [empty]; exact Nat.zero_le _)
  have same : patchedDrive = d' := by
    have step : twoFilesDrive.exec (.call (.write firstPath [9] 0 0)) = some d' :=
      Option.map_eq_some_iff.mpr ⟨_, ran, rfl⟩
    unfold patchedDrive
    rw [step]
    rfl
  subst same
  have finds' : patchedDrive.Finds secondPath 2 :=
    ⟨by decide +kernel, by decide, by decide, by decide +kernel⟩
  -- both reads return the bytes of the blocks 1 and 0
  have reads : ∀ {d : Drive}, d.Finds secondPath 2 → (readInode d 2).id = 2 → (readInode d 2).size = 0 →
      (readInode d 2).data 0 = 1 → (readInode d 2).data 1 = 0 →
      sfs_read secondPath 16385 (0 : Nat) d =
        some ((16385, bytesOf d (readInode d 2) 0 16385), d) := by
    intro d finds known size first second
    refine sfs_read_run finds (by rw [known]; decide) (by rw [size]; decide) fun k _ upTo => ?_
    rcases Nat.le_one_iff_eq_zero_or_eq_one.mp (Nat.le_trans upTo (by decide)) with rfl | rfl
    · exact ⟨by decide, 1, by decide, first⟩
    · exact ⟨by decide, 0, by decide, second⟩
  have equal := spliced.others secondPath 2 (by decide) twoFilesDrive_second ((0 : Nat) : Int) 16385
  rw [reads twoFilesDrive_second (by decide +kernel) (by decide +kernel) (by decide +kernel)
    (by decide +kernel), reads finds' (by decide +kernel) (by decide +kernel) (by decide +kernel)
    (by decide +kernel)] at equal
  have bytes := congrArg (fun ran => ran.1.2) (Option.some.inj equal)
  have last := List.map_inj_left.mp bytes 16384 (by rw [List.mem_range'_1]; decide)
  exact absurd last (by decide +kernel)

end OS2017.Files
