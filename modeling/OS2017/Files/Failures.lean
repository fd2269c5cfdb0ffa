/-
**Failed writes and creates.**

`sfs_write` marks blocks used and writes full buffers to the disk before it knows that there are blocks
for all of the buffer. When it fails, there is no free block. So a failed write has changed nothing only
where there was none before, and where the blocks it completed held the bytes they were given
(`failed_write_unchanged_iff`).

`sfs_create` takes an inode before it searches for a block. When it fails, the inode stays taken, with
the record of the file that had it before: a file that was unlinked is there again
(`create_fails_cleanly_iff`).
-/

import OS2017.Files.Gaps

namespace OS2017.Files

open OS2017.Bytes OS2017.Ledger OS2017.Splice

/-- **Nothing has changed**: the bitmap of the blocks, the inodes, and what is in the files. -/
structure Unchanged (d d' : Drive) : Prop where
  bitmap : ∀ n < BLOCK_LIST_SIZE, d'.blockFree n = d.blockFree n
  table : ∀ i < INODE_LIST_SIZE, d'.inodeFree i = d.inodeFree i ∧ readInode d' i = readInode d i
  contents : ∀ (j p : Nat), d.Live j → (p : Int) < (readInode d j).size → p / BLOCK_SIZE < DATA_ENTRIES →
    byteOf d' (readInode d j) p = byteOf d (readInode d j) p

theorem Unchanged.refl (d : Drive) : Unchanged d d :=
  ⟨fun _ _ => rfl, fun _ _ => ⟨rfl, rfl⟩, fun _ _ _ _ _ => rfl⟩

/-- **A block of the file is written**, whatever the other entries. -/
theorem flush_entry {file : Inode} {blk v : Nat} {diskbuf : Memory} {d d' : Drive} {a : Unit}
    (inside : blk < DATA_ENTRIES) (entry : file.data blk = (v : Int))
    (ran : flush file blk diskbuf d = some (a, d')) : d' = d.putData v diskbuf := by
  have start : (D_BLOCK_START : Int) + (v : Int) = (D_BLOCK_START + v : Nat) := rfl
  unfold flush at ran
  rw [dataAt_bind inside, entry, start] at ran
  unfold block_write at ran
  rw [if_neg (by omega)] at ran
  split at ran
  · cases ran
    rfl
  · cases ran

/-! ### There is no free block -/

theorem fillGap_none : ∀ (count : Nat) (blksOwned : Int) {file : Inode} {d d' : Drive},
    fillGap count blksOwned file d = some (none, d') → freeBlocks d' = 0 := by
  intro count
  induction count with
  | zero =>
    intro blksOwned file d d' ran
    cases ran
  | succ count ih =>
    intro blksOwned file d d' ran
    unfold fillGap at ran
    rw [look_run] at ran
    rcases findNextOpenBlock_cases d with ⟨n, _, found, _, _⟩ | ⟨found, taken⟩
    · rw [found, if_neg (by omega)] at ran
      obtain ⟨file₁, d₁, _, ran₁⟩ := run_bind ran
      obtain ⟨_, d₂, _, ran₂⟩ := run_bind ran₁
      exact ih _ ran₂
    · rw [found, if_pos rfl] at ran
      cases ran
      exact freeBlocks_eq_zero.mpr taken

theorem writeLoop_failed : ∀ (rest : List (BitVec 8)) {file : Inode} {blk chr written : Nat}
    {diskbuf : Memory} {d d' : Drive} {ret : Int},
    writeLoop rest file blk chr diskbuf written d = some (ret, d') → ret < 0 → freeBlocks d' = 0 := by
  intro rest
  induction rest with
  | nil =>
    intro file blk chr written diskbuf d d' ret ran failed
    obtain ⟨_, d₁, _, ran₁⟩ := run_bind ran
    obtain ⟨_, d₂, _, done⟩ := run_bind ran₁
    cases done
    omega
  | cons byte rest ih =>
    intro file blk chr written diskbuf d d' ret ran failed
    obtain ⟨growth, d₁, grew, ran₁⟩ := run_bind ran
    cases growth with
    | noSpace =>
      cases ran₁
      cases growFile_step grew with
      | noSpace _ _ _ taken => exact freeBlocks_eq_zero.mpr taken
    | full file' =>
      obtain ⟨_, d₂, _, ran₂⟩ := run_bind ran₁
      obtain ⟨_, d₃, _, done⟩ := run_bind ran₂
      cases done
      omega
    | grown file' =>
      dsimp only at ran₁
      split at ran₁
      · obtain ⟨_, d₂, _, ran₂⟩ := run_bind ran₁
        obtain ⟨block, d₃, _, ran₃⟩ := run_bind ran₂
        obtain ⟨next, d₄, _, ran₄⟩ := run_bind ran₃
        exact ih ran₄ failed
      · exact ih ran₁ failed

/-- A file with all its blocks never needs another one. -/
theorem writeLoop_returned : ∀ (rest : List (BitVec 8)) {file : Inode} {blk chr written : Nat}
    {diskbuf : Memory} {d d' : Drive} {ret : Int}, 1023 * BLOCK_SIZE ≤ file.size.toNat →
    chr < BLOCK_SIZE → blk < DATA_ENTRIES →
    writeLoop rest file blk chr diskbuf written d = some (ret, d') → 0 ≤ ret := by
  intro rest
  induction rest with
  | nil =>
    intro file blk chr written diskbuf d d' ret _ _ _ ran
    obtain ⟨_, d₁, _, ran₁⟩ := run_bind ran
    obtain ⟨_, d₂, _, done⟩ := run_bind ran₁
    cases done
    omega
  | cons byte rest ih =>
    intro file blk chr written diskbuf d d' ret large within inside ran
    obtain ⟨growth, d₁, grew, ran₁⟩ := run_bind ran
    have reach : chr + 1 + blk * BLOCK_SIZE ≤ 16777216 := by
      unfold BLOCK_SIZE DATA_ENTRIES at *
      omega
    have succ : ((chr + 1 + blk * BLOCK_SIZE : Nat) : Int) > file.size →
        (file.setSize (file.size + 1)).size = file.size + 1 := fun beyond =>
      size_succ ⟨by unfold BLOCK_SIZE at large; omega, by omega⟩
    have boundary : ((chr + 1 + blk * BLOCK_SIZE : Nat) : Int) > file.size →
        (file.setSize (file.size + 1)).size.tmod BLOCK_SIZE = 0 →
        (file.setSize (file.size + 1)).size = 16777216 := by
      intro beyond multiple
      rw [succ beyond] at multiple ⊢
      obtain ⟨n, size⟩ := Int.eq_ofNat_of_zero_le
        (show 0 ≤ file.size by unfold BLOCK_SIZE at large; omega)
      rw [size] at beyond large multiple ⊢
      have rem : ((n : Int) + 1).tmod BLOCK_SIZE = (((n + 1) % BLOCK_SIZE : Nat) : Int) :=
        (Int.ofNat_tmod (n + 1) BLOCK_SIZE).symm
      rw [rem] at multiple
      rw [Int.toNat_natCast] at large
      unfold BLOCK_SIZE at *
      omega
    cases growth with
    | noSpace =>
      cases growFile_step grew with
      | noSpace beyond multiple smaller _ => exact absurd (boundary beyond multiple) smaller
    | full file' =>
      obtain ⟨_, d₂, _, ran₂⟩ := run_bind ran₁
      obtain ⟨_, d₃, _, done⟩ := run_bind ran₂
      cases done
      omega
    | grown file' =>
      have large' : 1023 * BLOCK_SIZE ≤ file'.size.toNat := by
        cases growFile_step grew with
        | inside => exact large
        | longer beyond =>
          rw [succ beyond]
          omega
        | block _ beyond multiple smaller => exact absurd (boundary beyond multiple) smaller
      dsimp only at ran₁
      split at ran₁
      · obtain ⟨_, d₂, _, ran₂⟩ := run_bind ran₁
        obtain ⟨block, d₃, entry, ran₃⟩ := run_bind ran₂
        obtain ⟨_, inside', _, _⟩ := dataAt_run entry
        obtain ⟨next, d₄, _, ran₄⟩ := run_bind ran₃
        exact ih large' (by decide) (by omega) ran₄
      · rename_i notBoundary
        exact ih large' (by unfold BLOCK_SIZE at *; omega) inside ran₁

/-! ### From inside the file -/

section Inside

variable {d₀ d : Drive} {i offset blk chr : Nat} {file : Inode} {put more : List (BitVec 8)}
  {diskbuf : Memory}

/-- **A write from inside the file that ran out of blocks has changed nothing** where the blocks before
the last one of the file held what they were given. -/
theorem Writing.unchanged_iff (accounts : d₀.Accounts) (live : d₀.Live i)
    (within : (offset : Int) ≤ (readInode d₀ i).size) (full₀ : freeBlocks d₀ = 0)
    (writing : Writing d₀ i offset put d file blk chr diskbuf) (full : freeBlocks d = 0)
    (atEnd : file.size = ((blk * BLOCK_SIZE + chr : Nat) : Int))
    (boundary : (blk * BLOCK_SIZE + chr + 1) % BLOCK_SIZE = 0) :
    Unchanged d₀ d ↔ ∀ p, offset ≤ p → p < (readInode d₀ i).size.toNat / BLOCK_SIZE * BLOCK_SIZE →
      byteOf d₀ (readInode d₀ i) p = splice (byteOf d₀ (readInode d₀ i)) offset (put ++ more) p := by
  have room := writing.longer.room
  have position := writing.position
  have short := writing.within
  rw [full, full₀, atEnd, Int.toNat_natCast] at room
  have last : blk = (readInode d₀ i).size.toNat / BLOCK_SIZE := by
    unfold BLOCK_SIZE at *
    omega
  have size : file.size.toNat / BLOCK_SIZE = blk := by
    rw [atEnd, Int.toNat_natCast]
    omega
  have sized := accounts.sized i live
  -- what is on the disk in the blocks that are complete
  have flushed : ∀ p, offset / BLOCK_SIZE ≤ p / BLOCK_SIZE → p / BLOCK_SIZE < blk →
      byteOf d (readInode d₀ i) p = splice (byteOf d₀ (readInode d₀ i)) offset (put ++ more) p := by
    intro p lower upper
    have entry := writing.longer.old (p / BLOCK_SIZE) (by omega)
    have written := writing.flushed _ lower upper _ (Nat.mod_lt p (show 0 < BLOCK_SIZE by decide))
    unfold patched at written
    rw [position_eq, entry] at written
    have before : p < offset + put.length := by
      unfold BLOCK_SIZE at *
      omega
    rw [splice_append put more before]
    exact written.trans (splice_congr rfl)
  have untouched : ∀ p, p / BLOCK_SIZE ≤ blk → ¬ (offset / BLOCK_SIZE ≤ p / BLOCK_SIZE ∧
      p / BLOCK_SIZE < blk) → byteOf d (readInode d₀ i) p = byteOf d₀ (readInode d₀ i) p := by
    intro p owned outside
    have old := writing.longer.old (p / BLOCK_SIZE) (by omega)
    obtain ⟨m, _, entry, _, _⟩ := writing.longer.entry live (k := p / BLOCK_SIZE) (by omega)
    unfold byteOf
    rw [← old, entry, Int.toNat_natCast, writing.others m fun k lower upper same => ?_]
    have equal := writing.longer.distinct live (by omega) (by omega) (same.trans entry.symm)
    omega
  constructor
  · intro unchanged p lower upper
    have block : p / BLOCK_SIZE < blk := by
      rw [← last] at upper
      exact Nat.div_lt_of_lt_mul (by rw [Nat.mul_comm]; exact upper)
    rw [← flushed p (Nat.div_le_div_right lower) block]
    refine (unchanged.contents i p live ?_ ?_).symm
    · have below := Nat.div_mul_le_self (readInode d₀ i).size.toNat BLOCK_SIZE
      omega
    · obtain ⟨_, _, _, inside, _⟩ := writing.longer.entry live (k := blk) (by omega)
      omega
  · intro same
    refine ⟨fun n small => ?_, fun k small => ⟨writing.longer.table.inodeFree k,
      writing.longer.table.readInode k small⟩, fun j p live' inside entry => ?_⟩
    · rw [freeBlocks_eq_zero.mp full n small, freeBlocks_eq_zero.mp full₀ n small]
    · have owned : p / BLOCK_SIZE ≤ (readInode d₀ j).size.toNat / BLOCK_SIZE :=
        Nat.div_le_div_right (by omega)
      by_cases own : j = i
      · subst own
        by_cases complete : offset / BLOCK_SIZE ≤ p / BLOCK_SIZE ∧ p / BLOCK_SIZE < blk
        · rw [flushed p complete.1 complete.2]
          by_cases lower : offset ≤ p
          · refine (same p lower ?_).symm
            rw [← last]
            exact (Nat.div_lt_iff_lt_mul (by decide)).mp complete.2
          · exact splice_before (by omega)
        · exact untouched p (by omega) complete
      · unfold byteOf
        obtain ⟨m, _, data⟩ := accounts.entries j _ live' owned entry
        rw [data, Int.toNat_natCast, writing.others m fun k _ upper => ?_]
        rw [← data]
        exact writing.longer.foreign live accounts own live' owned entry (by omega)

end Inside

/-! ### From behind the file -/

section Behind

variable {d : Drive}

/-- **Where the block the file needs next comes before the end of the buffer**, the disk stays as it is. -/
theorem writeLoop_still (full : freeBlocks d = 0) : ∀ (rest : List (BitVec 8)) {file : Inode}
    {blk chr written : Nat} {diskbuf : Memory} {d' : Drive} {ret : Int}, 0 ≤ file.size →
    file.size < ((blk * BLOCK_SIZE + chr : Nat) : Int) → blk < DATA_ENTRIES →
    chr + ((file.size.toNat / BLOCK_SIZE + 1) * BLOCK_SIZE - file.size.toNat) ≤ BLOCK_SIZE →
    writeLoop rest file blk chr diskbuf written d = some (ret, d') → ret < 0 → d' = d := by
  intro rest
  induction rest with
  | nil =>
    intro file blk chr written diskbuf d' ret _ _ _ _ ran failed
    obtain ⟨_, d₁, _, ran₁⟩ := run_bind ran
    obtain ⟨_, d₂, _, done⟩ := run_bind ran₁
    cases done
    omega
  | cons byte rest ih =>
    intro file blk chr written diskbuf d' ret positive behind inside first ran failed
    obtain ⟨growth, d₁, grew, ran₁⟩ := run_bind ran
    have bounded : file.size < 16777216 := by
      unfold BLOCK_SIZE DATA_ENTRIES at *
      omega
    have succ := @size_succ file ⟨positive, bounded⟩
    cases growFile_step grew with
    | inside contained => omega
    | full _ maximal =>
      obtain ⟨_, d₂, _, ran₂⟩ := run_bind ran₁
      obtain ⟨_, d₃, _, done⟩ := run_bind ran₂
      cases done
      omega
    | noSpace =>
      cases ran₁
      rfl
    | block n _ _ _ below available =>
      rw [freeBlocks_eq_zero.mp full n below] at available
      cases available
    | longer _ same =>
      obtain ⟨n, size⟩ := Int.eq_ofNat_of_zero_le positive
      have rem : ((n : Int) + 1).tmod BLOCK_SIZE = (((n + 1) % BLOCK_SIZE : Nat) : Int) :=
        (Int.ofNat_tmod (n + 1) BLOCK_SIZE).symm
      rw [succ, size, rem] at same
      rw [size, Int.toNat_natCast] at first
      have size' : (file.setSize (file.size + 1)).size.toNat = n + 1 := by
        rw [succ, size]
        rfl
      dsimp only at ran₁
      rw [if_neg (by unfold BLOCK_SIZE at *; omega)] at ran₁
      refine ih ?_ ?_ inside ?_ ran₁ failed
      · omega
      · omega
      · rw [size']
        unfold BLOCK_SIZE at *
        omega

/-- **Where the end of the buffer comes first**, one block is written. -/
theorem writeLoop_once (full : freeBlocks d = 0) {offset v : Nat} {first : Inode} {blk : Nat}
    (inside : blk < DATA_ENTRIES) :
    ∀ (rest put : List (BitVec 8)) {file : Inode} {chr written : Nat} {diskbuf : Memory} {d' : Drive}
      {ret : Int}, file.data blk = (v : Int) → 0 ≤ file.size →
    file.size < ((blk * BLOCK_SIZE + chr : Nat) : Int) → chr < BLOCK_SIZE →
    blk * BLOCK_SIZE + chr = offset + put.length →
    BLOCK_SIZE < chr + ((file.size.toNat / BLOCK_SIZE + 1) * BLOCK_SIZE - file.size.toNat) →
    (∀ r < BLOCK_SIZE, diskbuf r = patched d first offset put blk r) →
    writeLoop rest file blk chr diskbuf written d = some (ret, d') → ret < 0 →
    ∃ buf, d' = d.putData v buf ∧ ∀ r < BLOCK_SIZE, buf r = patched d first offset (put ++ rest) blk r := by
  intro rest
  induction rest with
  | nil =>
    intro put file chr written diskbuf d' ret _ _ _ _ _ _ _ ran failed
    obtain ⟨_, d₁, _, ran₁⟩ := run_bind ran
    obtain ⟨_, d₂, _, done⟩ := run_bind ran₁
    cases done
    omega
  | cons byte rest ih =>
    intro put file chr written diskbuf d' ret entry' positive behind within position second buffered ran failed
    obtain ⟨growth, d₁, grew, ran₁⟩ := run_bind ran
    have bounded : file.size < 16777216 := by
      unfold BLOCK_SIZE DATA_ENTRIES at *
      omega
    have succ := @size_succ file ⟨positive, bounded⟩
    obtain ⟨n, size⟩ := Int.eq_ofNat_of_zero_le positive
    have rem : ((n : Int) + 1).tmod BLOCK_SIZE = (((n + 1) % BLOCK_SIZE : Nat) : Int) :=
      (Int.ofNat_tmod (n + 1) BLOCK_SIZE).symm
    have size' : (file.setSize (file.size + 1)).size.toNat = n + 1 := by
      rw [succ, size]
      rfl
    rw [size, Int.toNat_natCast] at second
    -- the byte put, among those before it
    have buffered' : ∀ r < BLOCK_SIZE,
        Function.update diskbuf chr byte r = patched d first offset (put ++ [byte]) blk r := by
      intro r small
      unfold patched
      rw [splice_concat, Function.update_apply]
      by_cases here : r = chr
      · rw [if_pos here, if_pos (by omega)]
      · rw [if_neg here, if_neg (by omega)]
        exact buffered r small
    have whole : put ++ byte :: rest = put ++ [byte] ++ rest := by
      rw [List.append_assoc, List.singleton_append]
    rw [whole]
    have notLast : (n + 1) % BLOCK_SIZE ≠ 0 := by
      unfold BLOCK_SIZE at *
      omega
    cases growFile_step grew with
    | inside contained => omega
    | full _ maximal =>
      rw [succ, size] at maximal
      unfold BLOCK_SIZE at notLast
      omega
    | noSpace _ multiple =>
      rw [succ, size, rem] at multiple
      omega
    | block _ _ multiple =>
      rw [succ, size, rem] at multiple
      omega
    | longer =>
      dsimp only at ran₁
      have entry₁ : (file.setSize (file.size + 1)).data blk = (v : Int) := by
        rw [Inode.data_setSize]
        exact entry'
      by_cases boundary : (chr + 1) % BLOCK_SIZE = 0
      · rw [if_pos boundary] at ran₁
        obtain ⟨_, d₂, flushed, ran₂⟩ := run_bind ran₁
        obtain ⟨block, d₃, looked, ran₃⟩ := run_bind ran₂
        obtain ⟨_, inside', _, rfl⟩ := dataAt_run looked
        obtain ⟨next, d₄, loaded, ran₄⟩ := run_bind ran₃
        have same := block_read_keeps loaded
        subst same
        have put' := flush_entry inside entry₁ flushed
        subst put'
        have still := writeLoop_still (d := d.putData v (Function.update diskbuf chr byte))
          ((freeBlocks_congr fun k => blockFree_putData d v k _).trans full) rest (by omega)
          (by rw [succ, size]; unfold BLOCK_SIZE at *; omega) (by omega)
          (by rw [size']; unfold BLOCK_SIZE at *; omega) ran₄ failed
        refine ⟨_, still, fun r small => ?_⟩
        rw [buffered' r small]
        refine (splice_append _ rest ?_).symm
        rw [List.length_append, List.length_singleton]
        unfold BLOCK_SIZE at *
        omega
      · rw [if_neg boundary] at ran₁
        refine ih (put ++ [byte]) entry₁ (by omega) (by omega) ?_ ?_ ?_ buffered' ran₁ failed
        · unfold BLOCK_SIZE at *
          omega
        · rw [List.length_append, List.length_singleton]
          omega
        · rw [size']
          unfold BLOCK_SIZE at *
          omega

/-- A data block that is written again with what the files have there. -/
theorem unchanged_putData_iff (accounts : d.Accounts) (v : Nat) (buf : Memory) :
    Unchanged d (d.putData v buf) ↔ ∀ (j p : Nat), d.Live j → (p : Int) < (readInode d j).size →
      p / BLOCK_SIZE < DATA_ENTRIES → (readInode d j).data (p / BLOCK_SIZE) = (v : Int) →
      byteOf d (readInode d j) p = buf (p % BLOCK_SIZE) := by
  constructor
  · intro unchanged j p live inside entry data
    have same := unchanged.contents j p live inside entry
    unfold byteOf at same
    rw [content_putData, data, Int.toNat_natCast, if_pos rfl] at same
    unfold byteOf
    rw [data, Int.toNat_natCast]
    exact same.symm
  · intro same
    refine ⟨fun n _ => blockFree_putData d v n buf, fun k small => ⟨inodeFree_putData d v k buf,
      readInode_putData d v buf small⟩, fun j p live inside entry => ?_⟩
    obtain ⟨m, _, data⟩ := accounts.entries j _ live (Nat.div_le_div_right (by omega)) entry
    by_cases here : m = v
    · subst here
      rw [same j p live inside entry data]
      unfold byteOf
      rw [content_putData, data, Int.toNat_natCast, if_pos rfl]
    · unfold byteOf
      rw [content_putData, data, Int.toNat_natCast, if_neg here]

variable {i offset : Nat} {buf : List (BitVec 8)} {d' : Drive} {ret : Int}

/-- A failed loop behind the end that completes a block, of the entry of the offset. -/
theorem written_once (full : freeBlocks d = 0) {v : Nat} {diskbuf : Memory}
    (entry : (readInode d i).data (offset / BLOCK_SIZE) = (v : Int))
    (inside : offset / BLOCK_SIZE < DATA_ENTRIES) (sized : 0 ≤ (readInode d i).size)
    (behind : (readInode d i).size < (offset : Int))
    (second : BLOCK_SIZE < offset % BLOCK_SIZE +
      (((readInode d i).size.toNat / BLOCK_SIZE + 1) * BLOCK_SIZE - (readInode d i).size.toNat))
    (loaded : diskbuf = d.content v)
    (ran : writeLoop buf (readInode d i) (offset / BLOCK_SIZE) (offset % BLOCK_SIZE) diskbuf 0 d =
      some (ret, d')) (failed : ret < 0) :
    ∃ buf', d' = d.putData v buf' ∧ ∀ r < BLOCK_SIZE,
      buf' r = patched d (readInode d i) offset buf (offset / BLOCK_SIZE) r := by
  have position := position_eq offset
  refine writeLoop_once full inside buf [] entry sized (by rw [position]; exact behind)
    (Nat.mod_lt offset (by decide)) position second (fun r _ => ?_) ran failed
  unfold patched
  rw [splice_nil, entry, Int.toNat_natCast, loaded]

/-- **The block a write loads**, where its number is not negative. -/
theorem block_read_loaded {v : Nat} {diskbuf : Memory}
    (ran : block_read (D_BLOCK_START + (v : Int)) d = some (diskbuf, d')) :
    diskbuf = d.content v ∧ d' = d := by
  have start : (D_BLOCK_START : Int) + (v : Int) = (D_BLOCK_START + v : Nat) := rfl
  rw [start] at ran
  unfold block_read at ran
  rw [if_neg (by omega)] at ran
  split at ran
  · cases ran
    exact ⟨rfl, rfl⟩
  · cases ran

/-- **A failed write has done nothing that is seen**: there was no free block, the complete blocks of the
file hold what they were given, and so does the left-over block behind the last one where a file has it. -/
structure Undone (d : Drive) (file : Inode) (offset : Nat) (buf : List (BitVec 8)) : Prop where
  full : freeBlocks d = 0
  same : ∀ p, offset ≤ p → p < file.size.toNat / BLOCK_SIZE * BLOCK_SIZE →
    byteOf d file p = splice (byteOf d file) offset buf p
  leftover : offset / BLOCK_SIZE = file.size.toNat / BLOCK_SIZE + 1 →
    file.size.toNat + BLOCK_SIZE < offset → 0 ≤ file.data (offset / BLOCK_SIZE) ∧
      ∀ (j p : Nat), d.Live j → (p : Int) < (readInode d j).size → p / BLOCK_SIZE < DATA_ENTRIES →
        (readInode d j).data (p / BLOCK_SIZE) = file.data (offset / BLOCK_SIZE) →
        byteOf d (readInode d j) p = patched d file offset buf (offset / BLOCK_SIZE) (p % BLOCK_SIZE)

/-- A write from behind the file, up to the block behind its last one. -/
theorem behind_unchanged (accounts : d.Accounts) (live : d.Live i) (full : freeBlocks d = 0)
    (behind : (readInode d i).size < (offset : Int))
    (noGap : offset / BLOCK_SIZE ≤ (readInode d i).size.toNat / BLOCK_SIZE + 1)
    (ran : (dataAt (readInode d i) (offset / BLOCK_SIZE : Nat) >>= fun block =>
      block_read (D_BLOCK_START + block) >>= fun diskbuf =>
      writeLoop buf (readInode d i) (offset / BLOCK_SIZE) (offset % BLOCK_SIZE) diskbuf 0) d =
      some (ret, d')) (failed : ret < 0) :
    (Undone d (readInode d i) offset buf → Unchanged d d') ∧
      (0 ≤ (readInode d i).data (offset / BLOCK_SIZE) → Unchanged d d' →
        Undone d (readInode d i) offset buf) := by
  have sized := accounts.sized i live
  have position := position_eq offset
  obtain ⟨block, d₁, looked, ran₁⟩ := run_bind ran
  obtain ⟨_, inside, rfl, rfl⟩ := dataAt_run looked
  obtain ⟨diskbuf, d₂, loaded, ran₂⟩ := run_bind ran₁
  rw [Int.toNat_natCast] at loaded
  have inside' : offset / BLOCK_SIZE < DATA_ENTRIES := by omega
  have nothing : ∀ p, offset ≤ p →
      p < (readInode d₁ i).size.toNat / BLOCK_SIZE * BLOCK_SIZE → False := by
    intro p lower upper
    have below := Nat.div_mul_le_self (readInode d₁ i).size.toNat BLOCK_SIZE
    omega
  by_cases last : offset / BLOCK_SIZE = (readInode d₁ i).size.toNat / BLOCK_SIZE
  · -- the block is the last of the file, and what is put is behind its end
    obtain ⟨v, _, entry⟩ := accounts.entries i _ live (Nat.le_of_eq last) inside'
    rw [entry] at loaded
    obtain ⟨content, rfl⟩ := block_read_loaded loaded
    obtain ⟨buf', rfl, written⟩ := written_once full entry inside' sized behind
      (by unfold BLOCK_SIZE at *; omega) content ran₂ failed
    have unchanged : Unchanged d₂ (d₂.putData v buf') := by
      refine (unchanged_putData_iff accounts v buf').mpr fun j p live' small entry' data => ?_
      have held := accounts.holds live' (Nat.div_le_div_right (by omega)) entry' data
      have held' := accounts.holds live (Nat.le_of_eq last) inside' entry
      have equal := accounts.covered.distinct held held'
      simp only [Prod.mk.injEq] at equal
      obtain ⟨rfl, block⟩ := equal
      rw [written _ (Nat.mod_lt p (by decide))]
      unfold patched byteOf
      rw [← block, position_eq, splice_before (by omega)]
    exact ⟨fun _ => unchanged, fun _ _ => ⟨full, fun p lower upper => (nothing p lower upper).elim,
      fun next => absurd next (by omega)⟩⟩
  · have next : offset / BLOCK_SIZE = (readInode d₁ i).size.toNat / BLOCK_SIZE + 1 := by
      unfold BLOCK_SIZE at *
      omega
    by_cases far : (readInode d₁ i).size.toNat + BLOCK_SIZE < offset
    · have once : ∀ v : Nat, (readInode d₁ i).data (offset / BLOCK_SIZE) = (v : Int) →
          (Unchanged d₁ d' ↔ ∀ (j p : Nat), d₁.Live j → (p : Int) < (readInode d₁ j).size →
            p / BLOCK_SIZE < DATA_ENTRIES →
            (readInode d₁ j).data (p / BLOCK_SIZE) = (readInode d₁ i).data (offset / BLOCK_SIZE) →
            byteOf d₁ (readInode d₁ j) p =
              patched d₁ (readInode d₁ i) offset buf (offset / BLOCK_SIZE) (p % BLOCK_SIZE)) := by
        intro v entry
        rw [entry] at loaded
        obtain ⟨content, same⟩ := block_read_loaded loaded
        subst same
        obtain ⟨buf', rfl, written⟩ := written_once full entry inside' sized behind
          (by unfold BLOCK_SIZE at *; omega) content ran₂ failed
        rw [unchanged_putData_iff accounts, entry]
        refine forall_congr' fun j => forall_congr' fun p => ?_
        rw [written _ (Nat.mod_lt p (by decide))]
      constructor
      · intro undone
        obtain ⟨positive, same⟩ := undone.leftover next far
        obtain ⟨v, entry⟩ := Int.eq_ofNat_of_zero_le positive
        exact (once v entry).mpr same
      · intro positive unchanged
        obtain ⟨v, entry⟩ := Int.eq_ofNat_of_zero_le positive
        exact ⟨full, fun p lower upper => (nothing p lower upper).elim,
          fun _ _ => ⟨positive, (once v entry).mp unchanged⟩⟩
    · have same := block_read_keeps loaded
      subst same
      have still := writeLoop_still full buf sized (by rw [position]; exact behind) inside'
        (by unfold BLOCK_SIZE at *; omega) ran₂ failed
      subst still
      exact ⟨fun _ => .refl _, fun _ _ => ⟨full, fun p lower upper => (nothing p lower upper).elim,
        fun _ beyond => absurd beyond far⟩⟩

end Behind

/-! ### `sfs_write` -/

section Calls

variable {d d' : Drive} {path : Path} {i : Nat} {buf : List (BitVec 8)} {fh : BitVec 64} {ret : Int}

theorem Unchanged.full (unchanged : Unchanged d d') (full : freeBlocks d' = 0) : freeBlocks d = 0 := by
  refine freeBlocks_eq_zero.mpr fun n small => ?_
  rw [← unchanged.bitmap n small]
  exact freeBlocks_eq_zero.mp full n small

/-- A failed write of a file, at an offset whose block is an `int`. -/
theorem failed_write_cases {offset : Nat} (accounts : d.Accounts) (finds : d.Finds path i)
    (handle : fh ≠ -1) (small : offset / BLOCK_SIZE < 2147483648)
    (ran : sfs_write path buf offset fh d = some (ret, d')) (failed : ret < 0) :
    (Undone d (readInode d i) offset buf → Unchanged d d') ∧
      (0 ≤ (readInode d i).data (offset / BLOCK_SIZE) → Unchanged d d' →
        Undone d (readInode d i) offset buf) := by
  have live := finds.live
  have sized := accounts.sized i live
  have some_ : buf ≠ [] := by
    rintro rfl
    unfold sfs_write at ran
    rw [look_run, finds.file, if_neg (accounts.id_ne live), if_neg handle, if_pos rfl] at ran
    cases ran
    omega
  have ran₀ := ran
  rw [sfs_write_eq finds (accounts.id_ne live) handle some_ sized small] at ran
  obtain ⟨filled, d₁, gap, ran₁⟩ := run_bind ran
  have full' : freeBlocks d' = 0 := by
    cases filled with
    | none =>
      cases ran₁
      exact fillGap_none _ _ gap
    | some file =>
      obtain ⟨block, d₂, _, ran₂⟩ := run_bind ran₁
      obtain ⟨diskbuf, d₃, _, ran₃⟩ := run_bind ran₂
      exact writeLoop_failed buf ran₃ failed
  by_cases full : freeBlocks d = 0
  · by_cases noGap : offset / BLOCK_SIZE ≤ (readInode d i).size.toNat / BLOCK_SIZE + 1
    · have count : offset / BLOCK_SIZE - ((readInode d i).size.toNat / BLOCK_SIZE + 1) = 0 := by omega
      rw [count] at gap
      cases gap
      by_cases within : (offset : Int) ≤ (readInode d i).size
      · by_cases large : 1023 * BLOCK_SIZE ≤ (readInode d i).size.toNat
        · obtain ⟨block, d₂, looked, ran₂⟩ := run_bind ran₁
          obtain ⟨_, inside, _, _⟩ := dataAt_run looked
          obtain ⟨diskbuf, d₃, _, ran₃⟩ := run_bind ran₂
          have returned := writeLoop_returned buf large (Nat.mod_lt offset (by decide)) (by omega) ran₃
          omega
        · have few : (readInode d i).size.toNat / BLOCK_SIZE + freeBlocks d < 1023 := by
            rw [full]
            unfold BLOCK_SIZE at *
            omega
          have ended := (sfs_write_ends accounts finds handle some_ within
            (by unfold BLOCK_SIZE at large; omega) (Or.inr few)).of_run ran₀
          cases ended with
          | finished => omega
          | noSpace whole _ writing none_ atEnd boundary =>
            rw [whole, writing.unchanged_iff accounts live within full none_ atEnd boundary]
            have owned : offset / BLOCK_SIZE ≤ (readInode d i).size.toNat / BLOCK_SIZE :=
              Nat.div_le_div_right (by omega)
            exact ⟨fun undone => undone.same, fun _ same => ⟨full, same, fun next => by omega⟩⟩
      · exact behind_unchanged accounts live full (by omega) noGap ran₁ failed
    · have more : ∃ count, offset / BLOCK_SIZE - ((readInode d i).size.toNat / BLOCK_SIZE + 1) =
          count + 1 := ⟨offset / BLOCK_SIZE - ((readInode d i).size.toNat / BLOCK_SIZE + 1) - 1, by omega⟩
      obtain ⟨count, more⟩ := more
      rw [more, fillGap_full full] at gap
      cases gap
      cases ran₁
      refine ⟨fun _ => .refl d, fun _ _ => ⟨full, fun p lower upper => ?_, fun next => by omega⟩⟩
      have below := Nat.div_mul_le_self (readInode d i).size.toNat BLOCK_SIZE
      have above := Nat.div_mul_le_self offset BLOCK_SIZE
      unfold BLOCK_SIZE at *
      omega
  · exact ⟨fun undone => absurd undone.full full,
      fun _ unchanged => absurd (unchanged.full full') full⟩

/-- Where a write at an offset comes to be: the number of its block is an `int`. -/
def landing (offset : Nat) : Nat := (blkOf offset).toNat * BLOCK_SIZE + offset % BLOCK_SIZE

theorem landing_div (offset : Nat) : landing offset / BLOCK_SIZE = (blkOf offset).toNat := by
  have low := Nat.mod_lt offset (show 0 < BLOCK_SIZE by decide)
  unfold landing
  generalize (blkOf offset).toNat = block
  unfold BLOCK_SIZE at *
  omega

theorem landing_mod (offset : Nat) : landing offset % BLOCK_SIZE = offset % BLOCK_SIZE := by
  unfold landing
  rw [Nat.mul_add_mod_self_right, Nat.mod_mod]

theorem blkOf_lt (offset : Int) : blkOf offset < 2147483648 := BitVec.toInt_lt

theorem sfs_write_landing {offset : Nat} (positive : 0 ≤ blkOf offset) (d : Drive) :
    sfs_write path buf (landing offset) fh d = sfs_write path buf offset fh d := by
  have bounded := blkOf_lt offset
  have block : blkOf (landing offset) = blkOf offset := by
    rw [blkOf_natCast (by rw [landing_div]; omega), landing_div]
    omega
  have char : chrOf (landing offset) = chrOf offset := by
    rw [chrOf_natCast, chrOf_natCast, landing_mod]
  unfold sfs_write
  rw [block, char]

/-- A write that fails has a block that is not negative. -/
theorem sfs_write_positive {offset : Int} (finds : d.Finds path i) (known : (readInode d i).id ≠ -1)
    (handle : fh ≠ -1) (sized : 0 ≤ (readInode d i).size)
    (ran : sfs_write path buf offset fh d = some (ret, d')) (failed : ret < 0) : 0 ≤ blkOf offset := by
  refine Int.not_lt.mp fun negative => ?_
  unfold sfs_write at ran
  rw [look_run, finds.file, if_neg known, if_neg handle] at ran
  split at ran
  · cases ran
    omega
  · have noGap : (blkOf offset - ((readInode d i).size.tdiv BLOCK_SIZE + 1)).toNat = 0 := by
      rw [tdiv_of_nonneg sized]
      generalize (readInode d i).size.toNat / BLOCK_SIZE = last
      omega
    dsimp only at ran
    rw [noGap] at ran
    obtain ⟨filled, d₁, gap, ran₁⟩ := run_bind ran
    cases gap
    obtain ⟨block, d₂, looked, _⟩ := run_bind ran₁
    have lower := (dataAt_run looked).1
    omega

/-- What the call does is not seen if it fails. A call that finds no file, or has no handle, does
nothing. -/
def Drive.Undoes (d : Drive) (path : Path) (buf : List (BitVec 8)) (offset : Nat) (fh : BitVec 64) :
    Prop :=
  ∀ i, inodeOf d path = some i → fh ≠ -1 → Undone d (readInode d i) (landing offset) buf

/-- **When a failed write has changed nothing.** The converse needs that the entry of the block is not
negative: behind the file's own it is a left-over. -/
theorem failed_write_unchanged {offset : Nat} (accounts : d.Accounts)
    (proper : ∀ i, inodeOf d path = some i → d.Live i)
    (ran : sfs_write path buf offset fh d = some (ret, d')) (failed : ret < 0) :
    (d.Undoes path buf offset fh → Unchanged d d') ∧
      ((∀ i, inodeOf d path = some i → 0 ≤ (readInode d i).data (landing offset / BLOCK_SIZE)) →
        Unchanged d d' → d.Undoes path buf offset fh) := by
  cases found : inodeOf d path with
  | none =>
    unfold sfs_write at ran
    rw [look_run, missing_file found, if_pos badresult_id] at ran
    cases ran
    refine ⟨fun _ => .refl d, fun _ _ i found' => ?_⟩
    rw [found] at found'
    cases found'
  | some i =>
    have finds : d.Finds path i := ⟨found, proper i found⟩
    have known := accounts.id_ne finds.live
    have undoes : d.Undoes path buf offset fh ↔
        (fh ≠ -1 → Undone d (readInode d i) (landing offset) buf) := by
      constructor
      · exact fun undoes => undoes i found
      · intro undone j found'
        rw [found] at found'
        cases found'
        exact undone
    rw [undoes]
    by_cases handle : fh = -1
    · unfold sfs_write at ran
      rw [look_run, finds.file, if_neg known, if_pos handle] at ran
      cases ran
      exact ⟨fun _ => .refl d, fun _ _ given => absurd handle given⟩
    · have positive := sfs_write_positive finds known handle (accounts.sized i finds.live) ran failed
      have small : landing offset / BLOCK_SIZE < 2147483648 := by
        have bounded := blkOf_lt offset
        rw [landing_div]
        omega
      rw [← sfs_write_landing positive] at ran
      obtain ⟨enough, needed⟩ := failed_write_cases accounts finds handle small ran failed
      exact ⟨fun undone => enough (undone handle), fun entries unchanged _ =>
        needed (entries i rfl) unchanged⟩

end Calls

/-! ### A full disk -/

/-- The disk with another bitmap of the blocks. -/
def Drive.remark (d : Drive) (buf : Memory) : Drive := d.write 1 buf

/-- **More blocks may be marked used** than the files have. -/
theorem Drive.Accounts.remark {d : Drive} (accounts : d.Accounts) {buf : Memory}
    (used : ∀ n < BLOCK_LIST_SIZE, d.blockFree n = false → Bitmap.getBit buf n = false) :
    (d.remark buf).Accounts := by
  have free : ∀ k, (d.remark buf).inodeFree k = d.inodeFree k := by
    intro k
    unfold Drive.remark Drive.inodeFree
    rw [write_blocks, if_neg (by decide)]
  have read : ∀ k, readInode (d.remark buf) k = readInode d k := by
    intro k
    unfold readInode Drive.remark
    simp only [write_blocks, inodeBlock_ne k (show 1 < 3 by decide), if_false]
  have live : ∀ k, (d.remark buf).Live k ↔ d.Live k := by
    intro k
    unfold Drive.Live
    rw [free]
  have holds : ∀ p b, (d.remark buf).Holds p b ↔ d.Holds p b := by
    intro p b
    unfold Drive.Holds Files.Holds
    rw [live, read]
  refine ⟨(free 0).trans accounts.rootUsed, ?_, ?_, ?_, ⟨?_, ?_⟩⟩
  · intro i live'
    rw [read]
    exact accounts.slots i ((live i).mp live')
  · intro i live'
    rw [read]
    exact accounts.sized i ((live i).mp live')
  · intro i k live'
    rw [read]
    exact accounts.entries i k ((live i).mp live')
  · intro p q b held held'
    exact accounts.covered.distinct ((holds p b).mp held) ((holds q b).mp held')
  · intro p b held
    obtain ⟨small, taken⟩ := accounts.covered.used ((holds p b).mp held)
    refine ⟨small, ?_⟩
    unfold Drive.remark Drive.blockFree
    rw [write_blocks, if_pos rfl]
    exact used b small taken

theorem blockFree_remark (d : Drive) (buf : Memory) (n : Nat) :
    (d.remark buf).blockFree n = Bitmap.getBit buf n := by
  unfold Drive.remark Drive.blockFree
  rw [write_blocks, if_pos rfl]

/-- A bitmap with no free block. -/
def noneFree : Memory := fun _ => 0

theorem getBit_noneFree (n : Nat) : Bitmap.getBit noneFree n = false := BitVec.getLsbD_zero

/-- A bitmap with the block 1 free. -/
def oneFree : Memory := fun a => if a = 0 then 2 else 0

theorem getBit_oneFree (n : Nat) : Bitmap.getBit oneFree n = true ↔ n = 1 := by
  unfold Bitmap.getBit oneFree
  by_cases first : n / 8 = 0
  · have bits : ∀ k < 8, BitVec.getLsbD (2 : BitVec 8) (k % 8) = true ↔ k = 1 := by decide
    rw [if_pos first]
    exact bits n (by omega)
  · rw [if_neg first]
    refine iff_of_false ?_ (by omega)
    rw [show (0 : BitVec 8) = 0#8 from rfl, BitVec.getLsbD_zero]
    decide

/-- The empty file, and no free block. -/
def fullDrive : Drive := emptyFileDrive.remark noneFree

/-- The empty file, and one free block. -/
def scarceDrive : Drive := emptyFileDrive.remark oneFree

theorem fullDrive_accounts : fullDrive.Accounts :=
  emptyFileDrive_kept.accounts.remark fun n _ _ => getBit_noneFree n

theorem scarceDrive_accounts : scarceDrive.Accounts := by
  refine emptyFileDrive_kept.accounts.remark fun n _ used => Bool.eq_false_iff.mpr fun free => ?_
  have available : emptyFileDrive.blockFree 1 = true := by decide +kernel
  rw [(getBit_oneFree n).mp free, available] at used
  cases used

theorem fullDrive_full : freeBlocks fullDrive = 0 :=
  freeBlocks_eq_zero.mpr fun n _ => (blockFree_remark _ _ n).trans (getBit_noneFree n)

theorem fullDrive_finds : fullDrive.Finds firstPath 1 :=
  ⟨by decide +kernel, by decide, by decide, by decide +kernel⟩

theorem fullDrive_size : (readInode fullDrive 1).size = 0 := by decide +kernel

theorem scarceDrive_finds : scarceDrive.Finds firstPath 1 :=
  ⟨by decide +kernel, by decide, by decide, by decide +kernel⟩

theorem scarceDrive_size : (readInode scarceDrive 1).size = 0 := by decide +kernel

/-- A write behind a gap of two blocks, on a disk with a file of no byte. -/
theorem sfs_write_gap {d : Drive} (accounts : d.Accounts) (finds : d.Finds firstPath 1)
    (size : (readInode d 1).size = 0) {d' : Drive}
    (gap : fillGap 2 ((1 : Nat) : Int) (readInode d 1) d = some (none, d')) :
    sfs_write firstPath [9] 49152 0 d = some (-1, d') := by
  have run := @sfs_write_eq d firstPath 1 49152 [9] 0 finds (accounts.id_ne finds.live) (by decide)
    (List.cons_ne_nil 9 []) (Int.le_of_eq size.symm) (by decide)
  rw [size] at run
  exact run.trans (then_run gap _)

theorem failed_write_unchanged_fullDrive :
    sfs_write firstPath [9] 49152 0 fullDrive = some (-1, fullDrive) ∧ Unchanged fullDrive fullDrive := by
  have ran := sfs_write_gap fullDrive_accounts fullDrive_finds fullDrive_size (fillGap_full fullDrive_full)
  have only : ∀ i, inodeOf fullDrive firstPath = some i → i = 1 := fun i found =>
    Option.some.inj (found.symm.trans fullDrive_finds.found)
  refine ⟨ran, (@failed_write_unchanged fullDrive fullDrive firstPath [9] 0 (-1) 49152
    fullDrive_accounts (fun i found => ?_) ran (by decide)).1 fun i found _ => ?_⟩
  · rw [only i found]
    exact fullDrive_finds.live
  · rw [only i found]
    refine ⟨fullDrive_full, fun p _ upper => ?_, fun next => ?_⟩
    · rw [fullDrive_size] at upper
      exact absurd upper (by simp)
    · rw [fullDrive_size] at next
      exact absurd next (by decide)

/-- **A write that fails in the gap leaves a block marked used.** -/
theorem failed_write_not_unchanged : ¬ ∀ (d d' : Drive) (path : Path) (buf : List (BitVec 8))
    (offset : Nat) (fh : BitVec 64) (ret : Int), d.Accounts →
    (∀ i, inodeOf d path = some i → d.Live i) →
    sfs_write path buf offset fh d = some (ret, d') → ret < 0 → Unchanged d d' := by
  intro unchanged
  have available : scarceDrive.blockFree 1 = true := by decide +kernel
  have one : ∀ n, scarceDrive.blockFree n = true → n = 1 := fun n free =>
    (getBit_oneFree n).mp ((blockFree_remark _ _ n).symm.trans free)
  have first : findNextOpenBlock scarceDrive = ((1 : Nat) : Int) := by
    rcases findNextOpenBlock_cases scarceDrive with ⟨n, below, found, free, _⟩ | ⟨_, taken⟩
    · rw [found, one n free]
    · rw [taken 1 (by decide)] at available
      cases available
  have full : freeBlocks (scarceDrive.markBlock 1 false) = 0 := by
    refine freeBlocks_eq_zero.mpr fun n below => ?_
    rw [blockFree_markBlock]
    split
    · rfl
    · exact Bool.eq_false_iff.mpr fun free => absurd (one n free) (by assumption)
  have ran := sfs_write_gap scarceDrive_accounts scarceDrive_finds scarceDrive_size
    ((fillGap_succ (by decide) (by decide) first).trans (fillGap_full full))
  have after := (unchanged _ _ firstPath [9] 49152 0 (-1) scarceDrive_accounts (fun i found => by
    rw [Option.some.inj (found.symm.trans scarceDrive_finds.found)]
    exact scarceDrive_finds.live) ran (by decide)).bitmap 1 (by decide)
  rw [available, blockFree_markBlock, if_pos rfl] at after
  cases after

/-! ### A failed create -/

/-- **The metadata is as it was**, and no path finds an inode it did not find. -/
structure SameMetadata (d d' : Drive) : Prop where
  inodes : ∀ i < INODE_LIST_SIZE, isInodeFree d' i = isInodeFree d i
  blocks : ∀ n < BLOCK_LIST_SIZE, isBlockFree d' n = isBlockFree d n
  records : ∀ i < INODE_LIST_SIZE, readInode d' i = readInode d i
  visible : ∀ path i, inodeOf d' path = some i → inodeOf d path = some i

/-- A `sfs_create` that returns a nonzero value has left the metadata alone. -/
def FailsCleanly (d : Drive) (path : Path) (mode : BitVec 32) (fh : BitVec 64) : Prop :=
  ∀ ret fh' d', sfs_create path mode fh d = some ((ret, fh'), d') → ret ≠ 0 → SameMetadata d d'

/-- **A create fails cleanly where it does not fail**: where there is no free inode, and it returns 0,
or where there is a free block. -/
theorem create_fails_cleanly_iff (d : Drive) (path : Path) (mode : BitVec 32) (fh : BitVec 64) :
    FailsCleanly d path mode fh ↔
      (∀ i < INODE_LIST_SIZE, isInodeFree d i ≠ 1) ∨ ∃ n < BLOCK_LIST_SIZE, isBlockFree d n = 1 := by
  obtain ⟨⟨ret, fh'⟩, d', ran, step⟩ := sfs_create_returns path mode fh d
  have unfolded : FailsCleanly d path mode fh ↔ (ret ≠ 0 → SameMetadata d d') := by
    constructor
    · exact fun clean => clean ret fh' d' ran
    · intro clean ret' fh'' d'' ran'
      rw [ran] at ran'
      cases ran'
      exact clean
  rw [unfolded]
  dsimp only at step
  cases step with
  | noInode used =>
    refine iff_of_true (fun failed => absurd rfl failed) (Or.inl fun i small free => ?_)
    rw [isInodeFree_eq_one, used i small] at free
    cases free
  | noBlock i small free used =>
    -- the first free inode is in use now
    refine iff_of_false (fun clean => ?_) ?_
    · have same := (clean (by decide)).inodes i small
      rw [isInodeFree_eq_one.mpr free, isInodeFree_eq_one, inodeFree_markInode, if_pos rfl] at same
      cases same
    · rintro (none_ | ⟨n, below, available⟩)
      · exact none_ i small (isInodeFree_eq_one.mpr free)
      · rw [isBlockFree_eq_one, used n below] at available
        cases available
  | created i n small free _ below available _ =>
    exact iff_of_true (fun failed => absurd rfl failed)
      (Or.inr ⟨n, below, isBlockFree_eq_one.mpr available⟩)

/-- The file was unlinked, and no block is free. -/
def unlinkedDrive : Drive := (emptyFileDrive.markInode 1 true).remark noneFree

/-- **The unlinked file is there again** after another one could not be created. -/
theorem create_not_clean : ¬ ∀ (d : Drive) (path : Path) (mode : BitVec 32) (fh : BitVec 64),
    FailsCleanly d path mode fh := by
  intro clean
  have gone : inodeOf unlinkedDrive firstPath = none := by decide +kernel
  have fails : ((sfs_create (lettersPath 1 (by decide)) 0 0 unlinkedDrive).map fun result =>
      (result.1.1, inodeOf result.2 firstPath)) = some (-1, some 1) := by decide +kernel
  obtain ⟨⟨⟨ret, fh'⟩, d'⟩, ran, same⟩ := Option.map_eq_some_iff.mp fails
  obtain ⟨failed, revived⟩ := Prod.mk.inj same
  dsimp only at failed
  have found := (clean _ _ 0 0 ret fh' d' ran (by omega)).visible firstPath 1 revived
  rw [gone] at found
  cases found

end OS2017.Files
