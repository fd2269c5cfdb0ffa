/-
**A write splices the file.**

`sfs_write` puts one byte after the other into a buffer, lets the file grow over the end, takes a block
where the size comes to a boundary, and exchanges the buffer at the end of each block. While it runs, the
blocks it has left hold the bytes put so far among the old ones, and so does the buffer (`Writing`). A write
that starts in the file and finds its blocks ends with the splice of the buffer into the file
(`write_splices`), and no other file has changed.
-/

import OS2017.Files.Contents
import OS2017.Lib.Splice

namespace OS2017.Files

open OS2017.Bytes OS2017.Ledger OS2017.Splice

/-! ### The file grows -/

/-- The free blocks before the block `n`. -/
def freeBefore (d : Drive) (n : Nat) : Nat := (List.range n).countP fun k => d.blockFree k

/-- **The file in memory is that on the disk, grown to `pos`**: it has the entries it had, and data blocks
of its own behind them, the first free ones. -/
structure Longer (d₀ d : Drive) (i pos : Nat) (file : Inode) : Prop where
  table : SameTable d₀ d
  slot : file.id = i
  path : ∀ k < PATH_ROOM, file.path k = (readInode d₀ i).path k
  size : file.size = max (readInode d₀ i).size pos
  spans : Spans file 0 (file.size.toNat / BLOCK_SIZE)
  old : ∀ k ≤ (readInode d₀ i).size.toNat / BLOCK_SIZE, file.data k = (readInode d₀ i).data k
  first : ∀ k, (readInode d₀ i).size.toNat / BLOCK_SIZE < k → k ≤ file.size.toNat / BLOCK_SIZE →
    ∃ n : Nat, file.data k = (n : Int) ∧ d₀.blockFree n = true ∧
      (readInode d₀ i).size.toNat / BLOCK_SIZE + freeBefore d₀ n < k
  used : ∀ n, d₀.blockFree n = false → d.blockFree n = false
  covered : Covered d.Used (Holds d₀.Live (Function.update (readInode d₀) i file))
  room : file.size.toNat / BLOCK_SIZE + freeBlocks d =
    (readInode d₀ i).size.toNat / BLOCK_SIZE + freeBlocks d₀

/-- What a growth by a byte comes to: a longer file, or there was no free block. -/
inductive Grown (d₀ d : Drive) (i pos : Nat) (file : Inode) : Growth → Drive → Prop
  | grown {d' : Drive} {file' : Inode} : Longer d₀ d' i (pos + 1) file' →
      (∀ k ≤ file.size.toNat / BLOCK_SIZE, file'.data k = file.data k) → d'.content = d.content →
      Grown d₀ d i pos file (.grown file') d'
  | noSpace : freeBlocks d = 0 → file.size = (pos : Int) → (pos + 1) % BLOCK_SIZE = 0 →
      Grown d₀ d i pos file .noSpace d

section Grows

variable {d₀ d : Drive} {i pos : Nat} {file : Inode}

theorem Longer.path_bytes (longer : Longer d₀ d i pos file) :
    ∀ k < PATH_BYTES, file.path k = (readInode d₀ i).path k := fun k inside =>
  longer.path k (Nat.lt_of_lt_of_le inside (by decide))

/-- Those before the first block that is free now have been taken. -/
theorem freeBefore_le {n : Nat} (used : ∀ k, d₀.blockFree k = false → d.blockFree k = false)
    (before : ∀ m < n, d.blockFree m = false) (below : n < BLOCK_LIST_SIZE) :
    freeBefore d₀ n + freeBlocks d ≤ freeBlocks d₀ := by
  have split : List.range BLOCK_LIST_SIZE = List.range n ++ List.range' n (BLOCK_LIST_SIZE - n) := by
    have pieces := @List.range'_append_1 0 n (BLOCK_LIST_SIZE - n)
    rw [Nat.zero_add, Nat.add_sub_cancel' (Nat.le_of_lt below)] at pieces
    rw [List.range_eq_range', List.range_eq_range', pieces]
  have front : (List.range n).countP (fun k => isBlockFree d k = 1) = 0 := by
    refine List.countP_eq_zero.mpr fun k member => ?_
    rw [decide_eq_true_eq, isBlockFree_eq_one, before k (List.mem_range.mp member)]
    decide
  have back : (List.range' n (BLOCK_LIST_SIZE - n)).countP (fun k => isBlockFree d k = 1) ≤
      (List.range' n (BLOCK_LIST_SIZE - n)).countP fun k => isBlockFree d₀ k = 1 := by
    refine List.countP_mono_left fun k _ free => ?_
    rw [decide_eq_true_eq, isBlockFree_eq_one] at free ⊢
    by_contra taken
    exact absurd ((used k (Bool.eq_false_iff.mpr taken)).symm.trans free) (by decide)
  have same : freeBefore d₀ n = (List.range n).countP fun k => isBlockFree d₀ k = 1 := by
    refine List.countP_congr fun k _ => ?_
    rw [decide_eq_true_eq, isBlockFree_eq_one]
  unfold freeBlocks
  rw [split, List.countP_append, List.countP_append, front, same]
  omega

/-- The file already has the byte. -/
theorem Longer.inside (longer : Longer d₀ d i pos file) (contained : (pos : Int) < file.size) :
    Longer d₀ d i (pos + 1) file :=
  { longer with
    size := by
      have size := longer.size
      omega }

/-- At the end of the file. -/
theorem Longer.atEnd (longer : Longer d₀ d i pos file) (beyond : file.size ≤ (pos : Int)) :
    file.size = (pos : Int) ∧ (readInode d₀ i).size ≤ (pos : Int) := by
  have size := longer.size
  omega

/-- A byte more in the last block. -/
theorem Longer.longer (longer : Longer d₀ d i pos file) (beyond : file.size ≤ (pos : Int))
    (small : pos + 1 < 16777216) (same : (pos + 1) % BLOCK_SIZE ≠ 0) :
    Longer d₀ d i (pos + 1) (file.setSize (file.size + 1)) := by
  obtain ⟨size, before⟩ := longer.atEnd beyond
  have size' : (file.setSize (file.size + 1)).size = ((pos + 1 : Nat) : Int) := by
    rw [size_succ ⟨by omega, by omega⟩, size]
    rfl
  have block : (file.setSize (file.size + 1)).size.toNat / BLOCK_SIZE =
      file.size.toNat / BLOCK_SIZE := by
    rw [size', size, Int.toNat_natCast, Int.toNat_natCast]
    unfold BLOCK_SIZE at same ⊢
    omega
  refine ⟨longer.table, (Inode.id_setSize file _).trans longer.slot, fun k inside => ?_, ?_, ?_,
    fun k owned => ?_, fun k behind upTo => ?_, longer.used, ?_, ?_⟩
  · rw [Inode.path_setSize_room _ _ inside]
    exact longer.path k inside
  · rw [size']
    omega
  · rw [block]
    intro k lower upper
    rw [Inode.data_setSize]
    exact longer.spans k lower upper
  · rw [Inode.data_setSize]
    exact longer.old k owned
  · rw [block] at upTo
    rw [Inode.data_setSize]
    exact longer.first k behind upTo
  · exact longer.covered.congr (fun _ => Iff.rfl) (holds_longer size (by omega) (Or.inl same))
  · rw [block]
    exact longer.room

/-- A byte more, and another block. -/
theorem Longer.block {blk n : Nat} (live : d₀.Live i) (longer : Longer d₀ d i pos file)
    (beyond : file.size ≤ (pos : Int)) (small : pos + 1 < 16777216)
    (boundary : pos + 1 = (blk + 1) * BLOCK_SIZE) (below : n < BLOCK_LIST_SIZE)
    (available : d.blockFree n = true) (before_ : ∀ m < n, d.blockFree m = false) :
    Longer d₀ (d.markBlock n false) i (pos + 1) ((file.setSize (file.size + 1)).setData (blk + 1) n) := by
  obtain ⟨size, before⟩ := longer.atEnd beyond
  have size' : ((file.setSize (file.size + 1)).setData (blk + 1) n).size = ((pos + 1 : Nat) : Int) := by
    rw [Inode.size_setData, size_succ ⟨by omega, by omega⟩, size]
    rfl
  have blocks : file.size.toNat / BLOCK_SIZE = blk := by
    rw [size, Int.toNat_natCast]
    unfold BLOCK_SIZE at boundary ⊢
    omega
  have blocks' : ((file.setSize (file.size + 1)).setData (blk + 1) n).size.toNat / BLOCK_SIZE =
      blk + 1 := by
    rw [size', Int.toNat_natCast, boundary]
    exact Nat.mul_div_cancel _ (by decide)
  have inside : blk + 1 < DATA_ENTRIES := by
    unfold DATA_ENTRIES
    unfold BLOCK_SIZE at boundary
    omega
  have entry : ∀ k, k ≠ blk + 1 →
      ((file.setSize (file.size + 1)).setData (blk + 1) n).data k = file.data k := by
    intro k other
    rw [Inode.data_setData, if_neg other, Inode.data_setSize]
  have count := freeBlocks_markBlock below available
  have owned : (readInode d₀ i).size.toNat / BLOCK_SIZE ≤ blk := by
    rw [← blocks]
    exact Nat.div_le_div_right (by omega)
  have untaken : d₀.blockFree n = true := by
    by_contra taken
    exact absurd ((longer.used n (Bool.eq_false_iff.mpr taken)).symm.trans available) (by decide)
  refine ⟨longer.table.trans (.markBlock d n false), ?_, fun k inside => ?_, ?_, ?_, fun k old => ?_,
    fun k behind upTo => ?_, fun c taken => ?_, ?_, ?_⟩
  · rw [Inode.id_setData, Inode.id_setSize]
    exact longer.slot
  · rw [Inode.path_setData_room _ _ inside, Inode.path_setSize_room _ _ inside]
    exact longer.path k inside
  · rw [size']
    omega
  · rw [blocks']
    intro k lower upper
    by_cases last : k = blk + 1
    · subst last
      refine ⟨inside, n, below, ?_⟩
      rw [Inode.data_setData, if_pos rfl, toInt_ofInt_natCast below]
    · rw [entry k last]
      exact longer.spans k lower (by omega)
  · rw [entry k (by omega)]
    exact longer.old k old
  · rw [blocks'] at upTo
    by_cases last : k = blk + 1
    · subst last
      refine ⟨n, ?_, untaken, ?_⟩
      · rw [Inode.data_setData, if_pos rfl, toInt_ofInt_natCast below]
      · have taken := freeBefore_le longer.used before_ below
        have room := longer.room
        rw [blocks] at room
        omega
    · rw [entry k last]
      exact longer.first k behind (by omega)
  · rw [blockFree_markBlock]
    split
    · rfl
    · exact longer.used c taken
  · exact longer.covered.take (p := (i, blk + 1)) (b := n) (not_used available) (used_markBlock below)
      (holds_block live size small boundary below inside)
  · have room := longer.room
    rw [blocks']
    rw [blocks] at room
    omega

/-- **A step of the loop lets the file grow**, or finds no free block. -/
theorem Longer.grow {blk chr : Nat} (live : d₀.Live i)
    (longer : Longer d₀ d i (blk * BLOCK_SIZE + chr) file) (within : chr < BLOCK_SIZE)
    (small : blk * BLOCK_SIZE + chr + 1 < 16777216) :
    Returns (growFile file blk (chr + 1)) d (Grown d₀ d i (blk * BLOCK_SIZE + chr) file) := by
  unfold growFile
  have shift : chr + 1 + blk * BLOCK_SIZE = blk * BLOCK_SIZE + chr + 1 := by omega
  rw [shift]
  by_cases beyond : file.size ≤ ((blk * BLOCK_SIZE + chr : Nat) : Int)
  · obtain ⟨size, before⟩ := longer.atEnd beyond
    have size' : (file.setSize (file.size + 1)).size = ((blk * BLOCK_SIZE + chr + 1 : Nat) : Int) := by
      rw [size_succ ⟨by omega, by omega⟩, size]
      rfl
    have remainder : (file.setSize (file.size + 1)).size.tmod BLOCK_SIZE =
        (((blk * BLOCK_SIZE + chr + 1) % BLOCK_SIZE : Nat) : Int) := by
      rw [size']
      exact (Int.ofNat_tmod _ BLOCK_SIZE).symm
    rw [if_pos (by omega)]
    dsimp only
    rw [remainder]
    by_cases boundary : (blk * BLOCK_SIZE + chr + 1) % BLOCK_SIZE = 0
    · rw [if_pos (by omega), if_neg (by rw [size']; omega)]
      refine Returns.look_bind ?_
      rcases findNextOpenBlock_cases d with ⟨n, below, found, available, least⟩ | ⟨found, taken⟩
      · have inside : blk + 1 < DATA_ENTRIES := by
          unfold DATA_ENTRIES
          unfold BLOCK_SIZE at *
          omega
        have assigned : setDataAt (file.setSize (file.size + 1)) ((blk : Int) + 1) (n : Int) d =
            some ((file.setSize (file.size + 1)).setData (blk + 1) n, d) := by
          unfold setDataAt
          rw [if_pos (by omega)]
          rfl
        rw [found, if_neg (by omega)]
        refine Returns.bind ⟨_, _, assigned, Returns.bind ⟨_, _, setBlock_run (by
          unfold BLOCK_LIST_SIZE at below; omega) 0 d, Returns.pure (.grown ?_ ?_ ?_)⟩⟩
        · refine longer.block live beyond small ?_ below available least
          unfold BLOCK_SIZE at *
          omega
        · intro k owned
          rw [size, Int.toNat_natCast] at owned
          rw [Inode.data_setData, if_neg ?_, Inode.data_setSize]
          unfold BLOCK_SIZE at *
          omega
        · exact content_markBlock d n _
      · rw [found, if_pos rfl]
        exact Returns.pure (.noSpace (freeBlocks_eq_zero.mpr taken) size boundary)
    · rw [if_neg (by omega)]
      refine Returns.pure (.grown (longer.longer beyond small boundary) (fun k _ => ?_) rfl)
      rw [Inode.data_setSize]
  · rw [if_neg (by omega)]
    exact Returns.pure (.grown (longer.inside (by omega)) (fun _ _ => rfl) rfl)

end Grows

/-! ### The loop -/

/-- The block `k` of the file with `items` put from `offset` on. -/
def patched (d₀ : Drive) (file : Inode) (offset : Nat) (items : List (BitVec 8)) (k r : Nat) :
    BitVec 8 :=
  splice (fun _ => d₀.content (file.data k).toNat r) offset items (k * BLOCK_SIZE + r)

theorem patched_congr {d₀ : Drive} {file file' : Inode} {offset : Nat} {items : List (BitVec 8)}
    {k r : Nat} (same : file'.data k = file.data k) :
    patched d₀ file' offset items k r = patched d₀ file offset items k r := by
  unfold patched
  rw [same]

/-- **A write under way**: `items` are put, into the blocks before `blk` and into the buffer. -/
structure Writing (d₀ : Drive) (i offset : Nat) (items : List (BitVec 8)) (d : Drive) (file : Inode)
    (blk chr : Nat) (diskbuf : Memory) : Prop where
  longer : Longer d₀ d i (blk * BLOCK_SIZE + chr) file
  position : blk * BLOCK_SIZE + chr = offset + items.length
  within : chr ≤ BLOCK_SIZE
  start : offset / BLOCK_SIZE ≤ blk
  buffered : ∀ r < BLOCK_SIZE, diskbuf r = patched d₀ file offset items blk r
  flushed : ∀ k, offset / BLOCK_SIZE ≤ k → k < blk → ∀ r < BLOCK_SIZE,
    d.content (file.data k).toNat r = patched d₀ file offset items k r
  others : ∀ n : Nat, (∀ k, offset / BLOCK_SIZE ≤ k → k < blk → file.data k ≠ (n : Int)) →
    d.content n = d₀.content n

section Writes

variable {d₀ d : Drive} {i offset blk chr : Nat} {file : Inode} {items : List (BitVec 8)}
  {diskbuf : Memory}

/-- The blocks up to the position are the file's. -/
theorem Writing.owned (writing : Writing d₀ i offset items d file blk chr diskbuf) {k : Nat}
    (upTo : k * BLOCK_SIZE ≤ blk * BLOCK_SIZE + chr) : k ≤ file.size.toNat / BLOCK_SIZE := by
  have size := writing.longer.size
  rw [Nat.le_div_iff_mul_le (by decide)]
  omega

/-- **A byte is put.** -/
theorem Writing.put (writing : Writing d₀ i offset items d file blk chr diskbuf)
    (more : chr < BLOCK_SIZE) (byte : BitVec 8) {d' : Drive} {file' : Inode}
    (longer : Longer d₀ d' i (blk * BLOCK_SIZE + chr + 1) file')
    (same : ∀ k ≤ file.size.toNat / BLOCK_SIZE, file'.data k = file.data k)
    (content : d'.content = d.content) :
    Writing d₀ i offset (items ++ [byte]) d' file' blk (chr + 1) (Function.update diskbuf chr byte) := by
  have position := writing.position
  have entry : ∀ k ≤ blk, file'.data k = file.data k := fun k upTo =>
    same k (writing.owned (Nat.le_trans (Nat.mul_le_mul_right _ upTo) (Nat.le_add_right _ _)))
  refine ⟨?_, ?_, more, writing.start, fun r inside => ?_, fun k lower upper r inside => ?_,
    fun n apart => ?_⟩
  · rw [← Nat.add_assoc]
    exact longer
  · rw [List.length_append, List.length_singleton]
    omega
  · rw [patched_congr (entry blk (Nat.le_refl _))]
    unfold patched
    rw [splice_concat, Function.update_apply]
    by_cases here : r = chr
    · rw [if_pos here, if_pos (by omega)]
    · rw [if_neg here, if_neg (by omega)]
      exact writing.buffered r inside
  · have before : k * BLOCK_SIZE + r < offset + items.length := by
      have next : (k + 1) * BLOCK_SIZE ≤ blk * BLOCK_SIZE := Nat.mul_le_mul_right _ upper
      rw [Nat.succ_mul] at next
      omega
    rw [content, entry k (Nat.le_of_lt upper), writing.flushed k lower upper r inside,
      patched_congr (entry k (Nat.le_of_lt upper))]
    exact (splice_append items [byte] before).symm
  · rw [content]
    refine writing.others n fun k lower upper => ?_
    rw [← entry k (Nat.le_of_lt upper)]
    exact apart k lower upper

/-- The block of an entry of the file. -/
theorem Longer.entry {pos k : Nat} (longer : Longer d₀ d i pos file) (live : d₀.Live i)
    (owned : k ≤ file.size.toNat / BLOCK_SIZE) : ∃ n < BLOCK_LIST_SIZE, file.data k = (n : Int) ∧
      k < DATA_ENTRIES ∧ Holds d₀.Live (Function.update (readInode d₀) i file) (i, k) n := by
  obtain ⟨inside, n, small, entry⟩ := longer.spans k (Nat.zero_le _) owned
  refine ⟨n, small, entry, inside, (holds_update i k n).mpr ⟨live, ?_⟩⟩
  have positive : 0 ≤ file.size := by
    have size := longer.size
    omega
  rw [if_pos rfl, tdiv_of_nonneg positive]
  exact ⟨by omega, inside, entry⟩

/-- The entries of the file are distinct. -/
theorem Longer.distinct {pos k k' : Nat} (longer : Longer d₀ d i pos file) (live : d₀.Live i)
    (owned : k ≤ file.size.toNat / BLOCK_SIZE) (owned' : k' ≤ file.size.toNat / BLOCK_SIZE)
    (same : file.data k = file.data k') : k = k' := by
  obtain ⟨n, _, entry, _, held⟩ := longer.entry live owned
  obtain ⟨n', _, entry', _, held'⟩ := longer.entry live owned'
  have equal : n' = n := by omega
  subst equal
  exact congrArg Prod.snd (longer.covered.distinct held held')

/-- **The block of the buffer is on the disk.** -/
theorem Writing.putData (live : d₀.Live i)
    (writing : Writing d₀ i offset items d file blk chr diskbuf) {n : Nat}
    (entry : file.data blk = (n : Int)) :
    (∀ k, offset / BLOCK_SIZE ≤ k → k < blk + 1 → ∀ r < BLOCK_SIZE,
      (d.putData n diskbuf).content (file.data k).toNat r = patched d₀ file offset items k r) ∧
      ∀ m : Nat, (∀ k, offset / BLOCK_SIZE ≤ k → k < blk + 1 → file.data k ≠ (m : Int)) →
        (d.putData n diskbuf).content m = d₀.content m := by
  have owned := writing.owned (k := blk) (Nat.le_add_right _ _)
  constructor
  · intro k lower upper r inside
    rw [content_putData]
    by_cases last : k = blk
    · subst last
      rw [entry, Int.toNat_natCast, if_pos rfl]
      exact writing.buffered r inside
    · have upper' : k < blk := by omega
      have owned' : k ≤ file.size.toNat / BLOCK_SIZE := by omega
      obtain ⟨m, _, entry', _, _⟩ := writing.longer.entry live owned'
      have other : ¬ (file.data k).toNat = n := by
        intro same
        refine last (writing.longer.distinct live owned' owned ?_)
        omega
      rw [if_neg other]
      exact writing.flushed k lower upper' r inside
  · intro m apart
    have other : ¬ m = n := by
      rintro rfl
      exact apart blk writing.start (Nat.lt_succ_self _) entry
    rw [content_putData, if_neg other]
    exact writing.others m fun k lower upper => apart k lower (by omega)

theorem Longer.putData {pos : Nat} (longer : Longer d₀ d i pos file) (n : Nat) (buf : Memory) :
    Longer d₀ (d.putData n buf) i pos file :=
  { longer with
    table := longer.table.trans (.putData d n buf)
    used := fun c taken => by
      rw [blockFree_putData]
      exact longer.used c taken
    covered := longer.covered.congr (fun c => by
      unfold Drive.Used
      rw [blockFree_putData]) fun _ _ => Iff.rfl
    room := by
      rw [freeBlocks_congr fun c => blockFree_putData d n c buf]
      exact longer.room }

/-- **The buffer is full**: its block is written, and the next one is loaded. -/
theorem Writing.turn (live : d₀.Live i)
    (writing : Writing d₀ i offset items d file blk BLOCK_SIZE diskbuf) :
    ∃ n : Nat, file.data blk = (n : Int) ∧ n < BLOCK_LIST_SIZE ∧ blk + 1 < DATA_ENTRIES ∧
      Writing d₀ i offset items (d.putData n diskbuf) file (blk + 1) 0
        ((d.putData n diskbuf).content (file.data (blk + 1)).toNat) := by
  have next : (blk + 1) * BLOCK_SIZE = blk * BLOCK_SIZE + BLOCK_SIZE := Nat.succ_mul _ _
  have owned := writing.owned (k := blk) (Nat.le_add_right _ _)
  have owned' := writing.owned (k := blk + 1) (Nat.le_of_eq next)
  obtain ⟨n, small, entry, _, _⟩ := writing.longer.entry live owned
  obtain ⟨n', small', entry', inside', _⟩ := writing.longer.entry live owned'
  have position := writing.position
  obtain ⟨flushed, others⟩ := writing.putData live entry
  refine ⟨n, entry, small, inside', ?_, ?_, Nat.zero_le _, Nat.le_succ_of_le writing.start,
    fun r inside => ?_, flushed, others⟩
  · rw [Nat.add_zero, next]
    exact writing.longer.putData n diskbuf
  · omega
  · have loaded : (d.putData n diskbuf).content n' = d₀.content n' := by
      refine others n' fun k lower upper same => ?_
      have equal := writing.longer.distinct live (by omega) owned' (same.trans entry'.symm)
      omega
    unfold patched
    rw [splice_behind (by omega), entry', Int.toNat_natCast, loaded]

/-- **How the loop ends**, where it comes to an end before the maximal size: all of `buf` is put and
written back, or no block was free for more. -/
inductive LoopEnd (d₀ : Drive) (i offset : Nat) (buf : List (BitVec 8)) : Int → Drive → Prop
  | finished {d : Drive} {file : Inode} {blk chr n : Nat} {diskbuf : Memory} :
      Writing d₀ i offset buf d file blk chr diskbuf → file.data blk = (n : Int) →
      LoopEnd d₀ i offset buf buf.length ((d.putData n diskbuf).putInode i file)
  | noSpace {d : Drive} {file : Inode} {blk chr : Nat} {diskbuf : Memory}
      {put more : List (BitVec 8)} : buf = put ++ more → more ≠ [] →
      Writing d₀ i offset put d file blk chr diskbuf → freeBlocks d = 0 →
      file.size = ((blk * BLOCK_SIZE + chr : Nat) : Int) →
      (blk * BLOCK_SIZE + chr + 1) % BLOCK_SIZE = 0 → LoopEnd d₀ i offset buf (-1) d

/-- A block of the file is written, then the rest. -/
theorem flush_bind {α : Type} {n : Nat} (inside : blk < DATA_ENTRIES) (small : n < BLOCK_LIST_SIZE)
    (entry : file.data blk = (n : Int)) (rest : Unit → StateT Drive Option α) :
    (flush file blk diskbuf >>= rest) d = rest () (d.putData n diskbuf) := by
  refine then_run ?_ rest
  have start : (D_BLOCK_START : Int) + (n : Int) = (D_BLOCK_START + n : Nat) := rfl
  unfold flush
  rw [dataAt_bind inside, entry, start,
    block_write_run (by unfold BLOCK_LIST_SIZE at small; unfold D_BLOCK_START; omega)]
  rfl

/-- **The loop of `sfs_write` splices.** It does not come to the maximal size where the bytes do not go so
far, or where there are not enough blocks. -/
theorem writeLoop_ends (live : d₀.Live i) : ∀ (rest items : List (BitVec 8)) {d : Drive} {file : Inode}
    {blk chr : Nat} {diskbuf : Memory}, Writing d₀ i offset items d file blk chr diskbuf →
    chr < BLOCK_SIZE → (offset + items.length + rest.length < 16777216 ∨
      (readInode d₀ i).size.toNat / BLOCK_SIZE + freeBlocks d₀ < 1023) →
    Returns (writeLoop rest file blk chr diskbuf items.length) d (LoopEnd d₀ i offset (items ++ rest)) := by
  intro rest
  induction rest with
  | nil =>
    intro items d file blk chr diskbuf writing within limit
    obtain ⟨n, small, entry, inside, _⟩ :=
      writing.longer.entry live (writing.owned (k := blk) (Nat.le_add_right _ _))
    have put := @writeInode_run file i writing.longer.slot live.2.1 (d.putData n diskbuf)
    have ended : LoopEnd d₀ i offset (items ++ []) items.length
        ((d.putData n diskbuf).putInode i file) := by
      rw [List.append_nil]
      exact .finished writing entry
    refine ⟨_, _, ?_, ended⟩
    show (flush file blk diskbuf >>= fun _ => writeInode file >>= fun _ =>
      pure (items.length : Int)) d = _
    rw [flush_bind inside small entry, then_run put]
    rfl
  | cons byte rest ih =>
    intro items d file blk chr diskbuf writing within limit
    have position := writing.position
    have reached := writing.longer.size
    have room := writing.longer.room
    rw [List.length_cons] at limit
    have small : blk * BLOCK_SIZE + chr + 1 < 16777216 := by
      rcases limit with fits | few
      · omega
      · have upTo : (blk * BLOCK_SIZE + chr) / BLOCK_SIZE ≤ file.size.toNat / BLOCK_SIZE :=
          Nat.div_le_div_right (by omega)
        unfold BLOCK_SIZE at *
        omega
    refine Returns.bind ((writing.longer.grow live within small).mono ?_)
    rintro growth d' (⟨longer, same, content⟩ | ⟨full, size, boundary⟩)
    · rename_i file'
      have writing' := writing.put within byte longer same content
      have limit' : offset + (items ++ [byte]).length + rest.length < 16777216 ∨
          (readInode d₀ i).size.toNat / BLOCK_SIZE + freeBlocks d₀ < 1023 := by
        rw [List.length_append, List.length_singleton]
        exact limit.imp_left fun fits => by omega
      have count : items.length + 1 = (items ++ [byte]).length := by
        rw [List.length_append, List.length_singleton]
      have whole : items ++ byte :: rest = items ++ [byte] ++ rest := by
        rw [List.append_assoc, List.singleton_append]
      rw [whole]
      dsimp only
      by_cases boundary : (chr + 1) % BLOCK_SIZE = 0
      · have full : chr + 1 = BLOCK_SIZE := by
          unfold BLOCK_SIZE at *
          omega
        rw [full] at writing'
        obtain ⟨n, entry, below, inside', turned⟩ := writing'.turn live
        have next : ((blk : Int) + 1) = ((blk + 1 : Nat) : Int) := rfl
        obtain ⟨n', small', entry', _, _⟩ := turned.longer.entry live
          (turned.owned (k := blk + 1) (Nat.le_add_right _ _))
        obtain ⟨ret, d'', ran, ended⟩ := ih (items ++ [byte]) turned (by decide) limit'
        refine ⟨ret, d'', ?_, ended⟩
        rw [if_pos boundary, flush_bind (by omega) below entry, next, readEntry_bind inside' small' entry',
          count]
        exact ran
      · rw [if_neg boundary, count]
        exact ih (items ++ [byte]) writing' (by unfold BLOCK_SIZE at *; omega) limit'
    · exact Returns.pure (.noSpace rfl (List.cons_ne_nil _ _) writing full size boundary)

end Writes

/-! ### The disk behind a write -/

theorem strcmp_congr {path : Path} {m m' : Memory} {bound : Nat} (short : path.len < bound)
    (same : ∀ b < bound, m' b = m b) : strcmp path m' = strcmp path m := by
  refine Bool.eq_iff_iff.mpr ?_
  rw [strcmp_iff, strcmp_iff]
  refine forall_congr' fun b => forall_congr' fun below => ?_
  rw [same b (Nat.lt_of_le_of_lt below short)]

/-- The searches of two disks whose inodes have the same paths. -/
theorem inodeOf_congr {d d' : Drive} {path : Path}
    (free : ∀ k < INODE_LIST_SIZE, d'.inodeFree k = d.inodeFree k)
    (same : ∀ k < INODE_LIST_SIZE, strcmp path (readInode d' k).path = strcmp path (readInode d k).path) :
    inodeOf d' path = inodeOf d path := by
  unfold inodeOf
  rw [← List.head?_filter, ← List.head?_filter]
  refine congrArg List.head? (List.filter_congr fun k member => ?_)
  have small := List.mem_range.mp member
  rw [isInodeFree_eq, isInodeFree_eq, free k small, same k small]

/-- **A file is rewritten**: its record is that of `file`, and the table of the inodes is otherwise as it
was. -/
structure Rewritten (d₀ d' : Drive) (i : Nat) (file : Inode) : Prop where
  inodeFree : ∀ k, d'.inodeFree k = d₀.inodeFree k
  own : readInode d' i = file.record
  others : ∀ k < INODE_LIST_SIZE, k ≠ i → readInode d' k = readInode d₀ k

theorem Rewritten.putInode {d₀ d : Drive} (table : SameTable d₀ d) (i : Nat) (file : Inode) :
    Rewritten d₀ (d.putInode i file) i file where
  inodeFree := fun k => (inodeFree_putInode d i k file).trans (table.inodeFree k)
  own := by rw [readInode_putInode, if_pos rfl]
  others := fun k small other => by
    rw [readInode_putInode, if_neg other]
    exact table.readInode k small

section Rewritten

variable {d₀ d' : Drive} {i pos : Nat} {file : Inode}

theorem Rewritten.live_iff (rewritten : Rewritten d₀ d' i file) (j : Nat) : d'.Live j ↔ d₀.Live j := by
  unfold Drive.Live
  rw [rewritten.inodeFree]

/-- The entries of the files are those of the table with the file in memory. -/
theorem Rewritten.holds_iff (rewritten : Rewritten d₀ d' i file) (p : Nat × Nat) (b : Nat) :
    d'.Holds p b ↔ Holds d₀.Live (Function.update (readInode d₀) i file) p b := by
  unfold Drive.Holds Holds
  rw [rewritten.live_iff]
  refine and_congr_right fun live => ?_
  by_cases here : p.1 = i
  · rw [here, rewritten.own, Function.update_self, Inode.size_record]
    refine and_congr_right fun _ => and_congr_right fun inside => ?_
    rw [Inode.data_record _ inside]
  · rw [rewritten.others p.1 live.2.1 here, Function.update_of_ne here]

/-- **The accounting of the grown file is that of the disk.** -/
theorem Rewritten.accounts {d : Drive} (rewritten : Rewritten d₀ d' i file) (accounts : d₀.Accounts)
    (longer : Longer d₀ d i pos file) (free : ∀ n, d'.blockFree n = d.blockFree n) : d'.Accounts where
  rootUsed := (rewritten.inodeFree 0).trans accounts.rootUsed
  slots := by
    intro j live
    by_cases here : j = i
    · subst here
      rw [rewritten.own, Inode.id_record]
      exact longer.slot
    · rw [rewritten.others j live.2.1 here]
      exact accounts.slots j ((rewritten.live_iff j).mp live)
  sized := by
    intro j live
    by_cases here : j = i
    · subst here
      rw [rewritten.own, Inode.size_record, longer.size]
      omega
    · rw [rewritten.others j live.2.1 here]
      exact accounts.sized j ((rewritten.live_iff j).mp live)
  entries := by
    intro j k live
    by_cases here : j = i
    · subst here
      rw [rewritten.own, Inode.size_record]
      intro owned inside
      rw [Inode.data_record _ inside]
      exact (longer.spans k (Nat.zero_le _) owned).2
    · rw [rewritten.others j live.2.1 here]
      exact accounts.entries j k ((rewritten.live_iff j).mp live)
  covered := longer.covered.congr (fun b => by
    unfold Drive.Used
    rw [free]) rewritten.holds_iff

end Rewritten

/-! ### What is on the disk in the end -/

section Ends

variable {d₀ d : Drive} {i offset blk chr n : Nat} {file : Inode} {buf diskbuf}

/-- A block that is not one of the written ones is as it was. -/
theorem Writing.untouched (live : d₀.Live i) (writing : Writing d₀ i offset buf d file blk chr diskbuf)
    (entry : file.data blk = (n : Int)) {m : Nat}
    (apart : ∀ k ≤ blk, offset / BLOCK_SIZE ≤ k → file.data k ≠ (m : Int)) :
    ((d.putData n diskbuf).putInode i file).content m = d₀.content m := by
  rw [content_putInode _ live.2.1]
  exact (writing.putData live entry).2 m fun k lower upper => apart k (by omega) lower

/-- **The bytes of the file are spliced.** -/
theorem Writing.bytes (live : d₀.Live i) (writing : Writing d₀ i offset buf d file blk chr diskbuf)
    (entry : file.data blk = (n : Int)) (within : (offset : Int) ≤ (readInode d₀ i).size) {p : Nat}
    (inside : (p : Int) < file.size) :
    byteOf ((d.putData n diskbuf).putInode i file) file p =
      splice (byteOf d₀ (readInode d₀ i)) offset buf p := by
  have position := writing.position
  have size := writing.longer.size
  have short := writing.within
  have owned : p / BLOCK_SIZE ≤ file.size.toNat / BLOCK_SIZE := Nat.div_le_div_right (by omega)
  have whole : p / BLOCK_SIZE * BLOCK_SIZE + p % BLOCK_SIZE = p := position_eq p
  have low : p % BLOCK_SIZE < BLOCK_SIZE := Nat.mod_lt p (by decide)
  have kept : p / BLOCK_SIZE ≤ (readInode d₀ i).size.toNat / BLOCK_SIZE →
      d₀.content (file.data (p / BLOCK_SIZE)).toNat (p % BLOCK_SIZE) =
        byteOf d₀ (readInode d₀ i) p := by
    intro before
    unfold byteOf
    rw [writing.longer.old _ before]
  by_cases written : offset / BLOCK_SIZE ≤ p / BLOCK_SIZE ∧ p / BLOCK_SIZE ≤ blk
  · have flushed := (writing.putData live entry).1 _ written.1 (by omega) _ low
    unfold byteOf
    rw [content_putInode _ live.2.1, flushed]
    unfold patched
    rw [whole]
    rcases Nat.lt_or_ge (p / BLOCK_SIZE) ((readInode d₀ i).size.toNat / BLOCK_SIZE + 1) with old | new
    · exact splice_congr (kept (by omega)).symm |>.symm
    · have behind : (readInode d₀ i).size.toNat < p := by
        unfold BLOCK_SIZE at new
        omega
      exact splice_inside_congr (by omega) (by omega)
  · obtain ⟨m, _, entry', _, _⟩ := writing.longer.entry live owned
    have apart : ∀ k ≤ blk, offset / BLOCK_SIZE ≤ k → file.data k ≠ (m : Int) := by
      intro k upper lower same
      have own := writing.owned (k := k)
        (Nat.le_trans (Nat.mul_le_mul_right _ upper) (Nat.le_add_right _ _))
      have equal := writing.longer.distinct live own owned (same.trans entry'.symm)
      omega
    have outside : p < offset ∨ offset + buf.length ≤ p := by
      unfold BLOCK_SIZE at *
      omega
    have old : p / BLOCK_SIZE ≤ (readInode d₀ i).size.toNat / BLOCK_SIZE :=
      Nat.div_le_div_right (by omega)
    have same : splice (byteOf d₀ (readInode d₀ i)) offset buf p = byteOf d₀ (readInode d₀ i) p := by
      rcases outside with before | behind
      · exact splice_before before
      · exact splice_behind behind
    have held := kept old
    rw [entry', Int.toNat_natCast] at held
    rw [same, ← held, ← writing.untouched live entry apart]
    unfold byteOf
    rw [entry', Int.toNat_natCast]

/-- The blocks of another file are not those of the file. -/
theorem Longer.foreign {pos : Nat} (live : d₀.Live i) (accounts : d₀.Accounts)
    (longer : Longer d₀ d i pos file) {j k k' : Nat} (other : j ≠ i) (live' : d₀.Live j)
    (owned : k ≤ (readInode d₀ j).size.toNat / BLOCK_SIZE) (inside : k < DATA_ENTRIES)
    (own : k' ≤ file.size.toNat / BLOCK_SIZE) : file.data k' ≠ (readInode d₀ j).data k := by
  intro same
  obtain ⟨m, _, entry⟩ := accounts.entries j k live' owned inside
  obtain ⟨m', _, entry', _, held⟩ := longer.entry live own
  have equal : m' = m := by omega
  subst equal
  have held' : Holds d₀.Live (Function.update (readInode d₀) i file) (j, k) m' := by
    have before := accounts.holds live' owned inside entry
    refine (holds_update j k m').mpr ⟨live', ?_⟩
    rw [if_neg other]
    exact before.2
  exact other (congrArg Prod.fst (longer.covered.distinct held' held))

/-- **The blocks of another file are as they were.** -/
theorem Writing.others_kept (live : d₀.Live i) (accounts : d₀.Accounts)
    (writing : Writing d₀ i offset buf d file blk chr diskbuf) (entry : file.data blk = (n : Int))
    {j k : Nat} (other : j ≠ i) (live' : d₀.Live j)
    (owned : k ≤ (readInode d₀ j).size.toNat / BLOCK_SIZE) (inside : k < DATA_ENTRIES) :
    ((d.putData n diskbuf).putInode i file).content ((readInode d₀ j).data k).toNat =
      d₀.content ((readInode d₀ j).data k).toNat := by
  obtain ⟨m, _, entry'⟩ := accounts.entries j k live' owned inside
  rw [entry', Int.toNat_natCast]
  refine writing.untouched live entry fun k' upper _ => ?_
  rw [← entry']
  exact writing.longer.foreign live accounts other live' owned inside (writing.owned
    (Nat.le_trans (Nat.mul_le_mul_right _ upper) (Nat.le_add_right _ _)))

end Ends

/-! ### `sfs_write` -/

section Calls

variable {d : Drive} {path : Path} {i offset : Nat} {buf : List (BitVec 8)} {fh : BitVec 64}

/-- **A write that is not refused** fills the gap, loads the block of the offset and runs the loop. -/
theorem sfs_write_eq (finds : d.Finds path i) (known : (readInode d i).id ≠ -1) (handle : fh ≠ -1)
    (some_ : buf ≠ []) (sized : 0 ≤ (readInode d i).size)
    (small : offset / BLOCK_SIZE < 2147483648) :
    sfs_write path buf offset fh d =
      (fillGap (offset / BLOCK_SIZE - ((readInode d i).size.toNat / BLOCK_SIZE + 1))
        (((readInode d i).size.toNat / BLOCK_SIZE + 1 : Nat) : Int) (readInode d i) >>= fun filled =>
        match filled with
        | none => pure (-1)
        | some file => dataAt file (offset / BLOCK_SIZE : Nat) >>= fun block =>
          block_read (D_BLOCK_START + block) >>= fun diskbuf =>
          writeLoop buf file (offset / BLOCK_SIZE) (offset % BLOCK_SIZE) diskbuf 0) d := by
  have owned : (readInode d i).size.tdiv BLOCK_SIZE + 1 =
      (((readInode d i).size.toNat / BLOCK_SIZE + 1 : Nat) : Int) := by
    rw [tdiv_of_nonneg sized]
    rfl
  unfold sfs_write
  rw [look_run, finds.file, if_neg known, if_neg handle, if_neg some_, owned, blkOf_natCast small,
    chrOf_natCast, Int.toNat_natCast, Int.toNat_natCast]
  have gap : (((offset / BLOCK_SIZE : Nat) : Int) -
      (((readInode d i).size.toNat / BLOCK_SIZE + 1 : Nat) : Int)).toNat =
      offset / BLOCK_SIZE - ((readInode d i).size.toNat / BLOCK_SIZE + 1) := by omega
  rw [gap]
  refine congrFun (congrArg _ (funext fun filled => ?_)) d
  cases filled with
  | none => rfl
  | some file =>
    dsimp only
    refine congrArg (dataAt file _ >>= ·) (funext fun block => congrArg _ (funext fun diskbuf => ?_))
    rw [if_neg (by omega)]

/-- **A write that starts in the file** comes to an end of its loop. -/
theorem sfs_write_ends (accounts : d.Accounts) (finds : d.Finds path i) (handle : fh ≠ -1)
    (some_ : buf ≠ []) (within : (offset : Int) ≤ (readInode d i).size)
    (notFull : (readInode d i).size < 16777216)
    (limit : offset + buf.length < 16777216 ∨
      (readInode d i).size.toNat / BLOCK_SIZE + freeBlocks d < 1023) :
    Returns (sfs_write path buf offset fh) d (LoopEnd d i offset buf) := by
  have live := finds.live
  have sized := accounts.sized i live
  have position := position_eq offset
  have owned : offset / BLOCK_SIZE ≤ (readInode d i).size.toNat / BLOCK_SIZE :=
    Nat.div_le_div_right (by omega)
  have last : (readInode d i).size.toNat / BLOCK_SIZE < DATA_ENTRIES := by
    unfold BLOCK_SIZE DATA_ENTRIES
    omega
  have spans := accounts.spans live (Nat.le_refl _) last
  obtain ⟨inside, n, small, entry⟩ := spans _ (Nat.zero_le _) owned
  have longer : Longer d d i (offset / BLOCK_SIZE * BLOCK_SIZE + offset % BLOCK_SIZE)
      (readInode d i) := by
    refine ⟨.refl d, accounts.slots i live, fun _ _ => rfl, ?_, spans, fun _ _ => rfl,
      fun k behind upTo => absurd behind (Nat.not_lt.mpr upTo), fun _ taken => taken, ?_, rfl⟩
    · omega
    · rw [Function.update_eq_self]
      exact accounts.covered
  have writing : Writing d i offset [] d (readInode d i) (offset / BLOCK_SIZE) (offset % BLOCK_SIZE)
      (d.content ((readInode d i).data (offset / BLOCK_SIZE)).toNat) := by
    refine ⟨longer, position, Nat.le_of_lt (Nat.mod_lt offset (by decide)), Nat.le_refl _,
      fun r _ => ?_, fun k lower upper => absurd lower (by omega), fun m _ => rfl⟩
    unfold patched
    rw [splice_nil]
  obtain ⟨ret, d', ran, ended⟩ := writeLoop_ends live buf [] writing (Nat.mod_lt offset (by decide))
    (by rw [List.length_nil, Nat.add_zero]; exact limit)
  refine ⟨ret, d', ?_, ended⟩
  have noGap : offset / BLOCK_SIZE - ((readInode d i).size.toNat / BLOCK_SIZE + 1) = 0 := by omega
  have below : offset / BLOCK_SIZE < 2147483648 := by
    unfold DATA_ENTRIES at inside
    omega
  have filled : fillGap 0 (((readInode d i).size.toNat / BLOCK_SIZE + 1 : Nat) : Int) (readInode d i) d =
      some (some (readInode d i), d) := rfl
  rw [sfs_write_eq finds (accounts.id_ne live) handle some_ sized below, noGap, then_run filled]
  dsimp only
  rw [readEntry_bind inside small entry]
  exact ran

/-- A read of the whole array, to its end, subscripts behind it. -/
theorem sfs_read_none {start count : Nat} (finds : d.Finds path i) (known : (readInode d i).id ≠ -1)
    (within : (start : Int) ≤ (readInode d i).size) (some_ : count ≠ 0)
    (beyond : 16777216 ≤ start + count) : sfs_read path count start d = none := by
  cases ran : sfs_read path count start d with
  | none => rfl
  | some result =>
    obtain ⟨⟨ret, bytes⟩, d'⟩ := result
    obtain ⟨_, below⟩ := sfs_read_returned finds known within some_ ran
    omega

end Calls

end OS2017.Files
