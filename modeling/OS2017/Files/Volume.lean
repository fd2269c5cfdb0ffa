/-
**The file system as FUSE sees it.**

A volume is the abstract file system: the files that the paths lead to, each with its mode, its inode
number and its bytes. The disk implements it (`Holding`): the functions of `struct fuse_operations`, in any
order and with `sfs_init` run again on the disk there is, answer every request that the disk supports as the
volume does (`volume_refined`). It supports a create of a new file while an inode and a block are free, a write
that starts in its file and finds its blocks, a read that ends in its file or starts behind it, and an unlink
whose entry too many is of no other file; but for `getattr`, no call on the root (`Drive.Supports`).
-/

import OS2017.Files.Attributes
import OS2017.Files.Releases
import OS2017.Lib.FileStore

namespace OS2017.Files

open OS2017.Bytes OS2017.Run OS2017.FileStore OS2017.Splice

/-! ### Requests and replies -/

/-- A call that FUSE makes. -/
inductive Request
  | init (stack : Stack)
  | getattr (path : Path) (statbuf : Stat)
  | create (path : Path) (mode : BitVec 32) (fh : BitVec 64)
  | unlink (path : Path)
  /-- `fcntl(fi->fh, F_GETFL)` returns `flags` -/
  | open_ (path : Path) (flags : Int) (fh : BitVec 64)
  | release (path : Path) (fh : BitVec 64)
  | read (path : Path) (size : Nat) (offset : Int)
  | write (path : Path) (buf : List (BitVec 8)) (offset : Int) (fh : BitVec 64)
  | readdir

/-- What a call returns, and puts in the buffer it was given. -/
inductive Reply
  | initialised
  | status (ret : Int)
  | stat (ret : Int) (statbuf : Stat)
  | handle (ret : Int) (fh : BitVec 64)
  | bytes (ret : Int) (buf : List (BitVec 8))
  | filled (ret : Int) (filenames : List (List (BitVec 8)))

/-- **The disk serves a request.** -/
def Drive.serve (d : Drive) : Request → Option (Reply × Drive)
  | .init stack => (sfs_init stack d).map fun (_, d') => (.initialised, d')
  | .getattr path statbuf =>
    some (.stat (sfs_getattr d path statbuf).1 (sfs_getattr d path statbuf).2, d)
  | .create path mode fh => (sfs_create path mode fh d).map fun ((ret, fh), d') => (.handle ret fh, d')
  | .unlink path => (sfs_unlink path d).map fun (ret, d') => (.status ret, d')
  | .open_ path flags fh => some (.handle (sfs_open d path flags fh).1 (sfs_open d path flags fh).2, d)
  | .release path fh => some (.handle (sfs_release d path fh).1 (sfs_release d path fh).2, d)
  | .read path size offset =>
    (sfs_read path size offset d).map fun ((ret, buf), d') => (.bytes ret buf, d')
  | .write path buf offset fh => (sfs_write path buf offset fh d).map fun (ret, d') => (.status ret, d')
  | .readdir => some (.filled (sfs_readdir d).1 (sfs_readdir d).2, d)

/-- **What the disk supports**: a file is created with a legal path that does not exist, and finds an inode and a
block; a write starts in its file, and finds its blocks before the maximal size; a read ends in its file or
starts behind it; the entry too many that an unlink releases is of no other file. -/
def Drive.Supports (d : Drive) : Request → Prop
  | .create path _ _ => path.Legal ∧ inodeOf d path = none ∧
      (∃ i < INODE_LIST_SIZE, isInodeFree d i = 1) ∧ ∃ n < BLOCK_LIST_SIZE, isBlockFree d n = 1
  | .unlink path => strcmp path slash = false ∧ ∀ i, inodeOf d path = some i →
      (readInode d i).size.toNat / BLOCK_SIZE + 1 < DATA_ENTRIES ∧ Spare d (readInode d i)
  | .open_ path _ _ => strcmp path slash = false
  | .release path _ => strcmp path slash = false
  | .read path size offset => strcmp path slash = false ∧ ∀ i, inodeOf d path = some i → 0 ≤ offset ∧
      (offset + size ≤ (readInode d i).size ∨ (readInode d i).size < offset)
  | .write path buf offset fh => strcmp path slash = false ∧
      (fh ≠ -1 → buf ≠ [] → ∀ i, inodeOf d path = some i → 0 ≤ offset ∧ offset ≤ (readInode d i).size ∧
        offset + buf.length < 16777216 ∧
        max (readInode d i).size.toNat (offset.toNat + buf.length) / BLOCK_SIZE ≤
          (readInode d i).size.toNat / BLOCK_SIZE + freeBlocks d)
  | _ => True

/-! ### The volume -/

/-- What a file has beside its bytes. -/
structure Attributes where
  mode : BitVec 32
  ino : Nat
  deriving DecidableEq

/-- **The abstract file system.** -/
abbrev Volume := Store (List (BitVec 8)) Attributes (BitVec 8)

/-- The buffer of `getattr` for a file. -/
def statOf (file : File Attributes (BitVec 8)) : Stat where
  st_mode := file.attributes.mode
  st_nlink := 1
  st_size := file.bytes.length
  st_blocks := ((file.bytes.length / BLOCK_SIZE + 1 : Nat) : Int)
  st_ino := BitVec.ofNat 64 file.attributes.ino

/-- **The replies of a volume.** -/
inductive Volume.Answers (v : Volume) : Request → Reply → Prop
  | init (stack : Stack) : Answers v (.init stack) .initialised
  | root {path : Path} (statbuf : Stat) : strcmp path slash = true →
      Answers v (.getattr path statbuf)
        (.stat 0 { statbuf with st_mode := S_IFDIR ||| 0x1FF, st_nlink := 2 })
  | getattr {path : Path} {file : File Attributes (BitVec 8)} (statbuf : Stat) :
      strcmp path slash = false → v path.text = some file →
      Answers v (.getattr path statbuf) (.stat 0 (statOf file))
  | noAttributes {path : Path} (statbuf : Stat) : strcmp path slash = false → v path.text = none →
      Answers v (.getattr path statbuf) (.stat (-ENOENT) statbuf)
  /-- a number that no file has -/
  | create {path : Path} {mode : BitVec 32} {fh : BitVec 64} {ino : Nat} : 0 < ino →
      ino < INODE_LIST_SIZE → (∀ name file, v name = some file → file.attributes.ino ≠ ino) →
      Answers v (.create path mode fh) (.handle 0 (BitVec.ofNat 64 ino))
  | unlink {path : Path} {file : File Attributes (BitVec 8)} : v path.text = some file →
      Answers v (.unlink path) (.status 0)
  | notUnlinked {path : Path} : v path.text = none → Answers v (.unlink path) (.status (-1))
  | open_ {path : Path} {flags : Int} {fh : BitVec 64} {file : File Attributes (BitVec 8)} :
      flags ≠ -1 → v path.text = some file →
      Answers v (.open_ path flags fh) (.handle 0 (BitVec.ofNat 64 file.attributes.ino))
  | notOpened {path : Path} {flags : Int} {fh : BitVec 64} : flags = -1 ∨ v path.text = none →
      Answers v (.open_ path flags fh) (.handle (-1) fh)
  | release {path : Path} {fh : BitVec 64} {file : File Attributes (BitVec 8)} :
      v path.text = some file → Answers v (.release path fh) (.handle 0 (-1))
  | notReleased {path : Path} {fh : BitVec 64} : v path.text = none →
      Answers v (.release path fh) (.handle (-1) fh)
  | read {path : Path} {size : Nat} {offset : Int} {file : File Attributes (BitVec 8)} :
      v path.text = some file → offset + size ≤ file.bytes.length →
      Answers v (.read path size offset) (.bytes size (slice file.bytes offset.toNat size))
  | readBehind {path : Path} {size : Nat} {offset : Int} {file : File Attributes (BitVec 8)} :
      v path.text = some file → file.bytes.length < offset →
      Answers v (.read path size offset) (.bytes (-EFAULT) [])
  | notRead {path : Path} {size : Nat} {offset : Int} : v path.text = none →
      Answers v (.read path size offset) (.bytes (-EBADF) [])
  | write {path : Path} {buf : List (BitVec 8)} {offset : Int} {fh : BitVec 64}
      {file : File Attributes (BitVec 8)} : fh ≠ -1 → v path.text = some file →
      Answers v (.write path buf offset fh) (.status buf.length)
  | notWritten {path : Path} {buf : List (BitVec 8)} {offset : Int} {fh : BitVec 64} :
      fh = -1 ∨ v path.text = none → Answers v (.write path buf offset fh) (.status (-EBADF))
  /-- strings, each name once -/
  | readdir {filenames : List (List (BitVec 8))} : (∀ filename ∈ filenames, 0 ∈ filename) →
      (filenames.map fun filename => filename.takeWhile (· ≠ 0)).Nodup →
      (∀ name, name ∈ filenames.map (fun filename => filename.takeWhile (· ≠ 0)) ↔
        ∃ file, v (47 :: name) = some file) →
      Answers v .readdir (.filled 0 filenames)

/-- **The volume behind a request** that was answered. -/
def Volume.after (v : Volume) : Request → Reply → Volume
  | .create path mode _, .handle _ fh => v.create path.text ⟨mode, fh.toNat⟩
  | .unlink path, _ => v.unlink path.text
  | .write path buf offset fh, _ => if fh = -1 then v else v.write path.text offset.toNat buf
  | _, _ => v

/-! ### The volume on a disk -/

/-- The file of an inode. -/
def fileOf (d : Drive) (i : Nat) : File Attributes (BitVec 8) where
  attributes := ⟨(readInode d i).mode, i⟩
  bytes := bytesOf d (readInode d i) 0 (readInode d i).size.toNat

theorem fileOf_congr {d d' : Drive} {i : Nat} (same : readInode d' i = readInode d i)
    (bytes : bytesOf d' (readInode d i) 0 (readInode d i).size.toNat
      = bytesOf d (readInode d i) 0 (readInode d i).size.toNat) : fileOf d' i = fileOf d i := by
  unfold fileOf
  rw [same, bytes]

theorem length_fileOf (d : Drive) (i : Nat) :
    (fileOf d i).bytes.length = (readInode d i).size.toNat := length_bytesOf _ _ _ _

/-- **The disk holds the volume**: the files of the inodes in use are its files, under their paths. -/
structure Holding (d : Drive) (v : Volume) : Prop where
  kept : Kept d
  named : ∃ names, Named ⟨d, names⟩
  set : d.magic = MAGIC_NUM
  bounded : ∀ i, d.Live i → (readInode d i).size < 16777216
  files : ∀ i, d.Live i → ∀ path : Path, strcmp path (readInode d i).path = true →
    v path.text = some (fileOf d i)
  only : ∀ name file, v name = some file → ∃ (i : Nat) (path : Path), d.Live i ∧ path.Legal ∧
    path.text = name ∧ strcmp path (readInode d i).path = true

section Lookups

variable {d : Drive} {v : Volume} {path : Path} {i : Nat}

/-- Paths with one string have one length. -/
theorem len_of_text {path' : Path} (same : path.text = path'.text) : path.len = path'.len := by
  have lengths := congrArg List.length same
  simpa only [Path.text, List.length_map, List.length_range] using lengths

theorem Holding.titled (holding : Holding d v) (live : d.Live i) : ∃ title : Path, title.Legal ∧
    strcmp title (readInode d i).path = true := by
  obtain ⟨names, named⟩ := holding.named
  obtain ⟨title, legal, held, _⟩ := named.titled i live
  exact ⟨title, legal, held⟩

/-- **A path that is found** leads to a file of the volume. -/
theorem Holding.found (holding : Holding d v) (proper : strcmp path slash = false)
    (found : inodeOf d path = some i) : d.Names path i ∧ v path.text = some (fileOf d i) := by
  have live := holding.kept.live proper found
  have held := (inodeOf_some found).2.2
  obtain ⟨title, legal, titled⟩ := holding.titled live
  have short := len_of_text (text_of_strcmp held titled)
  refine ⟨⟨⟨found, live⟩, ?_⟩, holding.files i live path held⟩
  rw [short]
  exact legal.short

/-- **A path that is not found** leads to none. -/
theorem Holding.missing (holding : Holding d v) (missing : inodeOf d path = none) :
    v path.text = none := by
  cases file : v path.text with
  | none => rfl
  | some _ =>
    obtain ⟨i, other, live, _, text, held⟩ := holding.only _ _ file
    have clash := inodeOf_none missing live.2.1 live.2.2
    rw [strcmp_of_text text held] at clash
    cases clash

/-- The inode numbers are those in use. -/
theorem Holding.ino (holding : Holding d v) {name : List (BitVec 8)} {file : File Attributes (BitVec 8)}
    (held : v name = some file) : d.Live file.attributes.ino := by
  obtain ⟨i, path, live, _, rfl, same⟩ := holding.only name file held
  rw [holding.files i live path same] at held
  cases held
  exact live

/-- A path that is not found is that of no inode in use. -/
theorem unlike_of_missing (missing : inodeOf d path = none) (live : d.Live i) :
    strcmp path (readInode d i).path = false := inodeOf_none missing live.2.1 live.2.2

end Lookups

/-- **A request is served**: the reply is one of the volume's, and the disk holds the volume behind it. -/
def Serves (d : Drive) (v : Volume) (request : Request) : Prop :=
  ∃ reply d', d.serve request = some (reply, d') ∧ v.Answers request reply ∧
    Holding d' (v.after request reply)

/-! ### Requests that change nothing -/

section Queries

variable {d : Drive} {v : Volume} {path : Path}

theorem Holding.init (holding : Holding d v) (stack : Stack) : Serves d v (.init stack) := by
  refine ⟨.initialised, d, ?_, .init stack, holding⟩
  show (sfs_init stack d).map _ = _
  rw [sfs_init_skips (checkIfInit_iff.mpr holding.set)]
  rfl

theorem fillStatBuff_eq {i : Nat} (proper : Proper i (readInode d i)) :
    fillStatBuff (readInode d i) = statOf (fileOf d i) := by
  have sized := proper.sized.1
  have size : ((readInode d i).size.toNat : Int) = (readInode d i).size := Int.toNat_of_nonneg sized
  unfold fillStatBuff statOf
  rw [length_fileOf, size, tdiv_of_nonneg sized, proper.linked, proper.slot]
  rfl

theorem Holding.getattr (holding : Holding d v) (path : Path) (statbuf : Stat) :
    Serves d v (.getattr path statbuf) := by
  refine ⟨_, d, rfl, ?_, holding⟩
  unfold sfs_getattr
  by_cases root : strcmp path slash = true
  · rw [if_pos root]
    exact .root statbuf root
  · have proper := Bool.eq_false_iff.mpr root
    rw [if_neg root]
    cases found : inodeOf d path with
    | none =>
      rw [missing_file found, if_neg (not_not.mpr badresult_id)]
      exact .noAttributes statbuf proper (holding.missing found)
    | some i =>
      obtain ⟨names, file⟩ := holding.found proper found
      rw [names.file, if_pos (holding.kept.accounts.id_ne names.live),
        fillStatBuff_eq (holding.kept.proper i names.live)]
      exact .getattr statbuf proper file

theorem Holding.open_ (holding : Holding d v) (proper : strcmp path slash = false) (flags : Int)
    (fh : BitVec 64) : Serves d v (.open_ path flags fh) := by
  refine ⟨_, d, rfl, ?_, holding⟩
  unfold sfs_open
  by_cases failed : flags = -1
  · rw [if_pos failed]
    exact .notOpened (Or.inl failed)
  · rw [if_neg failed]
    cases found : inodeOf d path with
    | none => exact .notOpened (Or.inr (holding.missing found))
    | some i => exact .open_ failed (holding.found proper found).2

theorem Holding.release (holding : Holding d v) (proper : strcmp path slash = false) (fh : BitVec 64) :
    Serves d v (.release path fh) := by
  refine ⟨_, d, rfl, ?_, holding⟩
  unfold sfs_release
  cases found : inodeOf d path with
  | none =>
    rw [missing_file found, if_pos badresult_id]
    exact .notReleased (holding.missing found)
  | some i =>
    obtain ⟨names, file⟩ := holding.found proper found
    rw [names.file, if_neg (holding.kept.accounts.id_ne names.live)]
    exact .release file

theorem sfs_read_missing (missing : inodeOf d path = none) (size : Nat) (offset : Int) :
    sfs_read path size offset d = some ((-EBADF, []), d) := by
  unfold sfs_read
  rw [look_run, missing_file missing, if_pos badresult_id]
  rfl

theorem Holding.read (holding : Holding d v) {size : Nat} {offset : Int}
    (supports : d.Supports (.read path size offset)) : Serves d v (.read path size offset) := by
  obtain ⟨proper, room⟩ := supports
  cases found : inodeOf d path with
  | none =>
    refine ⟨.bytes (-EBADF) [], d, ?_, .notRead (holding.missing found), holding⟩
    show (sfs_read path size offset d).map _ = _
    rw [sfs_read_missing found]
    rfl
  | some i =>
    obtain ⟨names, file⟩ := holding.found proper found
    obtain ⟨nonneg, inside | behind⟩ := room i found
    · have live := names.live
      have bounded := holding.bounded i live
      have known := holding.kept.accounts.id_ne live
      have length := length_fileOf d i
      lift offset to Nat using nonneg
      have upTo : offset + size ≤ (readInode d i).size.toNat := by omega
      have spans := @Drive.Accounts.spans d holding.kept.accounts i ((offset + size) / BLOCK_SIZE) live
        (Nat.div_le_div_right upTo) (by unfold BLOCK_SIZE DATA_ENTRIES; omega)
      refine ⟨.bytes size (slice (fileOf d i).bytes offset size), d, ?_, .read file ?_, holding⟩
      · show (sfs_read path size offset d).map _ = _
        rw [sfs_read_run names.toFinds known (by omega) (spans.mono (Nat.zero_le _) (Nat.le_refl _))]
        have same : slice (fileOf d i).bytes offset size = bytesOf d (readInode d i) offset size := by
          unfold fileOf bytesOf
          rw [← List.range_eq_range', slice_map_range upTo]
        rw [same]
        rfl
      · rw [length]
        omega
    · refine ⟨.bytes (-EFAULT) [], d, ?_, .readBehind file ?_, holding⟩
      · show (sfs_read path size offset d).map _ = _
        unfold sfs_read
        rw [look_run, names.file, if_neg (holding.kept.accounts.id_ne names.live), if_pos behind]
        rfl
      · have sized := holding.kept.accounts.sized i names.live
        rw [length_fileOf]
        omega

/-- The paths of the files are those that begin with a slash. -/
theorem text_eq_cons {path : Path} (legal : path.Legal) : path.text = 47 :: path.name := by
  have long := legal.named
  obtain ⟨len, length⟩ : ∃ len, path.len = len + 1 := ⟨path.len - 1, by omega⟩
  unfold Path.name Path.text
  rw [length, List.range_succ_eq_map, List.map_cons, legal.rooted, List.tail_cons]

theorem Holding.readdir (holding : Holding d v) : Serves d v .readdir := by
  obtain ⟨names, named⟩ := holding.named
  have agrees := named.agrees
  refine ⟨_, d, rfl, .readdir agrees.strings agrees.once fun name => ?_, holding⟩
  show name ∈ emitted d ↔ _
  constructor
  · intro member
    obtain ⟨filename, listed, rfl⟩ := List.mem_map.mp member
    obtain ⟨i, inUse, rfl⟩ := List.mem_map.mp listed
    have live := mem_listed.mp inUse
    obtain ⟨title, legal, held⟩ := holding.titled live
    refine ⟨fileOf d i, ?_⟩
    rw [filename_of_strcmp legal held, ← text_eq_cons legal]
    exact holding.files i live title held
  · rintro ⟨file, held⟩
    obtain ⟨i, path, live, legal, text, same⟩ := holding.only _ _ held
    have found := (named.getattr_iff (strcmp_slash_of_long legal.named) (fillStatBuff badresult)).mpr
      ⟨i, live, same⟩
    have listed := (agrees.listed path legal.rooted legal.named _).mp found
    rw [text_eq_cons legal] at text
    cases text
    exact listed

end Queries

/-! ### `sfs_create` -/

section Create

variable {d : Drive} {v : Volume} {path : Path}

/-- **With an inode and a block `sfs_create` makes the file**, and `fi->fh` is its inode. -/
theorem sfs_create_run (inode : ∃ i < INODE_LIST_SIZE, isInodeFree d i = 1)
    (block : ∃ n < BLOCK_LIST_SIZE, isBlockFree d n = 1) (path : Path) (mode : BitVec 32)
    (fh : BitVec 64) : ∃ i n, i < INODE_LIST_SIZE ∧ d.inodeFree i = true ∧ n < BLOCK_LIST_SIZE ∧
      d.blockFree n = true ∧
      sfs_create path mode fh d = some ((0, BitVec.ofNat 64 i), d.created i path mode n) := by
  cases found : freeInode d with
  | none =>
    obtain ⟨i, small, free⟩ := inode
    rw [isInodeFree_eq_one, freeInode_none found i small] at free
    cases free
  | some i =>
    obtain ⟨small, free, _⟩ := freeInode_some found
    rcases findNextOpenBlock_cases (d.markInode i ((0 : Int) == 1)) with
      ⟨n, below, next, open_, _⟩ | ⟨_, taken⟩
    · have entry : (createdInode d i path mode n).data 0 = (n : Int) := createdInode_data _ _ _ _ below
      have slot : (createdInode d i path mode n).id = i := createdInode_id d path mode n small
      rw [blockFree_markInode] at open_
      refine ⟨i, n, small, free, below, open_, ?_⟩
      unfold sfs_create
      rw [look_run, found]
      refine (then_run (setInode_run small 0 d) _).trans ?_
      rw [look_run, readInode_markInode, look_run, next]
      have named : (newInode (readInode d i) i path mode).setData 0 n = createdInode d i path mode n := rfl
      rw [named, entry, if_neg (by omega),
        then_run (setBlock_run (by unfold BLOCK_LIST_SIZE at below; omega) 0 _),
        then_run (writeInode_run slot small _), slot]
      rfl
    · obtain ⟨n, below, available⟩ := block
      rw [isBlockFree_eq_one, ← blockFree_markInode (d := d) i n ((0 : Int) == 1), taken n below] at available
      cases available

/-- The file of a new inode. -/
theorem fileOf_created (i : Nat) (path : Path) (mode : BitVec 32) (n : Nat) :
    fileOf (d.created i path mode n) i = ⟨⟨mode, i⟩, []⟩ := by
  have own : readInode (d.created i path mode n) i = (createdInode d i path mode n).record := by
    rw [created_readInode, if_pos rfl]
  unfold fileOf
  rw [own, Inode.mode_record, createdInode_mode, Inode.size_record, createdInode_size]
  rfl

theorem Holding.create (holding : Holding d v) {mode : BitVec 32} {fh : BitVec 64}
    (supports : d.Supports (.create path mode fh)) : Serves d v (.create path mode fh) := by
  obtain ⟨legal, missing, inode, block⟩ := supports
  obtain ⟨i, n, small, free, below, available, ran⟩ := sfs_create_run inode block path mode fh
  have created := CreatesFile.of_created holding.kept.accounts legal.short missing mode small free below
    available
  have positive : 0 < i := created.found.live.1
  have live := @created_live d path i n mode positive small
  have own : strcmp path (readInode (d.created i path mode n) i).path = true :=
    (inodeOf_some created.found.found).2.2
  have fileOf_old : ∀ j, d.Live j → fileOf (d.created i path mode n) j = fileOf d j := by
    intro j old
    obtain ⟨same, bytes⟩ := created.others j old
    refine fileOf_congr same ?_
    rw [← same]
    unfold bytesOf
    rw [same]
    refine List.map_congr_left fun p _ => ?_
    rw [← bytes p, same]
  have unlike : ∀ j, d.Live j → ∀ q : Path, strcmp q (readInode d j).path = true → q.text ≠ path.text := by
    intro j old q same text
    have clash := unlike_of_missing missing old
    rw [strcmp_of_text text same] at clash
    cases clash
  refine ⟨.handle 0 (BitVec.ofNat 64 i), d.created i path mode n, ?_, .create positive small ?_, ?_⟩
  · show (sfs_create path mode fh d).map _ = _
    rw [ran]
    rfl
  · intro name file held same
    have used := (holding.ino held).2.2
    rw [same, free] at used
    cases used
  · have number : (BitVec.ofNat 64 i).toNat = i := by
      unfold INODE_LIST_SIZE at small
      rw [BitVec.toNat_ofNat]
      omega
    show Holding _ (v.create path.text ⟨mode, (BitVec.ofNat 64 i).toNat⟩)
    rw [number]
    unfold Store.create
    obtain ⟨names, named⟩ := holding.named
    refine ⟨holding.kept.create path mode small free below available,
      ⟨path.text :: names, named.create legal (fun j => unlike_of_missing missing) small free below⟩,
      magic_created.trans holding.set, fun j live' => ?_, fun j live' q same => ?_,
      fun name file held => ?_⟩
    · rcases (live j).mp live' with rfl | old
      · rw [created.size]
        decide
      · rw [(created.others j old).1]
        exact holding.bounded j old
    · rcases (live j).mp live' with rfl | old
      · rw [text_of_strcmp same own, Function.update_self, fileOf_created]
      · rw [(created.others j old).1] at same
        rw [Function.update_of_ne (unlike j old q same), fileOf_old j old]
        exact holding.files j old q same
    · by_cases here : name = path.text
      · exact ⟨i, path, created.found.live, legal, here.symm, own⟩
      · rw [Function.update_of_ne here] at held
        obtain ⟨j, q, old, legal', text, same⟩ := holding.only name file held
        refine ⟨j, q, (live j).mpr (Or.inr old), legal', text, ?_⟩
        rw [(created.others j old).1]
        exact same

end Create

/-! ### `sfs_unlink` -/

section Unlink

variable {d : Drive} {v : Volume} {path : Path} {i : Nat}

/-- **`sfs_unlink` of a file with one link** releases its blocks and the entry behind them. -/
theorem sfs_unlink_run (kept : Kept d) (finds : d.Finds path i)
    (inside : (readInode d i).size.toNat / BLOCK_SIZE + 1 < DATA_ENTRIES) :
    ∃ d₁, sfs_unlink path d = some (0, d₁.markInode i true) ∧ SameTable d d₁ ∧
      d₁.content = d.content ∧ d₁.magic = d.magic := by
  have live := finds.live
  have proper := kept.proper i live
  have inRange := proper.inRange.setHardlinks ((readInode d i).hardlinks - 2)
  have entries : ∀ k ∈ List.range ((readInode d i).size.toNat / BLOCK_SIZE + 2), k < DATA_ENTRIES ∧
      ∃ n : Nat, n < 8 * BLOCK_SIZE ∧
        ((readInode d i).setHardlinks ((readInode d i).hardlinks - 2)).data k = (n : Int) := by
    intro k member
    have upTo := List.mem_range.mp member
    obtain ⟨n, small, same⟩ := inRange k (by omega)
    exact ⟨by omega, n, by unfold BLOCK_LIST_SIZE at small; unfold BLOCK_SIZE; omega, same⟩
  obtain ⟨_, d₁, loop, released, content⟩ := releaseBlocks_returns _ d entries
  refine ⟨d₁, ?_, released.table, content, releaseBlocks_magic inRange _ loop⟩
  have unlinked : (BitVec.ofInt 32 ((readInode d i).hardlinks - 2)).toInt < 1 := by
    rw [proper.linked]
    decide
  rw [sfs_unlink_eq finds (kept.accounts.id_ne live) proper.sized.1, if_pos unlinked, then_run loop,
    proper.slot, then_run (setInode_run live.2.1 1 d₁)]
  rfl

theorem sfs_unlink_missing (missing : inodeOf d path = none) : sfs_unlink path d = some (-1, d) := by
  unfold sfs_unlink
  rw [look_run, missing_file missing, if_pos badresult_id]
  rfl

theorem Holding.unlink (holding : Holding d v) (supports : d.Supports (.unlink path)) :
    Serves d v (.unlink path) := by
  obtain ⟨proper, room⟩ := supports
  cases found : inodeOf d path with
  | none =>
    have gone := holding.missing found
    refine ⟨.status (-1), d, ?_, .notUnlinked gone, ?_⟩
    · show (sfs_unlink path d).map _ = _
      rw [sfs_unlink_missing found]
      rfl
    · show Holding d (Store.unlink v path.text)
      rw [Store.unlink_missing gone]
      exact holding
  | some i =>
    obtain ⟨names, file⟩ := holding.found proper found
    obtain ⟨inside, spare⟩ := room i found
    have held := (inodeOf_some found).2.2
    obtain ⟨d₁, ran, table, content, magic⟩ := sfs_unlink_run holding.kept names.toFinds inside
    have record : ∀ j < INODE_LIST_SIZE, readInode (d₁.markInode i true) j = readInode d j := by
      intro j small
      rw [readInode_markInode, table.readInode j small]
    have live : ∀ j, (d₁.markInode i true).Live j ↔ d.Live j ∧ j ≠ i := by
      intro j
      unfold Drive.Live
      rw [inodeFree_markInode, table.inodeFree]
      by_cases here : j = i <;> simp [here]
    obtain ⟨listed, named⟩ := holding.named
    have unlike : ∀ j, d.Live j → j ≠ i → ∀ q : Path, strcmp q (readInode d j).path = true →
        q.text ≠ path.text := fun j live' other q same text =>
      other (named.distinct path j i live' names.live (strcmp_of_text text same) held)
    have sound : d.Sound (.call (.unlink path)) :=
      ⟨proper, fun j found' => (room j found').2⟩
    have kept := holding.kept.step sound (Option.map_eq_some_iff.mpr ⟨_, ran, rfl⟩)
    have step := sfs_unlink_step (fun j found' => by
      have live' := named.not_root proper found'
      exact ⟨named.slots j live', named.inRange j live'.1 live'.2.1⟩) ran
    refine ⟨.status 0, d₁.markInode i true, ?_, .unlink file, ?_⟩
    · show (sfs_unlink path d).map _ = _
      rw [ran]
      rfl
    · show Holding _ (Store.unlink v path.text)
      unfold Store.unlink
      refine ⟨kept, ⟨_, named.unlink proper step⟩, ?_, fun j live' => ?_, fun j live' q same => ?_,
        fun name file' held' => ?_⟩
      · rw [magic_markInode, magic, holding.set]
      · obtain ⟨old, _⟩ := (live j).mp live'
        rw [record j old.2.1]
        exact holding.bounded j old
      · obtain ⟨old, other⟩ := (live j).mp live'
        rw [record j old.2.1] at same
        have bytes : fileOf (d₁.markInode i true) j = fileOf d j := by
          refine fileOf_congr (record j old.2.1) (bytesOf_congr fun k _ _ => ?_)
          rw [content_markInode, content]
        rw [Function.update_of_ne (unlike j old other q same), bytes]
        exact holding.files j old q same
      · by_cases here : name = path.text
        · rw [here, Function.update_self] at held'
          cases held'
        · rw [Function.update_of_ne here] at held'
          obtain ⟨j, q, old, legal, text, same⟩ := holding.only name file' held'
          refine ⟨j, q, (live j).mpr ⟨old, ?_⟩, legal, text, ?_⟩
          · rintro rfl
            exact here (text.symm.trans (text_of_strcmp same held))
          · rw [record j old.2.1]
            exact same

end Unlink

/-! ### `sfs_write` -/

section Write

variable {d : Drive} {v : Volume} {path : Path} {i : Nat} {buf : List (BitVec 8)} {fh : BitVec 64}

/-- **A write with room for all its bytes** comes to the end of its loop. -/
theorem sfs_write_finishes {offset : Nat} (accounts : d.Accounts) (finds : d.Finds path i)
    (handle : fh ≠ -1) (some_ : buf ≠ []) (within : (offset : Int) ≤ (readInode d i).size)
    (notFull : (readInode d i).size < 16777216) (fits : offset + buf.length < 16777216)
    (room : max (readInode d i).size.toNat (offset + buf.length) / BLOCK_SIZE ≤
      (readInode d i).size.toNat / BLOCK_SIZE + freeBlocks d) :
    ∃ (d₁ : Drive) (file : Inode) (blk chr n : Nat) (diskbuf : Memory),
      sfs_write path buf offset fh d
        = some ((buf.length : Int), (d₁.putData n diskbuf).putInode i file) ∧
      Writing d i offset buf d₁ file blk chr diskbuf ∧ file.data blk = (n : Int) := by
  obtain ⟨ret, d', ran, ended⟩ :=
    sfs_write_ends accounts finds handle some_ within notFull (Or.inl fits)
  cases ended with
  | finished writing entry => exact ⟨_, _, _, _, _, _, ran, writing, entry⟩
  | @noSpace _ file blk chr diskbuf put more whole rest writing spent size boundary =>
    -- the write is at a boundary with no block left, and has bytes to put
    have position := writing.position
    have balance := writing.longer.room
    have shorter : put.length < buf.length := by
      have positive := List.length_pos_iff.mpr rest
      rw [whole, List.length_append]
      omega
    have upTo : (blk * BLOCK_SIZE + chr + 1) / BLOCK_SIZE ≤
        max (readInode d i).size.toNat (offset + buf.length) / BLOCK_SIZE :=
      Nat.div_le_div_right (by omega)
    rw [size, Int.toNat_natCast, spent] at balance
    unfold BLOCK_SIZE at *
    omega

/-- **The file of a write that has come to its end** is overwritten. -/
theorem Writing.fileOf_eq {offset blk chr n : Nat} {d₁ : Drive} {file : Inode} {diskbuf : Memory}
    (live : d.Live i) (sized : 0 ≤ (readInode d i).size)
    (writing : Writing d i offset buf d₁ file blk chr diskbuf) (entry : file.data blk = (n : Int))
    (within : (offset : Int) ≤ (readInode d i).size) (small : file.size < 16777216)
    (mode : file.mode = (readInode d i).mode) :
    fileOf ((d₁.putData n diskbuf).putInode i file) i
      = ⟨(fileOf d i).attributes, overwrite (fileOf d i).bytes offset buf⟩ := by
  have own : readInode ((d₁.putData n diskbuf).putInode i file) i = file.record := by
    rw [readInode_putInode, if_pos rfl]
  have size := writing.longer.size
  rw [writing.position] at size
  have length : file.size.toNat = max (readInode d i).size.toNat (offset + buf.length) := by omega
  have bytes : bytesOf ((d₁.putData n diskbuf).putInode i file) file.record 0 file.size.toNat
      = overwrite (bytesOf d (readInode d i) 0 (readInode d i).size.toNat) offset buf := by
    unfold bytesOf
    rw [← List.range_eq_range', ← List.range_eq_range', overwrite_map_range buf (by omega), ← length]
    refine List.map_congr_left fun p member => ?_
    have inside := List.mem_range.mp member
    have block : p / BLOCK_SIZE < DATA_ENTRIES := by
      unfold BLOCK_SIZE DATA_ENTRIES
      omega
    rw [← writing.bytes live entry within (by omega)]
    unfold byteOf
    rw [Inode.data_record _ block]
  unfold fileOf
  rw [own, Inode.mode_record, Inode.size_record, bytes, mode]

theorem Holding.write (holding : Holding d v) {offset : Int} (supports : d.Supports (.write path buf offset fh)) :
    Serves d v (.write path buf offset fh) := by
  obtain ⟨proper, room⟩ := supports
  cases found : inodeOf d path with
  | none =>
    have gone := holding.missing found
    refine ⟨.status (-EBADF), d, ?_, .notWritten (Or.inr gone), ?_⟩
    · show (sfs_write path buf offset fh d).map _ = _
      unfold sfs_write
      rw [look_run, missing_file found, if_pos badresult_id]
      rfl
    · show Holding d (if fh = -1 then v else Store.write v path.text offset.toNat buf)
      rw [Store.write_missing gone, ite_self]
      exact holding
  | some i =>
    obtain ⟨names, file⟩ := holding.found proper found
    have live := names.live
    have accounts := holding.kept.accounts
    have known := accounts.id_ne live
    by_cases closed : fh = -1
    · refine ⟨.status (-EBADF), d, ?_, .notWritten (Or.inl closed), ?_⟩
      · show (sfs_write path buf offset fh d).map _ = _
        unfold sfs_write
        rw [look_run, names.file, if_neg known, if_pos closed]
        rfl
      · show Holding d (if fh = -1 then v else _)
        rw [if_pos closed]
        exact holding
    by_cases none_ : buf = []
    · subst none_
      refine ⟨.status 0, d, ?_, .write closed file, ?_⟩
      · show (sfs_write path [] offset fh d).map _ = _
        unfold sfs_write
        rw [look_run, names.file, if_neg known, if_neg closed, if_pos rfl]
        rfl
      · show Holding d (if fh = -1 then v else Store.write v path.text offset.toNat [])
        rw [Store.write_nil, ite_self]
        exact holding
    obtain ⟨nonneg, within, fits, blocks⟩ := room closed none_ i found
    lift offset to Nat using nonneg
    have bounded := holding.bounded i live
    have sized := accounts.sized i live
    obtain ⟨d₁, file₁, blk, chr, n, diskbuf, ran, writing, entry⟩ := sfs_write_finishes accounts
      names.toFinds closed none_ within bounded (by omega) blocks
    have rewritten := Rewritten.putInode (writing.longer.table.trans (.putData d₁ n diskbuf)) i file₁
    have size := writing.longer.size
    rw [writing.position] at size
    have small : file₁.size < 16777216 := by omega
    obtain ⟨mode, magic⟩ := sfs_write_mode names.toFinds (accounts.slots i live)
      (holding.kept.inRange i live.1 live.2.1) ran
    rw [rewritten.own, Inode.mode_record] at mode
    have own := writing.fileOf_eq live sized entry within small mode
    have others := fun j k other live' => writing.others_kept (j := j) (k := k) live accounts entry other live'
    have sound : d.Sound (.call (.write path buf offset fh)) := by
      refine fun _ _ => ⟨proper, fun j found' => ?_⟩
      cases found.symm.trans found'
      exact .of_within within (by omega) blocks
    have kept := holding.kept.step sound (Option.map_eq_some_iff.mpr ⟨_, ran, rfl⟩)
    obtain ⟨listed, named⟩ := holding.named
    have named' := named.write proper (sfs_write_step ran)
    -- the titles of the files are as they were
    have paths : ∀ j < INODE_LIST_SIZE, ∀ q : Path, q.len < PATH_BYTES →
        (strcmp q (readInode ((d₁.putData n diskbuf).putInode i file₁) j).path = true ↔
          strcmp q (readInode d j).path = true) := by
      intro j inside q short
      rw [strcmp_iff, strcmp_iff]
      refine forall_congr' fun b => forall_congr' fun upTo => ?_
      by_cases here : j = i
      · subst here
        rw [rewritten.own, Inode.path_record _ (by omega), writing.longer.path_bytes b (by omega)]
      · rw [rewritten.others j inside here]
    have title : ∀ j, d.Live j → ∀ q : Path,
        strcmp q (readInode ((d₁.putData n diskbuf).putInode i file₁) j).path = true →
        strcmp q (readInode d j).path = true := by
      intro j old q same
      obtain ⟨title, legal, held⟩ := holding.titled old
      have held' := (paths j old.2.1 title legal.short).mpr held
      exact strcmp_of_strcmp held' held same
    generalize (d₁.putData n diskbuf).putInode i file₁ = d' at *
    refine ⟨.status buf.length, d', ?_, .write closed file, ?_⟩
    · show (sfs_write path buf offset fh d).map _ = _
      rw [ran]
      rfl
    · show Holding d' (if fh = -1 then v else Store.write v path.text (offset : Int).toNat buf)
      rw [if_neg closed, Int.toNat_natCast, Store.write_found file, ← own]
      refine ⟨kept, ⟨_, named'⟩, magic.trans holding.set, fun j live' => ?_, fun j live' q same => ?_,
        fun name file' held' => ?_⟩
      · have old := (rewritten.live_iff j).mp live'
        by_cases here : j = i
        · rw [here, rewritten.own, Inode.size_record]
          exact small
        · rw [rewritten.others j old.2.1 here]
          exact holding.bounded j old
      · have old := (rewritten.live_iff j).mp live'
        have same' := title j old q same
        by_cases here : j = i
        · subst here
          rw [text_of_strcmp same' (inodeOf_some found).2.2, Function.update_self]
        · have apart : q.text ≠ path.text := fun text =>
            here (named.distinct path j i old live (strcmp_of_text text same') (inodeOf_some found).2.2)
          have record := rewritten.others j old.2.1 here
          have bytes : fileOf d' j = fileOf d j := by
            refine fileOf_congr record (bytesOf_congr fun k _ upTo => others j k here old ?_ ?_)
            · rw [Nat.zero_add] at upTo
              exact upTo
            · have most := holding.bounded j old
              unfold BLOCK_SIZE at upTo
              unfold DATA_ENTRIES
              omega
          rw [Function.update_of_ne apart, bytes]
          exact holding.files j old q same'
      · have before : ∃ file₀, v name = some file₀ := by
          by_cases here : name = path.text
          · rw [here]
            exact ⟨_, file⟩
          · rw [Function.update_of_ne here] at held'
            exact ⟨_, held'⟩
        obtain ⟨file₀, held⟩ := before
        obtain ⟨j, q, old, legal, text, same⟩ := holding.only name file₀ held
        exact ⟨j, q, (rewritten.live_iff j).mpr old, legal, text,
          (paths j old.2.1 q legal.short).mpr same⟩

end Write

/-! ### Runs -/

/-- The disk, and the volume behind the replies it gave. -/
structure Mounted where
  drive : Drive
  volume : Volume

/-- A disk of zeros after `sfs_init`, and no files. -/
def Mounted.Fresh (m : Mounted) : Prop := m.drive.Fresh ∧ m.volume = fun _ => none

/-- A request is served. -/
def Mounted.exec (m : Mounted) (request : Request) : Option Mounted :=
  (m.drive.serve request).map fun (reply, d) => ⟨d, m.volume.after request reply⟩

/-- The disk supports the request. -/
def Mounted.Supports (m : Mounted) (request : Request) : Prop := m.drive.Supports request

theorem Holding.fresh {m : Mounted} (fresh : m.Fresh) : Holding m.drive m.volume := by
  obtain ⟨began, empty⟩ := fresh
  have named : Named ⟨m.drive, []⟩ := Named.fresh ⟨began, rfl⟩
  have unused : ∀ i, ¬ m.drive.Live i := by
    intro i live
    obtain ⟨_, _, _, member⟩ := named.titled i live
    cases member
  have set : checkIfInit m.drive = 1 := by
    obtain ⟨stack, ran⟩ := began
    have initialises : Reinitialises stack zeroDisk := reinitialises_fresh (by decide) stack
    obtain ⟨d, ran', initial⟩ := initialises
    rw [ran] at ran'
    cases ran'
    exact initial.magic
  refine ⟨Kept.fresh began, ⟨[], named⟩, checkIfInit_iff.mp set, fun i live => absurd live (unused i),
    fun i live => absurd live (unused i), fun name file held => ?_⟩
  rw [empty] at held
  cases held

/-- **Every request is served as the volume does.** -/
theorem Holding.serves {d : Drive} {v : Volume} (holding : Holding d v) {request : Request}
    (supports : d.Supports request) : Serves d v request := by
  cases request with
  | init stack => exact holding.init stack
  | getattr path statbuf => exact holding.getattr path statbuf
  | create path mode fh => exact holding.create supports
  | unlink path => exact holding.unlink supports
  | open_ path flags fh => exact holding.open_ supports flags fh
  | release path fh => exact holding.release supports fh
  | read path size offset => exact holding.read supports
  | write path buf offset fh => exact holding.write supports
  | readdir => exact holding.readdir

theorem holding_of_reach {m : Mounted}
    (reached : Reach Mounted.Fresh Mounted.Supports (execStep Mounted.exec) m) :
    Holding m.drive m.volume := by
  refine reached.invariant (fun m => Holding m.drive m.volume) (fun _ fresh => Holding.fresh fresh)
    fun m request m' holding supports taken => ?_
  obtain ⟨reply, d', served, _, holding'⟩ := holding.serves supports
  have next : m.exec request = some ⟨d', m.volume.after request reply⟩ :=
    Option.map_eq_some_iff.mpr ⟨_, served, rfl⟩
  cases next.symm.trans taken
  exact holding'

/-- **The disk refines the volume**: behind any requests that it supported, each further one is answered
as the volume of the replies so far does. -/
theorem volume_refined {m : Mounted}
    (reached : Reach Mounted.Fresh Mounted.Supports (execStep Mounted.exec) m) {request : Request}
    (supports : m.Supports request) : ∃ reply m', m.exec request = some m' ∧
      m.drive.serve request = some (reply, m'.drive) ∧ m.volume.Answers request reply ∧
      m'.volume = m.volume.after request reply := by
  obtain ⟨reply, d', served, answered, _⟩ := (holding_of_reach reached).serves supports
  exact ⟨reply, ⟨d', m.volume.after request reply⟩, Option.map_eq_some_iff.mpr ⟨_, served, rfl⟩, served,
    answered, rfl⟩

/-! ### A small run -/

/-- The fresh file system, mounted. -/
def freshMounted : Mounted := ⟨freshDrive, fun _ => none⟩

/-- A file is created, -/
def createdMounted : Mounted := (freshMounted.exec (.create firstPath 0x81A4 0)).getD freshMounted

/-- two bytes are written to it, -/
def writtenMounted : Mounted := (createdMounted.exec (.write firstPath [7, 8] 0 1)).getD createdMounted

/-- and the file system is mounted again. -/
def remounted : Mounted := (writtenMounted.exec (.init zeroStack)).getD writtenMounted

theorem mounted_eq_getD {o : Option Mounted} (m : Mounted) (taken : o.isSome = true) :
    o = some (o.getD m) := by
  obtain ⟨m', rfl⟩ := Option.isSome_iff_exists.mp taken
  rfl

theorem remounted_reached : Reach Mounted.Fresh Mounted.Supports (execStep Mounted.exec) remounted := by
  have began : freshMounted.Fresh := ⟨freshDrive_fresh, rfl⟩
  have legal : firstPath.Legal := lettersPath_legal zero_lt_inodes
  have creates : freshMounted.Supports (.create firstPath 0x81A4 0) :=
    ⟨legal, by decide +kernel, ⟨1, by decide, by decide +kernel⟩, 0, by decide, by decide +kernel⟩
  have found : inodeOf createdMounted.drive firstPath = some 1 := by decide +kernel
  have empty : (readInode createdMounted.drive 1).size = 0 := by decide +kernel
  have writes : createdMounted.Supports (.write firstPath [7, 8] 0 1) := by
    refine ⟨by decide, fun _ _ i found' => ?_⟩
    cases found.symm.trans found'
    rw [empty]
    exact ⟨by decide, by decide, by decide, Nat.zero_le _⟩
  have created : freshMounted.exec (.create firstPath 0x81A4 0) = some createdMounted :=
    mounted_eq_getD _ (by decide +kernel)
  have written : createdMounted.exec (.write firstPath [7, 8] 0 1) = some writtenMounted :=
    mounted_eq_getD _ (by decide +kernel)
  have again : writtenMounted.exec (.init zeroStack) = some remounted :=
    mounted_eq_getD _ (by decide +kernel)
  have remounts : writtenMounted.Supports (.init zeroStack) := trivial
  exact .next (.next (.next (.init began) creates created) writes written) remounts again

/-- The bytes are read back. -/
theorem volume_refined_remounted : ∃ m : Mounted,
    remounted.volume firstPath.text = some ⟨⟨0x81A4, 1⟩, [7, 8]⟩ ∧
      remounted.drive.serve (.read firstPath 2 0) = some (.bytes 2 [7, 8], m.drive) := by
  have held : remounted.volume firstPath.text = some ⟨⟨0x81A4, 1⟩, [7, 8]⟩ := by decide +kernel
  have found : inodeOf remounted.drive firstPath = some 1 := by decide +kernel
  have size : (readInode remounted.drive 1).size = 2 := by decide +kernel
  have room : remounted.Supports (.read firstPath 2 0) := by
    refine ⟨by decide, fun i found' => ?_⟩
    cases found.symm.trans found'
    rw [size]
    decide
  obtain ⟨reply, m, _, served, answered, _⟩ := volume_refined remounted_reached room
  refine ⟨m, held, served.trans ?_⟩
  cases answered with
  | read file =>
    cases held.symm.trans file
    rfl
  | readBehind file behind =>
    cases held.symm.trans file
    exact absurd behind (by decide)
  | notRead missing =>
    rw [held] at missing
    cases missing

end OS2017.Files
