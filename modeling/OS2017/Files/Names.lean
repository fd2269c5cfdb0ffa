/-
**The names of the files.**

The inodes in use are the directory: `sfs_getattr` searches them for a path, `sfs_readdir` lists
them. Along a run of `sfs_create`, `sfs_write` and `sfs_unlink` the paths they hold are those that
were created and not unlinked since (`names_agree`), as long as every `sfs_create` finds a free inode
and a free block, and the root is neither written nor unlinked.
-/

import OS2017.Files.Steps
import OS2017.Files.Init
import OS2017.Lib.Run
import Mathlib.Data.List.Nodup

namespace OS2017.Files

open OS2017.Bytes OS2017.Run

/-! ### Strings -/

theorem strcmp_iff {path : Path} {m : Memory} :
    strcmp path m = true ↔ ∀ k ≤ path.len, path.bytes k = m k := by
  unfold strcmp
  simp only [List.all_eq_true, List.mem_range, decide_eq_true_eq, Nat.lt_add_one_iff]

/-- A memory holds one string. -/
theorem text_of_strcmp {path path' : Path} {m : Memory} (same : strcmp path m = true)
    (same' : strcmp path' m = true) : path.text = path'.text := by
  rw [strcmp_iff] at same same'
  have ends : ∀ {p q : Path}, (∀ k ≤ p.len, p.bytes k = m k) → (∀ k ≤ q.len, q.bytes k = m k) →
      ¬ p.len < q.len := by
    intro p q agree agree' shorter
    refine q.nonzero p.len shorter ?_
    rw [agree' p.len (Nat.le_of_lt shorter), ← agree p.len (Nat.le_refl _), p.terminated]
  have equal : path.len = path'.len :=
    Nat.le_antisymm (Nat.not_lt.mp (ends same' same)) (Nat.not_lt.mp (ends same same'))
  unfold Path.text
  rw [← equal]
  refine List.map_congr_left fun k member => ?_
  have below := Nat.le_of_lt (List.mem_range.mp member)
  rw [same k below, same' k (equal ▸ below)]

/-- A comparison depends on the string only. -/
theorem strcmp_of_text {path path' : Path} (equal : path.text = path'.text) {m : Memory}
    (same : strcmp path m = true) : strcmp path' m = true := by
  rw [strcmp_iff] at same ⊢
  have lengths := congrArg List.length equal
  simp only [Path.text, List.length_map, List.length_range] at lengths
  intro k below
  rcases Nat.lt_or_ge k path'.len with inside | atEnd
  · rw [← same k (by omega)]
    have bytes := congrArg (fun text => text[k]?) equal
    simp only [Path.text, List.getElem?_map] at bytes
    rw [List.getElem?_range (by omega), List.getElem?_range inside] at bytes
    exact (Option.some.inj bytes).symm
  · have last : k = path'.len := Nat.le_antisymm below atEnd
    rw [last, path'.terminated, ← path.terminated, lengths]
    exact same path'.len (by omega)

/-- Two memories with one string compare the same. -/
theorem strcmp_of_strcmp {path path' : Path} {m m' : Memory} (held : strcmp path m = true)
    (held' : strcmp path m' = true) (same : strcmp path' m = true) : strcmp path' m' = true :=
  strcmp_of_text (text_of_strcmp held same) held'

/-- The path `"/"`. -/
def slashPath : Path where
  bytes := slash
  len := 1
  nonzero := by decide
  terminated := rfl
  bounded := by decide

theorem strcmp_slash {m : Memory} (first : m 0 = 47) (second : m 1 = 0) (path : Path) :
    strcmp path m = strcmp path slash := by
  have held : strcmp slashPath m = true := by
    refine strcmp_iff.mpr fun k below => ?_
    have upper : k ≤ 1 := below
    rcases Nat.le_one_iff_eq_zero_or_eq_one.mp upper with rfl | rfl
    · exact first.symm
    · exact second.symm
  have held' : strcmp slashPath slash = true := by decide
  exact Bool.eq_iff_iff.mpr ⟨strcmp_of_strcmp held held', strcmp_of_strcmp held' held⟩

/-- The string at the start of an array. -/
theorem takeWhile_map_range {m : Memory} {len cap : Nat} (nonzero : ∀ k < len, m k ≠ 0)
    (terminated : m len = 0) (inside : len < cap) :
    ((List.range cap).map m).takeWhile (· ≠ 0) = (List.range len).map m := by
  obtain ⟨rest, rfl⟩ := Nat.exists_eq_add_of_lt inside
  have split : List.range (len + rest + 1) = List.range len ++ (len :: List.range' (len + 1) rest) := by
    rw [List.range_eq_range', List.range_eq_range', Nat.add_assoc, ← List.range'_append_1,
      Nat.zero_add, List.range'_succ]
  rw [split, List.map_append, List.takeWhile_append_of_pos]
  · simp [terminated]
  · intro byte member
    obtain ⟨k, below, rfl⟩ := List.mem_map.mp member
    simpa using nonzero k (List.mem_range.mp below)

/-- **A path a file can be created with**: a slash and a name of 1 to 254 bytes. -/
structure Path.Legal (path : Path) : Prop where
  rooted : path.bytes 0 = 47
  named : 2 ≤ path.len
  fits : path.len ≤ 255

/-- The path without its first byte. -/
def Path.name (path : Path) : List (BitVec 8) := path.text.tail

/-- The name `sfs_readdir` gives to the filler. -/
theorem filename_of_strcmp {path : Path} (legal : path.Legal) {nd : Inode}
    (same : strcmp path nd.path = true) : (filename nd).takeWhile (· ≠ 0) = path.name := by
  rw [strcmp_iff] at same
  obtain ⟨len, length⟩ : ∃ len, path.len = len + 1 := ⟨path.len - 1, by have := legal.named; omega⟩
  have short := legal.fits
  have bytes : ∀ k ≤ len, nd (PATH + 1 + k) = path.bytes (k + 1) := by
    intro k below
    rw [same (k + 1) (by omega)]
    show nd (PATH + 1 + k) = nd (PATH + (k + 1))
    rw [Nat.add_assoc, Nat.add_comm 1 k]
  have word : (filename nd).takeWhile (· ≠ 0) = (List.range len).map fun k => nd (PATH + 1 + k) := by
    refine takeWhile_map_range (fun k below => ?_) ?_ (by omega)
    · rw [bytes k (Nat.le_of_lt below)]
      exact path.nonzero (k + 1) (by omega)
    · rw [bytes len (Nat.le_refl _), ← length, path.terminated]
  rw [word]
  unfold Path.name Path.text
  rw [length, List.range_succ_eq_map, List.map_cons, List.tail_cons, List.map_map]
  exact List.map_congr_left fun k member => bytes k (Nat.le_of_lt (List.mem_range.mp member))

/-- The array given to the filler is a string. -/
theorem zero_mem_filename {path : Path} (named : 2 ≤ path.len) (fits : path.len ≤ 255) {nd : Inode}
    (same : strcmp path nd.path = true) : 0 ∈ filename nd := by
  refine List.mem_map.mpr ⟨path.len - 1, List.mem_range.mpr (by omega), ?_⟩
  rw [Nat.add_assoc, show 1 + (path.len - 1) = path.len by omega]
  exact ((strcmp_iff.mp same) path.len (Nat.le_refl _)).symm.trans path.terminated

/-! ### Runs -/

/-- The disk, and the paths that were created and not unlinked since. -/
structure Naming where
  drive : Drive
  names : List (List (BitVec 8))

/-- The calls that change the disk. -/
inductive Call
  | create (path : Path) (mode : BitVec 32) (fh : BitVec 64)
  | write (path : Path) (buf : List (BitVec 8)) (offset : Int) (fh : BitVec 64)
  | unlink (path : Path)

/-- A call, and what is noted of it. -/
def Naming.exec (s : Naming) : Call → Option Naming
  | .create path mode fh => (sfs_create path mode fh s.drive).map fun ((ret, _), d) =>
      ⟨d, if ret = 0 then path.text :: s.names else s.names⟩
  | .write path buf offset fh => (sfs_write path buf offset fh s.drive).map fun (_, d) =>
      ⟨d, s.names⟩
  | .unlink path => (sfs_unlink path s.drive).map fun (ret, d) =>
      ⟨d, if ret = 0 then s.names.filter (· ≠ path.text) else s.names⟩

/-- A disk of zeros after `sfs_init`. -/
def Naming.Fresh (s : Naming) : Prop :=
  (∃ stack, sfs_init stack ⟨zeroDisk, []⟩ = some ((), s.drive)) ∧ s.names = []

/-- **The calls there are**: files are created with a legal path that does not exist. -/
def Naming.Admits (s : Naming) : Call → Prop
  | .create path _ _ => path.Legal ∧ ∀ statbuf, (sfs_getattr s.drive path statbuf).1 = -ENOENT
  | _ => True

/-- **The calls that keep the names**: a new file finds an inode and a block, and the root is neither
written nor unlinked. -/
def Naming.Keeps (s : Naming) : Call → Prop
  | .create _ _ _ => (∃ i < INODE_LIST_SIZE, isInodeFree s.drive i = 1) ∧
      ∃ n < BLOCK_LIST_SIZE, isBlockFree s.drive n = 1
  | .write path _ _ _ => strcmp path slash = false
  | .unlink path => strcmp path slash = false

/-- The names `sfs_readdir` emits. -/
def emitted (d : Drive) : List (List (BitVec 8)) :=
  (sfs_readdir d).2.map fun filename => filename.takeWhile (· ≠ 0)

/-- **The three views of the directory agree.** -/
structure Naming.Agrees (s : Naming) : Prop where
  /-- every array given to the filler is a string -/
  strings : ∀ filename ∈ (sfs_readdir s.drive).2, 0 ∈ filename
  once : (emitted s.drive).Nodup
  listed : ∀ path : Path, path.bytes 0 = 47 → 2 ≤ path.len → ∀ statbuf,
    (sfs_getattr s.drive path statbuf).1 = 0 ↔ path.name ∈ emitted s.drive
  created : ∀ path : Path, path.bytes 0 = 47 → 2 ≤ path.len → ∀ statbuf,
    (sfs_getattr s.drive path statbuf).1 = 0 ↔ path.text ∈ s.names

/-! ### The invariant -/

/-- An inode in use other than the root's. -/
def Drive.Live (d : Drive) (i : Nat) : Prop := 0 < i ∧ i < INODE_LIST_SIZE ∧ d.inodeFree i = false

/-- **What the inode table holds along a run.** -/
structure Named (s : Naming) : Prop where
  rootUsed : s.drive.inodeFree 0 = false
  rootPath : ∀ path, strcmp path (readInode s.drive 0).path = strcmp path slash
  slots : ∀ i, s.drive.Live i → (readInode s.drive i).id = i
  titled : ∀ i, s.drive.Live i → ∃ path : Path, path.Legal ∧
    strcmp path (readInode s.drive i).path = true ∧ path.text ∈ s.names
  kept : ∀ path : Path, path.text ∈ s.names → ∃ i, s.drive.Live i ∧
    strcmp path (readInode s.drive i).path = true
  distinct : ∀ path i j, s.drive.Live i → s.drive.Live j →
    strcmp path (readInode s.drive i).path = true →
    strcmp path (readInode s.drive j).path = true → i = j
  inRange : ∀ i, 0 < i → i < INODE_LIST_SIZE → InRange (readInode s.drive i)

theorem Named.not_root {s : Naming} (named : Named s) {path : Path} {i : Nat}
    (proper : strcmp path slash = false) (found : inodeOf s.drive path = some i) :
    s.drive.Live i := by
  obtain ⟨small, used, same⟩ := inodeOf_some found
  refine ⟨Nat.pos_of_ne_zero fun root => ?_, small, used⟩
  rw [root, named.rootPath, proper] at same
  cases same

/-- A longer path is not the root's. -/
theorem strcmp_slash_of_long {path : Path} (long : 2 ≤ path.len) : strcmp path slash = false := by
  refine Bool.eq_false_iff.mpr fun same => ?_
  rw [strcmp_iff] at same
  exact path.nonzero 1 (by omega) (same 1 (by omega))

/-- **`sfs_getattr` finds the files.** -/
theorem Named.getattr_iff {s : Naming} (named : Named s) {path : Path}
    (proper : strcmp path slash = false) (statbuf : Stat) :
    (sfs_getattr s.drive path statbuf).1 = 0 ↔
      ∃ i, s.drive.Live i ∧ strcmp path (readInode s.drive i).path = true := by
  unfold sfs_getattr checkiNodePathName
  rw [if_neg (by rw [proper]; decide)]
  cases found : inodeOf s.drive path with
  | none =>
    rw [if_neg (by rw [badresult_id]; decide)]
    refine iff_of_false (show ¬ -ENOENT = 0 by decide) ?_
    rintro ⟨i, ⟨_, small, used⟩, same⟩
    rw [inodeOf_none found small used] at same
    cases same
  | some i =>
    have live := named.not_root proper found
    have slot := named.slots i live
    rw [if_pos (by rw [slot]; omega)]
    exact iff_of_true rfl ⟨i, live, (inodeOf_some found).2.2⟩

/-- The inodes `sfs_readdir` lists. -/
theorem mem_listed {d : Drive} {i : Nat} :
    i ∈ (List.range' 1 (INODE_LIST_SIZE - 1)).filter (fun i => isInodeFree d i = 0) ↔ d.Live i := by
  rw [List.mem_filter, List.mem_range'_1, decide_eq_true_eq, isInodeFree_eq_zero]
  unfold Drive.Live INODE_LIST_SIZE
  constructor
  · rintro ⟨⟨lower, upper⟩, used⟩
    exact ⟨lower, by omega, used⟩
  · rintro ⟨lower, upper, used⟩
    exact ⟨⟨lower, by omega⟩, used⟩

/-- A path is its slash and its name. -/
theorem text_eq_of_name {path path' : Path} (rooted : path.bytes 0 = 47) (long : 2 ≤ path.len)
    (rooted' : path'.bytes 0 = 47) (long' : 2 ≤ path'.len) (equal : path.name = path'.name) :
    path.text = path'.text := by
  have first : ∀ q : Path, q.bytes 0 = 47 → 2 ≤ q.len → q.text = 47 :: q.name := by
    intro q start longer
    obtain ⟨len, length⟩ : ∃ len, q.len = len + 1 := ⟨q.len - 1, by omega⟩
    unfold Path.name Path.text
    rw [length, List.range_succ_eq_map, List.map_cons, start, List.tail_cons]
  rw [first path rooted long, first path' rooted' long', equal]

theorem Named.mem_emitted {s : Naming} (named : Named s) {path : Path} (rooted : path.bytes 0 = 47)
    (long : 2 ≤ path.len) : path.name ∈ emitted s.drive ↔
      ∃ i, s.drive.Live i ∧ strcmp path (readInode s.drive i).path = true := by
  unfold emitted sfs_readdir
  simp only [List.map_map, List.mem_map, mem_listed, Function.comp_apply]
  refine exists_congr fun i => and_congr_right fun live => ?_
  obtain ⟨title, legal, same, _⟩ := named.titled i live
  rw [filename_of_strcmp legal same]
  constructor
  · intro equal
    exact strcmp_of_text (text_eq_of_name legal.rooted legal.named rooted long equal) same
  · intro same'
    exact congrArg List.tail (text_of_strcmp same same')

/-- **The invariant gives the agreement.** -/
theorem Named.agrees {s : Naming} (named : Named s) : s.Agrees where
  strings := by
    intro name member
    obtain ⟨i, listed, rfl⟩ := List.mem_map.mp member
    obtain ⟨title, legal, same, _⟩ := named.titled i (mem_listed.mp listed)
    exact zero_mem_filename legal.named legal.fits same
  once := by
    unfold emitted sfs_readdir
    rw [List.map_map]
    refine List.Nodup.map_on ?_ (List.Nodup.filter _ List.nodup_range')
    intro i listed j listed' equal
    have live := mem_listed.mp listed
    have live' := mem_listed.mp listed'
    obtain ⟨title, legal, same, _⟩ := named.titled i live
    obtain ⟨title', legal', same', _⟩ := named.titled j live'
    simp only [Function.comp_apply] at equal
    rw [filename_of_strcmp legal same, filename_of_strcmp legal' same'] at equal
    have text := text_eq_of_name legal.rooted legal.named legal'.rooted legal'.named equal
    exact named.distinct title' i j live live' (strcmp_of_text text same) same'
  listed := fun path rooted long statbuf => by
    rw [named.getattr_iff (strcmp_slash_of_long long), named.mem_emitted rooted long]
  created := fun path rooted long statbuf => by
    rw [named.getattr_iff (strcmp_slash_of_long long)]
    constructor
    · rintro ⟨i, live, same⟩
      obtain ⟨title, _, same', member⟩ := named.titled i live
      rw [text_of_strcmp same same']
      exact member
    · exact named.kept path

/-! ### The steps keep it -/

theorem Named.fresh {s : Naming} (fresh : s.Fresh) : Named s := by
  obtain ⟨⟨stack, ran⟩, empty⟩ := fresh
  have unset : checkIfInit ⟨zeroDisk, []⟩ ≠ 1 := by decide
  have initial : EmptyFileSystem s.drive := by
    have initialises : Reinitialises stack zeroDisk := reinitialises_fresh (by decide) stack
    obtain ⟨d, ran', initial⟩ := initialises
    rw [ran] at ran'
    cases ran'
    exact initial
  have read := readInode_initialised unset ran
  have unused : ∀ i, ¬ s.drive.Live i := by
    rintro i ⟨positive, small, used⟩
    have root := (initial.inodes i small).mp (isInodeFree_eq_zero.mpr used)
    omega
  refine ⟨?_, ?_, ?_, ?_, ?_, ?_, ?_⟩
  · exact isInodeFree_eq_zero.mp ((initial.inodes 0 (by decide)).mpr rfl)
  · exact strcmp_slash initial.root.1 initial.root.2
  · exact fun i live => absurd live (unused i)
  · exact fun i live => absurd live (unused i)
  · intro path member
    rw [empty] at member
    cases member
  · exact fun path i j live => absurd live (unused i)
  · intro i positive small k inside
    refine ⟨0, by decide, ?_⟩
    have zero : readInode ⟨zeroDisk, []⟩ i = fun _ => 0 := by
      funext a
      unfold readInode zeroDisk
      simp
    rw [read, if_neg (by omega), zero]
    show (0#8 ++ 0#8 ++ 0#8 ++ 0#8 : BitVec 32).toInt = 0
    decide

/-- **The names depend on the bitmap and the paths only.** -/
theorem Named.of_paths {s : Naming} (named : Named s) {d : Drive}
    (free : ∀ k, d.inodeFree k = s.drive.inodeFree k)
    (paths : ∀ i, i = 0 ∨ s.drive.Live i → ∀ path,
      strcmp path (readInode d i).path = strcmp path (readInode s.drive i).path)
    (slots : ∀ i, s.drive.Live i → (readInode d i).id = i)
    (inRange : ∀ i, 0 < i → i < INODE_LIST_SIZE → InRange (readInode d i)) :
    Named ⟨d, s.names⟩ := by
  have live : ∀ i, d.Live i ↔ s.drive.Live i := by
    intro i
    unfold Drive.Live
    rw [free]
  refine ⟨?_, ?_, ?_, ?_, ?_, ?_, inRange⟩
  · exact (free 0).trans named.rootUsed
  · intro path
    exact (paths 0 (Or.inl rfl) path).trans (named.rootPath path)
  · exact fun i live' => slots i ((live i).mp live')
  · intro i live'
    have live₀ := (live i).mp live'
    obtain ⟨path, legal, same, member⟩ := named.titled i live₀
    exact ⟨path, legal, (paths i (Or.inr live₀) path).trans same, member⟩
  · intro path member
    obtain ⟨i, live₀, same⟩ := named.kept path member
    exact ⟨i, (live i).mpr live₀, (paths i (Or.inr live₀) path).trans same⟩
  · intro path i j live₁ live₂ same₁ same₂
    have live₁' := (live i).mp live₁
    have live₂' := (live j).mp live₂
    exact named.distinct path i j live₁' live₂' ((paths i (Or.inr live₁') path).symm.trans same₁)
      ((paths j (Or.inr live₂') path).symm.trans same₂)

theorem Named.of_sameTable {s : Naming} (named : Named s) {d : Drive}
    (table : SameTable s.drive d) : Named ⟨d, s.names⟩ := by
  refine named.of_paths table.inodeFree ?_ ?_ ?_
  · intro i which path
    have small : i < INODE_LIST_SIZE := which.elim (fun root => root ▸ by decide) (·.2.1)
    rw [table.readInode i small]
  · intro i live
    rw [table.readInode i live.2.1]
    exact named.slots i live
  · intro i positive small
    rw [table.readInode i small]
    exact named.inRange i positive small

/-! ### `sfs_write` -/

/-- **A write of the file `i`**: its inode is as it was or the record of a file that passes the
check; the other inodes and their bitmap are as they were. -/
structure Rewrites (i : Nat) (check : Inode → Prop) (d d' : Drive) : Prop where
  inodeFree : ∀ k, d'.inodeFree k = d.inodeFree k
  others : ∀ k < INODE_LIST_SIZE, k ≠ i → readInode d' k = readInode d k
  own : readInode d' i = readInode d i ∨ ∃ file, check file ∧ readInode d' i = file.record

/-- The file `i` with its path, as it is in memory. -/
structure Titled (i : Nat) (path : Path) (file : Inode) : Prop where
  slot : file.id = i
  titled : ∀ k ≤ path.len, path.bytes k = file.path k
  inRange : InRange file

theorem Titled.setSize {i : Nat} {path : Path} {file : Inode} (titled : Titled i path file)
    (short : path.len < PATH_BYTES) (value : Int) : Titled i path (file.setSize value) where
  slot := (Inode.id_setSize file value).trans titled.slot
  titled := fun k below => by
    rw [Inode.path_setSize _ _ (by omega)]
    exact titled.titled k below
  inRange := titled.inRange.setSize value

theorem Titled.setData {i : Nat} {path : Path} {file : Inode} (titled : Titled i path file)
    (short : path.len < PATH_BYTES) (k : Nat) {n : Nat} (small : n < BLOCK_LIST_SIZE) :
    Titled i path (file.setData k n) where
  slot := (Inode.id_setData file k n).trans titled.slot
  titled := fun j below => by
    rw [Inode.path_setData _ _ (by omega)]
    exact titled.titled j below
  inRange := titled.inRange.setData k small

/-- The end of a write. -/
theorem rewrites_putInode {i : Nat} {check : Inode → Prop} {file : Inode} (checked : check file)
    {d d' : Drive} (table : SameTable d d') : Rewrites i check d (d'.putInode i file) where
  inodeFree := fun k => (inodeFree_putInode d' i k file).trans (table.inodeFree k)
  others := fun k below other => by
    rw [readInode_putInode, if_neg other]
    exact table.readInode k below
  own := Or.inr ⟨file, checked, by rw [readInode_putInode, if_pos rfl]⟩

theorem Rewrites.of_sameTable {i : Nat} (small : i < INODE_LIST_SIZE) {check : Inode → Prop}
    {d d' : Drive} (table : SameTable d d') : Rewrites i check d d' :=
  ⟨table.inodeFree, fun k below _ => table.readInode k below, Or.inl (table.readInode i small)⟩

theorem Rewrites.after {i : Nat} (small : i < INODE_LIST_SIZE) {check : Inode → Prop}
    {d d₁ d' : Drive} (table : SameTable d d₁) (rewrites : Rewrites i check d₁ d') :
    Rewrites i check d d' where
  inodeFree := fun k => (rewrites.inodeFree k).trans (table.inodeFree k)
  others := fun k below other => (rewrites.others k below other).trans (table.readInode k below)
  own := rewrites.own.imp_left fun same => same.trans (table.readInode i small)

section Writing

variable {i : Nat} {path : Path}

theorem fillGap_titled (short : path.len < PATH_BYTES) :
    ∀ (count : Nat) (blksOwned : Int) {file : Inode} {d d' : Drive} {result : Option Inode},
      Titled i path file → fillGap count blksOwned file d = some (result, d') →
      SameTable d d' ∧ ∀ file' ∈ result, Titled i path file' := by
  intro count
  induction count with
  | zero =>
    intro blksOwned file d d' result titled ran
    cases ran
    refine ⟨.refl d, ?_⟩
    rintro file' ⟨⟩
    exact titled
  | succ count ih =>
    intro blksOwned file d d' result titled ran
    unfold fillGap at ran
    rw [look_run] at ran
    rcases findNextOpenBlock_cases d with ⟨n, small, found, free, _⟩ | ⟨found, taken⟩
    · rw [found, if_neg (by omega)] at ran
      obtain ⟨file₁, d₁, assigned, ran₁⟩ := run_bind ran
      obtain ⟨_, inside, rfl, rfl⟩ := setDataAt_run assigned
      rw [then_run (setBlock_run (by unfold BLOCK_LIST_SIZE at small; omega) 0 _)] at ran₁
      obtain ⟨table, titled'⟩ := ih _ (titled.setData short _ small) ran₁
      exact ⟨(SameTable.markBlock d₁ n _).trans table, titled'⟩
    · rw [found, if_pos rfl] at ran
      cases ran
      refine ⟨.refl d, ?_⟩
      rintro file' ⟨⟩

theorem growFile_titled (short : path.len < PATH_BYTES) {file : Inode} {blk chr : Nat}
    {d d' : Drive} {growth : Growth} (titled : Titled i path file)
    (step : GrowStep file blk chr d growth d') : SameTable d d' ∧
      ∀ file', growth = .grown file' ∨ growth = .full file' → Titled i path file' := by
  cases step with
  | inside =>
    refine ⟨.refl d, ?_⟩
    rintro file' (⟨⟨⟩⟩ | ⟨⟨⟩⟩)
    exact titled
  | longer =>
    refine ⟨.refl d, ?_⟩
    rintro file' (⟨⟨⟩⟩ | ⟨⟨⟩⟩)
    exact titled.setSize short _
  | full =>
    refine ⟨.refl d, ?_⟩
    rintro file' (⟨⟨⟩⟩ | ⟨⟨⟩⟩)
    exact titled.setSize short _
  | noSpace =>
    refine ⟨.refl d, ?_⟩
    rintro file' (⟨⟨⟩⟩ | ⟨⟨⟩⟩)
  | block n _ _ _ small _ _ =>
    refine ⟨.markBlock d n false, ?_⟩
    rintro file' (⟨⟨⟩⟩ | ⟨⟨⟩⟩)
    exact (titled.setSize short _).setData short _ small

/-- **The loop of `sfs_write` keeps the names.** -/
theorem writeLoop_rewrites (short : path.len < PATH_BYTES) (slot : i < INODE_LIST_SIZE) :
    ∀ (buf : List (BitVec 8)) {file : Inode} {blk chr : Nat} {diskbuf : Memory} {written : Nat}
      {d d' : Drive} {ret : Int}, Titled i path file →
      writeLoop buf file blk chr diskbuf written d = some (ret, d') →
      Rewrites i (Titled i path) d d' := by
  intro buf
  induction buf with
  | nil =>
    intro file blk chr diskbuf written d d' ret titled ran
    obtain ⟨_, d₁, flushed, ran₁⟩ := run_bind ran
    obtain ⟨_, n, small, _, rfl⟩ := flush_run titled.inRange flushed
    rw [then_run (writeInode_run titled.slot slot _)] at ran₁
    cases ran₁
    exact rewrites_putInode titled (.putData d n diskbuf)
  | cons byte rest ih =>
    intro file blk chr diskbuf written d d' ret titled ran
    obtain ⟨growth, d₁, grew, ran₁⟩ := run_bind ran
    obtain ⟨table, titled'⟩ := growFile_titled short titled (growFile_step grew)
    cases growth with
    | noSpace =>
      cases ran₁
      exact .of_sameTable slot table
    | full file' =>
      have checked := titled' file' (Or.inr rfl)
      obtain ⟨_, d₂, flushed, ran₂⟩ := run_bind ran₁
      obtain ⟨_, n, small, _, rfl⟩ := flush_run checked.inRange flushed
      rw [then_run (writeInode_run checked.slot slot _)] at ran₂
      cases ran₂
      exact rewrites_putInode checked (table.trans (.putData d₁ n _))
    | grown file' =>
      have checked := titled' file' (Or.inl rfl)
      dsimp only at ran₁
      split at ran₁
      · obtain ⟨_, d₂, flushed, ran₂⟩ := run_bind ran₁
        obtain ⟨_, n, small, _, rfl⟩ := flush_run checked.inRange flushed
        obtain ⟨block, d₃, entry, ran₃⟩ := run_bind ran₂
        obtain ⟨_, _, _, rfl⟩ := dataAt_run entry
        obtain ⟨next, d₄, loaded, ran₄⟩ := run_bind ran₃
        have same := block_read_keeps loaded
        subst same
        exact (ih checked ran₄).after slot (table.trans (.putData d₁ n _))
      · exact (ih checked ran₁).after slot table

end Writing

theorem Named.of_rewrites {s : Naming} (named : Named s) {i : Nat} (live : s.drive.Live i)
    {title : Path} (short : title.len < PATH_BYTES)
    (held : strcmp title (readInode s.drive i).path = true) {d : Drive}
    (rewrites : Rewrites i (Titled i title) s.drive d) : Named ⟨d, s.names⟩ := by
  have own : strcmp title (readInode d i).path = true ∧ (readInode d i).id = i ∧
      InRange (readInode d i) := by
    rcases rewrites.own with same | ⟨file, titled, same⟩
    · rw [same]
      exact ⟨held, named.slots i live, named.inRange i live.1 live.2.1⟩
    · rw [same, Inode.id_record]
      refine ⟨strcmp_iff.mpr fun k below => ?_, titled.slot, titled.inRange.record⟩
      rw [Inode.path_record _ (by omega)]
      exact titled.titled k below
  refine named.of_paths rewrites.inodeFree ?_ ?_ ?_
  · intro j which path
    by_cases here : j = i
    · subst here
      exact Bool.eq_iff_iff.mpr ⟨strcmp_of_strcmp own.1 held, strcmp_of_strcmp held own.1⟩
    · have small : j < INODE_LIST_SIZE := which.elim (fun root => root ▸ by decide) (·.2.1)
      rw [rewrites.others j small here]
  · intro j live'
    by_cases here : j = i
    · subst here
      exact own.2.1
    · rw [rewrites.others j live'.2.1 here]
      exact named.slots j live'
  · intro j positive small
    by_cases here : j = i
    · subst here
      exact own.2.2
    · rw [rewrites.others j small here]
      exact named.inRange j positive small

theorem Path.Legal.short {path : Path} (legal : path.Legal) : path.len < PATH_BYTES :=
  Nat.lt_succ_of_le legal.fits

/-- **`sfs_write` keeps the names.** -/
theorem Named.write {s : Naming} (named : Named s) {path : Path} {buf : List (BitVec 8)}
    {offset ret : Int} {fh : BitVec 64} {d : Drive} (proper : strcmp path slash = false)
    (step : WriteStep path buf offset fh s.drive ret d) : Named ⟨d, s.names⟩ := by
  have titled : ∀ {i}, inodeOf s.drive path = some i → s.drive.Live i ∧ ∃ title : Path,
      title.len < PATH_BYTES ∧ strcmp title (readInode s.drive i).path = true ∧
      Titled i title (readInode s.drive i) := by
    intro i found
    have live := named.not_root proper found
    obtain ⟨title, legal, held, _⟩ := named.titled i live
    exact ⟨live, title, legal.short, held, named.slots i live, strcmp_iff.mp held,
      named.inRange i live.1 live.2.1⟩
  cases step with
  | nothing => exact named
  | noSpace found _ _ _ gap =>
    obtain ⟨live, title, short, held, holds⟩ := titled found
    exact named.of_sameTable (fillGap_titled short _ _ holds gap).1
  | written found _ _ _ gap _ _ _ ran =>
    obtain ⟨live, title, short, held, holds⟩ := titled found
    obtain ⟨table, titled'⟩ := fillGap_titled short _ _ holds gap
    have rewrites := writeLoop_rewrites short live.2.1 _ (titled' _ rfl) ran
    exact named.of_rewrites live short held (rewrites.after live.2.1 table)

/-! ### `sfs_create` and `sfs_unlink` -/

theorem createdInode_titled (d : Drive) {i : Nat} {path : Path} (short : path.len < PATH_BYTES)
    (mode : BitVec 32) {n : Nat} (slot : i < INODE_LIST_SIZE) (small : n < BLOCK_LIST_SIZE)
    (inRange : InRange (readInode d i)) : Titled i path (createdInode d i path mode n) where
  slot := createdInode_id d path mode n slot
  titled := fun k below => by
    unfold createdInode newInode
    rw [Inode.path_setData _ _ (by omega), Inode.path_setPath _ (by omega)]
  inRange := by
    intro k inside
    unfold createdInode newInode
    rw [Inode.data_setData]
    by_cases first : k = 0
    · exact ⟨n, small, by rw [if_pos first, toInt_ofInt_natCast small]⟩
    · rw [if_neg first, Inode.data_setPath _ _ _ (Nat.le_refl _),
        Inode.data_setHardlinks _ _ inside, Inode.data_setMode, Inode.data_setSize,
        Inode.data_setId]
      exact inRange k inside

theorem created_live {d : Drive} {path : Path} {i n : Nat} {mode : BitVec 32} (positive : 0 < i)
    (small : i < INODE_LIST_SIZE) (j : Nat) :
    (d.created i path mode n).Live j ↔ j = i ∨ d.Live j := by
  unfold Drive.Live
  rw [created_inodeFree]
  by_cases here : j = i
  · subst here
    simp [positive, small]
  · simp [here]

/-- **`sfs_create` adds a name.** -/
theorem Named.create {s : Naming} (named : Named s) {path : Path} {mode : BitVec 32} {i n : Nat}
    (legal : path.Legal) (missing : ∀ j, s.drive.Live j →
      strcmp path (readInode s.drive j).path = false)
    (slot : i < INODE_LIST_SIZE) (free : s.drive.inodeFree i = true) (small : n < BLOCK_LIST_SIZE) :
    Named ⟨((s.drive.markInode i false).markBlock n false).putInode i
      (createdInode s.drive i path mode n), path.text :: s.names⟩ := by
  have positive : 0 < i := by
    refine Nat.pos_of_ne_zero fun root => ?_
    rw [root, named.rootUsed] at free
    cases free
  have titled := createdInode_titled s.drive legal.short mode slot small
    (named.inRange i positive slot)
  have root : (s.drive.created i path mode n).inodeFree 0
      = if 0 = i then false else s.drive.inodeFree 0 := created_inodeFree 0
  have live : ∀ j, (s.drive.created i path mode n).Live j ↔ j = i ∨ s.drive.Live j :=
    created_live positive slot
  have read : ∀ j, readInode (s.drive.created i path mode n) j
      = if j = i then (createdInode s.drive i path mode n).record else readInode s.drive j :=
    created_readInode
  show Named ⟨s.drive.created i path mode n, path.text :: s.names⟩
  generalize createdInode s.drive i path mode n = file at titled read
  generalize s.drive.created i path mode n = d at root live read ⊢
  have own : strcmp path file.record.path = true := by
    refine strcmp_iff.mpr fun k below => ?_
    rw [Inode.path_record _ (Nat.lt_of_le_of_lt below legal.short)]
    exact titled.titled k below
  have other : ∀ j, s.drive.Live j → readInode d j = readInode s.drive j := by
    rintro j ⟨_, _, used⟩
    rw [read, if_neg]
    rintro rfl
    rw [free] at used
    cases used
  have mine : readInode d i = file.record := by rw [read, if_pos rfl]
  refine ⟨?_, ?_, ?_, ?_, ?_, ?_, ?_⟩
  · show d.inodeFree 0 = false
    rw [root, if_neg (by omega)]
    exact named.rootUsed
  · show ∀ q, strcmp q (readInode d 0).path = _
    rw [read, if_neg (by omega)]
    exact named.rootPath
  · intro j live'
    show (readInode d j).id = j
    rcases (live j).mp live' with rfl | live₀
    · rw [mine, Inode.id_record]
      exact titled.slot
    · rw [other j live₀]
      exact named.slots j live₀
  · intro j live'
    show ∃ title : Path, title.Legal ∧ strcmp title (readInode d j).path = true ∧ _
    rcases (live j).mp live' with rfl | live₀
    · rw [mine]
      exact ⟨path, legal, own, List.mem_cons_self⟩
    · obtain ⟨title, legal', same, member⟩ := named.titled j live₀
      rw [other j live₀]
      exact ⟨title, legal', same, List.mem_cons_of_mem _ member⟩
  · intro q member
    show ∃ j, d.Live j ∧ strcmp q (readInode d j).path = true
    rcases List.mem_cons.mp member with text | member'
    · refine ⟨i, (live i).mpr (Or.inl rfl), ?_⟩
      rw [mine]
      exact strcmp_of_text text.symm own
    · obtain ⟨j, live₀, same⟩ := named.kept q member'
      refine ⟨j, (live j).mpr (Or.inr live₀), ?_⟩
      rw [other j live₀]
      exact same
  · have apart : ∀ q j, s.drive.Live j → strcmp q (readInode s.drive j).path = true →
        ¬ strcmp q file.record.path = true := by
      intro q j live₀ same same'
      have clash := missing j live₀
      rw [strcmp_of_strcmp same' same own] at clash
      cases clash
    intro q j k live₁ live₂ same₁ same₂
    change strcmp q (readInode d j).path = true at same₁
    change strcmp q (readInode d k).path = true at same₂
    rcases (live j).mp live₁ with rfl | live₁' <;> rcases (live k).mp live₂ with rfl | live₂'
    · rfl
    · rw [mine] at same₁
      rw [other k live₂'] at same₂
      exact absurd same₁ (apart q k live₂' same₂)
    · rw [mine] at same₂
      rw [other j live₁'] at same₁
      exact absurd same₂ (apart q j live₁' same₁)
    · rw [other j live₁'] at same₁
      rw [other k live₂'] at same₂
      exact named.distinct q j k live₁' live₂' same₁ same₂
  · intro j positive' small'
    show InRange (readInode d j)
    rw [read]
    split
    · exact titled.inRange.record
    · exact named.inRange j positive' small'

/-- **`sfs_unlink` removes a name.** -/
theorem Named.remove {s : Naming} (named : Named s) {path : Path} {i : Nat}
    (live : s.drive.Live i) (held : strcmp path (readInode s.drive i).path = true) :
    Named ⟨s.drive.markInode i true, s.names.filter (· ≠ path.text)⟩ := by
  have live' : ∀ j, (s.drive.markInode i true).Live j ↔ s.drive.Live j ∧ j ≠ i := by
    intro j
    unfold Drive.Live
    rw [inodeFree_markInode]
    by_cases here : j = i
    · simp [here]
    · simp [here]
  refine ⟨?_, ?_, ?_, ?_, ?_, ?_, ?_⟩
  · show (s.drive.markInode i true).inodeFree 0 = false
    have positive := live.1
    rw [inodeFree_markInode, if_neg (by omega)]
    exact named.rootUsed
  · intro q
    show strcmp q (readInode (s.drive.markInode i true) 0).path = _
    rw [readInode_markInode]
    exact named.rootPath q
  · intro j live₁
    show (readInode (s.drive.markInode i true) j).id = j
    rw [readInode_markInode]
    exact named.slots j ((live' j).mp live₁).1
  · intro j live₁
    obtain ⟨live₀, other⟩ := (live' j).mp live₁
    obtain ⟨title, legal, same, member⟩ := named.titled j live₀
    refine ⟨title, legal, ?_, List.mem_filter.mpr ⟨member, ?_⟩⟩
    · show strcmp title (readInode (s.drive.markInode i true) j).path = true
      rw [readInode_markInode]
      exact same
    · refine decide_eq_true fun text => other ?_
      exact named.distinct path j i live₀ live (strcmp_of_text text same) held
  · intro q member
    obtain ⟨member', differs⟩ := List.mem_filter.mp member
    obtain ⟨j, live₀, same⟩ := named.kept q member'
    refine ⟨j, (live' j).mpr ⟨live₀, ?_⟩, ?_⟩
    · rintro rfl
      exact of_decide_eq_true differs (text_of_strcmp same held)
    · show strcmp q (readInode (s.drive.markInode i true) j).path = true
      rw [readInode_markInode]
      exact same
  · intro q j k live₁ live₂ same₁ same₂
    change strcmp q (readInode (s.drive.markInode i true) j).path = true at same₁
    change strcmp q (readInode (s.drive.markInode i true) k).path = true at same₂
    rw [readInode_markInode] at same₁ same₂
    exact named.distinct q j k ((live' j).mp live₁).1 ((live' k).mp live₂).1 same₁ same₂
  · intro j positive small
    show InRange (readInode (s.drive.markInode i true) j)
    rw [readInode_markInode]
    exact named.inRange j positive small

theorem Named.unlink {s : Naming} (named : Named s) {path : Path} {ret : Int} {d : Drive}
    (proper : strcmp path slash = false) (step : UnlinkStep path s.drive ret d) :
    Named ⟨d, if ret = 0 then s.names.filter (· ≠ path.text) else s.names⟩ := by
  have removes : ∀ {i : Nat} {d₁ : Drive}, inodeOf s.drive path = some i → SameTable s.drive d₁ →
      Named ⟨d₁.markInode i true, s.names.filter (· ≠ path.text)⟩ := by
    intro i d₁ found table
    have live := named.not_root proper found
    have held := (inodeOf_some found).2.2
    have live₁ : d₁.Live i := ⟨live.1, live.2.1, (table.inodeFree i).trans live.2.2⟩
    refine (named.of_sameTable table).remove live₁ ?_
    show strcmp path (readInode d₁ i).path = true
    rw [table.readInode i live.2.1]
    exact held
  cases step with
  | missing => exact named
  | linked i found _ _ => exact removes found (.refl _)
  | removed i d₁ found _ released => exact removes found released.table

/-- **Every step keeps the names.** -/
theorem Named.step {s s' : Naming} (named : Named s) {call : Call} (admits : s.Admits call)
    (keeps : s.Keeps call) (taken : s.exec call = some s') : Named s' := by
  cases call with
  | create path mode fh =>
    obtain ⟨legal, unknown⟩ := admits
    obtain ⟨⟨j, small, free⟩, n, below, open_⟩ := keeps
    obtain ⟨⟨⟨ret, fh'⟩, d⟩, ran, rfl⟩ := Option.map_eq_some_iff.mp taken
    have missing : ∀ i, s.drive.Live i → strcmp path (readInode s.drive i).path = false := by
      intro i live
      refine Bool.eq_false_iff.mpr fun same => ?_
      have found := (named.getattr_iff (strcmp_slash_of_long legal.named)
        (fillStatBuff badresult)).mpr ⟨i, live, same⟩
      rw [unknown] at found
      exact absurd found (by decide)
    cases (sfs_create_returns path mode fh s.drive).of_run ran with
    | noInode used =>
      have taken' := used j small
      rw [isInodeFree_eq_one.mp free] at taken'
      cases taken'
    | noBlock i _ _ used =>
      have taken' := used n below
      rw [isBlockFree_eq_one.mp open_] at taken'
      cases taken'
    | created i k slot free' _ small' _ _ => exact named.create legal missing slot free' small'
  | write path buf offset fh =>
    obtain ⟨⟨ret, d⟩, ran, rfl⟩ := Option.map_eq_some_iff.mp taken
    exact named.write keeps (sfs_write_step ran)
  | unlink path =>
    obtain ⟨⟨ret, d⟩, ran, rfl⟩ := Option.map_eq_some_iff.mp taken
    refine named.unlink keeps (sfs_unlink_step (fun i found => ?_) ran)
    have live := named.not_root keeps found
    exact ⟨named.slots i live, named.inRange i live.1 live.2.1⟩

theorem named_of_reach {s : Naming} (reached : Reach Naming.Fresh
    (fun s call => s.Admits call ∧ s.Keeps call) (execStep Naming.exec) s) : Named s :=
  reached.invariant Named (fun _ fresh => Named.fresh fresh)
    fun _ _ _ named guarded taken => named.step guarded.1 guarded.2 taken

/-- **The directory agrees with the calls made**, along every run whose steps keep the names. -/
theorem names_agree {s : Naming} (reached : Reach Naming.Fresh
    (fun s call => s.Admits call ∧ s.Keeps call) (execStep Naming.exec) s) : s.Agrees :=
  (named_of_reach reached).agrees

/-! ### A full inode table -/

/-- The path of a slash and `k + 1` letters. -/
def lettersPath (k : Nat) (small : k < INODE_LIST_SIZE) : Path where
  bytes := fun j => if j = 0 then 47 else if j < k + 2 then 97 else 0
  len := k + 2
  nonzero := by
    intro j below
    by_cases first : j = 0
    · rw [if_pos first]
      decide
    · rw [if_neg first, if_pos below]
      decide
  terminated := by rw [if_neg (by omega), if_neg (by omega)]
  bounded := by
    unfold INODE_LIST_SIZE at small
    unfold PATH_MAX
    omega

theorem lettersPath_legal {k : Nat} (small : k < INODE_LIST_SIZE) : (lettersPath k small).Legal where
  rooted := rfl
  named := by
    show 2 ≤ k + 2
    omega
  fits := by
    show k + 2 ≤ 255
    unfold INODE_LIST_SIZE at small
    omega

theorem length_lettersPath {k : Nat} (small : k < INODE_LIST_SIZE) :
    (lettersPath k small).text.length = k + 2 := by
  unfold Path.text
  rw [List.length_map, List.length_range]
  rfl

/-- **The state after `k` files were created**, with paths of 2, 3, … bytes. -/
structure Filled (k : Nat) (s : Naming) : Prop where
  inodes : ∀ i < INODE_LIST_SIZE, s.drive.inodeFree i = decide (k < i)
  blocks : ∀ n < BLOCK_LIST_SIZE, s.drive.blockFree n = decide (k ≤ n)
  names : ∀ text ∈ s.names, text.length < k + 2

theorem Filled.unknown {k : Nat} {s : Naming} (filled : Filled k s) (named : Named s) {path : Path}
    (long : k + 2 ≤ path.text.length) (proper : strcmp path slash = false) (statbuf : Stat) :
    (sfs_getattr s.drive path statbuf).1 = -ENOENT := by
  unfold sfs_getattr checkiNodePathName
  rw [if_neg (by rw [proper]; decide)]
  cases found : inodeOf s.drive path with
  | none => rw [if_neg (by rw [badresult_id]; decide)]
  | some i =>
    obtain ⟨title, _, same, member⟩ := named.titled i (named.not_root proper found)
    have short := filled.names _ member
    rw [← text_of_strcmp (inodeOf_some found).2.2 same] at short
    omega

theorem Filled.next {k : Nat} {s : Naming} (filled : Filled k s) (named : Named s)
    (small : k + 1 < INODE_LIST_SIZE) :
    ∃ s', s.Admits (.create (lettersPath k (by omega)) 0 0) ∧
      s.Keeps (.create (lettersPath k (by omega)) 0 0) ∧
      s.exec (.create (lettersPath k (by omega)) 0 0) = some s' ∧ Filled (k + 1) s' := by
  have small' : k < INODE_LIST_SIZE := by omega
  have legal := lettersPath_legal small'
  have inode : s.drive.inodeFree (k + 1) = true := by
    rw [filled.inodes (k + 1) small]
    exact decide_eq_true (Nat.lt_succ_self k)
  have below : k < BLOCK_LIST_SIZE := by
    unfold INODE_LIST_SIZE at small
    unfold BLOCK_LIST_SIZE
    omega
  have block : s.drive.blockFree k = true := by
    rw [filled.blocks k below]
    exact decide_eq_true (Nat.le_refl k)
  obtain ⟨⟨ret, fh⟩, d, ran, step⟩ := sfs_create_returns (lettersPath k small') 0 0 s.drive
  refine ⟨⟨d, if ret = 0 then (lettersPath k small').text :: s.names else s.names⟩, ?_, ?_, ?_, ?_⟩
  · exact ⟨legal, filled.unknown named (Nat.le_of_eq (length_lettersPath small').symm)
      (strcmp_slash_of_long legal.named)⟩
  · exact ⟨⟨k + 1, small, isInodeFree_eq_one.mpr inode⟩, k, below, isBlockFree_eq_one.mpr block⟩
  · exact Option.map_eq_some_iff.mpr ⟨_, ran, rfl⟩
  · cases step with
    | noInode used =>
      rw [used (k + 1) small] at inode
      cases inode
    | noBlock i _ _ used =>
      rw [used k below] at block
      cases block
    | created i n slot free first small₀ open_ least =>
      have here : i = k + 1 := by
        rw [filled.inodes i slot, decide_eq_true_eq] at free
        refine Nat.le_antisymm (Nat.not_lt.mp fun later => ?_) free
        have taken := first (k + 1) later
        rw [inode] at taken
        cases taken
      have there : n = k := by
        rw [filled.blocks n small₀, decide_eq_true_eq] at open_
        refine Nat.le_antisymm (Nat.not_lt.mp fun later => ?_) open_
        have taken := least k later
        rw [block] at taken
        cases taken
      subst here there
      refine ⟨fun j inside => ?_, fun m inside => ?_, ?_⟩
      · show (Drive.putInode _ _ _).inodeFree j = _
        rw [inodeFree_putInode, inodeFree_markBlock, inodeFree_markInode, filled.inodes j inside]
        by_cases same : j = n + 1
        · rw [if_pos same, decide_eq_false (by omega)]
        · rw [if_neg same]
          exact decide_eq_decide.mpr (by omega)
      · show (Drive.putInode _ _ _).blockFree m = _
        rw [blockFree_putInode, blockFree_markBlock, blockFree_markInode, filled.blocks m inside]
        by_cases same : m = n
        · rw [if_pos same, decide_eq_false (by omega)]
        · rw [if_neg same]
          exact decide_eq_decide.mpr (by omega)
      · intro text member
        rcases List.mem_cons.mp member with rfl | member'
        · rw [length_lettersPath]
          omega
        · have short := filled.names text member'
          omega

/-- The file system of zeros, and nothing created. -/
theorem exists_fresh : ∃ s : Naming, s.Fresh ∧ Filled 0 s := by
  have initialises : Reinitialises zeroStack zeroDisk := reinitialises_fresh (by decide) zeroStack
  obtain ⟨d, ran, empty⟩ := initialises
  refine ⟨⟨d, []⟩, ⟨⟨zeroStack, ran⟩, rfl⟩, fun i small => ?_, fun n small => ?_, ?_⟩
  · by_cases root : i = 0
    · rw [isInodeFree_eq_zero.mp ((empty.inodes i small).mpr root), decide_eq_false (by omega)]
    · have free : ¬ d.inodeFree i = false := fun used =>
        root ((empty.inodes i small).mp (isInodeFree_eq_zero.mpr used))
      rw [decide_eq_true (by omega)]
      simpa using free
  · rw [decide_eq_true (Nat.zero_le n)]
    exact isBlockFree_eq_one.mp (empty.blocks n small)
  · intro text member
    cases member

theorem reach_filled (k : Nat) (small : k < INODE_LIST_SIZE) : ∃ s, Filled k s ∧
    Reach Naming.Fresh (fun s call => s.Admits call ∧ s.Keeps call) (execStep Naming.exec) s := by
  induction k with
  | zero =>
    obtain ⟨s, fresh, filled⟩ := exists_fresh
    exact ⟨s, filled, .init fresh⟩
  | succ k ih =>
    obtain ⟨s, filled, reached⟩ := ih (by omega)
    obtain ⟨s', admits, keeps, taken, filled'⟩ := filled.next (named_of_reach reached) small
    exact ⟨s', filled', .next reached ⟨admits, keeps⟩ taken⟩

theorem names_agree_one_file : ∃ s, Filled 1 s ∧ s.Agrees := by
  obtain ⟨s, filled, reached⟩ := reach_filled 1 (by decide)
  exact ⟨s, filled, names_agree reached⟩

/-- **With all inodes in use a file is reported as created and is not there.** -/
theorem names_disagree : ∃ s, Reach Naming.Fresh (fun s call => s.Admits call)
    (execStep Naming.exec) s ∧ ¬ s.Agrees := by
  obtain ⟨s, filled, reached⟩ := reach_filled 127 (by decide)
  have named := named_of_reach reached
  have small : 127 < INODE_LIST_SIZE := by decide
  have legal := lettersPath_legal small
  have unknown := filled.unknown named (Nat.le_of_eq (length_lettersPath small).symm)
    (strcmp_slash_of_long legal.named)
  obtain ⟨⟨ret, fh⟩, d, ran, step⟩ := sfs_create_returns (lettersPath 127 small) 0 0 s.drive
  have used : ∀ i < INODE_LIST_SIZE, s.drive.inodeFree i = false := by
    intro i inside
    rw [filled.inodes i inside]
    exact decide_eq_false (by unfold INODE_LIST_SIZE at inside; omega)
  have nothing : ret = 0 ∧ d = s.drive := by
    cases step with
    | noInode => exact ⟨rfl, rfl⟩
    | noBlock i slot free =>
      rw [used i slot] at free
      cases free
    | created i n slot free =>
      rw [used i slot] at free
      cases free
  obtain ⟨rfl, rfl⟩ := nothing
  refine ⟨⟨s.drive, (lettersPath 127 small).text :: s.names⟩, ?_, fun agrees => ?_⟩
  · refine .next (reached.mono fun _ _ guarded => guarded.1)
      (show s.Admits (.create (lettersPath 127 small) 0 0) from ⟨legal, unknown⟩) ?_
    exact Option.map_eq_some_iff.mpr ⟨_, ran, rfl⟩
  · have found := (agrees.created (lettersPath 127 small) legal.rooted legal.named
      (fillStatBuff badresult)).mpr List.mem_cons_self
    rw [unknown] at found
    exact absurd found (by decide)

end OS2017.Files
