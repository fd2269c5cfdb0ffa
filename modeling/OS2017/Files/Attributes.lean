/-
**The mode of a file, and the magic number.**

`sfs_create` sets the mode, and nothing changes it afterwards: `sfs_write` assigns the size and the entries
of the file in memory and writes the record back. What those two assignments keep, every write keeps
(`sfs_write_checked`). The magic number stays through every call, so that `sfs_init` leaves the disk as it
is.
-/

import OS2017.Files.Contents

namespace OS2017.Files

open OS2017.Bytes

namespace Inode

section Assignments

variable (nd : Inode)

theorem mode_congr {nd nd' : Inode} (same : ∀ a, 260 ≤ a → a < 264 → nd' a = nd a) :
    mode nd' = mode nd := readWord_congr same

theorem mode_writeWord {a : Nat} {w : BitVec 32} (behind : MODE + 4 ≤ a) :
    mode (writeWord nd a w) = mode nd := readWord_writeWord_of_apart (Or.inl behind)

theorem mode_setMode (value : BitVec 32) : mode (setMode nd value) = value :=
  readWord_writeWord nd MODE _

@[simp] theorem mode_setSize (value : Int) : mode (setSize nd value) = mode nd :=
  mode_writeWord nd (by decide)

@[simp] theorem mode_setData (k : Nat) (value : Int) : mode (setData nd k value) = mode nd :=
  mode_writeWord nd (by unfold MODE DATA; omega)

@[simp] theorem mode_setHardlinks (value : Int) : mode (setHardlinks nd value) = mode nd :=
  mode_writeWord nd (by decide)

@[simp] theorem mode_setPath (path : Memory) {count : Nat} (inside : count ≤ PATH_BYTES) :
    mode (setPath nd path count) = mode nd :=
  mode_congr fun a _ _ => if_neg (by unfold PATH; unfold PATH_BYTES at inside; omega)

@[simp] theorem mode_record : mode (record nd) = mode nd :=
  mode_congr fun a _ _ => if_pos (by unfold INODE_BYTES; omega)

end Assignments

end Inode

/-- **A new file has the mode it was created with.** -/
theorem createdInode_mode (d : Drive) (i : Nat) (path : Path) (mode : BitVec 32) (n : Nat) :
    (createdInode d i path mode n).mode = mode := by
  unfold createdInode newInode
  rw [Inode.mode_setData, Inode.mode_setPath _ _ (Nat.le_refl _), Inode.mode_setHardlinks,
    Inode.mode_setMode]

/-! ### What a write keeps -/

/-- **A check of a file in memory** that goes by neither its size nor its entries: the file has a slot and
its entries are data blocks, too. -/
structure Checks (i : Nat) (check : Inode → Prop) : Prop where
  slot : ∀ {file}, check file → file.id = i
  inRange : ∀ {file}, check file → InRange file
  setSize : ∀ {file} (value : Int), check file → check (file.setSize value)
  setData : ∀ {file} (k : Nat) {n : Nat}, n < BLOCK_LIST_SIZE → check file → check (file.setData k n)

section Writing

variable {i : Nat} {check : Inode → Prop}

theorem Checks.fillGap (checks : Checks i check) :
    ∀ (count : Nat) (blksOwned : Int) {file : Inode} {d d' : Drive} {result : Option Inode},
      check file → Files.fillGap count blksOwned file d = some (result, d') →
      SameTable d d' ∧ d'.magic = d.magic ∧ ∀ file' ∈ result, check file' := by
  intro count
  induction count with
  | zero =>
    intro blksOwned file d d' result checked ran
    cases ran
    refine ⟨.refl d, rfl, fun file' member => ?_⟩
    cases member
    exact checked
  | succ count ih =>
    intro blksOwned file d d' result checked ran
    unfold Files.fillGap at ran
    rw [look_run] at ran
    rcases findNextOpenBlock_cases d with ⟨n, small, found, free, _⟩ | ⟨found, taken⟩
    · rw [found, if_neg (by omega)] at ran
      obtain ⟨file₁, d₁, assigned, ran₁⟩ := run_bind ran
      obtain ⟨_, _, rfl, rfl⟩ := setDataAt_run assigned
      rw [then_run (setBlock_run (by unfold BLOCK_LIST_SIZE at small; omega) 0 _)] at ran₁
      obtain ⟨table, magic, checked'⟩ := ih _ (checks.setData _ small checked) ran₁
      exact ⟨(SameTable.markBlock d₁ n _).trans table, magic.trans (magic_markBlock d₁ n _), checked'⟩
    · rw [found, if_pos rfl] at ran
      cases ran
      exact ⟨.refl d, rfl, fun file' member => absurd member (by simp)⟩

theorem Checks.grow (checks : Checks i check) {file : Inode} {blk chr : Nat} {d d' : Drive}
    {growth : Growth} (checked : check file) (step : GrowStep file blk chr d growth d') :
    SameTable d d' ∧ d'.magic = d.magic ∧
      ∀ file', growth = .grown file' ∨ growth = .full file' → check file' := by
  cases step with
  | inside =>
    refine ⟨.refl d, rfl, fun file' which => ?_⟩
    obtain (⟨⟨⟩⟩ | ⟨⟨⟩⟩) := which
    exact checked
  | longer =>
    refine ⟨.refl d, rfl, fun file' which => ?_⟩
    obtain (⟨⟨⟩⟩ | ⟨⟨⟩⟩) := which
    exact checks.setSize _ checked
  | full =>
    refine ⟨.refl d, rfl, fun file' which => ?_⟩
    obtain (⟨⟨⟩⟩ | ⟨⟨⟩⟩) := which
    exact checks.setSize _ checked
  | noSpace =>
    refine ⟨.refl d, rfl, fun file' which => ?_⟩
    obtain (⟨⟨⟩⟩ | ⟨⟨⟩⟩) := which
  | block n _ _ _ small _ _ =>
    refine ⟨.markBlock d n false, magic_markBlock d n false, fun file' which => ?_⟩
    obtain (⟨⟨⟩⟩ | ⟨⟨⟩⟩) := which
    exact checks.setData _ small (checks.setSize _ checked)

/-- **The loop of `sfs_write` keeps the check**: what it writes back passes it. -/
theorem Checks.writeLoop (checks : Checks i check) (slot : i < INODE_LIST_SIZE) :
    ∀ (buf : List (BitVec 8)) {file : Inode} {blk chr : Nat} {diskbuf : Memory} {written : Nat}
      {d d' : Drive} {ret : Int}, check file →
      Files.writeLoop buf file blk chr diskbuf written d = some (ret, d') →
      Rewrites i check d d' ∧ d'.magic = d.magic := by
  intro buf
  induction buf with
  | nil =>
    intro file blk chr diskbuf written d d' ret checked ran
    obtain ⟨_, d₁, flushed, ran₁⟩ := run_bind ran
    obtain ⟨_, n, small, _, rfl⟩ := flush_run (checks.inRange checked) flushed
    rw [then_run (writeInode_run (checks.slot checked) slot _)] at ran₁
    cases ran₁
    refine ⟨rewrites_putInode checked (.putData d n diskbuf), ?_⟩
    rw [magic_putInode, magic_putData]
  | cons byte rest ih =>
    intro file blk chr diskbuf written d d' ret checked ran
    obtain ⟨growth, d₁, grew, ran₁⟩ := run_bind ran
    obtain ⟨table, magic, checked'⟩ := checks.grow checked (growFile_step grew)
    cases growth with
    | noSpace =>
      cases ran₁
      exact ⟨.of_sameTable slot table, magic⟩
    | full file' =>
      have checked₁ := checked' file' (Or.inr rfl)
      obtain ⟨_, d₂, flushed, ran₂⟩ := run_bind ran₁
      obtain ⟨_, n, small, _, rfl⟩ := flush_run (checks.inRange checked₁) flushed
      rw [then_run (writeInode_run (checks.slot checked₁) slot _)] at ran₂
      cases ran₂
      refine ⟨rewrites_putInode checked₁ (table.trans (.putData d₁ n _)), ?_⟩
      rw [magic_putInode, magic_putData, magic]
    | grown file' =>
      have checked₁ := checked' file' (Or.inl rfl)
      dsimp only at ran₁
      split at ran₁
      · obtain ⟨_, d₂, flushed, ran₂⟩ := run_bind ran₁
        obtain ⟨_, n, small, _, rfl⟩ := flush_run (checks.inRange checked₁) flushed
        obtain ⟨block, d₃, entry, ran₃⟩ := run_bind ran₂
        obtain ⟨_, _, _, rfl⟩ := dataAt_run entry
        obtain ⟨next, d₄, loaded, ran₄⟩ := run_bind ran₃
        have same := block_read_keeps loaded
        subst same
        obtain ⟨rewrites, magic'⟩ := ih checked₁ ran₄
        rw [magic_putData] at magic'
        exact ⟨rewrites.after slot (table.trans (.putData d₁ n _)), magic'.trans magic⟩
      · obtain ⟨rewrites, magic'⟩ := ih checked₁ ran₁
        exact ⟨rewrites.after slot table, magic'.trans magic⟩

end Writing

/-- **`sfs_write` keeps the check**, wherever it starts and however it ends. -/
theorem sfs_write_checked {d d' : Drive} {path : Path} {i : Nat} {buf : List (BitVec 8)}
    {offset ret : Int} {fh : BitVec 64} {check : Inode → Prop} (checks : Checks i check)
    (finds : d.Finds path i) (checked : check (readInode d i))
    (ran : sfs_write path buf offset fh d = some (ret, d')) :
    Rewrites i check d d' ∧ d'.magic = d.magic := by
  have slot := finds.live.2.1
  cases sfs_write_step ran with
  | nothing => exact ⟨.of_sameTable slot (.refl d), rfl⟩
  | noSpace found _ _ _ gap =>
    cases finds.found.symm.trans found
    obtain ⟨table, magic, _⟩ := checks.fillGap _ _ checked gap
    exact ⟨.of_sameTable slot table, magic⟩
  | written found _ _ _ gap _ _ _ loop =>
    cases finds.found.symm.trans found
    obtain ⟨table, magic, checked'⟩ := checks.fillGap _ _ checked gap
    obtain ⟨rewrites, magic'⟩ := checks.writeLoop slot _ (checked' _ rfl) loop
    exact ⟨rewrites.after slot table, magic'.trans magic⟩

/-- **A write changes neither the mode nor the magic number.** -/
theorem sfs_write_mode {d d' : Drive} {path : Path} {i : Nat} {buf : List (BitVec 8)}
    {offset ret : Int} {fh : BitVec 64} (finds : d.Finds path i) (slot : (readInode d i).id = i)
    (inRange : InRange (readInode d i))
    (ran : sfs_write path buf offset fh d = some (ret, d')) :
    (readInode d' i).mode = (readInode d i).mode ∧ d'.magic = d.magic := by
  have checks : Checks i fun file =>
      file.id = i ∧ InRange file ∧ file.mode = (readInode d i).mode := {
    slot := fun checked => checked.1
    inRange := fun checked => checked.2.1
    setSize := fun value checked =>
      ⟨(Inode.id_setSize _ _).trans checked.1, checked.2.1.setSize value,
        (Inode.mode_setSize _ _).trans checked.2.2⟩
    setData := fun k _ small checked =>
      ⟨(Inode.id_setData _ _ _).trans checked.1, checked.2.1.setData k small,
        (Inode.mode_setData _ _ _).trans checked.2.2⟩ }
  obtain ⟨rewrites, magic⟩ := sfs_write_checked checks finds ⟨slot, inRange, rfl⟩ ran
  refine ⟨?_, magic⟩
  rcases rewrites.own with same | ⟨file, checked, same⟩
  · rw [same]
  · rw [same, Inode.mode_record]
    exact checked.2.2

/-! ### The magic number -/

theorem checkIfInit_iff {d : Drive} : checkIfInit d = 1 ↔ d.magic = MAGIC_NUM := by
  unfold checkIfInit Drive.magic
  split <;> simp_all

theorem magic_created {d : Drive} {i n : Nat} {path : Path} {mode : BitVec 32} :
    (d.created i path mode n).magic = d.magic := by
  unfold Drive.created
  rw [magic_putInode, magic_markBlock, magic_markInode]

theorem releaseBlocks_magic {file : Inode} (inRange : InRange file) :
    ∀ (entries : List Nat) {d d' : Drive} {a : Unit},
      releaseBlocks file entries d = some (a, d') → d'.magic = d.magic := by
  intro entries
  induction entries with
  | nil =>
    intro d d' a ran
    cases ran
    rfl
  | cons k rest ih =>
    intro d d' a ran
    obtain ⟨block, d₁, entry, ran'⟩ := run_bind ran
    obtain ⟨_, inside, rfl, rfl⟩ := dataAt_run entry
    obtain ⟨n, small, same⟩ := inRange k (by omega)
    rw [Int.toNat_natCast, same,
      then_run (setBlock_run (by unfold BLOCK_LIST_SIZE at small; omega) 1 _)] at ran'
    exact (ih ran').trans (magic_markBlock d₁ n _)

end OS2017.Files
