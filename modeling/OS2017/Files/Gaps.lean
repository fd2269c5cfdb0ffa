/-
**Writes behind the end of the file.**

`sfs_write` lets the size grow by one for each byte it puts behind the size. Where it starts behind the
end, every byte is, and the file becomes longer by the bytes written: its size does not come to the end of
what was written (`write_behind_lost`).
-/

import OS2017.Files.Splicing

namespace OS2017.Files

open OS2017.Bytes OS2017.Ledger OS2017.Splice

/-- The gap is filled without a change of size. -/
theorem fillGap_size : ∀ (count : Nat) (blksOwned : Int) {file file' : Inode} {d d' : Drive},
    fillGap count blksOwned file d = some (some file', d') →
    file'.size = file.size ∧ file'.id = file.id := by
  intro count
  induction count with
  | zero =>
    intro blksOwned file file' d d' ran
    cases ran
    exact ⟨rfl, rfl⟩
  | succ count ih =>
    intro blksOwned file file' d d' ran
    unfold fillGap at ran
    rw [look_run] at ran
    split at ran
    · cases ran
    · obtain ⟨file₁, d₁, assigned, ran₁⟩ := run_bind ran
      obtain ⟨_, _, rfl, _⟩ := setDataAt_run assigned
      obtain ⟨_, d₂, _, ran₂⟩ := run_bind ran₁
      obtain ⟨size, id⟩ := ih _ ran₂
      exact ⟨size.trans (Inode.size_setData file _ _), id.trans (Inode.id_setData file _ _)⟩

/-- The gap takes the first free block. -/
theorem fillGap_succ {count blksOwned n : Nat} {file : Inode} {d : Drive}
    (inside : blksOwned + 1 < DATA_ENTRIES) (small : n < BLOCK_LIST_SIZE)
    (found : findNextOpenBlock d = (n : Int)) :
    fillGap (count + 1) blksOwned file d =
      fillGap count ((blksOwned + 1 : Nat) : Int) (file.setData (blksOwned + 1) n) (d.markBlock n false) := by
  have assigned : setDataAt file ((blksOwned : Int) + 1) (n : Int) d =
      some (file.setData (blksOwned + 1) n, d) := by
    unfold setDataAt
    rw [if_pos (by omega)]
    rfl
  have marked := setBlock_run (n := n) (by unfold BLOCK_LIST_SIZE at small; omega) 0 d
  conv_lhs => unfold fillGap
  rw [look_run, found, if_neg (by omega), then_run assigned, then_run marked]
  rfl

/-- **Behind the end of the file the size grows with each byte.** -/
theorem writeLoop_behind {i : Nat} (slot : i < INODE_LIST_SIZE) : ∀ (rest : List (BitVec 8))
    {file : Inode} {blk chr written : Nat} {diskbuf : Memory} {d d' : Drive} {ret : Int},
    file.id = i → 0 ≤ file.size → file.size < ((blk * BLOCK_SIZE + chr : Nat) : Int) →
    chr < BLOCK_SIZE → blk * BLOCK_SIZE + chr + rest.length < 16777216 →
    writeLoop rest file blk chr diskbuf written d = some (ret, d') → 0 ≤ ret →
    (readInode d' i).size = file.size + rest.length := by
  intro rest
  induction rest with
  | nil =>
    intro file blk chr written diskbuf d d' ret id _ _ _ _ ran _
    obtain ⟨_, d₁, _, ran₁⟩ := run_bind ran
    obtain ⟨_, d₂, put, done⟩ := run_bind ran₁
    cases done
    rw [writeInode_run id slot] at put
    cases put
    rw [readInode_putInode, if_pos rfl, Inode.size_record, List.length_nil]
    exact (Int.add_zero _).symm
  | cons byte rest ih =>
    intro file blk chr written diskbuf d d' ret id positive behind within fits ran returned
    rw [List.length_cons] at fits ⊢
    have succ := @size_succ file ⟨positive, by omega⟩
    obtain ⟨growth, d₁, grew, ran₁⟩ := run_bind ran
    have longer : ∀ file', growth = .grown file' → file'.size = file.size + 1 ∧ file'.id = i := by
      rintro file' rfl
      cases growFile_step grew with
      | inside contained => omega
      | longer => exact ⟨succ, (Inode.id_setSize file _).trans id⟩
      | block => exact ⟨(Inode.size_setData _ _ _).trans succ,
          (Inode.id_setData _ _ _).trans ((Inode.id_setSize file _).trans id)⟩
    cases growth with
    | noSpace =>
      cases ran₁
      omega
    | full file' =>
      cases growFile_step grew with
      | full _ maximal => omega
    | grown file' =>
      obtain ⟨size, id'⟩ := longer file' rfl
      dsimp only at ran₁
      have total : (readInode d' i).size = file'.size + rest.length := by
        split at ran₁
        · rename_i boundary
          obtain ⟨_, d₂, _, ran₂⟩ := run_bind ran₁
          obtain ⟨block, d₃, _, ran₃⟩ := run_bind ran₂
          obtain ⟨next, d₄, _, ran₄⟩ := run_bind ran₃
          have turned : (blk + 1) * BLOCK_SIZE + 0 = blk * BLOCK_SIZE + chr + 1 := by
            unfold BLOCK_SIZE at *
            omega
          exact ih id' (by omega) (by rw [turned]; omega) (by decide) (by rw [turned]; omega) ran₄ returned
        · rename_i inside
          exact ih id' (by omega) (by omega) (by unfold BLOCK_SIZE at *; omega) (by omega) ran₁ returned
      omega

section Behind

variable {d d' : Drive} {path : Path} {i offset : Nat} {buf : List (BitVec 8)} {fh : BitVec 64}

/-- The size of a file that was written behind its end. -/
theorem sfs_write_behind (accounts : d.Accounts) (finds : d.Finds path i) (handle : fh ≠ -1)
    (some_ : buf ≠ []) (behind : (readInode d i).size < (offset : Int))
    (fits : offset + buf.length < 16777216) {ret : Int}
    (ran : sfs_write path buf offset fh d = some (ret, d')) (returned : 0 ≤ ret) :
    (readInode d' i).size = (readInode d i).size + buf.length := by
  have live := finds.live
  have small : offset / BLOCK_SIZE < 2147483648 :=
    Nat.lt_of_le_of_lt (Nat.div_le_self _ _) (by omega)
  rw [sfs_write_eq finds (accounts.id_ne live) handle some_ (accounts.sized i live) small] at ran
  obtain ⟨filled, d₁, gap, ran₁⟩ := run_bind ran
  cases filled with
  | none =>
    cases ran₁
    omega
  | some file =>
    obtain ⟨size, id⟩ := fillGap_size _ _ gap
    obtain ⟨block, d₂, _, ran₂⟩ := run_bind ran₁
    obtain ⟨diskbuf, d₃, _, ran₃⟩ := run_bind ran₂
    have position := position_eq offset
    have sized := accounts.sized i live
    rw [← size]
    exact writeLoop_behind live.2.1 buf (id.trans (accounts.slots i live)) (by omega)
      (by rw [position]; omega) (Nat.mod_lt offset (by decide)) (by rw [position]; exact fits) ran₃ returned

/-- **A write behind the end takes effect**: the file ends behind what was written, which is read back,
what was below the old size is there, and the other files are read as before. -/
structure TakesEffect (d d' : Drive) (path : Path) (i offset : Nat) (buf : List (BitVec 8)) : Prop where
  size : (readInode d' i).size = ((offset + buf.length : Nat) : Int)
  written : sfs_read path buf.length offset d' = some (((buf.length : Int), buf), d')
  below : ∀ p : Nat, (p : Int) < (readInode d i).size →
    byteOf d' (readInode d' i) p = byteOf d (readInode d i) p
  others : ∀ (path' : Path) (j : Nat), j ≠ i → d.Names path' j → ∀ start count : Nat,
    ((start + count : Nat) : Int) ≤ (readInode d j).size →
    sfs_read path' count start d' = (sfs_read path' count start d).map fun ran => (ran.1, d')

/-- **No write behind the end takes effect.** -/
theorem write_behind_lost (accounts : d.Accounts) (finds : d.Finds path i)
    (some_ : buf ≠ []) (behind : (readInode d i).size < (offset : Int))
    (fits : offset + buf.length < 16777216)
    (ran : sfs_write path buf offset fh d = some ((buf.length : Int), d')) :
    ¬ TakesEffect d d' path i offset buf := by
  intro effect
  have handle : fh ≠ -1 := by
    rintro rfl
    unfold sfs_write at ran
    rw [look_run, finds.file, if_neg (accounts.id_ne finds.live), if_pos rfl] at ran
    cases ran
  have size := sfs_write_behind accounts finds handle some_ behind fits ran (by omega)
  have claimed := effect.size
  omega

end Behind

/-- The small file after a byte was written behind a gap of three. -/
def gapDrive : Drive := (smallFileDrive.exec (.call (.write firstPath [9] 5 0))).getD smallFileDrive

theorem gapDrive_run : sfs_write firstPath [9] 5 0 smallFileDrive = some (1, gapDrive) := by
  have taken := eq_some_getD (o := smallFileDrive.exec (.call (.write firstPath [9] 5 0))) smallFileDrive
    (by decide +kernel)
  obtain ⟨⟨ret, d'⟩, ran, same⟩ := Option.map_eq_some_iff.mp taken
  have one : (sfs_write firstPath [9] 5 0 smallFileDrive).map (·.1) = some 1 := by decide +kernel
  rw [ran] at one ⊢
  rw [← show d' = gapDrive from same]
  exact congrArg (fun ret => some (ret, d')) (Option.some.inj one)

theorem write_behind_lost_smallFile : ¬ TakesEffect smallFileDrive gapDrive firstPath 1 5 [9] :=
  write_behind_lost smallFileDrive_kept.accounts smallFileDrive_names.toFinds (List.cons_ne_nil _ _)
    (by rw [smallFileDrive_size]; decide) (by decide) gapDrive_run

/-- **A byte written behind a gap is not in the file.** -/
theorem write_behind_not_effective : ¬ ∀ (d d' : Drive) (path : Path) (i offset : Nat)
    (buf : List (BitVec 8)) (fh : BitVec 64), d.Accounts → d.Names path i → buf ≠ [] →
    (readInode d i).size < (offset : Int) → offset + buf.length < 16777216 →
    (offset + buf.length) / BLOCK_SIZE ≤ (readInode d i).size.toNat / BLOCK_SIZE + freeBlocks d →
    sfs_write path buf offset fh d = some ((buf.length : Int), d') →
    TakesEffect d d' path i offset buf := by
  intro effective
  have effect := effective smallFileDrive gapDrive firstPath 1 5 [9] 0 smallFileDrive_kept.accounts
    smallFileDrive_names (List.cons_ne_nil _ _) (by rw [smallFileDrive_size]; decide) (by decide)
    (by rw [smallFileDrive_size]; exact Nat.zero_le _) gapDrive_run
  have size := @sfs_write_behind smallFileDrive gapDrive firstPath 1 5 [9] 0
    smallFileDrive_kept.accounts smallFileDrive_names.toFinds (by decide) (List.cons_ne_nil _ _)
    (by rw [smallFileDrive_size]; decide)
    (by decide) 1 gapDrive_run (by decide)
  rw [effect.size, smallFileDrive_size] at size
  exact absurd size (by decide)

end OS2017.Files
