/-
**The code of the heaps over a guarded store.**

The loops of `myallocate` and `freeAndMerge` reach memory by loads and stores only. Over a store and
its guarded version they are identical until bad, whatever the guards are.
-/

import OS2017.Lib.Guarded
import OS2017.Heap.Library

namespace OS2017.Heap

open OS2017.Bytes OS2017.Guarded

variable {σ : Type} {bad pre : σ → Prop} {mem watched : Store σ}

theorem getNextBlock_watched (watch : UntilBadStore bad pre mem watched) (block : Nat) :
    UntilBad bad pre (fun _ => pre) (getNextBlock mem block) (getNextBlock watched block) := by
  refine (watch.load block).bind fun word => ?_
  exact .ite (fun _ => .pure fun _ good => good) fun _ => .pure fun _ good => good

theorem splitBlock_watched (watch : UntilBadStore bad pre mem watched) (current size : Nat)
    (sizeWithBlock : BitVec 32) :
    UntilBad bad pre (fun _ => pre) (splitBlock mem current size sizeWithBlock)
      (splitBlock watched current size sizeWithBlock) := by
  refine (watch.modify _ _).bind fun _ => (watch.load _).bind fun _ => ?_
  refine (watch.modify _ _).bind fun _ => (watch.load _).bind fun _ => ?_
  refine (watch.modify _ _).bind fun _ => (watch.modify _ _).bind fun _ => ?_
  exact (watch.modify _ _).bind fun _ => watch.modify _ _

theorem freshBlock_watched (watch : UntilBadStore bad pre mem watched) (a size : Nat) :
    UntilBad bad pre (fun _ => pre) (freshBlock mem a size) (freshBlock watched a size) :=
  (watch.modify _ _).bind fun _ => (watch.modify _ _).bind fun _ => watch.modify _ _

/-- **The search.** -/
theorem firstFitLoop_watched (watch : UntilBadStore bad pre mem watched) (size : Nat)
    (sizeWithBlock : BitVec 32) : ∀ fuel current,
    UntilBad bad pre (fun _ => pre) (firstFitLoop mem size sizeWithBlock fuel current)
      (firstFitLoop watched size sizeWithBlock fuel current) := by
  intro fuel
  induction fuel with
  | zero => exact fun _ => .stop
  | succ fuel ih =>
    intro current
    refine (watch.load current).bind fun word => .ite (fun _ => ?_) fun _ => .ite (fun _ => ?_) ?_
    · exact (watch.modify _ _).bind fun _ => .pure fun _ good => good
    · exact (splitBlock_watched watch _ _ _).bind fun _ => .pure fun _ good => good
    · intro _
      refine (getNextBlock_watched watch current).bind fun next => ?_
      cases next with
      | none => exact .pure fun _ good => good
      | some next => exact ih next

theorem mergeBlocks_watched (watch : UntilBadStore bad pre mem watched) (left right : Nat) :
    UntilBad bad pre (fun _ => pre) (mergeBlocks mem left right)
      (mergeBlocks watched left right) := by
  refine (watch.load _).bind fun _ => (watch.modify _ _).bind fun _ => ?_
  exact (watch.load _).bind fun _ => watch.modify _ _

theorem freeBlock_watched (watch : UntilBadStore bad pre mem watched) (current : Nat) :
    UntilBad bad pre (fun _ => pre) (freeBlock mem current) (freeBlock watched current) := by
  refine (watch.modify _ _).bind fun _ => (getNextBlock_watched watch current).bind fun next => ?_
  cases next with
  | none => exact .pure fun _ good => good
  | some next =>
    refine (watch.load next).bind fun _ => .ite (fun _ => ?_) fun _ => .pure fun _ good => good
    exact mergeBlocks_watched watch current next

theorem mergePrevious_watched (watch : UntilBadStore bad pre mem watched) (previous : Option Nat)
    (current : Nat) : UntilBad bad pre (fun _ => pre) (mergePrevious mem previous current)
      (mergePrevious watched previous current) := by
  cases previous with
  | none => exact .pure fun _ good => good
  | some previous =>
    refine (watch.load _).bind fun _ => .ite (fun _ => ?_) fun _ => .pure fun _ good => good
    exact mergeBlocks_watched watch previous current

/-- **The walk of `freeAndMerge`.** -/
theorem freeAndMergeLoop_watched (watch : UntilBadStore bad pre mem watched) (toFree : Nat) :
    ∀ fuel previous current,
    UntilBad bad pre (fun _ => pre) (freeAndMergeLoop mem toFree fuel previous current)
      (freeAndMergeLoop watched toFree fuel previous current) := by
  intro fuel
  induction fuel with
  | zero => exact fun _ _ => .stop
  | succ fuel ih =>
    intro previous current
    refine .ite (fun _ => ?_) fun _ => (getNextBlock_watched watch current).bind fun next => ?_
    · refine (freeBlock_watched watch current).bind fun _ => ?_
      exact (mergePrevious_watched watch previous current).bind fun _ => .pure fun _ good => good
    · cases next with
      | none => exact .pure fun _ good => good
      | some next => exact ih _ next

/-- **`myallocate` with `LIBRARYREQ`.** -/
theorem myallocateLibrary_watched (watch : UntilBadStore bad pre mem watched) (size : Nat) :
    UntilBad bad pre (fun _ => pre) (myallocateLibrary mem size)
      (myallocateLibrary watched size) := by
  refine (firstFitLoop_watched watch _ _ _ _).bind fun result => ?_
  cases result with
  | found ptr => exact .pure fun _ good => good
  | exhausted prev => exact .pure fun _ good => good

/-- **`mydeallocate` with `LIBRARYREQ`.** -/
theorem mydeallocateLibrary_watched (watch : UntilBadStore bad pre mem watched) (ptr : Int) :
    UntilBad bad pre (fun _ => pre) (mydeallocateLibrary mem ptr)
      (mydeallocateLibrary watched ptr) := by
  refine .ite (fun _ => .ite (fun _ => .stop) fun _ => ?_) fun _ => .pure fun _ good => good
  refine (watch.load _).bind fun word => .ite (fun _ => .pure fun _ good => good) fun _ => ?_
  exact (freeAndMergeLoop_watched watch _ _ _ _).bind fun _ => .pure fun _ good => good

end OS2017.Heap
