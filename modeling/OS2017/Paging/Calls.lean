/-
**The parts of a call of `myallocate`.**

`myallocate` pauses the timer, accesses and aligns pages, and makes pages: room in a frame, then
`initializePage`. The frame is the one of the running thread's next page, or frame `0` if the page there
is not the thread's (`Claimed`). A relation between machines that composes and that the parts keep
(`KeptByParts`) is kept by a whole call, whatever makes the room.
-/

import OS2017.Paging.Room

namespace OS2017.Paging

open OS2017.Bytes OS2017.Heap

/-- **The frame a page is made in.** -/
def Claimed (m : Machine) (index : Nat) : Prop :=
  index = m.pageNum m.thread ∨ (index = 0 ∧ (getPageThID (m.pages 0)).toNat ≠ m.thread)

theorem Claimed.claimable {m : Machine} {index : Nat} (claimed : Claimed m index) :
    Claimable m index := by
  rcases claimed with next | ⟨rfl, foreign⟩
  · exact Or.inl next
  · exact Or.inr foreign

/-- **A relation that the parts keep**, where `makeRoom` makes the room. -/
structure KeptByParts (makeRoom : Nat → StateT Machine Option Bool)
    (related : Machine → Machine → Prop) : Prop where
  composes : Composes related
  timer : ∀ m timer, related m { m with timer := timer }
  frames : ∀ m frames, related m { m with frames := frames }
  touch : ∀ k, Keeps related (touch k)
  alignPages : Keeps related alignPages
  newPage : ∀ {m m₁ m₂ index}, Claimed m index → makeRoom index m = some (true, m₁) →
    initializePage index m₁ = some ((), m₂) → related m m₂
  noRoom : ∀ {m m₁ index}, Claimed m index → makeRoom index m = some (false, m₁) → related m m₁

namespace KeptByParts

variable {makeRoom : Nat → StateT Machine Option Bool} {related : Machine → Machine → Prop}

theorem touchBoth (parts : KeptByParts makeRoom related) (first second : Nat) :
    Keeps related (touchBoth first second) :=
  Keeps.bind parts.composes (parts.touch _) fun _ =>
    Keeps.bind parts.composes (parts.touch _) fun _ => parts.touch _

theorem load (parts : KeptByParts makeRoom related) (a : Nat) : Keeps related (paged.load a) :=
  Keeps.bind parts.composes (parts.touchBoth _ _) fun _ => Keeps.look parts.composes _

theorem store (parts : KeptByParts makeRoom related) (a : Nat) (w : BitVec 32) :
    Keeps related (paged.store a w) :=
  Keeps.bind parts.composes (parts.touchBoth _ _) fun _ => Keeps.change fun _ => parts.frames _ _

theorem modify (parts : KeptByParts makeRoom related) (a : Nat) (f : BitVec 32 → BitVec 32) :
    Keeps related (paged.modify a f) :=
  Store.keeps_modify parts.composes (parts.load a) (parts.store a) f

theorem splitBlock (parts : KeptByParts makeRoom related) (current size : Nat) (width : BitVec 32) :
    Keeps related (splitBlock paged current size width) :=
  keeps_splitBlock parts.composes parts.load parts.store _ _ _

theorem freshBlock (parts : KeptByParts makeRoom related) (block size : Nat) :
    Keeps related (freshBlock paged block size) :=
  Keeps.bind parts.composes (parts.modify _ _) fun _ =>
    Keeps.bind parts.composes (parts.modify _ _) fun _ => parts.modify _ _

theorem pause (parts : KeptByParts makeRoom related) : Keeps related pause_timer :=
  Keeps.change fun _ => parts.timer _ _

theorem unpause (parts : KeptByParts makeRoom related) : Keeps related unpause_timer :=
  Keeps.change fun _ => parts.timer _ _

/-- **The pages a block asks for.** -/
theorem gatherPages (parts : KeptByParts makeRoom related) (lastBlock n : Nat) :
    Keeps related (gatherPages ⟨paged, makeRoom, Paging.alignPages⟩ lastBlock n) := by
  induction n with
  | zero => exact Keeps.pure parts.composes _
  | succ n ih =>
    intro m a m' ran
    rw [Paging.gatherPages, look_run] at ran
    obtain ⟨freed, m₁, room, rest⟩ := run_bind ran
    cases freed with
    | false =>
      cases rest
      exact parts.noRoom (Or.inl rfl) room
    | true =>
      obtain ⟨_, m₂, new, rest⟩ := run_bind rest
      refine parts.composes.trans (parts.newPage (Or.inl rfl) room new) ?_
      exact Keeps.bind parts.composes (parts.modify _ _) (fun _ => ih) m₂ a m' rest

/-- **A new last block.** -/
theorem newLastBlock (parts : KeptByParts makeRoom related) (prev : Nat) :
    Keeps related (newLastBlock ⟨paged, makeRoom, Paging.alignPages⟩ prev) := by
  intro m a m' ran
  rw [Paging.newLastBlock, look_run] at ran
  obtain ⟨freed, m₁, room, rest⟩ := run_bind ran
  cases freed with
  | false =>
    cases rest
    exact parts.noRoom (Or.inl rfl) room
  | true =>
    obtain ⟨_, m₂, new, rest⟩ := run_bind rest
    refine parts.composes.trans (parts.newPage (Or.inl rfl) room new) ?_
    exact Keeps.bind parts.composes (parts.freshBlock _ _) (fun _ =>
      Keeps.bind parts.composes (parts.modify _ _) fun _ => Keeps.pure parts.composes _) m₂ a m' rest

/-- **The growth of a heap.** -/
theorem growHeap (parts : KeptByParts makeRoom related) (size prev : Nat) :
    Keeps related (growHeap ⟨paged, makeRoom, Paging.alignPages⟩ size prev) := by
  have pure : ∀ r : Option Nat, Keeps related (pure r : StateT Machine Option (Option Nat)) :=
    Keeps.pure parts.composes
  have finish : ∀ current, Keeps related (do
      Heap.splitBlock paged current size (sizeWithBlock size)
      unpause_timer
      return some (current + BLOCK_SIZE) : StateT Machine Option (Option Nat)) := fun current =>
    Keeps.bind parts.composes (parts.splitBlock _ _ _) fun _ =>
      Keeps.bind parts.composes parts.unpause fun _ => pure _
  unfold Paging.growHeap
  split
  · exact Keeps.bind parts.composes parts.unpause fun _ => pure _
  · refine Keeps.bind parts.composes (parts.load _) fun word => ?_
    refine Keeps.bind parts.composes (Keeps.look parts.composes _) fun needed => ?_
    split
    · split
      · exact Keeps.bind parts.composes (parts.gatherPages _ _) fun _ => finish _
      · refine Keeps.bind parts.composes (parts.newLastBlock _) fun block => ?_
        cases block with
        | none => exact pure _
        | some block => exact Keeps.bind parts.composes (parts.gatherPages _ _) fun _ => finish _
    · exact Keeps.bind parts.composes parts.unpause fun _ => pure _

/-- **The first page.** -/
theorem firstPage (parts : KeptByParts makeRoom related) :
    Keeps related (firstPage ⟨paged, makeRoom, Paging.alignPages⟩) := by
  intro m a m' ran
  rw [Paging.firstPage, look_run, look_run] at ran
  split at ran
  · rename_i foreign
    obtain ⟨freed, m₁, room, rest⟩ := run_bind ran
    cases freed with
    | false =>
      cases rest
      exact parts.noRoom (Or.inr ⟨rfl, foreign⟩) room
    | true =>
      obtain ⟨_, m₂, new, rest⟩ := run_bind rest
      cases rest
      exact parts.newPage (Or.inr ⟨rfl, foreign⟩) room new
  · cases ran
    exact parts.composes.refl _

theorem searchLoop (parts : KeptByParts makeRoom related) (size : Nat) :
    Keeps related (firstFitLoop paged size (sizeWithBlock size) walkFuel 0) :=
  keeps_firstFitLoop parts.composes parts.load parts.store _ _ _ _

/-- **A whole call.** -/
theorem myallocate (parts : KeptByParts makeRoom related) (size : Nat) :
    Keeps related (myallocate ⟨paged, makeRoom, Paging.alignPages⟩ size) := by
  unfold Paging.myallocate
  refine Keeps.bind parts.composes parts.pause fun _ => ?_
  refine Keeps.bind parts.composes parts.alignPages fun _ => ?_
  refine Keeps.bind parts.composes parts.firstPage fun ready => ?_
  split
  · unfold searchHeap
    refine Keeps.bind parts.composes (parts.searchLoop size) fun result => ?_
    cases result with
    | found ptr =>
      exact Keeps.bind parts.composes parts.unpause fun _ => Keeps.pure parts.composes _
    | exhausted prev => exact parts.growHeap _ _
  · exact Keeps.pure parts.composes _

end KeptByParts

end OS2017.Paging
