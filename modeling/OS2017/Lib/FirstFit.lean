/-
**First fit on a list of blocks.**

An arena is tiled by blocks, each a header of `h` bytes and its payload. A request takes the lowest
free block that it fills exactly, or that leaves room for the header of the rest; a release frees a
block and merges it with a free block behind it and one before it.

* `span` — the bytes of a list of blocks;
* `Holds h a blocks p n` — the blocks laid out from `a` on have a taken block with the payload
  `[p, p + n)`, and `taken` lists them;
* `firstFit`, `release` — the two operations, and what they do to the span, to the taken blocks and
  to the rule that no two neighbours are free.
-/

import Mathlib.Data.List.Chain
import Mathlib.Data.List.Nodup
import Mathlib.Data.List.Perm.Subperm

namespace OS2017.FirstFit

/-- A block of an arena. -/
structure Block where
  size : Nat
  free : Bool
  deriving DecidableEq

/-- The bytes of a list of blocks, with a header of `h` bytes each. -/
def span (h : Nat) : List Block → Nat
  | [] => 0
  | b :: rest => h + b.size + span h rest

/-- The blocks from `a` on have a taken block with the payload `[p, p + n)`. -/
def Holds (h : Nat) : Nat → List Block → Nat → Nat → Prop
  | _, [], _, _ => False
  | a, b :: rest, p, n => (p = a + h ∧ b = ⟨n, false⟩) ∨ Holds h (a + h + b.size) rest p n

/-- The taken payloads of the blocks laid out from `a` on: pointer and size. -/
def taken (h : Nat) : Nat → List Block → List (Nat × Nat)
  | _, [] => []
  | a, b :: rest =>
    if b.free then taken h (a + h + b.size) rest
    else (a + h, b.size) :: taken h (a + h + b.size) rest

/-- No two neighbours are both free. -/
def Merged (blocks : List Block) : Prop := blocks.IsChain fun b c => ¬ (b.free = true ∧ c.free = true)

/-- **First fit** of `n` bytes among the blocks from `a` on: the address of the header, and the new
blocks. -/
def firstFit (h n : Nat) : Nat → List Block → Option (Nat × List Block)
  | _, [] => none
  | a, b :: rest =>
    if b.free ∧ b.size = n then some (a, ⟨n, false⟩ :: rest)
    else if b.free ∧ n + h ≤ b.size then
      some (a, ⟨n, false⟩ :: ⟨b.size - (n + h), true⟩ :: rest)
    else (firstFit h n (a + h + b.size) rest).map fun (found, blocks) => (found, b :: blocks)

/-- A block with a free one behind it merged into it. -/
def absorb (h : Nat) (b : Block) : List Block → List Block
  | [] => [b]
  | c :: rest => if c.free then ⟨b.size + c.size + h, b.free⟩ :: rest else b :: c :: rest

/-- **The release** of the taken block with its header at `target`. -/
def release (h target : Nat) : Nat → List Block → Option (List Block)
  | _, [] => none
  | a, b :: rest =>
    if a = target then if b.free then none else some (absorb h ⟨b.size, true⟩ rest)
    else (release h target (a + h + b.size) rest).map fun blocks =>
      if a + h + b.size = target ∧ b.free then absorb h b blocks else b :: blocks

variable {h : Nat}

theorem span_append (xs ys : List Block) : span h (xs ++ ys) = span h xs + span h ys := by
  induction xs with
  | nil => simp [span]
  | cons b xs ih =>
    simp only [List.cons_append, span, ih]
    omega

theorem length_le_span (positive : 0 < h) (blocks : List Block) : blocks.length ≤ span h blocks := by
  induction blocks with
  | nil => simp [span]
  | cons b blocks ih =>
    simp only [List.length_cons, span]
    omega

/-! ### The taken blocks -/

theorem Holds.bounds {a p n : Nat} {blocks : List Block} (holds : Holds h a blocks p n) :
    a + h ≤ p ∧ p + n ≤ a + span h blocks := by
  induction blocks generalizing a with
  | nil => exact holds.elim
  | cons b rest ih =>
    rcases holds with ⟨rfl, rfl⟩ | later
    · simp only [span]
      omega
    · have := ih later
      simp only [span]
      omega

/-- **Payloads are apart**, and apart by a header. -/
theorem Holds.apart {a p n q m : Nat} {blocks : List Block} (left : Holds h a blocks p n)
    (right : Holds h a blocks q m) (different : p ≠ q) : p + n + h ≤ q ∨ q + m + h ≤ p := by
  induction blocks generalizing a with
  | nil => exact left.elim
  | cons b rest ih =>
    rcases left with ⟨rfl, rfl⟩ | left <;> rcases right with ⟨rfl, same⟩ | right
    · exact absurd rfl different
    · have := right.bounds
      simp only at this
      omega
    · have := left.bounds
      rw [same] at this
      simp only at this
      omega
    · exact ih left right

/-- The size of a taken block is that of its header. -/
theorem Holds.size_unique (positive : 0 < h) {a p n m : Nat} {blocks : List Block}
    (left : Holds h a blocks p n) (right : Holds h a blocks p m) : n = m := by
  induction blocks generalizing a with
  | nil => exact left.elim
  | cons b rest ih =>
    rcases left with ⟨rfl, rfl⟩ | left <;> rcases right with ⟨equal, same⟩ | right
    · cases same
      rfl
    · have := right.bounds
      omega
    · have := left.bounds
      omega
    · exact ih left right

theorem mem_taken {a p n : Nat} {blocks : List Block} :
    (p, n) ∈ taken h a blocks ↔ Holds h a blocks p n := by
  induction blocks generalizing a with
  | nil => exact iff_of_false List.not_mem_nil id
  | cons b rest ih =>
    unfold taken Holds
    obtain ⟨size, free⟩ := b
    cases free with
    | true => simp [ih]
    | false =>
      rw [if_neg (by simp), List.mem_cons, ih, Prod.mk.injEq, Block.mk.injEq]
      exact or_congr_left (and_congr_right fun _ =>
        ⟨fun same => ⟨same.symm, rfl⟩, fun both => both.1.symm⟩)

/-- **Taken blocks of one size** fit into the arena side by side. -/
theorem taken_count (n a : Nat) (blocks : List Block) :
    ((taken h a blocks).filter fun block => block.2 = n).length * (h + n) ≤ span h blocks := by
  induction blocks generalizing a with
  | nil => exact Nat.le_of_eq (Nat.zero_mul _)
  | cons b rest ih =>
    have later := ih (a + h + b.size)
    unfold taken span
    split
    · omega
    · by_cases same : b.size = n
      · rw [List.filter_cons_of_pos (by simpa using same), List.length_cons, Nat.succ_mul]
        omega
      · rw [List.filter_cons_of_neg (by simpa using same)]
        omega

/-- **As many distinct payloads of one size as fit.** -/
theorem Holds.count {n a : Nat} {blocks : List Block} {pointers : List Nat}
    (distinct : pointers.Nodup) (holds : ∀ p ∈ pointers, Holds h a blocks p n) :
    pointers.length * (h + n) ≤ span h blocks := by
  have inside : pointers.map (·, n) ⊆ (taken h a blocks).filter fun block => block.2 = n := by
    intro block member
    obtain ⟨p, listed, rfl⟩ := List.mem_map.mp member
    exact List.mem_filter.mpr ⟨mem_taken.mpr (holds p listed), decide_eq_true rfl⟩
  have pairs : (pointers.map (·, n)).Nodup :=
    List.Nodup.map (fun _ _ same => congrArg Prod.fst same) distinct
  have fewer := (pairs.subperm inside).length_le
  rw [List.length_map] at fewer
  exact le_trans (Nat.mul_le_mul_right _ fewer) (taken_count n a blocks)

/-! ### First fit -/

/-- **What first fit takes**: a free block, and where. -/
theorem firstFit_eq_some {n a found : Nat} {blocks blocks' : List Block}
    (fits : firstFit h n a blocks = some (found, blocks')) :
    ∃ front b back, blocks = front ++ b :: back ∧ b.free = true ∧ found = a + span h front ∧
      ((b.size = n ∧ blocks' = front ++ ⟨n, false⟩ :: back) ∨
        (n + h ≤ b.size ∧
          blocks' = front ++ ⟨n, false⟩ :: ⟨b.size - (n + h), true⟩ :: back)) := by
  induction blocks generalizing a found blocks' with
  | nil => cases fits
  | cons b rest ih =>
    unfold firstFit at fits
    split at fits
    · rename_i exact
      cases fits
      exact ⟨[], b, rest, rfl, exact.1, rfl, Or.inl ⟨exact.2, rfl⟩⟩
    · split at fits
      · rename_i room
        cases fits
        exact ⟨[], b, rest, rfl, room.1, rfl, Or.inr ⟨room.2, rfl⟩⟩
      · obtain ⟨⟨found, later⟩, fits', same⟩ := Option.map_eq_some_iff.mp fits
        cases same
        obtain ⟨front, c, back, rfl, isFree, rfl, shape⟩ := ih fits'
        refine ⟨b :: front, c, back, rfl, isFree, ?_, ?_⟩
        · simp only [span]
          omega
        · rcases shape with ⟨size, rfl⟩ | ⟨size, rfl⟩
          · exact Or.inl ⟨size, rfl⟩
          · exact Or.inr ⟨size, rfl⟩

/-- **It is the first one**: no free block before it would do. -/
theorem firstFit_first {n a found : Nat} {blocks blocks' : List Block}
    (fits : firstFit h n a blocks = some (found, blocks')) :
    ∃ front b back, blocks = front ++ b :: back ∧ b.free = true ∧ found = a + span h front ∧
      (b.size = n ∨ n + h ≤ b.size) ∧ ∀ c ∈ front, c.free = true → c.size ≠ n ∧ c.size < n + h := by
  induction blocks generalizing a found blocks' with
  | nil => cases fits
  | cons b rest ih =>
    unfold firstFit at fits
    split at fits
    · rename_i exact
      cases fits
      exact ⟨[], b, rest, rfl, exact.1, rfl, Or.inl exact.2, by simp⟩
    · rename_i unequal
      split at fits
      · rename_i room
        cases fits
        exact ⟨[], b, rest, rfl, room.1, rfl, Or.inr room.2, by simp⟩
      · rename_i small
        obtain ⟨⟨found, later⟩, fits', same⟩ := Option.map_eq_some_iff.mp fits
        cases same
        obtain ⟨front, c, back, rfl, isFree, rfl, size, passed⟩ := ih fits'
        refine ⟨b :: front, c, back, rfl, isFree, ?_, size, ?_⟩
        · simp only [span]
          omega
        · intro d member free
          rcases List.mem_cons.mp member with rfl | later
          · exact ⟨fun equal => unequal ⟨free, equal⟩, by
              by_contra large
              exact small ⟨free, by omega⟩⟩
          · exact passed d later free

theorem firstFit_span {n a found : Nat} {blocks blocks' : List Block}
    (fits : firstFit h n a blocks = some (found, blocks')) : span h blocks' = span h blocks := by
  obtain ⟨front, b, back, rfl, _, _, ⟨rfl, rfl⟩ | ⟨room, rfl⟩⟩ := firstFit_eq_some fits
  · simp only [span_append, span]
  · simp only [span_append, span]
    omega

theorem firstFit_ne_nil {n a found : Nat} {blocks blocks' : List Block}
    (fits : firstFit h n a blocks = some (found, blocks')) : blocks' ≠ [] := by
  obtain ⟨front, b, back, _, _, _, ⟨_, rfl⟩ | ⟨_, rfl⟩⟩ := firstFit_eq_some fits
  · simp
  · simp

/-- **First fit finds nothing** exactly if no block is free and of a size that can be used. -/
theorem firstFit_eq_none {n a : Nat} {blocks : List Block} : firstFit h n a blocks = none ↔
    ∀ b ∈ blocks, ¬ (b.free = true ∧ (b.size = n ∨ n + h ≤ b.size)) := by
  induction blocks generalizing a with
  | nil => simp [firstFit]
  | cons b rest ih =>
    rw [firstFit, List.forall_mem_cons]
    split
    · rename_i exact
      simp [exact.1, exact.2]
    · split
      · rename_i room
        simp [room.1, room.2]
      · rename_i notExact noRoom
        rw [Option.map_eq_none_iff, ih, and_iff_right]
        rintro ⟨isFree, exact | room⟩
        · exact notExact ⟨isFree, exact⟩
        · exact noRoom ⟨isFree, room⟩

theorem holds_append {a p n : Nat} {xs ys : List Block} :
    Holds h a (xs ++ ys) p n ↔ Holds h a xs p n ∨ Holds h (a + span h xs) ys p n := by
  induction xs generalizing a with
  | nil => simp [Holds, span]
  | cons b xs ih =>
    simp only [List.cons_append, Holds, ih, span, or_assoc]
    rw [show a + h + b.size + span h xs = a + (h + b.size + span h xs) by omega]

/-- A free block holds nothing. -/
theorem holds_cons_free {a p n : Nat} {b : Block} {rest : List Block} (isFree : b.free = true) :
    Holds h a (b :: rest) p n ↔ Holds h (a + h + b.size) rest p n := by
  refine ⟨fun holds => holds.resolve_left ?_, Or.inr⟩
  rintro ⟨_, rfl⟩
  cases isFree

/-- **The taken blocks after first fit** are those before and the new one. -/
theorem firstFit_holds {n a found p m : Nat} {blocks blocks' : List Block}
    (fits : firstFit h n a blocks = some (found, blocks')) :
    Holds h a blocks' p m ↔ Holds h a blocks p m ∨ (p = found + h ∧ m = n) := by
  obtain ⟨front, b, back, rfl, isFree, rfl, ⟨rfl, rfl⟩ | ⟨room, rfl⟩⟩ := firstFit_eq_some fits
  · rw [holds_append, holds_append, holds_cons_free isFree]
    simp only [Holds, Block.mk.injEq, and_true]
    constructor
    · rintro (early | ⟨rfl, rfl⟩ | late)
      · exact Or.inl (Or.inl early)
      · exact Or.inr ⟨rfl, rfl⟩
      · exact Or.inl (Or.inr late)
    · rintro ((early | late) | ⟨rfl, rfl⟩)
      · exact Or.inl early
      · exact Or.inr (Or.inr late)
      · exact Or.inr (Or.inl ⟨rfl, rfl⟩)
  · rw [holds_append, holds_append, holds_cons_free isFree]
    simp only [Holds, Block.mk.injEq, and_true, Bool.true_eq_false, and_false, false_or]
    rw [show a + span h front + h + n + h + (b.size - (n + h)) = a + span h front + h + b.size by
      omega]
    constructor
    · rintro (early | ⟨rfl, rfl⟩ | late)
      · exact Or.inl (Or.inl early)
      · exact Or.inr ⟨rfl, rfl⟩
      · exact Or.inl (Or.inr late)
    · rintro ((early | late) | ⟨rfl, rfl⟩)
      · exact Or.inl early
      · exact Or.inr (Or.inr late)
      · exact Or.inr (Or.inl ⟨rfl, rfl⟩)

/-- The block that is taken was not held. -/
theorem firstFit_fresh (positive : 0 < h) {n a found m : Nat} {blocks blocks' : List Block}
    (fits : firstFit h n a blocks = some (found, blocks')) : ¬ Holds h a blocks (found + h) m := by
  obtain ⟨front, b, back, rfl, isFree, rfl, _⟩ := firstFit_eq_some fits
  rw [holds_append, holds_cons_free isFree]
  rintro (early | late)
  · have := early.bounds
    omega
  · have := late.bounds
    omega

/-- **First fit keeps neighbours merged.** -/
theorem firstFit_merged {n a found : Nat} {blocks blocks' : List Block}
    (fits : firstFit h n a blocks = some (found, blocks')) (merged : Merged blocks) :
    Merged blocks' := by
  obtain ⟨front, b, back, rfl, isFree, _, shape⟩ := firstFit_eq_some fits
  unfold Merged at merged ⊢
  rw [List.isChain_append] at merged
  obtain ⟨before, behind, _⟩ := merged
  have rest : back.IsChain fun b c => ¬ (b.free = true ∧ c.free = true) := behind.tail
  have first : ∀ c ∈ back.head?, c.free ≠ true := by
    intro c head both
    cases back with
    | nil => cases head
    | cons d back =>
      cases head
      exact (List.isChain_cons_cons.mp behind).1 ⟨isFree, both⟩
  rcases shape with ⟨_, rfl⟩ | ⟨_, rfl⟩
  · refine List.isChain_append.mpr ⟨before, List.isChain_cons.mpr ⟨by simp, rest⟩, by simp⟩
  · refine List.isChain_append.mpr ⟨before, List.isChain_cons.mpr ⟨by simp,
      List.isChain_cons.mpr ⟨fun c head both => ?_, rest⟩⟩, by simp⟩
    exact first c head both.2

/-! ### Release -/

theorem absorb_cons (b c : Block) (rest : List Block) : absorb h b (c :: rest)
    = if c.free then ⟨b.size + c.size + h, b.free⟩ :: rest else b :: c :: rest := rfl

theorem absorb_span (b : Block) (rest : List Block) :
    span h (absorb h b rest) = span h (b :: rest) := by
  cases rest with
  | nil => rfl
  | cons c rest =>
    rw [absorb_cons]
    split
    · simp only [span]
      omega
    · rfl

theorem release_span {target a : Nat} {blocks blocks' : List Block}
    (released : release h target a blocks = some blocks') : span h blocks' = span h blocks := by
  induction blocks generalizing a blocks' with
  | nil => cases released
  | cons b rest ih =>
    unfold release at released
    split at released
    · split at released
      · cases released
      · cases released
        rw [absorb_span]
        simp only [span]
    · obtain ⟨later, released', same⟩ := Option.map_eq_some_iff.mp released
      rw [← same]
      split
      · rw [absorb_span]
        simp only [span, ih released']
      · simp only [span, ih released']

theorem release_ne_nil (positive : 0 < h) {target a : Nat} {blocks blocks' : List Block}
    (released : release h target a blocks = some blocks') : blocks' ≠ [] := by
  rintro rfl
  have same := release_span released
  cases blocks with
  | nil => cases released
  | cons b rest =>
    simp only [span] at same
    omega

/-- The first block stays first. -/
theorem absorb_eq_cons (b : Block) (rest : List Block) :
    ∃ size rest', absorb h b rest = ⟨size, b.free⟩ :: rest' := by
  cases rest with
  | nil => exact ⟨b.size, [], rfl⟩
  | cons c rest =>
    rw [absorb_cons]
    split
    · exact ⟨_, _, rfl⟩
    · exact ⟨b.size, c :: rest, rfl⟩

/-- The block at the target is taken, and it is freed. -/
theorem release_here {target : Nat} {b : Block} {rest blocks' : List Block}
    (released : release h target target (b :: rest) = some blocks') :
    blocks' = absorb h ⟨b.size, true⟩ rest := by
  unfold release at released
  rw [if_pos rfl] at released
  split at released
  · cases released
  · cases released
    rfl

/-- Merging free blocks changes no taken one. -/
theorem absorb_holds {a p n : Nat} {b : Block} {rest : List Block} (isFree : b.free = true) :
    Holds h a (absorb h b rest) p n ↔ Holds h (a + h + b.size) rest p n := by
  cases rest with
  | nil => simp only [absorb, holds_cons_free isFree]
  | cons c rest =>
    rw [absorb_cons]
    split
    · rename_i freeNext
      have stillFree : (⟨b.size + c.size + h, b.free⟩ : Block).free = true := isFree
      rw [holds_cons_free stillFree, holds_cons_free freeNext]
      simp only
      rw [show a + h + (b.size + c.size + h) = a + h + b.size + h + c.size by omega]
    · rw [holds_cons_free isFree]

/-- **The taken blocks after a release** are the others. -/
theorem release_holds (positive : 0 < h) {target a p n : Nat} {blocks blocks' : List Block}
    (released : release h target a blocks = some blocks') :
    Holds h a blocks' p n ↔ Holds h a blocks p n ∧ p ≠ target + h := by
  induction blocks generalizing a blocks' with
  | nil => cases released
  | cons b rest ih =>
    unfold release at released
    split at released
    · rename_i here
      split at released
      · cases released
      · cases released
        rw [absorb_holds rfl]
        simp only [Holds]
        constructor
        · intro later
          have := later.bounds
          exact ⟨Or.inr later, by omega⟩
        · rintro ⟨⟨rfl, _⟩ | later, other⟩
          · exact absurd (by rw [here]) other
          · exact later
    · rename_i elsewhere
      obtain ⟨later, released', rfl⟩ := Option.map_eq_some_iff.mp released
      have step : Holds h a (b :: later) p n ↔ Holds h a (b :: rest) p n ∧ p ≠ target + h := by
        simp only [Holds, ih released']
        constructor
        · rintro (⟨rfl, same⟩ | ⟨holds, other⟩)
          · exact ⟨Or.inl ⟨rfl, same⟩, by omega⟩
          · exact ⟨Or.inr holds, other⟩
        · rintro ⟨first | holds, other⟩
          · exact Or.inl first
          · exact Or.inr ⟨holds, other⟩
      split
      · rename_i joined
        rw [absorb_holds joined.2, ← step, holds_cons_free joined.2]
      · exact step

/-- The release of a taken block succeeds. -/
theorem release_isSome (positive : 0 < h) {target a n : Nat} {blocks : List Block}
    (holds : Holds h a blocks (target + h) n) : (release h target a blocks).isSome := by
  induction blocks generalizing a with
  | nil => exact holds.elim
  | cons b rest ih =>
    unfold release
    rcases holds with ⟨equal, rfl⟩ | later
    · rw [if_pos (by omega)]
      rfl
    · have := later.bounds
      rw [if_neg (by omega), Option.isSome_map]
      exact ih later

theorem holds_shift {k a p n : Nat} {blocks : List Block} :
    Holds h (k + a) blocks (k + p) n ↔ Holds h a blocks p n := by
  induction blocks generalizing a with
  | nil => exact Iff.rfl
  | cons b rest ih =>
    have address : k + a + h + b.size = k + (a + h + b.size) := by omega
    rw [Holds, Holds, address, ih, Nat.add_assoc, Nat.add_left_cancel_iff]

/-- Blocks at another address. -/
theorem release_shift (k target a : Nat) (blocks : List Block) :
    release h (k + target) (k + a) blocks = release h target a blocks := by
  induction blocks generalizing a with
  | nil => rfl
  | cons b rest ih =>
    have address : k + a + h + b.size = k + (a + h + b.size) := by omega
    unfold release
    simp only [Nat.add_left_cancel_iff, address, ih]

theorem absorb_head (b : Block) (rest : List Block) :
    (absorb h b rest).head?.map Block.free = some b.free := by
  cases rest with
  | nil => rfl
  | cons c rest =>
    rw [absorb_cons]
    split
    · rfl
    · rfl

/-- A block is merged with what is behind it. -/
theorem absorb_merged {b : Block} {rest : List Block} (merged : Merged rest) :
    Merged (absorb h b rest) := by
  cases rest with
  | nil => exact List.isChain_singleton _
  | cons c rest =>
    rw [absorb_cons]
    split
    · rename_i freeNext
      cases rest with
      | nil => exact List.isChain_singleton _
      | cons d rest =>
        refine List.isChain_cons_cons.mpr ⟨fun both => ?_, merged.tail⟩
        exact (List.isChain_cons_cons.mp merged).1 ⟨freeNext, both.2⟩
    · rename_i taken
      exact List.isChain_cons_cons.mpr ⟨fun both => taken both.2, merged⟩

/-- **Release keeps neighbours merged.** -/
theorem release_merged {target a : Nat} {blocks blocks' : List Block}
    (released : release h target a blocks = some blocks') (merged : Merged blocks) :
    Merged blocks' ∧ (a ≠ target → blocks'.head?.map Block.free = blocks.head?.map Block.free) := by
  induction blocks generalizing a blocks' with
  | nil => cases released
  | cons b rest ih =>
    unfold release at released
    split at released
    · rename_i here
      split at released
      · cases released
      · cases released
        exact ⟨absorb_merged merged.tail, fun other => absurd here other⟩
    · obtain ⟨later, released', rfl⟩ := Option.map_eq_some_iff.mp released
      obtain ⟨merged', head⟩ := ih released' merged.tail
      split
      · rename_i joined
        refine ⟨absorb_merged merged', fun _ => ?_⟩
        exact absorb_head b later
      · rename_i apart
        refine ⟨?_, fun _ => rfl⟩
        cases later with
        | nil => exact List.isChain_singleton _
        | cons c later =>
          refine List.isChain_cons_cons.mpr ⟨fun both => ?_, merged'⟩
          by_cases next : a + h + b.size = target
          · exact apart ⟨next, both.1⟩
          · cases rest with
            | nil => simp [release] at released'
            | cons d rest =>
              have same := head next
              simp only [List.head?_cons, Option.map_some, Option.some_inj] at same
              exact (List.isChain_cons_cons.mp merged).1 ⟨both.1, same ▸ both.2⟩

end OS2017.FirstFit
