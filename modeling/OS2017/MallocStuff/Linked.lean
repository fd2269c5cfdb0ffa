/-
**The linked blocks of `mymalloc.c` refine first fit.**

`Linked place m a blocks` says that the memory `m` has the headers of `blocks` from `a` on, each with
a pointer to the next one and the last with `NULL`. On such a list `mallocLoop` does what `firstFit`
does (`mallocLoop_spec`) and `freeAndMergeLoop` what `release` does (`freeAndMergeLoop_spec`).
-/

import OS2017.MallocStuff.Model
import OS2017.Lib.Allocator

namespace OS2017.MallocStuff

open OS2017.Bytes OS2017.FirstFit OS2017.Allocator

/-! ### Fields -/

section Fields

variable {m m' : Memory} {a b : Nat}

theorem isFree_congr (same : ∀ c, a ≤ c → c < a + BLOCK_SIZE → m' c = m c) :
    isFree m' a = isFree m a := by
  unfold isFree
  rw [same a (Nat.le_refl a) (by unfold BLOCK_SIZE; omega)]

theorem size_congr (same : ∀ c, a ≤ c → c < a + BLOCK_SIZE → m' c = m c) : size m' a = size m a := by
  unfold size
  rw [same (a + 3) (by omega) (by unfold BLOCK_SIZE; omega),
    same (a + 2) (by omega) (by unfold BLOCK_SIZE; omega)]

theorem next_congr (same : ∀ c, a ≤ c → c < a + BLOCK_SIZE → m' c = m c) : next m' a = next m a := by
  unfold BLOCK_SIZE at same
  unfold next
  rw [readWord_congr fun c low high => same c (by omega) (by omega),
    readWord_congr fun c low high => same c (by omega) (by omega)]

/-- An assignment to a field stays in its header. -/
theorem setIsFree_outside {value : Bool} {c : Nat} (outside : c < a ∨ a + BLOCK_SIZE ≤ c) :
    setIsFree m a value c = m c := by
  unfold BLOCK_SIZE at outside
  exact Function.update_of_ne (by omega) _ _

theorem setSize_outside {value : BitVec 16} {c : Nat} (outside : c < a ∨ a + BLOCK_SIZE ≤ c) :
    setSize m a value c = m c := by
  unfold BLOCK_SIZE at outside
  unfold setSize
  rw [Function.update_of_ne (by omega), Function.update_of_ne (by omega)]

theorem setNext_outside {value : BitVec 64} {c : Nat} (outside : c < a ∨ a + BLOCK_SIZE ≤ c) :
    setNext m a value c = m c := by
  unfold BLOCK_SIZE at outside
  unfold setNext
  rw [writeWord_of_outside (by omega), writeWord_of_outside (by omega)]

variable (m a)

@[simp] theorem isFree_setIsFree (value : Bool) : isFree (setIsFree m a value) a = value := by
  unfold isFree setIsFree
  rw [Function.update_self]
  cases value <;> decide

@[simp] theorem isFree_setSize (value : BitVec 16) : isFree (setSize m a value) a = isFree m a := by
  unfold isFree setSize
  rw [Function.update_of_ne (by omega), Function.update_of_ne (by omega)]

@[simp] theorem isFree_setNext (value : BitVec 64) : isFree (setNext m a value) a = isFree m a := by
  unfold isFree setNext
  rw [writeWord_of_outside (by omega), writeWord_of_outside (by omega)]

@[simp] theorem size_setIsFree (value : Bool) : size (setIsFree m a value) a = size m a := by
  unfold size setIsFree
  rw [Function.update_of_ne (by omega), Function.update_of_ne (by omega)]

@[simp] theorem size_setSize (value : BitVec 16) : size (setSize m a value) a = value := by
  unfold size setSize
  rw [Function.update_of_ne (by omega), Function.update_self, Function.update_self]
  exact append_halves 8 value

@[simp] theorem size_setNext (value : BitVec 64) : size (setNext m a value) a = size m a := by
  unfold size setNext
  rw [writeWord_of_outside (by omega), writeWord_of_outside (by omega),
    writeWord_of_outside (by omega), writeWord_of_outside (by omega)]

@[simp] theorem next_setIsFree (value : Bool) : next (setIsFree m a value) a = next m a := by
  have outside : ∀ c, a + 8 ≤ c → setIsFree m a value c = m c := fun c low =>
    Function.update_of_ne (by omega) _ _
  unfold next
  rw [readWord_congr fun c low _ => outside c (by omega),
    readWord_congr fun c low _ => outside c (by omega)]

@[simp] theorem next_setSize (value : BitVec 16) : next (setSize m a value) a = next m a := by
  have outside : ∀ c, a + 8 ≤ c → setSize m a value c = m c := by
    intro c low
    unfold setSize
    rw [Function.update_of_ne (by omega), Function.update_of_ne (by omega)]
  unfold next
  rw [readWord_congr fun c low _ => outside c (by omega),
    readWord_congr fun c low _ => outside c (by omega)]

@[simp] theorem next_setNext (value : BitVec 64) : next (setNext m a value) a = value := by
  unfold next setNext
  rw [readWord_writeWord_of_apart (by omega), readWord_writeWord, readWord_writeWord]
  exact append_halves 32 value

end Fields

/-! ### Headers -/

/-- **The header of a block** at `a`, with the next block behind it or none. -/
structure Header (place : Placement) (m : Memory) (a : Nat) (b : Block) (more : Bool) : Prop where
  isFree : isFree m a = b.free
  size : (size m a).toNat = b.size
  next : next m a = if more then place.pointer (a + BLOCK_SIZE + b.size) else 0

/-- **The headers of the blocks from `a` on.** -/
def Linked (place : Placement) (m : Memory) : Nat → List Block → Prop
  | _, [] => True
  | a, b :: rest =>
    Header place m a b (!rest.isEmpty) ∧ Linked place m (a + BLOCK_SIZE + b.size) rest

variable {place : Placement} {m m' : Memory} {a : Nat}

theorem Header.congr {b : Block} {more : Bool} (header : Header place m a b more)
    (same : ∀ c, a ≤ c → c < a + BLOCK_SIZE → m' c = m c) : Header place m' a b more :=
  ⟨(isFree_congr same).trans header.isFree, (congrArg BitVec.toNat (size_congr same)).trans header.size,
    (next_congr same).trans header.next⟩

/-- The list depends on the bytes from its start on. -/
theorem Linked.congr {blocks : List Block} (linked : Linked place m a blocks)
    (same : ∀ c, a ≤ c → m' c = m c) : Linked place m' a blocks := by
  induction blocks generalizing a with
  | nil => trivial
  | cons b rest ih =>
    refine ⟨linked.1.congr fun c low _ => same c low, ih linked.2 fun c low => same c ?_⟩
    unfold BLOCK_SIZE at low
    omega

/-- A write to a taken payload leaves the list alone. -/
theorem Linked.update {p n c : Nat} {blocks : List Block} (linked : Linked place m a blocks)
    (holds : Holds BLOCK_SIZE a blocks p n) (low : p ≤ c) (high : c < p + n) (value : BitVec 8) :
    Linked place (Function.update m c value) a blocks := by
  induction blocks generalizing a with
  | nil => trivial
  | cons b rest ih =>
    have bounds := holds.bounds
    refine ⟨linked.1.congr fun x _ below => Function.update_of_ne (by omega) _ _, ?_⟩
    rcases holds with ⟨rfl, rfl⟩ | later
    · refine linked.2.congr fun x above => Function.update_of_ne ?_ _ _
      simp only at above
      omega
    · exact ih linked.2 later

/-- **`current->next`** in a list. -/
theorem follow_spec {b : Block} {more : Bool} (header : Header place m a b more)
    (inside : a + BLOCK_SIZE + b.size + BLOCK_SIZE ≤ MAX_MEMORY ∨ more = false) :
    follow place m a = some (if more then some (a + BLOCK_SIZE + b.size) else none) := by
  unfold follow
  rw [header.next]
  cases more with
  | false => rfl
  | true =>
    have fits := place.fits
    have notNull := place.notNull
    have within := inside.resolve_right (by decide)
    have pointer : (place.pointer (a + BLOCK_SIZE + b.size)).toNat =
        place.address + (a + BLOCK_SIZE + b.size) := by
      unfold Placement.pointer
      rw [BitVec.toNat_ofNat]
      exact Nat.mod_eq_of_lt (by omega)
    have nonzero : place.pointer (a + BLOCK_SIZE + b.size) ≠ 0 := by
      intro zero
      rw [zero] at pointer
      have null : (0 : BitVec 64).toNat = 0 := rfl
      omega
    rw [if_pos rfl, if_neg nonzero, pointer, if_pos ⟨by omega, by unfold InBlock; omega⟩]
    congr 2
    omega

theorem isEmpty_of_ne_nil {blocks : List Block} (nonempty : blocks ≠ []) :
    (!blocks.isEmpty) = true := by
  cases blocks with
  | nil => exact absurd rfl nonempty
  | cons b rest => rfl

/-! ### `mymalloc` -/

/-- `sizeWithBlock` of a request that is not too large. -/
theorem toNat_sizeWithBlock {n : Nat} (small : n + BLOCK_SIZE < 2 ^ 16) :
    (BitVec.ofNat 16 (n + BLOCK_SIZE)).toNat = n + BLOCK_SIZE := by
  rw [BitVec.toNat_ofNat]
  exact Nat.mod_eq_of_lt small

/-- **A block is cut in two.** -/
theorem splitBlock_spec {b : Block} {more : Bool} {n : Nat} (header : Header place m a b more)
    (room : n + BLOCK_SIZE ≤ b.size) (small : b.size < 2 ^ 16) :
    Header place (splitBlock place m a n (BitVec.ofNat 16 (n + BLOCK_SIZE))) a ⟨n, false⟩ true ∧
      Header place (splitBlock place m a n (BitVec.ofNat 16 (n + BLOCK_SIZE))) (a + BLOCK_SIZE + n)
        ⟨b.size - (n + BLOCK_SIZE), true⟩ more ∧
      ∀ c, (c < a ∨ a + BLOCK_SIZE + b.size ≤ c) →
        splitBlock place m a n (BitVec.ofNat 16 (n + BLOCK_SIZE)) c = m c := by
  have sixteen : BLOCK_SIZE = 16 := rfl
  have width := toNat_sizeWithBlock (n := n) (by omega)
  have fresh : a + (BitVec.ofNat 16 (n + BLOCK_SIZE)).toNat = a + BLOCK_SIZE + n := by
    rw [width]
    omega
  have smaller : (size m a - BitVec.ofNat 16 (n + BLOCK_SIZE)).toNat = b.size - (n + BLOCK_SIZE) := by
    have le : BitVec.ofNat 16 (n + BLOCK_SIZE) ≤ size m a := by
      rw [BitVec.le_def, width, header.size]
      exact room
    rw [BitVec.toNat_sub_of_le le, header.size, width]
  unfold splitBlock
  dsimp only
  rw [fresh]
  -- the header of the rest, before the first block is changed
  have size₁ : size (setIsFree m (a + BLOCK_SIZE + n) true) a = size m a :=
    size_congr fun c _ _ => setIsFree_outside (by omega)
  rw [size₁]
  have next₂ : next (setSize (setIsFree m (a + BLOCK_SIZE + n) true) (a + BLOCK_SIZE + n)
      (size m a - BitVec.ofNat 16 (n + BLOCK_SIZE))) a = next m a := by
    refine next_congr fun c _ _ => ?_
    rw [setSize_outside (by omega), setIsFree_outside (by omega)]
  rw [next₂]
  refine ⟨⟨by simp, ?_, ?_⟩, ?_, ?_⟩
  · rw [size_setIsFree, size_setSize, BitVec.toNat_ofNat]
    exact Nat.mod_eq_of_lt (by omega)
  · rw [next_setIsFree, next_setSize, next_setNext, if_pos rfl]
  · refine Header.congr (m := setNext (setSize (setIsFree m (a + BLOCK_SIZE + n) true)
      (a + BLOCK_SIZE + n) (size m a - BitVec.ofNat 16 (n + BLOCK_SIZE))) (a + BLOCK_SIZE + n)
      (next m a)) ⟨?_, ?_, ?_⟩ fun c low _ => ?_
    · rw [isFree_setNext, isFree_setSize, isFree_setIsFree]
    · rw [size_setNext, size_setSize]
      exact smaller
    · rw [next_setNext, header.next]
      simp only
      rw [show a + BLOCK_SIZE + n + BLOCK_SIZE + (b.size - (n + BLOCK_SIZE)) =
        a + BLOCK_SIZE + b.size by omega]
    · rw [setIsFree_outside (by omega), setSize_outside (by omega), setNext_outside (by omega)]
  · intro c outside
    rw [setIsFree_outside (by omega), setSize_outside (by omega), setNext_outside (by omega),
      setNext_outside (by omega), setSize_outside (by omega), setIsFree_outside (by omega)]

/-- **What a search comes to**: nothing, or first fit. -/
def Served (place : Placement) (m : Memory) (a request : Nat) (blocks : List Block)
    (result : Option (Option Nat × Memory)) : Prop :=
  match firstFit BLOCK_SIZE request a blocks with
  | none => result = some (none, m)
  | some (header, blocks') => ∃ m', result = some (some (header + BLOCK_SIZE), m') ∧
      Linked place m' a blocks' ∧ ∀ c < a, m' c = m c

/-- **The loop of `mymalloc` is first fit.** -/
theorem mallocLoop_spec {request : Nat} {blocks : List Block} {fuel : Nat} (nonempty : blocks ≠ [])
    (linked : Linked place m a blocks) (inside : a + span BLOCK_SIZE blocks ≤ MAX_MEMORY)
    (enough : blocks.length ≤ fuel) : Served place m a request blocks
      (mallocLoop place request (BitVec.ofNat 16 (request + BLOCK_SIZE)) fuel a m) := by
  have sixteen : BLOCK_SIZE = 16 := rfl
  have max : MAX_MEMORY = 5000 := rfl
  induction blocks generalizing a fuel with
  | nil => exact absurd rfl nonempty
  | cons b rest ih =>
    obtain ⟨fuel, rfl⟩ : ∃ less, fuel = less + 1 := ⟨fuel - 1, by simp at enough; omega⟩
    have header := linked.1
    simp only [span] at inside
    have fits : isFree m a = true ∧ (size m a).toNat = request ↔ b.free = true ∧ b.size = request := by
      rw [header.isFree, header.size]
    have room : isFree m a = true ∧ request ≤ (size m a).toNat ∧
        BitVec.ofNat 16 (request + BLOCK_SIZE) ≤ size m a ↔
          b.free = true ∧ request + BLOCK_SIZE ≤ b.size := by
      rw [header.isFree, header.size]
      refine and_congr_right fun _ => ?_
      constructor
      · rintro ⟨below, large⟩
        rw [BitVec.le_def, toNat_sizeWithBlock (by omega), header.size] at large
        exact large
      · intro large
        refine ⟨by omega, ?_⟩
        rw [BitVec.le_def, toNat_sizeWithBlock (by omega), header.size]
        exact large
    unfold Served firstFit mallocLoop
    by_cases exact : b.free = true ∧ b.size = request
    · rw [if_pos exact, if_pos (fits.mpr exact)]
      refine ⟨_, rfl, ⟨⟨isFree_setIsFree m a false, ?_, ?_⟩, ?_⟩, fun c below =>
        setIsFree_outside (Or.inl below)⟩
      · rw [size_setIsFree, header.size]
        exact exact.2
      · rw [next_setIsFree, header.next, exact.2]
      · rw [← exact.2]
        exact linked.2.congr fun c low => setIsFree_outside (by omega)
    · rw [if_neg exact, if_neg fun both => exact (fits.mp both)]
      by_cases large : b.free = true ∧ request + BLOCK_SIZE ≤ b.size
      · rw [if_pos large, if_pos (room.mpr large), toNat_sizeWithBlock (by omega),
          if_pos (by unfold InBlock; omega)]
        obtain ⟨first, second, same⟩ := splitBlock_spec header large.2 (by omega)
        refine ⟨_, rfl, ⟨first, second, ?_⟩, fun c below => same c (Or.inl below)⟩
        have address : a + BLOCK_SIZE + request + BLOCK_SIZE + (b.size - (request + BLOCK_SIZE)) =
            a + BLOCK_SIZE + b.size := by omega
        simp only [address]
        exact linked.2.congr fun c low => same c (Or.inr low)
      · rw [if_neg large, if_neg fun both => large (room.mp both)]
        cases rest with
        | nil =>
          rw [follow_spec header (Or.inr rfl)]
          rfl
        | cons d rest =>
          simp only [span] at inside
          rw [follow_spec header (Or.inl (by omega))]
          have later := ih (List.cons_ne_nil d rest) linked.2 (by simp only [span]; omega)
            (by simpa using enough)
          unfold Served at later
          simp only [List.isEmpty_cons, Bool.not_false, if_true]
          cases fit : firstFit BLOCK_SIZE request (a + BLOCK_SIZE + b.size) (d :: rest) with
          | none =>
            rw [fit] at later
            exact later
          | some found =>
            obtain ⟨target, blocks'⟩ := found
            rw [fit] at later
            obtain ⟨m', ran, linked', same⟩ := later
            refine ⟨m', ran, ⟨?_, linked'⟩, fun c below => same c (by omega)⟩
            rw [isEmpty_of_ne_nil (firstFit_ne_nil fit)]
            exact header.congr fun c _ high => same c (by omega)

/-! ### `myfree` -/

/-- **A block takes in the one behind it.** -/
theorem mergeBlocks_spec {b c : Block} {more more' : Bool} (header : Header place m a b more)
    (behind : Header place m (a + BLOCK_SIZE + b.size) c more')
    (small : b.size + c.size + BLOCK_SIZE < 2 ^ 16) :
    Header place (mergeBlocks m a (a + BLOCK_SIZE + b.size)) a
        ⟨b.size + c.size + BLOCK_SIZE, b.free⟩ more' ∧
      ∀ x, (x < a ∨ a + BLOCK_SIZE ≤ x) → mergeBlocks m a (a + BLOCK_SIZE + b.size) x = m x := by
  have sixteen : BLOCK_SIZE = 16 := rfl
  unfold mergeBlocks
  dsimp only
  have next₁ : ∀ value, next (setSize m a value) (a + BLOCK_SIZE + b.size) =
      next m (a + BLOCK_SIZE + b.size) := fun value =>
    next_congr fun x _ _ => setSize_outside (by omega)
  rw [next₁]
  refine ⟨⟨?_, ?_, ?_⟩, fun x outside => ?_⟩
  · rw [isFree_setNext, isFree_setSize]
    exact header.isFree
  · rw [size_setNext, size_setSize, BitVec.toNat_add, BitVec.toNat_add, header.size, behind.size,
      BitVec.toNat_ofNat]
    simp only
    omega
  · rw [next_setNext, behind.next]
    simp only
    rw [show a + BLOCK_SIZE + b.size + BLOCK_SIZE + c.size =
      a + BLOCK_SIZE + (b.size + c.size + BLOCK_SIZE) by omega]
  · rw [setNext_outside outside, setSize_outside outside]

/-- **A block is freed and merged with what is behind it.** -/
theorem freeBlock_spec {b : Block} {rest : List Block} (linked : Linked place m a (b :: rest))
    (inside : a + span BLOCK_SIZE (b :: rest) ≤ MAX_MEMORY) :
    ∃ m', freeBlock place m a = some m' ∧ Linked place m' a (absorb BLOCK_SIZE ⟨b.size, true⟩ rest) ∧
      ∀ x, (x < a ∨ a + BLOCK_SIZE ≤ x) → m' x = m x := by
  have sixteen : BLOCK_SIZE = 16 := rfl
  have max : MAX_MEMORY = 5000 := rfl
  have same : ∀ x, (x < a ∨ a + BLOCK_SIZE ≤ x) → setIsFree m a true x = m x := fun x outside =>
    setIsFree_outside outside
  have header : Header place (setIsFree m a true) a ⟨b.size, true⟩ (!rest.isEmpty) :=
    ⟨isFree_setIsFree m a true, by rw [size_setIsFree]; exact linked.1.size,
      by rw [next_setIsFree]; exact linked.1.next⟩
  have linked' : Linked place (setIsFree m a true) (a + BLOCK_SIZE + b.size) rest :=
    linked.2.congr fun x low => same x (Or.inr (by omega))
  simp only [span] at inside
  unfold freeBlock
  dsimp only
  cases rest with
  | nil =>
    rw [follow_spec header (Or.inr rfl)]
    exact ⟨_, rfl, ⟨header, trivial⟩, same⟩
  | cons c rest =>
    simp only [span] at inside
    rw [follow_spec header (Or.inl (by simp only; omega))]
    simp only [List.isEmpty_cons, Bool.not_false, if_true]
    rw [absorb_cons, linked'.1.isFree]
    by_cases isFree : c.free = true
    · rw [if_pos isFree, if_pos isFree]
      obtain ⟨merged, same'⟩ := mergeBlocks_spec header linked'.1 (by simp only; omega)
      refine ⟨_, rfl, ⟨merged, ?_⟩, fun x outside => (same' x outside).trans (same x outside)⟩
      have address : a + BLOCK_SIZE + (b.size + c.size + BLOCK_SIZE) =
          a + BLOCK_SIZE + b.size + BLOCK_SIZE + c.size := by omega
      simp only [address]
      exact linked'.2.congr fun x low => same' x (Or.inr (by omega))
    · rw [if_neg isFree, if_neg isFree]
      exact ⟨_, rfl, ⟨header, linked'⟩, same⟩

/-- **`freeAndMerge` behind another block**, at `q`. -/
theorem freeAndMergeLoop_behind {target : Nat} {blocks blocks' : List Block} {c : Block}
    {fuel q : Nat} (linked : Linked place m q (c :: blocks))
    (inside : q + span BLOCK_SIZE (c :: blocks) ≤ MAX_MEMORY) (enough : blocks.length ≤ fuel)
    (later : q ≠ target) (released : release BLOCK_SIZE target q (c :: blocks) = some blocks') :
    ∃ m', freeAndMergeLoop place target fuel (some q) (q + BLOCK_SIZE + c.size) m = some (true, m') ∧
      Linked place m' q blocks' ∧ ∀ x < q, m' x = m x := by
  have sixteen : BLOCK_SIZE = 16 := rfl
  have max : MAX_MEMORY = 5000 := rfl
  induction blocks generalizing fuel q c blocks' with
  | nil =>
    unfold release at released
    rw [if_neg later] at released
    cases released
  | cons b rest ih =>
    obtain ⟨fuel, rfl⟩ : ∃ less, fuel = less + 1 := ⟨fuel - 1, by simp at enough; omega⟩
    unfold release at released
    rw [if_neg later] at released
    obtain ⟨after, released', rfl⟩ := Option.map_eq_some_iff.mp released
    have inside' : q + BLOCK_SIZE + c.size + span BLOCK_SIZE (b :: rest) ≤ MAX_MEMORY := by
      simp only [span] at inside ⊢
      omega
    unfold freeAndMergeLoop
    by_cases here : q + BLOCK_SIZE + c.size = target
    · subst here
      rw [if_pos rfl, release_here released']
      obtain ⟨m₁, ran, linked₁, same₁⟩ := freeBlock_spec linked.2 inside'
      have left : Header place m₁ q c true :=
        linked.1.congr fun x _ _ => same₁ x (Or.inl (by omega))
      obtain ⟨size, rest', shape⟩ := absorb_eq_cons ⟨b.size, true⟩ rest
      have extent := absorb_span (h := BLOCK_SIZE) ⟨b.size, true⟩ rest
      rw [shape] at linked₁ extent ⊢
      simp only [span] at extent inside'
      rw [ran, Option.map_some]
      refine ⟨_, rfl, ?_⟩
      unfold mergePrevious
      dsimp only
      rw [left.isFree]
      by_cases isFree : c.free = true
      · rw [if_pos isFree, if_pos ⟨rfl, isFree⟩, absorb_cons, if_pos rfl]
        obtain ⟨merged, same₂⟩ := mergeBlocks_spec left linked₁.1 (by simp only; omega)
        refine ⟨⟨merged, ?_⟩, fun x below => ?_⟩
        · have address : q + BLOCK_SIZE + (c.size + size + BLOCK_SIZE) =
              q + BLOCK_SIZE + c.size + BLOCK_SIZE + size := by omega
          simp only [address]
          exact linked₁.2.congr fun x low => same₂ x (Or.inr (by omega))
        · rw [same₂ x (Or.inl below)]
          exact same₁ x (Or.inl (by omega))
      · rw [if_neg isFree, if_neg fun both => isFree both.2]
        exact ⟨⟨left, linked₁⟩, fun x below => same₁ x (Or.inl (by omega))⟩
    · rw [if_neg here, if_neg fun both => here both.1]
      cases rest with
      | nil =>
        unfold release at released'
        rw [if_neg here] at released'
        cases released'
      | cons d rest =>
        have room := inside'
        simp only [span] at room
        rw [follow_spec linked.2.1 (Or.inl (by omega))]
        simp only [List.isEmpty_cons, Bool.not_false, if_true]
        obtain ⟨m', ran, linked', same⟩ :=
          ih linked.2 inside' (by simpa using enough) here released'
        refine ⟨m', ran, ⟨?_, linked'⟩, fun x below => same x (by omega)⟩
        rw [isEmpty_of_ne_nil (release_ne_nil (by decide) released')]
        exact linked.1.congr fun x _ high => same x (by omega)

/-- **`freeAndMerge` releases the block.** -/
theorem freeAndMergeLoop_spec {target : Nat} {blocks blocks' : List Block} {fuel : Nat}
    (linked : Linked place m a blocks) (inside : a + span BLOCK_SIZE blocks ≤ MAX_MEMORY)
    (enough : blocks.length ≤ fuel) (released : release BLOCK_SIZE target a blocks = some blocks') :
    ∃ m', freeAndMergeLoop place target fuel none a m = some (true, m') ∧
      Linked place m' a blocks' := by
  cases blocks with
  | nil => cases released
  | cons b rest =>
    obtain ⟨fuel, rfl⟩ : ∃ less, fuel = less + 1 := ⟨fuel - 1, by simp at enough; omega⟩
    unfold freeAndMergeLoop
    by_cases here : a = target
    · subst here
      rw [if_pos rfl, release_here released]
      obtain ⟨m', ran, linked', _⟩ := freeBlock_spec linked inside
      rw [ran, Option.map_some]
      exact ⟨m', rfl, linked'⟩
    · rw [if_neg here]
      cases rest with
      | nil =>
        unfold release at released
        rw [if_neg here] at released
        cases released
      | cons d rest =>
        have room := inside
        simp only [span] at room
        rw [follow_spec linked.1 (Or.inl (by omega))]
        simp only [List.isEmpty_cons, Bool.not_false, if_true]
        obtain ⟨m', ran, linked', _⟩ :=
          freeAndMergeLoop_behind linked inside (by simpa using enough) here released
        exact ⟨m', ran, linked'⟩

end OS2017.MallocStuff
