/-
**Words in byte memories, and programs that load and store them.**

A memory is a function from addresses to bytes; `readWord` and `writeWord` are the little-endian
32-bit accesses, at any alignment.

A program is a `StateT σ Option`: it may change the state at any access (a page fault moves pages),
and it has no result where the machine stops. `Returns prog s post` says that it has one, with
`post`. A `Store` gives the two accesses of a machine; it is `Backed` by a view when, on good
states below an extent, a load reads the view and a store writes it. What is proved about a program
from `Backed` alone holds on every such machine.
-/

import Mathlib.Logic.Function.Basic
import Mathlib.Tactic.SplitIfs

namespace OS2017.Bytes

/-- A byte memory. -/
abbrev Memory := Nat → BitVec 8

/-! ### Words -/

/-- The 32-bit word at `a`, lowest byte first. -/
def readWord (m : Memory) (a : Nat) : BitVec 32 := m (a + 3) ++ m (a + 2) ++ m (a + 1) ++ m a

/-- Store a 32-bit word at `a`. -/
def writeWord (m : Memory) (a : Nat) (w : BitVec 32) : Memory := fun b =>
  if b = a then w.extractLsb' 0 8
  else if b = a + 1 then w.extractLsb' 8 8
  else if b = a + 2 then w.extractLsb' 16 8
  else if b = a + 3 then w.extractLsb' 24 8
  else m b

/-- A word is its two halves. -/
theorem append_halves (k : Nat) (w : BitVec (k + k)) :
    (w.extractLsb' k k ++ w.extractLsb' 0 k : BitVec (k + k)) = w := by
  refine BitVec.eq_of_getLsbD_eq fun i bound => ?_
  rw [BitVec.getLsbD_append]
  simp only [BitVec.getLsbD_extractLsb']
  split
  · rename_i first
    simp [first]
  · simp [show k + (i - k) = i by omega, show i - k < k by omega]

/-- A word is its four bytes. -/
theorem append_bytes (w : BitVec 32) :
    (w.extractLsb' 24 8 ++ w.extractLsb' 16 8 ++ w.extractLsb' 8 8 ++ w.extractLsb' 0 8 :
      BitVec 32) = w := by
  refine BitVec.eq_of_getLsbD_eq fun i bound => ?_
  rw [BitVec.getLsbD_append, BitVec.getLsbD_append, BitVec.getLsbD_append]
  simp only [BitVec.getLsbD_extractLsb']
  split
  · rename_i first
    simp [first]
  · split
    · rename_i second
      simp [second, show 8 + (i - 8) = i by omega]
    · split
      · rename_i third
        simp [third, show 16 + (i - 8 - 8) = i by omega]
      · simp [show 24 + (i - 8 - 8 - 8) = i by omega, show i - 8 - 8 - 8 < 8 by omega]

theorem readWord_writeWord (m : Memory) (a : Nat) (w : BitVec 32) :
    readWord (writeWord m a w) a = w := by
  unfold readWord writeWord
  simp only [if_true, show ¬ a + 3 = a by omega, show ¬ a + 2 = a by omega,
    show ¬ a + 1 = a by omega, show ¬ a + 3 = a + 1 by omega, show ¬ a + 3 = a + 2 by omega,
    show ¬ a + 2 = a + 1 by omega, if_false]
  exact append_bytes w

/-- A store changes its four bytes only. -/
theorem writeWord_of_outside {m : Memory} {a b : Nat} {w : BitVec 32} (outside : b < a ∨ a + 4 ≤ b) :
    writeWord m a w b = m b := by
  unfold writeWord
  rw [if_neg (by omega), if_neg (by omega), if_neg (by omega), if_neg (by omega)]

/-- A word depends on its four bytes only. -/
theorem readWord_congr {m m' : Memory} {a : Nat} (same : ∀ b, a ≤ b → b < a + 4 → m' b = m b) :
    readWord m' a = readWord m a := by
  unfold readWord
  rw [same (a + 3) (by omega) (by omega), same (a + 2) (by omega) (by omega),
    same (a + 1) (by omega) (by omega), same a (by omega) (by omega)]

theorem readWord_shift {m m' : Memory} {k : Nat} (same : ∀ c, m' (k + c) = m c) (a : Nat) :
    readWord m' (k + a) = readWord m a := by
  unfold readWord
  rw [same a, ← same (a + 1), ← same (a + 2), ← same (a + 3)]
  rfl

theorem readWord_writeWord_of_apart {m : Memory} {a b : Nat} {w : BitVec 32}
    (apart : b + 4 ≤ a ∨ a + 4 ≤ b) : readWord (writeWord m a w) b = readWord m b :=
  readWord_congr fun c _ _ => writeWord_of_outside (by omega)

/-- The second of two stores to one place stays. -/
theorem writeWord_writeWord (m : Memory) (a : Nat) (w w' : BitVec 32) :
    writeWord (writeWord m a w) a w' = writeWord m a w' := by
  funext b
  unfold writeWord
  split_ifs <;> rfl

/-- A store is four byte stores. -/
theorem writeWord_eq_update (m : Memory) (a : Nat) (w : BitVec 32) :
    writeWord m a w = Function.update (Function.update (Function.update (Function.update m (a + 3)
      (w.extractLsb' 24 8)) (a + 2) (w.extractLsb' 16 8)) (a + 1) (w.extractLsb' 8 8)) a
      (w.extractLsb' 0 8) := by
  funext b
  unfold writeWord
  simp only [Function.update_apply]

/-! ### Programs -/

variable {σ α β : Type}

/-- **The program has a result, and it meets `post`.** -/
def Returns (prog : StateT σ Option α) (s : σ) (post : α → σ → Prop) : Prop :=
  ∃ a s', prog s = some (a, s') ∧ post a s'

theorem Returns.pure {a : α} {s : σ} {post : α → σ → Prop} (holds : post a s) :
    Returns (Pure.pure a) s post := ⟨a, s, rfl, holds⟩

/-- **Sequencing.** -/
theorem Returns.bind {prog : StateT σ Option α} {rest : α → StateT σ Option β} {s : σ}
    {post : β → σ → Prop} (first : Returns prog s fun a s' => Returns (rest a) s' post) :
    Returns (prog >>= rest) s post := by
  obtain ⟨a, s', ran, b, s'', ran', holds⟩ := first
  refine ⟨b, s'', ?_, holds⟩
  show (prog s).bind (fun p => rest p.1 p.2) = some (b, s'')
  rw [ran]
  exact ran'

theorem Returns.mono {prog : StateT σ Option α} {s : σ} {post post' : α → σ → Prop}
    (returns : Returns prog s post) (weaken : ∀ a s', post a s' → post' a s') :
    Returns prog s post' := by
  obtain ⟨a, s', ran, holds⟩ := returns
  exact ⟨a, s', ran, weaken a s' holds⟩

/-- What a program returns is what it returns. -/
theorem Returns.of_run {prog : StateT σ Option α} {s s' : σ} {a : α} {post : α → σ → Prop}
    (returns : Returns prog s post) (ran : prog s = some (a, s')) : post a s' := by
  obtain ⟨b, s'', ran', holds⟩ := returns
  rw [ran] at ran'
  cases ran'
  exact holds

/-- Read something off the state. -/
def look (f : σ → α) : StateT σ Option α := fun s => some (f s, s)

/-- Change the state. -/
def change (f : σ → σ) : StateT σ Option Unit := fun s => some ((), f s)

/-- The machine stops here. -/
def stop : StateT σ Option α := fun _ => none

theorem look_run (f : σ → α) (rest : α → StateT σ Option β) (s : σ) :
    (look f >>= rest) s = rest (f s) s := rfl

theorem change_run (f : σ → σ) (rest : Unit → StateT σ Option β) (s : σ) :
    (change f >>= rest) s = rest () (f s) := rfl

theorem Returns.look_bind {f : σ → α} {rest : α → StateT σ Option β} {s : σ} {post : β → σ → Prop}
    (next : Returns (rest (f s)) s post) : Returns (look f >>= rest) s post :=
  Returns.bind ⟨f s, s, rfl, next⟩

theorem Returns.change_bind {f : σ → σ} {rest : Unit → StateT σ Option β} {s : σ}
    {post : β → σ → Prop} (next : Returns (rest ()) (f s) post) :
    Returns (change f >>= rest) s post :=
  Returns.bind ⟨(), f s, rfl, next⟩

/-- **Every run of the program relates the states before and after it.** -/
def Keeps (related : σ → σ → Prop) (prog : StateT σ Option α) : Prop :=
  ∀ s a s', prog s = some (a, s') → related s s'

/-- A relation that runs can be composed by. -/
structure Composes (related : σ → σ → Prop) : Prop where
  refl : ∀ s, related s s
  trans : ∀ {s s' s''}, related s s' → related s' s'' → related s s''

section Keeps

variable {related : σ → σ → Prop}

theorem Keeps.pure (composes : Composes related) (a : α) :
    Keeps related (Pure.pure a : StateT σ Option α) := by
  rintro s _ _ ⟨⟩
  exact composes.refl s

theorem Keeps.bind (composes : Composes related) {prog : StateT σ Option α}
    {rest : α → StateT σ Option β} (first : Keeps related prog)
    (next : ∀ a, Keeps related (rest a)) : Keeps related (prog >>= rest) := by
  intro s b s'' ran
  obtain ⟨⟨a, s'⟩, ran', ran''⟩ := Option.bind_eq_some_iff.mp ran
  exact composes.trans (first s a s' ran') (next a s' b s'' ran'')

theorem Keeps.look (composes : Composes related) (f : σ → α) : Keeps related (look f) := by
  rintro s _ _ ⟨⟩
  exact composes.refl s

theorem Keeps.change {f : σ → σ} (step : ∀ s, related s (f s)) : Keeps related (change f) := by
  rintro s _ _ ⟨⟩
  exact step s

theorem Keeps.stop : Keeps related (stop : StateT σ Option α) := by
  rintro s _ _ ⟨⟩

theorem Keeps.mono {weaker : σ → σ → Prop} {prog : StateT σ Option α} (keeps : Keeps related prog)
    (weaken : ∀ {s s'}, related s s' → weaker s s') : Keeps weaker prog :=
  fun s a s' ran => weaken (keeps s a s' ran)

end Keeps

/-- A run of two programs in sequence. -/
theorem run_bind {prog : StateT σ Option α} {rest : α → StateT σ Option β} {s s'' : σ} {b : β}
    (ran : (prog >>= rest) s = some (b, s'')) :
    ∃ a s', prog s = some (a, s') ∧ rest a s' = some (b, s'') := by
  obtain ⟨⟨a, s'⟩, ran', ran''⟩ := Option.bind_eq_some_iff.mp ran
  exact ⟨a, s', ran', ran''⟩

/-- A program whose run is known, then the rest. -/
theorem then_run {prog : StateT σ Option α} {a : α} {s s' : σ} (ran : prog s = some (a, s'))
    (rest : α → StateT σ Option β) : (prog >>= rest) s = rest a s' := by
  show (prog s).bind (fun p => rest p.1 p.2) = _
  rw [ran]
  rfl

/-! ### Loads and stores -/

/-- The word accesses of a machine. -/
structure Store (σ : Type) where
  load : Nat → StateT σ Option (BitVec 32)
  store : Nat → BitVec 32 → StateT σ Option Unit

/-- Replace the word at `a`. -/
def Store.modify (mem : Store σ) (a : Nat) (change : BitVec 32 → BitVec 32) :
    StateT σ Option Unit := do
  let w ← mem.load a
  mem.store a (change w)

theorem Store.keeps_modify {mem : Store σ} {related : σ → σ → Prop} (composes : Composes related)
    {a : Nat} (load : Keeps related (mem.load a)) (store : ∀ w, Keeps related (mem.store a w))
    (change : BitVec 32 → BitVec 32) : Keeps related (mem.modify a change) :=
  Keeps.bind composes load fun w => store (change w)

/-- **The view is what the accesses read and write**, on good states, below the extent. -/
structure Backed (mem : Store σ) (good : σ → Prop) (view : σ → Memory) (extent : Nat) : Prop where
  load : ∀ s a, good s → a + 4 ≤ extent →
    Returns (mem.load a) s fun w s' => w = readWord (view s) a ∧ good s' ∧ view s' = view s
  store : ∀ s a w, good s → a + 4 ≤ extent →
    Returns (mem.store a w) s fun _ s' => good s' ∧ view s' = writeWord (view s) a w

section Backed

variable {mem : Store σ} {good : σ → Prop} {view : σ → Memory} {extent : Nat}

/-- A good state with the view `m`. -/
def Shows (good : σ → Prop) (view : σ → Memory) (m : Memory) (s : σ) : Prop := good s ∧ view s = m

/-- **A load, then the rest.** -/
theorem Backed.load_bind (backed : Backed mem good view extent) {a : Nat} {s : σ} {m : Memory}
    {rest : BitVec 32 → StateT σ Option β} {post : β → σ → Prop} (shows : Shows good view m s)
    (inside : a + 4 ≤ extent)
    (next : ∀ s', Shows good view m s' → Returns (rest (readWord m a)) s' post) :
    Returns (mem.load a >>= rest) s post := by
  refine Returns.bind ((backed.load s a shows.1 inside).mono ?_)
  rintro w s' ⟨rfl, good', same⟩
  rw [shows.2]
  exact next s' ⟨good', same.trans shows.2⟩

/-- A replaced word, at the end of a program. -/
theorem Backed.modify (backed : Backed mem good view extent) {a : Nat} {s : σ} {m : Memory}
    {change : BitVec 32 → BitVec 32} (shows : Shows good view m s) (inside : a + 4 ≤ extent) :
    Returns (mem.modify a change) s fun _ =>
      Shows good view (writeWord m a (change (readWord m a))) := by
  refine backed.load_bind shows inside fun s' shows' => ?_
  refine (backed.store s' a _ shows'.1 inside).mono ?_
  rintro _ s'' ⟨good'', same⟩
  exact ⟨good'', by rw [same, shows'.2]⟩

/-- **A replaced word, then the rest.** -/
theorem Backed.modify_bind (backed : Backed mem good view extent) {a : Nat} {s : σ} {m : Memory}
    {change : BitVec 32 → BitVec 32} {rest : Unit → StateT σ Option β} {post : β → σ → Prop}
    (shows : Shows good view m s) (inside : a + 4 ≤ extent)
    (next : ∀ s', Shows good view (writeWord m a (change (readWord m a))) s' →
      Returns (rest ()) s' post) :
    Returns (mem.modify a change >>= rest) s post :=
  Returns.bind ((backed.modify shows inside).mono fun _ s' shows' => next s' shows')

/-- The word just stored, replaced again. -/
theorem Backed.modify_again (backed : Backed mem good view extent) {a : Nat} {s : σ} {m : Memory}
    {w : BitVec 32} {change : BitVec 32 → BitVec 32} (shows : Shows good view (writeWord m a w) s)
    (inside : a + 4 ≤ extent) :
    Returns (mem.modify a change) s fun _ => Shows good view (writeWord m a (change w)) := by
  refine (backed.modify shows inside).mono fun _ s' shows' => ?_
  rw [readWord_writeWord, writeWord_writeWord] at shows'
  exact shows'

/-- The word just stored, replaced again, then the rest. -/
theorem Backed.modify_again_bind (backed : Backed mem good view extent) {a : Nat} {s : σ}
    {m : Memory} {w : BitVec 32} {change : BitVec 32 → BitVec 32} {rest : Unit → StateT σ Option β}
    {post : β → σ → Prop} (shows : Shows good view (writeWord m a w) s) (inside : a + 4 ≤ extent)
    (next : ∀ s', Shows good view (writeWord m a (change w)) s' → Returns (rest ()) s' post) :
    Returns (mem.modify a change >>= rest) s post :=
  Returns.bind ((backed.modify_again shows inside).mono fun _ s' shows' => next s' shows')

/-- A load apart from the word just stored, then the rest. -/
theorem Backed.load_apart_bind (backed : Backed mem good view extent) {a b : Nat} {s : σ}
    {m : Memory} {w : BitVec 32} {rest : BitVec 32 → StateT σ Option β} {post : β → σ → Prop}
    (shows : Shows good view (writeWord m a w) s) (inside : b + 4 ≤ extent)
    (apart : b + 4 ≤ a ∨ a + 4 ≤ b)
    (next : ∀ s', Shows good view (writeWord m a w) s' → Returns (rest (readWord m b)) s' post) :
    Returns (mem.load b >>= rest) s post := by
  refine backed.load_bind shows inside fun s' shows' => ?_
  rw [readWord_writeWord_of_apart apart]
  exact next s' shows'

end Backed

end OS2017.Bytes
