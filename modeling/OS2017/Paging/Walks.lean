/-
**The tables behind a search.**

A call of `myallocate` brings pages to their frames before it makes any: `alignPages` those in the slots
of their numbers (`fetchedSlots`), and the faults of the search those with the headers it reads (`bring`).
The frames such pages leave are free where the frames they come to were. `walked` has the tables as they
are behind a search that has gone through all blocks (`Alike`, `firstFitLoop_alike`).
-/

import OS2017.Paging.Copies

namespace OS2017.Paging

open OS2017.Bytes OS2017.Heap OS2017.FirstFit OS2017.Run

/-! ### The tables -/

/-- **The page `k` of the running thread is brought to its frame**, if that is protected. -/
def bring (m : Machine) (k : Nat) : Machine :=
  if m.accessible k then m
  else match located m k with
    | none => m
    | some place =>
      { m with
        pages := fun i => m.entry (Equiv.swap (.frame k) place (.frame i))
        diskPages := fun i => m.entry (Equiv.swap (.frame k) place (.slot i))
        accessible := Function.update (match place with
          | .frame i => Function.update m.accessible i false
          | .slot _ => m.accessible) k true }

/-- The pages in the slots of their numbers are brought to their frames. -/
def fetchedSlots (m : Machine) : Machine :=
  { m with
    pages := fun i => if i < DISK_PAGES ∧ swappedAt m i then m.diskPages i else m.pages i
    diskPages := fun i => if i < DISK_PAGES ∧ swappedAt m i then m.pages i else m.diskPages i
    accessible := fun i => m.accessible i || decide (i < DISK_PAGES ∧ swappedAt m i) }

/-- **A first page is made**: frame `0` is not the thread's, and `alignPages` does not make it so. -/
def StartsPage (m : Machine) : Prop :=
  (getPageThID (m.pages 0)).toNat ≠ m.thread ∧ ¬ Labels (m.diskPages 0) m.thread 0

instance (m : Machine) : Decidable (StartsPage m) := by
  unfold StartsPage
  infer_instance

/-- A page more, in frame `0`. -/
def withPage (m : Machine) : Machine :=
  { m with
    pages := Function.update m.pages 0 (newEntry (m.pages 0) m.thread (m.pageNum m.thread))
    pageNum := Function.update m.pageNum m.thread (m.pageNum m.thread + 1) }

/-- The tables at the start of the search, if the first page takes a free frame. -/
def entered (m : Machine) : Machine :=
  if StartsPage m then withPage (fetchedSlots m) else fetchedSlots m

/-- The pages of a header. -/
def headerPages (a : Nat) : List Nat := [a / PAGESIZE, (a + 3) / PAGESIZE]

/-- **The tables once all headers of the heap have been read.** -/
def walked (m : Machine) : Machine :=
  ((headers 0 (startBlocks m)).flatMap headerPages).foldl bring (entered m)

/-! ### Tables that are alike -/

/-- **The same tables.** More of the thread's own pages may be open. -/
structure Alike (m s : Machine) : Prop where
  entry : m.entry = s.entry
  thread : m.thread = s.thread
  pageNum : m.pageNum = s.pageNum
  opens : ∀ i, s.accessible i = true → m.accessible i = true
  more : ∀ i, m.accessible i = true → s.accessible i = true ∨ Labels (m.pages i) m.thread i

section Alike

variable {live : Nat → Bool} {threadNum : Nat} {m m' s : Machine}

/-- The free frames are the same. -/
theorem Alike.sameFree (alike : Alike m s) : SameFree s m := by
  have pages : m.pages = s.pages := funext fun i => congrFun alike.entry (.frame i)
  refine sameFree_of_isFree alike.thread alike.pageNum (fun f _ => by rw [pages]) fun f _ isFree => ?_
  cases reachable : m.accessible f with
  | true =>
    rcases alike.more f reachable with before | label
    · exact before.symm
    · rw [← pages, label.used] at isFree
      cases isFree
  | false =>
    cases before : s.accessible f with
    | true =>
      rw [alike.opens f before] at reachable
      cases reachable
    | false => rfl

theorem Alike.located (alike : Alike m s) (k : Nat) : located m k = located s k := by
  have pages : m.pages = s.pages := funext fun i => congrFun alike.entry (.frame i)
  have slots : m.diskPages = s.diskPages := funext fun i => congrFun alike.entry (.slot i)
  unfold Paging.located frameOf slotOf
  rw [pages, slots, alike.thread]

/-- What a fault protects and opens. -/
theorem fetched_accessible (accessible : Nat → Bool) (k : Nat) (place : Place) (i : Nat) :
    Function.update (match place with
      | .frame j => Function.update accessible j false
      | .slot _ => accessible) k true i
      = if i = k then true else if place = .frame i then false else accessible i := by
  by_cases same : i = k
  · rw [if_pos same, same, Function.update_self]
  · rw [if_neg same, Function.update_of_ne same]
    cases place with
    | slot d => rw [if_neg (by simp)]
    | frame j =>
      by_cases there : i = j
      · rw [if_pos (by rw [there]), there]
        exact Function.update_self _ _ _
      · rw [if_neg (by simp [Ne.symm there])]
        exact Function.update_of_ne there _ _

/-- The tables of a page that is brought to its frame. -/
theorem bring_of_located {k : Nat} {place : Place} (closed : s.accessible k = false)
    (found : Paging.located s k = some place) :
    (bring s k).entry = s.entry ∘ Equiv.swap (.frame k) place ∧
      (bring s k).thread = s.thread ∧ (bring s k).pageNum = s.pageNum ∧ ∀ i, (bring s k).accessible i
        = if i = k then true else if place = .frame i then false else s.accessible i := by
  unfold bring
  rw [closed, if_neg (by decide), found]
  refine ⟨funext fun other => ?_, rfl, rfl, fetched_accessible s.accessible k place⟩
  cases other <;> rfl

/-- An access to an open page of its own brings nothing. -/
theorem Alike.bring_own (alike : Alike m s) (labelled : Labelled live threadNum m.pageNum m.entry)
    (alive : live m.thread = true) {k : Nat} (inside : k < USER_PAGES)
    (reachable : m.accessible k = true) : Alike m (bring s k) := by
  cases before : s.accessible k with
  | true =>
    have still : bring s k = s := if_pos before
    rw [still]
    exact alike
  | false =>
    have label := (alike.more k reachable).resolve_left (by rw [before]; decide)
    have found : Paging.located s k = some (.frame k) := by
      rw [← alike.located]
      exact (located_iff labelled alive).mpr ⟨inside, label⟩
    obtain ⟨entry, thread, pageNum, accessible⟩ := bring_of_located before found
    rw [Equiv.swap_self] at entry
    refine ⟨alike.entry.trans entry.symm, alike.thread.trans thread.symm,
      alike.pageNum.trans pageNum.symm, fun i opened => ?_, fun i opened => ?_⟩
    · by_cases same : i = k
      · exact same ▸ reachable
      · rw [accessible, if_neg same, if_neg (by simp [Ne.symm same])] at opened
        exact alike.opens i opened
    · by_cases same : i = k
      · exact Or.inr (same ▸ label)
      · rw [accessible, if_neg same, if_neg (by simp [Ne.symm same])]
        exact alike.more i opened

/-- **An access brings the page.** -/
theorem Alike.touch (alike : Alike m s) (labelled : Labelled live threadNum m.pageNum m.entry)
    (alive : live m.thread = true) {k : Nat} (ran : touch k m = some ((), m')) :
    Alike m' (bring s k) := by
  obtain ⟨inside, ⟨reachable, rfl⟩ | ⟨closed, place, found, fetched⟩⟩ := touch_run ran
  · exact alike.bring_own labelled alive inside reachable
  · have before : s.accessible k = false := by
      cases reachable : s.accessible k with
      | false => rfl
      | true => exact (alike.opens k reachable).symm.trans closed
    obtain ⟨entry, thread, pageNum, accessible⟩ :=
      bring_of_located before ((alike.located k).symm.trans found)
    have accessible' : ∀ i, m'.accessible i
        = if i = k then true else if place = .frame i then false else m.accessible i := by
      intro i
      rw [fetched.accessible]
      exact fetched_accessible m.accessible k place i
    refine ⟨?_, fetched.thread.trans (alike.thread.trans thread.symm),
      fetched.pageNum.trans (alike.pageNum.trans pageNum.symm), fun i opened => ?_, fun i opened => ?_⟩
    · rw [fetched.entry, entry, alike.entry]
    · rw [accessible] at opened
      rw [accessible']
      by_cases same : i = k
      · rw [if_pos same]
      · rw [if_neg same] at opened ⊢
        by_cases there : place = .frame i
        · rw [if_pos there] at opened
          cases opened
        · rw [if_neg there] at opened ⊢
          exact alike.opens i opened
    · rw [accessible'] at opened
      rw [accessible]
      by_cases same : i = k
      · exact Or.inl (if_pos same)
      · rw [if_neg same] at opened ⊢
        by_cases there : place = .frame i
        · rw [if_pos there] at opened
          cases opened
        · rw [if_neg there] at opened ⊢
          have pages : m'.pages i = m.pages i := by
            show m'.entry (.frame i) = m.entry (.frame i)
            rw [fetched.entry, Function.comp_apply,
              Equiv.swap_apply_of_ne_of_ne (by simp [same]) (Ne.symm there)]
          rw [pages, fetched.thread]
          exact alike.more i opened

/-! ### The search -/

section Search

variable {t : Nat} {pageNum : Nat → Nat} {others : Nat → Memory} {reserve : Prop}

/-- **A load brings the pages of its word**, and leaves them open. -/
theorem Alike.load (alike : Alike m s) (sheltered : Sheltered live threadNum m) {a : Nat}
    (first : a / PAGESIZE < m.pageNum m.thread) (last : (a + 3) / PAGESIZE < m.pageNum m.thread)
    {word : BitVec 32} (ran : paged.load a m = some (word, m')) :
    Alike m' ((headerPages a).foldl bring s) ∧
      m'.accessible (a / PAGESIZE) = true ∧ m'.accessible ((a + 3) / PAGESIZE) = true := by
  obtain ⟨_, m'', both, rest⟩ := run_bind ran
  cases rest
  obtain ⟨_, m₁, one, rest⟩ := run_bind both
  obtain ⟨_, m₂, two, three⟩ := run_bind rest
  obtain ⟨settled₁, open₁⟩ := (touch_settles sheltered first).of_run one
  have owned : (a + 3) / PAGESIZE < m₁.pageNum m₁.thread := by
    rw [settled₁.pageNum, settled₁.thread]
    exact last
  obtain ⟨settled₂, open₂⟩ := (touch_settles settled₁.sheltered owned).of_run two
  have again := (settled₂.stays _ open₁).reachable
  -- the first page is still open
  obtain ⟨_, ⟨_, rfl⟩ | ⟨closed, _⟩⟩ := touch_run three
  · have alike₁ := alike.touch sheltered.labelled sheltered.running one
    exact ⟨alike₁.touch settled₁.sheltered.labelled settled₁.sheltered.running two, again,
      open₂.reachable⟩
  · rw [again] at closed
    cases closed

/-- A load from open pages changes nothing. -/
theorem load_open {a : Nat} {word : BitVec 32} (first : m.accessible (a / PAGESIZE) = true)
    (last : m.accessible ((a + 3) / PAGESIZE) = true) (ran : paged.load a m = some (word, m')) :
    m' = m := by
  obtain ⟨_, m'', both, rest⟩ := run_bind ran
  cases rest
  obtain ⟨_, m₁, one, rest⟩ := run_bind both
  obtain ⟨_, m₂, two, three⟩ := run_bind rest
  obtain ⟨inside, ⟨_, rfl⟩ | ⟨closed, _⟩⟩ := touch_run one
  · obtain ⟨inside', ⟨_, rfl⟩ | ⟨closed, _⟩⟩ := touch_run two
    · rw [touch_open inside first] at three
      cases three
      rfl
    · rw [last] at closed
      cases closed
  · rw [first] at closed
    cases closed

/-- **A search that goes through all blocks** brings the pages of their headers. -/
theorem firstFitLoop_alike {blocks : List Block} {size fuel a prev : Nat}
    (serving : Serving live threadNum t pageNum others reserve m) (nonempty : blocks ≠ [])
    (chain : Chain (m.view t) false a blocks) (inside : a + extentOf blocks ≤ pageNum t * PAGESIZE)
    (full : firstFit BLOCK_SIZE size a blocks = none)
    (ran : firstFitLoop paged size (sizeWithBlock size) fuel a m = some (.exhausted prev, m'))
    (alike : Alike m s) : Alike m' (((headers a blocks).flatMap headerPages).foldl bring s) := by
  induction blocks generalizing fuel a m s with
  | nil => exact absurd rfl nonempty
  | cons b rest ih =>
    have four : BLOCK_SIZE = 4 := rfl
    have backed := paged_backed live threadNum t pageNum others reserve
    obtain _ | fuel := fuel
    · cases ran
    have header := chain.1
    have isF : getBlockIsF (readWord (m.view t) a) = 1 ↔ b.free = true := by
      rw [header.isF, flag_eq_one]
    simp only [extentOf, span] at inside ih
    rw [firstFitLoop] at ran
    obtain ⟨word, m₁, loaded, ran⟩ := run_bind ran
    obtain ⟨value, serving₁, shown⟩ := (backed.load m a serving (by omega)).of_run loaded
    have view₁ : m₁.view t = m.view t := shown
    have owned : ∀ c, c < pageNum t * PAGESIZE → c / PAGESIZE < m.pageNum m.thread := by
      intro c below
      rw [serving.pageNum, serving.thread]
      exact Nat.div_lt_of_lt_mul (by rwa [Nat.mul_comm] at below)
    obtain ⟨alike₁, first, last⟩ := alike.load serving.sheltered (owned a (by omega))
      (owned (a + 3) (by omega)) loaded
    subst value
    rw [firstFit] at full
    by_cases whole : b.free = true ∧ b.size = size
    · rw [if_pos whole] at full
      cases full
    by_cases room : b.free = true ∧ size + BLOCK_SIZE ≤ b.size
    · rw [if_neg whole, if_pos room] at full
      cases full
    rw [if_neg whole, if_neg room, Option.map_eq_none_iff] at full
    rw [if_neg fun both => whole ⟨isF.mp both.1, header.size.symm.trans both.2⟩,
      if_neg fun all => room ⟨isF.mp all.1, (room_iff header).mp all.2⟩] at ran
    obtain ⟨next, m₂, followed, ran⟩ := run_bind ran
    rw [getNextBlock] at followed
    obtain ⟨word', m₂', loaded', followed⟩ := run_bind followed
    have value' := ((backed.load m₁ a serving₁ (by omega)).of_run loaded').1
    cases load_open first last loaded'
    rw [value', show readWord (m₁.view t) a = readWord (m.view t) a by rw [view₁], header.isNext,
      header.size] at followed
    cases rest with
    | nil =>
      cases followed
      cases ran
      exact alike₁
    | cons d rest =>
      cases followed
      have later : a + b.size + BLOCK_SIZE = a + BLOCK_SIZE + b.size := Nat.add_right_comm _ _ _
      dsimp only at ran
      rw [later] at ran
      have chain₁ : Chain (m₁.view t) false (a + BLOCK_SIZE + b.size) (d :: rest) := by
        rw [view₁]
        exact chain.2
      rw [headers, List.flatMap_cons, List.foldl_append]
      exact ih serving₁ (by simp) chain₁ (by omega) full ran alike₁

end Search

/-! ### The start of the search -/

variable {m₁ m₂ : Machine}

/-- **`alignPages` fetches from the slots.** -/
theorem alignPages_alike (labelled : Labelled live threadNum m.pageNum m.entry)
    (alive : live m.thread = true) {timer : Timer}
    (ran : alignPages { m with timer := timer } = some ((), m₁)) : Alike m₁ (fetchedSlots m) := by
  obtain ⟨slots, members, fetches⟩ := (alignPages_run (alignPages_inside ran)).of_run ran
  have permutes := keeps_alignPages _ _ _ ran
  have fetched : ∀ i, (i ∈ slots ∧ swappedAt (opened { m with timer := timer } (List.range USER_PAGES)) i) ↔
      (i < DISK_PAGES ∧ swappedAt m i) := fun i => and_congr_left fun _ => members i
  have entry : m₁.entry = (fetchedSlots m).entry := by
    funext place
    rw [fetches.entry]
    cases place with
    | frame i =>
      by_cases here : i < DISK_PAGES ∧ swappedAt m i
      · rw [show homeward _ slots (.frame i) = .slot i from if_pos ((fetched i).mpr here)]
        exact (if_pos here).symm
      · rw [show homeward _ slots (.frame i) = .frame i from if_neg fun both => here ((fetched i).mp both)]
        exact (if_neg here).symm
    | slot i =>
      by_cases here : i < DISK_PAGES ∧ swappedAt m i
      · rw [show homeward _ slots (.slot i) = .frame i from if_pos ((fetched i).mpr here)]
        exact (if_pos here).symm
      · rw [show homeward _ slots (.slot i) = .slot i from if_neg fun both => here ((fetched i).mp both)]
        exact (if_neg here).symm
  have accessible : ∀ i, m₁.accessible i = ((m.accessible i ||
      (decide (i ∈ List.range USER_PAGES) && decide (atHome m i))) ||
        decide (i < DISK_PAGES ∧ swappedAt m i)) := by
    intro i
    rw [fetches.accessible, decide_eq_decide.mpr (fetched i)]
    rfl
  refine ⟨entry, fetches.thread, permutes.pageNum, fun i reachable => ?_, fun i reachable => ?_⟩
  · rw [accessible]
    rcases Bool.or_eq_true_iff.mp reachable with before | here
    · rw [before, Bool.true_or, Bool.true_or]
    · rw [here, Bool.or_true]
  · rw [accessible] at reachable
    rcases Bool.or_eq_true_iff.mp reachable with before | here
    · rcases Bool.or_eq_true_iff.mp before with before | both
      · left
        show (m.accessible i || _) = true
        rw [before, Bool.true_or]
      · obtain ⟨inside, thID, pgID⟩ :
            i < USER_PAGES ∧ (getPageThID (m.pages i)).toNat = m.thread ∧
              i = (getPagePgID (m.pages i)).toNat := by
          obtain ⟨inside, home⟩ := Bool.and_eq_true_iff.mp both
          exact ⟨List.mem_range.mp (of_decide_eq_true inside), of_decide_eq_true home⟩
        by_cases here : i < DISK_PAGES ∧ swappedAt m i
        · left
          show (m.accessible i || decide (i < DISK_PAGES ∧ swappedAt m i)) = true
          rw [decide_eq_true here, Bool.or_true]
        · have pages : m₁.pages i = m.pages i :=
            (congrFun entry (.frame i)).trans (if_neg here)
          right
          rw [pages, fetches.thread]
          rcases labelled.flags (.frame i) inside with used | isFree
          · exact ⟨used, thID, pgID.symm⟩
          · exact absurd thID (labelled.stale (.frame i) inside isFree _ alive)
    · left
      show (m.accessible i || decide (i < DISK_PAGES ∧ swappedAt m i)) = true
      rw [here, Bool.or_true]

/-- **The first page in its own free frame.** -/
theorem Alike.withPage (alike : Alike m₁ s) (labelled : Labelled live threadNum m₁.pageNum m₁.entry)
    (alive : live m₁.thread = true) (isFree : getPageIsF (m₁.pages 0) = 1) (new : Initialized 0 m₁ m₂) :
    Alike m₂ (Paging.withPage s) := by
  have pages : m₁.pages = s.pages := funext fun i => congrFun alike.entry (.frame i)
  have slots : m₁.diskPages = s.diskPages := funext fun i => congrFun alike.entry (.slot i)
  have label := labelled.newEntry alive (m₁.pages 0)
  have first : getPagePgID (newEntry (m₁.pages 0) m₁.thread (m₁.pageNum m₁.thread)) = 0 →
      m₁.pageNum m₁.thread = 0 := fun zero => by
    rw [← label.pgID, zero]
    rfl
  refine ⟨funext fun place => ?_, new.thread.trans alike.thread, ?_, fun i reachable => ?_,
    fun i reachable => ?_⟩
  · cases place with
    | frame i =>
      show m₂.pages i = Function.update s.pages 0 (newEntry (s.pages 0) s.thread (s.pageNum s.thread)) i
      rw [new.pages, pages, alike.thread, alike.pageNum]
    | slot i =>
      show m₂.diskPages i = s.diskPages i
      rw [new.diskPages, slots]
  · show m₂.pageNum = Function.update s.pageNum s.thread (s.pageNum s.thread + 1)
    rw [new.pageNum, alike.thread, alike.pageNum]
  · have before := alike.opens i reachable
    rcases new.heap with ⟨_, _, accessible⟩ | ⟨_, accessible, _⟩
    · rw [accessible]
      exact before
    · rw [accessible]
      by_cases zero : i = 0
      · rw [zero, Function.update_self]
      · rw [Function.update_of_ne zero]
        exact before
  · -- frame `0` had no page of the thread, and now it has the new one
    by_cases zero : i = 0
    · subst zero
      cases before : m₁.accessible 0 with
      | true =>
        refine Or.inl ((alike.more 0 before).resolve_right fun own => ?_)
        rw [own.used] at isFree
        cases isFree
      | false =>
        rcases new.heap with ⟨_, _, accessible⟩ | ⟨page, _, _⟩
        · rw [accessible, before] at reachable
          cases reachable
        · right
          rw [new.pages, Function.update_self, new.thread]
          have label' := label
          rw [first page] at label'
          rw [first page]
          exact label'
    · have before : m₁.accessible i = true := by
        rcases new.heap with ⟨_, _, accessible⟩ | ⟨_, accessible, _⟩
        · rw [← accessible]
          exact reachable
        · rw [accessible, Function.update_of_ne zero] at reachable
          exact reachable
      rw [new.pages, Function.update_of_ne zero, new.thread]
      exact alike.more i before

end Alike

end OS2017.Paging
