/-
**Singly linked lists through a `next` function.**

`next : A → Option A` is the field of a record that points to the following record, `none` its
`NULL`. `Seg next start xs stop`: from the pointer `start` the records `xs` follow one another and
the last of them points to `stop`. `Linked next start xs`: the list at `start` is `xs`.
`Queued next head rear xs` adds the `rear` pointer of a queue.

The lemmas are the list operations that the pointer operations compute: frames
(`Seg.frame`), splitting and joining (`seg_append`), a push at either end, a pop, an insertion and
a removal in the middle. A list that ends holds no record twice (`Linked.nodup`), so a push of a
record that is on the list already makes it endless (`linked_push_iff`). `OnList` is membership by
following `next`, which does not leave a closed set (`OnList.of_closed`). `Loose next head rear xs` is a
queue whose `rear` may be stale: an append may lose its record, but the list stays a list.
-/

import Mathlib.Data.List.Basic
import Mathlib.Data.List.Nodup
import Mathlib.Logic.Function.Basic

namespace OS2017.Intrusive

variable {A : Type}

/-- From `start` through `xs` to `stop`. -/
def Seg (next : A → Option A) : Option A → List A → Option A → Prop
  | start, [], stop => start = stop
  | start, x :: xs, stop => start = some x ∧ Seg next (next x) xs stop

/-- **The list at `start` is `xs`.** -/
def Linked (next : A → Option A) (start : Option A) (xs : List A) : Prop := Seg next start xs none

/-- **A queue**: the list at `head`, with `rear` its last record. -/
structure Queued (next : A → Option A) (head rear : Option A) (xs : List A) : Prop where
  linked : Linked next head xs
  rear_eq : rear = xs.getLast?

/-- A record on the list at `start`, found by following `next`. -/
inductive OnList (next : A → Option A) : Option A → A → Prop
  | here (x : A) : OnList next (some x) x
  | there {x y : A} : OnList next (next x) y → OnList next (some x) y

theorem seg_append {next : A → Option A} {start stop : Option A} (xs ys : List A) :
    Seg next start (xs ++ ys) stop ↔ ∃ middle, Seg next start xs middle ∧ Seg next middle ys stop := by
  induction xs generalizing start with
  | nil => simp [Seg]
  | cons x xs ih =>
    simp only [List.cons_append, Seg, ih]
    constructor
    · rintro ⟨first, middle, left, right⟩
      exact ⟨middle, ⟨first, left⟩, right⟩
    · rintro ⟨middle, ⟨first, left⟩, right⟩
      exact ⟨first, middle, left, right⟩

/-- **The frame**: a segment reads only the `next` fields of its own records. -/
theorem Seg.frame {next next' : A → Option A} {start stop : Option A} {xs : List A}
    (seg : Seg next start xs stop) (same : ∀ x ∈ xs, next' x = next x) :
    Seg next' start xs stop := by
  induction xs generalizing start with
  | nil => exact seg
  | cons x xs ih =>
    refine ⟨seg.1, ?_⟩
    rw [same x List.mem_cons_self]
    exact ih seg.2 fun y member => same y (List.mem_cons_of_mem _ member)

theorem Linked.unique {next : A → Option A} {start : Option A} {xs ys : List A}
    (first : Linked next start xs) (second : Linked next start ys) : xs = ys := by
  induction xs generalizing start ys with
  | nil =>
    cases ys with
    | nil => rfl
    | cons y ys =>
      have none_eq : start = none := first
      rw [second.1] at none_eq
      cases none_eq
  | cons x xs ih =>
    cases ys with
    | nil =>
      have none_eq : start = none := second
      rw [first.1] at none_eq
      cases none_eq
    | cons y ys =>
      have same : x = y := Option.some.inj (first.1.symm.trans second.1)
      subst same
      rw [ih first.2 second.2]

/-- **A list that ends holds no record twice.** -/
theorem Linked.nodup {next : A → Option A} {start : Option A} {xs : List A}
    (linked : Linked next start xs) : xs.Nodup := by
  induction xs generalizing start with
  | nil => exact List.nodup_nil
  | cons x xs ih =>
    refine List.nodup_cons.mpr ⟨fun member => ?_, ih linked.2⟩
    -- behind the second `x` the list would go on as behind the first
    obtain ⟨front, back, split⟩ := List.append_of_mem member
    have rest : Linked next (next x) (front ++ x :: back) := split ▸ linked.2
    obtain ⟨_, _, _, again⟩ := (seg_append front (x :: back)).mp rest
    have same := congrArg List.length (Linked.unique rest again)
    simp at same
    omega

theorem Linked.onList_iff {next : A → Option A} {start : Option A} {xs : List A}
    (linked : Linked next start xs) (x : A) : OnList next start x ↔ x ∈ xs := by
  induction xs generalizing start with
  | nil =>
    have none_eq : start = none := linked
    subst none_eq
    constructor
    · intro found
      cases found
    · intro member
      cases member
  | cons y ys ih =>
    obtain ⟨rfl, rest⟩ := linked
    rw [List.mem_cons]
    constructor
    · intro found
      cases found with
      | here => exact Or.inl rfl
      | there later => exact Or.inr ((ih rest).mp later)
    · rintro (rfl | later)
      · exact .here x
      · exact .there ((ih rest).mpr later)

/-- The record behind one on the list is on it. -/
theorem OnList.follow {next : A → Option A} {start : Option A} {x y : A} (found : OnList next start x)
    (link : next x = some y) : OnList next start y := by
  induction found with
  | here x =>
    refine .there ?_
    rw [link]
    exact .here y
  | there _ ih => exact .there (ih link)

/-- **Following `next` stays in a closed set.** -/
theorem OnList.of_closed {next : A → Option A} {start : Option A} {S : A → Prop} {y : A}
    (found : OnList next start y) (entry : ∀ x, start = some x → S x)
    (closed : ∀ x, S x → ∀ z, next x = some z → S z) : S y := by
  induction found with
  | here x => exact entry x rfl
  | there _ ih => exact ih (closed _ (entry _ rfl))

/-- **What follows the same links is on the list.** -/
theorem OnList.frame {next next' : A → Option A} {start : Option A} {y : A}
    (found : OnList next start y) (same : ∀ x, OnList next start x → next' x = next x) :
    OnList next' start y := by
  induction found with
  | here x => exact .here x
  | @there x y _ ih =>
    refine .there ?_
    rw [same x (.here x)]
    exact ih fun z later => same z (.there later)

theorem OnList.ne_none {next : A → Option A} {start : Option A} {y : A}
    (found : OnList next start y) : start ≠ none := by
  cases found <;> simp

theorem Queued.head_none_iff {next : A → Option A} {head rear : Option A} {xs : List A}
    (queued : Queued next head rear xs) : head = none ↔ xs = [] := by
  cases xs with
  | nil => exact ⟨fun _ => rfl, fun _ => queued.linked⟩
  | cons x xs => simp [queued.linked.1]

theorem Queued.frame {next next' : A → Option A} {head rear : Option A} {xs : List A}
    (queued : Queued next head rear xs) (same : ∀ x ∈ xs, next' x = next x) :
    Queued next' head rear xs :=
  ⟨queued.linked.frame same, queued.rear_eq⟩

/-- The empty queue. -/
theorem queued_nil (next : A → Option A) : Queued next none none [] := ⟨rfl, rfl⟩

/-- **A queue whose rear pointer may be stale**: a record that is on the list and in `rear` is the last
one; but `rear` may name a record that is on the list no more. -/
structure Loose (next : A → Option A) (head rear : Option A) (xs : List A) : Prop where
  linked : Linked next head xs
  ends : head = none ↔ rear = none
  last : ∀ r, rear = some r → r ∈ xs → xs.getLast? = some r

theorem Loose.frame {next next' : A → Option A} {head rear : Option A} {xs : List A}
    (loose : Loose next head rear xs) (same : ∀ x ∈ xs, next' x = next x) : Loose next' head rear xs :=
  ⟨loose.linked.frame same, loose.ends, loose.last⟩

theorem Loose.head_none_iff {next : A → Option A} {head rear : Option A} {xs : List A}
    (loose : Loose next head rear xs) : head = none ↔ xs = [] := by
  cases xs with
  | nil => exact ⟨fun _ => rfl, fun _ => loose.linked⟩
  | cons x xs => simp [loose.linked.1]

/-- The last record points to nothing. -/
theorem Linked.next_last {next : A → Option A} {start : Option A} {xs : List A} {last : A}
    (linked : Linked next start xs) (atEnd : xs.getLast? = some last) : next last = none := by
  rw [← List.dropLast_append_getLast? last atEnd] at linked
  obtain ⟨_, _, _, ended⟩ := (seg_append xs.dropLast [last]).mp linked
  exact ended

theorem Queued.loose {next : A → Option A} {head rear : Option A} {xs : List A}
    (queued : Queued next head rear xs) : Loose next head rear xs := by
  refine ⟨queued.linked, ?_, fun r isRear _ => queued.rear_eq.symm.trans isRear⟩
  rw [queued.head_none_iff, queued.rear_eq, List.getLast?_eq_none_iff]

section Update

variable [DecidableEq A]

/-- A segment does not read the `next` field of a record outside it. -/
theorem Seg.update {next : A → Option A} {start stop : Option A} {xs : List A} {x : A}
    (seg : Seg next start xs stop) (outside : x ∉ xs) (value : Option A) :
    Seg (Function.update next x value) start xs stop :=
  seg.frame fun y member =>
    Function.update_of_ne (fun same : y = x => outside (same ▸ member)) _ _

/-- A queue of one record. -/
theorem queued_single (next : A → Option A) (x : A) :
    Queued (Function.update next x none) (some x) (some x) [x] :=
  ⟨⟨rfl, by simp [Seg]⟩, rfl⟩

/-- **Push at the front.** -/
theorem Linked.push {next : A → Option A} {start : Option A} {xs : List A} {x : A}
    (linked : Linked next start xs) (outside : x ∉ xs) :
    Linked (Function.update next x start) (some x) (x :: xs) :=
  ⟨rfl, by rw [Function.update_self]; exact Seg.update linked outside start⟩

/-- **Pop at the front**, and cut the popped record loose. -/
theorem Linked.pop {next : A → Option A} {start : Option A} {xs : List A} {x : A}
    (linked : Linked next start (x :: xs)) (outside : x ∉ xs) :
    start = some x ∧ Linked (Function.update next x none) (next x) xs :=
  ⟨linked.1, Seg.update linked.2 outside none⟩

/-- A push at the front adds one record at most. -/
theorem OnList.of_push {next : A → Option A} {start : Option A} {x y : A}
    (found : OnList (Function.update next x start) (some x) y) : y = x ∨ OnList next start y := by
  refine found.of_closed (S := fun y => y = x ∨ OnList next start y)
    (fun z same => Or.inl (Option.some.inj same).symm) fun z inside w link => Or.inr ?_
  by_cases same : z = x
  · rw [same, Function.update_self] at link
    rw [link]
    exact .here w
  · rw [Function.update_of_ne same] at link
    exact (inside.resolve_left same).follow link

/-- What was on the list is on it behind a push. -/
theorem OnList.push {next : A → Option A} {start : Option A} {x y : A} (found : OnList next start y)
    (outside : ¬ OnList next start x) : OnList (Function.update next x start) (some x) y := by
  refine .there ?_
  rw [Function.update_self]
  exact found.frame fun z inside => Function.update_of_ne (fun same : z = x => outside (same ▸ inside)) _ _

/-- **A push of a record that is on the list makes a cycle**: the list never ends then. -/
theorem OnList.push_endless {next : A → Option A} {start : Option A} {x y : A}
    (before : OnList next start x) (found : OnList (Function.update next x start) (some x) y) :
    Function.update next x start y ≠ none := by
  -- every record behind the push leads to the one that was pushed
  have leads : OnList next (some y) x := by
    refine found.of_closed (S := fun z => OnList next (some z) x)
      (fun z same => (Option.some.inj same) ▸ .here _) fun z inside w link => ?_
    by_cases same : z = x
    · rw [same, Function.update_self] at link
      exact link ▸ before
    · rw [Function.update_of_ne same] at link
      cases inside with
      | here => exact absurd rfl same
      | there later => exact link ▸ later
  by_cases same : y = x
  · rw [same, Function.update_self]
    exact before.ne_none
  · rw [Function.update_of_ne same]
    cases leads with
    | here => exact absurd rfl same
    | there later => exact later.ne_none

/-- **A push keeps a list a list exactly when the record is not on it yet.** -/
theorem linked_push_iff {next : A → Option A} {start : Option A} {x : A} :
    (∃ xs, Linked (Function.update next x start) (some x) xs) ↔
      ∃ xs, Linked next start xs ∧ x ∉ xs := by
  constructor
  · rintro ⟨ys, linked⟩
    cases ys with
    | nil => cases linked
    | cons y ys =>
      have nodup := linked.nodup
      obtain ⟨first, rest⟩ := linked
      cases first
      have outside := (List.nodup_cons.mp nodup).1
      rw [Function.update_self] at rest
      refine ⟨ys, Seg.frame rest fun z member => ?_, outside⟩
      exact (Function.update_of_ne (fun same : z = x => outside (same ▸ member)) _ _).symm
  · rintro ⟨xs, linked, outside⟩
    exact ⟨x :: xs, linked.push outside⟩

theorem Queued.pop {next : A → Option A} {head rear : Option A} {xs : List A} {x : A}
    (queued : Queued next head rear (x :: xs)) (outside : x ∉ xs) :
    head = some x ∧
      Queued (Function.update next x none) (next x) (if next x = none then none else rear) xs := by
  obtain ⟨first, rest⟩ := queued.linked.pop outside
  refine ⟨first, rest, ?_⟩
  cases xs with
  | nil =>
    have ended : next x = none := queued.linked.2
    simp [ended]
  | cons y ys =>
    have more : next x = some y := queued.linked.2.1
    rw [more, if_neg (by simp), queued.rear_eq]
    rfl

/-- **Append behind the last record.** -/
theorem Linked.append {next : A → Option A} {start : Option A} {xs : List A} {last x : A}
    (linked : Linked next start (xs ++ [last])) (nodup : (xs ++ [last]).Nodup)
    (outside : x ∉ xs ++ [last]) :
    Linked (Function.update (Function.update next last (some x)) x none) start
      (xs ++ [last] ++ [x]) := by
  obtain ⟨middle, front, back⟩ := (seg_append xs [last]).mp linked
  have notFront : last ∉ xs := fun member => by
    have apart := (List.nodup_append.mp nodup).2.2
    exact apart last member last (by simp) rfl
  have different : x ≠ last := fun same => outside (by simp [same])
  have notMember : x ∉ xs := fun member => outside (by simp [member])
  rw [List.append_assoc]
  refine (seg_append xs _).mpr ⟨middle, (Seg.update (Seg.update front notFront _) notMember _), ?_⟩
  refine ⟨back.1, ?_⟩
  rw [Function.update_of_ne different.symm, Function.update_self]
  exact ⟨rfl, by rw [Function.update_self]; rfl⟩

theorem Queued.append {next : A → Option A} {head rear : Option A} {xs : List A} {last x : A}
    (queued : Queued next head rear xs) (nodup : xs.Nodup) (outside : x ∉ xs)
    (rear_eq : rear = some last) :
    Queued (Function.update (Function.update next last (some x)) x none) head (some x)
      (xs ++ [x]) := by
  obtain ⟨front, rfl⟩ : ∃ front, xs = front ++ [last] := by
    have atEnd : xs.getLast? = some last := queued.rear_eq.symm.trans rear_eq
    exact ⟨xs.dropLast, (List.dropLast_append_getLast? last atEnd).symm⟩
  exact ⟨queued.linked.append nodup outside, by simp⟩

/-- **Insert in front of a record in the middle.** -/
theorem Linked.insert {next : A → Option A} {start : Option A} {xs ys : List A} {before after x : A}
    (linked : Linked next start (xs ++ before :: after :: ys))
    (nodup : (xs ++ before :: after :: ys).Nodup) (outside : x ∉ xs ++ before :: after :: ys) :
    Linked (Function.update (Function.update next x (some after)) before (some x)) start
      (xs ++ before :: x :: after :: ys) := by
  obtain ⟨middle, front, first, second, rest⟩ := (seg_append xs _).mp linked
  have apart := List.nodup_append.mp nodup
  have notFront : before ∉ xs := fun member => apart.2.2 before member before (by simp) rfl
  have notRest : before ∉ after :: ys := (List.nodup_cons.mp apart.2.1).1
  have outFront : x ∉ xs := fun member => outside (by simp [member])
  have outRest : x ∉ after :: ys := fun member =>
    outside (List.mem_append_right _ (List.mem_cons_of_mem _ member))
  have different : x ≠ before := fun same => outside (by simp [same])
  refine (seg_append xs _).mpr ⟨middle, Seg.update (Seg.update front outFront _) notFront _, first, ?_⟩
  rw [Function.update_self]
  refine ⟨rfl, ?_⟩
  rw [Function.update_of_ne different, Function.update_self]
  have tail : Seg next (some after) (after :: ys) none := ⟨rfl, rest⟩
  exact Seg.update (Seg.update tail outRest _) notRest _

/-- **Remove a record in the middle**, and cut it loose. -/
theorem Linked.remove {next : A → Option A} {start : Option A} {xs ys : List A} {before x : A}
    (linked : Linked next start (xs ++ before :: x :: ys))
    (nodup : (xs ++ before :: x :: ys).Nodup) :
    Linked (Function.update (Function.update next before (next x)) x none) start
      (xs ++ before :: ys) := by
  obtain ⟨middle, front, first, second, rest⟩ := (seg_append xs _).mp linked
  have apart := List.nodup_append.mp nodup
  have notFront : before ∉ xs := fun member => apart.2.2 before member before (by simp) rfl
  have inner := List.nodup_cons.mp apart.2.1
  have notRest : before ∉ ys := fun member => inner.1 (List.mem_cons_of_mem _ member)
  have outFront : x ∉ xs := fun member => apart.2.2 x member x (by simp) rfl
  have outRest : x ∉ ys := (List.nodup_cons.mp inner.2).1
  have different : before ≠ x := fun same => inner.1 (by simp [same])
  refine (seg_append xs _).mpr ⟨middle, Seg.update (Seg.update front notFront _) outFront _, first, ?_⟩
  rw [Function.update_of_ne different, Function.update_self]
  exact Seg.update (Seg.update rest notRest _) outRest _

/-! ### Queues with a stale rear -/

/-- A pop. -/
theorem Loose.pop {next : A → Option A} {head rear : Option A} {xs : List A} {x : A}
    (loose : Loose next head rear (x :: xs)) :
    Loose (Function.update next x none) (next x) (if next x = none then none else rear) xs := by
  obtain ⟨first, rest⟩ := loose.linked.pop (List.nodup_cons.mp loose.linked.nodup).1
  refine ⟨rest, ?_, fun r isRear member => ?_⟩
  · by_cases ended : next x = none
    · simp [ended]
    · rw [if_neg ended]
      refine ⟨fun none => absurd none ended, fun none => ?_⟩
      rw [loose.ends.mpr none] at first
      cases first
  · split at isRear
    · cases isRear
    · have atEnd := loose.last r isRear (List.mem_cons_of_mem _ member)
      rwa [List.getLast?_cons_of_ne_nil (List.ne_nil_of_mem member)] at atEnd

/-- **Append behind what `rear` says.** Behind a stale record the new one is lost. -/
theorem Loose.enqueue {next : A → Option A} {head : Option A} {xs : List A} {r x : A}
    (loose : Loose next head (some r) xs) (atEnd : x ∈ xs → xs.getLast? = some x) :
    ∃ xs', Loose (Function.update (Function.update next r (some x)) x none) head (some x) xs' ∧
      ∀ y ∈ xs', y ∈ xs ∨ y = x := by
  have some : head ≠ none := fun none => by
    cases loose.ends.mp none
  have ends : head = none ↔ (Option.some x) = none := by simp [some]
  by_cases on : x ∈ xs
  · -- it is the last one already, and so is `r` if it is there
    have stays : ∀ y ∈ xs, Function.update (Function.update next r (Option.some x)) x none y = next y := by
      intro y member
      by_cases same : y = x
      · rw [same, Function.update_self, loose.linked.next_last (atEnd on)]
      · have other : y ≠ r := by
          rintro rfl
          exact same (Option.some.inj ((loose.last y rfl member).symm.trans (atEnd on)))
        rw [Function.update_of_ne same, Function.update_of_ne other]
    refine ⟨xs, ⟨loose.linked.frame stays, ends, fun z isRear _ => ?_⟩, fun y member => Or.inl member⟩
    rw [← isRear]
    exact atEnd on
  · by_cases rearOn : r ∈ xs
    · have split := List.dropLast_append_getLast? r (loose.last r rfl rearOn)
      have linked := loose.linked
      have nodup := loose.linked.nodup
      rw [← split] at linked nodup on
      refine ⟨xs ++ [x], ⟨?_, ends, fun z isRear _ => ?_⟩, fun y member => ?_⟩
      · rw [← split]
        exact linked.append nodup on
      · rw [← isRear, List.getLast?_concat]
      · exact (List.mem_append.mp member).imp_right List.mem_singleton.mp
    · refine ⟨xs, ⟨loose.linked.frame fun y member => ?_, ends, fun z isRear member => ?_⟩,
        fun y member => Or.inl member⟩
      · rw [Function.update_of_ne (fun same : y = x => on (same ▸ member)),
          Function.update_of_ne (fun same : y = r => rearOn (same ▸ member))]
      · cases isRear
        exact absurd member on

/-- **Cut behind a record**, wherever it is. -/
theorem Loose.cut {next : A → Option A} {head rear : Option A} {xs : List A}
    (loose : Loose next head rear xs) (x : A) :
    ∃ xs', Loose (Function.update next x none) head rear xs' ∧ (∀ y ∈ xs', y ∈ xs) ∧
      (x ∈ xs' → xs'.getLast? = some x) := by
  by_cases on : x ∈ xs
  · obtain ⟨front, back, rfl⟩ := List.append_of_mem on
    have nodup := loose.linked.nodup
    have apart := List.nodup_append.mp nodup
    have notFront : x ∉ front := fun member => apart.2.2 x member x (by simp) rfl
    obtain ⟨middle, linked, first, _⟩ := (seg_append front (x :: back)).mp loose.linked
    refine ⟨front ++ [x], ⟨?_, loose.ends, fun r isRear member => ?_⟩, fun y member => ?_, fun _ => ?_⟩
    · refine (seg_append front [x]).mpr ⟨middle, Seg.update linked notFront none, first, ?_⟩
      rw [Function.update_self]
      rfl
    · have whole : r ∈ front ++ x :: back := by
        rcases List.mem_append.mp member with inside | single
        · exact List.mem_append_left _ inside
        · rw [List.mem_singleton.mp single]
          simp
      have atEnd := loose.last r isRear whole
      cases back with
      | nil => exact atEnd
      | cons y back =>
        have inBack : r ∈ y :: back := by
          rw [List.getLast?_append_of_ne_nil _ (by simp),
            List.getLast?_cons_of_ne_nil (by simp)] at atEnd
          exact List.mem_of_getLast? atEnd
        rcases List.mem_append.mp member with inside | single
        · exact absurd rfl (apart.2.2 r inside r (List.mem_cons_of_mem _ inBack))
        · rw [List.mem_singleton.mp single] at inBack
          exact absurd inBack (List.nodup_cons.mp apart.2.1).1
    · rcases List.mem_append.mp member with inside | single
      · exact List.mem_append_left _ inside
      · rw [List.mem_singleton.mp single]
        simp
    · rw [List.getLast?_concat]
  · refine ⟨xs, loose.frame fun y member => ?_, fun _ member => member, fun member => absurd member on⟩
    exact Function.update_of_ne (fun same : y = x => on (same ▸ member)) _ _

/-- **Take a record out behind another one.** Where that one is not on the list, the record is only
cut loose. -/
theorem Loose.unlink {next : A → Option A} {head rear : Option A} {xs : List A}
    (loose : Loose next head rear xs) {before x : A} (link : next before = some x) (apart : before ≠ x) :
    ∃ xs', Loose (Function.update (Function.update next before (next x)) x none) head rear xs' ∧
      (∀ y ∈ xs', y ∈ xs) ∧ (x ∈ xs' → xs'.getLast? = some x) := by
  by_cases on : before ∈ xs
  · obtain ⟨front, back, rfl⟩ := List.append_of_mem on
    have nodup := loose.linked.nodup
    obtain ⟨rest, rfl⟩ : ∃ rest, back = x :: rest := by
      obtain ⟨_, _, _, tail⟩ := (seg_append front (before :: back)).mp loose.linked
      rw [link] at tail
      cases back with
      | nil => cases tail
      | cons y rest =>
        cases tail.1
        exact ⟨rest, rfl⟩
    have parts := List.nodup_append.mp nodup
    have inner := List.nodup_cons.mp (List.nodup_cons.mp parts.2.1).2
    have gone : x ∉ front ++ before :: rest := by
      rw [List.mem_append, List.mem_cons]
      rintro (inFront | same | inRest)
      · exact parts.2.2 x inFront x (by simp) rfl
      · exact apart same.symm
      · exact inner.1 inRest
    refine ⟨front ++ before :: rest, ⟨loose.linked.remove nodup, loose.ends, fun r isRear member => ?_⟩,
      fun y member => ?_, fun member => absurd member gone⟩
    · have whole : r ∈ front ++ before :: x :: rest := by
        rw [List.mem_append, List.mem_cons] at member
        rw [List.mem_append, List.mem_cons, List.mem_cons]
        exact member.imp_right fun tail => tail.imp_right Or.inr
      have atEnd := loose.last r isRear whole
      have other : r ≠ x := fun same => gone (same ▸ member)
      rw [List.getLast?_append_of_ne_nil _ (by simp)] at atEnd ⊢
      cases rest with
      | nil =>
        simp only [List.getLast?_cons_cons, List.getLast?_singleton, Option.some.injEq] at atEnd
        exact absurd atEnd.symm other
      | cons z rest =>
        rw [List.getLast?_cons_cons, List.getLast?_cons_cons] at atEnd
        rw [List.getLast?_cons_cons]
        exact atEnd
    · rw [List.mem_append, List.mem_cons] at member
      rw [List.mem_append, List.mem_cons, List.mem_cons]
      exact member.imp_right fun tail => tail.imp_right Or.inr
  · have frame : Loose (Function.update next before (next x)) head rear xs :=
      loose.frame fun y member =>
        Function.update_of_ne (fun same : y = before => on (same ▸ member)) _ _
    exact frame.cut x

end Update

end OS2017.Intrusive
