/-
**Queues that have come apart.**

A thread with a stale `JOINING` goes to the join list when the timer fires; if no run queue has a node
then, `schedule()` returns to it, and it runs while it is on the join list. When it enters a run queue
again, its `next` field leads the join list into that queue: an exit can take nodes out of the middle
of a run queue, and the `rear` of a queue may name a node that is on it no more, behind which the next
one is lost.

`Frayed s lists` is what every such state has left: each queue is a list from its `head`, and no node
is on two of them. Each operation keeps it, and adds at most the nodes it is given to the queues, and
to all that can be reached from the scheduler (`Adds`).
-/

import OS2017.Sched.Moves

namespace OS2017.Sched

open OS2017.Intrusive

/-- The nodes on each queue, in order. -/
abbrev Lists := Slot → List NodePtr

/-- The node is on some queue. -/
def Lists.Has (lists : Lists) (p : NodePtr) : Prop := ∃ slot, p ∈ lists slot

/-- The promotion queues are empty. -/
def Lists.Settled (lists : Lists) : Prop := ∀ i, lists (.promotionQ i) = []

/-- **The queues of `s` are these lists**, with what may be left of their `rear` pointers. -/
structure Frayed (s : Scheduler) (lists : Lists) : Prop where
  loose : ∀ slot, Loose s.nodes.next (s.queues slot).head (s.queues slot).rear (lists slot)
  proper : ∀ i, (s.queues (.promotionQ i)).rear = (lists (.promotionQ i)).getLast?
  level : ∀ k, (s.queues (.runQ k)).priorityLevel = k
  apart : ∀ p first second, p ∈ lists first → p ∈ lists second → first = second
  ranked : ∀ k, ∀ p ∈ lists (.runQ k), s.nodes.priority p = k
  bounded : ∀ slot, ∀ p ∈ lists slot, p < s.nodeNum
  rears : ∀ slot r, (s.queues slot).rear = some r → ∀ other, r ∈ lists other → other = slot
  rearRanked : ∀ k r, (s.queues (.runQ k)).rear = some r → s.nodes.priority r = k
  rearBounded : ∀ slot r, (s.queues slot).rear = some r → r < s.nodeNum

/-- No queue has the node, and none has it as its `rear`. -/
structure Unqueued (s : Scheduler) (lists : Lists) (p : NodePtr) : Prop where
  off : ∀ slot, p ∉ lists slot
  rear : ∀ slot, (s.queues slot).rear ≠ some p

/-- A queue that has the node is this one, and has it at its end. -/
structure Takes (s : Scheduler) (lists : Lists) (slot : Slot) (p : NodePtr) : Prop where
  member : ∀ other, p ∈ lists other → other = slot ∧ (lists slot).getLast? = some p
  rear : ∀ other, (s.queues other).rear = some p → other = slot

theorem Unqueued.takes {s : Scheduler} {lists : Lists} {p : NodePtr} (unqueued : Unqueued s lists p)
    (slot : Slot) : Takes s lists slot p :=
  ⟨fun other member => absurd member (unqueued.off other),
    fun other isRear => absurd isRear (unqueued.rear other)⟩

/-! ### What can be reached -/

/-- The node is on a queue or on the join list, found by following `next`. -/
def Reached (s : Scheduler) (p : NodePtr) : Prop :=
  (∃ slot, OnList s.nodes.next (s.queues slot).head p) ∨ OnList s.nodes.next s.joinList p

theorem Reached.follow {s : Scheduler} {p q : NodePtr} (reached : Reached s p)
    (link : s.nodes.next p = some q) : Reached s q :=
  reached.imp (Exists.imp fun _ found => found.follow link) fun found => found.follow link

theorem Reached.head {s : Scheduler} {slot : Slot} {p : NodePtr}
    (head : (s.queues slot).head = some p) : Reached s p :=
  Or.inl ⟨slot, head ▸ .here p⟩

theorem Reached.joinList {s : Scheduler} {p : NodePtr} (head : s.joinList = some p) : Reached s p :=
  Or.inr (head ▸ .here p)

/-- **What is reached is in every closed set.** -/
theorem Reached.of_closed {s : Scheduler} {S : NodePtr → Prop} {p : NodePtr} (reached : Reached s p)
    (heads : ∀ slot q, (s.queues slot).head = some q → S q) (joined : ∀ q, s.joinList = some q → S q)
    (closed : ∀ q, S q → ∀ z, s.nodes.next q = some z → S z) : S p := by
  rcases reached with ⟨slot, found⟩ | found
  · exact found.of_closed (heads slot) closed
  · exact found.of_closed joined closed

theorem Frayed.reached {s : Scheduler} {lists : Lists} (frayed : Frayed s lists) {p : NodePtr}
    (has : lists.Has p) : Reached s p := by
  obtain ⟨slot, member⟩ := has
  exact Or.inl ⟨slot, ((frayed.loose slot).linked.onList_iff p).mpr member⟩

/-! ### Operations -/

/-- **An operation that adds at most the nodes `new`** to the queues, and to what is reached. -/
structure Adds (s : Scheduler) (lists : Lists) (new : NodePtr → Prop) (s' : Scheduler)
    (lists' : Lists) : Prop where
  frayed : Frayed s' lists'
  kept : Kept s s'
  members : ∀ p, lists'.Has p → lists.Has p ∨ new p
  reached : ∀ p, Reached s' p → Reached s p ∨ new p
  rears : ∀ slot r, (s'.queues slot).rear = some r →
    (∃ other, (s.queues other).rear = some r) ∨ lists.Has r ∨ new r
  ranked : Ranked s → Ranked s'

theorem Adds.refl {s : Scheduler} {lists : Lists} (frayed : Frayed s lists) {new : NodePtr → Prop} :
    Adds s lists new s lists :=
  ⟨frayed, .refl s, fun _ => Or.inl, fun _ => Or.inl, fun slot _ isRear => Or.inl ⟨slot, isRear⟩,
    fun ranked => ranked⟩

theorem Adds.trans {s s₁ s' : Scheduler} {lists lists₁ lists' : Lists} {new new₁ : NodePtr → Prop}
    (first : Adds s lists new s₁ lists₁) (second : Adds s₁ lists₁ new₁ s' lists') :
    Adds s lists (fun p => new p ∨ new₁ p) s' lists' where
  frayed := second.frayed
  kept := first.kept.trans second.kept
  members p has := by
    rcases second.members p has with before | added
    · exact (first.members p before).imp_right Or.inl
    · exact Or.inr (Or.inr added)
  reached p found := by
    rcases second.reached p found with before | added
    · exact (first.reached p before).imp_right Or.inl
    · exact Or.inr (Or.inr added)
  rears slot r isRear := by
    rcases second.rears slot r isRear with ⟨other, before⟩ | has | added
    · exact (first.rears other r before).imp_right (Or.imp_right Or.inl)
    · exact Or.inr ((first.members r has).imp_right Or.inl)
    · exact Or.inr (Or.inr (Or.inr added))
  ranked fits := second.ranked (first.ranked fits)

/-- Nodes that were on a queue are not new. -/
theorem Adds.weaken {s s' : Scheduler} {lists lists' : Lists} {new less : NodePtr → Prop}
    (adds : Adds s lists new s' lists') (frayed : Frayed s lists)
    (old : ∀ p, new p → lists.Has p ∨ less p) : Adds s lists less s' lists' where
  frayed := adds.frayed
  kept := adds.kept
  members p has := (adds.members p has).elim Or.inl (old p)
  reached p found := (adds.reached p found).elim Or.inl fun added =>
    (old p added).imp_left frayed.reached
  rears slot r isRear := (adds.rears slot r isRear).imp_right fun either => either.elim Or.inl (old r)
  ranked := adds.ranked

theorem Scheduler.store_here (s : Scheduler) (slot : Slot) (nodes : Nodes) (q : Queue) :
    (s.store slot nodes q).queues slot = q := Function.update_self _ _ _

theorem Scheduler.store_other (s : Scheduler) {slot other : Slot} (nodes : Nodes) (q : Queue)
    (different : other ≠ slot) : (s.store slot nodes q).queues other = s.queues other :=
  Function.update_of_ne different _ _

/-- The members after an update of one list. -/
theorem Lists.has_update {lists : Lists} {slot : Slot} {xs : List NodePtr} (new : NodePtr → Prop)
    (members : ∀ p ∈ xs, p ∈ lists slot ∨ new p) {p : NodePtr}
    (has : Lists.Has (Function.update lists slot xs) p) : lists.Has p ∨ new p := by
  obtain ⟨other, member⟩ := has
  by_cases same : other = slot
  · rw [same, Function.update_self] at member
    exact (members p member).imp_left fun inside => ⟨slot, inside⟩
  · rw [Function.update_of_ne same] at member
    exact Or.inl ⟨other, member⟩

/-- **An update of one queue**, whose nodes the others neither have nor name. -/
theorem Frayed.store {s : Scheduler} {lists : Lists} (frayed : Frayed s lists) {slot : Slot}
    {nodes : Nodes} {q : Queue} {xs : List NodePtr} (here : Loose nodes.next q.head q.rear xs)
    (proper : ∀ i, slot = .promotionQ i → q.rear = xs.getLast?)
    (level : q.priorityLevel = (s.queues slot).priorityLevel)
    (next : ∀ other, other ≠ slot → ∀ p ∈ lists other, nodes.next p = s.nodes.next p)
    (priority : ∀ other, other ≠ slot → ∀ p, p ∈ lists other ∨ (s.queues other).rear = some p →
      nodes.priority p = s.nodes.priority p)
    (members : ∀ p ∈ xs, p < s.nodeNum ∧ ∀ other, other ≠ slot →
      p ∉ lists other ∧ (s.queues other).rear ≠ some p)
    (rear : ∀ r, q.rear = some r → r < s.nodeNum ∧ ∀ other, other ≠ slot → r ∉ lists other)
    (ranked : ∀ k, slot = .runQ k → ∀ p, p ∈ xs ∨ q.rear = some p → nodes.priority p = k) :
    Frayed (s.store slot nodes q) (Function.update lists slot xs) where
  loose other := by
    by_cases same : other = slot
    · rw [same, Function.update_self, s.store_here]
      exact here
    · rw [Function.update_of_ne same, s.store_other _ _ same]
      exact (frayed.loose other).frame (next other same)
  proper i := by
    by_cases same : .promotionQ i = slot
    · rw [same, Function.update_self, s.store_here]
      exact proper i same.symm
    · rw [Function.update_of_ne same, s.store_other _ _ same]
      exact frayed.proper i
  level k := by
    by_cases same : .runQ k = slot
    · rw [same, s.store_here, level, ← same]
      exact frayed.level k
    · rw [s.store_other _ _ same]
      exact frayed.level k
  apart p first second left right := by
    by_cases here₁ : first = slot <;> by_cases here₂ : second = slot
    · rw [here₁, here₂]
    · rw [here₁, Function.update_self] at left
      rw [Function.update_of_ne here₂] at right
      exact absurd right ((members p left).2 second here₂).1
    · rw [Function.update_of_ne here₁] at left
      rw [here₂, Function.update_self] at right
      exact absurd left ((members p right).2 first here₁).1
    · rw [Function.update_of_ne here₁] at left
      rw [Function.update_of_ne here₂] at right
      exact frayed.apart p first second left right
  ranked k p member := by
    by_cases same : .runQ k = slot
    · rw [same, Function.update_self] at member
      exact ranked k same.symm p (Or.inl member)
    · rw [Function.update_of_ne same] at member
      exact (priority _ same p (Or.inl member)).trans (frayed.ranked k p member)
  bounded other p member := by
    by_cases same : other = slot
    · rw [same, Function.update_self] at member
      exact (members p member).1
    · rw [Function.update_of_ne same] at member
      exact frayed.bounded other p member
  rears other r isRear third member := by
    by_cases here₁ : other = slot <;> by_cases here₂ : third = slot
    · rw [here₁, here₂]
    · rw [Function.update_of_ne here₂] at member
      rw [here₁, s.store_here] at isRear
      exact absurd member ((rear r isRear).2 third here₂)
    · rw [here₂, Function.update_self] at member
      rw [s.store_other _ _ here₁] at isRear
      exact absurd isRear ((members r member).2 other here₁).2
    · rw [Function.update_of_ne here₂] at member
      rw [s.store_other _ _ here₁] at isRear
      exact frayed.rears other r isRear third member
  rearRanked k r isRear := by
    by_cases same : .runQ k = slot
    · rw [same, s.store_here] at isRear
      exact ranked k same.symm r (Or.inr isRear)
    · rw [s.store_other _ _ same] at isRear
      exact (priority _ same r (Or.inr isRear)).trans (frayed.rearRanked k r isRear)
  rearBounded other r isRear := by
    by_cases same : other = slot
    · rw [same, s.store_here] at isRear
      exact (rear r isRear).1
    · rw [s.store_other _ _ same] at isRear
      exact frayed.rearBounded other r isRear

section Operations

variable {s s' : Scheduler} {lists : Lists}

theorem Frayed.deQ_none (frayed : Frayed s lists) {slot : Slot} (ran : s.deQ slot = none) :
    lists slot = [] := by
  rw [← (frayed.loose slot).head_none_iff]
  cases head : (s.queues slot).head with
  | none => rfl
  | some p => simp [Scheduler.deQ, Sched.deQ, head] at ran

/-- **`deQ` pops the first node**; no queue has it then. -/
theorem Frayed.deQ (frayed : Frayed s lists) {slot : Slot} {p : NodePtr}
    (ran : s.deQ slot = some (p, s')) :
    ∃ xs, lists slot = p :: xs ∧ Adds s lists (fun _ => False) s' (Function.update lists slot xs) ∧
      Unqueued s' (Function.update lists slot xs) p := by
  obtain ⟨⟨p', nodes, q⟩, popped, same⟩ := Option.map_eq_some_iff.mp ran
  cases same
  obtain ⟨_, isHead, same⟩ := Option.map_eq_some_iff.mp popped
  cases same
  have here := frayed.loose slot
  obtain ⟨xs, split⟩ : ∃ xs, lists slot = p :: xs := by
    have linked := here.linked
    cases list : lists slot with
    | nil =>
      rw [here.head_none_iff.mpr list] at isHead
      cases isHead
    | cons first xs =>
      rw [list] at linked
      cases isHead.symm.trans linked.1
      exact ⟨xs, rfl⟩
  rw [split] at here
  have outside := (List.nodup_cons.mp here.linked.nodup).1
  have rest : ∀ {x}, x ∈ xs → x ∈ lists slot := fun member => split ▸ List.mem_cons_of_mem _ member
  have first : p ∈ lists slot := split ▸ List.mem_cons_self
  have elsewhere : ∀ other, other ≠ slot → p ∉ lists other := fun other different member =>
    different (frayed.apart p other slot member first)
  have oldRear : ∀ {r}, (if s.nodes.next p = none then none else (s.queues slot).rear) = some r →
      (s.queues slot).rear = some r := fun isRear => by
    split at isRear
    · cases isRear
    · exact isRear
  have frayed' : Frayed (s.store slot (s.nodes.setNext p none) ⟨s.nodes.next p,
      if s.nodes.next p = none then none else (s.queues slot).rear, (s.queues slot).priorityLevel⟩)
      (Function.update lists slot xs) := frayed.store here.pop (fun i same => by
      subst same
      have queued : Queued s.nodes.next (s.queues (.promotionQ i)).head
          (s.queues (.promotionQ i)).rear (p :: xs) :=
        ⟨here.linked, (frayed.proper i).trans (congrArg List.getLast? split)⟩
      exact (queued.pop outside).2.rear_eq)
    rfl (fun other different x member => Function.update_of_ne
      (fun same : x = p => elsewhere other different (same ▸ member)) _ _) (fun _ _ _ _ => rfl)
    (fun x member => ⟨frayed.bounded _ x (rest member), fun other different =>
      ⟨fun inOther => different (frayed.apart x other slot inOther (rest member)),
        fun isRear => different (frayed.rears other x isRear slot (rest member)).symm⟩⟩)
    (fun r isRear => ⟨frayed.rearBounded slot r (oldRear isRear), fun other different member =>
      different (frayed.rears slot r (oldRear isRear) other member)⟩)
    fun k same x either => by
      subst same
      rcases either with member | isRear
      · exact frayed.ranked k x (rest member)
      · exact frayed.rearRanked k x (oldRear isRear)
  refine ⟨xs, split, ⟨frayed', by constructor <;> rfl, fun x has =>
    Lists.has_update (fun _ => False) (fun y member => Or.inl (rest member)) has, fun x found => Or.inl ?_,
    fun other r isRear => Or.inl ?_, fun ranked => ranked⟩, fun other => ?_, fun other isRear => ?_⟩
  · refine found.of_closed (S := Reached s) (fun other y isHead' => ?_) (fun y isHead' => .joinList isHead')
      fun y inside z link => ?_
    · by_cases same : other = slot
      · rw [same, s.store_here] at isHead'
        exact (Reached.head isHead).follow isHead'
      · rw [s.store_other _ _ same] at isHead'
        exact Reached.head isHead'
    · by_cases same : y = p
      · rw [same] at link
        cases (Function.update_self _ _ _).symm.trans link
      · exact inside.follow ((Function.update_of_ne same _ _).symm.trans link)
  · by_cases same : other = slot
    · rw [same, s.store_here] at isRear
      exact ⟨slot, oldRear isRear⟩
    · rw [s.store_other _ _ same] at isRear
      exact ⟨other, isRear⟩
  · by_cases same : other = slot
    · rw [same, Function.update_self]
      exact outside
    · rw [Function.update_of_ne same]
      exact elsewhere other same
  · by_cases same : other = slot
    · rw [same, s.store_here] at isRear
      -- a queue with a second node has that behind its first
      have atEnd := here.last p (oldRear isRear) List.mem_cons_self
      cases xs with
      | nil =>
        have ended : s.nodes.next p = none := here.linked.2
        simp only [ended, if_true] at isRear
        cases isRear
      | cons y ys =>
        rw [List.getLast?_cons_cons] at atEnd
        exact outside (List.mem_of_getLast? atEnd)
    · rw [s.store_other _ _ same] at isRear
      exact same (frayed.rears other p isRear slot first).symm

/-- **What an `enQ` has done.** -/
theorem enQ_run {nodes nodes' : Nodes} {q q' : Queue} {p : NodePtr}
    (ran : Sched.enQ nodes q p = some (nodes', q')) :
    ∃ next, nodes' = { nodes with
        next := next
        priority := if q.head ≠ none ∧ nodes.status p = .yielding then nodes.priority
          else Function.update nodes.priority p q.priorityLevel } ∧
      q'.rear = some p ∧ q'.priorityLevel = q.priorityLevel ∧
      ((q.head = none ∧ q'.head = some p ∧ next = Function.update nodes.next p none) ∨
        ∃ r, q.head ≠ none ∧ q'.head = q.head ∧ q.rear = some r ∧
          next = Function.update (Function.update nodes.next r (some p)) p none) := by
  unfold Sched.enQ at ran
  cases head : q.head with
  | none =>
    rw [head] at ran
    cases ran
    refine ⟨Function.update nodes.next p none, ?_, rfl, rfl, Or.inl ⟨rfl, rfl, rfl⟩⟩
    simp [Nodes.setPriority, Nodes.setNext]
  | some first =>
    simp only [head] at ran
    obtain ⟨r, rear, same⟩ := Option.map_eq_some_iff.mp ran
    cases same
    refine ⟨Function.update (Function.update nodes.next r (some p)) p none, ?_, rfl, rfl,
      Or.inr ⟨r, by simp, rfl, rear, rfl⟩⟩
    by_cases yields : nodes.status p = .yielding
    · simp [yields, Nodes.setNext]
    · simp [yields, Nodes.setPriority, Nodes.setNext]

/-- **`enQ` appends the node**, or loses it behind a stale `rear`; the queue has a node then. -/
theorem Frayed.enQ (frayed : Frayed s lists) {k : Nat} {p : NodePtr}
    (takes : Takes s lists (.runQ k) p) (inside : p < s.nodeNum) (inRange : k < RUN_QUEUE_SIZE)
    (yields : s.nodes.status p = .yielding → s.nodes.priority p = k)
    (ran : s.enQ (.runQ k) p = some s') :
    ∃ xs, xs ≠ [] ∧ Adds s lists (· = p) s' (Function.update lists (.runQ k) xs) := by
  obtain ⟨⟨nodes, q⟩, pushed, rfl⟩ := Option.map_eq_some_iff.mp ran
  obtain ⟨next, rfl, rear, level, shape⟩ := enQ_run pushed
  have here := frayed.loose (.runQ k)
  -- the list after it, and what follows what
  obtain ⟨xs, loose, members, links⟩ : ∃ xs, Loose next q.head q.rear xs ∧
      (∀ y ∈ xs, y ∈ lists (.runQ k) ∨ y = p) ∧ ∀ y z, next y = some z →
        (z = p ∧ (s.queues (.runQ k)).rear = some y) ∨ (y ≠ p ∧ s.nodes.next y = some z) := by
    rcases shape with ⟨_, head, rfl⟩ | ⟨r, _, head, oldRear, rfl⟩
    · refine ⟨[p], ?_, fun y single => Or.inr (List.mem_singleton.mp single), fun y z link => ?_⟩
      · rw [head, rear]
        exact (queued_single s.nodes.next p).loose
      · by_cases same : y = p
        · rw [same, Function.update_self] at link
          cases link
        · rw [Function.update_of_ne same] at link
          exact Or.inr ⟨same, link⟩
    · rw [oldRear] at here
      obtain ⟨xs, loose, members⟩ := here.enqueue fun member => (takes.member _ member).2
      refine ⟨xs, by rw [head, rear]; exact loose, members, fun y z link => ?_⟩
      by_cases same : y = p
      · rw [same, Function.update_self] at link
        cases link
      · rw [Function.update_of_ne same] at link
        by_cases isRear : y = r
        · rw [isRear, Function.update_self] at link
          exact Or.inl ⟨(Option.some.inj link).symm, isRear ▸ oldRear⟩
        · rw [Function.update_of_ne isRear] at link
          exact Or.inr ⟨same, link⟩
  have stays : ∀ other, other ≠ .runQ k → ∀ y ∈ lists other, next y = s.nodes.next y := by
    intro other different y member
    have apart : y ≠ p := fun same => different (takes.member other (same ▸ member)).1
    rcases shape with ⟨_, _, rfl⟩ | ⟨r, _, _, oldRear, rfl⟩
    · exact Function.update_of_ne apart _ _
    · have apart' : y ≠ r := fun same =>
        different (frayed.rears (.runQ k) r oldRear other (same ▸ member))
      rw [Function.update_of_ne apart, Function.update_of_ne apart']
  have priority : (if (s.queues (.runQ k)).head ≠ none ∧ s.nodes.status p = .yielding then
      s.nodes.priority else Function.update s.nodes.priority p (s.queues (.runQ k)).priorityLevel)
      = Function.update s.nodes.priority p k := by
    rw [frayed.level k]
    by_cases both : (s.queues (.runQ k)).head ≠ none ∧ s.nodes.status p = .yielding
    · rw [if_pos both, ← yields both.2, Function.update_eq_self]
    · rw [if_neg both]
  rw [priority]
  have nonempty : xs ≠ [] := fun empty => by
    have none := loose.ends.mp (loose.head_none_iff.mpr empty)
    rw [rear] at none
    cases none
  have frayed' : Frayed (s.store (.runQ k) { s.nodes with
      next := next, priority := Function.update s.nodes.priority p k } q)
      (Function.update lists (.runQ k) xs) := by
    refine frayed.store loose (fun i same => by cases same) level stays
      (fun other different y either => ?_) (fun y member => ?_) (fun r isRear => ?_)
      fun level' same y either => ?_
    · refine Function.update_of_ne (fun same : y = p => ?_) _ _
      rcases either with member | isRear
      · exact different (takes.member other (same ▸ member)).1
      · exact different (takes.rear other (same ▸ isRear))
    · rcases members y member with old | rfl
      · exact ⟨frayed.bounded _ y old, fun other different =>
          ⟨fun inOther => different (frayed.apart y other _ inOther old),
            fun isRear => different (frayed.rears other y isRear _ old).symm⟩⟩
      · exact ⟨inside, fun other different => ⟨fun inOther => different (takes.member other inOther).1,
          fun isRear => different (takes.rear other isRear)⟩⟩
    · rw [rear] at isRear
      cases isRear
      exact ⟨inside, fun other different inOther => different (takes.member other inOther).1⟩
    · cases same
      show Function.update s.nodes.priority p k y = k
      by_cases isNew : y = p
      · rw [isNew, Function.update_self]
      · rw [Function.update_of_ne isNew]
        rcases either with member | isRear
        · exact frayed.ranked k y ((members y member).resolve_right isNew)
        · rw [rear] at isRear
          exact absurd (Option.some.inj isRear).symm isNew
  refine ⟨xs, nonempty, frayed', by constructor <;> rfl, fun y has => Lists.has_update _ members has,
    fun y found => ?_, fun other r isRear => ?_, fun ranked y bound => ?_⟩
  · refine found.of_closed (S := fun y => Reached s y ∨ y = p) (fun other z isHead => ?_)
      (fun z isHead => Or.inl (.joinList isHead)) fun z either w link => ?_
    · by_cases same : other = .runQ k
      · rw [same, s.store_here] at isHead
        rcases shape with ⟨_, head, _⟩ | ⟨_, _, head, _, _⟩
        · rw [head] at isHead
          exact Or.inr (Option.some.inj isHead).symm
        · rw [head] at isHead
          exact Or.inl (.head isHead)
      · rw [s.store_other _ _ same] at isHead
        exact Or.inl (.head isHead)
    · rcases links z w link with ⟨isNew, _⟩ | ⟨apart, old⟩
      · exact Or.inr isNew
      · exact Or.inl ((either.resolve_right apart).follow old)
  · by_cases same : other = .runQ k
    · rw [same, s.store_here, rear] at isRear
      exact Or.inr (Or.inr (Option.some.inj isRear).symm)
    · rw [s.store_other _ _ same] at isRear
      exact Or.inl ⟨other, isRear⟩
  · show Function.update s.nodes.priority p k y < RUN_QUEUE_SIZE
    by_cases isNew : y = p
    · rw [isNew, Function.update_self]
      exact inRange
    · rw [Function.update_of_ne isNew]
      exact ranked y bound

theorem Frayed.length_le (frayed : Frayed s lists) (slot : Slot) :
    (lists slot).length ≤ s.nodeNum := by
  have inside : lists slot ⊆ List.range s.nodeNum := fun p member =>
    List.mem_range.mpr (frayed.bounded slot p member)
  simpa using (List.subperm_of_subset (frayed.loose slot).linked.nodup inside).length_le

/-- **`insertByTime` inserts the node** into a promotion queue, whose `rear` is never stale. -/
theorem Frayed.insertByTime (frayed : Frayed s lists) {i : Nat} {p : NodePtr}
    (unqueued : Unqueued s lists p) (inside : p < s.nodeNum)
    (ran : s.insertByTime (.promotionQ i) p = some s') :
    Adds s lists (· = p) s' (Function.update lists (.promotionQ i)
      (insertTime s.nodes.runtime p (lists (.promotionQ i)))) := by
  have queued : Queued s.nodes.next (s.queues (.promotionQ i)).head (s.queues (.promotionQ i)).rear
      (lists (.promotionQ i)) := ⟨(frayed.loose _).linked, frayed.proper i⟩
  have members := fun x => (insertTime_perm s.nodes.runtime p
    (lists (.promotionQ i))).mem_iff (a := x)
  obtain ⟨next, q, result, after, level, frame⟩ :=
    insertByTime_spec queued (unqueued.off _) (frayed.length_le _)
  have stored : s.insertByTime (.promotionQ i) p
      = some (s.store (.promotionQ i) { s.nodes with next := next } q) := by
    simp [Scheduler.insertByTime, result]
  cases ran.symm.trans stored
  have frayed' : Frayed (s.store (.promotionQ i) { s.nodes with next := next } q)
      (Function.update lists (.promotionQ i)
        (insertTime s.nodes.runtime p (lists (.promotionQ i)))) := by
    refine frayed.store after.loose (fun _ _ => after.rear_eq) level
      (fun other different x member => ?_) (fun _ _ _ _ => rfl) (fun x member => ?_)
      (fun r isRear => ?_) fun _ same => by cases same
    · exact frame x (fun same => unqueued.off other (same ▸ member)) fun here =>
        different (frayed.apart x other _ member here)
    · rcases List.mem_cons.mp ((members x).mp member) with rfl | old
      · exact ⟨inside, fun other _ => ⟨unqueued.off other, unqueued.rear other⟩⟩
      · exact ⟨frayed.bounded _ x old, fun other different =>
          ⟨fun inOther => different (frayed.apart x other _ inOther old),
            fun isRear => different (frayed.rears other x isRear _ old).symm⟩⟩
    · have member := List.mem_of_getLast? (after.rear_eq.symm.trans isRear)
      rcases List.mem_cons.mp ((members r).mp member) with rfl | old
      · exact ⟨inside, fun other _ => unqueued.off other⟩
      · exact ⟨frayed.bounded _ r old, fun other different inOther =>
          different (frayed.apart r other _ inOther old)⟩
  have added : ∀ x ∈ insertTime s.nodes.runtime p (lists (.promotionQ i)),
      x ∈ lists (.promotionQ i) ∨ x = p := fun x member =>
    (List.mem_cons.mp ((members x).mp member)).symm
  have here : ∀ z, OnList next q.head z → Reached s z ∨ z = p := fun z onList =>
    (added z ((after.linked.onList_iff z).mp onList)).imp_left fun old => frayed.reached ⟨_, old⟩
  have rears : ∀ other r, ((s.store (.promotionQ i) { s.nodes with next := next } q).queues other).rear
      = some r → (∃ third, (s.queues third).rear = some r) ∨ lists.Has r ∨ r = p := by
    intro other r isRear
    by_cases same : other = .promotionQ i
    · rw [same, s.store_here, after.rear_eq] at isRear
      exact Or.inr ((added r (List.mem_of_getLast? isRear)).imp_left fun old => ⟨_, old⟩)
    · rw [s.store_other _ _ same] at isRear
      exact Or.inl ⟨other, isRear⟩
  refine ⟨frayed', by constructor <;> rfl, fun x has => Lists.has_update _ added has,
    fun x found => ?_, rears, fun ranked => ranked⟩
  refine found.of_closed (S := fun z => Reached s z ∨ z = p) (fun other z isHead => ?_)
    (fun z isHead => Or.inl (.joinList isHead)) fun z either w link => ?_
  · by_cases same : other = .promotionQ i
    · rw [same, s.store_here] at isHead
      exact here z (isHead ▸ .here z)
    · rw [s.store_other _ _ same] at isHead
      exact Or.inl (.head isHead)
  · by_cases on : z ∈ insertTime s.nodes.runtime p (lists (.promotionQ i))
    · exact here w (((after.linked.onList_iff z).mpr on).follow link)
    · have apart : z ≠ p := fun same => on ((members z).mpr (by simp [same]))
      have outside : z ∉ lists (.promotionQ i) := fun old =>
        on ((members z).mpr (List.mem_cons_of_mem _ old))
      refine Or.inl ((either.resolve_right apart).follow ?_)
      rw [← frame z apart outside]
      exact link

/-- **What does not touch the pointers** keeps the queues. -/
theorem Frayed.of_same (frayed : Frayed s lists) (next : s'.nodes.next = s.nodes.next)
    (priority : s'.nodes.priority = s.nodes.priority) (queues : s'.queues = s.queues)
    (nodeNum : s'.nodeNum = s.nodeNum) : Frayed s' lists where
  loose slot := by
    rw [next, queues]
    exact frayed.loose slot
  proper i := by
    rw [queues]
    exact frayed.proper i
  level k := by
    rw [queues]
    exact frayed.level k
  apart := frayed.apart
  ranked k p member := by
    rw [priority]
    exact frayed.ranked k p member
  bounded slot p member := by
    rw [nodeNum]
    exact frayed.bounded slot p member
  rears slot r isRear := by
    rw [queues] at isRear
    exact frayed.rears slot r isRear
  rearRanked k r isRear := by
    rw [queues] at isRear
    rw [priority]
    exact frayed.rearRanked k r isRear
  rearBounded slot r isRear := by
    rw [queues] at isRear
    rw [nodeNum]
    exact frayed.rearBounded slot r isRear

theorem Reached.of_same {p : NodePtr} (reached : Reached s' p) (next : s'.nodes.next = s.nodes.next)
    (queues : s'.queues = s.queues) (joinList : s'.joinList = s.joinList) : Reached s p := by
  unfold Reached at reached ⊢
  rwa [next, queues, joinList] at reached

/-! ### The join list -/

/-- **`insertToList`** leads the join list through the node; the queues do not have it. -/
theorem Frayed.insertToList (frayed : Frayed s lists) {p : NodePtr} (off : ∀ slot, p ∉ lists slot) :
    Adds s lists (· = p) (s.insertToList p) lists where
  frayed :=
    { frayed with
      loose := fun slot => (frayed.loose slot).frame fun x member =>
        Function.update_of_ne (fun same : x = p => off slot (same ▸ member)) _ _ }
  kept := by constructor <;> rfl
  members _ := Or.inl
  reached x found := by
    refine found.of_closed (S := fun x => Reached s x ∨ x = p)
      (fun slot y isHead => Or.inl (.head isHead)) (fun y isHead => Or.inr (Option.some.inj isHead).symm)
      fun y either z link => Or.inl ?_
    have link' : Function.update s.nodes.next p s.joinList y = some z := link
    by_cases same : y = p
    · rw [same, Function.update_self] at link'
      exact .joinList link'
    · exact (either.resolve_right same).follow ((Function.update_of_ne same _ _).symm.trans link)
  rears slot _ isRear := Or.inl ⟨slot, isRear⟩
  ranked fits := fits

/-- The join list without a node, which is at its head or behind `prev`. -/
def Scheduler.unlink (s : Scheduler) (prev : Option NodePtr) (p : NodePtr) : Scheduler :=
  match prev with
  | none => { s with nodes := s.nodes.setNext p none, joinList := s.nodes.next p }
  | some prev => { s with nodes := (s.nodes.setNext prev (s.nodes.next p)).setNext p none }

/-- The node is at the head of the join list, or behind `prev`. -/
structure Behind (s : Scheduler) (prev : Option NodePtr) (p : NodePtr) : Prop where
  reached : Reached s p
  head : prev = none → s.joinList = some p
  link : ∀ q, prev = some q → s.nodes.next q = some p ∧ q ≠ p

/-- **The walk of `removeFromList`** takes out the first node with the id. -/
theorem removeFromListLoop_run {id : Nat} {p : NodePtr} :
    ∀ {fuel : Nat} {prev ptr : Option NodePtr}, (∀ q, ptr = some q → Reached s q) →
      (prev = none → ptr = s.joinList) →
      (∀ q, prev = some q → s.nodes.next q = ptr ∧ s.idOf q ≠ id) →
      s.removeFromListLoop id fuel prev ptr = some (some p, s') →
      s.idOf p = id ∧ ∃ prev', Behind s prev' p ∧ s' = s.unlink prev' p := by
  intro fuel
  induction fuel with
  | zero =>
    intro prev ptr _ _ _ ran
    cases ptr <;> cases ran
  | succ fuel ih =>
    intro prev ptr reached first behind ran
    cases ptr with
    | none => cases ran
    | some q =>
      unfold Scheduler.removeFromListLoop at ran
      by_cases found : s.idOf q = id
      · rw [if_pos found] at ran
        have same : q = p ∧ s' = s.unlink prev q := by
          cases prev with
          | none =>
            cases ran
            exact ⟨rfl, rfl⟩
          | some before =>
            cases ran
            exact ⟨rfl, rfl⟩
        obtain ⟨rfl, rfl⟩ := same
        refine ⟨found, prev, ⟨reached q rfl, fun none => (first none).symm,
          fun before isPrev => ?_⟩, rfl⟩
        obtain ⟨link, other⟩ := behind before isPrev
        exact ⟨link, fun same => other (same ▸ found)⟩
      · rw [if_neg found] at ran
        refine ih (fun z link => (reached q rfl).follow link) (fun none => by cases none)
          (fun z isPrev => ?_) ran
        cases isPrev
        exact ⟨rfl, found⟩

theorem Scheduler.unlink_kept (prev : Option NodePtr) (p : NodePtr) : Kept s (s.unlink prev p) := by
  cases prev <;> constructor <;> rfl

/-- **Taking a node out of the join list** takes it out of the queue it is on, or cuts that queue
behind it. -/
theorem Frayed.unlink (frayed : Frayed s lists) (settled : lists.Settled) {prev : Option NodePtr}
    {p : NodePtr} (behind : Behind s prev p) :
    ∃ lists', Adds s lists (fun _ => False) (s.unlink prev p) lists' ∧
      (∀ slot, ∀ x ∈ lists' slot, x ∈ lists slot) ∧
      ∀ slot, p ∈ lists' slot → (lists' slot).getLast? = some p := by
  have each : ∀ slot, ∃ xs, Loose (s.unlink prev p).nodes.next (s.queues slot).head
      (s.queues slot).rear xs ∧ (∀ y ∈ xs, y ∈ lists slot) ∧ (p ∈ xs → xs.getLast? = some p) := by
    intro slot
    cases prev with
    | none => exact (frayed.loose slot).cut p
    | some before =>
      obtain ⟨link, apart⟩ := behind.link before rfl
      exact (frayed.loose slot).unlink link apart
  choose lists' loose members atEnd using each
  have same : (s.unlink prev p).queues = s.queues ∧
      (s.unlink prev p).nodes.priority = s.nodes.priority ∧
        (s.unlink prev p).nodeNum = s.nodeNum := by
    cases prev <;> exact ⟨rfl, rfl, rfl⟩
  obtain ⟨queues, priority, nodeNum⟩ := same
  have links : ∀ y z, (s.unlink prev p).nodes.next y = some z → Reached s y → Reached s z := by
    intro y z link inside
    cases prev with
    | none =>
      by_cases same : y = p
      · rw [same] at link
        cases (Function.update_self _ _ _).symm.trans link
      · exact inside.follow ((Function.update_of_ne same _ _).symm.trans link)
    | some before =>
      by_cases same : y = p
      · rw [same] at link
        cases (Function.update_self _ _ _).symm.trans link
      · have link' : Function.update s.nodes.next before (s.nodes.next p) y = some z :=
          (Function.update_of_ne same _ _).symm.trans link
        by_cases isPrev : y = before
        · rw [isPrev, Function.update_self] at link'
          exact behind.reached.follow link'
        · rw [Function.update_of_ne isPrev] at link'
          exact inside.follow link'
  have joined : ∀ y, (s.unlink prev p).joinList = some y → Reached s y := by
    intro y isHead
    cases prev with
    | none => exact behind.reached.follow isHead
    | some before => exact .joinList isHead
  refine ⟨lists', ⟨⟨fun slot => ?_, fun i => ?_, fun k => ?_, fun x first second left right => ?_,
    fun k x member => ?_, fun slot x member => ?_, fun slot r isRear other member => ?_,
    fun k r isRear => ?_, fun slot r isRear => ?_⟩, s.unlink_kept prev p, ?_, fun x found => Or.inl ?_,
    fun slot r isRear => Or.inl ⟨slot, queues ▸ isRear⟩, fun fits => ?_⟩, members, atEnd⟩
  · rw [queues]
    exact loose slot
  · -- an empty queue stays as it is
    have empty : lists' (.promotionQ i) = [] := List.eq_nil_iff_forall_not_mem.mpr fun y member => by
      have old := members _ y member
      rw [settled i] at old
      cases old
    rw [queues, frayed.proper i, settled i, empty]
  · rw [queues]
    exact frayed.level k
  · exact frayed.apart x first second (members _ x left) (members _ x right)
  · rw [priority]
    exact frayed.ranked k x (members _ x member)
  · rw [nodeNum]
    exact frayed.bounded slot x (members _ x member)
  · rw [queues] at isRear
    exact frayed.rears slot r isRear other (members _ r member)
  · rw [queues] at isRear
    rw [priority]
    exact frayed.rearRanked k r isRear
  · rw [queues] at isRear
    rw [nodeNum]
    exact frayed.rearBounded slot r isRear
  · rintro x ⟨slot, member⟩
    exact Or.inl ⟨slot, members _ x member⟩
  · refine found.of_closed (S := Reached s) (fun slot y isHead => ?_) joined
      fun y inside z link => links y z link inside
    rw [queues] at isHead
    exact .head isHead
  · intro y bound
    rw [nodeNum] at bound
    rw [priority]
    exact fits y bound

/-! ### The wake-up loop -/

/-- The nodes that the scheduler has have ids of their own. -/
def Distinct (s : Scheduler) : Prop :=
  ∀ p q, Reached s p → Reached s q → s.idOf p = s.idOf q → p = q

/-- The nodes that the scheduler has have been allocated. -/
def Bounded (s : Scheduler) : Prop := ∀ p, Reached s p → p < s.nodeNum

/-- **The loop of an exiting thread** puts nodes that wait for it on the run queues. -/
theorem Frayed.wakeLoop (id : Nat) :
    ∀ (fuel : Nat) {s s' : Scheduler} {lists : Lists} {jptr : Option NodePtr}, Frayed s lists →
      lists.Settled → Ranked s → Distinct s → Bounded s → (∀ p, jptr = some p → Reached s p) →
      s.wakeLoop id fuel jptr = some s' →
      ∃ lists', Adds s lists (fun p => Reached s p ∧ Waits s id p) s' lists' ∧ lists'.Settled := by
  intro fuel
  induction fuel with
  | zero =>
    intro s s' lists jptr frayed settled _ _ _ _ ran
    cases jptr with
    | none =>
      cases ran
      exact ⟨lists, .refl frayed, settled⟩
    | some _ => cases ran
  | succ fuel ih =>
    intro s s' lists jptr frayed settled ranked distinct allocated start ran
    cases jptr with
    | none =>
      cases ran
      exact ⟨lists, .refl frayed, settled⟩
    | some jptr =>
      have inside := start jptr rfl
      obtain ⟨joinee, target, rest⟩ := Option.bind_eq_some_iff.mp ran
      by_cases waits : s.threads.id joinee = id
      · rw [if_pos waits] at rest
        obtain ⟨⟨removed, s₁⟩, removing, returning⟩ := Option.bind_eq_some_iff.mp rest
        obtain ⟨returnToQ, isRemoved, pushing⟩ := Option.bind_eq_some_iff.mp returning
        obtain ⟨s₂, pushed, again⟩ := Option.bind_eq_some_iff.mp pushing
        cases isRemoved
        obtain ⟨sameId, prev, behind, rfl⟩ := removeFromListLoop_run (fun q => .joinList)
          (fun _ => rfl) (fun q none => by cases none) removing
        -- the first node with the id of `jptr` is `jptr`
        cases distinct _ _ behind.reached inside sameId
        obtain ⟨lists₁, removes, fewer, atEnd⟩ := frayed.unlink settled behind
        have kept₁ := removes.kept
        have priority₁ : (s.unlink prev jptr).nodes.priority = s.nodes.priority := by
          cases prev <;> rfl
        have queues₁ : (s.unlink prev jptr).queues = s.queues := by
          cases prev <;> rfl
        rw [priority₁] at pushed
        have takes : Takes (s.unlink prev jptr) lists₁ (.runQ (s.nodes.priority jptr)) jptr := by
          have place : ∀ {other}, jptr ∈ lists other → other = .runQ (s.nodes.priority jptr) := by
            intro other member
            cases other with
            | promotionQ i =>
              rw [settled i] at member
              cases member
            | runQ k => rw [frayed.ranked k jptr member]
          refine ⟨fun other member => ?_, fun other isRear => ?_⟩
          · have same := place (fewer other jptr member)
            exact ⟨same, atEnd _ (same ▸ member)⟩
          · rw [queues₁] at isRear
            cases other with
            | promotionQ i =>
              rw [frayed.proper i, settled i] at isRear
              cases isRear
            | runQ k => rw [frayed.rearRanked k jptr isRear]
        obtain ⟨xs, _, adds⟩ := removes.frayed.enQ takes (kept₁.nodeNum ▸ allocated jptr inside)
          (ranked jptr (allocated jptr inside)) (fun _ => congrFun priority₁ jptr) pushed
        have both := removes.trans adds
        have settled₂ : Lists.Settled (Function.update lists₁ (.runQ (s.nodes.priority jptr)) xs) := by
          intro i
          rw [Function.update_of_ne (by simp)]
          exact List.eq_nil_iff_forall_not_mem.mpr fun y member => by
            have old := fewer _ y member
            rw [settled i] at old
            cases old
        have back : ∀ q, Reached s₂ q → Reached s q := fun q found =>
          (both.reached q found).elim (fun before => before) fun added => by
            rcases added with impossible | rfl
            · exact impossible.elim
            · exact inside
        obtain ⟨lists', woken, settled'⟩ := ih both.frayed settled₂ (both.ranked ranked)
          (fun p q left right same => distinct p q (back p left) (back q right) (by
            rw [both.kept.idOf, both.kept.idOf] at same
            exact same))
          (fun p found => both.kept.nodeNum ▸ allocated p (back p found)) (fun p => .joinList) again
        refine ⟨lists', (both.trans woken).weaken frayed fun p added => Or.inr ?_, settled'⟩
        rcases added with (impossible | rfl) | ⟨found, waiting⟩
        · exact impossible.elim
        · exact ⟨inside, joinee, target, waits⟩
        · exact ⟨back p found, (both.kept.waits id p).mp waiting⟩
      · rw [if_neg waits] at rest
        exact ih frayed settled ranked distinct allocated (fun p link => inside.follow link) rest

end Operations

end OS2017.Sched
