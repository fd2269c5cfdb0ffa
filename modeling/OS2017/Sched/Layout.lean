/-
**What the pointers of the scheduler represent.**

A `Layout` says which nodes are in which place: on a queue, in order, or on the join list.
`Rep s layout` is the refinement relation between the pointer structure of `s` and a layout: every
queue's `head`, `rear` and `next` chain are its list, no node is in two places, every node on
`runQ[k]` has priority `k`. Each pointer operation is proved to compute its list operation
(`Rep.enQ`, `Rep.deQ`, `Rep.insertByTime`, `Rep.insertToList`, `Rep.removeFromList`), and to keep
everything else (`Kept`).
-/

import Mathlib.Data.List.Perm.Subperm
import OS2017.Lib.Intrusive
import OS2017.Sched.Model

namespace OS2017.Sched

open OS2017.Intrusive

/-- Where a node can be, apart from `current`. -/
inductive Place
  | queue (slot : Slot)
  | join
  deriving DecidableEq

/-- The nodes in each place, in order. -/
abbrev Layout := Place → List NodePtr

namespace Layout

/-- Append a node in one place. -/
def push (layout : Layout) (place : Place) (p : NodePtr) : Layout :=
  Function.update layout place (layout place ++ [p])

/-- The node is in no place. -/
def Off (layout : Layout) (p : NodePtr) : Prop := ∀ place, p ∉ layout place

/-- The node is in some place. -/
def Placed (layout : Layout) (p : NodePtr) : Prop := ∃ place, p ∈ layout place

theorem mem_push {layout : Layout} {place other : Place} {p q : NodePtr} :
    q ∈ layout.push place p other ↔ q ∈ layout other ∨ (q = p ∧ other = place) := by
  by_cases same : other = place
  · subst same
    simp [push]
  · simp [push, same]

theorem placed_push {layout : Layout} {place : Place} {p q : NodePtr} :
    (layout.push place p).Placed q ↔ layout.Placed q ∨ q = p := by
  simp only [Placed, mem_push]
  constructor
  · rintro ⟨other, member | ⟨same, _⟩⟩
    · exact Or.inl ⟨other, member⟩
    · exact Or.inr same
  · rintro (⟨other, member⟩ | same)
    · exact ⟨other, Or.inl member⟩
    · exact ⟨place, Or.inr ⟨same, rfl⟩⟩

end Layout

/-- **The pointers of `s` represent the layout.** -/
structure Rep (s : Scheduler) (layout : Layout) : Prop where
  queued : ∀ slot, Queued s.nodes.next (s.queues slot).head (s.queues slot).rear
    (layout (.queue slot))
  level : ∀ k, (s.queues (.runQ k)).priorityLevel = k
  joined : Linked s.nodes.next s.joinList (layout .join)
  nodup : ∀ place, (layout place).Nodup
  apart : ∀ p first second, p ∈ layout first → p ∈ layout second → first = second
  ranked : ∀ k, ∀ p ∈ layout (.queue (.runQ k)), s.nodes.priority p = k
  bounded : ∀ place, ∀ p ∈ layout place, p < s.nodeNum

/-- **What moving nodes between queues keeps**: everything but the queues, `joinList` and the
`next`, `priority` and `runtime` fields. -/
structure Kept (s s' : Scheduler) : Prop where
  threadID : s'.nodes.threadID = s.nodes.threadID
  ut : s'.nodes.ut = s.nodes.ut
  timeCreated : s'.nodes.timeCreated = s.nodes.timeCreated
  status : s'.nodes.status = s.nodes.status
  joinee : s'.nodes.joinee = s.nodes.joinee
  threads : s'.threads = s.threads
  threadList : s'.threadList = s.threadList
  current : s'.current = s.current
  threadNum : s'.threadNum = s.threadNum
  nodeNum : s'.nodeNum = s.nodeNum
  running : s'.running = s.running

namespace Kept

theorem refl (s : Scheduler) : Kept s s := by
  constructor <;> rfl

theorem trans {s s' s'' : Scheduler} (first : Kept s s') (second : Kept s' s'') : Kept s s'' where
  threadID := second.threadID.trans first.threadID
  ut := second.ut.trans first.ut
  timeCreated := second.timeCreated.trans first.timeCreated
  status := second.status.trans first.status
  joinee := second.joinee.trans first.joinee
  threads := second.threads.trans first.threads
  threadList := second.threadList.trans first.threadList
  current := second.current.trans first.current
  threadNum := second.threadNum.trans first.threadNum
  nodeNum := second.nodeNum.trans first.nodeNum
  running := second.running.trans first.running

theorem idOf {s s' : Scheduler} (kept : Kept s s') (p : NodePtr) : s'.idOf p = s.idOf p := by
  unfold Scheduler.idOf
  rw [kept.threads, kept.threadID]

end Kept

/-- The list `insertByTime` computes: the node goes in front of the first one that has run
shorter. -/
def insertTime (runtime : NodePtr → Rat) (p : NodePtr) : List NodePtr → List NodePtr
  | [] => [p]
  | x :: xs => if runtime p > runtime x then p :: x :: xs else x :: insertTime runtime p xs

theorem insertTime_perm (runtime : NodePtr → Rat) (p : NodePtr) (xs : List NodePtr) :
    (insertTime runtime p xs).Perm (p :: xs) := by
  induction xs with
  | nil => exact List.Perm.refl _
  | cons x xs ih =>
    unfold insertTime
    split
    · exact List.Perm.refl _
    · exact (List.Perm.cons x ih).trans (List.Perm.swap p x xs)

theorem insertTime_sorted {ages : NodePtr → Rat} {p : NodePtr} {xs : List NodePtr}
    (sorted : xs.Pairwise fun x y => ages y ≤ ages x) :
    (insertTime ages p xs).Pairwise fun x y => ages y ≤ ages x := by
  induction xs with
  | nil => exact List.pairwise_singleton _ p
  | cons x xs ih =>
    obtain ⟨first, rest⟩ := List.pairwise_cons.mp sorted
    unfold insertTime
    split
    · rename_i older
      refine List.pairwise_cons.mpr ⟨fun y member => ?_, sorted⟩
      rcases List.mem_cons.mp member with rfl | inside
      · exact le_of_lt older
      · exact (first y inside).trans (le_of_lt older)
    · rename_i younger
      refine List.pairwise_cons.mpr ⟨fun y member => ?_, ih rest⟩
      rcases List.mem_cons.mp ((insertTime_perm ages p xs).mem_iff.mp member) with rfl | inside
      · exact not_lt.mp younger
      · exact first y inside

/-- **The node goes behind all that have run as long**, and in front of one that has run shorter. -/
theorem insertTime_split (runtime : NodePtr → Rat) (p : NodePtr) (xs : List NodePtr) :
    ∃ front back, xs = front ++ back ∧ insertTime runtime p xs = front ++ p :: back ∧
      (∀ x ∈ front, runtime p ≤ runtime x) ∧ ∀ x ∈ back.head?, runtime x < runtime p := by
  induction xs with
  | nil => exact ⟨[], [], rfl, rfl, by simp, by simp⟩
  | cons x xs ih =>
    unfold insertTime
    by_cases longer : runtime p > runtime x
    · rw [if_pos longer]
      exact ⟨[], x :: xs, rfl, rfl, by simp, by simpa using longer⟩
    · rw [if_neg longer]
      obtain ⟨front, back, whole, inserted, before, behind⟩ := ih
      refine ⟨x :: front, back, by rw [whole]; rfl, by rw [inserted]; rfl, fun y member => ?_, behind⟩
      rcases List.mem_cons.mp member with rfl | inside
      · exact not_lt.mp longer
      · exact before y inside

/-- **The walk of `insertByTime`**, with `front` behind it and `rest` before it. -/
theorem insertByTimeLoop_spec {nodes : Nodes} {q : Queue} {p : NodePtr} :
    ∀ (rest front : List NodePtr) (fuel : Nat) (ptr : Option NodePtr),
      Queued nodes.next q.head q.rear (front ++ rest) → (front ++ rest).Nodup →
      p ∉ front ++ rest → front ++ rest ≠ [] → Linked nodes.next ptr rest → rest.length ≤ fuel →
      ∃ next q', insertByTimeLoop nodes q p fuel front.getLast? ptr
          = some ({ nodes with next := next }, q') ∧
        Queued next q'.head q'.rear (front ++ insertTime nodes.runtime p rest) ∧
        q'.priorityLevel = q.priorityLevel ∧
        ∀ x, x ≠ p → x ∉ front ++ rest → next x = nodes.next x := by
  intro rest
  induction rest with
  | nil =>
    intro front fuel ptr queued nodup outside nonempty atEnd _
    have ended : ptr = none := atEnd
    subst ended
    obtain ⟨last, rear⟩ : ∃ last, q.rear = some last :=
      ⟨_, queued.rear_eq.trans (List.getLast?_eq_some_getLast nonempty)⟩
    have lastMember : last ∈ front ++ [] :=
      List.mem_of_getLast? (queued.rear_eq.symm.trans rear)
    have appended := queued.append nodup outside rear
    rw [List.append_nil] at appended
    refine ⟨Function.update (Function.update nodes.next last (some p)) p none,
      { q with rear := some p }, by cases fuel <;> simp [insertByTimeLoop, rear, Nodes.setNext],
      appended, rfl, fun x apart notMember => ?_⟩
    have apartLast : x ≠ last := fun same => notMember (same ▸ lastMember)
    simp [apart, apartLast]
  | cons y ys ih =>
    intro front fuel ptr queued nodup outside nonempty atRest enough
    obtain ⟨rfl, rest⟩ := atRest
    obtain ⟨fuel, rfl⟩ : ∃ less, fuel = less + 1 :=
      ⟨fuel - 1, by simp only [List.length_cons] at enough; omega⟩
    by_cases longer : nodes.runtime p > nodes.runtime y
    · have inserted : insertTime nodes.runtime p (y :: ys) = p :: y :: ys := by
        simp [insertTime, longer]
      rw [inserted]
      rcases List.eq_nil_or_concat' front with rfl | ⟨before, last, rfl⟩
      · rw [List.nil_append] at queued outside
        have head : q.head = some y := queued.linked.1
        have pushed := queued.linked.push outside
        rw [head] at pushed
        refine ⟨Function.update nodes.next p (some y), { q with head := some p },
          by simp [insertByTimeLoop, longer, Nodes.setNext], ⟨pushed, ?_⟩, rfl,
          fun x apart _ => by simp [apart]⟩
        rw [queued.rear_eq]
        rfl
      · rw [List.append_assoc, List.singleton_append] at queued nodup outside
        have linked := queued.linked.insert nodup outside
        refine ⟨Function.update (Function.update nodes.next p (some y)) last (some p), q,
          by simp [insertByTimeLoop, longer, Nodes.setNext], ⟨by simpa using linked, ?_⟩, rfl,
          fun x apart notMember => ?_⟩
        · rw [queued.rear_eq]
          simp [List.getLast?_append]
        · have apartLast : x ≠ last := fun same => notMember (by simp [same])
          simp [apart, apartLast]
    · have moved : front ++ y :: ys = (front ++ [y]) ++ ys := by simp
      rw [moved] at queued nodup outside nonempty
      obtain ⟨next, q', result, after, level, frame⟩ := ih (front ++ [y]) fuel (nodes.next y) queued
        nodup outside nonempty rest (by simp only [List.length_cons] at enough; omega)
      refine ⟨next, q', ?_, ?_, level, fun x apart notMember => frame x apart (by rwa [← moved])⟩
      · rw [List.getLast?_concat] at result
        simpa [insertByTimeLoop, longer] using result
      · simpa [insertTime, longer] using after

/-- **`insertByTime` inserts the node by its running time**, and changes `next` only at the node and
at the nodes of the queue. -/
theorem insertByTime_spec {nodes : Nodes} {q : Queue} {p : NodePtr} {xs : List NodePtr} {fuel : Nat}
    (queued : Queued nodes.next q.head q.rear xs) (outside : p ∉ xs) (enough : xs.length ≤ fuel) :
    ∃ next q', insertByTime nodes q p fuel = some ({ nodes with next := next }, q') ∧
      Queued next q'.head q'.rear (insertTime nodes.runtime p xs) ∧
      q'.priorityLevel = q.priorityLevel ∧ ∀ x, x ≠ p → x ∉ xs → next x = nodes.next x := by
  cases head : q.head with
  | none =>
    rw [queued.head_none_iff.mp head]
    refine ⟨Function.update nodes.next p none, { q with head := some p, rear := some p }, ?_,
      queued_single nodes.next p, rfl, fun x apart _ => by simp [apart]⟩
    simp only [insertByTime, head]
    rfl
  | some first =>
    have nonempty : xs ≠ [] := fun empty => by
      rw [queued.head_none_iff.mpr empty] at head
      cases head
    obtain ⟨next, q', result, after⟩ := insertByTimeLoop_spec xs [] fuel (some first) queued
      queued.linked.nodup outside nonempty (head ▸ queued.linked) enough
    refine ⟨next, q', ?_, after⟩
    simp only [insertByTime, head]
    exact result

/-- **`enQ` appends the node.** It gives the node the level of the queue, unless it yields and is not
the first. -/
theorem enQ_spec {nodes : Nodes} {q : Queue} {p : NodePtr} {xs : List NodePtr}
    (queued : Queued nodes.next q.head q.rear xs) (outside : p ∉ xs) :
    ∃ next q', enQ nodes q p = some ({ nodes with
        next := next
        priority := if xs ≠ [] ∧ nodes.status p = .yielding then nodes.priority
          else Function.update nodes.priority p q.priorityLevel }, q') ∧
      Queued next q'.head q'.rear (xs ++ [p]) ∧ q'.priorityLevel = q.priorityLevel ∧
      ∀ x, x ≠ p → x ∉ xs → next x = nodes.next x := by
  cases head : q.head with
  | none =>
    have empty := queued.head_none_iff.mp head
    subst empty
    refine ⟨Function.update nodes.next p none, { q with head := some p, rear := some p }, ?_,
      queued_single nodes.next p, rfl, fun x apart _ => by simp [apart]⟩
    simp [enQ, head, Nodes.setPriority, Nodes.setNext]
  | some first =>
    have nonempty : xs ≠ [] := fun empty => by
      rw [queued.head_none_iff.mpr empty] at head
      cases head
    obtain ⟨last, rear⟩ : ∃ last, q.rear = some last :=
      ⟨_, queued.rear_eq.trans (List.getLast?_eq_some_getLast nonempty)⟩
    have lastMember : last ∈ xs := List.mem_of_getLast? (queued.rear_eq.symm.trans rear)
    refine ⟨Function.update (Function.update nodes.next last (some p)) p none,
      { q with rear := some p }, ?_, queued.append queued.linked.nodup outside rear, rfl,
      fun x apart notMember => ?_⟩
    · by_cases yields : nodes.status p = .yielding
      · simp [enQ, head, rear, yields, nonempty, Nodes.setNext]
      · simp [enQ, head, rear, yields, Nodes.setPriority, Nodes.setNext]
    · have apartLast : x ≠ last := fun same => notMember (same ▸ lastMember)
      simp [apart, apartLast]

/-- **`deQ` pops the first node**, and cuts it loose. -/
theorem deQ_spec {nodes : Nodes} {q : Queue} {p : NodePtr} {xs : List NodePtr}
    (queued : Queued nodes.next q.head q.rear (p :: xs)) :
    ∃ q', deQ nodes q = some (p, nodes.setNext p none, q') ∧
      Queued (nodes.setNext p none).next q'.head q'.rear xs ∧
      q'.priorityLevel = q.priorityLevel := by
  obtain ⟨head, rest⟩ := queued.pop (List.nodup_cons.mp queued.linked.nodup).1
  exact ⟨{ q with head := nodes.next p, rear := if nodes.next p = none then none else q.rear },
    by simp [deQ, head], rest, rfl⟩

/-- There is nothing to pop. -/
theorem deQ_empty {nodes : Nodes} {q : Queue} (queued : Queued nodes.next q.head q.rear []) :
    deQ nodes q = none := by
  have head : q.head = none := queued.head_none_iff.mpr rfl
  simp [deQ, head]

namespace Rep

variable {s : Scheduler} {layout : Layout}

/-- A node in one place is in no other. -/
theorem not_mem (rep : Rep s layout) {p : NodePtr} {first second : Place}
    (member : p ∈ layout first) (different : second ≠ first) : p ∉ layout second :=
  fun other => different (rep.apart p second first other member)

/-- **The shape of an update.** New pointers that represent a changed list in one place, and whose
`next` field changed only at nodes of that place or of none, represent the changed layout. -/
theorem change (rep : Rep s layout) {s' : Scheduler} {place : Place} {xs : List NodePtr}
    (level : ∀ k, (s'.queues (.runQ k)).priorityLevel = k)
    (here : match place with
      | .queue slot => Queued s'.nodes.next (s'.queues slot).head (s'.queues slot).rear xs
      | .join => Linked s'.nodes.next s'.joinList xs)
    (queues : ∀ slot, .queue slot ≠ place → s'.queues slot = s.queues slot)
    (joinList : .join ≠ place → s'.joinList = s.joinList)
    (frame : ∀ other, other ≠ place → ∀ p ∈ layout other, s'.nodes.next p = s.nodes.next p)
    (nodup : xs.Nodup)
    (members : ∀ p ∈ xs, p ∈ layout place ∨ layout.Off p)
    (ranked : ∀ k, ∀ p ∈ Function.update layout place xs (.queue (.runQ k)),
      s'.nodes.priority p = k)
    (bounded : ∀ p ∈ xs, p < s'.nodeNum) (grows : s.nodeNum ≤ s'.nodeNum) :
    Rep s' (Function.update layout place xs) := by
  have elsewhere : ∀ other, other ≠ place → ∀ p ∈ layout other, p ∉ xs := by
    intro other different p member inside
    rcases members p inside with here | off
    · exact different (rep.apart p other place member here)
    · exact off other member
  refine ⟨fun slot => ?_, level, ?_, fun other => ?_, fun p first second => ?_, ranked,
    fun other p => ?_⟩
  · by_cases same : Place.queue slot = place
    · subst same
      rw [Function.update_self]
      exact here
    · rw [Function.update_of_ne same, queues slot same]
      exact (rep.queued slot).frame (frame _ same)
  · by_cases same : Place.join = place
    · subst same
      rw [Function.update_self]
      exact here
    · rw [Function.update_of_ne same, joinList same]
      exact rep.joined.frame (frame _ same)
  · by_cases same : other = place
    · subst same
      rw [Function.update_self]
      exact nodup
    · rw [Function.update_of_ne same]
      exact rep.nodup other
  · by_cases sameFirst : first = place <;> by_cases sameSecond : second = place
    · intro _ _
      rw [sameFirst, sameSecond]
    · subst sameFirst
      rw [Function.update_self, Function.update_of_ne sameSecond]
      exact fun inside member => absurd inside (elsewhere second sameSecond p member)
    · subst sameSecond
      rw [Function.update_self, Function.update_of_ne sameFirst]
      exact fun member inside => absurd inside (elsewhere first sameFirst p member)
    · rw [Function.update_of_ne sameFirst, Function.update_of_ne sameSecond]
      exact rep.apart p first second
  · by_cases same : other = place
    · subst same
      rw [Function.update_self]
      exact bounded p
    · rw [Function.update_of_ne same]
      exact fun member => lt_of_lt_of_le (rep.bounded other p member) grows

/-- **An operation on one queue.** -/
theorem store (rep : Rep s layout) {slot : Slot} {nodes : Nodes} {q : Queue} {xs : List NodePtr}
    (level : q.priorityLevel = (s.queues slot).priorityLevel)
    (here : Queued nodes.next q.head q.rear xs)
    (frame : ∀ other, other ≠ .queue slot → ∀ p ∈ layout other, nodes.next p = s.nodes.next p)
    (nodup : xs.Nodup) (members : ∀ p ∈ xs, p ∈ layout (.queue slot) ∨ layout.Off p)
    (bounded : ∀ p ∈ xs, p < s.nodeNum)
    (rankedHere : ∀ k, slot = .runQ k → ∀ p ∈ xs, nodes.priority p = k)
    (rankedElsewhere : ∀ p, ¬ layout.Off p → nodes.priority p = s.nodes.priority p) :
    Rep (s.store slot nodes q) (Function.update layout (.queue slot) xs) := by
  refine rep.change (fun k => ?_) ?_ (fun other different => ?_) (fun _ => rfl) frame nodup members
    (fun k p inside => ?_) bounded le_rfl
  · by_cases same : Slot.runQ k = slot
    · subst same
      simp [Scheduler.store, level, rep.level]
    · simp [Scheduler.store, same, rep.level]
  · simpa [Scheduler.store] using here
  · have apart : other ≠ slot := fun same => different (by rw [same])
    simp [Scheduler.store, apart]
  · by_cases same : Place.queue (.runQ k) = .queue slot
    · rw [same, Function.update_self] at inside
      cases same
      exact rankedHere k rfl p inside
    · rw [Function.update_of_ne same] at inside
      exact (rankedElsewhere p fun off => off _ inside).trans (rep.ranked k p inside)

/-! ### The queue operations -/

theorem deQ_none (rep : Rep s layout) {slot : Slot} (empty : layout (.queue slot) = []) :
    s.deQ slot = none := by
  have queued := rep.queued slot
  rw [empty] at queued
  simp [Scheduler.deQ, deQ_empty queued]

/-- **`deQ` pops the first node.** -/
theorem deQ (rep : Rep s layout) {slot : Slot} {p : NodePtr} {xs : List NodePtr}
    (first : layout (.queue slot) = p :: xs) :
    ∃ s', s.deQ slot = some (p, s') ∧ Rep s' (Function.update layout (.queue slot) xs) ∧
      Kept s s' ∧ s'.nodes.priority = s.nodes.priority ∧ s'.nodes.runtime = s.nodes.runtime := by
  have nodup : (p :: xs).Nodup := first ▸ rep.nodup _
  have queued := rep.queued slot
  rw [first] at queued
  obtain ⟨q', popped, rest, level⟩ := deQ_spec queued
  have member : ∀ q ∈ xs, q ∈ layout (.queue slot) := fun q inside => by
    rw [first]
    exact List.mem_cons_of_mem _ inside
  have here : p ∈ layout (.queue slot) := by
    rw [first]
    exact List.mem_cons_self
  have result : s.deQ slot = some (p, s.store slot (s.nodes.setNext p none) q') := by
    simp [Scheduler.deQ, popped]
  refine ⟨_, result, rep.store level rest (fun other different q inside => ?_)
    (List.nodup_cons.mp nodup).2 (fun q inside => Or.inl (member q inside))
    (fun q inside => rep.bounded _ q (member q inside)) (fun k same q inside => ?_)
    (fun _ _ => rfl), by constructor <;> rfl, rfl, rfl⟩
  · have apart : q ≠ p := fun same => rep.not_mem here different (same ▸ inside)
    simp [Nodes.setNext, apart]
  · subst same
    exact rep.ranked k q (member q inside)

/-- **`enQ` appends the node** and gives it the level of the queue. A yielding node keeps its
priority, which must be that level already. -/
theorem enQ (rep : Rep s layout) {k : Nat} {p : NodePtr} (off : layout.Off p)
    (allocated : p < s.nodeNum)
    (yielding : s.nodes.status p = .yielding → s.nodes.priority p = k) :
    ∃ s', s.enQ (.runQ k) p = some s' ∧ Rep s' (layout.push (.queue (.runQ k)) p) ∧ Kept s s' ∧
      s'.nodes.priority = Function.update s.nodes.priority p k ∧
      s'.nodes.runtime = s.nodes.runtime := by
  have outside : p ∉ layout (.queue (.runQ k)) := off _
  obtain ⟨next, q', appended, queued, level, frame⟩ := enQ_spec (rep.queued (.runQ k)) outside
  have priority : (if layout (.queue (.runQ k)) ≠ [] ∧ s.nodes.status p = .yielding
      then s.nodes.priority
      else Function.update s.nodes.priority p (s.queues (.runQ k)).priorityLevel)
      = Function.update s.nodes.priority p k := by
    rw [rep.level]
    split
    · rename_i kept
      rw [← yielding kept.2, Function.update_eq_self]
    · rfl
  rw [priority] at appended
  have result : s.enQ (.runQ k) p = some (s.store (.runQ k) { s.nodes with
      next := next, priority := Function.update s.nodes.priority p k } q') := by
    simp [Scheduler.enQ, appended]
  refine ⟨_, result, rep.store level queued (fun other different x member => ?_) ?_
    (fun x inside => ?_) (fun x inside => ?_) (fun j same x inside => ?_) (fun x placed => ?_),
    by constructor <;> rfl, rfl, rfl⟩
  · exact frame x (fun same => off other (same ▸ member)) fun here =>
      rep.not_mem here different member
  · exact List.nodup_append.mpr ⟨rep.nodup _, by simp, by
      intro a member b single
      rw [List.mem_singleton.mp single]
      exact fun same => outside (same ▸ member)⟩
  · rcases List.mem_append.mp inside with member | single
    · exact Or.inl member
    · rw [List.mem_singleton.mp single]
      exact Or.inr off
  · rcases List.mem_append.mp inside with member | single
    · exact rep.bounded _ x member
    · rw [List.mem_singleton.mp single]
      exact allocated
  · cases same
    rcases List.mem_append.mp inside with member | single
    · exact (Function.update_of_ne (fun same : x = p => outside (same ▸ member)) _ _).trans
        (rep.ranked k x member)
    · rw [List.mem_singleton.mp single]
      exact Function.update_self _ _ _
  · exact Function.update_of_ne (fun same : x = p => placed (same ▸ off)) _ _

/-- The nodes of one place are no more than the nodes allocated. -/
theorem length_le (rep : Rep s layout) (place : Place) : (layout place).length ≤ s.nodeNum := by
  have inside : layout place ⊆ List.range s.nodeNum := fun p member =>
    List.mem_range.mpr (rep.bounded place p member)
  simpa using (List.subperm_of_subset (rep.nodup place) inside).length_le

/-- **`insertByTime` inserts the node by its running time.** -/
theorem insertByTime (rep : Rep s layout) {i : Nat} {p : NodePtr} (off : layout.Off p)
    (allocated : p < s.nodeNum) :
    ∃ s', s.insertByTime (.promotionQ i) p = some s' ∧
      Rep s' (Function.update layout (.queue (.promotionQ i))
        (insertTime s.nodes.runtime p (layout (.queue (.promotionQ i))))) ∧
      Kept s s' ∧ s'.nodes.priority = s.nodes.priority ∧ s'.nodes.runtime = s.nodes.runtime := by
  have outside : p ∉ layout (.queue (.promotionQ i)) := off _
  have members := fun x => (insertTime_perm s.nodes.runtime p
    (layout (.queue (.promotionQ i)))).mem_iff (a := x)
  obtain ⟨next, q', result, after, level, frame⟩ :=
    insertByTime_spec (rep.queued (.promotionQ i)) outside (rep.length_le _)
  have stored : s.insertByTime (.promotionQ i) p
      = some (s.store (.promotionQ i) { s.nodes with next := next } q') := by
    simp [Scheduler.insertByTime, result]
  refine ⟨_, stored, rep.store level after (fun other different x member => ?_)
    ((insertTime_perm _ _ _).nodup_iff.mpr (List.nodup_cons.mpr ⟨outside, rep.nodup _⟩))
    (fun x inside => ?_) (fun x inside => ?_) (fun k same => by cases same) (fun _ _ => rfl),
    by constructor <;> rfl, rfl, rfl⟩
  · exact frame x (fun same => off other (same ▸ member)) fun here =>
      rep.not_mem here different member
  · rcases List.mem_cons.mp ((members x).mp inside) with rfl | member
    · exact Or.inr off
    · exact Or.inl member
  · rcases List.mem_cons.mp ((members x).mp inside) with rfl | member
    · exact allocated
    · exact rep.bounded _ x member

/-! ### The join list -/

/-- An operation on the join list. -/
theorem storeJoin (rep : Rep s layout) {next : NodePtr → Option NodePtr}
    {joinList : Option NodePtr} {xs : List NodePtr} (here : Linked next joinList xs)
    (frame : ∀ slot, ∀ p ∈ layout (.queue slot), next p = s.nodes.next p) (nodup : xs.Nodup)
    (members : ∀ p ∈ xs, p ∈ layout .join ∨ layout.Off p) (bounded : ∀ p ∈ xs, p < s.nodeNum) :
    Rep { s with nodes := { s.nodes with next := next }, joinList := joinList }
      (Function.update layout .join xs) := by
  refine rep.change rep.level here (fun _ _ => rfl) (fun different => absurd rfl different)
    (fun other different p member => ?_) nodup members (fun k p inside => ?_) bounded le_rfl
  · cases other with
    | queue slot => exact frame slot p member
    | join => exact absurd rfl different
  · rw [Function.update_of_ne (by simp)] at inside
    exact rep.ranked k p inside

/-- **`insertToList` puts the node in front of the join list.** -/
theorem insertToList (rep : Rep s layout) {p : NodePtr} (off : layout.Off p)
    (allocated : p < s.nodeNum) :
    Rep (s.insertToList p) (Function.update layout .join (p :: layout .join)) := by
  refine rep.storeJoin (rep.joined.push (off .join)) (fun slot x member => ?_)
    (List.nodup_cons.mpr ⟨off .join, rep.nodup .join⟩) (fun x inside => ?_) (fun x inside => ?_)
  · exact Function.update_of_ne (fun same : x = p => off _ (same ▸ member)) _ _
  · rcases List.mem_cons.mp inside with rfl | member
    · exact Or.inr off
    · exact Or.inl member
  · rcases List.mem_cons.mp inside with rfl | member
    · exact allocated
    · exact rep.bounded _ x member

/-- **The walk of `removeFromList`**, with `front` behind it: it removes the first node whose
thread has the id. -/
theorem removeFromListLoop (rep : Rep s layout) {id : Nat} :
    ∀ (rest front : List NodePtr) (fuel : Nat) (ptr : Option NodePtr),
      layout .join = front ++ rest → (∃ p ∈ rest, s.idOf p = id) → Linked s.nodes.next ptr rest →
      rest.length ≤ fuel →
      ∃ p next joinList, s.removeFromListLoop id fuel front.getLast? ptr
          = some (some p, { s with
              nodes := { s.nodes with next := next }, joinList := joinList }) ∧
        p ∈ rest ∧ s.idOf p = id ∧
        Rep { s with nodes := { s.nodes with next := next }, joinList := joinList }
          (Function.update layout .join ((layout .join).erase p)) := by
  intro rest
  induction rest with
  | nil =>
    rintro front fuel ptr split ⟨p, member, _⟩
    cases member
  | cons y ys ih =>
    intro front fuel ptr split found atRest enough
    obtain ⟨rfl, rest⟩ := atRest
    obtain ⟨fuel, rfl⟩ : ∃ less, fuel = less + 1 :=
      ⟨fuel - 1, by simp only [List.length_cons] at enough; omega⟩
    have nodup := rep.nodup .join
    have member : y ∈ layout .join := by
      rw [split]
      simp
    have linked := rep.joined
    by_cases here : s.idOf y = id
    · -- the list without `y`, whatever the pointers that represent it
      have finish : ∀ next joinList, Linked next joinList ((layout .join).erase y) →
          (∀ slot, ∀ p ∈ layout (.queue slot), next p = s.nodes.next p) →
          Rep { s with nodes := { s.nodes with next := next }, joinList := joinList }
            (Function.update layout .join ((layout .join).erase y)) := fun next joinList after frame =>
        rep.storeJoin after frame (nodup.erase y) (fun p inside => Or.inl (List.mem_of_mem_erase inside))
          (fun p inside => rep.bounded _ p (List.mem_of_mem_erase inside))
      have apart : ∀ p ∈ layout .join, ∀ slot, ∀ x ∈ layout (.queue slot), x ≠ p :=
        fun p inside slot x other same => rep.not_mem inside (by simp) (same ▸ other)
      rcases List.eq_nil_or_concat' front with rfl | ⟨before, last, rfl⟩
      · rw [List.nil_append] at split
        rw [split] at linked nodup
        have after := linked.pop (List.nodup_cons.mp nodup).1
        refine ⟨y, Function.update s.nodes.next y none, s.nodes.next y, ?_, by simp, here,
          finish _ _ ?_ fun slot x other => ?_⟩
        · simp [Scheduler.removeFromListLoop, here, Nodes.setNext]
        · rw [split, List.erase_cons_head]
          exact after.2
        · exact Function.update_of_ne (apart y member slot x other) _ _
      · rw [List.append_assoc, List.singleton_append] at split
        have lastMember : last ∈ layout .join := by
          rw [split]
          simp
        have erased : (layout .join).erase y = before ++ last :: ys := by
          rw [split] at nodup ⊢
          have outside : y ∉ before ++ [last] := by
            intro inside
            have shape : before ++ last :: y :: ys = (before ++ [last]) ++ y :: ys := by simp
            rw [shape] at nodup
            exact (List.nodup_append.mp nodup).2.2 y inside y (by simp) rfl
          have shape : before ++ last :: y :: ys = (before ++ [last]) ++ (y :: ys) := by simp
          rw [shape, List.erase_append_right _ outside, List.erase_cons_head]
          simp
        rw [split] at linked nodup
        refine ⟨y, Function.update (Function.update s.nodes.next last (s.nodes.next y)) y none,
          s.joinList, ?_, by simp, here, finish _ _ ?_ fun slot x other => ?_⟩
        · simp [Scheduler.removeFromListLoop, here, Nodes.setNext]
        · rw [erased]
          exact linked.remove nodup
        · rw [Function.update_of_ne (apart y member slot x other),
            Function.update_of_ne (apart last lastMember slot x other)]
    · have moved : layout .join = (front ++ [y]) ++ ys := by rw [split]; simp
      have later : ∃ p ∈ ys, s.idOf p = id := by
        obtain ⟨p, inside, same⟩ := found
        rcases List.mem_cons.mp inside with rfl | inside
        · exact absurd same here
        · exact ⟨p, inside, same⟩
      obtain ⟨p, next, joinList, result, inside, same, after⟩ := ih (front ++ [y]) fuel
        (s.nodes.next y) moved later rest (by simp only [List.length_cons] at enough; omega)
      refine ⟨p, next, joinList, ?_, List.mem_cons_of_mem _ inside, same, after⟩
      rw [List.getLast?_concat] at result
      simpa [Scheduler.removeFromListLoop, here] using result

/-- **`removeFromList` removes a node of a thread with the id**, when there is one. -/
theorem removeFromList (rep : Rep s layout) {id : Nat} (found : ∃ p ∈ layout .join, s.idOf p = id) :
    ∃ p s', s.removeFromList id = some (some p, s') ∧ p ∈ layout .join ∧ s.idOf p = id ∧
      Rep s' (Function.update layout .join ((layout .join).erase p)) ∧ Kept s s' ∧
      s'.nodes.priority = s.nodes.priority := by
  obtain ⟨p, next, joinList, result, member, same, after⟩ := rep.removeFromListLoop (layout .join) []
    s.nodeNum s.joinList rfl found rep.joined (rep.length_le _)
  exact ⟨p, _, result, member, same, after, by constructor <;> rfl, rfl⟩

end Rep

end OS2017.Sched
