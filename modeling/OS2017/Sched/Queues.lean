/-
**The queues of nodes are lists.**

`Queues K` is the node records and any number of queues over them. A node enters a queue with whatever
`next` its last container left in it. `Represents s lists`: along `next`, from its `head` to its
`rear`, every queue is its list, and no node is on two of them. Between the calls of `enQ`, `deQ` and
`insertByTime` other code may change every field of every record, the `next` of a queued node apart
(`elsewhere`). In every run whose inserted nodes are in no queue the pointers represent lists, and the
next operation, whichever it is, computes its list operation (`queues_refine_lists`).
-/

import OS2017.Lib.Run
import OS2017.Sched.Layout

namespace OS2017.Sched

open OS2017.Intrusive OS2017.Run

variable {K : Type}

/-- The node records, and queues over them. -/
structure Queues (K : Type) where
  nodes : Nodes
  queues : K → Queue

namespace Queues

/-- The node is in no queue. -/
def InNoQueue (s : Queues K) (p : NodePtr) : Prop :=
  ∀ k, ¬ OnList s.nodes.next (s.queues k).head p

/-- A list by its running times, none shorter than the next. -/
def SortedByTime (nodes : Nodes) (xs : List NodePtr) : Prop :=
  xs.Pairwise fun x y => nodes.runtime y ≤ nodes.runtime x

end Queues

/-- **The pointers represent the lists.** -/
structure Represents (s : Queues K) (lists : K → List NodePtr) : Prop where
  queued : ∀ k, Queued s.nodes.next (s.queues k).head (s.queues k).rear (lists k)
  apart : ∀ p k k', p ∈ lists k → p ∈ lists k' → k = k'

namespace Represents

variable {s : Queues K} {lists : K → List NodePtr}

/-- Empty queues, whatever the records hold. -/
theorem empty {s : Queues K} (heads : ∀ k, (s.queues k).head = none)
    (rears : ∀ k, (s.queues k).rear = none) : Represents s fun _ => [] :=
  ⟨fun k => ⟨heads k, rears k⟩, fun p _ _ member => by cases member⟩

theorem inNoQueue_iff (represents : Represents s lists) {p : NodePtr} :
    s.InNoQueue p ↔ ∀ k, p ∉ lists k :=
  forall_congr' fun k => not_congr ((represents.queued k).linked.onList_iff p)

/-- Following `next` meets no node twice. -/
theorem nodup (represents : Represents s lists) (k : K) : (lists k).Nodup :=
  (represents.queued k).linked.nodup

theorem head_none_iff_rear (represents : Represents s lists) (k : K) :
    (s.queues k).head = none ↔ (s.queues k).rear = none := by
  rw [(represents.queued k).head_none_iff, (represents.queued k).rear_eq, List.getLast?_eq_none_iff]

end Represents

/-- **The queues of the scheduler** are lists in this sense. -/
theorem Rep.represents {s : Scheduler} {layout : Layout} (rep : Rep s layout) :
    Represents (⟨s.nodes, s.queues⟩ : Queues Slot) fun slot => layout (.queue slot) := by
  refine ⟨rep.queued, fun p slot slot' here there => ?_⟩
  exact Place.queue.inj (rep.apart p (.queue slot) (.queue slot') here there)

variable [DecidableEq K]

/-! ### The operations -/

namespace Queues

/-- The state behind an operation on one queue. -/
def store (s : Queues K) (k : K) (nodes : Nodes) (q : Queue) : Queues K :=
  ⟨nodes, Function.update s.queues k q⟩

/-- `enQ(queues[k], p)`. -/
def enQ (s : Queues K) (k : K) (p : NodePtr) : Option (Queues K) :=
  (Sched.enQ s.nodes (s.queues k) p).map fun (nodes, q) => s.store k nodes q

/-- `deQ(queues[k])`: the removed node, if there is one. -/
def deQ (s : Queues K) (k : K) : Option (NodePtr × Queues K) :=
  (Sched.deQ s.nodes (s.queues k)).map fun (p, nodes, q) => (p, s.store k nodes q)

/-- `insertByTime(queues[k], p)`, with as many steps of its loop as the fuel. -/
def insertByTime (s : Queues K) (k : K) (p : NodePtr) (fuel : Nat) : Option (Queues K) :=
  (Sched.insertByTime s.nodes (s.queues k) p fuel).map fun (nodes, q) => s.store k nodes q

end Queues

/-- An event. -/
inductive QueueEvent (K : Type)
  | enQ (k : K) (p : NodePtr)
  | deQ (k : K)
  | insertByTime (k : K) (p : NodePtr)
  /-- code that is none of the three -/
  | elsewhere

namespace QueueEvent

/-- An inserted node is in no queue. -/
def Allowed (s : Queues K) : QueueEvent K → Prop
  | .enQ _ p => s.InNoQueue p
  | .insertByTime _ p => s.InNoQueue p
  | _ => True

end QueueEvent

/-- One event. -/
inductive QueueStep (s : Queues K) : QueueEvent K → Queues K → Prop
  | enQ {k : K} {p : NodePtr} {s' : Queues K} : s.enQ k p = some s' → QueueStep s (.enQ k p) s'
  | deQ {k : K} {p : NodePtr} {s' : Queues K} : s.deQ k = some (p, s') → QueueStep s (.deQ k) s'
  | deQ_empty {k : K} : s.deQ k = none → QueueStep s (.deQ k) s
  | insertByTime {k : K} {p : NodePtr} {s' : Queues K} (fuel : Nat) :
      s.insertByTime k p fuel = some s' → QueueStep s (.insertByTime k p) s'
  | elsewhere {nodes : Nodes} :
      (∀ p, ¬ s.InNoQueue p → nodes.next p = s.nodes.next p) →
      QueueStep s .elsewhere ⟨nodes, s.queues⟩

namespace Represents

variable {s : Queues K} {lists : K → List NodePtr}

/-- **The shape of an operation**: one queue becomes the list `xs`, of its nodes and nodes that were
in no queue, and `next` changes only at those. -/
theorem store (represents : Represents s lists) {k : K} {nodes : Nodes} {q : Queue}
    {xs : List NodePtr} (here : Queued nodes.next q.head q.rear xs)
    (members : ∀ x ∈ xs, x ∈ lists k ∨ s.InNoQueue x)
    (frame : ∀ x, ¬ s.InNoQueue x → x ∉ lists k → nodes.next x = s.nodes.next x) :
    Represents (s.store k nodes q) (Function.update lists k xs) := by
  have elsewhere : ∀ other, other ≠ k → ∀ x ∈ lists other, ¬ s.InNoQueue x ∧ x ∉ lists k :=
    fun other different x member =>
      ⟨fun off => represents.inNoQueue_iff.mp off other member,
        fun inside => different (represents.apart x other k member inside)⟩
  have outside : ∀ other, other ≠ k → ∀ x ∈ lists other, x ∉ xs := by
    intro other different x member inside
    rcases members x inside with there | off
    · exact (elsewhere other different x member).2 there
    · exact (elsewhere other different x member).1 off
  refine ⟨fun other => ?_, fun x first second => ?_⟩
  · by_cases same : other = k
    · subst same
      simpa [Queues.store] using here
    · have kept : Queued nodes.next (s.queues other).head (s.queues other).rear (lists other) :=
        (represents.queued other).frame fun x member =>
          frame x (elsewhere other same x member).1 (elsewhere other same x member).2
      simpa [Queues.store, same] using kept
  · by_cases atFirst : first = k <;> by_cases atSecond : second = k
    · intro _ _
      rw [atFirst, atSecond]
    · subst atFirst
      rw [Function.update_self, Function.update_of_ne atSecond]
      exact fun inside member => absurd inside (outside second atSecond x member)
    · subst atSecond
      rw [Function.update_self, Function.update_of_ne atFirst]
      exact fun member inside => absurd inside (outside first atFirst x member)
    · rw [Function.update_of_ne atFirst, Function.update_of_ne atSecond]
      exact represents.apart x first second

/-- **`enQ` appends.** -/
theorem enQ (represents : Represents s lists) {k : K} {p : NodePtr} (off : s.InNoQueue p) :
    ∃ s', s.enQ k p = some s' ∧ Represents s' (Function.update lists k (lists k ++ [p])) := by
  have outside := represents.inNoQueue_iff.mp off
  obtain ⟨next, q', appended, queued, _, frame⟩ := enQ_spec (represents.queued k) (outside k)
  have result := congrArg (Option.map fun found : Nodes × Queue => s.store k found.1 found.2) appended
  refine ⟨_, result, represents.store queued (fun x inside => ?_)
    fun x placed notMember => frame x (fun same => placed (same ▸ off)) notMember⟩
  rcases List.mem_append.mp inside with member | single
  · exact Or.inl member
  · rw [List.mem_singleton.mp single]
    exact Or.inr off

theorem deQ_empty (represents : Represents s lists) {k : K} (empty : lists k = []) :
    s.deQ k = none := by
  have queued := represents.queued k
  rw [empty] at queued
  simp [Queues.deQ, Sched.deQ_empty queued]

/-- **`deQ` removes the first node**, and cuts it loose. -/
theorem deQ (represents : Represents s lists) {k : K} {p : NodePtr} {rest : List NodePtr}
    (first : lists k = p :: rest) :
    ∃ s', s.deQ k = some (p, s') ∧ s'.nodes.next p = none ∧
      Represents s' (Function.update lists k rest) := by
  have queued := represents.queued k
  rw [first] at queued
  obtain ⟨q', popped, after, _⟩ := deQ_spec queued
  refine ⟨s.store k _ q', by simp [Queues.deQ, popped], by simp [Queues.store, Nodes.setNext],
    represents.store after (fun x member => Or.inl ?_) fun x _ notMember => ?_⟩
  · rw [first]
    exact List.mem_cons_of_mem _ member
  · have apart : x ≠ p := fun same => notMember (by rw [first, same]; exact List.mem_cons_self)
    simp [Nodes.setNext, apart]

/-- **`insertByTime` inserts by the running time**, and its loop ends. -/
theorem insertByTime (represents : Represents s lists) {k : K} {p : NodePtr} (off : s.InNoQueue p)
    {fuel : Nat} (enough : (lists k).length ≤ fuel) :
    ∃ s', s.insertByTime k p fuel = some s' ∧ s'.nodes.runtime = s.nodes.runtime ∧
      Represents s' (Function.update lists k (insertTime s.nodes.runtime p (lists k))) := by
  have outside := represents.inNoQueue_iff.mp off
  obtain ⟨next, q', inserted, queued, _, frame⟩ :=
    insertByTime_spec (represents.queued k) (outside k) enough
  have result := congrArg (Option.map fun found : Nodes × Queue => s.store k found.1 found.2) inserted
  refine ⟨_, result, rfl, represents.store queued (fun x inside => ?_)
    fun x placed notMember => frame x (fun same => placed (same ▸ off)) notMember⟩
  rcases List.mem_cons.mp ((insertTime_perm _ _ _).mem_iff.mp inside) with rfl | member
  · exact Or.inr off
  · exact Or.inl member

end Represents

/-! ### Every run -/

/-- More fuel changes nothing. -/
theorem insertByTimeLoop_more {nodes : Nodes} {q : Queue} {p : NodePtr} {result : Nodes × Queue} :
    ∀ {fuel more : Nat} {prev ptr : Option NodePtr},
      insertByTimeLoop nodes q p fuel prev ptr = some result → fuel ≤ more →
      insertByTimeLoop nodes q p more prev ptr = some result := by
  intro fuel
  induction fuel with
  | zero =>
    intro more prev ptr ran _
    cases ptr with
    | none => cases more <;> exact ran
    | some ptr => cases ran
  | succ fuel ih =>
    intro more prev ptr ran enough
    obtain ⟨more, rfl⟩ : ∃ less, more = less + 1 := ⟨more - 1, by omega⟩
    cases ptr with
    | none => exact ran
    | some ptr =>
      unfold insertByTimeLoop at ran ⊢
      split
      · rename_i longer
        rw [if_pos longer] at ran
        exact ran
      · rename_i shorter
        rw [if_neg shorter] at ran
        exact ih ran (by omega)

theorem Queues.insertByTime_more {s s' : Queues K} {k : K} {p : NodePtr} {fuel more : Nat}
    (ran : s.insertByTime k p fuel = some s') (enough : fuel ≤ more) :
    s.insertByTime k p more = some s' := by
  obtain ⟨result, inserted, same⟩ := Option.map_eq_some_iff.mp ran
  refine Option.map_eq_some_iff.mpr ⟨result, ?_, same⟩
  unfold Sched.insertByTime at inserted ⊢
  cases head : (s.queues k).head with
  | none =>
    rw [head] at inserted
    exact inserted
  | some first =>
    rw [head] at inserted
    exact insertByTimeLoop_more inserted enough

/-- **One step keeps the queues lists.** -/
theorem represents_step {s s' : Queues K} {event : QueueEvent K}
    (represents : ∃ lists, Represents s lists) (allowed : event.Allowed s)
    (step : QueueStep s event s') : ∃ lists, Represents s' lists := by
  obtain ⟨lists, represents⟩ := represents
  cases step with
  | @enQ k p _ ran =>
    obtain ⟨_, result, after⟩ := represents.enQ (k := k) allowed
    cases ran.symm.trans result
    exact ⟨_, after⟩
  | @deQ k p _ ran =>
    cases first : lists k with
    | nil => cases ran.symm.trans (represents.deQ_empty first)
    | cons head rest =>
      obtain ⟨_, result, _, after⟩ := represents.deQ first
      cases ran.symm.trans result
      exact ⟨_, after⟩
  | deQ_empty => exact ⟨lists, represents⟩
  | @insertByTime k p _ fuel ran =>
    obtain ⟨_, result, _, after⟩ := represents.insertByTime (k := k) allowed
      (Nat.le_add_left (lists k).length fuel)
    cases (Queues.insertByTime_more ran (Nat.le_add_right fuel _)).symm.trans result
    exact ⟨_, after⟩
  | @elsewhere nodes kept =>
    refine ⟨lists, fun k => (represents.queued k).frame fun x member => kept x ?_, represents.apart⟩
    exact fun off => represents.inNoQueue_iff.mp off k member

/-- **Queues refine lists.** After every run whose inserted nodes are in no queue, each queue is a
finite list without a repetition, from `head` along `next` to `rear`; `enQ` appends, `deQ` removes the
first node and sets its `next` to `NULL`, and `insertByTime` ends and puts the node into a sorted list
behind the nodes that have run as long, in front of those that have run shorter. -/
theorem queues_refine_lists {s : Queues K}
    (reached : Reach (fun start : Queues K => ∃ lists, Represents start lists)
      (fun s event => event.Allowed s) QueueStep s) :
    ∃ lists, Represents s lists ∧ (∀ k, (lists k).Nodup) ∧
      (∀ k, (s.queues k).head = none ↔ (s.queues k).rear = none) ∧
      (∀ k p, s.InNoQueue p →
        ∃ s', s.enQ k p = some s' ∧ Represents s' (Function.update lists k (lists k ++ [p]))) ∧
      (∀ k, lists k = [] → s.deQ k = none) ∧
      (∀ k p rest, lists k = p :: rest → ∃ s', s.deQ k = some (p, s') ∧ s'.nodes.next p = none ∧
        Represents s' (Function.update lists k rest)) ∧
      (∀ k p, s.InNoQueue p → ∃ s' front back,
        (∀ fuel ≥ (lists k).length, s.insertByTime k p fuel = some s') ∧
        lists k = front ++ back ∧ Represents s' (Function.update lists k (front ++ p :: back)) ∧
        (Queues.SortedByTime s.nodes (lists k) →
          (∀ x ∈ front, s.nodes.runtime p ≤ s.nodes.runtime x) ∧
          (∀ x ∈ back, s.nodes.runtime x < s.nodes.runtime p) ∧
          Queues.SortedByTime s'.nodes (front ++ p :: back))) := by
  obtain ⟨lists, represents⟩ := reached.invariant (fun s => ∃ lists, Represents s lists)
    (fun _ started => started) fun _ _ _ inv allowed step => represents_step inv allowed step
  refine ⟨lists, represents, represents.nodup, represents.head_none_iff_rear,
    fun k p off => represents.enQ off, fun k empty => represents.deQ_empty empty,
    fun k p rest first => represents.deQ first, fun k p off => ?_⟩
  obtain ⟨s', result, runtime, after⟩ := represents.insertByTime (k := k) off le_rfl
  obtain ⟨front, back, whole, inserted, before, behind⟩ :=
    insertTime_split s.nodes.runtime p (lists k)
  rw [inserted] at after
  refine ⟨s', front, back, fun fuel enough => Queues.insertByTime_more result enough, whole, after,
    fun sorted => ⟨before, ?_, ?_⟩⟩
  · -- the first node behind has run shorter, and the list is sorted
    unfold Queues.SortedByTime at sorted
    rw [whole] at sorted
    have sortedBack := (List.pairwise_append.mp sorted).2.1
    cases back with
    | nil => exact fun x member => by cases member
    | cons y ys =>
      have first : s.nodes.runtime y < s.nodes.runtime p := behind y rfl
      intro x member
      rcases List.mem_cons.mp member with rfl | later
      · exact first
      · exact lt_of_le_of_lt ((List.pairwise_cons.mp sortedBack).1 x later) first
  · unfold Queues.SortedByTime at sorted ⊢
    rw [runtime, ← inserted]
    exact insertTime_sorted sorted

/-- Records with a `next` from elsewhere, and an empty queue. -/
def staleQueues : Queues Unit where
  nodes :=
    { threadID := fun _ => .main
      ut := fun _ => ⟨false, .code⟩
      priority := fun _ => 0
      timeCreated := fun _ => 0
      runtime := fun p => if p = 3 then 1 else 2
      status := fun _ => .neutral
      joinee := fun _ => none
      next := fun p => some (p + 1) }
  queues := fun _ => ⟨none, none, 0⟩

/-- The node that has run longer comes first, and `deQ` removes it. -/
theorem queues_refine_lists_stale : ∃ s s' : Queues Unit, staleQueues.enQ () 3 = some s ∧
    s.insertByTime () 5 1 = some s' ∧
    ∃ lists, Represents s' lists ∧ lists () = [5, 3] ∧ ∃ s'', s'.deQ () = some (5, s'') := by
  have start : Represents staleQueues fun _ => [] := .empty (fun _ => rfl) fun _ => rfl
  have off : staleQueues.InNoQueue 3 := start.inNoQueue_iff.mpr fun _ => List.not_mem_nil
  obtain ⟨s, ran, first⟩ := start.enQ (k := ()) off
  have off' : s.InNoQueue 5 := first.inNoQueue_iff.mpr fun _ => by simp
  have enough : (Function.update (fun _ : Unit => ([] : List NodePtr)) () ([] ++ [3]) ()).length ≤ 1 :=
    by simp
  obtain ⟨s', ran', _, second⟩ := first.insertByTime (k := ()) off' enough
  have reached : Reach (fun start : Queues Unit => ∃ lists, Represents start lists)
      (fun s event => event.Allowed s) QueueStep s' :=
    .next (.next (.init ⟨_, start⟩) (e := .enQ () 3) off (.enQ ran)) (e := .insertByTime () 5) off'
      (.insertByTime 1 ran')
  obtain ⟨lists, represents, _, _, _, _, removes, _⟩ := queues_refine_lists reached
  have longer : insertTime s.nodes.runtime 5 [3] = [5, 3] := by
    cases ran
    decide
  have same : lists () = [5, 3] := by
    rw [← longer]
    exact (represents.queued ()).linked.unique (by simpa using (second.queued ()).linked)
  obtain ⟨s'', removed, _⟩ := removes () 5 [3] same
  exact ⟨s, s', ran, ran', lists, represents, same, s'', removed⟩

end OS2017.Sched
