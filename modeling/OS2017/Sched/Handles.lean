/-
**Handles that are passed again.**

`my_pthread_create` fills in the record it is given, and pushes it on `scd->threads`, whether or not a
thread was created with it before. Each record that was ever given has an id of its own all the same;
and either the registry leads to every one of them, or it has become a cycle, where the search for an
id that is not on it never ends (`Roster`). So a search for the id of a record that was given finds
that record, if it ends at all (`Roster.find`).
-/

import OS2017.Sched.Values

namespace OS2017.Sched

open OS2017.Intrusive

/-- A thread has the record, or had it. -/
def Recorded (s : Scheduler) (ptr : Handle) : Prop := ∃ q < s.nodeNum, s.nodes.threadID q = ptr

/-- Some `my_pthread_create` was given the record. -/
def Given (s : Scheduler) (ptr : Handle) : Prop :=
  ∃ q, 1 ≤ q ∧ q < s.nodeNum ∧ s.nodes.threadID q = ptr

theorem Given.recorded {s : Scheduler} {ptr : Handle} (given : Given s ptr) : Recorded s ptr := by
  obtain ⟨q, _, bound, handle⟩ := given
  exact ⟨q, bound, handle⟩

/-- The registry never ends. -/
def Endless (s : Scheduler) : Prop :=
  s.threadList ≠ none ∧ ∀ ptr, OnList s.threads.next s.threadList ptr → s.threads.next ptr ≠ none

/-- **The registry**, whatever handles the creates were given. -/
structure Roster (s : Scheduler) : Prop where
  started : 1 ≤ s.nodeNum
  threadNum : s.threadNum = s.nodeNum + 1
  bounded : ∀ ptr, Recorded s ptr → s.threads.id ptr < s.threadNum
  distinct : ∀ ptr other, Recorded s ptr → Recorded s other →
    s.threads.id ptr = s.threads.id other → ptr = other
  given : ∀ ptr, OnList s.threads.next s.threadList ptr → Given s ptr
  complete : (∀ ptr, Given s ptr → OnList s.threads.next s.threadList ptr) ∨ Endless s

/-- The record of a new thread is the only new one. -/
theorem Created.recorded {s s' : Scheduler} {thread ptr : Handle} (new : Created s thread s')
    (known : Recorded s' ptr) : ptr = thread ∨ Recorded s ptr := by
  obtain ⟨q, bound, handle⟩ := known
  rw [new.nodeNum] at bound
  rw [new.threadID, Function.update_apply] at handle
  by_cases last : q = s.nodeNum
  · rw [if_pos last] at handle
    exact Or.inl handle.symm
  · rw [if_neg last] at handle
    exact Or.inr ⟨q, by omega, handle⟩

theorem Created.given {s s' : Scheduler} {thread ptr : Handle} (new : Created s thread s')
    (started : 1 ≤ s.nodeNum) : Given s' ptr ↔ ptr = thread ∨ Given s ptr := by
  unfold Given
  rw [new.nodeNum, new.threadID]
  constructor
  · rintro ⟨q, positive, bound, handle⟩
    rw [Function.update_apply] at handle
    by_cases last : q = s.nodeNum
    · rw [if_pos last] at handle
      exact Or.inl handle.symm
    · rw [if_neg last] at handle
      exact Or.inr ⟨q, positive, by omega, handle⟩
  · rintro (rfl | ⟨q, positive, bound, handle⟩)
    · exact ⟨s.nodeNum, started, by omega, by rw [Function.update_self]⟩
    · exact ⟨q, positive, by omega, by rw [Function.update_of_ne (ne_of_lt bound), handle]⟩

/-- **A search that fails** has gone through a list without the id. -/
theorem findThreadLoop_none {s : Scheduler} {id : Nat} :
    ∀ (fuel : Nat) (start : Option Handle), s.findThreadLoop id fuel start = some none →
      ∃ records, Linked s.threads.next start records ∧ ∀ ptr ∈ records, s.threads.id ptr ≠ id := by
  intro fuel
  induction fuel with
  | zero =>
    intro start failed
    cases start with
    | none => exact ⟨[], rfl, by simp⟩
    | some _ => cases failed
  | succ fuel ih =>
    intro start failed
    cases start with
    | none => exact ⟨[], rfl, by simp⟩
    | some first =>
      unfold Scheduler.findThreadLoop at failed
      by_cases same : s.threads.id first = id
      · rw [if_pos same] at failed
        cases failed
      · rw [if_neg same] at failed
        obtain ⟨records, linked, others⟩ := ih _ failed
        refine ⟨first :: records, ⟨rfl, linked⟩, fun ptr member => ?_⟩
        rcases List.mem_cons.mp member with rfl | inside
        · exact same
        · exact others ptr inside

/-- A list ends. -/
theorem Endless.not_linked {s : Scheduler} (endless : Endless s) {records : List Handle}
    (linked : Linked s.threads.next s.threadList records) : False := by
  obtain ⟨nonempty, goesOn⟩ := endless
  cases last : records.getLast? with
  | none =>
    rw [List.getLast?_eq_none_iff.mp last] at linked
    exact nonempty linked
  | some ptr =>
    exact goesOn ptr ((linked.onList_iff ptr).mpr (List.mem_of_getLast? last)) (linked.next_last last)

namespace Roster

variable {s s' : Scheduler}

/-- **A search for a record that was given finds it**, if it ends. -/
theorem find (roster : Roster s) {ptr : Handle} (given : Given s ptr)
    (searched : s.findThread (s.threads.id ptr) ≠ none) :
    s.findThread (s.threads.id ptr) = some (some ptr) := by
  obtain ⟨found, result⟩ := Option.ne_none_iff_exists'.mp searched
  cases found with
  | none =>
    obtain ⟨records, linked, others⟩ := findThreadLoop_none _ _ result
    rcases roster.complete with complete | endless
    · exact absurd rfl (others ptr ((linked.onList_iff ptr).mp (complete ptr given)))
    · exact (endless.not_linked linked).elim
  | some other =>
    have known := roster.given other (findThreadLoop_onList _ _ _ result)
    have same := roster.distinct other ptr known.recorded given.recorded (findThreadLoop_id _ _ _ result)
    rw [result, same]

/-- What does not touch the registry keeps it. -/
theorem of_same (roster : Roster s) (threadID : s'.nodes.threadID = s.nodes.threadID)
    (id : s'.threads.id = s.threads.id) (next : s'.threads.next = s.threads.next)
    (threadList : s'.threadList = s.threadList) (threadNum : s'.threadNum = s.threadNum)
    (nodeNum : s'.nodeNum = s.nodeNum) : Roster s' := by
  have recorded : ∀ ptr, Recorded s' ptr → Recorded s ptr := by
    rintro ptr ⟨q, bound, handle⟩
    exact ⟨q, nodeNum ▸ bound, threadID ▸ handle⟩
  have given : ∀ ptr, Given s' ptr ↔ Given s ptr := fun ptr => by
    unfold Given
    rw [nodeNum, threadID]
  refine ⟨nodeNum.symm ▸ roster.started, ?_, fun ptr member => ?_, fun ptr other left right same => ?_,
    fun ptr onList => ?_, ?_⟩
  · rw [threadNum, nodeNum]
    exact roster.threadNum
  · rw [id, threadNum]
    exact roster.bounded ptr (recorded ptr member)
  · rw [id] at same
    exact roster.distinct ptr other (recorded ptr left) (recorded other right) same
  · rw [next, threadList] at onList
    exact (given ptr).mpr (roster.given ptr onList)
  · unfold Endless
    rw [next, threadList]
    exact roster.complete.imp_left fun complete ptr before => complete ptr ((given ptr).mp before)

/-- **A create keeps it**, whatever record it is given. -/
theorem created (roster : Roster s) {thread : Handle} (new : Created s thread s') : Roster s' := by
  have id' : s'.threads.id = Function.update s.threads.id thread s.threadNum := by
    rw [new.threads]
    rfl
  have next' : s'.threads.next = Function.update s.threads.next thread s.threadList := by
    rw [new.threads]
    rfl
  have recorded : ∀ ptr, Recorded s' ptr → ptr = thread ∨ Recorded s ptr := fun ptr => new.recorded
  have given : ∀ ptr, Given s' ptr ↔ ptr = thread ∨ Given s ptr := fun ptr =>
    new.given roster.started
  have push : ∀ {ptr}, OnList s'.threads.next s'.threadList ptr ↔
      OnList (Function.update s.threads.next thread s.threadList) (some thread) ptr := by
    intro ptr
    rw [next', new.threadList]
  refine ⟨?_, ?_, fun ptr member => ?_, fun ptr other left right same => ?_, fun ptr onList => ?_, ?_⟩
  · rw [new.nodeNum]
    omega
  · rw [new.threadNum, new.nodeNum, roster.threadNum]
  · rw [id', new.threadNum, Function.update_apply]
    by_cases same : ptr = thread
    · rw [if_pos same]
      exact Nat.lt_succ_self _
    · rw [if_neg same]
      exact Nat.lt_succ_of_lt (roster.bounded ptr ((recorded ptr member).resolve_left same))
  · rw [id', Function.update_apply, Function.update_apply] at same
    by_cases first : ptr = thread <;> by_cases second : other = thread
    · rw [first, second]
    · rw [if_pos first, if_neg second] at same
      exact absurd same (ne_of_gt (roster.bounded other ((recorded other right).resolve_left second)))
    · rw [if_neg first, if_pos second] at same
      exact absurd same (ne_of_lt (roster.bounded ptr ((recorded ptr left).resolve_left first)))
    · rw [if_neg first, if_neg second] at same
      exact roster.distinct ptr other ((recorded ptr left).resolve_left first)
        ((recorded other right).resolve_left second) same
  · exact (given ptr).mpr ((push.mp onList).of_push.imp_right (roster.given ptr))
  · by_cases before : OnList s.threads.next s.threadList thread
    · -- the record was on the list: the list is a cycle now
      refine Or.inr ⟨by rw [new.threadList]; simp, fun ptr onList => ?_⟩
      rw [next']
      exact before.push_endless (push.mp onList)
    · refine roster.complete.imp (fun complete ptr known => push.mpr ?_) fun endless => ?_
      · rcases (given ptr).mp known with rfl | old
        · exact .here ptr
        · exact (complete ptr old).push before
      · refine ⟨by rw [new.threadList]; simp, fun ptr onList => ?_⟩
        rw [next', Function.update_apply]
        by_cases same : ptr = thread
        · rw [if_pos same]
          exact endless.1
        · rw [if_neg same]
          exact endless.2 ptr ((push.mp onList).of_push.resolve_left same)

end Roster

end OS2017.Sched
