/-
**Which mutexes can be locked.**

`my_pthread_mutex_init` pushes a mutex on `mutexList` and gives it the next id;
`my_pthread_mutex_destroy` searches the list for the id, unlinks the record it finds and clears it.
The calls are made one after another, on any number of mutexes whose memory starts zeroed
(`Call`, `exec`); `live` logs which mutexes are initialised and not yet destroyed.

### The list

In every run that initialises no mutex twice, `mutexList` holds the live mutexes, each once
(`Tracked`). Their ids are positive and distinct, the ids of all others are `0` or `-1`, so the
search of `destroy` finds the mutex it was called on or nothing (`removeFromMutexList_spec`).

### The guard of `lock`

`my_pthread_mutex_lock` refuses a mutex whose `isInit` is not `1` **and** whose id is on the list.
A live mutex fails the first half and any other mutex the second, so the guard never refuses
anything (`Tracked.lock_dead`): without a list the search dereferences `NULL`, and with one the
call goes on to take the lock of a mutex that was never initialised, or was destroyed.
-/

import OS2017.Mutex
import OS2017.Lib.Intrusive

namespace OS2017.Mutex

open OS2017.Run OS2017.Intrusive

/-! ### The calls -/

/-- The loop of `removeFromMutexList`: the record found, if any, and the last record passed. -/
def removeWalk (cells : Addr → MutexT) (mID : Int) :
    Nat → Option Addr → Option Addr → Option (Option Addr × Option Addr)
  | _, prev, none => some (none, prev)
  | 0, _, some _ => none
  | fuel + 1, prev, some ptr =>
    if (cells ptr).mutexID ≠ mID then removeWalk cells mID fuel (some ptr) (cells ptr).next
    else some (some ptr, prev)

/-- `removeFromMutexList`: without a list the source dereferences `NULL`. -/
def removeFromMutexList (env : MutexEnv) (mID : Int) : Option (Option Addr × MutexEnv) :=
  env.mutexList.bind fun head =>
    (removeWalk env.cells mID env.currMutexID none head).map fun
      | (none, _) => (none, env)
      | (some ptr, none) => (some ptr, { env with mutexList := some (env.cells ptr).next })
      | (some ptr, some prev) =>
        (some ptr, env.set prev { env.cells prev with next := (env.cells ptr).next })

/-- `my_pthread_mutex_destroy`: the return value. -/
def my_pthread_mutex_destroy (env : MutexEnv) (mutex : Addr) : Option (Int × MutexEnv) :=
  (removeFromMutexList env (env.cells mutex).mutexID).map fun
    | (none, env) => (-1, env)
    | (some mFromList, env) =>
      (0, env.set mFromList { isLocked := 0, mutexID := -1, isInit := 0, next := none })

/-- What a call of `my_pthread_mutex_lock` does up to its first test-and-set: return, or keep
spinning. -/
inductive LockOutcome
  | returns (value : Int)
  | spins
  deriving DecidableEq

/-- `my_pthread_mutex_lock`, up to its first test-and-set. -/
def my_pthread_mutex_lock (env : MutexEnv) (mutex : Addr) : Option (LockOutcome × MutexEnv) :=
  (lockRefused env mutex).map fun refused =>
    if refused then (.returns (-1), env)
    else (if (env.cells mutex).isLocked ≠ 0 then .spins else .returns 0, env.setLocked mutex 1)

/-- `my_pthread_mutex_unlock`: the release, then the plain store. -/
def my_pthread_mutex_unlock (env : MutexEnv) (mutex : Addr) : MutexEnv :=
  (env.setLocked mutex 0).setLocked mutex 0

/-- The mutex records, and which mutexes have been initialised and not yet destroyed. -/
structure Log where
  env : MutexEnv
  live : Addr → Bool

/-- One call. `allocated` says whether the allocation of the list succeeds. -/
inductive Call
  | init (mutex : Addr) (allocated : Bool)
  | lock (mutex : Addr)
  | unlock (mutex : Addr)
  | destroy (mutex : Addr)

/-- The largest `int`. -/
def INT_MAX : Nat := 2147483647

/-- **One call, logged.** A crash has no next state, nor has an increment of `currMutexID` that
overflows. -/
def call (log : Log) : Call → Option Log
  | .init mutex allocated =>
    if log.env.currMutexID = INT_MAX then none
    else (my_pthread_mutex_init log.env mutex allocated).map fun env =>
      { env, live := Function.update log.live mutex true }
  | .lock mutex =>
    (my_pthread_mutex_lock log.env mutex).map fun result => { log with env := result.2 }
  | .unlock mutex => some { log with env := my_pthread_mutex_unlock log.env mutex }
  | .destroy mutex =>
    (my_pthread_mutex_destroy log.env mutex).map fun result =>
      { env := result.2, live := Function.update log.live mutex false }

/-- No call yet: zeroed memory and no list. -/
def Zeroed (log : Log) : Prop :=
  log = ⟨⟨fun _ => ⟨0, 0, 0, none⟩, none, 0⟩, fun _ => false⟩

/-- Only mutexes that are not initialised are initialised. -/
def InitsDead (log : Log) : Call → Prop
  | .init mutex _ => log.live mutex = false
  | _ => True

instance (log : Log) : (c : Call) → Decidable (InitsDead log c)
  | .init mutex _ => inferInstanceAs (Decidable (log.live mutex = false))
  | .lock _ => isTrue trivial
  | .unlock _ => isTrue trivial
  | .destroy _ => isTrue trivial

/-- The `next` fields. -/
def MutexEnv.next (env : MutexEnv) (mutex : Addr) : Option Addr := (env.cells mutex).next

/-- **`mutexList` holds exactly the live mutexes, each once**; a list that is not there holds
none. -/
def ListsLive (log : Log) : Prop :=
  ∃ records, Linked log.env.next log.env.mutexList.join records ∧ records.Nodup ∧
    ∀ mutex, mutex ∈ records ↔ log.live mutex = true

/-- **A lock of this mutex, if it is not live, returns `-1` and changes nothing.** -/
def RefusesDead (log : Log) (mutex : Addr) : Prop :=
  log.live mutex = false →
    my_pthread_mutex_lock log.env mutex = some (.returns (-1), log.env)

/-! ### Fields that calls leave alone -/

namespace MutexEnv

theorem next_set (env : MutexEnv) (mutex : Addr) (cell : MutexT) :
    (env.set mutex cell).next = Function.update env.next mutex cell.next := by
  funext other
  by_cases same : other = mutex
  · subst same
    simp [next, set]
  · simp [next, set, Function.update_of_ne same]

theorem next_setLocked (env : MutexEnv) (mutex : Addr) (value : Int) :
    (env.setLocked mutex value).next = env.next := by
  rw [setLocked, next_set]
  exact Function.update_eq_self mutex env.next

theorem setLocked_mutexID (env : MutexEnv) (mutex : Addr) (value : Int) (other : Addr) :
    ((env.setLocked mutex value).cells other).mutexID = (env.cells other).mutexID := by
  by_cases same : other = mutex
  · subst same
    simp [setLocked, set]
  · simp [setLocked, set, Function.update_of_ne same]

theorem setLocked_isInit (env : MutexEnv) (mutex : Addr) (value : Int) (other : Addr) :
    ((env.setLocked mutex value).cells other).isInit = (env.cells other).isInit := by
  by_cases same : other = mutex
  · subst same
    simp [setLocked, set]
  · simp [setLocked, set, Function.update_of_ne same]

end MutexEnv

/-! ### The invariant -/

/-- **The invariant**: the list holds the live mutexes; these carry distinct positive ids, and every
other record carries none. -/
structure Tracked (log : Log) (records : List Addr) : Prop where
  linked : Linked log.env.next log.env.mutexList.join records
  live_iff : ∀ mutex, mutex ∈ records ↔ log.live mutex = true
  positive : ∀ mutex ∈ records, 0 < (log.env.cells mutex).mutexID
  below : ∀ mutex ∈ records, (log.env.cells mutex).mutexID ≤ log.env.currMutexID
  distinct : ∀ first ∈ records, ∀ second ∈ records,
    (log.env.cells first).mutexID = (log.env.cells second).mutexID → first = second
  unused : ∀ mutex, mutex ∉ records →
    (log.env.cells mutex).mutexID ≤ 0 ∧ (log.env.cells mutex).isInit ≠ 1
  counted : records.length ≤ log.env.currMutexID

theorem Tracked.listsLive {log : Log} {records : List Addr} (tracked : Tracked log records) :
    ListsLive log :=
  ⟨records, tracked.linked, tracked.linked.nodup, tracked.live_iff⟩

theorem Tracked.not_mem {log : Log} {records : List Addr} (tracked : Tracked log records)
    {mutex : Addr} (dead : log.live mutex = false) : mutex ∉ records := fun member => by
  rw [(tracked.live_iff mutex).mp member] at dead
  cases dead

/-- **The invariant survives** a change of the environment that keeps ids, links and the list. -/
theorem Tracked.frame {log : Log} {records : List Addr} (tracked : Tracked log records)
    {env : MutexEnv} (next : env.next = log.env.next) (list : env.mutexList = log.env.mutexList)
    (num : env.currMutexID = log.env.currMutexID)
    (ids : ∀ mutex, (env.cells mutex).mutexID = (log.env.cells mutex).mutexID)
    (inits : ∀ mutex, (env.cells mutex).isInit = (log.env.cells mutex).isInit) :
    Tracked { log with env } records where
  linked := by
    simp only [next, list]
    exact tracked.linked
  live_iff := tracked.live_iff
  positive mutex member := by
    simp only [ids]
    exact tracked.positive mutex member
  below mutex member := by
    simp only [ids, num]
    exact tracked.below mutex member
  distinct first inFirst second inSecond same := by
    simp only [ids] at same
    exact tracked.distinct first inFirst second inSecond same
  unused mutex outside := by
    simp only [ids, inits]
    exact tracked.unused mutex outside
  counted := by
    simp only [num]
    exact tracked.counted

theorem Tracked.setLocked {log : Log} {records : List Addr} (tracked : Tracked log records)
    (mutex : Addr) (value : Int) :
    Tracked { log with env := log.env.setLocked mutex value } records :=
  tracked.frame (MutexEnv.next_setLocked _ _ _) rfl rfl (MutexEnv.setLocked_mutexID _ _ _)
    (MutexEnv.setLocked_isInit _ _ _)

/-! ### Lock -/

/-- The search ends on a list it has fuel for, and finds no id that is not there. -/
theorem existsWalk_none {cells : Addr → MutexT} {mutexToCheck : Int} :
    ∀ {records : List Addr} {fuel : Nat} {start : Option Addr},
      Linked (fun mutex => (cells mutex).next) start records → records.length ≤ fuel →
      (∀ mutex ∈ records, (cells mutex).mutexID ≠ mutexToCheck) →
      existsWalk cells mutexToCheck fuel start = some false := by
  intro records
  induction records with
  | nil =>
    intro fuel start linked _ _
    have none_eq : start = none := linked
    subst none_eq
    cases fuel <;> rfl
  | cons ptr records ih =>
    intro fuel start linked enough absent
    obtain ⟨rfl, rest⟩ := linked
    cases fuel with
    | zero => simp at enough
    | succ fuel =>
      rw [existsWalk, if_neg (absent ptr List.mem_cons_self)]
      exact ih rest (Nat.le_of_succ_le_succ enough) fun mutex member =>
        absent mutex (List.mem_cons_of_mem _ member)

/-- **A mutex that is not live**: the guard dereferences `NULL`, or lets the call through. -/
theorem Tracked.lock_dead {log : Log} {records : List Addr} (tracked : Tracked log records)
    {mutex : Addr} (dead : log.live mutex = false) :
    lockRefused log.env mutex = log.env.mutexList.map fun _ => false := by
  have outside := tracked.not_mem dead
  obtain ⟨unnamed, uninit⟩ := tracked.unused mutex outside
  rw [lockRefused, if_pos uninit, existsInMutexList]
  cases list : log.env.mutexList with
  | none => rfl
  | some head =>
    have linked := tracked.linked
    rw [list] at linked
    refine existsWalk_none linked tracked.counted fun other member same => ?_
    have positive := tracked.positive other member
    omega

/-- **So its lock is never refused.** -/
theorem Tracked.not_refused {log : Log} {records : List Addr} (tracked : Tracked log records)
    {mutex : Addr} (dead : log.live mutex = false) :
    my_pthread_mutex_lock log.env mutex ≠ some (.returns (-1), log.env) := by
  rw [my_pthread_mutex_lock, tracked.lock_dead dead]
  cases log.env.mutexList with
  | none => simp
  | some head => by_cases locked : (log.env.cells mutex).isLocked = 0 <;> simp [locked]

theorem Tracked.lock {log : Log} {records : List Addr} (tracked : Tracked log records)
    {mutex : Addr} {result : LockOutcome × MutexEnv}
    (locked : my_pthread_mutex_lock log.env mutex = some result) :
    Tracked { log with env := result.2 } records := by
  obtain ⟨refused, _, rfl⟩ := Option.map_eq_some_iff.mp locked
  cases refused with
  | false => exact tracked.setLocked mutex 1
  | true => exact tracked

/-! ### Init -/

/-- **A mutex that is not live is pushed.** -/
theorem Tracked.init {log : Log} {records : List Addr} (tracked : Tracked log records)
    {mutex : Addr} (dead : log.live mutex = false) {allocated : Bool} {env : MutexEnv}
    (done : my_pthread_mutex_init log.env mutex allocated = some env) :
    Tracked ⟨env, Function.update log.live mutex true⟩ (mutex :: records) := by
  have outside := tracked.not_mem dead
  obtain ⟨listed, begun, inserted⟩ := Option.bind_eq_some_iff.mp done
  -- the list is there now, and holds what it held
  obtain ⟨same, head, list⟩ : (listed.cells = log.env.cells ∧
      listed.currMutexID = log.env.currMutexID ∧
      listed.mutexList.join = log.env.mutexList.join) ∧ ∃ head, listed.mutexList = some head := by
    unfold initMutexList at begun
    split at begun
    · rename_i head list
      cases begun
      exact ⟨⟨rfl, rfl, rfl⟩, head, list⟩
    · rename_i list
      split at begun
      · cases begun
        exact ⟨⟨rfl, rfl, by rw [list]; rfl⟩, none, rfl⟩
      · cases begun
  obtain ⟨cells, num, joined⟩ := same
  rw [list] at joined
  simp only [insertToMutexList, list, Option.map_some, MutexEnv.set, Function.update_self,
    Function.update_idem, Option.some.injEq] at inserted
  subst inserted
  have apart : ∀ other ∈ records, other ≠ mutex := fun other member same =>
    outside (same ▸ member)
  have old : ∀ other ∈ records,
      (Function.update log.env.cells mutex
        { isLocked := 0, mutexID := ((log.env.currMutexID + 1 : Nat) : Int), isInit := 1,
          next := head } other).mutexID = (log.env.cells other).mutexID := fun other member => by
    rw [Function.update_of_ne (apart other member)]
  simp only [cells, num]
  refine ⟨?_, fun other => ?_, fun other member => ?_, fun other member => ?_,
    fun first inFirst second inSecond same => ?_, fun other notMember => ?_, ?_⟩
  · have pushed := Linked.push tracked.linked outside
    rw [← joined] at pushed
    refine Seg.frame pushed fun other _ => ?_
    by_cases same : other = mutex
    · subst same
      simp [MutexEnv.next]
    · simp [MutexEnv.next, Function.update_of_ne same]
  · by_cases same : other = mutex
    · subst same
      simp
    · simp [same, tracked.live_iff]
  · rcases List.mem_cons.mp member with rfl | inside
    · simp only [Function.update_self]
      omega
    · rw [old other inside]
      exact tracked.positive other inside
  · rcases List.mem_cons.mp member with rfl | inside
    · simp
    · have below := tracked.below other inside
      rw [old other inside]
      push_cast
      omega
  · rcases List.mem_cons.mp inFirst with rfl | firstIn <;>
      rcases List.mem_cons.mp inSecond with rfl | secondIn
    · rfl
    · have below := tracked.below second secondIn
      rw [old second secondIn] at same
      simp only [Function.update_self] at same
      omega
    · have below := tracked.below first firstIn
      rw [old first firstIn] at same
      simp only [Function.update_self] at same
      omega
    · rw [old first firstIn, old second secondIn] at same
      exact tracked.distinct first firstIn second secondIn same
  · have different : other ≠ mutex := fun same => notMember (same ▸ List.mem_cons_self)
    simp only [Function.update_of_ne different]
    exact tracked.unused other fun member => notMember (List.mem_cons_of_mem _ member)
  · exact Nat.succ_le_succ tracked.counted

/-! ### Destroy -/

/-- **The search for an id**: the first record that carries it, and the record before that one. -/
theorem removeWalk_linked {cells : Addr → MutexT} (mID : Int) :
    ∀ {records : List Addr} {fuel : Nat} (prev : Option Addr) {start : Option Addr},
      Linked (fun mutex => (cells mutex).next) start records → records.length ≤ fuel →
      (∃ front ptr back, records = front ++ ptr :: back ∧ (cells ptr).mutexID = mID ∧
        removeWalk cells mID fuel prev start = some (some ptr, front.getLast?.or prev)) ∨
      ((∀ mutex ∈ records, (cells mutex).mutexID ≠ mID) ∧
        ∃ last, removeWalk cells mID fuel prev start = some (none, last)) := by
  intro records
  induction records with
  | nil =>
    intro fuel prev start linked _
    have none_eq : start = none := linked
    subst none_eq
    exact Or.inr ⟨fun _ member => (by cases member), prev, by cases fuel <;> rfl⟩
  | cons ptr records ih =>
    intro fuel prev start linked enough
    obtain ⟨rfl, rest⟩ := linked
    cases fuel with
    | zero => simp at enough
    | succ fuel =>
      rw [removeWalk]
      by_cases hit : (cells ptr).mutexID = mID
      · exact Or.inl ⟨[], ptr, records, rfl, hit, by rw [if_neg (not_not.mpr hit)]; rfl⟩
      · rw [if_pos hit]
        rcases ih (some ptr) rest (Nat.le_of_succ_le_succ enough) with
          ⟨front, found, back, rfl, carries, walked⟩ | ⟨absent, last, walked⟩
        · refine Or.inl ⟨ptr :: front, found, back, rfl, carries, walked.trans ?_⟩
          rw [List.getLast?_cons]
          cases front.getLast? <;> rfl
        · refine Or.inr ⟨fun mutex member => ?_, last, walked⟩
          rcases List.mem_cons.mp member with rfl | inside
          · exact hit
          · exact absent mutex inside

/-- **A record off the list**: the others stay, its own id and mark are cleared. -/
theorem Tracked.erase {log : Log} {front back : List Addr} {mutex : Addr}
    (tracked : Tracked log (front ++ mutex :: back)) {env : MutexEnv}
    (linked : Linked env.next env.mutexList.join (front ++ back))
    (num : env.currMutexID = log.env.currMutexID)
    (cleared : (env.cells mutex).mutexID ≤ 0 ∧ (env.cells mutex).isInit ≠ 1)
    (others : ∀ other, other ≠ mutex →
      (env.cells other).mutexID = (log.env.cells other).mutexID ∧
        (env.cells other).isInit = (log.env.cells other).isInit) :
    Tracked ⟨env, Function.update log.live mutex false⟩ (front ++ back) := by
  have nodup := tracked.linked.nodup
  have outside : mutex ∉ front ++ back := by
    rw [List.nodup_middle] at nodup
    exact (List.nodup_cons.mp nodup).1
  have inside : ∀ {other}, other ∈ front ++ back → other ∈ front ++ mutex :: back := by
    intro other member
    rw [List.mem_append] at member ⊢
    exact member.imp_right (List.mem_cons_of_mem _)
  have kept : ∀ other ∈ front ++ back, (env.cells other).mutexID = (log.env.cells other).mutexID :=
    fun other member => (others other fun same => outside (same ▸ member)).1
  refine ⟨linked, fun other => ?_, fun other member => ?_, fun other member => ?_,
    fun first inFirst second inSecond same => ?_, fun other notMember => ?_, ?_⟩
  · by_cases same : other = mutex
    · subst same
      simp [outside]
    · simp only [Function.update_of_ne same, ← tracked.live_iff]
      simp [same]
  · rw [kept other member]
    exact tracked.positive other (inside member)
  · rw [kept other member, num]
    exact tracked.below other (inside member)
  · rw [kept first inFirst, kept second inSecond] at same
    exact tracked.distinct first (inside inFirst) second (inside inSecond) same
  · by_cases same : other = mutex
    · exact same ▸ cleared
    · rw [(others other same).1, (others other same).2]
      refine tracked.unused other fun member => notMember ?_
      rw [List.mem_append, List.mem_cons] at member
      rw [List.mem_append]
      exact member.imp_right fun member => member.resolve_left same
  · have counted := tracked.counted
    rw [num]
    simp only [List.length_append, List.length_cons] at counted ⊢
    omega

/-- **Destroy** unlinks the mutex it is called on, if it is live, and otherwise does nothing. -/
theorem Tracked.destroy {log : Log} {records : List Addr} (tracked : Tracked log records)
    {mutex : Addr} {result : Int × MutexEnv}
    (done : my_pthread_mutex_destroy log.env mutex = some result) :
    ∃ left, Tracked ⟨result.2, Function.update log.live mutex false⟩ left := by
  obtain ⟨⟨found, env⟩, removed, rfl⟩ := Option.map_eq_some_iff.mp done
  obtain ⟨head, list, removed⟩ := Option.bind_eq_some_iff.mp removed
  have linked : Linked log.env.next head records := by
    have linked := tracked.linked
    rwa [list] at linked
  rcases removeWalk_linked (log.env.cells mutex).mutexID none linked tracked.counted with
    ⟨front, ptr, back, rfl, carries, walked⟩ | ⟨absent, last, walked⟩
  · rw [walked] at removed
    -- only the mutex itself carries its id
    have same : ptr = mutex := by
      have member : ptr ∈ front ++ ptr :: back := by simp
      by_cases inside : mutex ∈ front ++ ptr :: back
      · exact tracked.distinct ptr member mutex inside carries
      · have positive := tracked.positive ptr member
        have unused := (tracked.unused mutex inside).1
        omega
    subst same
    have cleared : ∀ {env' : MutexEnv},
        ((env'.set ptr { isLocked := 0, mutexID := -1, isInit := 0, next := none }).cells
          ptr).mutexID ≤ 0 ∧
        ((env'.set ptr { isLocked := 0, mutexID := -1, isInit := 0, next := none }).cells
          ptr).isInit ≠ 1 := by simp [MutexEnv.set]
    rcases List.eq_nil_or_concat front with rfl | ⟨front, before, rfl⟩
    · cases removed
      refine ⟨_, tracked.erase ?_ rfl cleared fun other different => ?_⟩
      · rw [MutexEnv.next_set]
        have outside := (List.nodup_cons.mp linked.nodup).1
        exact (Linked.pop linked outside).2
      · simp [MutexEnv.set, Function.update_of_ne different]
    · rw [List.concat_eq_append, List.getLast?_append] at removed
      cases removed
      refine ⟨_, tracked.erase ?_ rfl cleared fun other different => ?_⟩
      · rw [MutexEnv.next_set, MutexEnv.next_set]
        have nodup := linked.nodup
        rw [List.concat_eq_append, List.append_assoc] at linked nodup ⊢
        have cut := Linked.remove linked nodup
        simp only [MutexEnv.set, list]
        exact cut
      · by_cases same : other = before
        · subst same
          simp [MutexEnv.set, Function.update_of_ne different]
        · simp [MutexEnv.set, Function.update_of_ne different, Function.update_of_ne same]
  · rw [walked] at removed
    cases removed
    have dead : log.live mutex = false := by
      cases live : log.live mutex with
      | false => rfl
      | true => exact absurd rfl (absent mutex ((tracked.live_iff mutex).mpr live))
    have same : Function.update log.live mutex false = log.live := by
      rw [← dead]
      exact Function.update_eq_self mutex log.live
    rw [same]
    exact ⟨records, tracked⟩

/-! ### Runs -/

/-- **One call keeps the invariant.** -/
theorem Tracked.step {log next : Log} {records : List Addr} {c : Call}
    (tracked : Tracked log records) (met : InitsDead log c) (taken : call log c = some next) :
    ∃ left, Tracked next left := by
  cases c with
  | init mutex allocated =>
    simp only [call] at taken
    split at taken
    · cases taken
    · obtain ⟨env, done, rfl⟩ := Option.map_eq_some_iff.mp taken
      exact ⟨_, tracked.init met done⟩
  | lock mutex =>
    obtain ⟨result, locked, rfl⟩ := Option.map_eq_some_iff.mp taken
    exact ⟨_, tracked.lock locked⟩
  | unlock mutex =>
    cases taken
    exact ⟨_, (tracked.setLocked mutex 0).setLocked mutex 0⟩
  | destroy mutex =>
    obtain ⟨result, done, rfl⟩ := Option.map_eq_some_iff.mp taken
    exact tracked.destroy done

theorem Zeroed.tracked {log : Log} (zeroed : Zeroed log) : Tracked log [] := by
  subst zeroed
  exact ⟨rfl, fun _ => by simp, fun _ member => (by cases member),
    fun _ member => (by cases member), fun _ member => (by cases member), fun _ _ => by simp,
    Nat.zero_le _⟩

/-- **The list is right in every run, and the guard of `lock` in none**: a lock is refused as it
should be only where there is nothing to refuse. -/
theorem only_live_locked_iff (log : Log)
    (reached : Reach Zeroed InitsDead (execStep call) log) (mutex : Addr) :
    ListsLive log ∧ (RefusesDead log mutex ↔ log.live mutex = true) := by
  obtain ⟨records, tracked⟩ : ∃ records, Tracked log records :=
    reached.invariant (fun log => ∃ records, Tracked log records)
      (fun _ zeroed => ⟨[], zeroed.tracked⟩) fun _ _ _ ⟨_, tracked⟩ met taken =>
        tracked.step met taken
  refine ⟨tracked.listsLive, fun refuses => ?_, fun live dead => ?_⟩
  · cases alive : log.live mutex with
    | true => rfl
    | false => exact absurd (refuses alive) (tracked.not_refused alive)
  · rw [live] at dead
    cases dead

/-- Three mutexes are initialised, the middle one is destroyed, and the first is locked. -/
def middleDestroyed : List Call :=
  [.init 0 true, .init 1 true, .init 2 true, .destroy 1, .lock 0]

/-- No call yet. -/
def untouched : Log := ⟨⟨fun _ => ⟨0, 0, 0, none⟩, none, 0⟩, fun _ => false⟩

theorem only_live_locked_iff_middleDestroyed :
    ∃ log, Reach Zeroed InitsDead (execStep call) log ∧ log.env.mutexList = some (some 2) ∧
      log.env.next 2 = some 0 ∧ log.env.next 0 = none ∧
      ListsLive log ∧ (RefusesDead log 1 ↔ log.live 1 = true) := by
  have start : Reach Zeroed InitsDead (execStep call) untouched := .init rfl
  obtain ⟨log, reached, shape⟩ := start.exists_of_execAll middleDestroyed
    (fun log => log.env.mutexList = some (some 2) ∧ log.env.next 2 = some 0 ∧
      log.env.next 0 = none) (by decide)
  obtain ⟨first, second, last⟩ := of_decide_eq_true shape
  exact ⟨log, reached, first, second, last, only_live_locked_iff log reached 1⟩

/-- **A destroyed mutex is locked**, and a lock before the first initialisation dereferences
`NULL`. -/
theorem dead_locked :
    ¬ ∀ log, Reach Zeroed InitsDead (execStep call) log → ∀ mutex,
      ListsLive log ∧ RefusesDead log mutex := by
  intro always
  have start : Reach Zeroed InitsDead (execStep call) untouched := .init rfl
  obtain ⟨log, reached, locks⟩ := start.exists_of_execAll [.init 0 true, .destroy 0]
    (fun log => log.live 0 = false ∧
      (my_pthread_mutex_lock log.env 0).map Prod.fst = some (.returns 0)) (by decide)
  obtain ⟨dead, taken⟩ := of_decide_eq_true locks
  rw [(always log reached 0).2 dead] at taken
  cases taken

end OS2017.Mutex
