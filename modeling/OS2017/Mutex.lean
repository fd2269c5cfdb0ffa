/-
**The mutexes of the thread library.**

`my_pthread_mutex_t` records live at addresses; the initialised ones are threaded into `mutexList`
through their `next` fields. `my_pthread_mutex_lock` spins on a test-and-set of `isLocked`;
`my_pthread_mutex_unlock` clears `isLocked` twice, first by `__sync_lock_release` and then by a
plain store.

### The machine

Any number of threads lock and unlock one mutex, and may be preempted between any two accesses to
the shared word: the test-and-set, the release and the plain store are three different steps
(`Access`). A thread's `Pc` says where in the two functions it is.

### The result

Between the release and the plain store another thread may take the lock, and the store then
unlocks it behind that thread's back: a third thread gets in (`two_holders`). It is the only way
in: in every run in which the plain store finds the word still clear, at most one thread holds the
mutex (`holders_unique`).
-/

import Mathlib.Logic.Function.Basic
import OS2017.Lib.Run

namespace OS2017.Mutex

open OS2017.Run

/-- The address of a mutex record. -/
abbrev Addr := Nat

/-- `my_pthread_mutex_t`. -/
structure MutexT where
  isLocked : Int
  mutexID : Int
  isInit : Int
  next : Option Addr

/-- The mutex records and the globals `mutexList` and `currMutexID`. The list is `none` until
`initMutexList` has allocated it; its content is the `head` field. -/
structure MutexEnv where
  cells : Addr → MutexT
  mutexList : Option (Option Addr)
  currMutexID : Nat

namespace MutexEnv

/-- Store a record. -/
def set (env : MutexEnv) (mutex : Addr) (cell : MutexT) : MutexEnv :=
  { env with cells := Function.update env.cells mutex cell }

/-- Store the `isLocked` field of a record. -/
def setLocked (env : MutexEnv) (mutex : Addr) (value : Int) : MutexEnv :=
  env.set mutex { env.cells mutex with isLocked := value }

@[simp] theorem setLocked_isLocked (env : MutexEnv) (mutex : Addr) (value : Int) :
    ((env.setLocked mutex value).cells mutex).isLocked = value := by
  simp [setLocked, set]

end MutexEnv

/-- The loop of `existsInMutexList`. A list threaded through `currMutexID` records has at most
that many entries, so a longer walk never ends. -/
def existsWalk (cells : Addr → MutexT) (mutexToCheck : Int) : Nat → Option Addr → Option Bool
  | _, none => some false
  | 0, some _ => none
  | fuel + 1, some ptr =>
    if (cells ptr).mutexID = mutexToCheck then some true
    else existsWalk cells mutexToCheck fuel (cells ptr).next

/-- `existsInMutexList`: without a list the source dereferences `NULL`. -/
def existsInMutexList (env : MutexEnv) (mutexToCheck : Int) : Option Bool :=
  env.mutexList.bind fun head => existsWalk env.cells mutexToCheck env.currMutexID head

/-- `initMutexList`; `allocated` says whether its `myallocate` call succeeds. -/
def initMutexList (env : MutexEnv) (allocated : Bool) : Option MutexEnv :=
  match env.mutexList with
  | some _ => some env
  | none => if allocated then some { env with mutexList := some none } else none

/-- `insertToMutexList`. -/
def insertToMutexList (env : MutexEnv) (newMutex : Addr) : Option MutexEnv :=
  env.mutexList.map fun head =>
    { env.set newMutex { env.cells newMutex with next := head } with
      mutexList := some (some newMutex) }

/-- `my_pthread_mutex_init`. The record it allocates first is dropped again, so only the
allocation of the list matters. -/
def my_pthread_mutex_init (env : MutexEnv) (mutex : Addr) (allocated : Bool) : Option MutexEnv :=
  (initMutexList env allocated).bind fun listed =>
    let currMutexID := listed.currMutexID + 1
    insertToMutexList
      { listed.set mutex { isLocked := 0, mutexID := currMutexID, isInit := 1, next := none } with
        currMutexID := currMutexID } mutex

/-- The test at the head of `my_pthread_mutex_lock`: does the call return `-1`? -/
def lockRefused (env : MutexEnv) (mutex : Addr) : Option Bool :=
  if (env.cells mutex).isInit ≠ 1 then existsInMutexList env (env.cells mutex).mutexID
  else some false

/-! ### The threads -/

/-- Where a thread is in `my_pthread_mutex_lock` and `my_pthread_mutex_unlock`. -/
inductive Pc
  /-- outside both functions, not holding the mutex -/
  | idle
  /-- in `lock`, before a test-and-set -/
  | spinning
  /-- in `lock`, after the test-and-set that found the word clear -/
  | acquired
  /-- `lock` has returned -/
  | holding
  /-- in `unlock`, before `__sync_lock_release` -/
  | unlocking
  /-- in `unlock`, before the store `isLocked = 0` -/
  | clearing
  deriving DecidableEq

abbrev ThreadId := Nat

/-- The mutex records and the position of every thread. -/
structure Machine where
  env : MutexEnv
  pc : ThreadId → Pc

/-- One step of one thread. -/
inductive Access
  | lockCall (thread : ThreadId)
  | testAndSet (thread : ThreadId)
  | lockReturn (thread : ThreadId)
  | unlockCall (thread : ThreadId)
  | lockRelease (thread : ThreadId)
  | clearStore (thread : ThreadId)

namespace Machine

/-- Move a thread. -/
def goto (machine : Machine) (thread : ThreadId) (pc : Pc) : Machine :=
  { machine with pc := Function.update machine.pc thread pc }

/-- Store `isLocked` and move a thread. -/
def storeGoto (machine : Machine) (mutex : Addr) (value : Int) (thread : ThreadId) (pc : Pc) :
    Machine :=
  { env := machine.env.setLocked mutex value, pc := Function.update machine.pc thread pc }

end Machine

/-- **One step of the machine on the mutex at one address.** A thread unlocks only while it
holds. -/
def exec (mutex : Addr) (machine : Machine) : Access → Option Machine
  | .lockCall thread =>
    if machine.pc thread = .idle then
      (lockRefused machine.env mutex).map fun refused =>
        if refused then machine else machine.goto thread .spinning
    else none
  | .testAndSet thread =>
    if machine.pc thread = .spinning then
      some (machine.storeGoto mutex 1 thread
        (if (machine.env.cells mutex).isLocked ≠ 0 then .spinning else .acquired))
    else none
  | .lockReturn thread =>
    if machine.pc thread = .acquired then some (machine.goto thread .holding) else none
  | .unlockCall thread =>
    if machine.pc thread = .holding then some (machine.goto thread .unlocking) else none
  | .lockRelease thread =>
    if machine.pc thread = .unlocking then some (machine.storeGoto mutex 0 thread .clearing)
    else none
  | .clearStore thread =>
    if machine.pc thread = .clearing then some (machine.storeGoto mutex 0 thread .idle) else none

/-- All threads outside, the mutex just initialised. -/
def Started (mutex : Addr) (machine : Machine) : Prop :=
  (∃ env allocated, my_pthread_mutex_init env mutex allocated = some machine.env) ∧
    ∀ thread, machine.pc thread = .idle

/-- **At most one thread is between the return of its lock and the call of its unlock.** -/
def HoldersUnique (machine : Machine) : Prop :=
  ∀ first second, machine.pc first = .holding → machine.pc second = .holding → first = second

/-- **The plain store finds the word still clear**: no thread has taken the lock since the release
before it. -/
def StoreFindsClear (mutex : Addr) (machine : Machine) : Access → Prop
  | .clearStore _ => (machine.env.cells mutex).isLocked = 0
  | _ => True

instance (mutex : Addr) (machine : Machine) (access : Access) :
    Decidable (StoreFindsClear mutex machine access) := by
  cases access <;> unfold StoreFindsClear <;> infer_instance

/-! ### The owner -/

/-- From the successful test-and-set to the release. -/
def Pc.Owns (pc : Pc) : Prop := pc = .acquired ∨ pc = .holding ∨ pc = .unlocking

/-- **The invariant**: there is at most one owner, and the word is set while there is one. -/
structure Owned (mutex : Addr) (machine : Machine) : Prop where
  unique : ∀ first second, (machine.pc first).Owns → (machine.pc second).Owns → first = second
  locked : ∀ thread, (machine.pc thread).Owns → (machine.env.cells mutex).isLocked ≠ 0

theorem Owned.none_of_clear {mutex : Addr} {machine : Machine} (owned : Owned mutex machine)
    (clear : (machine.env.cells mutex).isLocked = 0) (thread : ThreadId) :
    ¬ (machine.pc thread).Owns :=
  fun owns => owned.locked thread owns clear

/-- A thread that owns after moving one thread owned before, or is the one that moved. -/
theorem owns_update {pc : ThreadId → Pc} {thread other : ThreadId} {target : Pc}
    (owns : (Function.update pc thread target other).Owns) :
    (other = thread ∧ target.Owns) ∨ (other ≠ thread ∧ (pc other).Owns) := by
  by_cases same : other = thread
  · subst same
    rw [Function.update_self] at owns
    exact Or.inl ⟨rfl, owns⟩
  · rw [Function.update_of_ne same] at owns
    exact Or.inr ⟨same, owns⟩

/-- **The owner moves on.** A step that leaves the word alone and makes nobody an owner who was
none keeps the invariant. -/
theorem Owned.goto {mutex : Addr} {machine : Machine} (owned : Owned mutex machine)
    {thread : ThreadId} {target : Pc} (kept : target.Owns → (machine.pc thread).Owns) :
    Owned mutex (machine.goto thread target) := by
  have before : ∀ other, ((machine.goto thread target).pc other).Owns →
      (machine.pc other).Owns := by
    intro other after
    rcases owns_update after with ⟨same, owns⟩ | ⟨_, owns⟩
    · exact same ▸ kept owns
    · exact owns
  exact ⟨fun first second ownsFirst ownsSecond =>
      owned.unique first second (before first ownsFirst) (before second ownsSecond),
    fun other owns => owned.locked other (before other owns)⟩

/-- A step after which nobody owns establishes the invariant. -/
theorem Owned.of_none {mutex : Addr} {machine : Machine}
    (nobody : ∀ thread, ¬ (machine.pc thread).Owns) : Owned mutex machine :=
  ⟨fun first _ owns _ => absurd owns (nobody first), fun thread owns => absurd owns (nobody thread)⟩

/-- **The test-and-set** makes an owner only of a clear word, and then there was none. -/
theorem Owned.testAndSet {mutex : Addr} {machine : Machine} (owned : Owned mutex machine)
    {thread : ThreadId} :
    Owned mutex (machine.storeGoto mutex 1 thread
      (if (machine.env.cells mutex).isLocked ≠ 0 then .spinning else .acquired)) := by
  by_cases clear : (machine.env.cells mutex).isLocked = 0
  · have only : ∀ other, ((machine.storeGoto mutex 1 thread .acquired).pc other).Owns →
        other = thread := by
      intro other owns
      rcases owns_update owns with ⟨same, _⟩ | ⟨_, owns⟩
      · exact same
      · exact absurd owns (owned.none_of_clear clear other)
    rw [if_neg (not_not.mpr clear)]
    exact ⟨fun first second ownsFirst ownsSecond =>
        (only first ownsFirst).trans (only second ownsSecond).symm,
      fun _ _ => by simp [Machine.storeGoto]⟩
  · rw [if_pos clear]
    have before : ∀ other, ((machine.storeGoto mutex 1 thread .spinning).pc other).Owns →
        (machine.pc other).Owns := by
      intro other owns
      rcases owns_update owns with ⟨_, owns⟩ | ⟨_, owns⟩
      · simp [Pc.Owns] at owns
      · exact owns
    exact ⟨fun first second ownsFirst ownsSecond =>
        owned.unique first second (before first ownsFirst) (before second ownsSecond),
      fun _ _ => by simp [Machine.storeGoto]⟩

/-- **The release** is made by the owner, who is none afterwards. -/
theorem Owned.lockRelease {mutex : Addr} {machine : Machine} (owned : Owned mutex machine)
    {thread : ThreadId} (unlocking : machine.pc thread = .unlocking) :
    Owned mutex (machine.storeGoto mutex 0 thread .clearing) := by
  refine Owned.of_none fun other owns => ?_
  rcases owns_update owns with ⟨_, owns⟩ | ⟨different, owns⟩
  · simp [Pc.Owns] at owns
  · have owner : (machine.pc thread).Owns := by simp [unlocking, Pc.Owns]
    exact different (owned.unique other thread owns owner)

/-- **The plain store** on a clear word changes nothing for an owner: there is none. -/
theorem Owned.clearStore {mutex : Addr} {machine : Machine} (owned : Owned mutex machine)
    {thread : ThreadId} (clear : (machine.env.cells mutex).isLocked = 0) :
    Owned mutex (machine.storeGoto mutex 0 thread .idle) := by
  refine Owned.of_none fun other owns => ?_
  rcases owns_update owns with ⟨_, owns⟩ | ⟨_, owns⟩
  · simp [Pc.Owns] at owns
  · exact owned.none_of_clear clear other owns

/-- **One guarded step keeps the invariant.** -/
theorem Owned.step {mutex : Addr} {machine next : Machine} {access : Access}
    (owned : Owned mutex machine) (met : StoreFindsClear mutex machine access)
    (taken : exec mutex machine access = some next) : Owned mutex next := by
  cases access with
  | lockCall thread =>
    simp only [exec] at taken
    split at taken
    · obtain ⟨refused, _, rfl⟩ := Option.map_eq_some_iff.mp taken
      cases refused
      · exact owned.goto (by simp [Pc.Owns])
      · exact owned
    · cases taken
  | testAndSet thread =>
    simp only [exec] at taken
    split at taken
    · cases taken
      exact owned.testAndSet
    · cases taken
  | lockReturn thread =>
    simp only [exec] at taken
    split at taken
    · rename_i acquired
      cases taken
      exact owned.goto fun _ => by simp [acquired, Pc.Owns]
    · cases taken
  | unlockCall thread =>
    simp only [exec] at taken
    split at taken
    · rename_i holding
      cases taken
      exact owned.goto fun _ => by simp [holding, Pc.Owns]
    · cases taken
  | lockRelease thread =>
    simp only [exec] at taken
    split at taken
    · rename_i unlocking
      cases taken
      exact owned.lockRelease unlocking
    · cases taken
  | clearStore thread =>
    simp only [exec] at taken
    split at taken
    · cases taken
      exact owned.clearStore met
    · cases taken

theorem Started.owned {mutex : Addr} {machine : Machine} (started : Started mutex machine) :
    Owned mutex machine :=
  Owned.of_none fun thread => by simp [started.2 thread, Pc.Owns]

/-- **Mutual exclusion while the plain store finds the word clear.** -/
theorem holders_unique (mutex : Addr) (machine : Machine)
    (reached : Reach (Started mutex) (StoreFindsClear mutex) (execStep (exec mutex)) machine) :
    HoldersUnique machine := by
  have owned : Owned mutex machine :=
    reached.invariant (Owned mutex) (fun _ started => started.owned)
      (fun _ _ _ owned met taken => owned.step met taken)
  exact fun first second holdsFirst holdsSecond =>
    owned.unique first second (Or.inr (Or.inl holdsFirst)) (Or.inr (Or.inl holdsSecond))

/-! ### Runs -/

/-- One mutex at address `0`, just initialised in an empty environment, and idle threads. -/
def fresh : Machine :=
  { env :=
      { cells := Function.update (fun _ => ⟨0, 0, 0, none⟩) 0 ⟨0, 1, 1, none⟩
        mutexList := some (some 0)
        currMutexID := 1 }
    pc := fun _ => .idle }

theorem fresh_started : Started 0 fresh := by
  refine ⟨⟨⟨fun _ => ⟨0, 0, 0, none⟩, none, 0⟩, true, ?_⟩, fun _ => rfl⟩
  simp [my_pthread_mutex_init, initMutexList, insertToMutexList, MutexEnv.set, fresh]

/-- A thread enters and leaves `my_pthread_mutex_lock`, finding the word clear. -/
def lockOf (thread : ThreadId) : List Access :=
  [.lockCall thread, .testAndSet thread, .lockReturn thread]

/-- Thread `0` locks and unlocks, then thread `1` locks. -/
def handOver : List Access := lockOf 0 ++ [.unlockCall 0, .lockRelease 0, .clearStore 0] ++ lockOf 1

theorem holders_unique_handOver :
    ∃ machine, Reach (Started 0) (StoreFindsClear 0) (execStep (exec 0)) machine ∧
      machine.pc 1 = .holding ∧ HoldersUnique machine := by
  have start : Reach (Started 0) (StoreFindsClear 0) (execStep (exec 0)) fresh :=
    .init fresh_started
  obtain ⟨machine, reached, holding⟩ := start.exists_of_execAll handOver
    (fun machine => machine.pc 1 = .holding) (by decide)
  exact ⟨machine, reached, of_decide_eq_true holding, holders_unique 0 machine reached⟩

/-- Thread `0` is preempted between its release and its plain store; thread `1` locks; the store
clears the word under it, and thread `2` locks too. -/
def lateStore : List Access :=
  lockOf 0 ++ [.unlockCall 0, .lockRelease 0] ++ lockOf 1 ++ [.clearStore 0] ++ lockOf 2

/-- **Two threads hold the mutex at once.** -/
theorem two_holders :
    ¬ ∀ machine, Reach (Started 0) anyStep (execStep (exec 0)) machine →
      HoldersUnique machine := by
  intro always
  have start : Reach (Started 0) anyStep (execStep (exec 0)) fresh := .init fresh_started
  obtain ⟨machine, reached, holding⟩ := start.exists_of_execAll lateStore
    (fun machine => machine.pc 1 = .holding ∧ machine.pc 2 = .holding) (by decide)
  obtain ⟨first, second⟩ := of_decide_eq_true holding
  exact absurd (always machine reached 1 2 first second) (by decide)

end OS2017.Mutex
