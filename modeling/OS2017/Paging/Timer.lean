/-
**The preemption timer across the library's calls.**

Every call of the library pauses the timer and starts it again before it returns. The calls that
return to their caller without a switch are `my_pthread_create`, `my_pthread_join` on a thread that
is dead or unknown, and `myallocate` and `mydeallocate`. With the scheduler there, and the timer
armed before, it is armed afterwards exactly if the call is not `my_pthread_create`, whose
allocations pause a second time, and meets none of the steps that do so (`timer_armed_iff`).
-/

import OS2017.Paging.Guards
import OS2017.Paging.Space

namespace OS2017.Paging

open OS2017.Bytes OS2017.Heap OS2017.Guarded

/-! ### The calls -/

def LIBRARYREQ : Int := 0

def THREADREQ : Int := 1

def DISKREQ : Int := 2

/-- `STACK_SIZE`. -/
def STACK_SIZE : Nat := 18192

/-- An object the caller has a pointer to: at an offset in `memory`, or elsewhere, with its words
as they are there. -/
inductive Object
  | inside (address : Nat)
  | outside (words : Nat → BitVec 32)

/-- What `my_pthread_create` takes from the platform and the scheduler: two sizes, and the words it
stores in its own structures, at offsets from their start. -/
structure Creation where
  /-- `sizeof(ucontext_t)` -/
  contextBytes : Nat
  /-- `sizeof(node)` -/
  nodeBytes : Nat
  /-- the context as `getcontext` fills it -/
  getcontext : List (Nat × BitVec 32)
  /-- the context's stack and link, and what `makecontext` makes of it, for the stack's address -/
  makecontext : Nat → List (Nat × BitVec 32)
  /-- what `makecontext` puts on the stack -/
  entry : List (Nat × BitVec 32)
  /-- `scd->threadNum` -/
  threadNum : BitVec 32
  /-- `scd->threads->head`, its low and its high word -/
  head : BitVec 32 × BitVec 32
  /-- `scd->threadNum` and `scd->threads->head` afterwards, at their addresses -/
  listed : List (Nat × BitVec 32)
  /-- the fields of the node, for the context's address -/
  node : Nat → List (Nat × BitVec 32)
  /-- the queue and its last node, at their addresses, for the node's address -/
  enQ : Nat → List (Nat × BitVec 32)

section Calls

variable (mem : Store Process)

/-- The word at an offset in an object. -/
def Object.load (offset : Nat) : Object → StateT Process Option (BitVec 32)
  | .inside address => mem.load (address + offset)
  | .outside words => return words offset

/-- A word stored in an object; outside `memory` nothing here reads it again. -/
def Object.store (offset : Nat) (word : BitVec 32) : Object → StateT Process Option Unit
  | .inside address => mem.store (address + offset) word
  | .outside _ => return ()

/-- Words stored at offsets from an address. -/
def storeWords (address : Nat) : List (Nat × BitVec 32) → StateT Process Option Unit
  | [] => return ()
  | (offset, word) :: rest => do
    mem.store (address + offset) word
    storeWords address rest

/-- `my_pthread_create`, behind `initialize`. -/
def my_pthread_create (new : Creation) (thread : Object) : StateT Process Option Nat := do
  pauseTimer
  match ← mallocLibrary mem new.contextBytes with
  | none =>
    unpauseTimer
    return 1
  | some newCxt =>
    storeWords mem newCxt new.getcontext
    match ← mallocLibrary mem STACK_SIZE with
    | none =>
      unpauseTimer
      return 1
    | some stack =>
      storeWords mem newCxt (new.makecontext stack)
      storeWords mem stack new.entry
      -- `id`, `isDead`, `exitArg` and `pageNum`; `next` is set by `addThread` again
      thread.store mem 0 new.threadNum
      thread.store mem 4 0
      thread.store mem 8 0
      thread.store mem 12 0
      thread.store mem 16 0
      thread.store mem 24 new.head.1
      thread.store mem 28 new.head.2
      storeWords mem 0 new.listed
      match ← mallocLibrary mem new.nodeBytes with
      -- `createNode` writes through the null pointer
      | none => stop
      | some newNode =>
        storeWords mem newNode (new.node newCxt)
        storeWords mem 0 (new.enQ newNode)
        unpauseTimer
        return 0

/-- `*value_ptr = ptr->exitArg`, if a value is asked for. -/
def takeExitArg (ptr : Object) : Option Object → StateT Process Option Unit
  | none => return ()
  | some value => do
    let low ← ptr.load mem 8
    let high ← ptr.load mem 12
    value.store mem 0 low
    value.store mem 4 high

/-- The walk of `my_pthread_join` over `scd->threads`. For a thread that is alive the call switches,
and has no result here. -/
def joinLoop (id : BitVec 32) (value_ptr : Option Object) : List Object → StateT Process Option Nat
  | [] => do
    unpauseTimer
    return 1
  | ptr :: threads => do
    let word ← ptr.load mem 0
    if word = id then
      let isDead ← ptr.load mem 4
      if isDead = 1 then
        takeExitArg mem ptr value_ptr
        unpauseTimer
        return 0
      else stop
    else
      -- `ptr->next`
      let _ ← ptr.load mem 24
      let _ ← ptr.load mem 28
      joinLoop id value_ptr threads

/-- `my_pthread_join`. -/
def my_pthread_join (threads : List Object) (id : BitVec 32) (value_ptr : Option Object) :
    StateT Process Option Nat := do
  pauseTimer
  joinLoop mem id value_ptr threads

/-- `myallocate`, for any `caller`. The root block of `DISKREQ` is a null pointer. -/
def myallocateFor (pager : Pager) (size : Nat) (caller : Int) :
    StateT Process Option (Option Nat) := do
  if caller = DISKREQ then stop
  else if caller = LIBRARYREQ then mallocLibrary mem size
  else malloc mem pager size

/-- `mydeallocate`, for any `caller`; no report is the message `invalid caller`. -/
def mydeallocateFor (ptr : Int) (caller : Int) : StateT Process Option (Option Report) := do
  if caller = LIBRARYREQ then return some (← freeLibrary mem ptr)
  else if caller = THREADREQ then return some (← free mem ptr)
  else
    pauseTimer
    unpauseTimer
    return none

end Calls

/-- The calls that return to their caller without a switch. -/
inductive Call
  | create (new : Creation) (thread : Object)
  | join (threads : List Object) (id : BitVec 32) (value_ptr : Option Object)
  | allocate (size : Nat) (caller : Int)
  | deallocate (ptr : Int) (caller : Int)

/-- What a call returns. -/
inductive Answer
  | code (n : Nat)
  | pointer (ptr : Option Nat)
  | report (message : Option Report)

/-- The run of a call over a memory. -/
def Call.run (mem : Store Process) (pager : Pager) : Call → StateT Process Option Answer
  | .create new thread => return .code (← my_pthread_create mem new thread)
  | .join threads id value_ptr => return .code (← my_pthread_join mem threads id value_ptr)
  | .allocate size caller => return .pointer (← myallocateFor mem pager size caller)
  | .deallocate ptr caller => return .report (← mydeallocateFor mem ptr caller)

/-! ### The guarded memory -/

/-- The access to a word that does not fault. -/
def watchedReach (a : Nat) : StateT Process Option Unit :=
  if a + 3 < LIBRARY_BYTES then return ()
  else onMachine
    (watchedTouch ((a - LIBRARY_BYTES) / PAGESIZE) ((a + 3 - LIBRARY_BYTES) / PAGESIZE))

/-- The word accesses of `memory` that do not fault. -/
def watchedSpace : Store Process where
  load a := do
    watchedReach a
    look fun p => readWord p.memory a
  store a w := do
    watchedReach a
    change (·.pokeWord a w)

/-- **The call pauses the timer only once**: it is not `my_pthread_create`, and no step of it faults,
takes a page out of the swap file or puts one there. For a thread whose memory is in order this is a
count of free frames (`pausesOnce_iff`). -/
def Call.PausesOnce (call : Call) (p : Process) : Prop :=
  match call with
  | .create _ _ => False
  | call => ((call.run watchedSpace watching) p).isSome

/-! ### Programs of the process -/

/-- The scheduler exists, and the machine is in a state. -/
def Running (state : Machine → Prop) (p : Process) : Prop := p.scheduled = true ∧ state p.machine

variable {time : Nat} {bad pre : Machine → Prop}

/-- **A program of the machine, as one of the process.** -/
theorem onMachine_watched {α : Type} {post : α → Machine → Prop}
    {actual watched : StateT Machine Option α} (watch : UntilBad bad pre post actual watched) :
    UntilBad (Running bad) (Running pre) (fun a => Running (post a)) (onMachine actual)
      (onMachine watched) where
  agrees := by
    rintro p a q ⟨scheduled, good⟩ ran
    obtain ⟨⟨_, m⟩, ran', same⟩ := Option.map_eq_some_iff.mp ran
    cases same
    obtain ⟨ran'', good'⟩ := watch.agrees good ran'
    refine ⟨?_, scheduled, good'⟩
    show (actual p.machine).map _ = _
    rw [ran'']
    rfl
  fails := by
    rintro p a q ⟨scheduled, good⟩ none ran
    obtain ⟨⟨_, m⟩, ran', same⟩ := Option.map_eq_some_iff.mp ran
    cases same
    exact ⟨scheduled, watch.fails good (Option.map_eq_none_iff.mp none) ran'⟩
  stays := by
    rintro p a q ⟨scheduled, isBad⟩ ran
    obtain ⟨⟨_, m⟩, ran', same⟩ := Option.map_eq_some_iff.mp ran
    cases same
    exact ⟨scheduled, watch.stays isBad ran'⟩

/-- A byte does not change the timer. -/
theorem poke_running {state : Machine → Prop}
    (frames : ∀ {m : Machine} bytes, state m → state { m with frames := bytes }) {p : Process}
    (a : Nat) (value : BitVec 8) (running : Running state p) : Running state (p.poke a value) := by
  unfold Process.poke
  split
  · exact running
  · exact ⟨running.1, frames _ running.2⟩

/-- **The accesses of `memory`**, for what depends on the tables only. -/
theorem watchedSpace_watch
    (touches : ∀ j k, UntilBad bad pre (fun _ => pre) (touchBoth j k) (watchedTouch j k))
    (keeps : ∀ {m : Machine} bytes, pre m → pre { m with frames := bytes })
    (stays : ∀ {m : Machine} bytes, bad m → bad { m with frames := bytes }) :
    UntilBadStore (Running bad) (Running pre) space watchedSpace := by
  have reached : ∀ a, UntilBad (Running bad) (Running pre) (fun _ => Running pre) (reach a)
      (watchedReach a) := fun a =>
    .ite (fun _ => .pure fun _ holds => holds) fun _ => onMachine_watched (touches _ _)
  have poked : ∀ {state : Machine → Prop}
      (_ : ∀ {m : Machine} bytes, state m → state { m with frames := bytes }) {p : Process} a w,
      Running state p → Running state (p.pokeWord a w) := fun frames _ _ _ running =>
    poke_running frames _ _ (poke_running frames _ _ (poke_running frames _ _
      (poke_running frames _ _ running)))
  refine ⟨fun a => (reached a).bind fun _ => UntilBad.look, fun a w => (reached a).bind fun _ => ?_⟩
  refine UntilBad.same ?_ ?_
  · rintro p _ _ running ⟨⟩
    exact poked keeps a w running
  · rintro p _ _ running ⟨⟩
    exact poked stays a w running

/-- With the scheduler there, a timer call is one of the machine's. -/
theorem timerCall_watched {post : Unit → Machine → Prop}
    {program : StateT Machine Option Unit} (watch : UntilBad bad pre post program program) :
    UntilBad (Running bad) (Running pre) (fun a => Running (post a))
      (look Process.scheduled >>= fun scheduled => if scheduled then onMachine program else pure ())
      (look Process.scheduled >>= fun scheduled =>
        if scheduled then onMachine program else pure ()) := by
  have lifted := onMachine_watched watch
  refine UntilBad.same ?_ ?_
  · intro p a q running ran
    rw [look_run, if_pos running.1] at ran
    exact (lifted.agrees running ran).2
  · intro p a q lost ran
    rw [look_run, if_pos lost.1] at ran
    exact lifted.stays lost ran

/-- **What a call is made of besides the pages it moves**: accesses to `memory`, and the stops of the
timer. -/
structure UntilBadStops (bad armed paused : Process → Prop) : Prop where
  mem : UntilBadStore bad paused space watchedSpace
  pause : UntilBad bad armed (fun _ => paused) pauseTimer pauseTimer
  unpause : UntilBad bad paused (fun _ => armed) unpauseTimer unpauseTimer

/-- **The stops of a paused timer.** -/
theorem timerStops (time : Nat) :
    UntilBadStops (Running Lost) (Running (Armed time)) (Running (Paused time)) where
  mem := watchedSpace_watch touchBoth_watched (fun _ paused => paused) fun _ lost => lost
  pause := timerCall_watched pause_watched
  unpause := timerCall_watched unpause_watched

/-! ### Each call -/

section Each

variable {bad armed paused : Process → Prop}

theorem UntilBadStops.finish (stops : UntilBadStops bad armed paused) {α : Type} (a : α) :
    UntilBad bad paused (fun _ => armed) (unpauseTimer >>= fun _ => pure a)
      (unpauseTimer >>= fun _ => pure a) :=
  stops.unpause.bind fun _ => .pure fun _ holds => holds

theorem mallocLibrary_watched (stops : UntilBadStops bad armed paused) (size : Nat) :
    UntilBad bad armed (fun _ => armed) (mallocLibrary space size)
      (mallocLibrary watchedSpace size) :=
  stops.pause.bind fun _ => (myallocateLibrary_watched stops.mem size).bind fun _ => stops.finish _

theorem freeLibrary_watched (stops : UntilBadStops bad armed paused) (ptr : Int) :
    UntilBad bad armed (fun _ => armed) (freeLibrary space ptr) (freeLibrary watchedSpace ptr) :=
  stops.pause.bind fun _ => (mydeallocateLibrary_watched stops.mem ptr).bind fun _ => stops.finish _

theorem freeAndMerge_watched (stops : UntilBadStops bad armed paused) (toFree : Nat)
    (page : BitVec 32) :
    UntilBad bad paused (fun _ => paused) (freeAndMerge space toFree page)
      (freeAndMerge watchedSpace toFree page) := by
  refine UntilBad.look.bind fun index => ?_
  cases index with
  | none => exact .pure fun _ holds => holds
  | some index => exact freeAndMergeLoop_watched stops.mem _ _ _ _

theorem free_watched (stops : UntilBadStops bad armed paused) (ptr : Int) :
    UntilBad bad armed (fun _ => armed) (free space ptr) (free watchedSpace ptr) := by
  refine stops.pause.bind fun _ => .ite (fun _ => ?_) fun _ => stops.finish _
  refine .ite (fun _ => .stop) fun _ => (stops.mem.load _).bind fun word => ?_
  refine .ite (fun _ => stops.finish _) fun _ => UntilBad.look.bind fun page => ?_
  refine .ite (fun _ => ?_) fun _ => ?_
  · exact stops.unpause.bind fun _ => freeLibrary_watched stops ptr
  · exact (freeAndMerge_watched stops _ page).bind fun _ => stops.finish _

/-- **`mydeallocate`.** -/
theorem mydeallocateFor_watched (stops : UntilBadStops bad armed paused) (ptr caller : Int) :
    UntilBad bad armed (fun _ => armed) (mydeallocateFor space ptr caller)
      (mydeallocateFor watchedSpace ptr caller) := by
  refine .ite (fun _ => ?_) fun _ => .ite (fun _ => ?_) fun _ => ?_
  · exact (freeLibrary_watched stops ptr).bind fun _ => .pure fun _ holds => holds
  · exact (free_watched stops ptr).bind fun _ => .pure fun _ holds => holds
  · exact stops.pause.bind fun _ => stops.finish none

theorem Object.load_watched (stops : UntilBadStops bad armed paused) (offset : Nat)
    (object : Object) : UntilBad bad paused (fun _ => paused) (object.load space offset)
      (object.load watchedSpace offset) := by
  cases object with
  | inside address => exact stops.mem.load _
  | outside words => exact .pure fun _ holds => holds

theorem Object.store_watched (stops : UntilBadStops bad armed paused) (offset : Nat)
    (word : BitVec 32) (object : Object) :
    UntilBad bad paused (fun _ => paused) (object.store space offset word)
      (object.store watchedSpace offset word) := by
  cases object with
  | inside address => exact stops.mem.store _ _
  | outside words => exact .pure fun _ holds => holds

theorem takeExitArg_watched (stops : UntilBadStops bad armed paused) (ptr : Object)
    (value_ptr : Option Object) : UntilBad bad paused (fun _ => paused)
      (takeExitArg space ptr value_ptr) (takeExitArg watchedSpace ptr value_ptr) := by
  cases value_ptr with
  | none => exact .pure fun _ holds => holds
  | some value =>
    refine (ptr.load_watched stops 8).bind fun low => (ptr.load_watched stops 12).bind fun high => ?_
    exact (value.store_watched stops 0 low).bind fun _ => value.store_watched stops 4 high

theorem joinLoop_watched (stops : UntilBadStops bad armed paused) (id : BitVec 32)
    (value_ptr : Option Object) (threads : List Object) :
    UntilBad bad paused (fun _ => armed) (joinLoop space id value_ptr threads)
      (joinLoop watchedSpace id value_ptr threads) := by
  induction threads with
  | nil => exact stops.finish 1
  | cons ptr threads ih =>
    refine (ptr.load_watched stops 0).bind fun word => .ite (fun _ => ?_) fun _ => ?_
    · refine (ptr.load_watched stops 4).bind fun isDead => .ite (fun _ => ?_) fun _ => .stop
      exact (takeExitArg_watched stops ptr value_ptr).bind fun _ => stops.finish 0
    · exact (ptr.load_watched stops 24).bind fun _ => (ptr.load_watched stops 28).bind fun _ => ih

/-- **`my_pthread_join`.** -/
theorem my_pthread_join_watched (stops : UntilBadStops bad armed paused) (threads : List Object)
    (id : BitVec 32) (value_ptr : Option Object) :
    UntilBad bad armed (fun _ => armed) (my_pthread_join space threads id value_ptr)
      (my_pthread_join watchedSpace threads id value_ptr) :=
  stops.pause.bind fun _ => joinLoop_watched stops id value_ptr threads

end Each

theorem malloc_watched (size : Nat) :
    UntilBad (Running Lost) (Running (Armed time)) (fun _ => Running (Armed time))
      (malloc space swapping size) (malloc watchedSpace watching size) := by
  refine UntilBad.look.bind fun _ => .ite (fun _ => ?_) fun _ =>
    mallocLibrary_watched (timerStops time) size
  exact (onMachine_watched (myallocate_watched size)).bind fun _ => .pure fun _ armed => armed

/-! ### `my_pthread_create` -/

namespace KeptBySpace

variable {related : Process → Process → Prop}

theorem storeWords (kept : KeptBySpace related) (address : Nat) (words : List (Nat × BitVec 32)) :
    Keeps related (storeWords space address words) := by
  induction words with
  | nil => exact Keeps.pure kept.composes ()
  | cons word rest ih => exact Keeps.bind kept.composes (kept.store _ _) fun _ => ih

theorem object (kept : KeptBySpace related) (object : Object) (offset : Nat) (word : BitVec 32) :
    Keeps related (object.store space offset word) := by
  cases object with
  | inside address => exact kept.store _ _
  | outside words => exact Keeps.pure kept.composes ()

/-- **A create** pauses the timer and asks for the context; behind this it keeps what accesses keep. -/
theorem my_pthread_create_behind (kept : KeptBySpace related) {new : Creation} {thread : Object}
    {p q : Process} {code : Nat} (ran : my_pthread_create space new thread p = some (code, q)) :
    ∃ p₁ p₂ newCxt, pauseTimer p = some ((), p₁) ∧
      Paging.mallocLibrary space new.contextBytes p₁ = some (newCxt, p₂) ∧ related p₂ q := by
  obtain ⟨_, p₁, paused, rest⟩ := run_bind ran
  obtain ⟨newCxt, p₂, context, rest'⟩ := run_bind rest
  refine ⟨p₁, p₂, newCxt, paused, context, (?_ : Keeps related _) _ _ _ rest'⟩
  have composes := kept.composes
  have refused : Keeps related (unpauseTimer >>= fun _ => (pure 1 : StateT Process Option Nat)) :=
    Keeps.bind composes kept.unpause fun _ => Keeps.pure composes _
  cases newCxt with
  | none => exact refused
  | some newCxt =>
    refine Keeps.bind composes (kept.storeWords _ _) fun _ => ?_
    refine Keeps.bind composes (kept.mallocLibrary _) fun stack => ?_
    cases stack with
    | none => exact refused
    | some stack =>
      refine Keeps.bind composes (kept.storeWords _ _) fun _ => ?_
      refine Keeps.bind composes (kept.storeWords _ _) fun _ => ?_
      refine Keeps.bind composes (kept.object thread _ _) fun _ => ?_
      refine Keeps.bind composes (kept.object thread _ _) fun _ => ?_
      refine Keeps.bind composes (kept.object thread _ _) fun _ => ?_
      refine Keeps.bind composes (kept.object thread _ _) fun _ => ?_
      refine Keeps.bind composes (kept.object thread _ _) fun _ => ?_
      refine Keeps.bind composes (kept.object thread _ _) fun _ => ?_
      refine Keeps.bind composes (kept.object thread _ _) fun _ => ?_
      refine Keeps.bind composes (kept.storeWords _ _) fun _ => ?_
      refine Keeps.bind composes (kept.mallocLibrary _) fun newNode => ?_
      cases newNode with
      | none => exact Keeps.stop
      | some newNode =>
        refine Keeps.bind composes (kept.storeWords _ _) fun _ => ?_
        refine Keeps.bind composes (kept.storeWords _ _) fun _ => ?_
        exact Keeps.bind composes kept.unpause fun _ => Keeps.pure composes _

theorem my_pthread_create (kept : KeptBySpace related) (new : Creation) (thread : Object) :
    Keeps related (my_pthread_create space new thread) := by
  intro p code q ran
  obtain ⟨p₁, p₂, _, paused, context, behind⟩ := kept.my_pthread_create_behind ran
  exact kept.composes.trans (kept.pause _ _ _ paused)
    (kept.composes.trans (kept.mallocLibrary _ _ _ _ context) behind)

end KeptBySpace

/-- What is lost stays lost. -/
def StaysLost (p q : Process) : Prop := Running Lost p → Running Lost q

theorem staysLost_of_watched {α : Type} {pre : Process → Prop} {post : α → Process → Prop}
    {actual watched : StateT Process Option α}
    (watch : UntilBad (Running Lost) pre post actual watched) : Keeps StaysLost actual :=
  fun _ _ _ ran lost => watch.stays lost ran

/-- **The accesses to `memory` and the stops of the timer.** -/
theorem staysLost_space : KeptBySpace StaysLost := by
  have stops := timerStops 0
  exact ⟨⟨fun _ lost => lost, fun first second lost => second (first lost)⟩,
    fun a => staysLost_of_watched (stops.mem.load a),
    fun a w => staysLost_of_watched (stops.mem.store a w), staysLost_of_watched stops.pause,
    staysLost_of_watched stops.unpause⟩

/-- **An allocation inside a call loses the timer.** -/
theorem mallocLibrary_loses {p q : Process} {size : Nat} {result : Option Nat}
    (paused : Running (Paused time) p) (ran : mallocLibrary space size p = some (result, q)) :
    Running Lost q := by
  have armed : Running (Armed 0) p := ⟨paused.1, by
    show p.machine.timer.remaining = 0
    rw [paused.2]⟩
  have stops := timerStops 0
  obtain ⟨_, p₁, first, rest⟩ := run_bind ran
  have lost : Running Lost p₁ := (stops.pause.agrees armed first).2
  obtain ⟨_, p₂, second, rest'⟩ := run_bind rest
  have lost₂ := (myallocateLibrary_watched stops.mem size).stays lost second
  obtain ⟨_, p₃, third, done⟩ := run_bind rest'
  cases done
  exact staysLost_space.unpause _ _ _ third lost₂

/-- **`my_pthread_create` loses the timer.** -/
theorem my_pthread_create_loses {p q : Process} {new : Creation} {thread : Object} {code : Nat}
    (armed : Running (Armed time) p)
    (ran : my_pthread_create space new thread p = some (code, q)) : Running Lost q := by
  obtain ⟨p₁, p₂, newCxt, first, context, behind⟩ := staysLost_space.my_pthread_create_behind ran
  exact behind (mallocLibrary_loses ((timerStops time).pause.agrees armed first).2 context)

/-! ### The timer after a call -/

/-- **The calls other than `my_pthread_create`.** -/
theorem Call.run_watched {call : Call} (other : ∀ new thread, call ≠ .create new thread) :
    UntilBad (Running Lost) (Running (Armed time)) (fun _ => Running (Armed time))
      (call.run space swapping) (call.run watchedSpace watching) := by
  cases call with
  | create new thread => exact absurd rfl (other new thread)
  | join threads id value_ptr =>
    refine UntilBad.bind ?_ fun _ => .pure fun _ armed => armed
    exact my_pthread_join_watched (timerStops time) threads id value_ptr
  | allocate size caller =>
    refine UntilBad.bind ?_ fun _ => .pure fun _ armed => armed
    exact .ite (fun _ => .stop) fun _ => .ite
      (fun _ => mallocLibrary_watched (timerStops time) size) fun _ => malloc_watched size
  | deallocate ptr caller =>
    refine UntilBad.bind ?_ fun _ => .pure fun _ armed => armed
    exact mydeallocateFor_watched (timerStops time) ptr caller

/-- **When the timer survives a call.** For every call that returns without a switch, from every
state with the scheduler there and the timer armed: the timer is armed afterwards exactly if the call
pauses it only once. -/
theorem timer_armed_iff (call : Call) {p q : Process} {answer : Answer}
    (timerSet : p.scheduled = true) (armed : 0 < p.machine.timer.remaining)
    (ran : call.run space swapping p = some (answer, q)) :
    0 < q.machine.timer.remaining ↔ call.PausesOnce p := by
  have running : Running (Armed p.machine.timer.remaining) p := ⟨timerSet, rfl⟩
  have lost_iff : Running Lost q → ¬0 < q.machine.timer.remaining := by
    intro lost
    rw [lost.2]
    exact Nat.lt_irrefl 0
  have others : (∀ new thread, call ≠ .create new thread) →
      (0 < q.machine.timer.remaining ↔ (call.run watchedSpace watching p).isSome) := by
    intro other
    have watch : UntilBad (Running Lost) (Running (Armed p.machine.timer.remaining))
        (fun _ => Running (Armed p.machine.timer.remaining)) (call.run space swapping)
        (call.run watchedSpace watching) := Call.run_watched other
    cases watched : call.run watchedSpace watching p with
    | none => exact iff_of_false (lost_iff (watch.fails running watched ran)) (by simp)
    | some pair =>
      obtain ⟨ran', armed'⟩ := watch.agrees running watched
      rw [ran] at ran'
      cases ran'
      refine iff_of_true ?_ rfl
      rw [armed'.2]
      exact armed
  cases call with
  | create new thread =>
    obtain ⟨code, q', created, same⟩ := run_bind ran
    cases same
    exact iff_of_false (lost_iff (my_pthread_create_loses running created)) id
  | join threads id value_ptr => exact others fun _ _ equal => by cases equal
  | allocate size caller => exact others fun _ _ equal => by cases equal
  | deallocate ptr caller => exact others fun _ _ equal => by cases equal

/-- A process with its scheduler: the library heap has a taken block of `4000` bytes and a free one
behind it, the frames and the swap file are free. -/
def scheduledProcess : Process where
  machine :=
    { frames := fun _ => 0
      swpFile := fun _ => 0
      pages := fun _ => 1
      diskPages := fun _ => 1
      accessible := fun _ => true
      thread := 1
      pageNum := fun _ => 0
      timer := ⟨QUANTUM, QUANTUM⟩ }
  library := writeWord (writeWord (fun _ => 0) 0 (setBlockSize 0x10 4000)) 4004
    (setBlockSize 0x01 (BitVec.ofNat 32 (LIBRARY_BYTES - 4008)))
  scheduled := true

/-- A thread's first allocation, in its own new page, leaves the timer armed. -/
theorem timer_armed_firstPage :
    ∃ answer q, (Call.allocate 100 THREADREQ).run space swapping scheduledProcess = some (answer, q) ∧
      0 < q.machine.timer.remaining := by
  have runs : ((Call.allocate 100 THREADREQ).run space swapping scheduledProcess).isSome = true := by
    decide +kernel
  have once : (Call.allocate 100 THREADREQ).PausesOnce scheduledProcess := by
    have watched : ((Call.allocate 100 THREADREQ).run watchedSpace watching
        scheduledProcess).isSome = true := by decide +kernel
    exact watched
  have timerSet : scheduledProcess.scheduled = true := rfl
  have armed : 0 < scheduledProcess.machine.timer.remaining := Nat.succ_pos _
  obtain ⟨⟨answer, q⟩, ran⟩ := Option.isSome_iff_exists.mp runs
  exact ⟨answer, q, ran, (timer_armed_iff _ timerSet armed ran).mpr once⟩

/-- What `my_pthread_create` needs, with the words it stores left out. -/
def plainCreation : Creation where
  contextBytes := 936
  nodeBytes := 64
  getcontext := []
  makecontext := fun _ => []
  entry := []
  threadNum := 2
  head := (0, 0)
  listed := []
  node := fun _ => []
  enQ := fun _ => []

/-- **Creating a thread disarms the timer.** -/
theorem timer_not_armed : ¬∀ (call : Call) (p q : Process) (answer : Answer), p.scheduled = true →
    0 < p.machine.timer.remaining → call.run space swapping p = some (answer, q) →
    0 < q.machine.timer.remaining := by
  intro survives
  have runs : ((Call.create plainCreation (.outside fun _ => 0)).run space swapping
      scheduledProcess).any (fun pair => pair.2.machine.timer.remaining = 0) = true := by
    decide +kernel
  obtain ⟨⟨answer, q⟩, ran, stopped⟩ := (Option.any_eq_true _ _).mp runs
  have timerSet : scheduledProcess.scheduled = true := rfl
  have armed : 0 < scheduledProcess.machine.timer.remaining := Nat.succ_pos _
  have survived := survives _ _ q answer timerSet armed ran
  have stopped' : q.machine.timer.remaining = 0 := of_decide_eq_true stopped
  omega

end OS2017.Paging
