/-
**The scheduler of the thread library** (`my_pthread.c`), at the level of its pointers.

Nodes (`node`) and thread records (`my_pthread_t`) are kept field by field: `nodes.next p` is
`p->next`. A node is on one of the five run queues, on one of the four promotion queues that
`maintenance` fills and drains, on `joinList`, or it is `current`; all of these are threaded
through the one `next` field. Thread records are threaded into `scd->threads` through their own
`next` field, and the record is the very memory the caller of `my_pthread_create` passed.

A value `none` of a modelled function is a run that has no next state: the source dereferences
`NULL`, or follows a `next` chain that never ends. Loops over a chain carry a fuel that no acyclic
chain of the records allocated so far exhausts.

### Control

`running` is the context the processor executes, `nodes.ut p` the context saved in `p->ut`. User
code is arbitrary, so a context is only the library call it is inside (`Frame`). A call that sets
`status` and then calls `schedule()` is two events, `yield`, `exit`, `join` or the return of the
thread's function first, and `enterSchedule` second: the timer may fire between the two.
-/

import Mathlib.Data.Rat.Defs
import Mathlib.Algebra.Order.Field.Rat
import Mathlib.Logic.Function.Basic

namespace OS2017.Sched

/-- `RUN_QUEUE_SIZE`. -/
def RUN_QUEUE_SIZE : Nat := 5

/-- The address of a `node`. -/
abbrev NodePtr := Nat

/-- The address of a `my_pthread_t`: the main thread's own record, or memory of the caller. -/
inductive Handle
  | main
  | user (address : Nat)
  deriving DecidableEq

/-- `enum STATUS`. -/
inductive Status
  | neutral
  | yielding
  | exiting
  | joining
  deriving DecidableEq

/-- The library call a context is inside. -/
inductive Frame
  /-- user code -/
  | code
  /-- `my_pthread_yield`, `status` set, before `schedule()` -/
  | yieldCall
  /-- `my_pthread_exit`, `status` set, before `schedule()` -/
  | exitCall
  /-- `terminationHandler`, `status` set, before `schedule()` -/
  | termCall
  /-- `terminationHandler` after `schedule()`: the context ends with it -/
  | termDone
  /-- `my_pthread_join` of the thread `id` whose record is `ptr`, `status` set, before `schedule()` -/
  | joinCall (id : Nat) (ptr : Handle)
  /-- the same call after `schedule()` has returned -/
  | joinWoken (id : Nat) (ptr : Handle)
  deriving DecidableEq

/-- A context: the frame on top, and whether it is the main thread's, whose return ends the
process. -/
structure Context where
  ofMain : Bool
  frame : Frame
  deriving DecidableEq

/-- The fields of all `node` records. -/
structure Nodes where
  threadID : NodePtr → Handle
  ut : NodePtr → Context
  priority : NodePtr → Nat
  timeCreated : NodePtr → Int
  runtime : NodePtr → Rat
  status : NodePtr → Status
  joinee : NodePtr → Option Handle
  next : NodePtr → Option NodePtr

/-- The fields of all `my_pthread_t` records; `exitArg` is `0` for `NULL`. -/
structure Threads where
  id : Handle → Nat
  isDead : Handle → Bool
  exitArg : Handle → Nat
  pageNum : Handle → Nat
  next : Handle → Option Handle

/-- `queue`. -/
structure Queue where
  head : Option NodePtr
  rear : Option NodePtr
  priorityLevel : Nat
  deriving DecidableEq

/-- The queues of the scheduler: `runQ[k]` and `promotionQ[k]`. -/
inductive Slot
  | runQ (k : Nat)
  | promotionQ (k : Nat)
  deriving DecidableEq

/-- `scheduler`, the records it points to, and the running context. -/
structure Scheduler where
  nodes : Nodes
  threads : Threads
  queues : Slot → Queue
  /-- `joinList->head` -/
  joinList : Option NodePtr
  /-- `threads->head` -/
  threadList : Option Handle
  current : NodePtr
  cycles : Nat
  threadNum : Nat
  /-- the number of nodes allocated, which is the address of the next one -/
  nodeNum : Nat
  running : Context

/-! ### Queues and lists -/

namespace Nodes

/-- `p->next = value`. -/
def setNext (nodes : Nodes) (p : NodePtr) (value : Option NodePtr) : Nodes :=
  { nodes with next := Function.update nodes.next p value }

/-- `p->priority = value`. -/
def setPriority (nodes : Nodes) (p : NodePtr) (value : Nat) : Nodes :=
  { nodes with priority := Function.update nodes.priority p value }

/-- `p->status = value`. -/
def setStatus (nodes : Nodes) (p : NodePtr) (value : Status) : Nodes :=
  { nodes with status := Function.update nodes.status p value }

end Nodes

/-- The walk of `insertByTime` from `ptr`, with `prev` behind it. -/
def insertByTimeLoop (nodes : Nodes) (q : Queue) (newNode : NodePtr) :
    Nat → Option NodePtr → Option NodePtr → Option (Nodes × Queue)
  | _, _, none =>
    q.rear.map fun rear =>
      ((nodes.setNext rear (some newNode)).setNext newNode none, { q with rear := some newNode })
  | 0, _, some _ => none
  | fuel + 1, prev, some ptr =>
    if nodes.runtime newNode > nodes.runtime ptr then
      match prev with
      | none => some (nodes.setNext newNode (some ptr), { q with head := some newNode })
      | some prev => some ((nodes.setNext newNode (some ptr)).setNext prev (some newNode), q)
    else insertByTimeLoop nodes q newNode fuel (some ptr) (nodes.next ptr)

/-- `insertByTime`. -/
def insertByTime (nodes : Nodes) (q : Queue) (newNode : NodePtr) (fuel : Nat) :
    Option (Nodes × Queue) :=
  match q.head with
  | none =>
    some (nodes.setNext newNode none, { q with head := some newNode, rear := some newNode })
  | some head => insertByTimeLoop nodes q newNode fuel none (some head)

/-- `enQ`. -/
def enQ (nodes : Nodes) (q : Queue) (newNode : NodePtr) : Option (Nodes × Queue) :=
  match q.head with
  | none =>
    some ((nodes.setNext newNode none).setPriority newNode q.priorityLevel,
      { q with head := some newNode, rear := some newNode })
  | some _ =>
    q.rear.map fun rear =>
      let ended := (nodes.setNext rear (some newNode)).setNext newNode none
      (if nodes.status newNode ≠ .yielding then ended.setPriority newNode q.priorityLevel
        else ended,
        { q with rear := some newNode })

/-- `deQ`: the removed node, if there is one. -/
def deQ (nodes : Nodes) (q : Queue) : Option (NodePtr × Nodes × Queue) :=
  q.head.map fun head =>
    (head, nodes.setNext head none,
      { q with
        head := nodes.next head
        rear := if nodes.next head = none then none else q.rear })

namespace Scheduler

/-- The scheduler after an operation on one of its queues. -/
def store (s : Scheduler) (slot : Slot) (nodes : Nodes) (q : Queue) : Scheduler :=
  { s with nodes := nodes, queues := Function.update s.queues slot q }

/-- `enQ` on a queue of the scheduler. -/
def enQ (s : Scheduler) (slot : Slot) (newNode : NodePtr) : Option Scheduler :=
  (Sched.enQ s.nodes (s.queues slot) newNode).map fun (nodes, q) => s.store slot nodes q

/-- `insertByTime` on a queue of the scheduler. -/
def insertByTime (s : Scheduler) (slot : Slot) (newNode : NodePtr) : Option Scheduler :=
  (Sched.insertByTime s.nodes (s.queues slot) newNode s.nodeNum).map fun (nodes, q) =>
    s.store slot nodes q

/-- `deQ` on a queue of the scheduler. -/
def deQ (s : Scheduler) (slot : Slot) : Option (NodePtr × Scheduler) :=
  (Sched.deQ s.nodes (s.queues slot)).map fun (node, nodes, q) =>
    (node, s.store slot nodes q)

/-- `demoteNode`. -/
def demoteNode (s : Scheduler) (demotee : NodePtr) : Option Scheduler :=
  let priority := s.nodes.priority demotee
  s.enQ (.runQ (if priority < RUN_QUEUE_SIZE - 1 then priority + 1 else priority)) demotee

/-- The loop of `getNextNode` over the run queues from `i` on. -/
def getNextNodeFrom (s : Scheduler) : List Nat → Option (NodePtr × Scheduler)
  | [] => none
  | i :: rest =>
    match s.deQ (.runQ i) with
    | some found => some found
    | none => getNextNodeFrom s rest

/-- `getNextNode`. -/
def getNextNode (s : Scheduler) : Option (NodePtr × Scheduler) :=
  s.getNextNodeFrom (List.range RUN_QUEUE_SIZE)

/-- `insertToList` on `joinList`. -/
def insertToList (s : Scheduler) (newNode : NodePtr) : Scheduler :=
  { s with nodes := s.nodes.setNext newNode s.joinList, joinList := some newNode }

/-- The id a node runs under: `p->threadID->id`. -/
def idOf (s : Scheduler) (p : NodePtr) : Nat := s.threads.id (s.nodes.threadID p)

/-- The loop of `removeFromList` on `joinList` from `ptr`, with `prev` behind it. The inner option
is the node returned. -/
def removeFromListLoop (s : Scheduler) (id : Nat) :
    Nat → Option NodePtr → Option NodePtr → Option (Option NodePtr × Scheduler)
  | _, _, none => some (none, s)
  | 0, _, some _ => none
  | fuel + 1, prev, some ptr =>
    if s.idOf ptr = id then
      match prev with
      | none =>
        some (some ptr,
          { s with nodes := s.nodes.setNext ptr none, joinList := s.nodes.next ptr })
      | some prev =>
        some (some ptr,
          { s with nodes := (s.nodes.setNext prev (s.nodes.next ptr)).setNext ptr none })
    else removeFromListLoop s id fuel (some ptr) (s.nodes.next ptr)

/-- `removeFromList` on `joinList`. -/
def removeFromList (s : Scheduler) (id : Nat) : Option (Option NodePtr × Scheduler) :=
  s.removeFromListLoop id s.nodeNum none s.joinList

/-! ### The registry of threads -/

/-- The search for an id along `threads`, as in `threadDied`, `existsInThreadList` and
`my_pthread_join`. At most `threadNum` records are ever registered. -/
def findThreadLoop (s : Scheduler) (id : Nat) : Nat → Option Handle → Option (Option Handle)
  | _, none => some none
  | 0, some _ => none
  | fuel + 1, some ptr =>
    if s.threads.id ptr = id then some (some ptr)
    else findThreadLoop s id fuel (s.threads.next ptr)

/-- The record with an id, if there is one. -/
def findThread (s : Scheduler) (id : Nat) : Option (Option Handle) :=
  s.findThreadLoop id s.threadNum s.threadList

/-- `ptr->isDead = 1`. -/
def setDead (s : Scheduler) (ptr : Handle) : Scheduler :=
  { s with threads := { s.threads with isDead := Function.update s.threads.isDead ptr true } }

/-- `threadDied`. -/
def threadDied (s : Scheduler) (id : Nat) : Option Scheduler :=
  (s.findThread id).map fun found =>
    match found with
    | some ptr => s.setDead ptr
    | none => s

/-! ### Maintenance -/

/-- `ptr->runtime = (currTime - ptr->timeCreated) / CLOCKS_PER_SEC`, as an exact number. -/
def age (s : Scheduler) (currTime : Int) (ptr : NodePtr) : Scheduler :=
  let runtime : Rat := (currTime - s.nodes.timeCreated ptr : Int) / 1000000
  { s with nodes := { s.nodes with runtime := Function.update s.nodes.runtime ptr runtime } }

/-- The first loop of `maintenance` for one `i`: drain `runQ[i+1]` into `promotionQ[i]`, by the
nodes' age at `now`, and count them. -/
def collect (now : Int) (i : Nat) : Nat → Scheduler → Nat → Option (Nat × Scheduler)
  | fuel, s, count =>
    match s.deQ (.runQ (i + 1)) with
    | none => some (count, s)
    | some (ptr, s) =>
      match fuel with
      | 0 => none
      | fuel + 1 =>
        ((s.age now ptr).insertByTime (.promotionQ i) ptr).bind fun s =>
          collect now i fuel s (count + 1)

/-- Move `count` nodes from `promotionQ[i]` to `runQ[level]`; a `deQ` that finds nothing moves
nothing. -/
def promote (i level : Nat) : Nat → Scheduler → Option Scheduler
  | 0, s => some s
  | count + 1, s =>
    match s.deQ (.promotionQ i) with
    | none => promote i level count s
    | some (ptr, s) => (s.enQ (.runQ level) ptr).bind (promote i level count)

/-- The `j` loop of the second part of `maintenance`: `arr[i]/(i+2)` nodes to each of the levels
`levels`, the rest to level `0`. -/
def spread (i arr : Nat) : List Nat → Scheduler → Option Scheduler
  | [], s => promote i 0 (arr - arr / (i + 2) * (i + 1)) s
  | level :: levels, s => (promote i level (arr / (i + 2)) s).bind (spread i arr levels)

/-- The first part of `maintenance`, over the values of `i`. -/
def collectAll (now : Int) : List Nat → Scheduler → Option (List Nat × Scheduler)
  | [], s => some ([], s)
  | i :: is, s =>
    (collect now i s.nodeNum s 0).bind fun (count, s) =>
      (collectAll now is s).map fun (arr, s) => (count :: arr, s)

/-- The second part of `maintenance`, over the values of `i` with their `arr[i]`. For one `i` the
levels `j - 1` run from `i + 1` down to `1`. -/
def spreadAll : List (Nat × Nat) → Scheduler → Option Scheduler
  | [], s => some s
  | (i, arr) :: rest, s =>
    (spread i arr ((List.range (i + 1)).map fun d => i + 1 - d) s).bind (spreadAll rest)

/-- `maintenance`, at the clock value `now`. -/
def maintenance (s : Scheduler) (now : Int) : Option Scheduler :=
  let levels := List.range (RUN_QUEUE_SIZE - 1)
  (collectAll now levels s).bind fun (arr, s) => spreadAll (levels.zip arr) s

/-! ### `schedule` -/

/-- The loop over `joinList` when the thread `id` exits, from `jptr` on. -/
def wakeLoop (id : Nat) : Nat → Scheduler → Option NodePtr → Option Scheduler
  | _, s, none => some s
  | 0, _, some _ => none
  | fuel + 1, s, some jptr =>
    (s.nodes.joinee jptr).bind fun joinee =>
      if s.threads.id joinee = id then
        (s.removeFromList (s.idOf jptr)).bind fun (removed, s) =>
          removed.bind fun returnToQ =>
            (s.enQ (.runQ (s.nodes.priority returnToQ)) returnToQ).bind fun s =>
              wakeLoop id fuel s s.joinList
      else wakeLoop id fuel s (s.nodes.next jptr)

/-- The rounds of `wakeLoop`: at most one restart for each node, each over the whole list. -/
def wakeFuel (s : Scheduler) : Nat := (s.nodeNum + 1) * (s.nodeNum + 1)

/-- The branches of `schedule` on the status of `current`. -/
def requeue (s : Scheduler) : Option Scheduler :=
  let current := s.current
  match s.nodes.status current with
  | .yielding =>
    (s.enQ (.runQ (s.nodes.priority current)) current).map fun s =>
      { s with nodes := s.nodes.setStatus current .neutral }
  | .exiting =>
    (s.threadDied (s.idOf current)).bind fun s =>
      s.wakeLoop (s.idOf current) s.wakeFuel s.joinList
  | .joining => some (s.insertToList current)
  | .neutral => s.demoteNode current

/-- The head of `schedule`: it counts its calls and runs `maintenance` after every hundred. -/
def tick (s : Scheduler) (now : Int) : Option Scheduler :=
  let s := { s with cycles := s.cycles + 1 }
  if s.cycles > 100 then maintenance { s with cycles := 0 } now else some s

/-- `schedule` up to the choice of the next node. -/
def beforeNext (s : Scheduler) (now : Int) : Option Scheduler := (s.tick now).bind requeue

/-- The end of `schedule`: with nothing left to run it returns to its caller, whose context is
`resume`; otherwise it switches to the next node, unless that has the id of the last one. -/
def switchTo (s : Scheduler) (resume : Context) : Scheduler :=
  match s.getNextNode with
  | none => { s with running := resume }
  | some (nextNode, s) =>
    let justRun := s.current
    let s := { s with current := nextNode }
    if s.idOf nextNode ≠ s.idOf justRun then
      { s with
        nodes := { s.nodes with ut := Function.update s.nodes.ut justRun resume }
        running := s.nodes.ut nextNode }
    else { s with running := resume }

/-- `schedule`, called where the caller goes on with `resume`. -/
def schedule (s : Scheduler) (now : Int) (resume : Context) : Option Scheduler :=
  (s.beforeNext now).map fun s => s.switchTo resume

/-! ### The library calls -/

/-- Which of the allocations of `my_pthread_create` fails, if any. -/
inductive Allocation
  | succeeds
  | noContext
  | noStack
  | noNode
  deriving DecidableEq

/-- `createNode`, once its allocation has succeeded. -/
def createNode (s : Scheduler) (context : Context) (thread : Handle) (now : Int) :
    NodePtr × Scheduler :=
  let p := s.nodeNum
  (p, { s with
    nodeNum := s.nodeNum + 1
    nodes :=
      { threadID := Function.update s.nodes.threadID p thread
        ut := Function.update s.nodes.ut p context
        next := Function.update s.nodes.next p none
        priority := Function.update s.nodes.priority p 0
        timeCreated := Function.update s.nodes.timeCreated p now
        status := Function.update s.nodes.status p .neutral
        runtime := Function.update s.nodes.runtime p 0
        joinee := Function.update s.nodes.joinee p none } })

/-- Fill in a thread record: `id`, `isDead = 0`, `exitArg = NULL`, `pageNum = 0`, `next`. -/
def setThread (s : Scheduler) (thread : Handle) (id : Nat) (next : Option Handle) : Threads :=
  { id := Function.update s.threads.id thread id
    isDead := Function.update s.threads.isDead thread false
    exitArg := Function.update s.threads.exitArg thread 0
    pageNum := Function.update s.threads.pageNum thread 0
    next := Function.update s.threads.next thread next }

/-- The registration of the new thread in `my_pthread_create`, ending with `addThread`. -/
def register (s : Scheduler) (thread : Handle) : Scheduler :=
  { s with
    threads := s.setThread thread s.threadNum s.threadList
    threadNum := s.threadNum + 1
    threadList := some thread }

/-- `my_pthread_create`, with its return value. A failed node allocation is dereferenced. -/
def my_pthread_create (s : Scheduler) (thread : Handle) (now : Int) :
    Allocation → Option (Nat × Scheduler)
  | .noContext => some (1, s)
  | .noStack => some (1, s)
  | .noNode => none
  | .succeeds =>
    let (newNode, s) := (s.register thread).createNode ⟨false, .code⟩ thread now
    (s.enQ (.runQ 0) newNode).map fun s => (0, s)

/-- Enter a frame of the running context. -/
def enter (s : Scheduler) (frame : Frame) : Scheduler :=
  { s with running := { s.running with frame := frame } }

/-- `scd->current->status = status`. -/
def setCurrentStatus (s : Scheduler) (status : Status) : Scheduler :=
  { s with nodes := s.nodes.setStatus s.current status }

/-- `my_pthread_exit`, up to its call of `schedule`. -/
def my_pthread_exit (s : Scheduler) (value_ptr : Nat) : Scheduler :=
  let s := s.setCurrentStatus .exiting
  { s with threads := { s.threads with
      exitArg := Function.update s.threads.exitArg (s.nodes.threadID s.current) value_ptr } }

/-- What a library call has returned. -/
inductive Outcome
  /-- nothing yet -/
  | pending
  /-- `my_pthread_create` returned `code` -/
  | created (code : Nat)
  /-- `my_pthread_join` of the thread `id` returned `1` -/
  | unknown (id : Nat)
  /-- `my_pthread_join` of the thread `id`, whose record is `ptr`, returned `0` and stored
  `value` -/
  | joined (id : Nat) (ptr : Handle) (value : Nat)
  deriving DecidableEq

/-- `my_pthread_join`, up to its call of `schedule`. -/
def my_pthread_join (s : Scheduler) (id : Nat) : Option (Outcome × Scheduler) :=
  (s.findThread id).map fun found =>
    match found with
    | none => (.unknown id, s)
    | some ptr =>
      if s.threads.isDead ptr then (.joined id ptr (s.threads.exitArg ptr), s)
      else
        let s := s.setCurrentStatus .joining
        let s := { s with nodes := { s.nodes with
          joinee := Function.update s.nodes.joinee s.current (some ptr) } }
        (.pending, s.enter (.joinCall id ptr))

/-- What can happen next: a library call of the running thread, the return of its function, the
call of `schedule()` or the code behind it inside a library call, or the timer signal. -/
inductive Event
  | create (address : Nat) (now : Int) (allocation : Allocation)
  | yield
  | exit (value_ptr : Nat)
  | functionReturn
  | join (id : Nat)
  | enterSchedule (now : Int)
  | joinReturn
  | timer (now : Int)

/-- The context behind the call of `schedule()` in a frame. -/
def afterSchedule : Frame → Option Frame
  | .yieldCall => some .code
  | .exitCall => some .code
  | .termCall => some .termDone
  | .joinCall id ptr => some (.joinWoken id ptr)
  | _ => none

/-- **One event.** -/
def exec (s : Scheduler) : Event → Option (Outcome × Scheduler)
  | .create address now allocation =>
    if s.running.frame = .code then
      (s.my_pthread_create (.user address) now allocation).map fun (code, s) => (.created code, s)
    else none
  | .yield =>
    if s.running.frame = .code then
      some (.pending, (s.setCurrentStatus .yielding).enter .yieldCall)
    else none
  | .exit value_ptr =>
    if s.running.frame = .code then some (.pending, (s.my_pthread_exit value_ptr).enter .exitCall)
    else none
  | .functionReturn =>
    if s.running = ⟨false, .code⟩ then
      some (.pending, (s.setCurrentStatus .exiting).enter .termCall)
    else none
  | .join id => if s.running.frame = .code then s.my_pthread_join id else none
  | .enterSchedule now =>
    (afterSchedule s.running.frame).bind fun frame =>
      (s.schedule now { s.running with frame := frame }).map fun s => (.pending, s)
  | .joinReturn =>
    match s.running.frame with
    | .joinWoken id ptr => some (.joined id ptr (s.threads.exitArg ptr), s.enter .code)
    | _ => none
  | .timer now =>
    if s.running.frame = .termDone then none
    else (s.schedule now s.running).map fun s => (.pending, s)

/-- The scheduler after `initialize()`: the main thread runs, with id `1` and not registered; the
other records and nodes hold whatever the memory holds. -/
def initializeScheduler (nodes : Nodes) (threads : Threads) (now : Int) : Scheduler :=
  let blank : Scheduler :=
    { nodes := nodes
      threads := threads
      queues := fun
        | .runQ k => ⟨none, none, k⟩
        | .promotionQ k => ⟨none, none, k⟩
      joinList := none
      threadList := none
      current := 0
      cycles := 0
      threadNum := 2
      nodeNum := 0
      running := ⟨true, .code⟩ }
  let named : Scheduler := { blank with threads := blank.setThread .main 1 none }
  (named.createNode ⟨true, .code⟩ .main now).2

end Scheduler

end OS2017.Sched
