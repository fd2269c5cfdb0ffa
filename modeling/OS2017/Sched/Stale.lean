/-
**Nobody waits for a dead thread — when the status is not stale.**

`schedule()` parks `current` on the join list whenever its status is `JOINING`, and nothing ever
resets that status: a thread that has been woken still has it, and the next timer signal parks it
again, behind a thread that is dead (`parked_again`). In every run in which `schedule()` is entered
with a joining thread only inside the `my_pthread_join` that waits, while the joinee lives and
another thread can run, and in which no `my_pthread_t` is used again while a thread has it, every
node on the join list waits for a live thread, and for one that has not been dead since the node
began to wait (`nobody_stale`).

The second half speaks of the past: `Waiting` is the scheduler with the threads whose join has been
satisfied. A context in front of the `schedule()` of its join cannot tell, but the record it waits
for does: once the joinee has died, that record is dead, or it has the id of a later thread.
-/

import OS2017.Sched.Values

namespace OS2017.Sched

open OS2017.Intrusive OS2017.Run

open Scheduler (Event Outcome Allocation)

/-! ### Satisfied joins -/

/-- The thread the node waits for, or has waited for, is dead. -/
def Scheduler.joineeDead (s : Scheduler) (p : NodePtr) : Bool :=
  (s.nodes.joinee p).any s.threads.isDead

/-- The scheduler, and the nodes whose join has been satisfied: their joinee has been dead since
they called `my_pthread_join` last. -/
structure Waiting where
  sched : Scheduler
  satisfied : NodePtr → Bool

/-- Whose join is satisfied after an event. A `my_pthread_join` that waits is a new join. -/
def Waiting.satisfy (t : Waiting) (s' : Scheduler) : Event → Outcome → NodePtr → Bool
  | .join _, .pending => Function.update t.satisfied t.sched.current false
  | _, _ => fun p => t.satisfied p || s'.joineeDead p

/-- A step of the scheduler, and what it satisfies. -/
def Waiting.next (t : Waiting) (e : Event) : Option Waiting :=
  (t.sched.exec e).map fun (out, s') => ⟨s', t.satisfy s' e out⟩

/-- The scheduler just initialised; nobody has joined. -/
def WaitingStarted (t : Waiting) : Prop := Started t.sched ∧ t.satisfied = fun _ => false

/-- **No thread waits on a dead thread**, and none whose join has been satisfied is parked again. -/
structure NobodyStale (t : Waiting) : Prop where
  alive : JoinListAlive t.sched
  unsatisfied : ∀ p, OnList t.sched.nodes.next t.sched.joinList p → t.satisfied p = false

/-! ### The condition -/

/-- `current` is inside the `my_pthread_join` that waits, in front of its `schedule()`, and the
thread it waits for lives. -/
def JoinOpen (s : Scheduler) : Prop :=
  match s.running.frame with
  | .joinCall id ptr => s.threads.id ptr = id ∧ s.threads.isDead ptr = false
  | _ => False

instance (s : Scheduler) : Decidable (JoinOpen s) := by
  unfold JoinOpen
  split <;> infer_instance

/-- The scheduler has the node: it is `current`, on a run queue, or on the join list. -/
def Held (s : Scheduler) (p : NodePtr) : Prop :=
  p = s.current ∨ (∃ k < RUN_QUEUE_SIZE, OnList s.nodes.next (s.queues (.runQ k)).head p) ∨
    OnList s.nodes.next s.joinList p

/-- No node the scheduler has was created with the handle of a new thread. -/
def HandleIdle (s : Scheduler) : Event → Prop
  | .create address _ _ => ∀ p < s.nodeNum, Held s p → s.nodes.threadID p ≠ .user address
  | _ => True

/-- **Joins are open when they park**, another thread can run then, and nobody shares a handle. -/
def JoinsOpen (t : Waiting) (e : Event) : Prop :=
  (Schedules e → t.sched.nodes.status t.sched.current = .joining →
    JoinOpen t.sched ∧ SomeRunnable t.sched) ∧ HandleIdle t.sched e

/-! ### The invariant -/

/-- The layout has the node, or it is `current`. -/
def Layout.Has (layout : Layout) (s : Scheduler) (p : NodePtr) : Prop :=
  p = s.current ∨ layout.Placed p

theorem Wf.held {s : Scheduler} {layout : Layout} (wf : Wf s layout) {p : NodePtr}
    (has : layout.Has s p) : p < s.nodeNum ∧ Held s p := by
  rcases has with rfl | ⟨place, member⟩
  · exact ⟨wf.allocated, Or.inl rfl⟩
  · refine ⟨wf.rep.bounded place p member, Or.inr ?_⟩
    cases place with
    | join => exact Or.inr ((wf.rep.joined.onList_iff p).mpr member)
    | queue slot =>
      cases slot with
      | promotionQ i =>
        rw [wf.promotion i] at member
        cases member
      | runQ k =>
        have level := wf.rep.ranked k p member
        exact Or.inl ⟨k, level ▸ wf.ranked p (wf.rep.bounded _ p member),
          ((wf.rep.queued (.runQ k)).linked.onList_iff p).mpr member⟩

/-- The join of the thread `id`, whose record was `ptr`, is over. -/
def Over (s : Scheduler) (id : Nat) (ptr : Handle) : Prop :=
  s.threads.isDead ptr = true ∨ s.threads.id ptr ≠ id

/-- **The invariant.** The scheduler's nodes have ids of their own; a context in front of the
`schedule()` of its join waits for the joinee of its node, and its join is over once it is satisfied;
nobody who is parked is satisfied. -/
structure Patient (t : Waiting) (layout : Layout) : Prop where
  wf : Wf t.sched layout
  alive : Alive t.sched layout
  ids : ∀ p, layout.Has t.sched p → t.sched.idOf p < t.sched.threadNum
  apart : ∀ p q, layout.Has t.sched p → layout.Has t.sched q →
    t.sched.idOf p = t.sched.idOf q → p = q
  registry : ∀ ptr, OnList t.sched.threads.next t.sched.threadList ptr →
    t.sched.threads.id ptr < t.sched.threadNum
  calls : ∀ p, layout.Has t.sched p → ∀ id ptr, (t.sched.context p).frame = .joinCall id ptr →
    t.sched.nodes.joinee p = some ptr ∧ id < t.sched.threadNum ∧
      (t.satisfied p = true → Over t.sched id ptr)
  parked : ∀ p ∈ layout .join, t.satisfied p = false

theorem Patient.nobodyStale {t : Waiting} {layout : Layout} (patient : Patient t layout) :
    NobodyStale t :=
  ⟨patient.alive.joinListAlive patient.wf, fun p onList =>
    patient.parked p ((patient.wf.rep.joined.onList_iff p).mp onList)⟩

/-- The joinee of a node on the join list is not dead. -/
theorem Alive.joineeDead {s : Scheduler} {layout : Layout} (alive : Alive s layout) {p : NodePtr}
    (member : p ∈ layout .join) : s.joineeDead p = false := by
  unfold Scheduler.joineeDead
  cases target : s.nodes.joinee p with
  | none => rfl
  | some joinee => exact alive p member joinee target

/-- **What an event does to joins that are under way**: none of those that are over is open again. -/
structure Carried (t t' : Waiting) : Prop where
  threadNum : t.sched.threadNum ≤ t'.sched.threadNum
  closed : ∀ id ptr, id < t.sched.threadNum → Over t.sched id ptr → Over t'.sched id ptr
  satisfied : ∀ p, t'.satisfied p = true → t.satisfied p = true ∨ t'.sched.joineeDead p = true

/-- A context that is in the same join as before. -/
theorem Patient.call_kept {t t' : Waiting} {layout : Layout} (patient : Patient t layout)
    (carried : Carried t t') {p : NodePtr} {id : Nat} {ptr : Handle} (has : layout.Has t.sched p)
    (joinee : t'.sched.nodes.joinee p = t.sched.nodes.joinee p)
    (frame : (t.sched.context p).frame = .joinCall id ptr) :
    t'.sched.nodes.joinee p = some ptr ∧ id < t'.sched.threadNum ∧
      (t'.satisfied p = true → Over t'.sched id ptr) := by
  obtain ⟨target, bound, over_⟩ := patient.calls p has id ptr frame
  refine ⟨joinee.trans target, lt_of_lt_of_le bound carried.threadNum, fun satisfied => ?_⟩
  rcases carried.satisfied p satisfied with before | dead
  · exact carried.closed id ptr bound (over_ before)
  · unfold Scheduler.joineeDead at dead
    rw [joinee, target] at dead
    exact Or.inl dead

/-- A joining thread that may park waits for a live one. -/
theorem Patient.joineeAlive {t : Waiting} {layout : Layout} (patient : Patient t layout)
    (opened : JoinOpen t.sched) :
    JoineeAlive t.sched ∧ t.satisfied t.sched.current = false := by
  have own : t.sched.context t.sched.current = t.sched.running := if_pos rfl
  unfold JoinOpen at opened
  cases frame : t.sched.running.frame with
  | joinCall id ptr =>
    rw [frame] at opened
    obtain ⟨sameId, live⟩ := opened
    obtain ⟨target, _, over_⟩ := patient.calls _ (Or.inl rfl) id ptr (own ▸ frame)
    refine ⟨⟨ptr, target, live⟩, Bool.eq_false_iff.mpr fun satisfied => ?_⟩
    rcases over_ satisfied with dead | other
    · rw [live] at dead
      cases dead
    · exact other sameId
  | _ =>
    rw [frame] at opened
    exact opened.elim

theorem JoinsOpen.joinsLive {t : Waiting} {layout : Layout} {e : Event} (opened : JoinsOpen t e)
    (patient : Patient t layout) : JoinsLive t.sched e := fun schedules joining =>
  ⟨(patient.joineeAlive (opened.1 schedules joining).1).1, (opened.1 schedules joining).2⟩

/-! ### `schedule` -/

/-- Who is there after `schedule` was there before. -/
theorem Scheduled.has {s s' : Scheduler} {layout layout' : Layout} {now : Int} {resume : Context}
    (step : Scheduled s layout now resume s' layout') {p : NodePtr} (has : layout'.Has s' p) :
    layout.Has s p := by
  rcases step.places with same | ⟨_, _, current, placed⟩
  · rcases (same p).mp has with before | ⟨rfl, _⟩
    · exact Or.inr before
    · exact Or.inl rfl
  · rcases has with rfl | after
    · exact Or.inl current
    · exact Or.inr ((placed p).mp after)

/-- **`schedule` keeps the invariant.** -/
theorem Patient.schedule {t : Waiting} {layout layout' : Layout} {s' : Scheduler} {now : Int}
    {resume : Context} (patient : Patient t layout)
    (step : Scheduled t.sched layout now resume s' layout')
    (inCall : ∀ id ptr, resume.frame = .joinCall id ptr → t.sched.running.frame = .joinCall id ptr)
    (opened : t.sched.nodes.status t.sched.current = .joining → JoinOpen t.sched) :
    Patient ⟨s', fun p => t.satisfied p || s'.joineeDead p⟩ layout' := by
  have idOf : ∀ p, s'.idOf p = t.sched.idOf p := fun p => by
    unfold Scheduler.idOf
    rw [step.id, step.threadID]
  have alive' : Alive s' layout' :=
    patient.alive.schedule step fun joining => (patient.joineeAlive (opened joining)).1
  have context := step.context fun same =>
    patient.apart _ _ (step.has (Or.inl rfl)) (Or.inl rfl) same
  have carried : Carried t ⟨s', fun p => t.satisfied p || s'.joineeDead p⟩ := by
    refine ⟨step.threadNum.ge, fun id ptr _ over_ => ?_, fun p satisfied => ?_⟩
    · refine over_.imp step.still_dead fun other => ?_
      show s'.threads.id ptr ≠ id
      rw [step.id]
      exact other
    · exact Bool.or_eq_true_iff.mp satisfied
  refine ⟨step.wf, alive', fun p has => ?_, fun p q first second same => ?_, fun ptr onList => ?_,
    fun p has id ptr frame => ?_, fun p member => ?_⟩
  · show s'.idOf p < s'.threadNum
    rw [idOf, step.threadNum]
    exact patient.ids p (step.has has)
  · refine patient.apart p q (step.has first) (step.has second) ?_
    rw [← idOf p, ← idOf q]
    exact same
  · have before : OnList t.sched.threads.next t.sched.threadList ptr := by
      rw [← step.next, ← step.threadList]
      exact onList
    show s'.threads.id ptr < s'.threadNum
    rw [step.id, step.threadNum]
    exact patient.registry ptr before
  · refine patient.call_kept carried (step.has has) (congrFun step.joinee p) ?_
    have frame' : (s'.context p).frame = .joinCall id ptr := frame
    rw [context p] at frame'
    by_cases same : p = t.sched.current
    · rw [if_pos same] at frame'
      rw [same, Scheduler.context, if_pos rfl]
      exact inCall id ptr frame'
    · rw [if_neg same] at frame'
      exact frame'
  · show (t.satisfied p || s'.joineeDead p) = false
    rw [alive'.joineeDead member, Bool.or_false]
    rcases step.join p member with before | ⟨rfl, joining⟩
    · exact patient.parked p before
    · exact (patient.joineeAlive (opened joining)).2

/-! ### The other events -/

/-- **A create keeps the invariant**, when nobody has the handle. -/
theorem Patient.created {t : Waiting} {layout : Layout} {s' : Scheduler} {thread : Handle}
    (patient : Patient t layout) (new : Created t.sched thread s')
    (unused : ∀ p, layout.Has t.sched p → t.sched.nodes.threadID p ≠ thread)
    (wf' : Wf s' (layout.push (.queue (.runQ 0)) t.sched.nodeNum))
    (alive' : Alive s' (layout.push (.queue (.runQ 0)) t.sched.nodeNum)) :
    Patient ⟨s', fun p => t.satisfied p || s'.joineeDead p⟩
      (layout.push (.queue (.runQ 0)) t.sched.nodeNum) := by
  have cases_ : ∀ p, (layout.push (.queue (.runQ 0)) t.sched.nodeNum).Has s' p →
      layout.Has t.sched p ∨ p = t.sched.nodeNum := by
    rintro p (rfl | placed)
    · exact Or.inl (Or.inl new.current)
    · exact (Layout.placed_push.mp placed).imp Or.inr id
  have id' : s'.threads.id = Function.update t.sched.threads.id thread t.sched.threadNum := by
    rw [new.threads]
    rfl
  have next' : s'.threads.next = Function.update t.sched.threads.next thread t.sched.threadList := by
    rw [new.threads]
    rfl
  have older : ∀ p, layout.Has t.sched p → s'.idOf p = t.sched.idOf p := fun p has => by
    unfold Scheduler.idOf
    rw [new.threadID, Function.update_of_ne (ne_of_lt (patient.wf.held has).1), id',
      Function.update_of_ne (unused p has)]
  have newest : s'.idOf t.sched.nodeNum = t.sched.threadNum := by
    unfold Scheduler.idOf
    rw [new.threadID, Function.update_self, id', Function.update_self]
  have carried : Carried t ⟨s', fun p => t.satisfied p || s'.joineeDead p⟩ := by
    refine ⟨new.threadNum ▸ Nat.le_succ _, fun id ptr bound over_ => ?_, fun p satisfied => ?_⟩
    · by_cases same : ptr = thread
      · refine Or.inr (show s'.threads.id ptr ≠ id from ?_)
        rw [id', same, Function.update_self]
        exact ne_of_gt bound
      · refine over_.imp (fun dead => ?_) fun other => ?_
        · show s'.threads.isDead ptr = true
          rw [new.threads]
          exact (Function.update_of_ne same _ _).trans dead
        · show s'.threads.id ptr ≠ id
          rw [id', Function.update_of_ne same]
          exact other
    · exact Bool.or_eq_true_iff.mp satisfied
  refine ⟨wf', alive', fun p has => ?_, fun p q first second same => ?_, fun ptr onList => ?_,
    fun p has id ptr frame => ?_, fun p member => ?_⟩
  · show s'.idOf p < s'.threadNum
    rw [new.threadNum]
    rcases cases_ p has with before | rfl
    · rw [older p before]
      exact Nat.lt_succ_of_lt (patient.ids p before)
    · rw [newest]
      exact Nat.lt_succ_self _
  · have same' : s'.idOf p = s'.idOf q := same
    rcases cases_ p first with left | rfl <;> rcases cases_ q second with right | rfl
    · rw [older p left, older q right] at same'
      exact patient.apart p q left right same'
    · rw [older p left, newest] at same'
      exact absurd same' (ne_of_lt (patient.ids p left))
    · rw [newest, older q right] at same'
      exact absurd same'.symm (ne_of_lt (patient.ids q right))
    · rfl
  · show s'.threads.id ptr < s'.threadNum
    rw [id', new.threadNum]
    by_cases same : ptr = thread
    · rw [same, Function.update_self]
      exact Nat.lt_succ_self _
    · rw [Function.update_of_ne same]
      have onList' : OnList s'.threads.next s'.threadList ptr := onList
      rw [next', new.threadList] at onList'
      refine Nat.lt_succ_of_lt (patient.registry ptr ?_)
      exact onList'.of_push.resolve_left same
  · rcases cases_ p has with before | rfl
    · have different : p ≠ t.sched.nodeNum := ne_of_lt (patient.wf.held before).1
      refine patient.call_kept carried before ?_ ?_
      · show s'.nodes.joinee p = _
        rw [new.joinee, Function.update_of_ne different]
      · have same : s'.context p = t.sched.context p := by
          unfold Scheduler.context
          rw [new.current, new.running, new.ut, Function.update_of_ne different]
        rw [← same]
        exact frame
    · have userCode : s'.context t.sched.nodeNum = ⟨false, .code⟩ := by
        unfold Scheduler.context
        rw [new.current, if_neg (ne_of_gt patient.wf.allocated), new.ut, Function.update_self]
      have frame' : (s'.context t.sched.nodeNum).frame = .joinCall id ptr := frame
      rw [userCode] at frame'
      cases frame'
  · show (t.satisfied p || s'.joineeDead p) = false
    rw [alive'.joineeDead member, Bool.or_false]
    rcases Layout.mem_push.mp member with before | ⟨_, other⟩
    · exact patient.parked p before
    · cases other

/-- **A step that begins no join** and moves nobody: the status, the value and the context of
`current` may change. -/
structure Relabelled (s s' : Scheduler) : Prop where
  threadID : s'.nodes.threadID = s.nodes.threadID
  ut : s'.nodes.ut = s.nodes.ut
  joinee : s'.nodes.joinee = s.nodes.joinee
  id : s'.threads.id = s.threads.id
  isDead : s'.threads.isDead = s.threads.isDead
  next : s'.threads.next = s.threads.next
  threadList : s'.threadList = s.threadList
  threadNum : s'.threadNum = s.threadNum
  current : s'.current = s.current
  frame : ∀ id ptr, s'.running.frame = .joinCall id ptr → s.running.frame = .joinCall id ptr

theorem Relabelled.refl (s : Scheduler) : Relabelled s s := by
  constructor <;> first | rfl | exact fun _ _ same => same

theorem Relabelled.leaves {s : Scheduler} {status : Status} {frame : Frame}
    (outside : ∀ id ptr, frame ≠ .joinCall id ptr) :
    Relabelled s ((s.setCurrentStatus status).enter frame) := by
  constructor <;> first | rfl | exact fun id ptr same => absurd same (outside id ptr)

theorem Patient.relabelled {t : Waiting} {layout : Layout} {s' : Scheduler}
    (patient : Patient t layout) (step : Relabelled t.sched s') (wf' : Wf s' layout) :
    Patient ⟨s', fun p => t.satisfied p || s'.joineeDead p⟩ layout := by
  have idOf : ∀ p, s'.idOf p = t.sched.idOf p := fun p => by
    unfold Scheduler.idOf
    rw [step.id, step.threadID]
  have has' : ∀ {p}, layout.Has s' p → layout.Has t.sched p := fun has =>
    has.imp_left fun same => same.trans step.current
  have alive' : Alive s' layout := fun p member joinee target => by
    rw [step.joinee] at target
    rw [step.isDead]
    exact patient.alive p member joinee target
  have carried : Carried t ⟨s', fun p => t.satisfied p || s'.joineeDead p⟩ := by
    refine ⟨step.threadNum.ge, fun id ptr _ over_ => ?_, fun p => Bool.or_eq_true_iff.mp⟩
    show s'.threads.isDead ptr = true ∨ s'.threads.id ptr ≠ id
    rw [step.isDead, step.id]
    exact over_
  refine ⟨wf', alive', fun p has => ?_, fun p q first second same => ?_, fun ptr onList => ?_,
    fun p has id ptr frame => ?_, fun p member => ?_⟩
  · show s'.idOf p < s'.threadNum
    rw [idOf, step.threadNum]
    exact patient.ids p (has' has)
  · refine patient.apart p q (has' first) (has' second) ?_
    rw [← idOf p, ← idOf q]
    exact same
  · have before : OnList t.sched.threads.next t.sched.threadList ptr := by
      rw [← step.next, ← step.threadList]
      exact onList
    show s'.threads.id ptr < s'.threadNum
    rw [step.id, step.threadNum]
    exact patient.registry ptr before
  · refine patient.call_kept carried (has' has) (congrFun step.joinee p) ?_
    have frame' : (s'.context p).frame = .joinCall id ptr := frame
    unfold Scheduler.context at frame' ⊢
    rw [step.current] at frame'
    by_cases same : p = t.sched.current
    · rw [if_pos same] at frame' ⊢
      exact step.frame id ptr frame'
    · rw [if_neg same, step.ut] at frame'
      rw [if_neg same]
      exact frame'
  · show (t.satisfied p || s'.joineeDead p) = false
    rw [alive'.joineeDead member, Bool.or_false]
    exact patient.parked p member

/-- **A `my_pthread_join` that waits** is a join that nobody has satisfied. -/
theorem Patient.joinWaits {t : Waiting} {layout : Layout} (patient : Patient t layout) {id : Nat}
    {ptr : Handle} (found : t.sched.findThread id = some (some ptr))
    (wf' : Wf (joinWait t.sched id ptr) layout) (alive' : Alive (joinWait t.sched id ptr) layout) :
    Patient ⟨joinWait t.sched id ptr, Function.update t.satisfied t.sched.current false⟩ layout := by
  have known : id < t.sched.threadNum := by
    rw [← findThreadLoop_id _ _ _ found]
    exact patient.registry ptr (findThreadLoop_onList _ _ _ found)
  refine ⟨wf', alive', patient.ids, patient.apart, patient.registry,
    fun p has id' ptr' frame => ?_, fun p member => ?_⟩
  · by_cases same : p = t.sched.current
    · have inCall : (Frame.joinCall id ptr) = .joinCall id' ptr' := by
        rw [← frame, same]
        exact (congrArg Context.frame (if_pos rfl : _ = (joinWait t.sched id ptr).running)).symm
      cases inCall
      refine ⟨?_, known, fun satisfied => ?_⟩
      · rw [same]
        exact Function.update_self _ _ _
      · rw [same] at satisfied
        cases (Function.update_self _ _ _).symm.trans satisfied
    · have before : (t.sched.context p).frame = .joinCall id' ptr' := by
        rw [← frame]
        unfold Scheduler.context
        rw [if_neg same, if_neg (show p ≠ (joinWait t.sched id ptr).current from same)]
        rfl
      obtain ⟨target, bound, over_⟩ := patient.calls p has id' ptr' before
      refine ⟨(Function.update_of_ne same _ _).trans target, bound, fun satisfied => ?_⟩
      exact over_ ((Function.update_of_ne same _ _).symm.trans satisfied)
  · exact (Function.update_of_ne (patient.wf.ne_current member) _ _).trans (patient.parked p member)

/-! ### Runs -/

/-- **One event keeps the invariant.** -/
theorem Patient.step {t : Waiting} {layout layout' : Layout} {s' : Scheduler} {e : Event}
    {out : Outcome} (patient : Patient t layout) (opened : JoinsOpen t e)
    (effect : Effect t.sched layout e out s' layout') (wf' : Wf s' layout') :
    Patient ⟨s', t.satisfy s' e out⟩ layout' := by
  have alive' := patient.alive.step patient.wf (opened.joinsLive patient) effect
  cases effect with
  | createFailed => exact patient.relabelled (.refl _) wf'
  | created address now s' runs new =>
    refine patient.created new (fun p has => ?_) wf' alive'
    obtain ⟨bound, held⟩ := patient.wf.held has
    exact opened.2 p bound held
  | yielded => exact patient.relabelled (.leaves (by simp)) wf'
  | exited value_ptr =>
    refine patient.relabelled ?_ wf'
    constructor <;> first | rfl | exact fun id ptr same => by cases same
  | returned => exact patient.relabelled (.leaves (by simp)) wf'
  | joinUnknown => exact patient.relabelled (.refl _) wf'
  | joinDead => exact patient.relabelled (.refl _) wf'
  | joinWaits id ptr runs found => exact patient.joinWaits found wf' alive'
  | joinReturned id ptr runs =>
    refine patient.relabelled ?_ wf'
    constructor <;> first | rfl | exact fun id ptr same => by cases same
  | entered now frame s' layout' runs step =>
    refine patient.schedule step (fun id ptr inCall => ?_) fun joining => (opened.1 trivial joining).1
    simp only at inCall
    subst inCall
    cases running : t.sched.running.frame <;> simp [running, Scheduler.afterSchedule] at runs
  | interrupted now s' layout' step =>
    exact patient.schedule step (fun _ _ inCall => inCall) fun joining =>
      (opened.1 trivial joining).1

theorem WaitingStarted.patient {t : Waiting} (started : WaitingStarted t) : Patient t noLayout := by
  obtain ⟨s, satisfied⟩ := t
  obtain ⟨start, nobody⟩ := started
  simp only at start nobody
  subst nobody
  have wf := start.wf
  obtain ⟨nodes, threads, now, rfl⟩ := start
  have only : ∀ p, noLayout.Has (Scheduler.initializeScheduler nodes threads now) p → p = 0 := by
    rintro p (same | ⟨_, member⟩)
    · exact same
    · cases member
  refine ⟨wf, fun _ member => (by cases member), fun p has => ?_, fun p q first second _ => ?_,
    fun ptr onList => (by cases onList), fun p has id ptr frame => ?_, fun _ member => by cases member⟩
  · rw [only p has]
    exact Nat.lt_succ_self 1
  · rw [only p first, only q second]
  · rw [only p has] at frame
    cases frame

/-- **No thread waits on a dead thread**, and none whose join has been satisfied is parked, in every
run without a stale `JOINING`. -/
theorem nobody_stale (t : Waiting)
    (reached : Reach WaitingStarted JoinsOpen (execStep Waiting.next) t) : NobodyStale t := by
  obtain ⟨layout, patient⟩ : ∃ layout, Patient t layout := by
    refine reached.invariant (fun t => ∃ layout, Patient t layout)
      (fun t started => ⟨noLayout, started.patient⟩) ?_
    rintro t e t' ⟨layout, patient⟩ opened taken
    obtain ⟨⟨out, s'⟩, result, rfl⟩ := Option.map_eq_some_iff.mp taken
    obtain ⟨layout', effect, wf'⟩ := patient.wf.exec (opened.joinsLive patient).leaves result
    exact ⟨layout', patient.step opened effect wf'⟩
  exact patient.nobodyStale

/-- What can be computed of `HandleIdle`: the handle is a new one, or nobody but `current` is there. -/
def HandleSpare (s : Scheduler) : Event → Prop
  | .create address _ _ => (∀ p < s.nodeNum, s.nodes.threadID p ≠ .user address) ∨
      (¬ SomeRunnable s ∧ s.joinList = none ∧ s.nodes.threadID s.current ≠ .user address)
  | _ => True

instance (s : Scheduler) : (e : Event) → Decidable (HandleSpare s e)
  | .create address _ _ => inferInstanceAs (Decidable (
      (∀ p < s.nodeNum, s.nodes.threadID p ≠ .user address) ∨
        (¬ SomeRunnable s ∧ s.joinList = none ∧ s.nodes.threadID s.current ≠ .user address)))
  | .yield => isTrue trivial
  | .exit _ => isTrue trivial
  | .functionReturn => isTrue trivial
  | .join _ => isTrue trivial
  | .enterSchedule _ => isTrue trivial
  | .joinReturn => isTrue trivial
  | .timer _ => isTrue trivial

theorem HandleSpare.idle {s : Scheduler} {e : Event} (spare : HandleSpare s e) : HandleIdle s e := by
  cases e with
  | create address now allocation =>
    intro p bound held
    rcases spare with new | ⟨nobody, noList, other⟩
    · exact new p bound
    · rcases held with rfl | ⟨k, inRange, onList⟩ | onList
      · exact other
      · cases head : (s.queues (.runQ k)).head with
        | none =>
          rw [head] at onList
          cases onList
        | some first => exact absurd ⟨k, inRange, by rw [head]; simp⟩ nobody
      · rw [noList] at onList
        cases onList
  | _ => trivial

/-- The main thread joins thread `2`, uses its `my_pthread_t` again for thread `3`, and joins it. -/
def joinTwiceRun : List Event :=
  [.create 0 0 .succeeds, .join 2, .enterSchedule 0, .exit 7, .enterSchedule 0, .joinReturn,
    .create 0 0 .succeeds, .join 3, .enterSchedule 0]

theorem nobody_stale_joinTwiceRun :
    ∃ t, Reach WaitingStarted JoinsOpen (execStep Waiting.next) t ∧ t.sched.joinList = some 0 ∧
      NobodyStale t := by
  have start : Reach WaitingStarted (fun t e => (Schedules e →
      t.sched.nodes.status t.sched.current = .joining → JoinOpen t.sched ∧ SomeRunnable t.sched) ∧
        HandleSpare t.sched e) (execStep Waiting.next) ⟨zeroed, fun _ => false⟩ :=
    .init ⟨zeroed_started, rfl⟩
  obtain ⟨t, reached, parked⟩ := start.exists_of_execAll joinTwiceRun
    (fun t => t.sched.joinList = some 0) (by decide)
  have opened : Reach WaitingStarted JoinsOpen (execStep Waiting.next) t :=
    reached.mono fun t e met => ⟨met.1, met.2.idle⟩
  exact ⟨t, opened, of_decide_eq_true parked, nobody_stale t opened⟩

/-- The main thread joins thread `2`, which exits; a third thread yields to the woken main thread. The
join returns, and then the timer fires. -/
def staleRun : List Event :=
  [.create 0 0 .succeeds, .create 1 0 .succeeds, .join 2, .enterSchedule 0, .exit 7,
    .enterSchedule 0, .yield, .enterSchedule 0, .joinReturn, .timer 0]

/-- **The woken thread is parked again**: the main thread, whose join has been satisfied, goes back
to the join list, behind the dead thread `2`. -/
theorem parked_again :
    ¬ ∀ t, Reach WaitingStarted anyStep (execStep Waiting.next) t → NobodyStale t := by
  intro always
  have start : Reach WaitingStarted anyStep (execStep Waiting.next) ⟨zeroed, fun _ => false⟩ :=
    .init ⟨zeroed_started, rfl⟩
  obtain ⟨t, reached, found⟩ := start.exists_of_execAll staleRun
    (fun t => t.sched.joinList = some 0 ∧ t.sched.nodes.joinee 0 = some (.user 0) ∧
      t.sched.threads.isDead (.user 0) = true) (by decide)
  obtain ⟨head, target, dead⟩ := of_decide_eq_true found
  obtain ⟨joinee, same, live⟩ := (always t reached).alive 0 (head ▸ .here 0)
  rw [target] at same
  cases same
  rw [dead] at live
  cases live

end OS2017.Sched
