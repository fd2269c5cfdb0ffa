/-
**The scheduler is a multilevel feedback queue.**

`Implements s f` reads the pointers of `s` as a state of `Feedback`: the run queues are its levels, the
join list is who waits, with the priority each comes back to, and `current` runs. In every run in which
the joins are orderly each call of `schedule()` is one call of the feedback queue (`schedule_refines`):
the running thread leaves by its status, and after a hundred calls the queues are dealt anew by age.

`maintenance` moves nodes and changes priorities, so the abstract state needs that it leaves the
priority of whoever is on no queue alone (`Calm.maintenance`).
-/

import OS2017.Lib.Feedback
import OS2017.Sched.Redistribution
import OS2017.Sched.Wakes

namespace OS2017.Sched

open OS2017.Intrusive OS2017.Run OS2017.Feedback

open Scheduler (Event Outcome)

/-! ### Priorities through `maintenance` -/

/-- Nobody that is placed yields, and `p` is on no queue. -/
structure Calm (s : Scheduler) (layout : Layout) (p : NodePtr) : Prop where
  rep : Rep s layout
  awake : ∀ q, layout.Placed q → s.nodes.status q ≠ .yielding
  away : ∀ slot, p ∉ layout (.queue slot)

namespace Calm

variable {s s' : Scheduler} {layout layout' : Layout} {p : NodePtr}

/-- Nodes that move between queues leave it so. -/
theorem moved (calm : Calm s layout p) (moved : Moved s layout s' layout') : Calm s' layout' p := by
  refine ⟨moved.rep, fun q placed => ?_, fun slot member => ?_⟩
  · rw [moved.kept.status]
    exact calm.awake q ((moved.placed q).mp placed)
  · obtain ⟨place, before⟩ := (moved.placed p).mp ⟨_, member⟩
    cases place with
    | queue other => exact calm.away other before
    | join =>
      rw [← moved.join] at before
      exact moved.rep.not_mem before (by simp) member

/-- `promote` gives a priority only to the nodes it moves. -/
theorem promote_priority (i level : Nat) :
    ∀ (count : Nat) {s s' : Scheduler} {layout : Layout}, Calm s layout p →
      Scheduler.promote i level count s = some s' → s'.nodes.priority p = s.nodes.priority p := by
  intro count
  induction count with
  | zero =>
    intro s s' layout _ ran
    cases ran
    rfl
  | succ count ih =>
    intro s s' layout calm ran
    cases first : layout (.queue (.promotionQ i)) with
    | nil =>
      simp only [Scheduler.promote, calm.rep.deQ_none first] at ran
      exact ih calm ran
    | cons q rest =>
      obtain ⟨s₁, popped, rep₁, kept₁, priority₁, _⟩ := calm.rep.deQ first
      have member : q ∈ layout (.queue (.promotionQ i)) := by
        rw [first]
        exact List.mem_cons_self
      have off := calm.rep.off_of_pop first
      have awake : s₁.nodes.status q ≠ .yielding := by
        rw [kept₁.status]
        exact calm.awake q ⟨_, member⟩
      obtain ⟨s₂, pushed, rep₂, kept₂, priority₂, _⟩ := rep₁.enQ (k := level) off
        (kept₁.nodeNum ▸ calm.rep.bounded _ q member) fun yields => absurd yields awake
      simp only [Scheduler.promote, popped, pushed, Option.bind_some] at ran
      have other : p ≠ q := fun same => calm.away _ (same ▸ member)
      have placed : ∀ x, Layout.Placed (Layout.push
          (Function.update layout (.queue (.promotionQ i)) rest) (.queue (.runQ level)) q) x
          ↔ layout.Placed x := fun x => by
        rw [Layout.placed_push, or_comm]
        exact Rep.placed_of_pop first x
      have calm₂ : Calm s₂ (Layout.push
          (Function.update layout (.queue (.promotionQ i)) rest) (.queue (.runQ level)) q) p := by
        refine ⟨rep₂, fun x inside => ?_, fun slot inside => ?_⟩
        · rw [kept₂.status, kept₁.status]
          exact calm.awake x ((placed x).mp inside)
        · rcases Layout.mem_push.mp inside with before | ⟨same, _⟩
          · by_cases here : Place.queue slot = .queue (.promotionQ i)
            · rw [here, Function.update_self] at before
              refine calm.away (.promotionQ i) ?_
              rw [first]
              exact List.mem_cons_of_mem _ before
            · rw [Function.update_of_ne here] at before
              exact calm.away slot before
          · exact other same
      rw [ih calm₂ ran, priority₂, Function.update_of_ne other, priority₁]

/-- **`promote`**, with a node that is on no queue. -/
theorem promote (calm : Calm s layout p) (i : Nat) {level : Nat} (inRange : level < RUN_QUEUE_SIZE)
    (count : Nat) (ran : Scheduler.promote i level count s = some s') :
    (∃ layout', Moved s layout s' layout') ∧ s'.nodes.priority p = s.nodes.priority p := by
  obtain ⟨s₁, result, moved⟩ := Rep.promote i inRange count s layout calm.rep fun q member =>
    calm.awake q ⟨_, member⟩
  cases result.symm.trans ran
  exact ⟨⟨_, moved⟩, promote_priority i level count calm ran⟩

theorem spread (i arr : Nat) :
    ∀ (levels : List Nat) {s s' : Scheduler} {layout : Layout}, (∀ k ∈ levels, k < RUN_QUEUE_SIZE) →
      Calm s layout p → Scheduler.spread i arr levels s = some s' →
      (∃ layout', Moved s layout s' layout') ∧ s'.nodes.priority p = s.nodes.priority p := by
  intro levels
  induction levels with
  | nil =>
    intro s s' layout _ calm ran
    exact calm.promote i (by decide) _ ran
  | cons level levels ih =>
    intro s s' layout inRange calm ran
    obtain ⟨s₁, first, rest⟩ := Option.bind_eq_some_iff.mp ran
    obtain ⟨⟨layout₁, moved₁⟩, priority₁⟩ :=
      calm.promote i (inRange level List.mem_cons_self) _ first
    obtain ⟨⟨layout₂, moved₂⟩, priority₂⟩ :=
      ih (fun k member => inRange k (List.mem_cons_of_mem _ member)) (calm.moved moved₁) rest
    exact ⟨⟨layout₂, moved₁.trans moved₂⟩, priority₂.trans priority₁⟩

theorem spreadAll :
    ∀ (pairs : List (Nat × Nat)) {s s' : Scheduler} {layout : Layout},
      (∀ pair ∈ pairs, pair.1 + 1 < RUN_QUEUE_SIZE) → Calm s layout p →
      Scheduler.spreadAll pairs s = some s' → s'.nodes.priority p = s.nodes.priority p := by
  intro pairs
  induction pairs with
  | nil =>
    intro s s' layout _ _ ran
    cases ran
    rfl
  | cons pair pairs ih =>
    intro s s' layout inRange calm ran
    obtain ⟨s₁, first, rest⟩ := Option.bind_eq_some_iff.mp ran
    have levels : ∀ k ∈ Layout.levelsDown pair.1, k < RUN_QUEUE_SIZE := fun k member =>
      lt_of_le_of_lt (Layout.mem_levelsDown.mp member).2 (inRange pair List.mem_cons_self)
    obtain ⟨⟨layout₁, moved₁⟩, priority₁⟩ := spread pair.1 pair.2 _ levels calm first
    exact (ih (fun other member => inRange other (List.mem_cons_of_mem _ member))
      (calm.moved moved₁) rest).trans priority₁

end Calm

/-- The walk of `insertByTime` writes only `next` fields. -/
theorem insertByTimeLoop_next {nodes nodes' : Nodes} {q q' : Queue} {p : NodePtr} :
    ∀ {fuel : Nat} {prev ptr : Option NodePtr},
      insertByTimeLoop nodes q p fuel prev ptr = some (nodes', q') →
      ∃ next, nodes' = { nodes with next := next } := by
  intro fuel
  induction fuel with
  | zero =>
    intro prev ptr ran
    cases ptr with
    | none =>
      obtain ⟨rear, _, same⟩ := Option.map_eq_some_iff.mp ran
      cases same
      exact ⟨_, rfl⟩
    | some ptr => cases ran
  | succ fuel ih =>
    intro prev ptr ran
    cases ptr with
    | none =>
      obtain ⟨rear, _, same⟩ := Option.map_eq_some_iff.mp ran
      cases same
      exact ⟨_, rfl⟩
    | some ptr =>
      unfold insertByTimeLoop at ran
      split at ran
      · cases prev <;> cases ran <;> exact ⟨_, rfl⟩
      · exact ih ran

theorem Scheduler.insertByTime_next {s s' : Scheduler} {slot : Slot} {p : NodePtr}
    (ran : s.insertByTime slot p = some s') :
    s'.cycles = s.cycles ∧ ∃ next, s'.nodes = { s.nodes with next := next } := by
  obtain ⟨⟨nodes, q⟩, inserted, rfl⟩ := Option.map_eq_some_iff.mp ran
  refine ⟨rfl, ?_⟩
  show ∃ next, nodes = { s.nodes with next := next }
  unfold Sched.insertByTime at inserted
  cases head : (s.queues slot).head with
  | none =>
    rw [head] at inserted
    cases inserted
    exact ⟨_, rfl⟩
  | some first =>
    rw [head] at inserted
    exact insertByTimeLoop_next inserted

theorem Scheduler.deQ_next {s s' : Scheduler} {slot : Slot} {p : NodePtr}
    (ran : s.deQ slot = some (p, s')) :
    s'.cycles = s.cycles ∧ ∃ next, s'.nodes = { s.nodes with next := next } := by
  obtain ⟨_, taken, same⟩ := Option.map_eq_some_iff.mp ran
  obtain ⟨head, _, rfl⟩ := Option.map_eq_some_iff.mp taken
  cases same
  exact ⟨rfl, _, rfl⟩

/-- Draining a run queue writes no priority. -/
theorem collect_priority (now : Int) (i : Nat) :
    ∀ {fuel count n : Nat} {s s' : Scheduler}, Scheduler.collect now i fuel s count = some (n, s') →
      s'.nodes.priority = s.nodes.priority := by
  intro fuel
  induction fuel with
  | zero =>
    intro count n s s' ran
    unfold Scheduler.collect at ran
    split at ran
    · cases ran
      rfl
    · cases ran
  | succ fuel ih =>
    intro count n s s' ran
    unfold Scheduler.collect at ran
    split at ran
    · cases ran
      rfl
    · rename_i ptr s₁ popped
      obtain ⟨s₂, inserted, rest⟩ := Option.bind_eq_some_iff.mp ran
      obtain ⟨_, _, aged⟩ := Scheduler.insertByTime_next inserted
      obtain ⟨_, _, taken⟩ := Scheduler.deQ_next popped
      rw [ih rest, aged]
      show s₁.nodes.priority = s.nodes.priority
      rw [taken]

theorem collectAll_priority (now : Int) :
    ∀ {levels counts : List Nat} {s s' : Scheduler},
      Scheduler.collectAll now levels s = some (counts, s') →
      s'.nodes.priority = s.nodes.priority := by
  intro levels
  induction levels with
  | nil =>
    intro counts s s' ran
    cases ran
    rfl
  | cons i levels ih =>
    intro counts s s' ran
    obtain ⟨⟨count, s₁⟩, first, rest⟩ := Option.bind_eq_some_iff.mp ran
    obtain ⟨⟨more, s₂⟩, later, same⟩ := Option.map_eq_some_iff.mp rest
    cases same
    exact (ih later).trans (collect_priority now i first)

/-- **`maintenance` leaves a node that is on no queue its priority.** -/
theorem Calm.maintenance {s s' : Scheduler} {layout : Layout} {p : NodePtr} (calm : Calm s layout p)
    {now : Int} (empty : ∀ i, layout (.queue (.promotionQ i)) = [])
    (ran : s.maintenance now = some s') : s'.nodes.priority p = s.nodes.priority p := by
  obtain ⟨⟨counts, s₁⟩, collected, rest⟩ := Option.bind_eq_some_iff.mp ran
  obtain ⟨s₂, result, moved⟩ := Rep.collectAll now _ s layout List.nodup_range calm.rep
    fun i _ => empty i
  cases result.symm.trans collected
  refine (Calm.spreadAll _ (fun pair member => ?_) (calm.moved moved) rest).trans
    (congrFun (collectAll_priority now collected) p)
  have inside := List.mem_range.mp (List.of_mem_zip member).1
  exact Nat.add_lt_of_lt_sub inside

/-! ### The abstract state -/

/-- **The pointers read as a feedback queue.** -/
structure Implements (s : Scheduler) (f : State NodePtr) : Prop where
  levels : ∀ k, Queued s.nodes.next (s.queues (.runQ k)).head (s.queues (.runQ k)).rear (f.levels k)
  waiting : Linked s.nodes.next s.joinList (f.waiting.map Prod.fst)
  priorities : ∀ w ∈ f.waiting, w.2 = s.nodes.priority w.1
  current : f.current = (s.current, s.nodes.priority s.current)

/-- The feedback queue of a layout. -/
def Layout.feedback (layout : Layout) (s : Scheduler) : State NodePtr where
  levels k := layout (.queue (.runQ k))
  waiting := (layout .join).map fun p => (p, s.nodes.priority p)
  current := (s.current, s.nodes.priority s.current)

/-- How the running thread leaves, by its status. -/
def Scheduler.leaving (s : Scheduler) : Leave NodePtr :=
  match s.nodes.status s.current with
  | .neutral => .expires
  | .yielding => .yields
  | .joining => .waits
  | .exiting => .ends fun p => Waits s (s.idOf s.current) p

/-- The levels once `maintenance` has dealt them anew. -/
def redealt (s : Scheduler) (now : Int) (levels : Nat → List NodePtr) (k : Nat) : List NodePtr :=
  (if k = 0 then levels 0 else [])
    ++ (List.range (RUN_QUEUE_SIZE - 1)).flatMap fun i =>
      Layout.share i (byAge s now (levels (i + 1))) k

/-- What a call of `schedule` does to the levels first. -/
def Scheduler.dealing (s : Scheduler) (now : Int) : (Nat → List NodePtr) → Nat → List NodePtr :=
  if s.cycles < 100 then id else redealt s now

/-- **A call of `schedule` on the abstract state.** -/
def Scheduler.scheduled (s : Scheduler) (now : Int) (f : State NodePtr) : State NodePtr :=
  f.schedule (RUN_QUEUE_SIZE - 1) (s.dealing now) s.leaving

variable {s s' : Scheduler} {layout layout' : Layout}

/-- A layout is an abstract state. -/
theorem Rep.implements (rep : Rep s layout) : Implements s (layout.feedback s) := by
  refine ⟨fun k => rep.queued (.runQ k), ?_, fun w member => ?_, rfl⟩
  · have names : ((layout.feedback s).waiting.map Prod.fst) = layout .join := by
      simp [Layout.feedback, Function.comp_def]
    rw [names]
    exact rep.joined
  · obtain ⟨p, _, rfl⟩ := List.mem_map.mp member
    rfl

/-- **The pointers determine the abstract state.** -/
theorem Implements.unique {f g : State NodePtr} (first : Implements s f) (second : Implements s g) :
    f = g := by
  have levels : f.levels = g.levels := by
    funext k
    exact (first.levels k).linked.unique (second.levels k).linked
  have waiting : f.waiting = g.waiting := by
    have pairs : ∀ {h : State NodePtr}, Implements s h →
        h.waiting = (h.waiting.map Prod.fst).map fun p => (p, s.nodes.priority p) := by
      intro h implements
      rw [List.map_map]
      refine (List.map_id _).symm.trans (List.map_congr_left fun w member => ?_)
      exact Prod.ext rfl (implements.priorities w member)
    rw [pairs first, pairs second, first.waiting.unique second.waiting]
  have current : f.current = g.current := first.current.trans second.current.symm
  exact State.ext levels waiting current

/-! ### `schedule` -/

/-- Beyond the last level there is nobody. -/
theorem Wf.beyond (wf : Wf s layout) {k : Nat} (beyond : RUN_QUEUE_SIZE ≤ k) :
    layout (.queue (.runQ k)) = [] := by
  refine List.eq_nil_iff_forall_not_mem.mpr fun p member => ?_
  have level := wf.rep.ranked k p member
  have bound := wf.ranked p (wf.rep.bounded _ p member)
  omega

/-- The levels of the layout behind `maintenance`. -/
theorem Wf.maintained_levels (wf : Wf s layout) (now : Int) :
    ((maintained s now layout).feedback s').levels = redealt s now (layout.feedback s).levels := by
  funext k
  show maintained s now layout (.queue (.runQ k)) = _
  by_cases inRange : k < RUN_QUEUE_SIZE
  · exact maintained_runQ s now layout inRange
  · have beyond : RUN_QUEUE_SIZE ≤ k := not_lt.mp inRange
    have positive : k ≠ 0 := fun zero => by
      subst zero
      exact absurd beyond (by decide)
    have kept : k ∉ (List.range (RUN_QUEUE_SIZE - 1)).map (· + 1) := fun member => by
      obtain ⟨i, inside, rfl⟩ := List.mem_map.mp member
      have := List.mem_range.mp inside
      omega
    rw [maintained, Layout.dealtAll, Layout.collectedAll, if_neg kept, wf.beyond beyond, redealt,
      if_neg positive]
    refine congrArg _ (List.flatMap_congr fun i member => ?_)
    rw [Layout.collectedAll, if_pos member]
    rfl

/-- Who is on no queue has its priority through `maintenance`. -/
theorem Wf.maintenance_priority (wf : Wf s layout) {now : Int} (ran : s.maintenance now = some s')
    {p : NodePtr} (away : ∀ slot, p ∉ layout (.queue slot)) :
    s'.nodes.priority p = s.nodes.priority p := by
  have calm : Calm s layout p := ⟨wf.rep, fun _ placed => wf.notYielding placed, away⟩
  exact calm.maintenance wf.promotion ran

/-- **The head of `schedule`** deals the levels anew, if it is time. -/
theorem Wf.tick_deals (wf : Wf s layout) (now : Int) :
    ∃ s' layout', s.tick now = some s' ∧ Wf s' layout' ∧ Kept s s' ∧
      layout'.feedback s' = (layout.feedback s).redeal (s.dealing now) := by
  by_cases due : s.cycles < 100
  · have early : ¬ s.cycles + 1 > 100 := by omega
    refine ⟨{ s with cycles := s.cycles + 1 }, layout, by simp [Scheduler.tick, early],
      wf.setCycles _, by constructor <;> rfl, ?_⟩
    rw [Scheduler.dealing, if_pos due]
    rfl
  · have late : s.cycles + 1 > 100 := by omega
    have wf₀ := wf.setCycles 0
    obtain ⟨s', result, moved⟩ :=
      wf₀.rep.maintenance now (fun i _ => wf₀.promotion i) fun k _ => wf₀.awake (.runQ k)
    obtain ⟨s'', layout'', ticked, wf', kept, join, _⟩ := wf.tick now
    have ran : s.tick now = some s' := by simp [Scheduler.tick, late, result]
    cases ran.symm.trans ticked
    refine ⟨s', layout'', ticked, wf', kept, ?_⟩
    rw [wf'.rep.implements.unique moved.rep.implements, Scheduler.dealing, if_neg due]
    have levels : ((maintained { s with cycles := 0 } now layout).feedback s').levels = _ :=
      wf₀.maintained_levels now
    have waiting : ((maintained { s with cycles := 0 } now layout).feedback s').waiting
        = (layout.feedback s).waiting := by
      show (maintained { s with cycles := 0 } now layout .join).map _ = _
      rw [moved.join]
      refine List.map_congr_left fun p member => ?_
      rw [wf₀.maintenance_priority result fun slot => wf₀.rep.not_mem member (by simp)]
    have current : ((maintained { s with cycles := 0 } now layout).feedback s').current
        = (layout.feedback s).current := by
      show (s'.current, s'.nodes.priority s'.current) = _
      rw [kept.current, wf₀.maintenance_priority result fun slot => wf.off _]
      rfl
    exact State.ext levels waiting current

/-- A node goes behind a run queue. -/
theorem Layout.feedback_push {k : Nat} {p : NodePtr} (off : layout.Off p)
    (priority : s'.nodes.priority = Function.update s.nodes.priority p k)
    (current : s'.current = s.current) :
    (layout.push (.queue (.runQ k)) p).feedback s'
      = { (layout.feedback s).push k p with
          current := (s.current, s'.nodes.priority s.current) } := by
  refine State.ext ?_ ?_ ?_
  · funext j
    show layout.push (.queue (.runQ k)) p (.queue (.runQ j)) = ((layout.feedback s).push k p).levels j
    by_cases same : j = k
    · subst same
      rw [State.levels_push_self, Layout.push, Function.update_self]
      rfl
    · rw [State.levels_push_of_ne _ same, Layout.push, Function.update_of_ne (by simpa using same)]
      rfl
  · show (layout.push (.queue (.runQ k)) p .join).map _ = (layout .join).map _
    rw [Layout.push, Function.update_of_ne (by simp)]
    refine List.map_congr_left fun q member => ?_
    rw [priority, Function.update_of_ne fun same : q = p => off .join (same ▸ member)]
  · show (s'.current, s'.nodes.priority s'.current) = _
    rw [current]

/-- Who waits for an exiting thread is woken. -/
theorem feedback_wake {id : Nat} (priority : s'.nodes.priority = s.nodes.priority)
    (current : s'.current = s.current) :
    (wake s id layout).feedback s' = (layout.feedback s).wake fun p => Waits s id p := by
  refine State.ext ?_ ?_ ?_
  · funext k
    show layout (.queue (.runQ k)) ++ _ = layout (.queue (.runQ k)) ++ _
    refine congrArg _ ?_
    show _ = (((layout .join).map fun p => (p, s.nodes.priority p)).filter _).map Prod.fst
    rw [List.filter_map, List.map_map]
    refine ((List.map_id _).symm.trans (List.map_congr_left fun _ _ => rfl)).trans
      (congrArg _ (List.filter_congr fun p _ => ?_))
    simp
  · show ((layout .join).filter _).map _ = ((layout .join).map _).filter _
    rw [List.filter_map, priority]
    refine congrArg _ (List.filter_congr fun p _ => ?_)
    simp
  · show (s'.current, s'.nodes.priority s'.current) = _
    rw [current, priority]
    rfl

/-- The branch of an exiting thread, on layouts. The record of the thread may be dead afterwards; the
wake-up loop reads only the ids. -/
theorem Exits.requeue {records : List Handle} (exits : Exits s layout records) :
    ∃ s', s.requeue = some s' ∧ Rep s' (wake s (s.idOf s.current) layout) ∧
      s'.nodes.priority = s.nodes.priority ∧ s'.current = s.current := by
  have ids : (buried s records).id = s.threads.id := by
    unfold buried
    split <;> rfl
  obtain ⟨threads, threads_eq⟩ : ∃ threads, threads = buried s records := ⟨_, rfl⟩
  rw [← threads_eq] at ids
  have idOf : ∀ p, ({ s with threads := threads } : Scheduler).idOf p = s.idOf p := fun p => by
    unfold Scheduler.idOf
    rw [ids]
  have same : wake { s with threads := threads } (s.idOf s.current) layout
      = wake s (s.idOf s.current) layout := by
    have waits : ∀ p, Waits { s with threads := threads } (s.idOf s.current) p
        ↔ Waits s (s.idOf s.current) p := fun p => by
      unfold Waits
      rw [ids]
    funext place
    match place with
    | .join => simp only [wake, waits]
    | .queue (.runQ k) => simp only [wake, waits]
    | .queue (.promotionQ i) => rfl
  have room : (layout .join).length + (layout .join).length * (s.nodeNum + 1) ≤ s.wakeFuel := by
    have bound := exits.rep.length_le .join
    unfold Scheduler.wakeFuel
    nlinarith
  obtain ⟨s', looped, rep, kept, priority⟩ := Rep.wakeLoop_exact (s.idOf s.current) s.wakeFuel
    { s with threads := threads } layout [] (layout .join) s.joinList
    ⟨exits.rep.queued, exits.rep.level, exits.rep.joined, exits.rep.nodup, exits.rep.apart,
      exits.rep.ranked, exits.rep.bounded⟩ rfl exits.rep.joined (by simp) exits.joinees
    (fun p first q second equal => exits.distinct p first q second
      (by rwa [idOf, idOf] at equal)) room
  refine ⟨s', ?_, same ▸ rep, priority, kept.current⟩
  simp only [Scheduler.requeue, exits.exiting, exits.threadDied, Option.bind_some, ← threads_eq, idOf]
  exact looped

/-- The running thread goes behind the run queue `k`. -/
theorem Wf.enQ_current (wf : Wf s layout) {k : Nat}
    (yielding : s.nodes.status s.current = .yielding → s.nodes.priority s.current = k) :
    ∃ s', s.enQ (.runQ k) s.current = some s' ∧
      Rep s' (layout.push (.queue (.runQ k)) s.current) ∧
      (layout.push (.queue (.runQ k)) s.current).feedback s'
        = { (layout.feedback s).push k s.current with current := (s.current, k) } := by
  obtain ⟨s', pushed, rep, kept, priority, _⟩ := wf.rep.enQ wf.off wf.allocated yielding
  refine ⟨s', pushed, rep, ?_⟩
  rw [Layout.feedback_push wf.off priority kept.current, priority, Function.update_self]

/-- **The branches of `schedule` on the status** are the ways to leave. -/
theorem Wf.requeue_leaves (wf : Wf s layout) (registered : Registered s) :
    ∃ s' layout', s.requeue = some s' ∧ Rep s' layout' ∧
      layout'.feedback s' = (layout.feedback s).leave (RUN_QUEUE_SIZE - 1) s.leaving := by
  cases status : s.nodes.status s.current with
  | neutral =>
    obtain ⟨s', pushed, rep, feedback⟩ := wf.enQ_current
      (k := State.below (RUN_QUEUE_SIZE - 1) (s.nodes.priority s.current))
      fun yielding => by rw [status] at yielding; cases yielding
    refine ⟨s', _, ?_, rep, ?_⟩
    · simp only [Scheduler.requeue, status, Scheduler.demoteNode]
      exact pushed
    · rw [feedback, Scheduler.leaving, status]
      rfl
  | yielding =>
    obtain ⟨s', pushed, rep, feedback⟩ := wf.enQ_current (k := s.nodes.priority s.current)
      fun _ => rfl
    refine ⟨{ s' with nodes := s'.nodes.setStatus s.current .neutral }, _, ?_,
      ⟨rep.queued, rep.level, rep.joined, rep.nodup, rep.apart, rep.ranked, rep.bounded⟩, ?_⟩
    · simp only [Scheduler.requeue, status, pushed, Option.map_some]
    · refine Eq.trans ?_ (feedback.trans ?_)
      · rfl
      · rw [Scheduler.leaving, status]
        rfl
  | joining =>
    refine ⟨s.insertToList s.current, _, by simp only [Scheduler.requeue, status],
      wf.rep.insertToList wf.off wf.allocated, ?_⟩
    have leaves : s.leaving = .waits := by rw [Scheduler.leaving, status]
    rw [leaves]
    refine State.ext ?_ ?_ rfl
    · funext k
      show Function.update layout .join (s.current :: layout .join) (.queue (.runQ k))
        = layout (.queue (.runQ k))
      rw [Function.update_of_ne (by simp)]
    · show (Function.update layout .join (s.current :: layout .join) .join).map
        (fun p => (p, s.nodes.priority p)) = _
      rw [Function.update_self]
      rfl
  | exiting =>
    obtain ⟨records, exits, _⟩ := wf.exits registered status
    obtain ⟨s', ran, rep, priority, current⟩ := exits.requeue
    refine ⟨s', _, ran, rep, ?_⟩
    rw [feedback_wake priority current, Scheduler.leaving, status]
    rfl

/-- **`getNextNode` picks**, along the levels that are left. -/
theorem Rep.getNextNodeFrom_picks (rep : Rep s layout) :
    ∀ levels : List Nat,
      (s.getNextNodeFrom levels = none ∧
        levels.findSome? (layout.feedback s).take = none) ∨
      ∃ p k xs s', s.getNextNodeFrom levels = some (p, s') ∧ Kept s s' ∧
        s'.nodes.priority = s.nodes.priority ∧ s.nodes.priority p = k ∧
        Rep s' (Function.update layout (.queue (.runQ k)) xs) ∧
        levels.findSome? (layout.feedback s).take = some { layout.feedback s with
          levels := Function.update (layout.feedback s).levels k xs, current := (p, k) } := by
  intro levels
  induction levels with
  | nil => exact Or.inl ⟨rfl, rfl⟩
  | cons k levels ih =>
    cases here : layout (.queue (.runQ k)) with
    | nil =>
      have nobody : (layout.feedback s).take k = none := State.take_none.mpr here
      simp only [Scheduler.getNextNodeFrom, rep.deQ_none here, List.findSome?_cons, nobody]
      exact ih
    | cons p xs =>
      obtain ⟨s', popped, after, kept, priority, _⟩ := rep.deQ here
      have member : p ∈ layout (.queue (.runQ k)) := by
        rw [here]
        exact List.mem_cons_self
      have first : (layout.feedback s).take k = some { layout.feedback s with
          levels := Function.update (layout.feedback s).levels k xs, current := (p, k) } := by
        have level : (layout.feedback s).levels k = p :: xs := here
        simp only [State.take, level]
      refine Or.inr ⟨p, k, xs, s', ?_, kept, priority, rep.ranked k p member, after, ?_⟩
      · simp only [Scheduler.getNextNodeFrom, popped]
      · simp only [List.findSome?_cons, first]

/-- **The end of `schedule`** is the pick. -/
theorem Rep.switchTo_picks (rep : Rep s layout) (resume : Context) :
    Implements (s.switchTo resume)
      (((layout.feedback s).pick (RUN_QUEUE_SIZE - 1)).getD (layout.feedback s)) := by
  rcases rep.getNextNodeFrom_picks (List.range RUN_QUEUE_SIZE) with
    ⟨nothing, nobody⟩ | ⟨p, k, xs, s', found, kept, priority, level, rep', picked⟩
  · have none : s.getNextNode = none := nothing
    have nobody : (layout.feedback s).pick (RUN_QUEUE_SIZE - 1) = Option.none := nobody
    have same : s.switchTo resume = { s with running := resume } := by
      simp only [Scheduler.switchTo, none]
    rw [same, nobody]
    exact ⟨rep.implements.levels, rep.implements.waiting, rep.implements.priorities, rfl⟩
  · have some : s.getNextNode = some (p, s') := found
    have picked : (layout.feedback s).pick (RUN_QUEUE_SIZE - 1) = _ := picked
    obtain ⟨ut, running, same⟩ : ∃ ut running, s.switchTo resume = { s' with
        current := p, running := running, nodes := { s'.nodes with ut := ut } } := by
      simp only [Scheduler.switchTo, some]
      split
      · exact ⟨_, _, rfl⟩
      · exact ⟨_, _, rfl⟩
    rw [same, picked]
    have join : Function.update layout (.queue (.runQ k)) xs .join = layout .join :=
      Function.update_of_ne (by simp) _ _
    refine ⟨fun j => ?_, ?_, fun w member => ?_, ?_⟩
    · show Queued s'.nodes.next _ _ (Function.update (layout.feedback s).levels k xs j)
      have queued := rep'.queued (.runQ j)
      by_cases here : j = k
      · subst here
        rw [Function.update_self] at queued ⊢
        exact queued
      · rw [Function.update_of_ne (by simpa using here)] at queued
        rw [Function.update_of_ne here]
        exact queued
    · have names := rep.implements.waiting.unique rep.joined
      show Linked s'.nodes.next s'.joinList ((layout.feedback s).waiting.map Prod.fst)
      rw [names, ← join]
      exact rep'.joined
    · show w.2 = s'.nodes.priority w.1
      rw [priority]
      exact rep.implements.priorities w member
    · show (p, k) = (p, s'.nodes.priority p)
      rw [priority, level]

/-- **One call of `schedule` is one call of the feedback queue**, and it returns. -/
theorem Wf.schedule_redeals (wf : Wf s layout) (registered : Registered s) (now : Int)
    (resume : Context) :
    ∃ s', s.schedule now resume = some s' ∧ Implements s' (s.scheduled now (layout.feedback s)) := by
  obtain ⟨s₁, layout₁, ticked, wf₁, kept, dealt⟩ := wf.tick_deals now
  have registered₁ : Registered s₁ := by
    obtain ⟨ids, threadNum, records⟩ := registered
    refine ⟨fun p bound => ?_, ?_, ?_⟩
    · rw [kept.idOf]
      exact ids p (kept.nodeNum ▸ bound)
    · rw [kept.threadNum, kept.nodeNum]
      exact threadNum
    · rw [kept.threads, kept.threadList, kept.nodeNum, kept.threadID]
      exact records
  obtain ⟨s₂, layout₂, requeued, rep₂, left⟩ := wf₁.requeue_leaves registered₁
  have leaving : s₁.leaving = s.leaving := by
    unfold Scheduler.leaving
    rw [kept.status, kept.current, kept.idOf]
    cases s.nodes.status s.current with
    | exiting => simp only [kept.waits]
    | _ => rfl
  refine ⟨s₂.switchTo resume, ?_, ?_⟩
  · simp only [Scheduler.schedule, Scheduler.beforeNext, ticked, requeued, Option.bind_some,
      Option.map_some]
  · have picks := rep₂.switchTo_picks resume
    rw [left, dealt, leaving] at picks
    exact picks

/-! ### Every run -/

/-- What an event does to the abstract state. -/
def Scheduler.follow (s : Scheduler) (f : State NodePtr) : Event → State NodePtr
  | .create _ _ .succeeds => f.push 0 s.nodeNum
  | .enterSchedule now => s.scheduled now f
  | .timer now => s.scheduled now f
  | _ => f

/-- Statuses, joinees, contexts and thread records do not show. -/
theorem Implements.retag {f : State NodePtr} (implements : Implements s f)
    (next : s'.nodes.next = s.nodes.next) (priority : s'.nodes.priority = s.nodes.priority)
    (queues : s'.queues = s.queues) (joinList : s'.joinList = s.joinList)
    (current : s'.current = s.current) : Implements s' f := by
  refine ⟨fun k => ?_, ?_, fun w member => ?_, ?_⟩
  · rw [next, queues]
    exact implements.levels k
  · rw [next, joinList]
    exact implements.waiting
  · rw [priority]
    exact implements.priorities w member
  · rw [current, priority]
    exact implements.current

/-- **One event** of an orderly run. -/
theorem Sound.follows {t : Logged} (sound : Sound t layout) {e : Event} {out : Outcome}
    (effect : Effect t.sched layout e out s' layout') (ran : t.sched.exec e = some (out, s')) :
    Implements s' (t.sched.follow (layout.feedback t.sched) e) := by
  have here := sound.wf.rep.implements
  -- a call of `schedule` behind the guard of its event
  have calls : ∀ {now resume s'}, t.sched.schedule now resume = some s' →
      Implements s' (t.sched.scheduled now (layout.feedback t.sched)) := by
    intro now resume s' result
    obtain ⟨s₁, same, implements⟩ := sound.wf.schedule_redeals sound.registered now resume
    cases same.symm.trans result
    exact implements
  cases effect with
  | createFailed address now allocation =>
    cases allocation with
    | succeeds =>
      obtain ⟨s₁, result, _⟩ := sound.wf.rep.my_pthread_create (.user address) now
      simp only [Scheduler.exec, result] at ran
      split at ran
      · cases ran
      · cases ran
    | _ => exact here
  | created address now _ runs new =>
    obtain ⟨s₁, result, _, rep, priority⟩ := sound.wf.rep.my_pthread_create (.user address) now
    simp only [Scheduler.exec, if_pos runs, result, Option.map_some] at ran
    cases ran
    have off : layout.Off t.sched.nodeNum := fun place member =>
      absurd (sound.wf.rep.bounded place _ member) (lt_irrefl _)
    have implements := rep.implements
    rw [Layout.feedback_push off priority new.current, priority,
      Function.update_of_ne (ne_of_lt sound.wf.allocated)] at implements
    exact implements
  | yielded => exact here.retag rfl rfl rfl rfl rfl
  | exited => exact here.retag rfl rfl rfl rfl rfl
  | returned => exact here.retag rfl rfl rfl rfl rfl
  | joinUnknown => exact here
  | joinDead => exact here
  | joinWaits => exact here.retag rfl rfl rfl rfl rfl
  | joinReturned => exact here.retag rfl rfl rfl rfl rfl
  | entered now frame _ _ runs step =>
    simp only [Scheduler.exec, runs, Option.bind_some] at ran
    obtain ⟨s₁, result, same⟩ := Option.map_eq_some_iff.mp ran
    cases same
    exact calls result
  | interrupted now _ _ step =>
    simp only [Scheduler.exec] at ran
    split at ran
    · cases ran
    · obtain ⟨s₁, result, same⟩ := Option.map_eq_some_iff.mp ran
      cases same
      exact calls result

/-- **One step** of an orderly run, of the scheduler and of the feedback queue. -/
theorem Sound.next {t t' : Logged} (sound : Sound t layout) {e : Event} (orderly : JoinsOrderly t e)
    (taken : t.next e = some t') :
    ∃ layout', Sound t' layout' ∧
      layout'.feedback t'.sched = t.sched.follow (layout.feedback t.sched) e := by
  obtain ⟨s', moved, rfl⟩ := Option.map_eq_some_iff.mp taken
  obtain ⟨out, result⟩ := Scheduler.exec_of_next moved
  obtain ⟨layout', effect, wf'⟩ := sound.wf.exec orderly.2 result
  exact ⟨layout', sound.step orderly effect wf',
    wf'.rep.implements.unique (sound.follows effect result)⟩

/-- A run with the feedback queue beside it, which makes its own steps. -/
structure Shadowed where
  run : Logged
  shadow : State NodePtr

/-- Both start with the main thread on the processor and nobody else. -/
def ShadowedStarted (w : Shadowed) : Prop :=
  LoggedStarted w.run ∧ w.shadow = ⟨fun _ => [], [], (0, 0)⟩

/-- One event. -/
def Shadowed.next (w : Shadowed) (e : Event) : Option Shadowed :=
  (w.run.next e).map fun t => ⟨t, w.run.sched.follow w.shadow e⟩

/-- **The scheduler is a multilevel feedback queue.** In every run in which the joins are orderly the
pointers are at all times what the feedback queue has come to by its own steps, and a call of
`schedule()` returns. -/
theorem schedule_refines {w : Shadowed}
    (reached : Reach ShadowedStarted (fun w e => JoinsOrderly w.run e) (execStep Shadowed.next) w) :
    Implements w.run.sched w.shadow ∧
      ∀ now resume, ∃ s', w.run.sched.schedule now resume = some s' ∧
        Implements s' (w.run.sched.scheduled now w.shadow) := by
  have invariant : ∃ layout, Sound w.run layout ∧ w.shadow = layout.feedback w.run.sched := by
    refine reached.invariant
      (fun w => ∃ layout, Sound w.run layout ∧ w.shadow = layout.feedback w.run.sched)
      (fun w started => ?_) ?_
    · obtain ⟨start, shadow⟩ := started
      refine ⟨noLayout, start.sound, ?_⟩
      obtain ⟨⟨nodes, threads, now, initial⟩, _⟩ := start
      rw [shadow, initial]
      rfl
    · rintro w e w' ⟨layout, sound, shadow⟩ orderly taken
      obtain ⟨t, stepped, rfl⟩ := Option.map_eq_some_iff.mp taken
      obtain ⟨layout', sound', same⟩ := sound.next orderly stepped
      refine ⟨layout', sound', ?_⟩
      show w.run.sched.follow w.shadow e = layout'.feedback t.sched
      rw [shadow, same]
  obtain ⟨layout, sound, shadow⟩ := invariant
  rw [shadow]
  exact ⟨sound.wf.rep.implements, sound.wf.schedule_redeals sound.registered⟩

/-- The main thread creates thread `2`; both use up their time, and the main thread creates a third. -/
def demotingRun : List Event :=
  [.create 0 0 .succeeds, .timer 0, .timer 0, .create 1 0 .succeeds]

/-- Both threads have come down one level, and the new one is at the top. -/
theorem schedule_refines_demotingRun : ∃ w : Shadowed, Implements w.run.sched w.shadow ∧
    w.shadow.levels 0 = [2] ∧ w.shadow.levels 1 = [1] ∧ w.shadow.current = (0, 1) := by
  have start : Reach ShadowedStarted (fun w e => JoinsOrderly w.run e) (execStep Shadowed.next)
      ⟨⟨zeroed, fun _ => none⟩, ⟨fun _ => [], [], (0, 0)⟩⟩ := .init ⟨⟨zeroed_started, rfl⟩, rfl⟩
  obtain ⟨w, reached, found⟩ := start.exists_of_execAll demotingRun
    (fun w => w.shadow.levels 0 = [2] ∧ w.shadow.levels 1 = [1] ∧ w.shadow.current = (0, 1))
    (by decide)
  exact ⟨w, (schedule_refines reached).1, of_decide_eq_true found⟩

end OS2017.Sched
