/-
**A thread can wait for ever.**

`maintenance` is there to lift the threads that have waited long. It deals the nodes of a level out
from the oldest on, and the first of them stays in the level: of two threads in level `1` the older
one stays, the younger one is lifted. So two threads that yield to each other in level `0`, one of
which uses up its time just before each `maintenance`, keep an older thread of level `1` from the
processor in spite of it (`starves`).
-/

import OS2017.Sched.Fairness

namespace OS2017.Sched

open OS2017.Intrusive OS2017.Run OS2017.Feedback OS2017.Dealing

open Scheduler (Event Outcome)

/-! ### The queues -/

/-- `b` runs in level `0`; there are threads in the first two levels, and nobody waits. -/
def twoLevels (b : NodePtr) (first second : List NodePtr) : State NodePtr where
  levels
    | 0 => first
    | 1 => second
    | _ => []
  waiting := []
  current := (b, 0)

/-- The first of the first level is picked. -/
theorem pick_first (f : State NodePtr) (top : Nat) {x : NodePtr} {xs : List NodePtr}
    (first : f.levels 0 = x :: xs) :
    f.pick top = some { f with levels := Function.update f.levels 0 xs, current := (x, 0) } := by
  rw [State.pick, List.range_succ_eq_map, List.findSome?_cons]
  simp only [State.take, first]

theorem twoLevels_push_first (b c : NodePtr) (first second : List NodePtr) :
    (twoLevels b first second).push 0 c = twoLevels b (first ++ [c]) second := by
  refine State.ext ?_ rfl rfl
  funext k
  rcases k with _ | _ | k
  · rfl
  · rfl
  · rfl

/-- Who yields goes behind the first level. -/
theorem twoLevels_yields (b c : NodePtr) (first second : List NodePtr) (top : Nat) :
    (twoLevels b (c :: first) second).schedule top id .yields
      = twoLevels c (first ++ [b]) second := by
  have left : ((twoLevels b (c :: first) second).redeal id).leave top .yields
      = twoLevels b (c :: first ++ [b]) second := twoLevels_push_first b b _ _
  have front : (twoLevels b (c :: first ++ [b]) second).levels 0 = c :: (first ++ [b]) := rfl
  rw [State.schedule, left, pick_first _ top front]
  refine State.ext ?_ rfl rfl
  funext k
  rcases k with _ | _ | k
  · rfl
  · rfl
  · rfl

/-- Whose time is up goes behind the second. -/
theorem twoLevels_expires (b c : NodePtr) (first second : List NodePtr) :
    (twoLevels b (c :: first) second).schedule (RUN_QUEUE_SIZE - 1) id .expires
      = twoLevels c first (second ++ [b]) := by
  have front : (((twoLevels b (c :: first) second).redeal id).leave (RUN_QUEUE_SIZE - 1)
      .expires).levels 0 = c :: first := rfl
  rw [State.schedule, pick_first _ _ front]
  refine State.ext ?_ rfl rfl
  funext k
  rcases k with _ | _ | k
  · rfl
  · rfl
  · rfl

/-- **The older of two threads stays in its level**, and the younger one is lifted. -/
theorem redealt_two {s : Scheduler} {now : Int} {b x c : NodePtr}
    (older : s.ageAt now c ≤ s.ageAt now x) :
    (twoLevels b [] [x, c]).redeal (redealt s now) = twoLevels b [c] [x] := by
  have sorted : byAge s now [x, c] = [x, c] := by
    simp [byAge, insertAll, insertTime, not_lt.mpr older]
  have nobody : ∀ i k, Layout.share i (byAge s now []) k = [] := fun i k => by
    refine List.eq_nil_of_length_eq_zero ?_
    rw [Layout.length_share]
    simp [byAge, insertAll, Layout.quota]
  have levels : ∀ k, redealt s now (twoLevels b [] [x, c]).levels k
      = Layout.share 0 [x, c] k := fun k => by
    have second : (twoLevels b [] [x, c]).levels (0 + 1) = [x, c] := rfl
    have others : ∀ i, (twoLevels b [] [x, c]).levels (i + 1 + 1) = [] := fun _ => rfl
    rw [redealt, show List.range (RUN_QUEUE_SIZE - 1) = [0, 1, 2, 3] from rfl]
    simp only [List.flatMap_cons, List.flatMap_nil, second, sorted, List.append_nil]
    rw [show (1 : Nat) = 0 + 1 from rfl, show (2 : Nat) = 1 + 1 from rfl,
      show (3 : Nat) = 2 + 1 from rfl, others, others, others, nobody, nobody, nobody]
    simp [twoLevels]
  refine State.ext ?_ rfl rfl
  funext k
  refine (levels k).trans ?_
  rcases k with _ | _ | k
  · simp [Layout.share, Layout.levelsDown, dealt, twoLevels]
  · simp [Layout.share, Layout.levelsDown, dealt, twoLevels]
  · refine List.eq_nil_of_length_eq_zero ?_
    rw [Layout.length_share]
    simp [Layout.quota]

/-! ### The threads -/

/-- The node's thread is in its own code, with no call pending. -/
def Idle (s : Scheduler) (p : NodePtr) : Prop :=
  s.nodes.status p = .neutral ∧ (s.context p).frame = .code

/-- **Between two calls**: the queues, everybody in its own code, and all of one age. -/
structure Starving (t : Logged) (b : NodePtr) (first second : List NodePtr) : Prop where
  sound : ∃ layout, Sound t layout ∧ layout.feedback t.sched = twoLevels b first second
  idle : ∀ p < t.sched.nodeNum, Idle t.sched p
  times : ∀ p < t.sched.nodeNum, t.sched.nodes.timeCreated p = 0

/-- **A call of `schedule`** by a thread that yields or whose time is up, where the feedback queue
comes to the given one. -/
theorem Sound.starving {t : Logged} {layout : Layout} {e : Event} {resume : Context}
    {b c : NodePtr} {first second first' second' : List NodePtr} (sound : Sound t layout)
    (shape : layout.feedback t.sched = twoLevels b first second)
    (own : t.sched.nodes.status t.sched.current = .neutral ∨
      t.sched.nodes.status t.sched.current = .yielding)
    (others : ∀ p < t.sched.nodeNum, p ≠ t.sched.current → Idle t.sched p)
    (times : ∀ p < t.sched.nodeNum, t.sched.nodes.timeCreated p = 0) (code : resume.frame = .code)
    (orderly : JoinsOrderly t e)
    (runs : ∀ s', t.sched.schedule 0 resume = some s' → t.next e = some ⟨s', t.log e⟩)
    (following : ∀ f, t.sched.follow f e = t.sched.scheduled 0 f)
    (lands : t.sched.scheduled 0 (twoLevels b first second) = twoLevels c first' second') :
    ∃ t', t.next e = some t' ∧ Starving t' c first' second' ∧ t'.sched.current = c ∧
      t'.sched.nodeNum = t.sched.nodeNum ∧
      t'.sched.cycles = if t.sched.cycles < 100 then t.sched.cycles + 1 else 0 := by
  obtain ⟨s', ran, _⟩ := sound.wf.schedule_redeals sound.registered 0 resume
  have taken := runs s' ran
  obtain ⟨layout', sound', same⟩ := sound.next orderly taken
  rw [following, shape, lands] at same
  obtain ⟨cycles, created⟩ := Scheduler.schedule_cycles ran
  obtain ⟨_, step⟩ := sound.wf.schedule (fun joining => by
    rcases own with status | status <;> rw [status] at joining <;> cases joining) ran
  have current : s'.current = c := congrArg (fun f : State NodePtr => f.current.1) same
  refine ⟨⟨s', t.log e⟩, taken, ⟨⟨layout', sound', same⟩, fun p bound => ⟨?_, ?_⟩,
    fun p bound => ?_⟩, current, step.nodeNum, cycles⟩
  · show s'.nodes.status p = .neutral
    rw [step.status]
    by_cases self : p = t.sched.current
    · rw [self]
      rcases own with status | status
      · rw [if_neg (by rw [status]; simp), status]
      · rw [if_pos status, Function.update_self]
    · have idle := (others p (step.nodeNum ▸ bound) self).1
      split
      · rw [Function.update_of_ne self]
        exact idle
      · exact idle
  · show (s'.context p).frame = .code
    rw [step.context (sound.registered.next_eq step sound.wf) p]
    by_cases self : p = t.sched.current
    · rw [if_pos self]
      exact code
    · rw [if_neg self]
      exact (others p (step.nodeNum ▸ bound) self).2
  · show s'.nodes.timeCreated p = 0
    rw [created]
    exact times p (step.nodeNum ▸ bound)

namespace Starving

variable {t : Logged} {b c : NodePtr} {first second first' second' : List NodePtr}

theorem current (starving : Starving t b first second) : t.sched.current = b := by
  obtain ⟨layout, _, shape⟩ := starving.sound
  exact congrArg (fun f : State NodePtr => f.current.1) shape

theorem runs_code (starving : Starving t b first second) : t.sched.running.frame = .code := by
  obtain ⟨layout, sound, _⟩ := starving.sound
  have own := (starving.idle _ sound.wf.allocated).2
  rwa [Scheduler.context, if_pos rfl] at own

/-- The timer fires. -/
theorem timer (starving : Starving t b first second)
    (lands : t.sched.scheduled 0 (twoLevels b first second) = twoLevels c first' second') :
    ∃ t', t.next (.timer 0) = some t' ∧ JoinsOrderly t (.timer 0) ∧ Starving t' c first' second' ∧
      t'.sched.current = c ∧ t'.sched.nodeNum = t.sched.nodeNum ∧
      t'.sched.cycles = if t.sched.cycles < 100 then t.sched.cycles + 1 else 0 := by
  obtain ⟨layout, sound, shape⟩ := starving.sound
  have own := (starving.idle _ sound.wf.allocated).1
  have code := starving.runs_code
  have orderly : JoinsOrderly t (.timer 0) :=
    ⟨trivial, fun _ joining => by rw [own] at joining; cases joining⟩
  have other : t.sched.running.frame ≠ .termDone := by
    rw [code]
    simp
  have runs : ∀ s', t.sched.schedule 0 t.sched.running = some s' →
      t.next (.timer 0) = some ⟨s', t.log (.timer 0)⟩ := fun s' ran => by
    simp only [Logged.next, Scheduler.next, Scheduler.exec, if_neg other, ran, Option.map_some]
  obtain ⟨t', taken, rest⟩ := sound.starving shape (Or.inl own)
    (fun p bound _ => starving.idle p bound) starving.times code orderly runs (fun _ => rfl) lands
  exact ⟨t', taken, orderly, rest⟩

/-- The running thread yields. -/
theorem yield (starving : Starving t b first second)
    (lands : ((twoLevels b first second).schedule (RUN_QUEUE_SIZE - 1) (t.sched.dealing 0) .yields)
      = twoLevels c first' second') :
    ∃ t₁ t', t.next .yield = some t₁ ∧ JoinsOrderly t .yield ∧ t₁.sched.current = b ∧
      t₁.next (.enterSchedule 0) = some t' ∧ JoinsOrderly t₁ (.enterSchedule 0) ∧
      Starving t' c first' second' ∧ t'.sched.current = c ∧
      t'.sched.nodeNum = t.sched.nodeNum ∧
      t'.sched.cycles = if t.sched.cycles < 100 then t.sched.cycles + 1 else 0 := by
  obtain ⟨layout, sound, shape⟩ := starving.sound
  have code := starving.runs_code
  set t₁ : Logged := ⟨(t.sched.setCurrentStatus .yielding).enter .yieldCall, t.log .yield⟩ with t₁_eq
  have taken₁ : t.next .yield = some t₁ := by
    simp only [Logged.next, Scheduler.next, Scheduler.exec, if_pos code, Option.map_some, t₁_eq]
  have orderly : JoinsOrderly t .yield := ⟨trivial, fun schedules => by cases schedules⟩
  obtain ⟨layout₁, sound₁, same₁⟩ := sound.next orderly taken₁
  have own : t₁.sched.nodes.status t₁.sched.current = .yielding := Function.update_self ..
  have orderly₁ : JoinsOrderly t₁ (.enterSchedule 0) :=
    ⟨trivial, fun _ joining => by rw [own] at joining; cases joining⟩
  have leaves : t₁.sched.leaving = .yields := by rw [Scheduler.leaving, own]
  have lands₁ : t₁.sched.scheduled 0 (twoLevels b first second) = twoLevels c first' second' := by
    rw [Scheduler.scheduled, leaves]
    exact lands
  have others : ∀ p < t₁.sched.nodeNum, p ≠ t₁.sched.current → Idle t₁.sched p := by
    intro p bound other
    have other : p ≠ t.sched.current := other
    obtain ⟨status, context⟩ := starving.idle p bound
    refine ⟨(Function.update_of_ne other _ _).trans status, ?_⟩
    rw [Scheduler.context, if_neg other] at context
    rw [Scheduler.context, if_neg (show p ≠ t₁.sched.current from other)]
    exact context
  have runs : ∀ s', t₁.sched.schedule 0 { t₁.sched.running with frame := .code } = some s' →
      t₁.next (.enterSchedule 0) = some ⟨s', t₁.log (.enterSchedule 0)⟩ := fun s' ran => by
    have after : Scheduler.afterSchedule t₁.sched.running.frame = some .code := rfl
    simp only [Logged.next, Scheduler.next, Scheduler.exec, after, Option.bind_some, ran,
      Option.map_some]
  obtain ⟨t', taken, rest⟩ := sound₁.starving (same₁.trans shape) (Or.inr own) others
    starving.times rfl orderly₁ runs (fun _ => rfl) lands₁
  exact ⟨t₁, t', taken₁, orderly, starving.current, taken, orderly₁, rest⟩

end Starving

/-! ### The run -/

/-- Two of three threads pass the processor to each other; the third is the oldest of level `1`. Just
before `maintenance` there are two in that level. -/
def Bypassed (w : Watched) : Prop :=
  w.seen = false ∧ w.run.sched.nodeNum = 3 ∧ ∃ b c, b ≠ 0 ∧ c ≠ 0 ∧
    ((w.run.sched.cycles < 100 ∧ Starving w.run b [c] [0]) ∨
      (w.run.sched.cycles = 100 ∧ Starving w.run b [] [0, c]))

/-- A step of a watched run, with somebody else on the processor after it. -/
theorem Watched.unseen {w : Watched} {t : Logged} {e : Event} {p : NodePtr}
    (taken : w.run.next e = some t) (before : w.seen = false) (other : t.sched.current ≠ p) :
    w.next p e = some ⟨t, if Schedules e then w.calls + 1 else w.calls, false⟩ := by
  simp only [Watched.next, taken, Option.map_some, before, Bool.false_or, beq_eq_false_iff_ne.mpr other]

/-- The guard of the runs that are orderly. -/
def Watched.Orderly (w : Watched) (e : Event) : Prop := JoinsOrderly w.run e

variable {start : Watched → Prop} {w : Watched}

/-- The running thread yields to one that is not watched. -/
theorem Bypassed.yields {b c : NodePtr} {first second first' second' : List NodePtr}
    (reached : Reach start Watched.Orderly (execStep (Watched.next 0)) w) (unseen : w.seen = false)
    (starving : Starving w.run b first second) (apart : b ≠ 0) (apart' : c ≠ 0)
    (lands : ((twoLevels b first second).schedule (RUN_QUEUE_SIZE - 1) (w.run.sched.dealing 0) .yields)
      = twoLevels c first' second') :
    ∃ t', Reach start Watched.Orderly (execStep (Watched.next 0)) ⟨t', w.calls + 1, false⟩ ∧
      Starving t' c first' second' ∧ t'.sched.nodeNum = w.run.sched.nodeNum ∧
      t'.sched.cycles = if w.run.sched.cycles < 100 then w.run.sched.cycles + 1 else 0 := by
  obtain ⟨t₁, t', taken₁, orderly₁, current₁, taken, orderly, starving', current, nodeNum, cycles⟩ :=
    starving.yield lands
  have first := reached.next orderly₁ (Watched.unseen taken₁ unseen (by rw [current₁]; exact apart))
  have begun : Reach start Watched.Orderly (execStep (Watched.next 0)) ⟨t₁, w.calls, false⟩ := first
  have met : Watched.Orderly ⟨t₁, w.calls, false⟩ (.enterSchedule 0) := orderly
  have second := begun.next met (Watched.unseen taken rfl (by rw [current]; exact apart'))
  exact ⟨t', second, starving', nodeNum, cycles⟩

/-- **One call more.** -/
theorem Bypassed.step (bypassed : Bypassed w)
    (reached : Reach start Watched.Orderly (execStep (Watched.next 0)) w) :
    ∃ w', Reach start Watched.Orderly (execStep (Watched.next 0)) w' ∧ w'.calls = w.calls + 1 ∧
      Bypassed w' := by
  obtain ⟨unseen, nodeNum, b, c, apart, apart', ⟨early, starving⟩ | ⟨late, starving⟩⟩ := bypassed
  · have keeps : w.run.sched.dealing 0 = id := if_pos early
    by_cases last : w.run.sched.cycles = 99
    · -- the next call deals the queues anew: `b` joins the oldest in its level
      obtain ⟨layout, sound, _⟩ := starving.sound
      have leaves : w.run.sched.leaving = .expires := by
        rw [Scheduler.leaving, (starving.idle _ sound.wf.allocated).1]
      have lands : w.run.sched.scheduled 0 (twoLevels b [c] [0]) = twoLevels c [] [0, b] := by
        rw [Scheduler.scheduled, keeps, leaves]
        exact twoLevels_expires b c [] [0]
      obtain ⟨t', taken, orderly, starving', current, same, cycles⟩ := starving.timer lands
      refine ⟨⟨t', w.calls + 1, false⟩, reached.next orderly
        (Watched.unseen taken unseen (by rw [current]; exact apart')), rfl, rfl,
        same.trans nodeNum, c, b, apart', apart, Or.inr ⟨?_, starving'⟩⟩
      rw [cycles, if_pos early, last]
    · obtain ⟨t', reached', starving', same, cycles⟩ := Bypassed.yields reached unseen starving apart
        apart' (by rw [keeps]; exact twoLevels_yields b c [] [0] _)
      refine ⟨⟨t', w.calls + 1, false⟩, reached', rfl, rfl, same.trans nodeNum, c, b, apart', apart,
        Or.inl ⟨?_, starving'⟩⟩
      show t'.sched.cycles < 100
      rw [cycles, if_pos early]
      omega
  · have deals : w.run.sched.dealing 0 = redealt w.run.sched 0 := if_neg (by omega)
    obtain ⟨layout, sound, shape⟩ := starving.sound
    have member : c ∈ (layout.feedback w.run.sched).levels 1 := by
      rw [shape]
      exact List.mem_cons_of_mem _ (List.mem_singleton_self c)
    have older : w.run.sched.ageAt 0 c ≤ w.run.sched.ageAt 0 0 := by
      unfold Scheduler.ageAt
      rw [starving.times c (sound.wf.rep.bounded _ c member), starving.times 0 (by omega)]
    have lands : (twoLevels b [] [0, c]).schedule (RUN_QUEUE_SIZE - 1) (w.run.sched.dealing 0) .yields
        = twoLevels c [b] [0] := by
      rw [deals]
      show ((twoLevels b [] [0, c]).redeal (redealt w.run.sched 0)).schedule _ id .yields = _
      rw [redealt_two older]
      exact twoLevels_yields b c [] [0] _
    obtain ⟨t', reached', starving', same, cycles⟩ := Bypassed.yields reached unseen starving apart
      apart' lands
    refine ⟨⟨t', w.calls + 1, false⟩, reached', rfl, rfl, same.trans nodeNum, c, b, apart', apart,
      Or.inl ⟨?_, starving'⟩⟩
    show t'.sched.cycles < 100
    rw [cycles, if_neg (by omega)]
    decide

/-- The main thread has created two threads and used up its time. -/
def threeThreads : Logged :=
  (execAll JoinsOrderly Logged.next ⟨zeroed, fun _ => none⟩
    [.create 0 0 .succeeds, .create 1 0 .succeeds, .timer 0]).getD ⟨zeroed, fun _ => none⟩

theorem threeThreads_reached :
    Reach LoggedStarted JoinsOrderly (execStep Logged.next) threeThreads := by
  have initial : Reach LoggedStarted JoinsOrderly (execStep Logged.next) ⟨zeroed, fun _ => none⟩ :=
    .init ⟨zeroed_started, rfl⟩
  exact initial.of_execAll [.create 0 0 .succeeds, .create 1 0 .succeeds, .timer 0] rfl

/-- The main thread is in level `1`, and the new ones are in level `0`. -/
theorem threeThreads_starving : Starving threeThreads 1 [2] [0] := by
  refine ⟨?_, by unfold Idle; decide +kernel, by decide +kernel⟩
  obtain ⟨layout, sound⟩ := sound_of_reach threeThreads_reached
  have rep := sound.wf.rep
  have first : layout (.queue (.runQ 0)) = [2] := (rep.queued (.runQ 0)).linked.unique ⟨rfl, rfl⟩
  have second : layout (.queue (.runQ 1)) = [0] := (rep.queued (.runQ 1)).linked.unique ⟨rfl, rfl⟩
  have join : layout .join = [] := rep.joined.unique rfl
  -- every node has its place already
  have others : ∀ k, layout (.queue (.runQ (k + 2))) = [] := by
    intro k
    refine List.eq_nil_iff_forall_not_mem.mpr fun p member => ?_
    have bound : p < 3 := rep.bounded _ p member
    interval_cases p
    · exact rep.not_mem member (by simp) (second ▸ List.mem_singleton_self 0)
    · exact sound.wf.off _ member
    · exact rep.not_mem member (by simp) (first ▸ List.mem_singleton_self 2)
  refine ⟨layout, sound, State.ext ?_ ?_ rfl⟩
  · funext k
    rcases k with _ | _ | k
    · exact first
    · exact second
    · exact others k
  · show (layout .join).map _ = []
    rw [join]
    rfl

/-- **A thread can wait for ever.** There are runs of any number of calls of `schedule()`, `maintenance`
included, in which a thread that is on a run queue never runs, although there are only three. -/
theorem starves (n : Nat) :
    ∃ w : Watched, Reach (WatchStarted 0) Watched.Orderly (execStep (Watched.next 0)) w ∧
      w.calls = n ∧ w.seen = false ∧ w.run.sched.nodeNum = 3 ∧
      ∃ f, Implements w.run.sched f ∧ 0 ∈ f.levels 1 := by
  have queued : ∀ {w : Watched}, Bypassed w → ∃ f, Implements w.run.sched f ∧ 0 ∈ f.levels 1 := by
    rintro w ⟨_, _, b, c, _, _, ⟨_, starving⟩ | ⟨_, starving⟩⟩
    · obtain ⟨layout, sound, shape⟩ := starving.sound
      exact ⟨_, shape ▸ sound.wf.rep.implements, List.mem_singleton_self 0⟩
    · obtain ⟨layout, sound, shape⟩ := starving.sound
      exact ⟨_, shape ▸ sound.wf.rep.implements, List.mem_cons_self⟩
  have run : ∃ w : Watched, Reach (WatchStarted 0) Watched.Orderly (execStep (Watched.next 0)) w ∧
      w.calls = n ∧ Bypassed w := by
    induction n with
    | zero =>
      have began : Bypassed ⟨threeThreads, 0, false⟩ :=
        ⟨rfl, rfl, 1, 2, by decide, by decide, Or.inl ⟨by decide, threeThreads_starving⟩⟩
      obtain ⟨f, implements, member⟩ := queued began
      exact ⟨⟨threeThreads, 0, false⟩,
        .init ⟨threeThreads_reached, ⟨f, 1, implements, member⟩, rfl, rfl⟩, rfl, began⟩
    | succ n ih =>
      obtain ⟨w, reached, calls, bypassed⟩ := ih
      obtain ⟨w', reached', calls', bypassed'⟩ := bypassed.step reached
      exact ⟨w', reached', by rw [calls', calls], bypassed'⟩
  obtain ⟨w, reached, calls, bypassed⟩ := run
  exact ⟨w, reached, calls, bypassed.1, bypassed.2.1, queued bypassed⟩

end OS2017.Sched
