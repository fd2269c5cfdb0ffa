/-
**How many threads can hold a mutex at once.**

The plain store of `my_pthread_mutex_unlock` can find the word set again, by a thread that has taken
the lock since the release. Each such store lets one more thread in, and nothing else does: after `n`
of them there have been at most `n + 1` holders at a time, and for every `n` there is a run with that
many (`holders_greatest`).

The word is still never set without an owner, so that a thread that spins can always get in, within
four steps (`spinner_enters`).
-/

import Mathlib.Order.Interval.Finset.Nat
import OS2017.Lib.Permit
import OS2017.Mutex

namespace OS2017.Mutex

open OS2017.Run OS2017.Permit

/-- A run of the machine, and how many plain stores have found the word set. -/
structure Counted where
  machine : Machine
  late : Nat

/-- One step. -/
def Counted.next (mutex : Addr) (w : Counted) (access : Access) : Option Counted :=
  (exec mutex w.machine access).map fun next =>
    ⟨next, if StoreFindsClear mutex w.machine access then w.late else w.late + 1⟩

/-- The mutex just initialised, and nothing counted. -/
def CountStarted (mutex : Addr) (w : Counted) : Prop := Started mutex w.machine ∧ w.late = 0

/-- The threads between the return of their lock and the call of their unlock. -/
def Machine.holders (machine : Machine) : Set ThreadId := {thread | machine.pc thread = .holding}

/-! ### The permit -/

/-- The threads that own. -/
def owners (pc : ThreadId → Pc) : Set ThreadId := {thread | (pc thread).Owns}

/-- **The word is a permit**, the late stores forge it. -/
def Counted.permit (mutex : Addr) (w : Counted) : State ThreadId :=
  ⟨owners w.machine.pc, (w.machine.env.cells mutex).isLocked ≠ 0, w.late⟩

section Owners

variable {pc : ThreadId → Pc} {thread : ThreadId} {target : Pc}

theorem owners_update_same (same : target.Owns ↔ (pc thread).Owns) :
    owners (Function.update pc thread target) = owners pc := by
  ext other
  by_cases equal : other = thread
  · subst equal
    show (Function.update pc other target other).Owns ↔ _
    rw [Function.update_self]
    exact same
  · show (Function.update pc thread target other).Owns ↔ _
    rw [Function.update_of_ne equal]
    rfl

theorem owners_update_enters (owns : target.Owns) :
    owners (Function.update pc thread target) = insert thread (owners pc) := by
  ext other
  by_cases equal : other = thread
  · subst equal
    show (Function.update pc other target other).Owns ↔ _
    rw [Function.update_self]
    exact ⟨fun _ => Set.mem_insert _ _, fun _ => owns⟩
  · show (Function.update pc thread target other).Owns ↔ _
    rw [Function.update_of_ne equal]
    exact ⟨Or.inr, fun either => either.resolve_left equal⟩

theorem owners_update_leaves (out : ¬ target.Owns) :
    owners (Function.update pc thread target) = owners pc \ {thread} := by
  ext other
  by_cases equal : other = thread
  · subst equal
    show (Function.update pc other target other).Owns ↔ _
    rw [Function.update_self]
    exact ⟨fun owns => absurd owns out, fun both => absurd rfl both.2⟩
  · show (Function.update pc thread target other).Owns ↔ _
    rw [Function.update_of_ne equal]
    exact ⟨fun owns => ⟨owns, equal⟩, And.left⟩

end Owners

/-- The permit of a machine, after so many late stores. -/
theorem Counted.permit_eq {mutex : Addr} {w : Counted} {inside : Set ThreadId} {away : Prop}
    (who : owners w.machine.pc = inside)
    (word : (w.machine.env.cells mutex).isLocked ≠ 0 ↔ away) :
    w.permit mutex = ⟨inside, away, w.late⟩ := by
  ext thread
  · exact Set.ext_iff.mp who thread
  · exact word
  · rfl

section Steps

variable {mutex : Addr} {machine : Machine} {late : Nat} {thread : ThreadId} {target : Pc}

/-- A thread that moves on, in or out of the lock as before. -/
theorem permit_goto (same : target.Owns ↔ (machine.pc thread).Owns) :
    Step (Counted.permit mutex ⟨machine, late⟩)
      (Counted.permit mutex ⟨machine.goto thread target, late⟩) := by
  have after : Counted.permit mutex ⟨machine.goto thread target, late⟩
      = Counted.permit mutex ⟨machine, late⟩ :=
    Counted.permit_eq (owners_update_same same) Iff.rfl
  rw [after]
  exact Step.stay _

/-- The word behind a store to it. -/
theorem storeGoto_word (value : Int) :
    ((machine.storeGoto mutex value thread target).env.cells mutex).isLocked ≠ 0 ↔ value ≠ 0 := by
  show ((machine.env.setLocked mutex value).cells mutex).isLocked ≠ 0 ↔ _
  rw [MutexEnv.setLocked_isLocked]

/-- **The test-and-set** takes the permit, if it is there. -/
theorem permit_testAndSet (spinning : machine.pc thread = .spinning) :
    Step (Counted.permit mutex ⟨machine, late⟩)
      (Counted.permit mutex ⟨machine.storeGoto mutex 1 thread
        (if (machine.env.cells mutex).isLocked ≠ 0 then .spinning else .acquired), late⟩) := by
  by_cases clear : (machine.env.cells mutex).isLocked = 0
  · rw [if_neg (not_not.mpr clear)]
    have after : Counted.permit mutex ⟨machine.storeGoto mutex 1 thread .acquired, late⟩
        = ⟨insert thread (owners machine.pc), True, late⟩ :=
      Counted.permit_eq (owners_update_enters (Or.inl rfl))
        ((storeGoto_word 1).trans (iff_true_intro Int.one_ne_zero))
    rw [after]
    exact Step.take _ thread (not_not.mpr clear)
  · rw [if_pos clear]
    have after : Counted.permit mutex ⟨machine.storeGoto mutex 1 thread .spinning, late⟩
        = Counted.permit mutex ⟨machine, late⟩ :=
      Counted.permit_eq (owners_update_same (by rw [spinning]))
        ((storeGoto_word 1).trans (iff_of_true Int.one_ne_zero clear))
    rw [after]
    exact Step.stay _

/-- **The release** gives it back. -/
theorem permit_lockRelease (unlocking : machine.pc thread = .unlocking) :
    Step (Counted.permit mutex ⟨machine, late⟩)
      (Counted.permit mutex ⟨machine.storeGoto mutex 0 thread .clearing, late⟩) := by
  have after : Counted.permit mutex ⟨machine.storeGoto mutex 0 thread .clearing, late⟩
      = ⟨owners machine.pc \ {thread}, False, late⟩ :=
    Counted.permit_eq (owners_update_leaves (by simp [Pc.Owns]))
      ((storeGoto_word 0).trans (iff_false_intro fun other => other rfl))
  have owner : thread ∈ owners machine.pc := by
    show (machine.pc thread).Owns
    rw [unlocking]
    exact Or.inr (Or.inr rfl)
  rw [after]
  exact Step.give _ thread owner

/-- **The plain store** changes nothing, or forges a permit. -/
theorem permit_clearStore (clearing : machine.pc thread = .clearing) :
    Step (Counted.permit mutex ⟨machine, late⟩)
      (Counted.permit mutex ⟨machine.storeGoto mutex 0 thread .idle,
        if (machine.env.cells mutex).isLocked = 0 then late else late + 1⟩) := by
  have outside : owners (machine.storeGoto mutex 0 thread .idle).pc = owners machine.pc :=
    owners_update_same (by simp [clearing, Pc.Owns])
  by_cases clear : (machine.env.cells mutex).isLocked = 0
  · rw [if_pos clear]
    have after : Counted.permit mutex ⟨machine.storeGoto mutex 0 thread .idle, late⟩
        = Counted.permit mutex ⟨machine, late⟩ :=
      Counted.permit_eq outside
        ((storeGoto_word 0).trans (iff_of_false (fun other => other rfl) (not_not.mpr clear)))
    rw [after]
    exact Step.stay _
  · rw [if_neg clear]
    have after : Counted.permit mutex ⟨machine.storeGoto mutex 0 thread .idle, late + 1⟩
        = ⟨owners machine.pc, False, late + 1⟩ :=
      Counted.permit_eq outside
        ((storeGoto_word 0).trans (iff_false_intro fun other => other rfl))
    rw [after]
    exact Step.forge _ clear

end Steps

/-- **A step of the machine is a step of the permit.** -/
theorem Counted.permit_step {mutex : Addr} {w w' : Counted} {access : Access}
    (taken : w.next mutex access = some w') : Step (w.permit mutex) (w'.permit mutex) := by
  obtain ⟨next, ran, rfl⟩ := Option.map_eq_some_iff.mp taken
  cases access with
  | lockCall thread =>
    rw [if_pos (show StoreFindsClear mutex w.machine (.lockCall thread) from trivial)]
    simp only [exec] at ran
    split at ran
    · rename_i idle
      obtain ⟨refused, _, rfl⟩ := Option.map_eq_some_iff.mp ran
      cases refused
      · exact permit_goto (by simp [idle, Pc.Owns])
      · exact Step.stay _
    · cases ran
  | testAndSet thread =>
    rw [if_pos (show StoreFindsClear mutex w.machine (.testAndSet thread) from trivial)]
    simp only [exec] at ran
    split at ran
    · rename_i spinning
      cases ran
      exact permit_testAndSet spinning
    · cases ran
  | lockReturn thread =>
    rw [if_pos (show StoreFindsClear mutex w.machine (.lockReturn thread) from trivial)]
    simp only [exec] at ran
    split at ran
    · rename_i acquired
      cases ran
      exact permit_goto (by simp [acquired, Pc.Owns])
    · cases ran
  | unlockCall thread =>
    rw [if_pos (show StoreFindsClear mutex w.machine (.unlockCall thread) from trivial)]
    simp only [exec] at ran
    split at ran
    · rename_i holding
      cases ran
      exact permit_goto (by simp [holding, Pc.Owns])
    · cases ran
  | lockRelease thread =>
    rw [if_pos (show StoreFindsClear mutex w.machine (.lockRelease thread) from trivial)]
    simp only [exec] at ran
    split at ran
    · rename_i unlocking
      cases ran
      exact permit_lockRelease unlocking
    · cases ran
  | clearStore thread =>
    simp only [exec] at ran
    split at ran
    · rename_i clearing
      cases ran
      exact permit_clearStore clearing
    · cases ran

/-- **Every reached state is covered.** -/
theorem covered_of_reach {mutex : Addr} {w : Counted}
    (reached : Reach (CountStarted mutex) anyStep (execStep (Counted.next mutex)) w) :
    Covered (w.permit mutex) := by
  refine reached.invariant (fun w => Covered (w.permit mutex)) (fun w started => ?_)
    fun _ _ _ covered _ taken => covered.step (Counted.permit_step taken)
  obtain ⟨⟨⟨env, allocated, init⟩, idle⟩, nothing⟩ := started
  have nobody : owners w.machine.pc = ∅ := by
    ext thread
    show (w.machine.pc thread).Owns ↔ _
    rw [idle thread]
    simp [Pc.Owns]
  have clear : (w.machine.env.cells mutex).isLocked = 0 := by
    obtain ⟨listed, _, inserted⟩ := Option.bind_eq_some_iff.mp init
    obtain ⟨head, _, same⟩ := Option.map_eq_some_iff.mp inserted
    rw [← same]
    simp [MutexEnv.set]
  have start : w.permit mutex = ⟨∅, False, w.late⟩ :=
    Counted.permit_eq nobody (iff_false_intro (not_not.mpr clear))
  rw [start, nothing]
  exact Covered.empty

/-- **At most one more than late stores.** -/
theorem holders_le {mutex : Addr} {w : Counted}
    (reached : Reach (CountStarted mutex) anyStep (execStep (Counted.next mutex)) w) :
    w.machine.holders.encard ≤ w.late + 1 := by
  have inside : w.machine.holders ⊆ owners w.machine.pc :=
    fun _ holding => Or.inr (Or.inl holding)
  exact (Set.encard_le_encard inside).trans (covered_of_reach reached).total

/-! ### A crowd -/

/-- A state of a run, by its word, the positions and the count. -/
def Comes (mutex : Addr) (word : Int) (pc : ThreadId → Pc) (late : Nat) : Prop :=
  ∃ w, Reach (CountStarted mutex) anyStep (execStep (Counted.next mutex)) w ∧
    (w.machine.env.cells mutex).isInit = 1 ∧ (w.machine.env.cells mutex).isLocked = word ∧
    w.machine.pc = pc ∧ w.late = late

namespace Comes

variable {mutex : Addr} {word : Int} {pc : ThreadId → Pc} {late : Nat} {thread : ThreadId}

theorem start (mutex : Addr) : Comes mutex 0 (fun _ => .idle) 0 := by
  let env : MutexEnv := ⟨fun _ => ⟨0, 0, 0, none⟩, none, 0⟩
  obtain ⟨listed, init, cell⟩ : ∃ listed, my_pthread_mutex_init env mutex true = some listed ∧
      listed.cells mutex = ⟨0, 1, 1, none⟩ :=
    ⟨_, rfl, by simp [MutexEnv.set, env]⟩
  refine ⟨⟨⟨listed, fun _ => .idle⟩, 0⟩, .init ⟨⟨⟨env, true, init⟩, fun _ => rfl⟩, rfl⟩, ?_, ?_,
    rfl, rfl⟩
  · rw [cell]
  · rw [cell]

/-- Some steps of a run, which leave so much in the word. -/
theorem of_ran {w : Counted} (accesses : List Access)
    (reached : Reach (CountStarted mutex) anyStep (execStep (Counted.next mutex)) w)
    (init : (w.machine.env.cells mutex).isInit = 1)
    (ran : execAll anyStep (Counted.next mutex) w accesses
      = some ⟨⟨w.machine.env.setLocked mutex word, pc⟩, late⟩) : Comes mutex word pc late := by
  refine ⟨_, reached.of_execAll accesses ran, ?_, ?_, rfl, rfl⟩
  · show ((w.machine.env.setLocked mutex word).cells mutex).isInit = 1
    simpa [MutexEnv.setLocked, MutexEnv.set] using init
  · exact MutexEnv.setLocked_isLocked _ _ _

/-- A thread enters, while the word is clear. -/
theorem lock (comes : Comes mutex 0 pc late) (idle : pc thread = .idle) :
    Comes mutex 1 (Function.update pc thread .holding) late := by
  obtain ⟨w, reached, init, word, rfl, rfl⟩ := comes
  refine Comes.of_ran (lockOf thread) reached init ?_
  simp [lockOf, execAll, anyStep, Counted.next, exec, idle, lockRefused, init, word,
    Machine.goto, Machine.storeGoto, StoreFindsClear]

/-- A holder goes up to its plain store. -/
theorem release (comes : Comes mutex word pc late) (holding : pc thread = .holding) :
    Comes mutex 0 (Function.update pc thread .clearing) late := by
  obtain ⟨w, reached, init, rfl, rfl, rfl⟩ := comes
  refine Comes.of_ran [.unlockCall thread, .lockRelease thread] reached init ?_
  simp [execAll, anyStep, Counted.next, exec, holding, Machine.goto, Machine.storeGoto,
    StoreFindsClear]

/-- The plain store finds the word set. -/
theorem clearLate (comes : Comes mutex 1 pc late) (clearing : pc thread = .clearing) :
    Comes mutex 0 (Function.update pc thread .idle) (late + 1) := by
  obtain ⟨w, reached, init, word, rfl, rfl⟩ := comes
  refine Comes.of_ran [.clearStore thread] reached init ?_
  simp [execAll, anyStep, Counted.next, exec, clearing, Machine.storeGoto, StoreFindsClear, word]

end Comes

/-- The threads `1`, …, `n` hold, the others are outside. -/
def crowd (n : Nat) (thread : ThreadId) : Pc :=
  if 1 ≤ thread ∧ thread ≤ n then .holding else .idle

theorem crowd_range {n : Nat} {thread : ThreadId} (old : thread ≠ n + 1) :
    (1 ≤ thread ∧ thread ≤ n) ↔ 1 ≤ thread ∧ thread ≤ n + 1 :=
  and_congr_right fun _ =>
    ⟨Nat.le_succ_of_le, fun within => Nat.le_of_lt_succ (lt_of_le_of_ne within old)⟩

/-- **One more holder for each late store**: thread `0` locks and unlocks, and the next thread locks
before its plain store. -/
theorem comes_crowd (mutex : Addr) (n : Nat) : Comes mutex 0 (crowd n) n := by
  induction n with
  | zero =>
    have nobody : crowd 0 = fun _ => .idle := by
      funext thread
      exact if_neg fun both => absurd (both.1.trans both.2) (by decide)
    rw [nobody]
    exact Comes.start mutex
  | succ n ih =>
    have outside : crowd n 0 = .idle := if_neg fun both => absurd both.1 (by decide)
    have newcomer : crowd n (n + 1) = .idle := if_neg fun both => Nat.not_succ_le_self n both.2
    have apart : n + 1 ≠ 0 := Nat.succ_ne_zero n
    have locked := ih.lock outside
    have released := locked.release (Function.update_self ..)
    rw [Function.update_idem] at released
    have waits : Function.update (crowd n) 0 .clearing (n + 1) = .idle :=
      (Function.update_of_ne apart ..).trans newcomer
    have taken := released.lock waits
    have late : Function.update (Function.update (crowd n) 0 .clearing) (n + 1) .holding 0
        = .clearing := (Function.update_of_ne apart.symm ..).trans (Function.update_self ..)
    have cleared := taken.clearLate late
    have positions : Function.update (Function.update (Function.update (crowd n) 0 .clearing) (n + 1)
        .holding) 0 .idle = crowd (n + 1) := by
      funext thread
      by_cases first : thread = 0
      · subst first
        rw [Function.update_self]
        exact (if_neg fun both => absurd both.1 (by decide)).symm
      · rw [Function.update_of_ne first]
        by_cases new : thread = n + 1
        · subst new
          rw [Function.update_self]
          exact (if_pos ⟨Nat.succ_le_succ (Nat.zero_le n), le_rfl⟩).symm
        · rw [Function.update_of_ne new, Function.update_of_ne first]
          exact if_congr (crowd_range new) rfl rfl
    rw [← positions]
    exact cleared

/-- **The most threads that hold at once** are one more than the late stores of the run. -/
theorem holders_greatest (mutex : Addr) (n : Nat) :
    IsGreatest {k : ℕ∞ | ∃ w,
      Reach (CountStarted mutex) anyStep (execStep (Counted.next mutex)) w ∧ w.late = n ∧
        w.machine.holders.encard = k} (n + 1) := by
  refine ⟨?_, ?_⟩
  · have newcomer : crowd n (n + 1) = .idle := if_neg fun both => Nat.not_succ_le_self n both.2
    obtain ⟨w, reached, _, _, positions, late⟩ := (comes_crowd mutex n).lock newcomer
    refine ⟨w, reached, late, ?_⟩
    have inside : w.machine.holders = (Finset.Icc 1 (n + 1) : Finset ThreadId) := by
      ext thread
      show w.machine.pc thread = .holding ↔ _
      rw [positions, Finset.mem_coe, Finset.mem_Icc]
      by_cases new : thread = n + 1
      · subst new
        rw [Function.update_self]
        exact iff_of_true rfl ⟨Nat.succ_le_succ (Nat.zero_le n), le_rfl⟩
      · rw [Function.update_of_ne new]
        unfold crowd
        split
        · rename_i within
          exact iff_of_true rfl ((crowd_range new).mp within)
        · rename_i outside
          exact iff_of_false (by decide) fun within => outside ((crowd_range new).mpr within)
    rw [inside, Set.encard_coe_eq_coe_finsetCard, Nat.card_Icc]
    rfl
  · rintro k ⟨w, reached, rfl, rfl⟩
    exact holders_le reached

/-! ### Getting in -/

/-- Some steps, at most so many, after which the thread has the lock. -/
def Enters (mutex : Addr) (thread : ThreadId) (steps : Nat) (machine : Machine) : Prop :=
  ∃ accesses, accesses.length ≤ steps ∧ ∃ next,
    execAll anyStep (exec mutex) machine accesses = some next ∧ next.pc thread = .acquired

section Enters

variable {mutex : Addr} {machine next : Machine} {thread owner : ThreadId} {steps : Nat}

theorem Enters.after {access : Access} (ran : exec mutex machine access = some next)
    (enters : Enters mutex thread steps next) : Enters mutex thread (steps + 1) machine := by
  obtain ⟨accesses, few, last, rest, acquired⟩ := enters
  refine ⟨access :: accesses, Nat.succ_le_succ few, last, ?_, acquired⟩
  rw [execAll, if_pos (show anyStep machine access from trivial), ran]
  exact rest

theorem Enters.more {steps' : Nat} (enters : Enters mutex thread steps machine)
    (more : steps ≤ steps') : Enters mutex thread steps' machine := by
  obtain ⟨accesses, few, last, rest, acquired⟩ := enters
  exact ⟨accesses, few.trans more, last, rest, acquired⟩

/-- A thread spins on while another one moves. -/
theorem spins_on {pc : ThreadId → Pc} {target : Pc} (spins : pc thread = .spinning)
    (moves : pc owner ≠ .spinning) : Function.update pc owner target thread = .spinning := by
  have other : thread ≠ owner := fun same => moves (same ▸ spins)
  rw [Function.update_of_ne other]
  exact spins

/-- The word is clear. -/
theorem enters_clear (spins : machine.pc thread = .spinning)
    (clear : (machine.env.cells mutex).isLocked = 0) : Enters mutex thread 1 machine := by
  have ran : exec mutex machine (.testAndSet thread)
      = some (machine.storeGoto mutex 1 thread .acquired) := by
    simp [exec, spins, clear]
  refine Enters.after ran ⟨[], le_rfl, _, rfl, ?_⟩
  exact Function.update_self ..

/-- The owner is before its release. -/
theorem enters_unlocking (spins : machine.pc thread = .spinning)
    (unlocking : machine.pc owner = .unlocking) : Enters mutex thread 2 machine := by
  have ran : exec mutex machine (.lockRelease owner)
      = some (machine.storeGoto mutex 0 owner .clearing) := if_pos unlocking
  have waits : (machine.storeGoto mutex 0 owner .clearing).pc thread = .spinning :=
    spins_on spins (by simp [unlocking])
  exact Enters.after ran (enters_clear waits (MutexEnv.setLocked_isLocked _ _ _))

/-- The owner holds the mutex. -/
theorem enters_holding (spins : machine.pc thread = .spinning)
    (holding : machine.pc owner = .holding) : Enters mutex thread 3 machine := by
  have ran : exec mutex machine (.unlockCall owner) = some (machine.goto owner .unlocking) :=
    if_pos holding
  have waits : (machine.goto owner .unlocking).pc thread = .spinning :=
    spins_on spins (by simp [holding])
  exact Enters.after ran (enters_unlocking waits (Function.update_self ..))

/-- The owner is still inside its lock. -/
theorem enters_acquired (spins : machine.pc thread = .spinning)
    (acquired : machine.pc owner = .acquired) : Enters mutex thread 4 machine := by
  have ran : exec mutex machine (.lockReturn owner) = some (machine.goto owner .holding) :=
    if_pos acquired
  have waits : (machine.goto owner .holding).pc thread = .spinning :=
    spins_on spins (by simp [acquired])
  exact Enters.after ran (enters_holding waits (Function.update_self ..))

end Enters

/-- A run of the machine can be counted. -/
theorem counted_of_reach {mutex : Addr} {machine : Machine}
    (reached : Reach (Started mutex) anyStep (execStep (exec mutex)) machine) :
    ∃ late, Reach (CountStarted mutex) anyStep (execStep (Counted.next mutex)) ⟨machine, late⟩ := by
  refine reached.invariant (fun machine => ∃ late,
    Reach (CountStarted mutex) anyStep (execStep (Counted.next mutex)) ⟨machine, late⟩)
    (fun machine started => ⟨0, .init ⟨started, rfl⟩⟩) ?_
  rintro machine access next ⟨late, counted⟩ any taken
  exact ⟨_, .next counted any (congrArg (Option.map _) taken)⟩

/-- **Who spins can get in**, whatever has happened before: the word is never set without an owner,
and the owner is at most three steps from its release. -/
theorem spinner_enters {mutex : Addr} {machine : Machine}
    (reached : Reach (Started mutex) anyStep (execStep (exec mutex)) machine) {thread : ThreadId}
    (spins : machine.pc thread = .spinning) : Enters mutex thread 4 machine := by
  obtain ⟨late, counted⟩ := counted_of_reach reached
  by_cases clear : (machine.env.cells mutex).isLocked = 0
  · exact (enters_clear spins clear).more (by decide)
  · obtain ⟨owner, owns⟩ := (covered_of_reach counted).nonempty clear
    rcases owns with acquired | holding | unlocking
    · exact enters_acquired spins acquired
    · exact (enters_holding spins holding).more (by decide)
    · exact (enters_unlocking spins unlocking).more (by decide)

/-- Thread `0` holds the mutex, and thread `1` has found the word set. -/
theorem spinner_enters_contended :
    ∃ machine : Machine, machine.pc 0 = .holding ∧ Enters 0 1 4 machine := by
  have start : Reach (Started 0) anyStep (execStep (exec 0)) fresh := .init fresh_started
  obtain ⟨machine, reached, found⟩ := start.exists_of_execAll
    (lockOf 0 ++ [.lockCall 1, .testAndSet 1])
    (fun machine => machine.pc 0 = .holding ∧ machine.pc 1 = .spinning) (by decide)
  obtain ⟨holding, spins⟩ := of_decide_eq_true found
  exact ⟨machine, holding, spinner_enters reached spins⟩

end OS2017.Mutex
