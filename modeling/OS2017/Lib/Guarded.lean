/-
**A program and its guarded version.**

Some of the steps of a program do harm in some states. The *guarded* version tests the state before
such a step and stops where the step would do harm, and is the same program otherwise. `UntilBad`
relates the two: they are identical as long as the guards hold, and where a guard fails the program
itself ends in a bad state, if it ends. The rules are for the sequence of two programs, for one
guarded step, for a step that needs no guard, and for the accesses of a store; with them a whole
program is compared with its guarded version along its text.
-/

import OS2017.Lib.Bytes

namespace OS2017.Guarded

open OS2017.Bytes

variable {σ α β : Type}

/-- The program, from the states that pass the check. -/
def guarded (check : σ → Bool) (program : StateT σ Option α) : StateT σ Option α := do
  if ← look check then program else stop

theorem guarded_eq (check : σ → Bool) (program : StateT σ Option α) (s : σ) :
    guarded check program s = if check s then program s else none := by
  unfold guarded
  rw [look_run]
  split <;> rfl

/-- A guarded run is a run from a state that passes. -/
theorem guarded_run {check : σ → Bool} {program : StateT σ Option α} {s s' : σ} {a : α}
    (ran : guarded check program s = some (a, s')) :
    check s = true ∧ program s = some (a, s') := by
  rw [guarded_eq] at ran
  split at ran
  · exact ⟨‹_›, ran⟩
  · cases ran

/-- **Identical until bad.** -/
structure UntilBad (bad pre : σ → Prop) (post : α → σ → Prop) (actual watched : StateT σ Option α) :
    Prop where
  agrees : ∀ {s a s'}, pre s → watched s = some (a, s') → actual s = some (a, s') ∧ post a s'
  fails : ∀ {s a s'}, pre s → watched s = none → actual s = some (a, s') → bad s'
  stays : ∀ {s a s'}, bad s → actual s = some (a, s') → bad s'

variable {bad pre : σ → Prop}

/-- A program without guards. -/
theorem UntilBad.same {post : α → σ → Prop} {program : StateT σ Option α}
    (keeps : ∀ {s a s'}, pre s → program s = some (a, s') → post a s')
    (stays : ∀ {s a s'}, bad s → program s = some (a, s') → bad s') :
    UntilBad bad pre post program program where
  agrees good ran := ⟨ran, keeps good ran⟩
  fails _ none ran := by
    rw [none] at ran
    cases ran
  stays := stays

theorem UntilBad.pure {post : α → σ → Prop} {a : α} (holds : ∀ s, pre s → post a s) :
    UntilBad bad pre post (Pure.pure a) (Pure.pure a) := by
  refine UntilBad.same ?_ ?_
  · rintro s _ _ good ⟨⟩
    exact holds s good
  · rintro s _ _ isBad ⟨⟩
    exact isBad

theorem UntilBad.mono {post post' : α → σ → Prop} {actual watched : StateT σ Option α}
    (watch : UntilBad bad pre post actual watched) (weaken : ∀ a s, post a s → post' a s) :
    UntilBad bad pre post' actual watched where
  agrees good ran := ⟨(watch.agrees good ran).1, weaken _ _ (watch.agrees good ran).2⟩
  fails := watch.fails
  stays := watch.stays

/-- A look whose value is known behind it. -/
theorem UntilBad.look_eq {f : σ → α} :
    UntilBad bad pre (fun a s => pre s ∧ a = f s) (look f) (look f) := by
  refine UntilBad.same ?_ ?_
  · rintro s _ _ good ⟨⟩
    exact ⟨good, rfl⟩
  · rintro s _ _ isBad ⟨⟩
    exact isBad

theorem UntilBad.look {f : σ → α} : UntilBad bad pre (fun _ => pre) (look f) (look f) :=
  UntilBad.look_eq.mono fun _ _ => And.left

theorem UntilBad.stop {post : α → σ → Prop} : UntilBad bad pre post stop stop := by
  refine UntilBad.same ?_ ?_
  · rintro s _ _ _ ⟨⟩
  · rintro s _ _ _ ⟨⟩

/-- **Two programs in sequence.** -/
theorem UntilBad.bind {mid : α → σ → Prop} {post : β → σ → Prop}
    {actual watched : StateT σ Option α} {rest watchedRest : α → StateT σ Option β}
    (first : UntilBad bad pre mid actual watched)
    (next : ∀ a, UntilBad bad (mid a) post (rest a) (watchedRest a)) :
    UntilBad bad pre post (actual >>= rest) (watched >>= watchedRest) where
  agrees := by
    intro s b s'' good ran
    obtain ⟨a, s', ran', ran''⟩ := run_bind ran
    obtain ⟨actual', good'⟩ := first.agrees good ran'
    obtain ⟨actual'', good''⟩ := (next a).agrees good' ran''
    refine ⟨?_, good''⟩
    show (actual s).bind _ = _
    rw [actual']
    exact actual''
  fails := by
    intro s b s'' good none ran
    obtain ⟨a, s', ran', ran''⟩ := run_bind ran
    have none' : (watched s).bind (fun x => watchedRest x.1 x.2) = Option.none := none
    cases run : watched s with
    | none => exact (next a).stays (first.fails good run ran') ran''
    | some pair =>
      obtain ⟨a₁, s₁⟩ := pair
      obtain ⟨actual', good'⟩ := first.agrees good run
      rw [ran'] at actual'
      cases actual'
      rw [run] at none'
      exact (next a).fails good' none' ran''
  stays := by
    intro s b s'' isBad ran
    obtain ⟨a, s', ran', ran''⟩ := run_bind ran
    exact (next a).stays (first.stays isBad ran') ran''

/-- **One guarded step.** -/
theorem UntilBad.guard {post : α → σ → Prop} {program : StateT σ Option α} {check : σ → Bool}
    (passes : ∀ {s a s'}, pre s → check s = true → program s = some (a, s') → post a s')
    (harms : ∀ {s a s'}, pre s → check s = false → program s = some (a, s') → bad s')
    (stays : ∀ {s a s'}, bad s → program s = some (a, s') → bad s') :
    UntilBad bad pre post program (guarded check program) := by
  refine ⟨?_, ?_, stays⟩
  · intro s a s' good ran
    obtain ⟨passed, ran⟩ := guarded_run ran
    exact ⟨ran, passes good passed ran⟩
  · intro s a s' good none ran
    rw [guarded_eq] at none
    split at none
    · rw [none] at ran
      cases ran
    · rename_i failed
      exact harms good (by simpa using failed) ran

theorem UntilBad.strengthen {pre' : σ → Prop} {post : α → σ → Prop}
    {actual watched : StateT σ Option α} (watch : UntilBad bad pre post actual watched)
    (implies : ∀ s, pre' s → pre s) : UntilBad bad pre' post actual watched where
  agrees good ran := watch.agrees (implies _ good) ran
  fails good none ran := watch.fails (implies _ good) none ran
  stays := watch.stays

/-- **A branch.** -/
theorem UntilBad.ite {post : α → σ → Prop} {c : Prop} [Decidable c]
    {actual actual' watched watched' : StateT σ Option α}
    (holds : c → UntilBad bad pre post actual watched)
    (fails : ¬c → UntilBad bad pre post actual' watched') :
    UntilBad bad pre post (if c then actual else actual') (if c then watched else watched') := by
  split
  · exact holds ‹_›
  · exact fails ‹_›

/-- **The guards hold along a run that does not end badly.** -/
theorem UntilBad.passes {post : α → σ → Prop} {actual watched : StateT σ Option α}
    (watch : UntilBad bad pre post actual watched) {s s' : σ} {a : α} (good : pre s)
    (ran : actual s = some (a, s')) (clear : ¬bad s') : watched s = some (a, s') ∧ post a s' := by
  cases run : watched s with
  | none => exact absurd (watch.fails good run ran) clear
  | some pair =>
    obtain ⟨ran', holds⟩ := watch.agrees good run
    cases ran.symm.trans ran'
    exact ⟨rfl, holds⟩

/-- The accesses of a store, and of its guarded version. -/
structure UntilBadStore (bad pre : σ → Prop) (mem watched : Store σ) : Prop where
  load : ∀ a, UntilBad bad pre (fun _ => pre) (mem.load a) (watched.load a)
  store : ∀ a w, UntilBad bad pre (fun _ => pre) (mem.store a w) (watched.store a w)

theorem UntilBadStore.modify {mem watched : Store σ} (watch : UntilBadStore bad pre mem watched)
    (a : Nat) (change : BitVec 32 → BitVec 32) :
    UntilBad bad pre (fun _ => pre) (mem.modify a change) (watched.modify a change) :=
  (watch.load a).bind fun _ => watch.store a _

end OS2017.Guarded
