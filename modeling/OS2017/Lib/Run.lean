/-
**Guarded runs of a transition system.**

A system is a step relation `step state event next`. A *guard* is a condition on the state before
a step and on the event taken; a run whose every step meets the guard reaches the states `Reach`.
With the guard that is always true these are all the reachable states.

* `Reach.invariant` — what holds initially and is kept by every guarded step holds in every
  reached state;
* `Reach.mono` — a weaker guard reaches more;
* `execAll` — an executable system on a list of events, and `Reach.of_execAll`, by which a
  computed run is a derivation of `Reach`.
-/

import Mathlib.Logic.Basic

namespace OS2017.Run

variable {S E : Type}

/-- **The states reached by the runs whose steps all meet the guard.** -/
inductive Reach (start : S → Prop) (guard : S → E → Prop) (step : S → E → S → Prop) : S → Prop
  | init {s : S} : start s → Reach start guard step s
  | next {s s' : S} {e : E} : Reach start guard step s → guard s e → step s e s' →
      Reach start guard step s'

/-- The guard every step meets. -/
def anyStep (_ : S) (_ : E) : Prop := True

variable {start : S → Prop} {guard : S → E → Prop} {step : S → E → S → Prop}

/-- **The invariant rule.** -/
theorem Reach.invariant (inv : S → Prop) (initially : ∀ s, start s → inv s)
    (kept : ∀ s e s', inv s → guard s e → step s e s' → inv s') {s : S}
    (reached : Reach start guard step s) : inv s := by
  induction reached with
  | init started => exact initially _ started
  | next _ met taken ih => exact kept _ _ _ ih met taken

/-- A run that meets a guard meets every weaker one. -/
theorem Reach.mono {weaker : S → E → Prop} (weaken : ∀ s e, guard s e → weaker s e) {s : S}
    (reached : Reach start guard step s) : Reach start weaker step s := by
  induction reached with
  | init started => exact .init started
  | next _ met taken ih => exact .next ih (weaken _ _ met) taken

/-- The step relation of an executable system; an event without a result cannot be taken. -/
def execStep (exec : S → E → Option S) (s : S) (e : E) (s' : S) : Prop := exec s e = some s'

/-- An executable system on a list of events, stopped at the first event that has no result or
does not meet the guard. -/
def execAll (guard : S → E → Prop) [∀ s e, Decidable (guard s e)] (exec : S → E → Option S) :
    S → List E → Option S
  | s, [] => some s
  | s, e :: events =>
    if guard s e then (exec s e).bind fun next => execAll guard exec next events else none

instance (s : S) (e : E) : Decidable (anyStep s e) := isTrue trivial

/-- **A computed run is a run.** -/
theorem Reach.of_execAll [∀ s e, Decidable (guard s e)] {exec : S → E → Option S} :
    ∀ (events : List E) {s s' : S}, Reach start guard (execStep exec) s →
      execAll guard exec s events = some s' → Reach start guard (execStep exec) s' := by
  intro events
  induction events with
  | nil =>
    intro s s' reached run
    cases run
    exact reached
  | cons e events ih =>
    intro s s' reached run
    unfold execAll at run
    split at run
    · rename_i met
      obtain ⟨next, taken, rest⟩ := Option.bind_eq_some_iff.mp run
      exact ih (.next reached met taken) rest
    · cases run

/-- A computed run whose last state passes a check reaches a state that passes it. -/
theorem Reach.exists_of_execAll [∀ s e, Decidable (guard s e)] {exec : S → E → Option S} {s : S}
    (reached : Reach start guard (execStep exec) s) (events : List E) (check : S → Bool)
    (ran : (execAll guard exec s events).any check = true) :
    ∃ s', Reach start guard (execStep exec) s' ∧ check s' = true := by
  cases final : execAll guard exec s events with
  | none => simp [final] at ran
  | some s' => exact ⟨s', Reach.of_execAll events reached final, by simpa [final] using ran⟩

end OS2017.Run
