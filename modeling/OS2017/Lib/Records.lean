/-
**Records that are kept apart.**

A program performs events on a state that holds several records. For one record, `put e` is the value
the event `e` writes to it, `none` where `e` writes elsewhere. `lastWritten put events` is the value
the last of the events that writes the record puts there. The record is *kept apart* when every event
leaves in it what it puts there, or what was there before; then after every run it holds the value last
written to it, or its first value (`KeptApart.run`).
-/

import OS2017.Lib.Bytes

namespace OS2017.Records

open OS2017.Bytes

variable {σ E V : Type}

/-- Perform the events in order. -/
def performAll (perform : E → StateT σ Option Unit) : List E → StateT σ Option Unit
  | [] => return ()
  | e :: events => do
    perform e
    performAll perform events

/-- **The value the last writing event puts in the record.** -/
def lastWritten (put : E → Option V) (events : List E) : Option V := events.reverse.findSome? put

theorem lastWritten_cons (put : E → Option V) (e : E) (events : List E) :
    lastWritten put (e :: events) = (lastWritten put events).or (put e) := by
  have single : [e].findSome? put = put e := by
    rw [List.findSome?_cons]
    cases put e <;> rfl
  unfold lastWritten
  rw [List.reverse_cons, List.findSome?_append, single]

/-- No event writes the record. -/
theorem lastWritten_eq_none {put : E → Option V} {events : List E}
    (elsewhere : ∀ e ∈ events, put e = none) : lastWritten put events = none := by
  unfold lastWritten
  rw [List.findSome?_eq_none_iff]
  exact fun e member => elsewhere e (List.mem_reverse.mp member)

/-- **A record is kept apart** by the events in range. -/
def KeptApart (perform : E → StateT σ Option Unit) (inRange : E → Prop) (record : σ → V)
    (put : E → Option V) : Prop :=
  ∀ e s s', inRange e → perform e s = some ((), s') → record s' = (put e).getD (record s)

variable {perform : E → StateT σ Option Unit} {inRange : E → Prop}

/-- Events in range are performed. -/
theorem performAll_runs (runs : ∀ e s, inRange e → ∃ s', perform e s = some ((), s')) :
    ∀ (events : List E) (s : σ), (∀ e ∈ events, inRange e) →
      ∃ s', performAll perform events s = some ((), s') := by
  intro events
  induction events with
  | nil => exact fun s _ => ⟨s, rfl⟩
  | cons e events ih =>
    intro s within
    obtain ⟨next, taken⟩ := runs e s (within e List.mem_cons_self)
    obtain ⟨s', ran⟩ := ih next fun e' member => within e' (List.mem_cons_of_mem _ member)
    exact ⟨s', (then_run taken _).trans ran⟩

/-- **The record holds the value last written to it.** -/
theorem KeptApart.run {record : σ → V} {put : E → Option V}
    (apart : KeptApart perform inRange record put) :
    ∀ (events : List E) {s s' : σ}, (∀ e ∈ events, inRange e) →
      performAll perform events s = some ((), s') →
      record s' = (lastWritten put events).getD (record s) := by
  intro events
  induction events with
  | nil =>
    intro s s' _ ran
    cases ran
    rfl
  | cons e events ih =>
    intro s s' within ran
    obtain ⟨_, next, taken, rest⟩ := run_bind ran
    have later := ih (fun e' member => within e' (List.mem_cons_of_mem _ member)) rest
    rw [later, apart e s next (within e List.mem_cons_self) taken, lastWritten_cons]
    cases lastWritten put events <;> rfl

/-- A record that no event writes keeps its value. -/
theorem KeptApart.keeps {record : σ → V} (apart : KeptApart perform inRange record fun _ => none)
    {events : List E} {s s' : σ} (within : ∀ e ∈ events, inRange e)
    (ran : performAll perform events s = some ((), s')) : record s' = record s := by
  rw [apart.run events within ran, lastWritten_eq_none fun _ _ => rfl]
  rfl

end OS2017.Records
