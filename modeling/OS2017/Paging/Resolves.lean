/-
**The fault handler resolves the fault.**

In every reachable state, a fault of the running thread in a frame whose page it owns, wherever the
page is, brings the page into the frame and opens it; every other page in use is then in one place, as
it was (`fault_resolved`). The search over the frames does not look at the free flag: it is right since
no free frame carries a live thread's id.
-/

import OS2017.Paging.Acts
import OS2017.Paging.Views

namespace OS2017.Paging

open OS2017.Bytes OS2017.Heap OS2017.Run

/-- The running thread has a page of this number, in memory or in the swap file. -/
def Machine.Owns (m : Machine) (k : Nat) : Prop :=
  ∃ place : Place, place.Valid ∧ Labels (m.entry place) m.thread k

/-- **The page is there once**, and has the bytes of a place. -/
def Survives (m m' : Machine) (t k : Nat) (place : Place) : Prop :=
  ∃ place', place'.Valid ∧ Labels (m'.entry place') t k ∧
    (∀ o < PAGESIZE, m'.content place' o = m.content place o) ∧
    ∀ other : Place, other.Valid → Labels (m'.entry other) t k → other = place'

/-- **The fault in the frame `k` is resolved.** -/
structure Resolved (k : Nat) (m m' : Machine) : Prop where
  home : Labels (m'.pages k) m.thread k
  content : ∀ place : Place, place.Valid → Labels (m.entry place) m.thread k →
    ∀ o < PAGESIZE, m'.content (.frame k) o = m.content place o
  accessible : m'.accessible k = true
  others : ∀ t j, t ≠ m.thread ∨ j ≠ k → ∀ place : Place, place.Valid →
    Labels (m.entry place) t j → Survives m m' t j place

section Faults

variable {m m' : Machine} {k : Nat} {place : Place}

/-- An exchange takes each label along with its bytes. -/
theorem Exchanged.survives (exchanged : Exchanged k place m m') (inside : k < USER_PAGES)
    (valid : place.Valid) (once : LabelsOnce m) {t j : Nat} {other : Place} (validOther : other.Valid)
    (label : Labels (m.entry other) t j) : Survives m m' t j other := by
  have validFrame : (Place.frame k).Valid := inside
  have once' : LabelsOnce m' := (exchanged.permutes inside valid).once once
  have here : Labels (m'.entry (Equiv.swap (.frame k) place other)) t j := by
    rw [exchanged.entry, Function.comp_apply, Equiv.swap_apply_self]
    exact label
  have moved := (swap_valid validFrame valid other).mpr validOther
  refine ⟨_, moved, here, fun o within => ?_, fun another inside' label' => ?_⟩
  · rw [exchanged.content _ o within, Equiv.swap_apply_self]
  · exact once' t j _ _ inside' moved label' here

/-- **What is fetched resolves the fault.** -/
theorem Fetched.resolves (fetched : Fetched k place m m') (inside : k < USER_PAGES)
    (valid : place.Valid) (label : Labels (m.entry place) m.thread k) (once : LabelsOnce m) :
    Resolved k m m' where
  home := by
    show Labels (m'.entry (.frame k)) m.thread k
    rw [fetched.entry, Function.comp_apply, Equiv.swap_apply_left]
    exact label
  content := by
    intro other validOther labelOther o within
    rw [once _ _ other place validOther valid labelOther label, fetched.content _ o within,
      Equiv.swap_apply_left]
  accessible := by
    rw [fetched.accessible, Function.update_self]
  others := fun _ _ _ _ validOther labelOther =>
    fetched.toExchanged.survives inside valid once validOther labelOther

end Faults

/-- **The fault handler resolves exactly the fault**, in every reachable state. -/
theorem fault_resolved {s : System}
    (reached : Reach SystemStarted Admitted (execStep System.act) s)
    (running : s.live s.machine.thread = true) {address : Nat}
    (user : address / PAGESIZE < USER_PAGES) (owns : s.machine.Owns (address / PAGESIZE)) :
    Returns (sigHandler (address / PAGESIZE)) s.machine fun _ m' =>
      Resolved (address / PAGESIZE) s.machine m' := by
  have sound := sound_of_acts reached
  obtain ⟨place, valid, label⟩ := owns
  have found : located s.machine (address / PAGESIZE) = some place :=
    (located_iff sound.well running).mpr ⟨valid, label⟩
  exact (sigHandler_fetches user found).mono fun _ m' fetched =>
    fetched.resolves user valid label sound.once

/-- The first thread's page `0` has made room for the second one's, and faults. -/
def evictedFirst : List Act :=
  [.event (.allocate 100), .event .create, .event (.switch 2), .event (.allocate 50),
    .event (.switch 1)]

/-- Page `0` of the first thread is in frame `1`, and it runs. -/
def firstAway (s : System) : Bool :=
  s.live s.machine.thread && s.machine.thread = 1 && !s.machine.accessible 0 &&
    getPageIsF (s.machine.pages 1) = 0 && (getPageThID (s.machine.pages 1)).toNat = 1 &&
    (getPagePgID (s.machine.pages 1)).toNat = 0

theorem fault_resolved_firstAway : ∃ s : System, s.machine.accessible 0 = false ∧
    Returns (sigHandler 0) s.machine fun _ m' => Resolved 0 s.machine m' := by
  have start : Reach SystemStarted Admitted (execStep System.act) zeroSystem :=
    .init zeroSystem_started
  obtain ⟨s, reached, away⟩ := start.exists_of_execAll evictedFirst firstAway (by decide +kernel)
  unfold firstAway at away
  simp only [Bool.and_eq_true, decide_eq_true_eq, Bool.not_eq_true'] at away
  obtain ⟨⟨⟨⟨⟨running, first⟩, closed⟩, used⟩, thID⟩, pgID⟩ := away
  have valid : (Place.frame 1).Valid := by
    unfold Place.Valid
    decide
  have owns : s.machine.Owns (0 / PAGESIZE) := ⟨.frame 1, valid, used, thID.trans first.symm, pgID⟩
  exact ⟨s, closed, @fault_resolved s reached running 0 (by decide) owns⟩

end OS2017.Paging
