/-
**A first-fit allocator and the machines that implement it.**

The allocator has an arena of blocks and knows the allocations its callers hold. A request takes a
block by first fit, or fails and changes nothing; a pointer that is given back has its block released;
callers write inside what they hold. A machine *implements* it when, on every list of events that
callers may cause, it returns at each step what the allocator returns. `Simulates.implements` gives
that from a relation between the states that every event keeps.
-/

import OS2017.Lib.FirstFit
import OS2017.Lib.Bytes
import Mathlib.Data.List.Nodup

namespace OS2017.Allocator

open OS2017.FirstFit OS2017.Bytes

/-- The blocks of the arena, and the allocations that are held: pointer and size. -/
structure State where
  blocks : List Block
  live : List (Nat × Nat)

/-- What callers do. -/
inductive Event
  | malloc (size : Nat)
  | free (ptr : Nat)
  | write (address : Nat) (value : BitVec 8)
  deriving DecidableEq

/-- An arena of `bytes` bytes, all in one free block. -/
def initial (h bytes : Nat) : State := ⟨[⟨bytes - h, true⟩], []⟩

/-- The pointer a request gets. -/
def State.served (h : Nat) (s : State) (size : Nat) : Option Nat :=
  (firstFit h size 0 s.blocks).map (·.1 + h)

/-- **The state after an event.** -/
def State.next (h : Nat) (s : State) : Event → State
  | .malloc size =>
    match firstFit h size 0 s.blocks with
    | none => s
    | some (header, blocks) => ⟨blocks, (header + h, size) :: s.live⟩
  | .free ptr =>
    match release h (ptr - h) 0 s.blocks with
    | none => s
    | some blocks => ⟨blocks, s.live.filter fun block => block.1 ≠ ptr⟩
  | .write _ _ => s

section Next

variable {h : Nat} {s : State}

theorem State.next_malloc_none {size : Nat} (fit : firstFit h size 0 s.blocks = none) :
    s.next h (.malloc size) = s := by
  simp only [State.next, fit]

theorem State.next_malloc_some {size header : Nat} {blocks : List Block}
    (fit : firstFit h size 0 s.blocks = some (header, blocks)) :
    s.next h (.malloc size) = ⟨blocks, (header + h, size) :: s.live⟩ := by
  simp only [State.next, fit]

theorem State.next_free_some {ptr : Nat} {blocks : List Block}
    (released : release h (ptr - h) 0 s.blocks = some blocks) :
    s.next h (.free ptr) = ⟨blocks, s.live.filter fun block => block.1 ≠ ptr⟩ := by
  simp only [State.next, released]

end Next

/-- **What it returns**: a pointer or none to a request, nothing else. -/
def State.returns (h : Nat) (s : State) : Event → Option Nat
  | .malloc size => s.served h size
  | _ => none

/-- Callers free what they hold and write inside it. -/
def State.Holder (s : State) : Event → Prop
  | .malloc _ => True
  | .free ptr => ∃ block ∈ s.live, block.1 = ptr
  | .write address _ => ∃ block ∈ s.live, block.1 ≤ address ∧ address < block.1 + block.2

instance (s : State) (e : Event) : Decidable (s.Holder e) := by
  cases e <;> unfold State.Holder <;> infer_instance

/-- The arena is tiled and merged, and the taken blocks are those that are held. -/
structure State.Sound (h bytes : Nat) (s : State) : Prop where
  nonempty : s.blocks ≠ []
  extent : span h s.blocks = bytes
  merged : Merged s.blocks
  live : ∀ p n, (p, n) ∈ s.live ↔ Holds h 0 s.blocks p n

section Sound

variable {h bytes : Nat}

theorem sound_initial (fits : h ≤ bytes) : (initial h bytes).Sound h bytes where
  nonempty := List.cons_ne_nil _ _
  extent := by
    unfold initial
    simp only [span]
    omega
  merged := List.isChain_singleton _
  live := fun p n => by
    unfold initial
    rw [holds_cons_free rfl]
    exact ⟨fun member => (List.not_mem_nil member).elim, fun holds => holds.elim⟩

/-- What is held can be released. -/
theorem State.Sound.releases (positive : 0 < h) {s : State} (sound : s.Sound h bytes) {p n : Nat}
    (member : (p, n) ∈ s.live) : ∃ blocks, release h (p - h) 0 s.blocks = some blocks := by
  have holds := (sound.live p n).mp member
  have target : p - h + h = p := by
    have := holds.bounds
    omega
  exact Option.isSome_iff_exists.mp (release_isSome positive (target.symm ▸ holds))

/-- **When nothing is held the arena is one free block.** -/
theorem State.Sound.unheld {s : State} (sound : s.Sound h bytes) (nobody : s.live = []) :
    s.blocks = [⟨bytes - h, true⟩] := by
  have allFree : ∀ b ∈ s.blocks, b.free = true := by
    intro b member
    by_contra taken
    obtain ⟨front, back, split⟩ := List.append_of_mem member
    have holds : Holds h 0 s.blocks (0 + span h front + h) b.size := by
      rw [split, holds_append]
      refine Or.inr (Or.inl ⟨rfl, ?_⟩)
      rw [← Bool.not_eq_true _ |>.mp taken]
    have member := (sound.live _ _).mpr holds
    rw [nobody] at member
    exact List.not_mem_nil member
  obtain ⟨nonempty, extent, merged, _⟩ := sound
  cases blocks : s.blocks with
  | nil => exact absurd blocks nonempty
  | cons b rest =>
    rw [blocks] at allFree extent merged
    cases rest with
    | nil =>
      simp only [span] at extent
      have isFree := allFree b List.mem_cons_self
      cases b with
      | mk size free =>
        simp only at extent isFree
        subst isFree
        have : size = bytes - h := by omega
        rw [this]
    | cons c rest =>
      refine absurd ⟨allFree b List.mem_cons_self, allFree c ?_⟩ (List.isChain_cons_cons.mp merged).1
      exact List.mem_cons_of_mem b List.mem_cons_self

/-- **Every event keeps the arena sound.** -/
theorem State.Sound.next (positive : 0 < h) {s : State} (sound : s.Sound h bytes) {e : Event}
    (holder : s.Holder e) : (s.next h e).Sound h bytes := by
  cases e with
  | malloc size =>
    cases fit : firstFit h size 0 s.blocks with
    | none =>
      rw [State.next_malloc_none fit]
      exact sound
    | some found =>
      obtain ⟨header, blocks⟩ := found
      rw [State.next_malloc_some fit]
      refine ⟨firstFit_ne_nil fit, (firstFit_span fit).trans sound.extent,
        firstFit_merged fit sound.merged, fun p n => ?_⟩
      show (p, n) ∈ (header + h, size) :: s.live ↔ _
      rw [firstFit_holds fit, ← sound.live, List.mem_cons, Prod.mk.injEq, or_comm]
  | free ptr =>
    obtain ⟨⟨p, n⟩, member, rfl⟩ := holder
    have target : p - h + h = p := by
      have := ((sound.live p n).mp member).bounds
      omega
    obtain ⟨blocks, released⟩ := sound.releases positive member
    rw [State.next_free_some released]
    refine ⟨release_ne_nil positive released, (release_span released).trans sound.extent,
      (release_merged released sound.merged).1, fun q m => ?_⟩
    show (q, m) ∈ s.live.filter (fun block => block.1 ≠ p) ↔ _
    rw [release_holds positive released, ← sound.live, target, List.mem_filter, decide_eq_true_eq]
  | write address value => exact sound

end Sound

/-! ### Machines -/

/-- The calls of a machine with the states `σ`, and a write by its callers. -/
structure Machine (σ : Type) where
  malloc : Nat → StateT σ Option (Option Nat)
  free : Nat → StateT σ Option Unit
  write : Nat → BitVec 8 → σ → σ

variable {σ : Type}

/-- What the machine returns to an event, and its state. -/
def Machine.step (machine : Machine σ) (s : σ) : Event → Option (Option Nat × σ)
  | .malloc size => machine.malloc size s
  | .free ptr => (machine.free ptr s).map fun (_, s') => (none, s')
  | .write address value => some (none, machine.write address value s)

/-- What the machine returns to a list of events. -/
def Machine.run (machine : Machine σ) : σ → List Event → Option (List (Option Nat))
  | _, [] => some []
  | s, e :: rest => (machine.step s e).bind fun (result, s') =>
    (machine.run s' rest).map (result :: ·)

/-- What the allocator returns to a list of events. -/
def State.run (h : Nat) : State → List Event → List (Option Nat)
  | _, [] => []
  | s, e :: rest => s.returns h e :: (s.next h e).run h rest

/-- Every event of the list is one that callers may cause where it comes. -/
def Lawful (h : Nat) (permitted : Event → Prop) : State → List Event → Prop
  | _, [] => True
  | s, e :: rest => permitted e ∧ s.Holder e ∧ Lawful h permitted (s.next h e) rest

instance Lawful.decidable (h : Nat) (permitted : Event → Prop) [∀ e, Decidable (permitted e)] :
    ∀ (s : State) (events : List Event), Decidable (Lawful h permitted s events)
  | _, [] => isTrue trivial
  | s, e :: rest =>
    have := Lawful.decidable h permitted (s.next h e) rest
    inferInstanceAs (Decidable (permitted e ∧ s.Holder e ∧ Lawful h permitted (s.next h e) rest))

/-- **The machine returns what the allocator returns.** -/
def Implements (h bytes : Nat) (permitted : Event → Prop) (machine : Machine σ) (s : σ) : Prop :=
  ∀ events, Lawful h permitted (initial h bytes) events →
    machine.run s events = some ((initial h bytes).run h events)

/-- **A simulation**: related states return the same and stay related. -/
structure Simulates (h bytes : Nat) (permitted : Event → Prop) (machine : Machine σ)
    (related : σ → State → Prop) : Prop where
  step : ∀ s t e, related s t → t.Sound h bytes → permitted e → t.Holder e →
    ∃ s', machine.step s e = some (t.returns h e, s') ∧ related s' (t.next h e)

theorem Simulates.implements {h bytes : Nat} (positive : 0 < h) (fits : h ≤ bytes)
    {permitted : Event → Prop} {machine : Machine σ} {related : σ → State → Prop}
    (simulates : Simulates h bytes permitted machine related) {s : σ}
    (start : related s (initial h bytes)) : Implements h bytes permitted machine s := by
  have runs : ∀ (events : List Event) (s : σ) (t : State), related s t → t.Sound h bytes →
      Lawful h permitted t events → machine.run s events = some (t.run h events) := by
    intro events
    induction events with
    | nil => exact fun _ _ _ _ _ => rfl
    | cons e rest ih =>
      rintro s t relates sound ⟨allowed, holder, lawful⟩
      obtain ⟨s', taken, relates'⟩ := simulates.step s t e relates sound allowed holder
      unfold Machine.run State.run
      rw [taken, Option.bind_some]
      dsimp only
      rw [ih s' _ relates' (sound.next positive holder) lawful]
      rfl
  exact fun events lawful => runs events s _ start (sound_initial fits) lawful

end OS2017.Allocator
