/-
**`maintenance` on layouts.**

Every hundred calls of `schedule()` the nodes of the levels `1` to `4` are drained into the promotion
queues, by age, and dealt out again. `Layout.collected` is the first part for one level,
`Layout.dealOut` the second, and `maintained` the two for all levels: `Rep.maintenance` proves that
the pointer code computes it. `Moved` is what every part keeps: the join list, the set of the nodes
that are placed, the range of the priorities.
-/

import OS2017.Lib.Dealing
import OS2017.Sched.Layout

namespace OS2017.Sched

open OS2017.Intrusive OS2017.Dealing

/-- The priorities of all nodes index a run queue. -/
def Ranked (s : Scheduler) : Prop := ∀ p < s.nodeNum, s.nodes.priority p < RUN_QUEUE_SIZE

/-! ### Sorting by age -/

/-- The running time `maintenance` gives a node at the clock value `now`. -/
def Scheduler.ageAt (s : Scheduler) (now : Int) (p : NodePtr) : Rat :=
  (now - s.nodes.timeCreated p : Int) / 1000000

/-- The nodes `xs`, inserted one after the other. -/
def insertAll (ages : NodePtr → Rat) (xs sorted : List NodePtr) : List NodePtr :=
  xs.foldl (fun sorted p => insertTime ages p sorted) sorted

theorem insertTime_congr {ages ages' : NodePtr → Rat} {p : NodePtr} {xs : List NodePtr}
    (same : ∀ x ∈ p :: xs, ages x = ages' x) : insertTime ages p xs = insertTime ages' p xs := by
  induction xs with
  | nil => rfl
  | cons x xs ih =>
    rw [insertTime, insertTime, same p (by simp), same x (by simp), ih fun y member => ?_]
    rcases List.mem_cons.mp member with rfl | inside
    · exact same y (by simp)
    · exact same y (by simp [inside])

theorem insertAll_perm (ages : NodePtr → Rat) (xs sorted : List NodePtr) :
    (insertAll ages xs sorted).Perm (xs ++ sorted) := by
  induction xs generalizing sorted with
  | nil => exact List.Perm.refl _
  | cons x xs ih =>
    refine (ih (insertTime ages x sorted)).trans ?_
    refine ((insertTime_perm ages x sorted).append_left xs).trans ?_
    exact List.perm_middle

/-! ### The layouts -/

namespace Layout

/-- `runQ[i+1]` is drained into `promotionQ[i]`. -/
def collected (ages : NodePtr → Rat) (i : Nat) (layout : Layout) : Layout
  | .queue (.runQ k) => if k = i + 1 then [] else layout (.queue (.runQ k))
  | .queue (.promotionQ j) =>
    if j = i then insertAll ages (layout (.queue (.runQ (i + 1)))) (layout (.queue (.promotionQ i)))
    else layout (.queue (.promotionQ j))
  | .join => layout .join

/-- Each `runQ[k]` is given `give k`, and `promotionQ[i]` keeps `rest`. -/
def deal (i : Nat) (give : Nat → List NodePtr) (rest : List NodePtr) (layout : Layout) : Layout
  | .queue (.runQ k) => layout (.queue (.runQ k)) ++ give k
  | .queue (.promotionQ j) => if j = i then rest else layout (.queue (.promotionQ j))
  | .join => layout .join

/-- The levels the nodes of level `i + 1` are dealt out to, before the rest goes to level `0`. -/
def levelsDown (i : Nat) : List Nat := (List.range (i + 1)).map fun d => i + 1 - d

/-- What level `k` gets of the nodes `xs` of level `i + 1`, the oldest first. -/
def share (i : Nat) (xs : List NodePtr) (k : Nat) : List NodePtr :=
  dealt (xs.length / (i + 2)) (levelsDown i) xs k

/-- `promotionQ[i]` is dealt out. -/
def dealOut (layout : Layout) (i : Nat) : Layout :=
  layout.deal i (share i (layout (.queue (.promotionQ i)))) []

theorem mem_levelsDown {i k : Nat} : k ∈ levelsDown i ↔ 1 ≤ k ∧ k ≤ i + 1 := by
  unfold levelsDown
  rw [List.mem_map]
  constructor
  · rintro ⟨d, member, rfl⟩
    have := List.mem_range.mp member
    omega
  · rintro ⟨positive, most⟩
    exact ⟨i + 1 - k, List.mem_range.mpr (by omega), by omega⟩

theorem length_levelsDown (i : Nat) : (levelsDown i).length = i + 1 := by
  simp [levelsDown]

theorem levelsDown_nodup (i : Nat) : (levelsDown i).Nodup := by
  refine List.Nodup.map_on (fun d first d' second same => ?_) List.nodup_range
  have := List.mem_range.mp first
  have := List.mem_range.mp second
  omega

/-- The shares do not go beyond the nodes there are. -/
theorem share_le (i : Nat) (n : Nat) : (levelsDown i).length * (n / (i + 2)) ≤ n := by
  rw [length_levelsDown]
  have whole := Nat.div_mul_le_self n (i + 2)
  have less : (i + 1) * (n / (i + 2)) ≤ n / (i + 2) * (i + 2) := by
    rw [Nat.mul_comm (n / (i + 2))]
    exact Nat.mul_le_mul_right _ (Nat.le_succ _)
  exact less.trans whole

/-- All of the levels `i + 1` are drained. -/
def collectedAll (ages : NodePtr → Rat) (is : List Nat) (layout : Layout) : Layout
  | .queue (.runQ k) => if k ∈ is.map (· + 1) then [] else layout (.queue (.runQ k))
  | .queue (.promotionQ j) =>
    if j ∈ is then insertAll ages (layout (.queue (.runQ (j + 1)))) []
    else layout (.queue (.promotionQ j))
  | .join => layout .join

/-- All of the promotion queues are dealt out. -/
def dealtAll (is : List Nat) (layout : Layout) : Layout
  | .queue (.runQ k) =>
    layout (.queue (.runQ k)) ++ is.flatMap fun i => share i (layout (.queue (.promotionQ i))) k
  | .queue (.promotionQ j) => if j ∈ is then [] else layout (.queue (.promotionQ j))
  | .join => layout .join

theorem collectedAll_cons {ages : NodePtr → Rat} {i : Nat} {is : List Nat} {layout : Layout}
    (distinct : i ∉ is) (empty : layout (.queue (.promotionQ i)) = []) :
    collectedAll ages is (layout.collected ages i) = collectedAll ages (i :: is) layout := by
  funext place
  match place with
  | .join => rfl
  | .queue (.runQ k) =>
    by_cases later : k ∈ is.map (· + 1)
    · rw [collectedAll, collectedAll, if_pos later, List.map_cons,
        if_pos (List.mem_cons_of_mem _ later)]
    · by_cases here : k = i + 1
      · rw [collectedAll, collectedAll, if_neg later, collected, if_pos here, List.map_cons,
          if_pos (by rw [here]; exact List.mem_cons_self)]
      · have outside : k ∉ (i :: is).map (· + 1) := by
          rw [List.map_cons, List.mem_cons, not_or]
          exact ⟨here, later⟩
        rw [collectedAll, collectedAll, if_neg later, collected, if_neg here, if_neg outside]
  | .queue (.promotionQ j) =>
    by_cases later : j ∈ is
    · have different : j + 1 ≠ i + 1 := fun same => distinct (Nat.succ.inj same ▸ later)
      rw [collectedAll, collectedAll, if_pos later, if_pos (List.mem_cons_of_mem _ later), collected,
        if_neg different]
    · by_cases here : j = i
      · rw [collectedAll, collectedAll, if_neg later, collected, if_pos here,
          if_pos (by rw [here]; exact List.mem_cons_self), empty, here]
      · have outside : j ∉ i :: is := by
          rw [List.mem_cons, not_or]
          exact ⟨here, later⟩
        rw [collectedAll, collectedAll, if_neg later, collected, if_neg here, if_neg outside]

theorem dealtAll_cons {i : Nat} {is : List Nat} {layout : Layout} (distinct : i ∉ is) :
    dealtAll is (layout.dealOut i) = dealtAll (i :: is) layout := by
  have others : ∀ j ∈ is, layout.dealOut i (.queue (.promotionQ j))
      = layout (.queue (.promotionQ j)) := fun j member =>
    if_neg fun same : j = i => distinct (same ▸ member)
  funext place
  match place with
  | .join => rfl
  | .queue (.runQ k) =>
    have rest : (is.flatMap fun j => share j (layout.dealOut i (.queue (.promotionQ j))) k)
        = is.flatMap fun j => share j (layout (.queue (.promotionQ j))) k :=
      List.flatMap_congr fun j member => by rw [others j member]
    rw [dealtAll, dealtAll, rest, List.flatMap_cons, ← List.append_assoc]
    rfl
  | .queue (.promotionQ j) =>
    by_cases later : j ∈ is
    · rw [dealtAll, dealtAll, if_pos later, if_pos (List.mem_cons_of_mem _ later)]
    · by_cases here : j = i
      · rw [dealtAll, dealtAll, if_neg later, if_pos (by rw [here]; exact List.mem_cons_self)]
        exact if_pos here
      · have outside : j ∉ i :: is := by
          rw [List.mem_cons, not_or]
          exact ⟨here, later⟩
        rw [dealtAll, dealtAll, if_neg later, if_neg outside]
        exact if_neg here

end Layout

/-- **The places after `maintenance`** at the clock value `now`. -/
def maintained (s : Scheduler) (now : Int) (layout : Layout) : Layout :=
  (layout.collectedAll (s.ageAt now) (List.range (RUN_QUEUE_SIZE - 1))).dealtAll
    (List.range (RUN_QUEUE_SIZE - 1))

/-- **What `maintenance` keeps** on its way. -/
structure Moved (s : Scheduler) (layout : Layout) (s' : Scheduler) (layout' : Layout) : Prop where
  rep : Rep s' layout'
  kept : Kept s s'
  join : layout' .join = layout .join
  placed : ∀ p, layout'.Placed p ↔ layout.Placed p
  ranked : Ranked s → Ranked s'

namespace Moved

theorem refl {s : Scheduler} {layout : Layout} (rep : Rep s layout) : Moved s layout s layout :=
  ⟨rep, .refl s, rfl, fun _ => Iff.rfl, id⟩

theorem trans {s s' s'' : Scheduler} {layout layout' layout'' : Layout}
    (first : Moved s layout s' layout') (second : Moved s' layout' s'' layout'') :
    Moved s layout s'' layout'' :=
  ⟨second.rep, first.kept.trans second.kept, second.join.trans first.join,
    fun p => (second.placed p).trans (first.placed p), fun ranked => second.ranked (first.ranked ranked)⟩

end Moved

/-- Nodes that are in one place before and after two updates elsewhere, and otherwise swap between
the two places, are placed before and after. -/
theorem placed_update_two {layout : Layout} {first second : Place} {xs ys : List NodePtr}
    (different : first ≠ second)
    (same : ∀ p, p ∈ xs ∨ p ∈ ys ↔ p ∈ layout first ∨ p ∈ layout second) (p : NodePtr) :
    Layout.Placed (Function.update (Function.update layout first xs) second ys) p
      ↔ layout.Placed p := by
  have inFirst : Function.update (Function.update layout first xs) second ys first = xs := by
    rw [Function.update_of_ne different, Function.update_self]
  have inSecond : Function.update (Function.update layout first xs) second ys second = ys :=
    Function.update_self _ _ _
  have inOther : ∀ other, other ≠ first → other ≠ second →
      Function.update (Function.update layout first xs) second ys other = layout other := by
    intro other notFirst notSecond
    rw [Function.update_of_ne notSecond, Function.update_of_ne notFirst]
  constructor
  · rintro ⟨place, member⟩
    by_cases isFirst : place = first
    · rw [isFirst, inFirst] at member
      exact ((same p).mp (Or.inl member)).elim (fun here => ⟨_, here⟩) fun here => ⟨_, here⟩
    · by_cases isSecond : place = second
      · rw [isSecond, inSecond] at member
        exact ((same p).mp (Or.inr member)).elim (fun here => ⟨_, here⟩) fun here => ⟨_, here⟩
      · rw [inOther place isFirst isSecond] at member
        exact ⟨place, member⟩
  · rintro ⟨place, member⟩
    by_cases isFirst : place = first
    · rw [isFirst] at member
      rcases (same p).mpr (Or.inl member) with here | here
      · exact ⟨first, inFirst.symm ▸ here⟩
      · exact ⟨second, inSecond.symm ▸ here⟩
    · by_cases isSecond : place = second
      · rw [isSecond] at member
        rcases (same p).mpr (Or.inr member) with here | here
        · exact ⟨first, inFirst.symm ▸ here⟩
        · exact ⟨second, inSecond.symm ▸ here⟩
      · exact ⟨place, (inOther place isFirst isSecond).symm ▸ member⟩

namespace Rep

variable {s : Scheduler} {layout : Layout}

/-- A node just popped is in no place. -/
theorem off_of_pop (rep : Rep s layout) {place : Place} {p : NodePtr} {xs : List NodePtr}
    (first : layout place = p :: xs) : Layout.Off (Function.update layout place xs) p := by
  have member : p ∈ layout place := by
    rw [first]
    exact List.mem_cons_self
  intro other
  by_cases same : other = place
  · rw [same, Function.update_self]
    exact (List.nodup_cons.mp (first ▸ rep.nodup place)).1
  · rw [Function.update_of_ne same]
    exact rep.not_mem member same

/-- Popping a node leaves the others placed. -/
theorem placed_of_pop {place : Place} {p : NodePtr} {xs : List NodePtr}
    (first : layout place = p :: xs) (q : NodePtr) :
    q = p ∨ Layout.Placed (Function.update layout place xs) q ↔ layout.Placed q := by
  constructor
  · rintro (equal | ⟨other, member⟩)
    · exact ⟨place, by rw [first, equal]; exact List.mem_cons_self⟩
    · by_cases same : other = place
      · rw [same, Function.update_self] at member
        exact ⟨place, by rw [first]; exact List.mem_cons_of_mem _ member⟩
      · rw [Function.update_of_ne same] at member
        exact ⟨other, member⟩
  · rintro ⟨other, member⟩
    by_cases same : other = place
    · rw [same, first] at member
      refine (List.mem_cons.mp member).imp (fun equal => equal) fun inside => ⟨place, ?_⟩
      rw [Function.update_self]
      exact inside
    · exact Or.inr ⟨other, by rw [Function.update_of_ne same]; exact member⟩

/-- **The first loop of `maintenance`**: the nodes of `runQ[i+1]` go to `promotionQ[i]`. -/
theorem collect (now : Int) (i : Nat) :
    ∀ (fuel : Nat) (s : Scheduler) (layout : Layout) (count : Nat), Rep s layout →
      (layout (.queue (.runQ (i + 1)))).length ≤ fuel →
      (∀ p ∈ layout (.queue (.promotionQ i)), s.nodes.runtime p = s.ageAt now p) →
      ∃ s', Scheduler.collect now i fuel s count
          = some (count + (layout (.queue (.runQ (i + 1)))).length, s') ∧
        Moved s layout s' (layout.collected (s.ageAt now) i) := by
  intro fuel
  -- the queue is drained
  have ended : ∀ (fuel : Nat) (s : Scheduler) (layout : Layout) (count : Nat), Rep s layout →
      layout (.queue (.runQ (i + 1))) = [] →
      ∃ s', Scheduler.collect now i fuel s count
          = some (count + (layout (.queue (.runQ (i + 1)))).length, s') ∧
        Moved s layout s' (layout.collected (s.ageAt now) i) := by
    intro fuel s layout count rep empty
    have same : layout.collected (s.ageAt now) i = layout := by
      funext place
      match place with
      | .join => rfl
      | .queue (.runQ k) =>
        by_cases here : k = i + 1
        · rw [Layout.collected, if_pos here, here, empty]
        · rw [Layout.collected, if_neg here]
      | .queue (.promotionQ j) =>
        by_cases here : j = i
        · rw [Layout.collected, if_pos here, here, empty]
          rfl
        · rw [Layout.collected, if_neg here]
    refine ⟨s, ?_, same.symm ▸ .refl rep⟩
    unfold Scheduler.collect
    rw [rep.deQ_none empty, empty]
    rfl
  induction fuel with
  | zero =>
    intro s layout count rep enough _
    exact ended 0 s layout count rep (List.length_eq_zero_iff.mp (Nat.le_zero.mp enough))
  | succ fuel ih =>
    intro s layout count rep enough sorted
    cases first : layout (.queue (.runQ (i + 1))) with
    | nil =>
      rw [← first]
      exact ended (fuel + 1) s layout count rep first
    | cons p xs =>
      obtain ⟨s₁, popped, rep₁, kept₁, priority₁, runtime₁⟩ := rep.deQ first
      have member : p ∈ layout (.queue (.runQ (i + 1))) := by rw [first]; exact List.mem_cons_self
      have allocated : p < s₁.nodeNum := by rw [kept₁.nodeNum]; exact rep.bounded _ p member
      -- only the `runtime` field changes, which no representation reads
      have aged : Rep (s₁.age now p) (Function.update layout (.queue (.runQ (i + 1))) xs) :=
        ⟨rep₁.queued, rep₁.level, rep₁.joined, rep₁.nodup, rep₁.apart, rep₁.ranked, rep₁.bounded⟩
      obtain ⟨s₂, inserted, rep₂, kept₂, priority₂, runtime₂⟩ :=
        aged.insertByTime (i := i) (rep.off_of_pop first) allocated
      have apart : Place.queue (.promotionQ i) ≠ .queue (.runQ (i + 1)) := by simp
      -- the nodes compared have the running times of this `maintenance`
      have ages : ∀ x ∈ p :: layout (.queue (.promotionQ i)),
          (s₁.age now p).nodes.runtime x = s.ageAt now x := by
        intro x inside
        have own : (s₁.age now p).nodes.runtime p = s.ageAt now p := by
          simp [Scheduler.age, Scheduler.ageAt, kept₁.timeCreated]
        by_cases same : x = p
        · rw [same, own]
        · have queued := (List.mem_cons.mp inside).resolve_left same
          have other : (s₁.age now p).nodes.runtime x = s₁.nodes.runtime x :=
            Function.update_of_ne same _ _
          rw [other, runtime₁, sorted x queued]
      rw [Function.update_of_ne apart, insertTime_congr ages] at rep₂
      set layout₂ := Function.update (Function.update layout (.queue (.runQ (i + 1))) xs)
        (.queue (.promotionQ i)) (insertTime (s.ageAt now) p (layout (.queue (.promotionQ i))))
        with layout₂_eq
      have perm := insertTime_perm (s.ageAt now) p (layout (.queue (.promotionQ i)))
      have run₂ : layout₂ (.queue (.runQ (i + 1))) = xs := by
        rw [layout₂_eq, Function.update_of_ne apart.symm, Function.update_self]
      have promo₂ : layout₂ (.queue (.promotionQ i))
          = insertTime (s.ageAt now) p (layout (.queue (.promotionQ i))) := by
        rw [layout₂_eq, Function.update_self]
      have kept : Kept s s₂ := kept₁.trans (Kept.trans (by constructor <;> rfl) kept₂)
      have sameAges : s₂.ageAt now = s.ageAt now := by
        funext x
        rw [Scheduler.ageAt, kept.timeCreated, Scheduler.ageAt]
      have moved : Moved s layout s₂ layout₂ := by
        refine ⟨rep₂, kept, ?_, fun q => ?_, fun ranked q bound => ?_⟩
        · rw [layout₂_eq, Function.update_of_ne (by simp), Function.update_of_ne (by simp)]
        · refine placed_update_two apart.symm (fun x => ?_) q
          rw [perm.mem_iff, List.mem_cons, first, List.mem_cons]
          tauto
        · rw [priority₂]
          show s₁.nodes.priority q < RUN_QUEUE_SIZE
          rw [priority₁]
          exact ranked q (kept.nodeNum ▸ bound)
      have less : (layout₂ (.queue (.runQ (i + 1)))).length ≤ fuel := by
        rw [run₂]
        rw [first, List.length_cons] at enough
        omega
      have sorted₂ : ∀ q ∈ layout₂ (.queue (.promotionQ i)), s₂.nodes.runtime q = s₂.ageAt now q := by
        intro q inside
        rw [promo₂, perm.mem_iff] at inside
        rw [runtime₂, ages q inside, sameAges]
      obtain ⟨s', result, rest⟩ := ih s₂ layout₂ (count + 1) rep₂ less sorted₂
      have same : Layout.collected (s₂.ageAt now) i layout₂
          = layout.collected (s.ageAt now) i := by
        rw [sameAges]
        funext place
        match place with
        | .join => exact moved.join
        | .queue (.runQ k) =>
          by_cases here : k = i + 1
          · rw [Layout.collected, Layout.collected, if_pos here, if_pos here]
          · rw [Layout.collected, Layout.collected, if_neg here, if_neg here, layout₂_eq,
              Function.update_of_ne (by simp), Function.update_of_ne (by simpa using here)]
        | .queue (.promotionQ j) =>
          by_cases here : j = i
          · rw [Layout.collected, Layout.collected, if_pos here, if_pos here, run₂, promo₂, first]
            rfl
          · rw [Layout.collected, Layout.collected, if_neg here, if_neg here, layout₂_eq,
              Function.update_of_ne (by simpa using here), Function.update_of_ne (by simp)]
      refine ⟨s', ?_, moved.trans (same ▸ rest)⟩
      unfold Scheduler.collect
      simp only [popped, inserted, Option.bind_some]
      rw [result, run₂, List.length_cons]
      congr 2
      omega

/-- **Promotion**: the first `count` nodes of `promotionQ[i]` go to `runQ[level]`. -/
theorem promote (i : Nat) {level : Nat} (inRange : level < RUN_QUEUE_SIZE) :
    ∀ (count : Nat) (s : Scheduler) (layout : Layout), Rep s layout →
      (∀ p ∈ layout (.queue (.promotionQ i)), s.nodes.status p ≠ .yielding) →
      ∃ s', Scheduler.promote i level count s = some s' ∧ Moved s layout s' (layout.deal i
        (fun k => if k = level then (layout (.queue (.promotionQ i))).take count else [])
        ((layout (.queue (.promotionQ i))).drop count)) := by
  intro count
  induction count with
  | zero =>
    intro s layout rep _
    have same : layout.deal i
        (fun k => if k = level then (layout (.queue (.promotionQ i))).take 0 else [])
        ((layout (.queue (.promotionQ i))).drop 0) = layout := by
      funext place
      match place with
      | .join => rfl
      | .queue (.runQ k) => simp [Layout.deal]
      | .queue (.promotionQ j) =>
        by_cases here : j = i
        · rw [Layout.deal, if_pos here, here, List.drop_zero]
        · rw [Layout.deal, if_neg here]
    exact ⟨s, rfl, same.symm ▸ .refl rep⟩
  | succ count ih =>
    intro s layout rep awake
    cases first : layout (.queue (.promotionQ i)) with
    | nil =>
      obtain ⟨s', result, moved⟩ := ih s layout rep awake
      rw [first, List.take_nil, List.drop_nil] at moved
      rw [List.take_nil, List.drop_nil]
      refine ⟨s', ?_, moved⟩
      simpa [Scheduler.promote, rep.deQ_none first] using result
    | cons p xs =>
      have member : p ∈ layout (.queue (.promotionQ i)) := by rw [first]; exact List.mem_cons_self
      obtain ⟨s₁, popped, rep₁, kept₁, priority₁, _⟩ := rep.deQ first
      have off := rep.off_of_pop first
      have notYielding : s₁.nodes.status p = .yielding → s₁.nodes.priority p = level :=
        fun yielding => absurd (kept₁.status ▸ yielding) (awake p member)
      obtain ⟨s₂, pushed, rep₂, kept₂, priority₂, _⟩ :=
        rep₁.enQ off (kept₁.nodeNum ▸ rep.bounded _ p member) notYielding
      have apart : Place.queue (.promotionQ i) ≠ .queue (.runQ level) := by simp
      set layout₂ := Layout.push (Function.update layout (.queue (.promotionQ i)) xs)
        (.queue (.runQ level)) p with layout₂_eq
      have promo₂ : layout₂ (.queue (.promotionQ i)) = xs := by
        rw [layout₂_eq, Layout.push, Function.update_of_ne apart, Function.update_self]
      have moved : Moved s layout s₂ layout₂ := by
        refine ⟨rep₂, kept₁.trans kept₂, ?_, fun q => ?_, fun ranked q bound => ?_⟩
        · rw [layout₂_eq, Layout.push, Function.update_of_ne (by simp),
            Function.update_of_ne (by simp)]
        · refine placed_update_two apart (fun x => ?_) q
          rw [Function.update_of_ne apart.symm, List.mem_append, List.mem_singleton, first,
            List.mem_cons]
          tauto
        · rw [priority₂, priority₁]
          by_cases same : q = p
          · rw [same, Function.update_self]
            exact inRange
          · rw [Function.update_of_ne same]
            exact ranked q ((kept₁.trans kept₂).nodeNum ▸ bound)
      have awake₂ : ∀ q ∈ layout₂ (.queue (.promotionQ i)), s₂.nodes.status q ≠ .yielding := by
        intro q inside
        rw [(kept₁.trans kept₂).status]
        rw [promo₂] at inside
        exact awake q (by rw [first]; exact List.mem_cons_of_mem _ inside)
      obtain ⟨s', result, rest⟩ := ih s₂ layout₂ rep₂ awake₂
      have same : layout₂.deal i (fun k => if k = level then xs.take count else []) (xs.drop count)
          = layout.deal i (fun k => if k = level then (p :: xs).take (count + 1) else [])
            ((p :: xs).drop (count + 1)) := by
        funext place
        match place with
        | .join => exact moved.join
        | .queue (.runQ k) =>
          by_cases here : k = level
          · simp only [Layout.deal, here, if_true, layout₂_eq, Layout.push, Function.update_self]
            rw [Function.update_of_ne apart.symm, List.append_assoc]
            rfl
          · simp only [Layout.deal, here, if_false, layout₂_eq, Layout.push]
            rw [Function.update_of_ne (by simpa using here), Function.update_of_ne (by simp)]
        | .queue (.promotionQ j) =>
          by_cases here : j = i
          · rw [Layout.deal, Layout.deal, if_pos here, if_pos here]
            rfl
          · rw [Layout.deal, Layout.deal, if_neg here, if_neg here, layout₂_eq, Layout.push,
              Function.update_of_ne (by simp), Function.update_of_ne (by simpa using here)]
      rw [promo₂, same] at rest
      exact ⟨s', by simp [Scheduler.promote, popped, pushed, result], moved.trans rest⟩

/-- **Spreading**: the nodes of `promotionQ[i]` are dealt out to the levels, in order, when there
are a share for each and the rest for level `0`. -/
theorem spread (i arr : Nat) :
    ∀ (levels : List Nat) (s : Scheduler) (layout : Layout), (∀ k ∈ levels, k < RUN_QUEUE_SIZE) →
      Rep s layout → (∀ p ∈ layout (.queue (.promotionQ i)), s.nodes.status p ≠ .yielding) →
      (layout (.queue (.promotionQ i))).length
        = levels.length * (arr / (i + 2)) + (arr - arr / (i + 2) * (i + 1)) →
      ∃ s', Scheduler.spread i arr levels s = some s' ∧ Moved s layout s'
        (layout.deal i (dealt (arr / (i + 2)) levels (layout (.queue (.promotionQ i)))) []) := by
  intro levels
  induction levels with
  | nil =>
    intro s layout _ rep awake counted
    obtain ⟨s', result, moved⟩ :=
      promote i (show 0 < RUN_QUEUE_SIZE by decide) (arr - arr / (i + 2) * (i + 1)) s layout rep
        awake
    have all : (layout (.queue (.promotionQ i))).length = arr - arr / (i + 2) * (i + 1) := by
      simpa using counted
    rw [← all, List.take_length, List.drop_length] at moved
    exact ⟨s', result, moved⟩
  | cons level levels ih =>
    intro s layout inRange rep awake counted
    obtain ⟨s₁, result₁, moved₁⟩ :=
      promote i (inRange level List.mem_cons_self) (arr / (i + 2)) s layout rep awake
    set layout₁ := layout.deal i
      (fun k => if k = level then (layout (.queue (.promotionQ i))).take (arr / (i + 2)) else [])
      ((layout (.queue (.promotionQ i))).drop (arr / (i + 2))) with layout₁_eq
    have rest₁ : layout₁ (.queue (.promotionQ i))
        = (layout (.queue (.promotionQ i))).drop (arr / (i + 2)) := if_pos rfl
    have awake₁ : ∀ p ∈ layout₁ (.queue (.promotionQ i)), s₁.nodes.status p ≠ .yielding := by
      intro p member
      rw [moved₁.kept.status]
      rw [rest₁] at member
      exact awake p (List.mem_of_mem_drop member)
    obtain ⟨s', result, moved⟩ := ih s₁ layout₁
      (fun k member => inRange k (List.mem_cons_of_mem _ member)) moved₁.rep awake₁ (by
        rw [rest₁, List.length_drop, counted, List.length_cons, Nat.succ_mul]
        omega)
    have same : layout₁.deal i
        (dealt (arr / (i + 2)) levels (layout₁ (.queue (.promotionQ i)))) []
        = layout.deal i
          (dealt (arr / (i + 2)) (level :: levels) (layout (.queue (.promotionQ i)))) [] := by
      rw [rest₁]
      funext place
      match place with
      | .join => rfl
      | .queue (.runQ k) => exact List.append_assoc _ _ _
      | .queue (.promotionQ j) =>
        by_cases here : j = i
        · rw [Layout.deal, Layout.deal, if_pos here, if_pos here]
        · rw [Layout.deal, Layout.deal, if_neg here, if_neg here]
          exact if_neg here
    exact ⟨s', by simp [Scheduler.spread, result₁, result], moved₁.trans (same ▸ moved)⟩

/-- The first part of `maintenance`. -/
theorem collectAll (now : Int) :
    ∀ (levels : List Nat) (s : Scheduler) (layout : Layout), levels.Nodup → Rep s layout →
      (∀ i ∈ levels, layout (.queue (.promotionQ i)) = []) →
      ∃ s', Scheduler.collectAll now levels s
          = some (levels.map fun i => (layout (.queue (.runQ (i + 1)))).length, s') ∧
        Moved s layout s' (layout.collectedAll (s.ageAt now) levels) := by
  intro levels
  induction levels with
  | nil =>
    intro s layout _ rep _
    have same : layout.collectedAll (s.ageAt now) [] = layout := by
      funext place
      match place with
      | .join => rfl
      | .queue (.runQ k) => rfl
      | .queue (.promotionQ j) => rfl
    exact ⟨s, rfl, same.symm ▸ .refl rep⟩
  | cons i levels ih =>
    intro s layout nodup rep empty
    have distinct := List.nodup_cons.mp nodup
    obtain ⟨s₁, result₁, moved₁⟩ := collect now i s.nodeNum s layout 0 rep (rep.length_le _)
      (by rw [empty i List.mem_cons_self]; exact fun _ member => nomatch member)
    have others : ∀ j ∈ levels, layout.collected (s.ageAt now) i (.queue (.promotionQ j)) = [] := by
      intro j member
      rw [Layout.collected, if_neg fun same : j = i => distinct.1 (same ▸ member)]
      exact empty j (List.mem_cons_of_mem _ member)
    obtain ⟨s', result, moved⟩ := ih s₁ _ distinct.2 moved₁.rep others
    have ages : s₁.ageAt now = s.ageAt now := by
      funext p
      rw [Scheduler.ageAt, moved₁.kept.timeCreated, Scheduler.ageAt]
    rw [ages, Layout.collectedAll_cons distinct.1 (empty i List.mem_cons_self)] at moved
    have counts : (levels.map fun j =>
          (layout.collected (s.ageAt now) i (.queue (.runQ (j + 1)))).length)
        = levels.map fun j => (layout (.queue (.runQ (j + 1)))).length :=
      List.map_congr_left fun j member => by
        have different : j + 1 ≠ i + 1 := fun same => distinct.1 (Nat.succ.inj same ▸ member)
        rw [Layout.collected, if_neg different]
    rw [counts] at result
    refine ⟨s', ?_, moved₁.trans moved⟩
    simp only [Scheduler.collectAll, result₁, Option.bind_some, result, Option.map_some,
      List.map_cons, Nat.zero_add]

/-- The second part of `maintenance`. -/
theorem spreadAll :
    ∀ (pairs : List (Nat × Nat)) (s : Scheduler) (layout : Layout), (pairs.map Prod.fst).Nodup →
      (∀ pair ∈ pairs, pair.1 + 1 < RUN_QUEUE_SIZE) → Rep s layout →
      (∀ pair ∈ pairs, (layout (.queue (.promotionQ pair.1))).length = pair.2) →
      (∀ pair ∈ pairs, ∀ p ∈ layout (.queue (.promotionQ pair.1)), s.nodes.status p ≠ .yielding) →
      ∃ s', Scheduler.spreadAll pairs s = some s' ∧
        Moved s layout s' (layout.dealtAll (pairs.map Prod.fst)) := by
  intro pairs
  induction pairs with
  | nil =>
    intro s layout _ _ rep _ _
    have same : layout.dealtAll [] = layout := by
      funext place
      match place with
      | .join => rfl
      | .queue (.runQ k) => exact List.append_nil _
      | .queue (.promotionQ j) => rfl
    exact ⟨s, rfl, same.symm ▸ .refl rep⟩
  | cons pair pairs ih =>
    obtain ⟨i, arr⟩ := pair
    intro s layout nodup inRange rep counted awake
    have distinct := List.nodup_cons.mp nodup
    have own := counted (i, arr) List.mem_cons_self
    simp only at own
    have levelsInRange : ∀ k ∈ Layout.levelsDown i, k < RUN_QUEUE_SIZE := by
      intro k member
      have most := (Layout.mem_levelsDown.mp member).2
      have := inRange (i, arr) List.mem_cons_self
      simp only at this
      omega
    obtain ⟨s₁, result₁, moved₁⟩ := spread i arr (Layout.levelsDown i) s layout levelsInRange rep
      (awake (i, arr) List.mem_cons_self) (by
        have most := Layout.share_le i arr
        rw [Layout.length_levelsDown, Nat.mul_comm] at most
        rw [own, Layout.length_levelsDown, Nat.mul_comm]
        omega)
    have dealt₁ : layout.deal i (dealt (arr / (i + 2)) (Layout.levelsDown i)
        (layout (.queue (.promotionQ i)))) [] = layout.dealOut i := by
      rw [← own]
      rfl
    rw [dealt₁] at moved₁
    have others : ∀ pair ∈ pairs, layout.dealOut i (.queue (.promotionQ pair.1))
        = layout (.queue (.promotionQ pair.1)) := fun pair member =>
      if_neg fun same : pair.1 = i => distinct.1 (List.mem_map.mpr ⟨pair, member, same⟩)
    obtain ⟨s', result, moved⟩ := ih s₁ _ distinct.2
      (fun pair member => inRange pair (List.mem_cons_of_mem _ member)) moved₁.rep
      (fun pair member => by
        rw [others pair member]
        exact counted pair (List.mem_cons_of_mem _ member))
      (fun pair member p inside => by
        rw [others pair member] at inside
        rw [moved₁.kept.status]
        exact awake pair (List.mem_cons_of_mem _ member) p inside)
    rw [Layout.dealtAll_cons distinct.1] at moved
    refine ⟨s', ?_, moved₁.trans moved⟩
    unfold Layout.levelsDown at result₁
    simp only [Scheduler.spreadAll, result₁, Option.bind_some, result]

/-- **`maintenance` computes `maintained`**, when the promotion queues are empty and no node of the
run queues is yielding. -/
theorem maintenance (rep : Rep s layout) (now : Int)
    (empty : ∀ i < RUN_QUEUE_SIZE - 1, layout (.queue (.promotionQ i)) = [])
    (awake : ∀ k < RUN_QUEUE_SIZE, ∀ p ∈ layout (.queue (.runQ k)), s.nodes.status p ≠ .yielding) :
    ∃ s', s.maintenance now = some s' ∧ Moved s layout s' (maintained s now layout) := by
  obtain ⟨s₁, collected, moved₁⟩ := collectAll now (List.range (RUN_QUEUE_SIZE - 1)) s layout
    List.nodup_range rep fun i member => empty i (List.mem_range.mp member)
  have perm := fun i => insertAll_perm (s.ageAt now) (layout (.queue (.runQ (i + 1)))) []
  simp only [List.append_nil] at perm
  set pairs := (List.range (RUN_QUEUE_SIZE - 1)).map fun i =>
    (i, (layout (.queue (.runQ (i + 1)))).length) with pairs_eq
  have firsts : pairs.map Prod.fst = List.range (RUN_QUEUE_SIZE - 1) := by
    rw [pairs_eq, List.map_map]
    exact List.map_id _
  have counted : ∀ pair ∈ pairs, pair.1 < RUN_QUEUE_SIZE - 1 ∧
      (layout (.queue (.runQ (pair.1 + 1)))).length = pair.2 := by
    intro pair member
    obtain ⟨i, inside, rfl⟩ := List.mem_map.mp member
    exact ⟨List.mem_range.mp inside, rfl⟩
  have sorted : ∀ pair ∈ pairs,
      layout.collectedAll (s.ageAt now) (List.range (RUN_QUEUE_SIZE - 1))
          (.queue (.promotionQ pair.1))
        = insertAll (s.ageAt now) (layout (.queue (.runQ (pair.1 + 1)))) [] := fun pair member =>
    if_pos (List.mem_range.mpr (counted pair member).1)
  obtain ⟨s', result, moved⟩ := spreadAll pairs s₁ _ (by rw [firsts]; exact List.nodup_range)
    (fun pair member => Nat.add_lt_of_lt_sub (counted pair member).1) moved₁.rep
    (fun pair member => by
      rw [sorted pair member, (perm pair.1).length_eq]
      exact (counted pair member).2)
    (fun pair member p inside => by
      rw [sorted pair member, (perm pair.1).mem_iff] at inside
      rw [moved₁.kept.status]
      exact awake _ (Nat.add_lt_of_lt_sub (counted pair member).1) p inside)
  rw [firsts] at moved
  refine ⟨s', ?_, moved₁.trans moved⟩
  rw [pairs_eq, List.map_prod_left_eq_zip] at result
  simp only [Scheduler.maintenance, collected, Option.bind_some, result]

/-- A promotion queue that was empty is empty again. -/
theorem maintained_promotion (now : Int) {i : Nat} (empty : layout (.queue (.promotionQ i)) = []) :
    maintained s now layout (.queue (.promotionQ i)) = [] := by
  rw [maintained, Layout.dealtAll]
  split
  · rfl
  · rename_i outside
    rw [Layout.collectedAll, if_neg outside]
    exact empty

end Rep

end OS2017.Sched
