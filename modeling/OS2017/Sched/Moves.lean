/-
**The loops of the scheduler on layouts.**

`getNextNode` and the wake-up loop of an exiting thread, each as what it does to a layout. `Woken`
is what the wake-up loop does: no node is lost, only join list nodes move, and nobody that waits for
the exiting thread is left on the join list.
-/

import OS2017.Sched.Maintenance

namespace OS2017.Sched

open OS2017.Intrusive

/-! ### `getNextNode` -/

namespace Rep

variable {s : Scheduler} {layout : Layout}

theorem getNextNodeFrom (rep : Rep s layout) :
    ∀ levels : List Nat,
      ((∀ k ∈ levels, layout (.queue (.runQ k)) = []) ∧ s.getNextNodeFrom levels = none) ∨
      ∃ k ∈ levels, ∃ p xs s', layout (.queue (.runQ k)) = p :: xs ∧
        s.getNextNodeFrom levels = some (p, s') ∧
        Rep s' (Function.update layout (.queue (.runQ k)) xs) ∧ Kept s s' ∧
        s'.nodes.priority = s.nodes.priority := by
  intro levels
  induction levels with
  | nil => exact Or.inl ⟨by simp, rfl⟩
  | cons k levels ih =>
    cases here : layout (.queue (.runQ k)) with
    | nil =>
      have nothing := rep.deQ_none here
      rcases ih with ⟨empty, result⟩ | ⟨j, member, p, xs, s', first, result, after⟩
      · refine Or.inl ⟨?_, by simpa [Scheduler.getNextNodeFrom, nothing] using result⟩
        intro j member
        rcases List.mem_cons.mp member with rfl | member
        · exact here
        · exact empty j member
      · exact Or.inr ⟨j, List.mem_cons_of_mem _ member, p, xs, s', first,
          by simpa [Scheduler.getNextNodeFrom, nothing] using result, after⟩
    | cons p xs =>
      obtain ⟨s', result, after, kept, priority, _⟩ := rep.deQ here
      exact Or.inr ⟨k, List.mem_cons_self, p, xs, s', here,
        by simp [Scheduler.getNextNodeFrom, result], after, kept, priority⟩

/-- **`getNextNode`** pops the first node of the first run queue that has one. -/
theorem getNextNode (rep : Rep s layout) :
    ((∀ k < RUN_QUEUE_SIZE, layout (.queue (.runQ k)) = []) ∧ s.getNextNode = none) ∨
    ∃ k < RUN_QUEUE_SIZE, ∃ p xs s', layout (.queue (.runQ k)) = p :: xs ∧
      s.getNextNode = some (p, s') ∧ Rep s' (Function.update layout (.queue (.runQ k)) xs) ∧
      Kept s s' ∧ s'.nodes.priority = s.nodes.priority := by
  rcases rep.getNextNodeFrom (List.range RUN_QUEUE_SIZE) with ⟨empty, result⟩ | ⟨k, member, found⟩
  · exact Or.inl ⟨fun k bound => empty k (List.mem_range.mpr bound), result⟩
  · exact Or.inr ⟨k, List.mem_range.mp member, found⟩

end Rep

/-! ### The wake-up loop -/

/-- The node waits for the thread with the id. -/
def Waits (s : Scheduler) (id : Nat) (p : NodePtr) : Prop :=
  ∃ joinee, s.nodes.joinee p = some joinee ∧ s.threads.id joinee = id

theorem Kept.waits {s s' : Scheduler} (kept : Kept s s') (id : Nat) (p : NodePtr) :
    Waits s' id p ↔ Waits s id p := by
  unfold Waits
  rw [kept.joinee, kept.threads]

/-- **What the wake-up loop of the exiting thread `id` does.** -/
structure Woken (s : Scheduler) (id : Nat) (layout : Layout) (s' : Scheduler) (layout' : Layout) :
    Prop where
  rep : Rep s' layout'
  kept : Kept s s'
  priority : s'.nodes.priority = s.nodes.priority
  placed : ∀ p, layout'.Placed p ↔ layout.Placed p
  join : ∀ p ∈ layout' .join, p ∈ layout .join
  left : ∀ p ∈ layout' .join, ¬ Waits s id p
  woke : ∀ p ∈ layout .join, p ∉ layout' .join →
    ∃ q ∈ layout .join, s.idOf q = s.idOf p ∧ Waits s id q
  queued : ∀ slot, ∀ p ∈ layout' (.queue slot), p ∈ layout (.queue slot) ∨ p ∈ layout .join
  promotion : ∀ i, layout' (.queue (.promotionQ i)) = layout (.queue (.promotionQ i))
  grows : ∀ slot, ∀ p ∈ layout (.queue slot), p ∈ layout' (.queue slot)

/-- One wake-up in front of the rest of the loop. -/
theorem Woken.trans {s s₁ s' : Scheduler} {id : Nat} {layout layout₁ layout' : Layout}
    (kept : Kept s s₁) (priority : s₁.nodes.priority = s.nodes.priority)
    (placed : ∀ p, layout₁.Placed p ↔ layout.Placed p)
    (join : ∀ p ∈ layout₁ .join, p ∈ layout .join)
    (woke : ∀ p ∈ layout .join, p ∉ layout₁ .join →
      ∃ q ∈ layout .join, s.idOf q = s.idOf p ∧ Waits s id q)
    (queued : ∀ slot, ∀ p ∈ layout₁ (.queue slot), p ∈ layout (.queue slot) ∨ p ∈ layout .join)
    (promotion : ∀ i, layout₁ (.queue (.promotionQ i)) = layout (.queue (.promotionQ i)))
    (grows : ∀ slot, ∀ p ∈ layout (.queue slot), p ∈ layout₁ (.queue slot))
    (rest : Woken s₁ id layout₁ s' layout') : Woken s id layout s' layout' where
  rep := rest.rep
  kept := kept.trans rest.kept
  priority := rest.priority.trans priority
  placed p := (rest.placed p).trans (placed p)
  join p member := join p (rest.join p member)
  left p member waits := rest.left p member ((kept.waits id p).mpr waits)
  woke p member gone := by
    by_cases still : p ∈ layout₁ .join
    · obtain ⟨q, inside, same, waits⟩ := rest.woke p still gone
      rw [kept.idOf, kept.idOf] at same
      exact ⟨q, join q inside, same, (kept.waits id q).mp waits⟩
    · exact woke p member still
  queued slot p member := (rest.queued slot p member).elim (queued slot p) fun inside =>
    Or.inr (join p inside)
  promotion i := (rest.promotion i).trans (promotion i)
  grows slot p member := rest.grows slot p (grows slot p member)

/-- **One wake-up**: a join list node of a thread with the id goes behind the run queue of its own
priority. -/
theorem Rep.wakeOne {s : Scheduler} {layout : Layout} (rep : Rep s layout) {id : Nat}
    (found : ∃ p ∈ layout .join, s.idOf p = id) :
    ∃ p s₁ s₂, s.removeFromList id = some (some p, s₁) ∧
      s₁.enQ (.runQ (s₁.nodes.priority p)) p = some s₂ ∧ p ∈ layout .join ∧ s.idOf p = id ∧
      Rep s₂ (Layout.push (Function.update layout .join ((layout .join).erase p))
        (.queue (.runQ (s.nodes.priority p))) p) ∧
      Kept s s₂ ∧ s₂.nodes.priority = s.nodes.priority := by
  obtain ⟨p, s₁, removed, inside, sameId, rep₁, kept₁, priority₁⟩ := rep.removeFromList found
  have off : Layout.Off (Function.update layout .join ((layout .join).erase p)) p := by
    intro other
    by_cases same : other = .join
    · rw [same, Function.update_self]
      exact (rep.nodup .join).not_mem_erase
    · rw [Function.update_of_ne same]
      exact rep.not_mem inside same
  obtain ⟨s₂, pushed, rep₂, kept₂, priority₂, _⟩ := rep₁.enQ (k := s₁.nodes.priority p) off
    (kept₁.nodeNum ▸ rep.bounded _ p inside) fun _ => rfl
  refine ⟨p, s₁, s₂, removed, pushed, inside, sameId, priority₁ ▸ rep₂, kept₁.trans kept₂, ?_⟩
  rw [priority₂, Function.update_eq_self, priority₁]

/-- **The loop from the node after `front` on**, when nobody in `front` waits. The measure is the
rest of the list, and the whole list for each restart still possible. -/
theorem Rep.wakeLoop (id : Nat) :
    ∀ (fuel : Nat) (s : Scheduler) (layout : Layout) (front rest : List NodePtr)
      (jptr : Option NodePtr), Rep s layout → layout .join = front ++ rest →
      Linked s.nodes.next jptr rest → (∀ p ∈ front, ¬ Waits s id p) →
      (∀ p ∈ layout .join, s.nodes.joinee p ≠ none ∧ s.nodes.status p ≠ .yielding) →
      rest.length + (layout .join).length * (s.nodeNum + 1) ≤ fuel →
      ∃ s' layout', Scheduler.wakeLoop id fuel s jptr = some s' ∧
        Woken s id layout s' layout' := by
  intro fuel
  induction fuel with
  | zero =>
    intro s layout front rest jptr rep split linked passed _ enough
    have empty : rest = [] := List.length_eq_zero_iff.mp (by omega)
    subst empty
    have ended : jptr = none := linked
    subst ended
    rw [List.append_nil] at split
    exact ⟨s, layout, rfl, rep, .refl s, rfl, fun _ => Iff.rfl, fun _ member => member,
      fun p member => passed p (split ▸ member), fun _ member gone => absurd member gone,
      fun _ _ member => Or.inl member, fun _ => rfl, fun _ _ member => member⟩
  | succ fuel ih =>
    intro s layout front rest jptr rep split linked passed waiting enough
    cases rest with
    | nil =>
      have ended : jptr = none := linked
      subst ended
      rw [List.append_nil] at split
      exact ⟨s, layout, rfl, rep, .refl s, rfl, fun _ => Iff.rfl, fun _ member => member,
        fun p member => passed p (split ▸ member), fun _ member gone => absurd member gone,
        fun _ _ member => Or.inl member, fun _ => rfl, fun _ _ member => member⟩
    | cons y ys =>
      obtain ⟨rfl, linked⟩ := linked
      have member : y ∈ layout .join := by rw [split]; simp
      obtain ⟨joinee, joinee_eq⟩ := Option.ne_none_iff_exists'.mp (waiting y member).1
      by_cases here : s.threads.id joinee = id
      · -- `y` waits: a node of its thread is moved, and the loop starts again
        obtain ⟨p, s₁, s₂, removed, pushed, inside, sameId, rep₂, kept, priority⟩ :=
          rep.wakeOne ⟨y, member, rfl⟩
        set layout₂ := Layout.push (Function.update layout .join ((layout .join).erase p))
          (.queue (.runQ (s.nodes.priority p))) p with layout₂_eq
        have join₂ : layout₂ .join = (layout .join).erase p := by
          rw [layout₂_eq, Layout.push, Function.update_of_ne (by simp), Function.update_self]
        have queue₂ : ∀ slot q, q ∈ layout₂ (.queue slot) ↔
            q ∈ layout (.queue slot) ∨ (q = p ∧ slot = .runQ (s.nodes.priority p)) := by
          intro slot q
          rw [layout₂_eq, Layout.mem_push, Function.update_of_ne (by simp)]
          simp
        have shorter : ((layout .join).erase p).length + 1 = (layout .join).length := by
          rw [List.length_erase_of_mem inside]
          have := List.length_pos_of_mem inside
          omega
        obtain ⟨s', layout', result, woken⟩ := ih s₂ layout₂ [] (layout₂ .join) s₂.joinList rep₂ rfl
          rep₂.joined (by simp) (fun q still => by
            rw [kept.joinee, kept.status]
            rw [join₂] at still
            exact waiting q (List.mem_of_mem_erase still)) (by
            have room := rep.length_le .join
            rw [join₂, kept.nodeNum]
            rw [← shorter, Nat.add_mul] at enough
            simp only [List.length_cons] at enough
            omega)
        refine ⟨s', layout', ?_, Woken.trans kept priority (fun q => ?_) (fun q still => ?_)
          (fun q before gone => ?_) (fun slot q queued => ?_) (fun i => ?_)
          (fun slot q queued => ?_) woken⟩
        · simp only [Scheduler.wakeLoop, joinee_eq, Option.bind_some, here, if_true, removed, pushed]
          exact result
        · rw [layout₂_eq, Layout.placed_push]
          constructor
          · rintro (⟨place, placed⟩ | rfl)
            · by_cases same : place = .join
              · rw [same, Function.update_self] at placed
                exact ⟨.join, List.mem_of_mem_erase placed⟩
              · rw [Function.update_of_ne same] at placed
                exact ⟨place, placed⟩
            · exact ⟨.join, inside⟩
          · rintro ⟨place, placed⟩
            by_cases moved : q = p
            · exact Or.inr moved
            · refine Or.inl ⟨place, ?_⟩
              by_cases same : place = .join
              · rw [same, Function.update_self]
                exact (List.mem_erase_of_ne moved).mpr (same ▸ placed)
              · rw [Function.update_of_ne same]
                exact placed
        · rw [join₂] at still
          exact List.mem_of_mem_erase still
        · have only : q = p := by
            by_contra other
            rw [join₂] at gone
            exact gone ((List.mem_erase_of_ne other).mpr before)
          exact ⟨y, member, by rw [only, sameId], joinee, joinee_eq, here⟩
        · rcases (queue₂ slot q).mp queued with before | ⟨rfl, _⟩
          · exact Or.inl before
          · exact Or.inr inside
        · rw [layout₂_eq, Layout.push, Function.update_of_ne (by simp),
            Function.update_of_ne (by simp)]
        · exact (queue₂ slot q).mpr (Or.inl queued)
      · have moved : layout .join = (front ++ [y]) ++ ys := by rw [split]; simp
        obtain ⟨s', layout', result, woken⟩ := ih s layout (front ++ [y]) ys (s.nodes.next y) rep
          moved linked (fun p inside => by
            rcases List.mem_append.mp inside with before | single
            · exact passed p before
            · rw [List.mem_singleton.mp single]
              rintro ⟨other, other_eq, same⟩
              rw [joinee_eq] at other_eq
              cases other_eq
              exact here same) waiting (by simp only [List.length_cons] at enough; omega)
        refine ⟨s', layout', ?_, woken⟩
        simp only [Scheduler.wakeLoop, joinee_eq, Option.bind_some, here, if_false]
        exact result

end OS2017.Sched
