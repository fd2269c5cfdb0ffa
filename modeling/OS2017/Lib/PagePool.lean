/-
**First-fit heaps that grow from one pool of pages.**

Each owner has a heap of its own, which starts without a page. A request is served by first fit. Where
nothing fits, the heap is lengthened first: the rules say how many pages are asked for, and the pool
gives them if it has them. The new pages lengthen a free last block, or are a new free block behind a
taken one (`lengthened`). A request that nothing fits takes its block from there (`serve_free`,
`serve_taken`), or fails.
-/

import OS2017.Lib.FirstFit

namespace OS2017.PagePool

open OS2017.FirstFit

/-- The sizes of a header and of a page; and the pages that are asked for, for a request behind a last
block with its header at an address. -/
structure Rules where
  h : Nat
  page : Nat
  demand : Nat → Block → Nat → Option Nat

/-- What a request comes to. -/
@[ext] structure Service where
  pointer : Option Nat
  blocks : List Block
  /-- the pages it takes from the pool -/
  pages : Nat
  deriving DecidableEq

/-- The pages nobody has, and the heaps. -/
@[ext] structure Pool where
  spare : Nat
  heaps : Nat → List Block

namespace Rules

variable (r : Rules)

/-- **A heap with more pages**: its free last block is longer, or there is a new one. -/
def lengthened (pages : Nat) (blocks : List Block) : List Block :=
  if pages = 0 then blocks
  else match blocks.getLast? with
    | none => [⟨pages * r.page - r.h, true⟩]
    | some last =>
      if last.free then blocks.dropLast ++ [⟨last.size + pages * r.page, true⟩]
      else blocks ++ [⟨pages * r.page - r.h, true⟩]

/-- The pages that are asked for and that there are. -/
def granted (spare size : Nat) (blocks : List Block) : Option Nat :=
  (blocks.getLast?.bind fun last => r.demand (span r.h blocks.dropLast) last size).filter (· ≤ spare)

/-- The pages the heap gets before the request is served. -/
def pages (spare size : Nat) (blocks : List Block) : Nat :=
  if (firstFit r.h size 0 blocks).isSome then 0 else (r.granted spare size blocks).getD 0

/-- First fit in a heap that has got its pages. -/
def fit (size : Nat) (blocks : List Block) (pages : Nat) : Service :=
  match firstFit r.h size 0 blocks with
  | none => ⟨none, blocks, pages⟩
  | some (header, blocks') => ⟨some (header + r.h), blocks', pages⟩

/-- **A request in a heap with pages.** -/
def serve (spare size : Nat) (blocks : List Block) : Service :=
  r.fit size (r.lengthened (r.pages spare size blocks) blocks) (r.pages spare size blocks)

/-- The first page of a heap, if there is one. -/
def firstPages (spare : Nat) (blocks : List Block) : Nat := if blocks = [] then min 1 spare else 0

/-- **A request.** -/
def request (spare size : Nat) (blocks : List Block) : Service :=
  let first := firstPages spare blocks
  let service := r.serve (spare - first) size (r.lengthened first blocks)
  { service with pages := first + service.pages }

end Rules

/-- **An owner asks for a block.** -/
def Pool.allocate (r : Rules) (pool : Pool) (owner size : Nat) : Option Nat × Pool :=
  let service := r.request pool.spare size (pool.heaps owner)
  (service.pointer,
    ⟨pool.spare - service.pages, Function.update pool.heaps owner service.blocks⟩)

/-- An owner gives a block back. -/
def Pool.release (r : Rules) (pool : Pool) (owner ptr : Nat) : Pool :=
  ⟨pool.spare, Function.update pool.heaps owner
    ((FirstFit.release r.h (ptr - r.h) 0 (pool.heaps owner)).getD (pool.heaps owner))⟩

/-- The pages an owner has. -/
def Pool.pagesOf (r : Rules) (pool : Pool) (owner : Nat) : Nat :=
  span r.h (pool.heaps owner) / r.page

/-- An owner goes, and some of its pages are back. -/
def Pool.leave (pool : Pool) (owner given : Nat) : Pool :=
  ⟨pool.spare + given, Function.update pool.heaps owner []⟩

/-! ### First fit in a longer heap -/

/-- What does not fit in front is looked for behind. -/
theorem firstFit_append {h n a : Nat} {xs ys : List Block} (full : firstFit h n a xs = none) :
    firstFit h n a (xs ++ ys)
      = (firstFit h n (a + span h xs) ys).map fun (found, blocks) => (found, xs ++ blocks) := by
  induction xs generalizing a with
  | nil => simp [span]
  | cons b xs ih =>
    have passed := firstFit_eq_none.mp full b List.mem_cons_self
    have rest : firstFit h n (a + h + b.size) xs = none :=
      firstFit_eq_none.mpr fun c member =>
        firstFit_eq_none.mp full c (List.mem_cons_of_mem b member)
    have notExact : ¬ (b.free = true ∧ b.size = n) := fun exact => passed ⟨exact.1, Or.inl exact.2⟩
    have noRoom : ¬ (b.free = true ∧ n + h ≤ b.size) := fun room => passed ⟨room.1, Or.inr room.2⟩
    have address : a + span h (b :: xs) = a + h + b.size + span h xs := by
      simp only [span]
      omega
    rw [List.cons_append, firstFit, if_neg notExact, if_neg noRoom, ih rest, Option.map_map, address]
    rfl

/-- A free block behind a full heap is cut in two. -/
theorem firstFit_concat {h n size : Nat} {xs : List Block} (positive : 0 < h)
    (full : firstFit h n 0 xs = none) (room : n + h ≤ size) :
    firstFit h n 0 (xs ++ [⟨size, true⟩])
      = some (span h xs, xs ++ [⟨n, false⟩, ⟨size - (n + h), true⟩]) := by
  have unequal : size ≠ n := by omega
  rw [firstFit_append full, firstFit, if_neg (fun exact => unequal exact.2), if_pos ⟨rfl, room⟩,
    Option.map_some, Nat.zero_add]

namespace Rules

variable {r : Rules} {spare size n : Nat} {blocks front : List Block} {last : Block}

theorem fit_none (full : firstFit r.h size 0 blocks = none) : r.fit size blocks n = ⟨none, blocks, n⟩ := by
  rw [fit, full]

theorem fit_some {header : Nat} {blocks' : List Block}
    (found : firstFit r.h size 0 blocks = some (header, blocks')) :
    r.fit size blocks n = ⟨some (header + r.h), blocks', n⟩ := by
  rw [fit, found]

@[simp] theorem lengthened_zero : r.lengthened 0 blocks = blocks := if_pos rfl

/-- **A request that a block fits.** -/
theorem serve_found {header : Nat} {blocks' : List Block}
    (found : firstFit r.h size 0 blocks = some (header, blocks')) :
    r.serve spare size blocks = ⟨some (header + r.h), blocks', 0⟩ := by
  have none : r.pages spare size blocks = 0 := by
    rw [pages, found]
    rfl
  rw [serve, none, lengthened_zero, fit_some found]

/-- **A request that nothing fits**, for which there are no pages. -/
theorem serve_refused (full : firstFit r.h size 0 blocks = none)
    (refused : r.granted spare size blocks = none) :
    r.serve spare size blocks = ⟨none, blocks, 0⟩ := by
  have none : r.pages spare size blocks = 0 := by
    rw [pages, full, refused]
    rfl
  rw [serve, none, lengthened_zero, fit_none full]

theorem pages_of_granted (full : firstFit r.h size 0 blocks = none)
    (granted : r.granted spare size blocks = some n) : r.pages spare size blocks = n := by
  rw [pages, full, granted]
  rfl

/-- A heap full up to its last block is full in front of it. -/
theorem full_front (full : firstFit r.h size 0 (front ++ [last]) = none) :
    firstFit r.h size 0 front = none :=
  firstFit_eq_none.mpr fun b member =>
    firstFit_eq_none.mp full b (List.mem_append_left _ member)

/-- **A free last block is lengthened**, and cut in two. -/
theorem serve_free (positive : 0 < r.h) (full : firstFit r.h size 0 (front ++ [last]) = none)
    (granted : r.granted spare size (front ++ [last]) = some n) (some : 0 < n)
    (isFree : last.free = true) (room : size + r.h ≤ last.size + n * r.page) :
    r.serve spare size (front ++ [last]) = ⟨.some (span r.h front + r.h),
      front ++ [⟨size, false⟩, ⟨last.size + n * r.page - (size + r.h), true⟩], n⟩ := by
  have longer : r.lengthened n (front ++ [last]) = front ++ [⟨last.size + n * r.page, true⟩] := by
    rw [lengthened, if_neg (by omega), List.getLast?_concat, List.dropLast_concat]
    exact if_pos isFree
  rw [serve, pages_of_granted full granted, longer,
    fit_some (firstFit_concat positive (full_front full) room)]

/-- **A new last block behind a taken one**, cut in two. -/
theorem serve_taken (positive : 0 < r.h) (full : firstFit r.h size 0 (front ++ [last]) = none)
    (granted : r.granted spare size (front ++ [last]) = some n) (some : 0 < n)
    (taken : last.free = false) (room : size + 2 * r.h ≤ n * r.page) :
    r.serve spare size (front ++ [last]) = ⟨.some (span r.h (front ++ [last]) + r.h),
      front ++ [last] ++ [⟨size, false⟩, ⟨n * r.page - r.h - (size + r.h), true⟩], n⟩ := by
  have longer : r.lengthened n (front ++ [last])
      = front ++ [last] ++ [⟨n * r.page - r.h, true⟩] := by
    rw [lengthened, if_neg (by omega), List.getLast?_concat]
    exact if_neg (by rw [taken]; decide)
  have fits : size + r.h ≤ n * r.page - r.h := by omega
  rw [serve, pages_of_granted full granted, longer, fit_some (firstFit_concat positive full fits)]

/-- The pages granted, behind a last block. -/
theorem granted_concat : r.granted spare size (front ++ [last])
    = (r.demand (span r.h front) last size).filter (· ≤ spare) := by
  rw [granted, List.getLast?_concat, List.dropLast_concat, Option.bind_some]

/-- **A request in a heap that has pages.** -/
theorem request_of_ne (nonempty : blocks ≠ []) :
    r.request spare size blocks = r.serve spare size blocks := by
  have first : firstPages spare blocks = 0 := if_neg nonempty
  simp only [request, first, lengthened_zero, Nat.sub_zero, Nat.zero_add]

/-- **A request in a heap that gets its first page.** -/
theorem request_nil (some : 0 < spare) :
    r.request spare size [] =
      { r.serve (spare - 1) size [⟨1 * r.page - r.h, true⟩] with
        pages := 1 + (r.serve (spare - 1) size [⟨1 * r.page - r.h, true⟩]).pages } := by
  have first : firstPages spare [] = 1 := by
    rw [firstPages, if_pos rfl]
    omega
  simp only [request, first]
  rfl

/-- Without a page there is nothing. -/
theorem request_empty : r.request 0 size [] = ⟨none, [], 0⟩ := by
  have refused : r.granted 0 size [] = none := rfl
  have served : r.serve 0 size [] = ⟨none, [], 0⟩ := serve_refused rfl refused
  have first : firstPages 0 [] = 0 := rfl
  simp only [request, first, lengthened_zero, Nat.sub_zero, served, Nat.zero_add]

end Rules

end OS2017.PagePool
