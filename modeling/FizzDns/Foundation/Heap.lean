import Mathlib.Tactic

/-!
# Cells on a heap

Pointers are allocation identities: an identity is handed out once, so a pointer to
freed memory stays dangling instead of naming a later allocation. Reading, writing
or freeing through a pointer that names no live cell has no result (`none`), and a
program that yields a result has therefore dereferenced live cells only.
-/

namespace FizzDns

/-- The identity of an allocation. -/
abbrev Addr := Nat

/-- The live cells, and the identity the next allocation gets. -/
structure Heap (ν : Type) where
  cells : Addr → Option ν
  fresh : Addr
  bounded : ∀ address, fresh ≤ address → cells address = none

namespace Heap

variable {ν : Type}

@[ext] theorem ext {left right : Heap ν} (cells : left.cells = right.cells)
    (fresh : left.fresh = right.fresh) : left = right := by
  cases left
  cases right
  cases cells
  cases fresh
  rfl

/-- No cell is live. -/
def empty : Heap ν where
  cells := fun _ => none
  fresh := 0
  bounded := fun _ _ => rfl

/-- Read through a pointer. -/
def read (heap : Heap ν) (address : Addr) : Option ν :=
  heap.cells address

/-- A live address has been handed out. -/
theorem lt_fresh {heap : Heap ν} {address : Addr} {node : ν}
    (live : heap.cells address = some node) : address < heap.fresh := by
  by_contra above
  rw [heap.bounded address (Nat.le_of_not_lt above)] at live
  cases live

/-- Replace the content of the cell at `address`, live or freed before. -/
def store (heap : Heap ν) (address : Addr) (content : Option ν)
    (below : address < heap.fresh) : Heap ν where
  cells := Function.update heap.cells address content
  fresh := heap.fresh
  bounded := by
    intro other above
    rw [Function.update_of_ne (Nat.ne_of_gt (Nat.lt_of_lt_of_le below above))]
    exact heap.bounded other above

/-- Write through a pointer. -/
def modify (heap : Heap ν) (address : Addr) (change : ν → ν) : Option (Heap ν) :=
  match live : heap.cells address with
  | none => none
  | some node => some (heap.store address (some (change node)) (lt_fresh live))

/-- Release a cell. -/
def free (heap : Heap ν) (address : Addr) : Option (Heap ν) :=
  match live : heap.cells address with
  | none => none
  | some _ => some (heap.store address none (lt_fresh live))

/-- Allocate a cell. -/
def alloc (heap : Heap ν) (node : ν) : Heap ν where
  cells := Function.update heap.cells heap.fresh (some node)
  fresh := heap.fresh + 1
  bounded := by
    intro other above
    rw [Function.update_of_ne (Nat.ne_of_gt (Nat.lt_of_succ_le above))]
    exact heap.bounded other (Nat.le_of_succ_le above)

/-- A live node can be changed. -/
theorem modify_of_live {heap : Heap ν} {address : Addr} {node : ν}
    (live : heap.cells address = some node) (change : ν → ν) :
    heap.modify address change =
      some (heap.store address (some (change node)) (lt_fresh live)) := by
  unfold modify
  split
  · next dead => rw [dead] at live; cases live
  · next other actual =>
      rw [actual] at live
      cases live
      rfl

/-- A live node can be freed. -/
theorem free_of_live {heap : Heap ν} {address : Addr} {node : ν}
    (live : heap.cells address = some node) :
    heap.free address = some (heap.store address none (lt_fresh live)) := by
  unfold free
  split
  · next dead => rw [dead] at live; cases live
  · rfl

/-- A store changes one cell. -/
@[simp] theorem store_cells (heap : Heap ν) (address : Addr) (content : Option ν)
    (below : address < heap.fresh) :
    (heap.store address content below).cells = Function.update heap.cells address content := rfl

/-- An allocation fills the fresh cell. -/
@[simp] theorem alloc_cells (heap : Heap ν) (node : ν) :
    (heap.alloc node).cells = Function.update heap.cells heap.fresh (some node) := rfl

end Heap

end FizzDns
