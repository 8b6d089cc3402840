import Epyx.Lib.Heap
import Mathlib.Order.OrderDual

/-! Priority queues with the entry of least key on top, by what is promised of them:
`std::priority_queue` with whatever order it keeps its entries in. -/
namespace Epyx.Lib

/-- A priority queue for entries with a key: it holds what was pushed and not popped, and an entry
of least key is on top. -/
structure PriorityQueue (α : Type*) {β : Type*} [LinearOrder β] (key : α → β) where
  Heap : Type*
  entries : Heap → List α
  empty : Heap
  push : Heap → α → Heap
  top : Heap → Option α
  pop : Heap → Heap
  entries_empty : entries empty = []
  entries_push (q : Heap) (x : α) : (entries (push q x)).Perm (x :: entries q)
  entries_of_top {q : Heap} : top q = none → entries q = []
  entries_pop {q : Heap} {x : α} : top q = some x → (entries q).Perm (x :: entries (pop q))
  top_le {q : Heap} {x : α} : top q = some x → ∀ y ∈ entries q, key x ≤ key y

namespace PriorityQueue
variable {α β : Type*} [LinearOrder β] {key : α → β}

theorem top_mem (Q : PriorityQueue α key) {q : Q.Heap} {x : α} (h : Q.top q = some x) :
    x ∈ Q.entries q := (Q.entries_pop h).symm.subset (List.mem_cons_self ..)

theorem mem_of_pop (Q : PriorityQueue α key) {q : Q.Heap} {x y : α} (h : Q.top q = some x)
    (hy : y ∈ Q.entries (Q.pop q)) : y ∈ Q.entries q :=
  (Q.entries_pop h).symm.subset (List.mem_cons_of_mem _ hy)

/-- A binary heap, whose comparison says which of two entries has the greater key. -/
def ofHeap (less : α → α → Bool) (hless : Heap.Compares (fun x => OrderDual.toDual (key x)) less) :
    PriorityQueue α key where
  Heap := { xs : List α // Heap.Ordered (fun x => OrderDual.toDual (key x)) xs }
  entries q := q.1
  empty := ⟨[], by simp [Heap.Ordered, Heap.Edge]⟩
  push q x := ⟨Heap.push less q.1 x, Heap.push_ordered hless q.2 x⟩
  top q := q.1.head?
  pop q := ⟨Heap.pop less q.1, Heap.pop_ordered hless q.2⟩
  entries_empty := rfl
  entries_push q x := Heap.push_perm less q.1 x
  entries_of_top h := List.head?_eq_none_iff.mp h
  entries_pop {q x} h := by
    obtain ⟨xs, hxs⟩ := q
    obtain ⟨rest, rfl⟩ := List.head?_eq_some_iff.mp h
    exact (Heap.pop_perm less x rest).symm.cons x
  top_le {q x} h y hy := by
    obtain ⟨xs, hxs⟩ := q
    obtain ⟨rest, rfl⟩ := List.head?_eq_some_iff.mp h
    exact hxs.le_head y hy

end PriorityQueue
end Epyx.Lib
