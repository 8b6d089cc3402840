import Mathlib.Data.List.Basic
import Mathlib.Order.Lattice
import Mathlib.Order.Nat

/-! Binary heaps in a list, the largest entry first: `std::push_heap` and `std::pop_heap` followed
by `pop_back`. -/
namespace Epyx.Lib.Heap
variable {α : Type*}

/-- The entries at two places exchanged. -/
def swap (xs : List α) (i j : Nat) : List α :=
  match xs[i]?, xs[j]? with
  | some x, some y => (xs.set i y).set j x
  | _, _ => xs

/-- The entry at a place moves up while its parent is less. -/
def siftUp (less : α → α → Bool) (xs : List α) : Nat → List α
  | 0 => xs
  | i + 1 =>
    match xs[i / 2]?, xs[i + 1]? with
    | some p, some x => if less p x then siftUp less (swap xs (i / 2) (i + 1)) (i / 2) else xs
    | _, _ => xs
  termination_by i => i
  decreasing_by omega

/-- The larger child of a place. -/
def largerChild (less : α → α → Bool) (xs : List α) (i : Nat) : Option (Nat × α) :=
  match xs[2 * i + 1]?, xs[2 * i + 2]? with
  | some l, some r => if less l r then some (2 * i + 2, r) else some (2 * i + 1, l)
  | some l, none => some (2 * i + 1, l)
  | none, _ => none

/-- The entry at a place moves down while a child is larger, at most `fuel` times. -/
def siftDown (less : α → α → Bool) : Nat → List α → Nat → List α
  | 0, xs, _ => xs
  | fuel + 1, xs, i =>
    match largerChild less xs i, xs[i]? with
    | some (j, y), some x => if less x y then siftDown less fuel (swap xs i j) j else xs
    | _, _ => xs

/-- `push_back`, `push_heap` -/
def push (less : α → α → Bool) (xs : List α) (x : α) : List α :=
  siftUp less (xs ++ [x]) xs.length

/-- `pop_heap`, `pop_back`: the last entry takes the place of the first and moves down. -/
def pop (less : α → α → Bool) (xs : List α) : List α :=
  siftDown less xs.length (swap xs 0 (xs.length - 1)).dropLast 0

/-! ### The entries stay the same -/

theorem swap_eq {xs : List α} {i j : Nat} {x y : α} (hi : xs[i]? = some x) (hj : xs[j]? = some y) :
    swap xs i j = (xs.set i y).set j x := by
  unfold swap
  rw [hi, hj]

theorem swap_perm (xs : List α) (i j : Nat) : (swap xs i j).Perm xs := by
  unfold swap
  split
  · rename_i x y hx hy
    obtain ⟨hi, rfl⟩ := List.getElem?_eq_some_iff.mp hx
    obtain ⟨hj, rfl⟩ := List.getElem?_eq_some_iff.mp hy
    exact List.set_set_perm hi hj
  · exact .refl xs

theorem siftUp_perm (less : α → α → Bool) (xs : List α) (i : Nat) :
    (siftUp less xs i).Perm xs := by
  induction xs, i using siftUp.induct less with
  | case1 xs => rw [siftUp]
  | case2 xs i p x hx hp hlt ih =>
    rw [siftUp, hx, hp]
    simp only [hlt, if_true]
    exact ih.trans (swap_perm xs _ _)
  | case3 xs i p x hx hp hge =>
    rw [siftUp, hx, hp]
    simp [hge]
  | case4 xs i hnone =>
    rw [siftUp]
    split
    · rename_i p x hx hp
      exact absurd hp (hnone p x hx)
    · rfl

theorem siftDown_perm (less : α → α → Bool) (fuel : Nat) (xs : List α) (i : Nat) :
    (siftDown less fuel xs i).Perm xs := by
  induction fuel generalizing xs i with
  | zero => exact .refl xs
  | succ fuel ih =>
    rw [siftDown]
    split
    · split
      · exact (ih _ _).trans (swap_perm xs _ _)
      · exact .refl xs
    · exact .refl xs

theorem push_perm (less : α → α → Bool) (xs : List α) (x : α) :
    (push less xs x).Perm (x :: xs) :=
  (siftUp_perm less _ _).trans (List.perm_append_singleton x xs)

/-- The first entry goes. -/
theorem pop_perm (less : α → α → Bool) (x : α) (xs : List α) : (pop less (x :: xs)).Perm xs := by
  refine (siftDown_perm less _ _ _).trans ?_
  rcases List.eq_nil_or_concat xs with rfl | ⟨ys, y, rfl⟩
  · rfl
  · have hlast : (x :: (ys ++ [y]))[ys.length + 1]? = some y := by simp
    have hswap : swap (x :: (ys ++ [y])) 0 (ys.length + 1) = y :: (ys ++ [x]) := by
      rw [swap_eq rfl hlast]
      simp
    have hlen : (x :: (ys ++ [y])).length - 1 = ys.length + 1 := by simp
    rw [List.concat_eq_append, hlen, hswap, ← List.cons_append, List.dropLast_concat]
    exact (List.perm_append_singleton y ys).symm

/-! ### The largest entry comes first -/

theorem getElem?_swap {xs : List α} {i j : Nat} {x y : α} (hi : xs[i]? = some x)
    (hj : xs[j]? = some y) (k : Nat) :
    (swap xs i j)[k]? = if k = j then some x else if k = i then some y else xs[k]? := by
  obtain ⟨hlt, -⟩ := List.getElem?_eq_some_iff.mp hi
  obtain ⟨hlt', -⟩ := List.getElem?_eq_some_iff.mp hj
  rw [swap_eq hi hj, List.getElem?_set, List.getElem?_set, List.length_set]
  by_cases hkj : k = j
  · rw [if_pos hkj.symm, if_pos hlt', if_pos hkj]
  · rw [if_neg (Ne.symm hkj), if_neg hkj]
    by_cases hki : k = i
    · rw [if_pos hki.symm, if_pos hlt, if_pos hki]
    · rw [if_neg (Ne.symm hki), if_neg hki]

section Order
variable {β : Type*} [LinearOrder β] {key : α → β} {less : α → α → Bool} {xs : List α}

/-- The comparison orders the entries by their keys; it may go either way for equal ones. -/
structure Compares (key : α → β) (less : α → α → Bool) : Prop where
  le : ∀ {a b}, less a b = true → key a ≤ key b
  ge : ∀ {a b}, ¬less a b = true → key b ≤ key a

theorem Compares.of_lt (h : ∀ a b, less a b = true ↔ key a < key b) : Compares key less :=
  ⟨fun hlt => le_of_lt ((h _ _).mp hlt), fun hge => le_of_not_gt fun hlt => hge ((h _ _).mpr hlt)⟩

variable (hless : Compares key less)

/-- The entry at a place is not above its parent. -/
def Edge (key : α → β) (xs : List α) (k : Nat) : Prop :=
  0 < k → ∀ x p, xs[k]? = some x → xs[(k - 1) / 2]? = some p → key x ≤ key p

def Ordered (key : α → β) (xs : List α) : Prop := ∀ k, Edge key xs k

/-- Only the entry at `i` may be above its parent. -/
structure UpReady (key : α → β) (xs : List α) (i : Nat) : Prop where
  except : ∀ k, k ≠ i → Edge key xs k
  across : 0 < i → ∀ k, 0 < k → (k - 1) / 2 = i → ∀ x p, xs[k]? = some x →
    xs[(i - 1) / 2]? = some p → key x ≤ key p

/-- Only the children of the entry at `i` may be above it. -/
structure DownReady (key : α → β) (xs : List α) (i : Nat) : Prop where
  except : ∀ k, (k - 1) / 2 ≠ i → Edge key xs k
  across : 0 < i → ∀ k, 0 < k → (k - 1) / 2 = i → ∀ x p, xs[k]? = some x →
    xs[(i - 1) / 2]? = some p → key x ≤ key p

/-- All entries are below the first one. -/
theorem Ordered.le_head {x : α} (h : Ordered key (x :: xs)) : ∀ y ∈ x :: xs, key y ≤ key x := by
  intro y hy
  obtain ⟨k, hk⟩ := List.mem_iff_getElem?.mp hy
  induction k using Nat.strongRecOn generalizing y with
  | ind k ih =>
    by_cases h0 : k = 0
    · subst h0
      cases hk
      exact le_rfl
    · have hlt : (k - 1) / 2 < k := by omega
      obtain ⟨hlen, -⟩ := List.getElem?_eq_some_iff.mp hk
      have hp := List.getElem?_eq_getElem (hlt.trans hlen)
      exact (h k (Nat.pos_of_ne_zero h0) _ _ hk hp).trans (ih _ hlt _ (List.getElem_mem _) hp)

theorem UpReady.swap {i : Nat} {p x : α} (h : UpReady key xs (i + 1)) (hp : xs[i / 2]? = some p)
    (hx : xs[i + 1]? = some x) (hlt : key p ≤ key x) :
    UpReady key (Heap.swap xs (i / 2) (i + 1)) (i / 2) := by
  have hne : i / 2 ≠ i + 1 := by omega
  have hget := getElem?_swap hp hx
  refine ⟨fun k hk h0 y q hy hq => ?_, fun h0 k hk0 hki y q hy hq => ?_⟩
  · rw [hget] at hy hq
    rw [if_neg hk] at hy
    by_cases hki : k = i + 1
    · -- the parent that has come down
      rw [if_pos hki] at hy
      rw [show (k - 1) / 2 = i / 2 by omega, if_neg hne, if_pos rfl] at hq
      cases hy
      cases hq
      exact hlt
    · rw [if_neg hki] at hy
      by_cases hchild : (k - 1) / 2 = i + 1
      · rw [if_pos hchild] at hq
        cases hq
        exact h.across (Nat.succ_pos i) k h0 hchild y p hy (by rwa [Nat.add_sub_cancel])
      · rw [if_neg hchild] at hq
        by_cases hsibling : (k - 1) / 2 = i / 2
        · rw [if_pos hsibling] at hq
          cases hq
          exact (h.except k hki h0 y p hy (by rwa [hsibling])).trans hlt
        · rw [if_neg hsibling] at hq
          exact h.except k hki h0 y q hy hq
  · rw [hget] at hy hq
    rw [if_neg (by omega : (i / 2 - 1) / 2 ≠ i + 1), if_neg (by omega)] at hq
    have hpq : key p ≤ key q := h.except (i / 2) hne h0 p q hp hq
    by_cases hk : k = i + 1
    · rw [if_pos hk] at hy
      cases hy
      exact hpq
    · rw [if_neg hk, if_neg (by omega : k ≠ i / 2)] at hy
      exact (h.except k hk hk0 y p hy (by rwa [hki])).trans hpq

include hless in
theorem siftUp_ordered {i : Nat} (h : UpReady key xs i) : Ordered key (siftUp less xs i) := by
  induction xs, i using siftUp.induct less with
  | case1 xs =>
    rw [siftUp]
    intro k h0
    exact h.except k (Nat.ne_of_gt h0) h0
  | case2 xs i p x hx hp hlt ih =>
    rw [siftUp, hx, hp]
    simp only [hlt, if_true]
    exact ih (h.swap hp hx (hless.le hlt))
  | case3 xs i p x hx hp hge =>
    rw [siftUp, hx, hp]
    simp only [hge, Bool.false_eq_true, if_false]
    intro k
    by_cases hk : k = i + 1
    · subst hk
      intro _ y q hy hq
      rw [hx] at hy
      rw [Nat.add_sub_cancel, hp] at hq
      cases hy
      cases hq
      exact hless.ge hge
    · exact h.except k hk
  | case4 xs i hnone =>
    rw [siftUp]
    split
    · rename_i p x hx hp
      exact absurd hp (hnone p x hx)
    · intro k
      by_cases hk : k = i + 1
      · subst hk
        intro _ y q hy hq
        exact absurd hy (hnone q y (by rwa [Nat.add_sub_cancel] at hq))
      · exact h.except k hk

include hless in
theorem push_ordered (h : Ordered key xs) (x : α) : Ordered key (push less xs x) := by
  refine siftUp_ordered hless ⟨fun k hk h0 y p hy hp => ?_, fun _ k h0 hki y p hy _ => ?_⟩
  · have hlt : k < xs.length := by
      obtain ⟨hlt, -⟩ := List.getElem?_eq_some_iff.mp hy
      rw [List.length_append, List.length_singleton] at hlt
      omega
    rw [List.getElem?_append_left hlt] at hy
    rw [List.getElem?_append_left (by omega)] at hp
    exact h k h0 y p hy hp
  · obtain ⟨hlt, -⟩ := List.getElem?_eq_some_iff.mp hy
    rw [List.length_append, List.length_singleton] at hlt
    omega

/-- The larger child is not below the other one. -/
theorem largerChild_some {i j : Nat} {y : α} (h : largerChild less xs i = some (j, y)) :
    (j = 2 * i + 1 ∨ j = 2 * i + 2) ∧ xs[j]? = some y := by
  unfold largerChild at h
  split at h
  · rename_i l r hl hr
    split at h
    · cases h
      exact ⟨.inr rfl, hr⟩
    · cases h
      exact ⟨.inl rfl, hl⟩
  · rename_i l hl hr
    cases h
    exact ⟨.inl rfl, hl⟩
  · cases h

include hless in
theorem le_largerChild {i j k : Nat} {y z : α} (h : largerChild less xs i = some (j, y))
    (h0 : 0 < k) (hk : (k - 1) / 2 = i) (hz : xs[k]? = some z) : key z ≤ key y := by
  have hcases : k = 2 * i + 1 ∨ k = 2 * i + 2 := by omega
  unfold largerChild at h
  split at h
  · rename_i l r hl hr
    split at h
    · rename_i hlr
      cases h
      rcases hcases with rfl | rfl
      · rw [hl] at hz
        cases hz
        exact hless.le hlr
      · rw [hr] at hz
        cases hz
        exact le_rfl
    · rename_i hlr
      cases h
      rcases hcases with rfl | rfl
      · rw [hl] at hz
        cases hz
        exact le_rfl
      · rw [hr] at hz
        cases hz
        exact hless.ge hlr
  · rename_i l hl hr
    cases h
    rcases hcases with rfl | rfl
    · rw [hl] at hz
      cases hz
      exact le_rfl
    · rw [hr] at hz
      cases hz
  · cases h

theorem largerChild_none {i k : Nat} (h : largerChild less xs i = none) (h0 : 0 < k)
    (hk : (k - 1) / 2 = i) : xs[k]? = none := by
  have hl : xs[2 * i + 1]? = none := by
    unfold largerChild at h
    split at h
    · split at h <;> cases h
    · cases h
    · rename_i hl
      exact hl
  rw [List.getElem?_eq_none_iff] at hl ⊢
  omega

/-- Nothing is out of order where no child is above the entry. -/
theorem DownReady.ordered {i : Nat} (h : DownReady key xs i)
    (hi : ∀ k, (k - 1) / 2 = i → Edge key xs k) : Ordered key xs := fun k => by
  by_cases hk : (k - 1) / 2 = i
  · exact hi k hk
  · exact h.except k hk

theorem DownReady.swap {i j : Nat} {x y : α} (h : DownReady key xs i) (hx : xs[i]? = some x)
    (hj : j = 2 * i + 1 ∨ j = 2 * i + 2) (hy : xs[j]? = some y) (hlt : key x ≤ key y)
    (hmax : ∀ k, 0 < k → (k - 1) / 2 = i → ∀ z, xs[k]? = some z → key z ≤ key y) :
    DownReady key (Heap.swap xs i j) j := by
  have hget := getElem?_swap hx hy
  refine ⟨fun k hk h0 z q hz hq => ?_, fun _ k h0 hkj z q hz hq => ?_⟩
  · rw [hget] at hz hq
    rw [if_neg hk] at hq
    by_cases hkj : k = j
    · -- the entry that has gone down
      rw [if_pos hkj] at hz
      rw [if_pos (by omega)] at hq
      cases hz
      cases hq
      exact hlt
    · rw [if_neg hkj] at hz
      by_cases hki : k = i
      · rw [if_pos hki] at hz
        rw [if_neg (by omega)] at hq
        cases hz
        exact h.across (by omega) j (by omega) (by omega) y q hy (by rwa [← hki])
      · rw [if_neg hki] at hz
        by_cases hsibling : (k - 1) / 2 = i
        · rw [if_pos hsibling] at hq
          cases hq
          exact hmax k h0 hsibling z hz
        · rw [if_neg hsibling] at hq
          exact h.except k hsibling h0 z q hz hq
  · rw [hget] at hz hq
    rw [if_neg (by omega), if_neg (by omega)] at hz
    rw [if_neg (by omega), if_pos (by omega)] at hq
    cases hq
    exact h.except k (by omega) h0 z y hz (by rwa [hkj])

include hless in
theorem siftDown_ordered {fuel i : Nat} (hfuel : xs.length ≤ i + fuel) (h : DownReady key xs i) :
    Ordered key (siftDown less fuel xs i) := by
  induction fuel generalizing xs i with
  | zero =>
    refine h.ordered fun k hk _ z p _ hp => ?_
    obtain ⟨hlt, -⟩ := List.getElem?_eq_some_iff.mp hp
    omega
  | succ fuel ih =>
    rw [siftDown]
    split
    · rename_i j y x hchild hx
      obtain ⟨hj, hy⟩ := largerChild_some hchild
      have hmax := fun k h0 hk z hz => le_largerChild hless (k := k) (z := z) hchild h0 hk hz
      split
      · rename_i hlt
        refine ih ?_ (h.swap hx hj hy (hless.le hlt) hmax)
        rw [(swap_perm xs i j).length_eq]
        omega
      · rename_i hge
        refine h.ordered fun k hk h0 z p hz hp => (hmax k h0 hk z hz).trans ?_
        rw [hk, hx] at hp
        cases hp
        exact hless.ge hge
    · rename_i hnone
      refine h.ordered fun k hk h0 z p hz hp => ?_
      rw [hk] at hp
      cases hchild : largerChild less xs i with
      | none =>
        rw [largerChild_none hchild h0 hk] at hz
        cases hz
      | some c => exact absurd hp (hnone c.1 c.2 p hchild)

include hless in
theorem pop_ordered (h : Ordered key xs) : Ordered key (pop less xs) := by
  have hget : ∀ k z, (swap xs 0 (xs.length - 1)).dropLast[k]? = some z → 0 < k →
      xs[k]? = some z := by
    intro k z hz h0
    rw [List.dropLast_eq_take, List.getElem?_take, (swap_perm xs _ _).length_eq] at hz
    split at hz
    · rename_i hlt
      have hfirst := List.getElem?_eq_getElem (show 0 < xs.length by omega)
      have hlast := List.getElem?_eq_getElem (show xs.length - 1 < xs.length by omega)
      rwa [getElem?_swap hfirst hlast, if_neg (by omega), if_neg (by omega)] at hz
    · cases hz
  refine siftDown_ordered hless ?_ ⟨fun k hk h0 z p hz hp => ?_, fun h0 => absurd h0 (by omega)⟩
  · rw [List.length_dropLast, (swap_perm xs _ _).length_eq]
    omega
  · exact h k h0 z p (hget k z hz h0) (hget _ p hp (Nat.pos_of_ne_zero hk))

end Order
end Epyx.Lib.Heap
