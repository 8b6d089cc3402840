import Mathlib.Data.List.Induction
import Mathlib.Logic.Function.Basic
import Mathlib.Order.Basic
import Mathlib.Order.Nat

/-! Ordered maps as the list of their entries. -/
namespace Epyx.Lib.TreeMap
open Std
variable {α β : Type*} [Ord α] [TransOrd α] [LawfulEqOrd α] [DecidableEq α]

/-- Inserting the entries of a map into the empty map, in their order, gives the map back. -/
theorem foldl_insert_toList (t : ExtTreeMap α β) :
    t.toList.foldl (fun m p => m.insert p.1 p.2) ∅ = t := by
  rw [← ExtTreeMap.ofList_eq_foldl]
  apply ExtTreeMap.ext_getElem?
  intro k
  cases h : t[k]? with
  | some v =>
    exact ExtTreeMap.getElem?_ofList_of_mem compare_self ExtTreeMap.distinct_keys_toList
      (ExtTreeMap.mem_toList_iff_getElem?_eq_some.mpr h)
  | none =>
    have hk : k ∉ t := by simpa using h
    refine ExtTreeMap.getElem?_ofList_of_contains_eq_false ?_
    simpa [ExtTreeMap.map_fst_toList_eq_keys] using hk

omit [DecidableEq α] in
/-- What holds of the entries of a map and of one more holds of all entries once it is inserted. -/
theorem forall_toList_insert {t : ExtTreeMap α β} {k : α} {v : β} {P : α × β → Prop}
    (hkv : P (k, v)) (ht : ∀ x ∈ t.toList, P x) : ∀ x ∈ (t.insert k v).toList, P x := by
  intro x hx
  rw [ExtTreeMap.mem_toList_iff_getElem?_eq_some, ExtTreeMap.getElem?_insert] at hx
  split at hx
  · rename_i hk
    obtain rfl : k = x.1 := LawfulEqOrd.eq_of_compare hk
    cases hx
    exact hkv
  · exact ht x (ExtTreeMap.mem_toList_iff_getElem?_eq_some.mpr hx)

omit [DecidableEq α] in
/-- What is found in a map after an insertion was inserted, or was there. -/
theorem of_getElem?_insert {t : ExtTreeMap α β} {k a : α} {v w : β}
    (h : (t.insert k v)[a]? = some w) : (k = a ∧ v = w) ∨ (k ≠ a ∧ t[a]? = some w) := by
  rw [ExtTreeMap.getElem?_insert] at h
  split at h
  · rename_i hk
    exact .inl ⟨LawfulEqOrd.eq_of_compare hk, Option.some.inj h⟩
  · rename_i hk
    exact .inr ⟨fun he => hk (he ▸ compare_self), h⟩

omit [DecidableEq α] in
theorem of_getElem?_erase {t : ExtTreeMap α β} {k a : α} {w : β}
    (h : (t.erase k)[a]? = some w) : k ≠ a ∧ t[a]? = some w := by
  rw [ExtTreeMap.getElem?_erase] at h
  split at h
  · cases h
  · rename_i hk
    exact ⟨fun he => hk (he ▸ compare_self), h⟩

/-- A map as the function it is looked up with: writing an entry updates the function there. -/
theorem getElem?_insert_eq_update (t : ExtTreeMap α β) (k : α) (v : β) :
    (fun a => (t.insert k v)[a]?) = Function.update (fun a => t[a]?) k (some v) := by
  funext a
  rw [ExtTreeMap.getElem?_insert, Function.update_apply]
  by_cases ha : a = k
  · simp [ha]
  · simp [ha, Ne.symm ha]

theorem getElem?_erase_eq_update (t : ExtTreeMap α β) (k : α) :
    (fun a => (t.erase k)[a]?) = Function.update (fun a => t[a]?) k none := by
  funext a
  rw [ExtTreeMap.getElem?_erase, Function.update_apply]
  by_cases ha : a = k
  · simp [ha]
  · simp [ha, Ne.symm ha]

omit [DecidableEq α] in
/-- Of the entries that come with one key, in the order of their places, the last one is found. -/
theorem getElem?_foldl_insert {π : Type*} [Preorder π] {l : List (π × α × β)}
    (hl : l.Pairwise fun x y => x.1 < y.1) (m : ExtTreeMap α β) {k : α} {v : β} :
    (l.foldl (fun m x => m.insert x.2.1 x.2.2) m)[k]? = some v ↔
      (∃ p, (p, k, v) ∈ l ∧ ∀ q w, (q, k, w) ∈ l → q ≤ p) ∨
        (∀ q w, (q, k, w) ∉ l) ∧ m[k]? = some v := by
  induction l using List.reverseRecOn with
  | nil => simp
  | append_singleton l x ih =>
    obtain ⟨p, a, b⟩ := x
    obtain ⟨hl, -, hlast⟩ := List.pairwise_append.mp hl
    have hbefore : ∀ y ∈ l, y.1 < p := fun y hy => hlast y hy _ (List.mem_singleton_self _)
    rw [List.foldl_append, List.foldl_cons, List.foldl_nil, ExtTreeMap.getElem?_insert]
    have hmem : ∀ q w, (q, k, w) ∈ l ++ [(p, a, b)] ↔
        (q, k, w) ∈ l ∨ q = p ∧ k = a ∧ w = b := by
      intro q w
      simp only [List.mem_append, List.mem_singleton, Prod.mk.injEq]
    simp only [hmem]
    split
    · rename_i hk
      obtain rfl : a = k := LawfulEqOrd.eq_of_compare hk
      rw [Option.some.injEq]
      constructor
      · rintro rfl
        refine .inl ⟨p, .inr ⟨rfl, rfl, rfl⟩, ?_⟩
        rintro q w (hq | ⟨rfl, -, -⟩)
        · exact (hbefore _ hq).le
        · exact Preorder.le_refl q
      · rintro (⟨q, hq | ⟨-, -, rfl⟩, hmax⟩ | ⟨hnone, -⟩)
        · exact absurd (hmax p b (.inr ⟨rfl, rfl, rfl⟩)) (hbefore _ hq).not_ge
        · rfl
        · exact absurd (.inr ⟨rfl, rfl, rfl⟩) (hnone p b)
    · rename_i hk
      have hne : k ≠ a := fun h => hk (h ▸ compare_self)
      simp only [hne, false_and, and_false, or_false]
      exact ih hl

omit [DecidableEq α] in
/-- Of the entries that are made of the elements of a list, the last one with a key is found. -/
theorem getElem?_foldl_insert_list {γ : Type*} (l : List γ) (key : γ → α) (value : γ → β)
    (m : ExtTreeMap α β) {k : α} {v : β} :
    (l.foldl (fun m x => m.insert (key x) (value x)) m)[k]? = some v ↔
      (∃ (i : Nat) (x : γ), l[i]? = some x ∧ key x = k ∧ value x = v ∧
        ∀ (j : Nat) (y : γ), l[j]? = some y → key y = k → j ≤ i) ∨
        (∀ x ∈ l, key x ≠ k) ∧ m[k]? = some v := by
  have hfold : l.foldl (fun m x => m.insert (key x) (value x)) m =
      (l.zipIdx.map fun x => (x.2, key x.1, value x.1)).foldl
        (fun m x => m.insert x.2.1 x.2.2) m := by
    rw [List.foldl_map]
    conv_lhs => rw [← List.zipIdx_map_fst 0 l]
    rw [List.foldl_map]
  have hsorted : (l.zipIdx.map fun x => (x.2, key x.1, value x.1)).Pairwise
      fun x y => x.1 < y.1 := by
    have hplaces : (l.zipIdx.map Prod.snd).Pairwise (· < ·) := by
      rw [List.zipIdx_map_snd]
      exact List.pairwise_lt_range'
    rw [List.pairwise_map] at hplaces ⊢
    exact hplaces
  have hmem : ∀ i w, (i, k, w) ∈ (l.zipIdx.map fun x => (x.2, key x.1, value x.1)) ↔
      ∃ x, l[i]? = some x ∧ key x = k ∧ value x = w := by
    intro i w
    simp only [List.mem_map, Prod.exists, Prod.mk.injEq, List.mk_mem_zipIdx_iff_getElem?]
    constructor
    · rintro ⟨x, _, hx, rfl, hk, hw⟩
      exact ⟨x, hx, hk, hw⟩
    · rintro ⟨x, hx, hk, hw⟩
      exact ⟨x, i, hx, rfl, hk, hw⟩
  rw [hfold, getElem?_foldl_insert hsorted]
  simp only [hmem]
  refine or_congr ⟨?_, ?_⟩ (and_congr_left fun _ => ⟨?_, ?_⟩)
  · rintro ⟨i, ⟨x, hx, hk, hv⟩, hlast⟩
    exact ⟨i, x, hx, hk, hv, fun j y hy hky => hlast j _ ⟨y, hy, hky, rfl⟩⟩
  · rintro ⟨i, x, hx, hk, hv, hlast⟩
    refine ⟨i, ⟨x, hx, hk, hv⟩, ?_⟩
    rintro j w ⟨y, hy, hky, -⟩
    exact hlast j y hy hky
  · intro hnone x hx hk
    obtain ⟨i, hi⟩ := List.mem_iff_getElem?.mp hx
    exact hnone i _ ⟨x, hi, hk, rfl⟩
  · rintro hnone i w ⟨x, hx, hk, -⟩
    exact hnone x (List.mem_of_getElem? hx) hk

end Epyx.Lib.TreeMap
