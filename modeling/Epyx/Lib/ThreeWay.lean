import Std.Data.ExtTreeMap
import Mathlib.Order.Defs.Unbundled

/-! Classes that are compared by one three-way function, whose operators look at its sign. -/
namespace Epyx.Lib.ThreeWay
variable {α : Type*} (cmp : α → α → Ordering)

/-- `cmp(a, b) == 0` -/
def eq (a b : α) : Bool := cmp a b = .eq

/-- `cmp(a, b) != 0` -/
def ne (a b : α) : Bool := cmp a b ≠ .eq

/-- `cmp(a, b) < 0` -/
def lt (a b : α) : Bool := cmp a b = .lt

/-- A total order in which only a value is equal to itself. -/
structure Total : Prop where
  eq_iff : ∀ x y, cmp x y = .eq ↔ x = y
  swap : ∀ x y, cmp y x = (cmp x y).swap
  trans : ∀ x y z, cmp x y = .lt → cmp y z = .lt → cmp x z = .lt

theorem total [Std.TransCmp cmp] [Std.LawfulEqCmp cmp] : Total cmp where
  eq_iff _ _ := Std.LawfulEqCmp.compare_eq_iff_eq
  swap _ _ := Std.OrientedCmp.eq_swap
  trans _ _ _ := Std.TransCmp.lt_trans

/-- The operators are those of one strict total order. -/
structure Agree (eq ne lt : α → α → Bool) : Prop where
  eq_iff : ∀ x y, eq x y = true ↔ x = y
  ne_iff : ∀ x y, ne x y = true ↔ x ≠ y
  order : IsStrictTotalOrder α fun x y => lt x y = true
  /-- neither is less just when they are equal, which is how a `std::map` tells its keys apart -/
  equivalent : ∀ x y, lt x y = false ∧ lt y x = false ↔ eq x y = true

variable {cmp}

namespace Total

theorem lt_iff (h : Total cmp) {x y : α} : lt cmp y x = true ↔ cmp x y = .gt := by
  rw [lt, decide_eq_true_eq, h.swap x y]
  cases cmp x y <;> decide

theorem irrefl (h : Total cmp) (x : α) : ¬lt cmp x x = true := by
  rw [lt, decide_eq_true_eq, (h.eq_iff x x).mpr rfl]
  decide

theorem equivalent (h : Total cmp) (x y : α) :
    lt cmp x y = false ∧ lt cmp y x = false ↔ eq cmp x y = true := by
  rw [← Bool.not_eq_true, ← Bool.not_eq_true, h.lt_iff (x := x) (y := y), lt, decide_eq_true_eq,
    eq, decide_eq_true_eq]
  cases cmp x y <;> decide

theorem agree (h : Total cmp) : Agree (eq cmp) (ne cmp) (lt cmp) where
  eq_iff x y := by rw [eq, decide_eq_true_eq, h.eq_iff]
  ne_iff x y := by rw [ne, decide_eq_true_eq, ne_eq, h.eq_iff]
  equivalent := h.equivalent
  order :=
    { irrefl := h.irrefl
      trans := fun x y z hxy hyz => by
        rw [lt, decide_eq_true_eq] at hxy hyz ⊢
        exact h.trans x y z hxy hyz
      trichotomous := fun x y hxy hyx => by
        have heq := (h.equivalent x y).mp ⟨Bool.eq_false_iff.mpr hxy, Bool.eq_false_iff.mpr hyx⟩
        rw [eq, decide_eq_true_eq] at heq
        exact (h.eq_iff x y).mp heq }

end Total

/-- What is done under one key of a map does not touch another. -/
theorem apart [Std.TransCmp cmp] [Std.LawfulEqCmp cmp] {β : Type*}
    (m : Std.ExtTreeMap α β cmp) {x y : α} (hxy : x ≠ y) (v : β) :
    (m.insert x v)[x]? = some v ∧ (m.insert x v)[y]? = m[y]? ∧
      (m.erase x)[x]? = none ∧ (m.erase x)[y]? = m[y]? := by
  have hne : ¬cmp x y = .eq := fun h => hxy (Std.LawfulEqCmp.compare_eq_iff_eq.mp h)
  refine ⟨Std.ExtTreeMap.getElem?_insert_self, ?_, Std.ExtTreeMap.getElem?_erase_self, ?_⟩
  · rw [Std.ExtTreeMap.getElem?_insert, if_neg hne]
  · rw [Std.ExtTreeMap.getElem?_erase, if_neg hne]

end Epyx.Lib.ThreeWay
