import Mathlib.Data.List.Lex
import Mathlib.Order.Basic

/-! Ordered forests: the nodes that are reached from the roots by descending only through some of
them, with the paths that lead there, in document order. -/
namespace Epyx.Lib
variable {α : Type*}

inductive RoseTree (α : Type*) where
  | node (label : α) (children : List (RoseTree α))

namespace RoseTree

def label : RoseTree α → α
  | .node a _ => a

def children : RoseTree α → List (RoseTree α)
  | .node _ ts => ts

@[simp] theorem label_node (a : α) (ts : List (RoseTree α)) : (node a ts).label = a := rfl

@[simp] theorem children_node (a : α) (ts : List (RoseTree α)) : (node a ts).children = ts := rfl

end RoseTree

namespace Forest
variable (through : α → Bool)

/-- The node at a path, whose every step but the last leads through a node that can be descended
through. -/
inductive Reaches : List (RoseTree α) → List Nat → RoseTree α → Prop
  | root {ts : List (RoseTree α)} {i : Nat} {t : RoseTree α} (found : ts[i]? = some t) :
      Reaches ts [i] t
  | child {ts : List (RoseTree α)} {i : Nat} {parent t : RoseTree α} {path : List Nat}
      (found : ts[i]? = some parent) (passed : through parent.label = true)
      (reached : Reaches parent.children path t) : Reaches ts (i :: path) t

mutual

/-- A node, and those that are reached below it, with their paths; the node has the number `i`. -/
def visit (i : Nat) : RoseTree α → List (List Nat × RoseTree α)
  | .node a children =>
    ([i], .node a children) ::
      if through a then (visits 0 children).map fun x => (i :: x.1, x.2) else []

/-- The nodes that are reached, in document order; the roots are numbered from `i` on. -/
def visits (i : Nat) : List (RoseTree α) → List (List Nat × RoseTree α)
  | [] => []
  | t :: ts => visit i t ++ visits (i + 1) ts

end

variable {through}

theorem visits_cons (i : Nat) (a : α) (children ts : List (RoseTree α)) :
    visits through i (.node a children :: ts) = ([i], .node a children) ::
      ((if through a then (visits through 0 children).map fun x => (i :: x.1, x.2) else []) ++
        visits through (i + 1) ts) := by
  simp only [visits, visit, List.cons_append]

/-- A forest is empty, or a root with a forest below it and one behind it. -/
@[elab_as_elim]
theorem induction {P : List (RoseTree α) → Prop} (nil : P [])
    (cons : ∀ a children ts, P children → P ts → P (.node a children :: ts)) :
    ∀ ts, P ts := by
  intro ts
  induction hn : sizeOf ts using Nat.strongRecOn generalizing ts with
  | ind n ih =>
    cases ts with
    | nil => exact nil
    | cons t ts =>
      obtain ⟨a, children⟩ := t
      simp only [List.cons.sizeOf_spec, RoseTree.node.sizeOf_spec] at hn
      exact cons a children ts (ih _ (by omega) children rfl) (ih _ (by omega) ts rfl)

theorem Reaches.ne_nil {ts : List (RoseTree α)} {path : List Nat} {t : RoseTree α}
    (h : Reaches through ts path t) : path ≠ [] := by
  cases h <;> simp

theorem reaches_succ {s t : RoseTree α} {ts : List (RoseTree α)} {i : Nat} {path : List Nat} :
    Reaches through (s :: ts) ((i + 1) :: path) t ↔ Reaches through ts (i :: path) t := by
  constructor
  · intro h
    cases h with
    | root found => exact .root found
    | child found passed reached => exact .child found passed reached
  · intro h
    cases h with
    | root found => exact .root found
    | child found passed reached => exact .child found passed reached

theorem reaches_zero {s t : RoseTree α} {ts : List (RoseTree α)} {path : List Nat} :
    Reaches through (s :: ts) (0 :: path) t ↔
      (path = [] ∧ t = s) ∨ (through s.label = true ∧ Reaches through s.children path t) := by
  constructor
  · intro h
    cases h with
    | root found => exact .inl ⟨rfl, (Option.some.inj found).symm⟩
    | child found passed reached =>
      cases found
      exact .inr ⟨passed, reached⟩
  · rintro (⟨rfl, rfl⟩ | ⟨passed, reached⟩)
    · exact .root rfl
    · exact .child rfl passed reached

theorem mem_visits {i : Nat} {ts : List (RoseTree α)} {path : List Nat} {t : RoseTree α} :
    (path, t) ∈ visits through i ts ↔
      ∃ j rest, path = (i + j) :: rest ∧ Reaches through ts (j :: rest) t := by
  induction ts using induction generalizing i path with
  | nil =>
    refine iff_of_false (by simp [visits]) ?_
    rintro ⟨j, rest, -, h⟩
    cases h with
    | root found => cases found
    | child found passed reached => cases found
  | cons a children ts hchildren hts =>
    have hbelow : (path, t) ∈
        (if through a then (visits through 0 children).map fun x => (i :: x.1, x.2) else []) ↔
          ∃ rest, path = i :: rest ∧ through a = true ∧ Reaches through children rest t := by
      split
      · rename_i hpass
        simp only [List.mem_map, Prod.exists, Prod.mk.injEq, hpass, true_and]
        constructor
        · rintro ⟨rest, t', hmem, rfl, rfl⟩
          obtain ⟨j, rest', rfl, hreach⟩ := hchildren.mp hmem
          exact ⟨_, rfl, by rwa [Nat.zero_add]⟩
        · rintro ⟨rest, rfl, hreach⟩
          obtain ⟨j, rest', rfl⟩ := List.exists_cons_of_ne_nil hreach.ne_nil
          exact ⟨_, t, hchildren.mpr ⟨j, rest', by rw [Nat.zero_add], hreach⟩, rfl, rfl⟩
      · rename_i hpass
        simp [hpass]
    rw [visits_cons, List.mem_cons, List.mem_append, hbelow, hts, Prod.mk.injEq]
    constructor
    · rintro (⟨rfl, rfl⟩ | ⟨rest, rfl, hpass, hreach⟩ | ⟨j, rest, rfl, hreach⟩)
      · exact ⟨0, [], rfl, .root rfl⟩
      · exact ⟨0, rest, rfl, reaches_zero.mpr (.inr ⟨hpass, hreach⟩)⟩
      · exact ⟨j + 1, rest, by rw [Nat.add_right_comm, Nat.add_assoc], reaches_succ.mpr hreach⟩
    · rintro ⟨j, rest, rfl, hreach⟩
      cases j with
      | zero =>
        rcases reaches_zero.mp hreach with ⟨rfl, rfl⟩ | ⟨hpass, hreach⟩
        · exact .inl ⟨rfl, rfl⟩
        · exact .inr (.inl ⟨rest, rfl, hpass, hreach⟩)
      | succ j =>
        exact .inr (.inr ⟨j, rest, by rw [Nat.add_right_comm, Nat.add_assoc],
          reaches_succ.mp hreach⟩)

/-- The nodes that are reached from the roots are those visited. -/
theorem mem_visits_zero {ts : List (RoseTree α)} {path : List Nat} {t : RoseTree α} :
    (path, t) ∈ visits through 0 ts ↔ Reaches through ts path t := by
  rw [mem_visits]
  constructor
  · rintro ⟨j, rest, rfl, h⟩
    rwa [Nat.zero_add]
  · intro h
    obtain ⟨j, rest, rfl⟩ := List.exists_cons_of_ne_nil h.ne_nil
    exact ⟨j, rest, by rw [Nat.zero_add], h⟩

/-- They are visited in the lexicographic order of their paths. -/
theorem pairwise_visits (i : Nat) (ts : List (RoseTree α)) :
    (visits through i ts).Pairwise fun x y => x.1 < y.1 := by
  induction ts using induction generalizing i with
  | nil => simp [visits]
  | cons a children ts hchildren hts =>
    have hlater : ∀ x ∈ visits through (i + 1) ts, ∀ rest, i :: rest < x.1 := by
      rintro ⟨path, t⟩ hx rest
      obtain ⟨j, rest', rfl, -⟩ := mem_visits.mp hx
      exact List.cons_lt_cons_iff.mpr (.inl (by omega))
    have hinside : ∀ x ∈ (if through a then
        (visits through 0 children).map fun x => (i :: x.1, x.2) else []),
        ∃ rest, x.1 = i :: rest ∧ rest ≠ [] := by
      intro x hx
      split at hx
      · obtain ⟨⟨rest, t⟩, hy, rfl⟩ := List.mem_map.mp hx
        exact ⟨rest, rfl, (mem_visits_zero.mp hy).ne_nil⟩
      · cases hx
    rw [visits_cons, List.pairwise_cons, List.pairwise_append]
    refine ⟨fun x hx => ?_, ?_, hts (i + 1), fun x hx y hy => ?_⟩
    · rcases List.mem_append.mp hx with hx | hx
      · obtain ⟨rest, hrest, hne⟩ := hinside x hx
        obtain ⟨j, rest', rfl⟩ := List.exists_cons_of_ne_nil hne
        rw [hrest]
        exact List.cons_lt_cons_iff.mpr (.inr ⟨rfl, List.nil_lt_cons _ _⟩)
      · exact hlater x hx []
    · split
      · refine (hchildren 0).map _ fun x y hxy => ?_
        exact List.cons_lt_cons_iff.mpr (.inr ⟨rfl, hxy⟩)
      · exact .nil
    · obtain ⟨rest, hrest, -⟩ := hinside x hx
      rw [hrest]
      exact hlater y hy rest

end Forest
end Epyx.Lib
