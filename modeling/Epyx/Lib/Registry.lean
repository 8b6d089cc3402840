import Mathlib.Data.List.Nodup
import Mathlib.Logic.Function.Basic
import Mathlib.Logic.Relation

/-! Ids that are entered in a registry under their owner, who keeps a book of them. -/
namespace Epyx.Lib

/-- The registry, the books (an id in a book is pending or not), every id that was given out with
the owner it was given to, and the ids that were settled. -/
@[ext]
structure Registry (ι κ : Type*) where
  entry : κ → Option ι
  book : ι → κ → Option Bool
  given : List (κ × ι)
  settled : List κ

namespace Registry
variable {ι κ : Type*}

/-- The registry has the pending ids of the books, and no others. -/
structure InStep (r : Registry ι κ) : Prop where
  exact : ∀ c a, r.entry c = some a ↔ r.book a c = some true
  given : ∀ a c, r.book a c ≠ none → (c, a) ∈ r.given
  settled : ∀ c ∈ r.settled, c ∈ r.given.map Prod.fst ∧ r.entry c = none

/-- The id was given out, and is not in the registry any more. -/
def Gone (r : Registry ι κ) (c : κ) : Prop := c ∈ r.given.map Prod.fst ∧ r.entry c = none

/-- No id was given out twice. -/
def Unique (r : Registry ι κ) : Prop := (r.given.map Prod.fst).Nodup

theorem Unique.owner {r : Registry ι κ} (h : r.Unique) {c : κ} {a b : ι} (ha : (c, a) ∈ r.given)
    (hb : (c, b) ∈ r.given) : a = b :=
  congrArg Prod.snd (List.inj_on_of_nodup_map h ha hb rfl)

variable [DecidableEq ι] [DecidableEq κ]

def give (r : Registry ι κ) (a : ι) (c : κ) : Registry ι κ where
  entry := Function.update r.entry c (some a)
  book := Function.update r.book a (Function.update (r.book a) c (some true))
  given := r.given ++ [(c, a)]
  settled := r.settled

/-- An id of an owner is settled. -/
def settle (r : Registry ι κ) (a : ι) (c : κ) : Registry ι κ where
  entry := Function.update r.entry c none
  book := Function.update r.book a (Function.update (r.book a) c (some false))
  given := r.given
  settled := r.settled ++ [c]

/-- An owner goes, and takes all ids of its book out of the registry. -/
def abandon (r : Registry ι κ) (a : ι) : Registry ι κ where
  entry c := if (r.book a c).isSome then none else r.entry c
  book := Function.update r.book a fun _ => none
  given := r.given
  settled := r.settled

theorem update_book (book : ι → κ → Option Bool) (a b : ι) (c d : κ)
    (v : Option Bool) :
    Function.update book a (Function.update (book a) c v) b d =
      if b = a ∧ d = c then v else book b d := by
  by_cases hb : b = a
  · subst hb
    simp [Function.update_apply]
  · simp [hb]

theorem give_book (r : Registry ι κ) (a b : ι) (c d : κ) :
    (r.give a c).book b d = if b = a ∧ d = c then some true else r.book b d :=
  update_book r.book a b c d (some true)

theorem settle_book (r : Registry ι κ) (a b : ι) (c d : κ) :
    (r.settle a c).book b d = if b = a ∧ d = c then some false else r.book b d :=
  update_book r.book a b c d (some false)

/-- What can happen to a registry. -/
inductive Move (r : Registry ι κ) : Registry ι κ → Prop
  | give (a : ι) (c : κ) : Move r (r.give a c)
  | settle (a : ι) (c : κ) (h : r.book a c ≠ none) : Move r (r.settle a c)
  | abandon (a : ι) : Move r (r.abandon a)

theorem Move.given {r s : Registry ι κ} (h : Move r s) : r.given.Sublist s.given := by
  cases h with
  | give a c => exact List.sublist_append_left _ _
  | settle a c h => exact .refl _
  | abandon a => exact .refl _

theorem Move.unique {r s : Registry ι κ} (h : Move r s) (hs : s.Unique) : r.Unique :=
  hs.sublist (h.given.map _)

theorem give_fresh {r : Registry ι κ} {a : ι} {c : κ} (h : (r.give a c).Unique) :
    c ∉ r.given.map Prod.fst := by
  rw [Unique, give, List.map_append] at h
  exact fun hc => (List.nodup_append.mp h).2.2 c hc c (List.mem_singleton_self c) rfl

theorem InStep.give {r : Registry ι κ} (h : InStep r) {a : ι} {c : κ}
    (hs : (r.give a c).Unique) : InStep (r.give a c) := by
  have hfresh := give_fresh hs
  have hnone : ∀ b, r.book b c = none := fun b => by
    by_contra hb
    exact hfresh (List.mem_map.mpr ⟨_, h.given b c hb, rfl⟩)
  refine ⟨fun d b => ?_, fun b d hb => ?_, fun d hd => ?_⟩
  · rw [give_book]
    by_cases hd : d = c
    · subst hd
      by_cases hb : b = a
      · simp [Registry.give, hb]
      · simp [Registry.give, hb, hnone, Ne.symm hb]
    · simpa [Registry.give, hd] using h.exact d b
  · rw [give_book] at hb
    split at hb
    · rename_i hbd
      obtain ⟨rfl, rfl⟩ := hbd
      exact List.mem_append_right _ (List.mem_singleton_self _)
    · exact List.mem_append_left _ (h.given b d hb)
  · obtain ⟨hg, he⟩ := h.settled d hd
    have hdc : d ≠ c := fun he => hfresh (he ▸ hg)
    refine ⟨?_, by simpa [Registry.give, Function.update_of_ne hdc] using he⟩
    rw [Registry.give, List.map_append]
    exact List.mem_append_left _ hg

theorem InStep.settle {r : Registry ι κ} (h : InStep r) {a : ι} {c : κ} (hs : r.Unique)
    (hc : r.book a c ≠ none) : InStep (r.settle a c) := by
  refine ⟨fun d b => ?_, fun b d hb => ?_, fun d hd => ?_⟩
  · rw [settle_book]
    by_cases hd : d = c
    · subst hd
      by_cases hb : b = a
      · simp [Registry.settle, hb]
      · -- nobody else has the id in its book
        have hbook : r.book b d ≠ some true := fun hbd =>
          hb (hs.owner (h.given b d (by simp [hbd])) (h.given a d hc))
        simp [Registry.settle, hb, hbook]
    · simpa [Registry.settle, hd] using h.exact d b
  · rw [settle_book] at hb
    split at hb
    · rename_i hbd
      obtain ⟨rfl, rfl⟩ := hbd
      exact h.given b d hc
    · exact h.given b d hb
  · rcases List.mem_append.mp hd with hd | hd
    · obtain ⟨hg, he⟩ := h.settled d hd
      refine ⟨hg, ?_⟩
      simp only [Registry.settle, Function.update_apply, he, ite_self]
    · rw [List.mem_singleton.mp hd]
      exact ⟨List.mem_map.mpr ⟨_, h.given a c hc, rfl⟩, by simp [Registry.settle]⟩

omit [DecidableEq κ] in
theorem InStep.abandon {r : Registry ι κ} (h : InStep r) {a : ι} (hs : r.Unique) :
    InStep (r.abandon a) := by
  refine ⟨fun d b => ?_, fun b d hb => ?_, fun d hd => ?_⟩
  · by_cases hb : b = a
    · subst hb
      cases hbd : r.book b d with
      | none =>
        have he : r.entry d ≠ some b := fun he => by
          rw [(h.exact d b).mp he] at hbd
          cases hbd
        simp [Registry.abandon, hbd, he]
      | some x => simp [Registry.abandon, hbd]
    · cases had : r.book a d with
      | none => simpa [Registry.abandon, had, Function.update_of_ne hb] using h.exact d b
      | some x =>
        have hbook : r.book b d ≠ some true := fun hbd =>
          hb (hs.owner (h.given b d (by simp [hbd])) (h.given a d (by simp [had])))
        simp [Registry.abandon, had, Function.update_of_ne hb, hbook]
  · by_cases hba : b = a
    · simp [Registry.abandon, hba] at hb
    · simp only [Registry.abandon, Function.update_of_ne hba] at hb
      exact h.given b d hb
  · obtain ⟨hg, he⟩ := h.settled d hd
    exact ⟨hg, by simp [Registry.abandon, he]⟩

theorem InStep.move {r s : Registry ι κ} (h : InStep r) (m : Move r s) (hs : s.Unique) :
    InStep s := by
  cases m with
  | give a c => exact h.give hs
  | settle a c hc => exact h.settle hs hc
  | abandon a => exact h.abandon hs

/-- What has gone does not come back. -/
theorem Gone.move {r s : Registry ι κ} {c : κ} (h : r.Gone c) (m : Move r s) (hs : s.Unique) :
    s.Gone c := by
  obtain ⟨hg, he⟩ := h
  refine ⟨(m.given.map Prod.fst).subset hg, ?_⟩
  cases m with
  | give a d =>
    have hcd : c ≠ d := fun hcd => give_fresh hs (hcd ▸ hg)
    simpa [give, Function.update_of_ne hcd] using he
  | settle a d hd => simp only [settle, Function.update_apply, he, ite_self]
  | abandon a => simp [abandon, he]

/-- Several moves, one after the other. -/
abbrev Moves : Registry ι κ → Registry ι κ → Prop := Relation.ReflTransGen Move

theorem InStep.moves {r s : Registry ι κ} (h : InStep r) (m : Moves r s) (hs : s.Unique) :
    InStep s := by
  induction m with
  | refl => exact h
  | tail _ m ih => exact (ih (m.unique hs)).move m hs

theorem Gone.moves {r s : Registry ι κ} {c : κ} (h : r.Gone c) (m : Moves r s) (hs : s.Unique) :
    s.Gone c := by
  induction m with
  | refl => exact h
  | tail _ m ih => exact (ih (m.unique hs)).move m hs

end Registry
end Epyx.Lib
