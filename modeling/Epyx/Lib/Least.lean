import Mathlib.Data.Finset.Max
import Mathlib.Order.Lattice

/-! The least elements of a finite set, kept up while elements come one after the other. -/
namespace Epyx.Lib
variable {α : Type*} [LinearOrder α]

/-- `T` has the `k` least elements of `S`, or all of them if `S` has fewer. -/
structure Least (k : Nat) (S T : Finset α) : Prop where
  subset : T ⊆ S
  card : T.card = min k S.card
  below : ∀ t ∈ T, ∀ s ∈ S, s ∉ T → t < s

namespace Least
variable {k : Nat} {S T U : Finset α} {x m : α}

theorem empty (k : Nat) : Least k (∅ : Finset α) ∅ := ⟨fun _ h => h, by simp, by simp⟩

/-- The least elements are determined: an element of one choice that is not in another one would
stand before an element of the other one and behind it. -/
theorem unique (hT : Least k S T) (hU : Least k S U) : T = U := by
  have hle : ∀ {T U : Finset α}, Least k S T → Least k S U → T ⊆ U := by
    intro T U hT hU t ht
    by_contra htU
    have hcard : (U \ T).card = (T \ U).card :=
      Finset.card_sdiff_comm (hU.card.trans hT.card.symm)
    have hpos : 0 < (T \ U).card := Finset.card_pos.mpr ⟨t, Finset.mem_sdiff.mpr ⟨ht, htU⟩⟩
    obtain ⟨u, hu⟩ := Finset.card_pos.mp (hcard ▸ hpos)
    obtain ⟨hu, huT⟩ := Finset.mem_sdiff.mp hu
    have hlt := hT.below t ht u (hU.subset hu) huT
    exact lt_asymm hlt (hU.below u hu t (hT.subset ht) htU)
  exact Finset.Subset.antisymm (hle hT hU) (hle hU hT)

/-- Something is kept, and nothing is less than what is. -/
theorem exists_le (h : Least k S T) (hk : 1 ≤ k) {s : α} (hs : s ∈ S) : ∃ t ∈ T, t ≤ s := by
  by_cases hsT : s ∈ T
  · exact ⟨s, hsT, le_refl s⟩
  · have hpos : 0 < T.card := by
      have hcard := h.card
      have hS : 0 < S.card := Finset.card_pos.mpr ⟨s, hs⟩
      omega
    obtain ⟨t, ht⟩ := Finset.card_pos.mp hpos
    exact ⟨t, ht, (h.below t ht s hs hsT).le⟩

/-- Where there is room everything is kept. -/
theorem eq_of_card_lt (h : Least k S T) (hlt : T.card < k) : T = S := by
  refine Finset.eq_of_subset_of_card_le h.subset ?_
  have hcard := h.card
  omega

/-- An element comes that is there already. -/
theorem insert_mem (h : Least k S T) (hx : x ∈ T) : Least k (insert x S) T := by
  rwa [Finset.insert_eq_of_mem (h.subset hx)]

/-- An element comes while there is room. -/
theorem insert_room (h : Least k S T) (hlt : T.card < k) : Least k (insert x S) (insert x T) := by
  obtain rfl := h.eq_of_card_lt hlt
  refine ⟨fun _ ht => ht, ?_, fun t _ s hs hsT => absurd hs hsT⟩
  have hinsert := Finset.card_insert_le x T
  omega

/-- An element comes, and the greatest one goes. -/
theorem insert_erase (h : Least k S T) (hx : x ∉ T) (hfull : k ≤ T.card)
    (hm : m ∈ insert x T) (hmax : ∀ t ∈ insert x T, t ≤ m) :
    Least k (insert x S) ((insert x T).erase m) := by
  have hk : T.card = k := by
    have hcard := h.card
    omega
  have hbelow : ∀ t ∈ (insert x T).erase m, t < m := fun t ht =>
    lt_of_le_of_ne (hmax t (Finset.mem_of_mem_erase ht)) (Finset.ne_of_mem_erase ht)
  refine ⟨?_, ?_, fun t ht s hs hsT => ?_⟩
  · exact (Finset.erase_subset _ _).trans (Finset.insert_subset_insert x h.subset)
  · rw [Finset.card_erase_of_mem hm, Finset.card_insert_of_notMem hx, hk]
    have hS : S.card ≤ (insert x S).card := Finset.card_le_card (Finset.subset_insert x S)
    have hcard := h.card
    omega
  · by_cases hsm : s = m
    · rw [hsm]
      exact hbelow t ht
    -- then `s` has been outside before, behind everything that was kept
    have hs' : s ∉ insert x T := fun hs' => hsT (Finset.mem_erase.mpr ⟨hsm, hs'⟩)
    obtain ⟨hsx, hsout⟩ : s ≠ x ∧ s ∉ T := by simpa [not_or] using hs'
    have hsS : s ∈ S := (Finset.mem_insert.mp hs).resolve_left hsx
    rcases Finset.mem_insert.mp (Finset.mem_of_mem_erase ht) with rfl | htT
    · have htm := hbelow t ht
      have hmT : m ∈ T := (Finset.mem_insert.mp hm).resolve_left (ne_of_gt htm)
      exact htm.trans (h.below m hmT s hsS hsout)
    · exact h.below t htT s hsS hsout

/-- An element comes that is greater than all that are kept, of which there are enough. -/
theorem insert_greater (h : Least k S T) (hfull : k ≤ T.card) (hx : ∀ t ∈ T, t < x) :
    Least k (insert x S) T := by
  have hxT : x ∉ T := fun hxT => lt_irrefl x (hx x hxT)
  have hmax : ∀ t ∈ insert x T, t ≤ x := fun t ht =>
    (Finset.mem_insert.mp ht).elim le_of_eq fun ht => le_of_lt (hx t ht)
  have herase := h.insert_erase hxT hfull (Finset.mem_insert_self x T) hmax
  rwa [Finset.erase_insert hxT] at herase

end Least
end Epyx.Lib
