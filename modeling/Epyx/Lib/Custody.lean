import Mathlib.Data.List.Nodup
import Mathlib.Data.List.Perm.Basic
import Mathlib.Logic.Function.Basic

/-! Items that wait in a queue or are in hands. They may come back after they have gone, and each is
in one place at a time. -/
namespace Epyx.Lib

structure Custody (τ ι : Type*) where
  queue : List ι
  hand : τ → Option ι

namespace Custody
variable {τ ι : Type*}

/-- The item is somewhere. -/
def Present (c : Custody τ ι) (i : ι) : Prop := i ∈ c.queue ∨ ∃ t, c.hand t = some i

/-- No item is in two places. -/
structure Sound (c : Custody τ ι) : Prop where
  nodup : c.queue.Nodup
  hand : ∀ t i, c.hand t = some i → i ∉ c.queue
  inj : ∀ t u i, c.hand t = some i → c.hand u = some i → t = u

/-- An item comes into the queue. -/
def put (c : Custody τ ι) (i : ι) : Custody τ ι := { c with queue := c.queue ++ [i] }

/-- A hand takes the first item, `rest` is left. -/
def take [DecidableEq τ] (c : Custody τ ι) (t : τ) (i : ι) (rest : List ι) : Custody τ ι :=
  ⟨rest, Function.update c.hand t (some i)⟩

/-- A hand lets go. -/
def drop [DecidableEq τ] (c : Custody τ ι) (t : τ) : Custody τ ι :=
  { c with hand := Function.update c.hand t none }

variable {c : Custody τ ι} {t : τ} {i : ι}

/-- The order of the queue does not matter. -/
theorem Sound.perm {queue : List ι} (h : c.Sound) (hp : c.queue.Perm queue) :
    Sound ⟨queue, c.hand⟩ :=
  ⟨hp.nodup_iff.mp h.nodup, fun t i ht hi => h.hand t i ht (hp.mem_iff.mpr hi), h.inj⟩

theorem present_perm {queue : List ι} (hp : c.queue.Perm queue) :
    Present ⟨queue, c.hand⟩ i ↔ c.Present i := or_congr_left hp.mem_iff.symm

theorem Sound.put (h : c.Sound) (hi : ¬c.Present i) : (c.put i).Sound := by
  obtain ⟨hqueue, hhand⟩ := not_or.mp hi
  refine ⟨?_, fun t j hj hmem => ?_, h.inj⟩
  · refine List.nodup_append.mpr ⟨h.nodup, List.nodup_singleton i, fun a ha b hb hab => ?_⟩
    rw [hab, List.mem_singleton.mp hb] at ha
    exact hqueue ha
  · rcases List.mem_append.mp hmem with hmem | hmem
    · exact h.hand t j hj hmem
    · rw [List.mem_singleton.mp hmem] at hj
      exact hhand ⟨t, hj⟩

theorem present_put {j : ι} (h : (c.put i).Present j) : c.Present j ∨ j = i := by
  rcases h with h | h
  · exact (List.mem_append.mp h).imp .inl List.mem_singleton.mp
  · exact .inl (.inr h)

theorem Present.put {j : ι} (h : c.Present j) : (c.put i).Present j :=
  h.imp_left (List.mem_append_left [i])

theorem present_put_self : (c.put i).Present i := .inl (List.mem_append_right _ (.head _))

/-- Where the hands that hold something are among those looked at, what is there is found. -/
theorem count_pos [BEq ι] [LawfulBEq ι] {ts : List τ} (hts : ∀ u j, c.hand u = some j → u ∈ ts) :
    0 < c.queue.count i + ts.countP (c.hand · == some i) ↔ c.Present i := by
  rw [Nat.add_pos_iff_pos_or_pos, List.count_pos_iff, List.countP_pos_iff]
  refine or_congr_right ⟨fun hu => ?_, fun hu => ?_⟩
  · obtain ⟨u, -, hu⟩ := hu
    exact ⟨u, beq_iff_eq.mp hu⟩
  · obtain ⟨u, hu⟩ := hu
    exact ⟨u, hts u i hu, beq_iff_eq.mpr hu⟩

variable [DecidableEq τ] {rest : List ι}

theorem hand_update {u : τ} {j : ι} {o : Option ι} (hu : u ≠ t)
    (h : Function.update c.hand t o u = some j) : c.hand u = some j := by
  rwa [Function.update_of_ne hu] at h

theorem Sound.take (h : c.Sound) (hq : c.queue.Perm (i :: rest)) : (c.take t i rest).Sound := by
  obtain ⟨hi, hrest⟩ := List.nodup_cons.mp (hq.nodup_iff.mp h.nodup)
  have hself : ∀ {j}, Function.update c.hand t (some i) t = some j → i = j := fun hj => by
    rwa [Function.update_self, Option.some.injEq] at hj
  have hmem : ∀ {j}, j ∈ i :: rest → j ∈ c.queue := hq.mem_iff.mpr
  refine ⟨hrest, fun u j hj hr => ?_, fun u v j hu hv => ?_⟩
  · by_cases hut : u = t
    · subst hut
      exact hi (hself hj ▸ hr)
    · exact h.hand u j (hand_update hut hj) (hmem (.tail i hr))
  · by_cases hut : u = t
    · by_cases hvt : v = t
      · rw [hut, hvt]
      · subst hut
        exact absurd (hmem (hself hu ▸ List.mem_cons_self ..)) (h.hand v j (hand_update hvt hv))
    · by_cases hvt : v = t
      · subst hvt
        exact absurd (hmem (hself hv ▸ List.mem_cons_self ..)) (h.hand u j (hand_update hut hu))
      · exact h.inj u v j (hand_update hut hu) (hand_update hvt hv)

theorem present_take {j : ι} (hq : c.queue.Perm (i :: rest)) (h : (c.take t i rest).Present j) :
    c.Present j := by
  rcases h with h | ⟨u, hu⟩
  · exact .inl (hq.mem_iff.mpr (.tail i h))
  · by_cases hut : u = t
    · subst hut
      obtain rfl : i = j := by simpa [Custody.take] using hu
      exact .inl (hq.mem_iff.mpr (.head rest))
    · exact .inr ⟨u, hand_update hut hu⟩

/-- An empty hand that takes an item loses none. -/
theorem Present.take {j : ι} (h : c.Present j) (hq : c.queue.Perm (i :: rest))
    (free : c.hand t = none) : (c.take t i rest).Present j := by
  rcases h with h | ⟨u, hu⟩
  · rcases List.mem_cons.mp (hq.mem_iff.mp h) with rfl | h
    · exact .inr ⟨t, Function.update_self ..⟩
    · exact .inl h
  · refine .inr ⟨u, ?_⟩
    have hut : u ≠ t := by
      rintro rfl
      rw [free] at hu
      cases hu
    exact (Function.update_of_ne hut ..).trans hu

theorem Sound.drop (h : c.Sound) : (c.drop t).Sound := by
  have hne : ∀ {u j}, (c.drop t).hand u = some j → c.hand u = some j := fun {u j} hu => by
    by_cases hut : u = t
    · simp [Custody.drop, hut] at hu
    · exact hand_update hut hu
  exact ⟨h.nodup, fun u j hu => h.hand u j (hne hu),
    fun u v j hu hv => h.inj u v j (hne hu) (hne hv)⟩

theorem present_of_drop {j : ι} (h : (c.drop t).Present j) : c.Present j := by
  refine h.imp_right fun hu => ?_
  obtain ⟨u, hu⟩ := hu
  by_cases hut : u = t
  · simp [Custody.drop, hut] at hu
  · exact ⟨u, hand_update hut hu⟩

/-- Only what was in the hand can be lost. -/
theorem Present.drop {j : ι} (h : c.Present j) (hne : c.hand t ≠ some j) :
    (c.drop t).Present j := by
  refine h.imp_right fun hu => ?_
  obtain ⟨u, hu⟩ := hu
  have hut : u ≠ t := by
    rintro rfl
    exact hne hu
  exact ⟨u, (Function.update_of_ne hut ..).trans hu⟩

/-- What a hand lets go of is nowhere any more. -/
theorem Sound.ne_of_drop {j : ι} (h : c.Sound) (hi : c.hand t = some i)
    (hj : (c.drop t).Present j) : j ≠ i := by
  rintro rfl
  rcases hj with hj | ⟨u, hu⟩
  · exact h.hand t j hi hj
  · by_cases hut : u = t
    · simp [Custody.drop, hut] at hu
    · exact hut (h.inj u t j (hand_update hut hu) hi)

/-- However many hands are looked at, an item is found once at most. -/
theorem Sound.count_le_one [BEq ι] [LawfulBEq ι] (h : c.Sound) {ts : List τ} (hts : ts.Nodup)
    (i : ι) : c.queue.count i + ts.countP (c.hand · == some i) ≤ 1 := by
  by_cases hhand : ∃ t, c.hand t = some i
  · obtain ⟨t, ht⟩ := hhand
    have hqueue : c.queue.count i = 0 := List.count_eq_zero.mpr (h.hand t i ht)
    have hmono : ts.countP (c.hand · == some i) ≤ ts.count t := by
      refine List.countP_mono_left fun u _ hu => ?_
      exact beq_iff_eq.mpr (h.inj u t i (beq_iff_eq.mp hu) ht)
    have hone := List.nodup_iff_count_le_one.mp hts t
    omega
  · have hzero : ts.countP (c.hand · == some i) = 0 := by
      refine List.countP_eq_zero.mpr fun u _ hu => ?_
      exact hhand ⟨u, beq_iff_eq.mp hu⟩
    have hone := List.nodup_iff_count_le_one.mp h.nodup i
    omega

end Custody
end Epyx.Lib
