import Mathlib.Data.List.Nodup
import Mathlib.Data.List.Perm.Basic
import Mathlib.Logic.Function.Basic

/-! Numbered items that wait in a queue, are taken by hands and are settled: each is in one place
at a time, and is settled once. -/
namespace Epyx.Lib

/-- The numbers in the queue, in the hands and in the record of what is settled; the next number
that is given out. -/
structure Ledger (τ : Type*) where
  queue : List Nat
  hand : τ → Option Nat
  done : List Nat
  next : Nat

namespace Ledger
variable {τ : Type*}

/-- No number is in two places, and all have been given out. -/
structure Sound (l : Ledger τ) : Prop where
  nodup : (l.queue ++ l.done).Nodup
  lt : ∀ n ∈ l.queue ++ l.done, n < l.next
  handLt : ∀ t n, l.hand t = some n → n < l.next
  hand : ∀ t n, l.hand t = some n → n ∉ l.queue ++ l.done
  inj : ∀ t u n, l.hand t = some n → l.hand u = some n → t = u

/-- A new item is put into the queue. -/
def issue (l : Ledger τ) : Ledger τ := { l with queue := l.queue ++ [l.next], next := l.next + 1 }

/-- A hand takes an item out of the queue. -/
def take [DecidableEq τ] (l : Ledger τ) (t : τ) (k n : Nat) : Ledger τ :=
  { l with queue := l.queue.eraseIdx k, hand := Function.update l.hand t (some n) }

def settle [DecidableEq τ] (l : Ledger τ) (t : τ) (n : Nat) : Ledger τ :=
  { l with hand := Function.update l.hand t none, done := l.done ++ [n] }

theorem Sound.issue {l : Ledger τ} (h : l.Sound) : l.issue.Sound := by
  have hmem : ∀ {n}, n ∈ l.issue.queue ++ l.issue.done → n ∈ l.queue ++ l.done ∨ n = l.next :=
    fun {n} hn => by simpa [Ledger.issue, or_assoc, or_left_comm, or_comm] using hn
  refine ⟨?_, fun n hn => ?_, fun t n ht => Nat.lt_succ_of_lt (h.handLt t n ht),
    fun t n ht hn => ?_, h.inj⟩
  · have hperm : (l.issue.queue ++ l.issue.done).Perm (l.next :: (l.queue ++ l.done)) := by
      simp [Ledger.issue, List.perm_middle]
    refine hperm.nodup_iff.mpr (List.nodup_cons.mpr ⟨fun hn => ?_, h.nodup⟩)
    exact Nat.lt_irrefl _ (h.lt _ hn)
  · rcases hmem hn with hn | rfl
    · exact Nat.lt_succ_of_lt (h.lt n hn)
    · exact Nat.lt_succ_self _
  · rcases hmem hn with hn | rfl
    · exact h.hand t n ht hn
    · exact Nat.lt_irrefl _ (h.handLt t _ ht)

theorem Sound.take [DecidableEq τ] {l : Ledger τ} (h : l.Sound) {t : τ} {k n : Nat}
    (hk : l.queue[k]? = some n) : (l.take t k n).Sound := by
  obtain ⟨hlt, hn⟩ := List.getElem?_eq_some_iff.mp hk
  have hperm : (n :: (l.queue.eraseIdx k ++ l.done)).Perm (l.queue ++ l.done) := by
    rw [← hn, ← List.cons_append]
    exact (List.getElem_cons_eraseIdx_perm hlt).append_right _
  have hnodup := List.nodup_cons.mp (hperm.nodup_iff.mpr h.nodup)
  have hmem : ∀ {m}, m ∈ l.queue.eraseIdx k ++ l.done → m ∈ l.queue ++ l.done := fun hm =>
    hperm.subset (List.mem_cons_of_mem n hm)
  have hin : n ∈ l.queue ++ l.done := hperm.subset (List.mem_cons_self ..)
  have hother : ∀ {u m}, u ≠ t → (l.take t k n).hand u = some m → l.hand u = some m :=
    fun {u m} hu hm => by simpa [Ledger.take, Function.update_of_ne hu] using hm
  have hself : ∀ m, (l.take t k n).hand t = some m → n = m := fun m hm => by
    simpa [Ledger.take] using hm
  refine ⟨hnodup.2, fun m hm => h.lt m (hmem hm), fun u m hm => ?_, fun u m hm hin' => ?_,
    fun u v m hu hv => ?_⟩
  · by_cases hut : u = t
    · rw [← hself m (hut ▸ hm)]
      exact h.lt n hin
    · exact h.handLt u m (hother hut hm)
  · by_cases hut : u = t
    · rw [← hself m (hut ▸ hm)] at hin'
      exact hnodup.1 hin'
    · exact h.hand u m (hother hut hm) (hmem hin')
  · by_cases hut : u = t
    · by_cases hvt : v = t
      · rw [hut, hvt]
      · rw [hself m (hut ▸ hu)] at hin
        exact absurd hin (h.hand v m (hother hvt hv))
    · by_cases hvt : v = t
      · rw [hself m (hvt ▸ hv)] at hin
        exact absurd hin (h.hand u m (hother hut hu))
      · exact h.inj u v m (hother hut hu) (hother hvt hv)

theorem Sound.settle [DecidableEq τ] {l : Ledger τ} (h : l.Sound) {t : τ} {n : Nat}
    (ht : l.hand t = some n) : (l.settle t n).Sound := by
  have hne : ∀ {u m}, (l.settle t n).hand u = some m → u ≠ t ∧ l.hand u = some m :=
    fun {u m} hm => by
      by_cases hut : u = t
      · simp [Ledger.settle, hut] at hm
      · exact ⟨hut, by simpa [Ledger.settle, Function.update_of_ne hut] using hm⟩
  have hmem : ∀ {m}, m ∈ (l.settle t n).queue ++ (l.settle t n).done →
      m ∈ l.queue ++ l.done ∨ m = n := fun {m} hm => by
    simpa [Ledger.settle, or_assoc] using hm
  refine ⟨?_, fun m hm => ?_, fun u m hm => h.handLt u m (hne hm).2, fun u m hm hin => ?_,
    fun u v m hu hv => h.inj u v m (hne hu).2 (hne hv).2⟩
  · rw [Ledger.settle, ← List.append_assoc]
    exact List.nodup_append.mpr ⟨h.nodup, List.nodup_singleton n, fun a ha b hb hab => by
      rw [hab, List.mem_singleton.mp hb] at ha
      exact h.hand t n ht ha⟩
  · rcases hmem hm with hm | rfl
    · exact h.lt m hm
    · exact h.handLt t m ht
  · rcases hmem hin with hin | rfl
    · exact h.hand u m (hne hm).2 hin
    · exact (hne hm).1 (h.inj u t m (hne hm).2 ht)

end Ledger
end Epyx.Lib
