import Epyx.Net.NetSelectSocket

/-! A connection as a stream: packets are written at one end while a parser eats chunks at the
other one. -/
namespace Epyx
open GTTParser

namespace GTTParser

/-- A parser that has met no error has still to give the packets `todo`, out of what it holds and
of the bytes `rest` that are on the way. -/
structure Carries (p : GTTParser) (rest : ByteStr) (todo : List GTTPacket) : Prop where
  noError : p.hasError = false
  ends : ∃ q, (q = fresh ∨ q = waiting) ∧ eatChunks rules p [rest] = (todo, q)

variable {p : GTTParser} {rest : ByteStr} {todo : List GTTPacket}

/-- What a parser between two packets eats in one piece. -/
theorem eatChunks_build {q : GTTParser} (hq : q = fresh ∨ q = waiting) {gs : List GTTPacket}
    (hgs : ∀ g ∈ gs, g.WellFormed) :
    eatChunks rules q [gs.flatMap GTTPacket.build] = (gs, waiting) := by
  have hno : waiting.hasError = false := rfl
  simp [eatChunks, packets_eat_build hq hgs, hno]

/-- Between two packets a parser has nothing to give. -/
theorem carries_nil {q : GTTParser} (hq : q = fresh ∨ q = waiting) : Carries q [] [] where
  noError := by rcases hq with rfl | rfl <;> rfl
  ends := by
    have hnone := eatChunks_build hq (List.forall_mem_nil fun g : GTTPacket => g.WellFormed)
    exact ⟨waiting, .inr rfl, hnone⟩

/-- Chunks one after the other: those behind the first one meet the parser it leaves. -/
theorem eatChunks_cons {c : ByteStr} {cs : List ByteStr}
    (h : (eatChunks rules p (c :: cs)).2.hasError = false) :
    (packets rules (p.eat c)).2.1.hasError = false ∧
      eatChunks rules p (c :: cs) =
        ((packets rules (p.eat c)).1 ++ (eatChunks rules (packets rules (p.eat c)).2.1 cs).1,
          (eatChunks rules (packets rules (p.eat c)).2.1 cs).2) := by
  rw [eatChunks] at h ⊢
  dsimp only at h ⊢
  split at h
  · rename_i herror
    rw [herror] at h
    cases h
  · rename_i hno
    exact ⟨Bool.eq_false_iff.mpr hno, if_neg hno⟩

theorem Carries.noError_end (h : Carries p rest todo) :
    (eatChunks rules p [rest]).2.hasError = false := by
  obtain ⟨q, hq, heat⟩ := h.ends
  rw [heat]
  rcases hq with rfl | rfl <;> rfl

/-- Packets are written at the end of the stream. -/
theorem Carries.write (h : Carries p rest todo) {gs : List GTTPacket}
    (hgs : ∀ g ∈ gs, g.WellFormed) :
    Carries p (rest ++ gs.flatMap GTTPacket.build) (todo ++ gs) := by
  obtain ⟨q, hq, heat⟩ := h.ends
  have hnone : (eatChunks rules p [rest]).2.hasError = false := h.noError_end
  obtain ⟨hfirst, hcons⟩ := eatChunks_cons hnone
  rw [heat] at hcons
  obtain ⟨htodo, rfl⟩ : todo = (packets rules (p.eat rest)).1 ∧
      q = (packets rules (p.eat rest)).2.1 := by
    simpa [eatChunks] using hcons
  have hboth : eatChunks rules p [rest, gs.flatMap GTTPacket.build] = (todo ++ gs, waiting) := by
    have hlast := eatChunks_build hq hgs
    rw [eatChunks]
    simp only [hfirst, Bool.false_eq_true, if_false, hlast, ← htodo]
  obtain ⟨hout, herror, hparser⟩ := eatChunks_congr h.noError
    (List.cons_ne_nil rest [gs.flatMap GTTPacket.build])
    (List.cons_ne_nil (rest ++ gs.flatMap GTTPacket.build) []) (by simp)
  rw [hboth] at hout herror hparser
  refine ⟨h.noError, waiting, .inr rfl, ?_⟩
  exact (Prod.ext hout (hparser rfl)).symm

/-- A chunk is eaten: the packets it completes are the first ones, and the stream goes on behind
it. -/
theorem Carries.read {c : ByteStr} (h : Carries p (c ++ rest) todo) :
    ∃ os left q, todo = os ++ left ∧ packets rules (p.eat c) = (os, q, none) ∧
      Carries q rest left := by
  obtain ⟨q, hq, heat⟩ := h.ends
  have hnone := h.noError_end
  obtain ⟨hout, herror, hparser⟩ := eatChunks_congr h.noError (List.cons_ne_nil (c ++ rest) [])
    (List.cons_ne_nil c [rest]) (by simp)
  have hcut := hparser hnone
  rw [heat] at hout hcut
  rw [hnone] at herror
  obtain ⟨hfirst, hcons⟩ := eatChunks_cons herror.symm
  rw [hcons] at hout hcut
  refine ⟨_, _, _, hout, ?_, hfirst, q, hq, Prod.ext rfl hcut.symm⟩
  exact Prod.ext rfl (Prod.ext rfl (packets_noThrow rules_parserOnly h.noError))

end GTTParser

namespace NetSelectSocket
variable {τ : Type*}

/-- `eat` treats the packets that its chunk completes. -/
theorem eatWith_carries {p : GTTParser} {c rest : ByteStr} {todo : List GTTPacket}
    (h : Carries p (c ++ rest) todo) :
    ∃ os left q, todo = os ++ left ∧ Carries q rest left ∧
      ∀ (treat : GTTPacket → τ → Option Exn × τ) (t t' : τ),
        treatAll treat os t = (none, t') → eatWith treat c (p, t) = (none, q, t') := by
  obtain ⟨os, left, q, htodo, hpackets, hleft⟩ := h.read
  refine ⟨os, left, q, htodo, hleft, fun treat t t' ht => ?_⟩
  have heach := eachPacket_eq rules treat t (p.eat c)
  rw [hpackets, ht] at heach
  simp only [eatWith, heach, getError_fst, hleft.noError, Bool.false_eq_true, if_false]

end NetSelectSocket
end Epyx
