import Epyx.Parser.Chunks
import Epyx.Parser.Framing

/-! `net/netselectsocket.cpp`: a connection is read chunk by chunk, and what a chunk throws either
closes it or ends the worker thread. -/
namespace Epyx
open GTTParser
variable {τ : Type*}

/-- The common body of `RelaySocket::eat` and `N2NP::Node::eat`: treat the packets as they come,
and reset a parser that has met an error. -/
def eatWith (treat : GTTPacket → τ → Option Exn × τ) (data : ByteStr) (s : GTTParser × τ) :
    Option Exn × GTTParser × τ :=
  match eachPacket rules treat (s.1.eat data) s.2 with
  | (some e, p, t) => (some e, p, t)
  | (none, p, t) => (none, if p.getError.1 then p.reset else p, t)

/-- One turn of a connection: what `recv` gave, whether the socket is still open after it, and
what the other threads have changed meanwhile in the state they share. -/
structure Reading (τ : Type*) where
  recv : Except Exn ByteStr
  isOpened : Bool
  others : τ → τ

namespace NetSelectSocket
variable (treat : GTTPacket → τ → Option Exn × τ)

/-- `NetSelectSocket::read`, with what leaves it and the state. -/
def read (r : Reading τ) (s : GTTParser × τ) : Except Exn Bool × GTTParser × τ :=
  match r.recv with
  | .error e => (.error e, s)
  | .ok data =>
    if data.length = 0 then (.ok false, s)
    else match eatWith treat data s with
    | (none, s') => (.ok r.isOpened, s')
    | (some e, s') => if e.isMinor then (.ok false, s') else (.error e, s')

/-- Read a connection until it is closed. The result is the exception that left `read`: it ends
the worker thread. -/
def serve : List (Reading τ) → GTTParser × τ → Option Exn
  | [], _ => none
  | r :: rs, s =>
    match read treat r (s.1, r.others s.2) with
    | (.ok true, s') => serve rs s'
    | (.ok false, _) => none
    | (.error e, _) => some e

/-- A condition on each packet and the state it finds, as long as no packet throws. -/
def Along (ok : GTTPacket → τ → Prop) : List GTTPacket → τ → Prop
  | [], _ => True
  | o :: os, t => ok o t ∧ ((treat o t).1 = none → Along ok os (treat o t).2)

/-- The condition on every packet of every chunk, as long as the connection lasts. -/
def Throughout (ok : GTTPacket → τ → Prop) : List (Reading τ) → GTTParser × τ → Prop
  | [], _ => True
  | r :: rs, s =>
    match r.recv with
    | .error _ => False
    | .ok data => data.length ≠ 0 →
      Along treat ok (packets rules (s.1.eat data)).1 (r.others s.2) ∧
      ((eatWith treat data (s.1, r.others s.2)).1 = none → r.isOpened →
        Throughout ok rs (eatWith treat data (s.1, r.others s.2)).2)

variable {treat} {ok : GTTPacket → τ → Prop}

theorem treatAll_handled (hok : ∀ o t, Handled (treat o t).1 ↔ ok o t) (os : List GTTPacket)
    (t : τ) : Handled (treatAll treat os t).1 ↔ Along treat ok os t := by
  induction os generalizing t with
  | nil => simp [treatAll, Along]
  | cons o os ih =>
    rcases ho : treat o t with ⟨_ | e, t'⟩
    · have h := hok o t
      simp only [ho, handled_none, true_iff] at h
      simp [treatAll, Along, ho, ih, h]
    · have h := hok o t
      simp only [ho] at h
      simp [treatAll, Along, ho, h]

variable (treat) in
/-- What a call of `eat` throws is what its packets throw, and it leaves a parser without error. -/
theorem eatWith_eq {p : GTTParser} (hp : p.hasError = false) (data : ByteStr) (t : τ) :
    (eatWith treat data (p, t)).1 = (treatAll treat (packets rules (p.eat data)).1 t).1 ∧
    ((eatWith treat data (p, t)).1 = none → (eatWith treat data (p, t)).2.1.hasError = false) := by
  have hnone := packets_noThrow rules_parserOnly (p := p.eat data) hp
  have heach := eachPacket_eq rules treat t (p.eat data)
  rcases ht : treatAll treat (packets rules (p.eat data)).1 t with ⟨_ | e, t'⟩
  · rw [ht] at heach
    simp only [hnone] at heach
    simp only [eatWith, heach, true_and, true_imp_iff]
    split
    · rfl
    · rename_i he
      simpa using he
  · rw [ht] at heach
    obtain ⟨q, hq⟩ := heach
    simp [eatWith, hq]

/-- A parser between two packets treats exactly the packets whose bytes it eats. -/
theorem eatWith_build {p : GTTParser} (hp : p = fresh ∨ p = waiting) {gs : List GTTPacket}
    (hgs : ∀ g ∈ gs, g.WellFormed) {t t' : τ} (ht : treatAll treat gs t = (none, t')) :
    eatWith treat (gs.flatMap GTTPacket.build) (p, t) = (none, waiting, t') := by
  have heach := eachPacket_eq rules treat t (p.eat (gs.flatMap GTTPacket.build))
  rw [packets_eat_build hp hgs, ht] at heach
  simp only [eatWith, heach]
  rfl

variable (treat) in
/-- `eat`, chunk by chunk. -/
def eatAll : List ByteStr → GTTParser × τ → Option Exn × GTTParser × τ
  | [], s => (none, s)
  | c :: cs, s =>
    match eatWith treat c s with
    | (none, s') => eatAll cs s'
    | r => r

theorem treatAll_append {os os' : List GTTPacket} {t t' : τ}
    (h : treatAll treat (os ++ os') t = (none, t')) :
    ∃ t₁, treatAll treat os t = (none, t₁) ∧ treatAll treat os' t₁ = (none, t') := by
  induction os generalizing t with
  | nil => exact ⟨t, rfl, h⟩
  | cons o os ih =>
    rw [List.cons_append, treatAll] at h
    rw [treatAll]
    rcases ho : treat o t with ⟨_ | e, t₁⟩
    · rw [ho] at h
      exact ih h
    · rw [ho] at h
      cases h

/-- Chunks whose packets are all treated: the parser is left as when the packets are only taken
out. -/
theorem eatAll_eq {cs : List ByteStr} {p : GTTParser} {t t' : τ} (hp : p.hasError = false)
    (hend : (eatChunks rules p cs).2.hasError = false)
    (ht : treatAll treat (eatChunks rules p cs).1 t = (none, t')) :
    eatAll treat cs (p, t) = (none, (eatChunks rules p cs).2, t') := by
  induction cs generalizing p t with
  | nil =>
    cases ht
    rfl
  | cons c cs ih =>
    have hnone := packets_noThrow rules_parserOnly (p := p.eat c) hp
    rcases hpackets : packets rules (p.eat c) with ⟨os, q, e⟩
    have heach := eachPacket_eq rules treat t (p.eat c)
    rw [hpackets] at hnone heach
    obtain rfl : e = none := hnone
    simp only [eatChunks, hpackets] at hend ht ⊢
    by_cases hq : q.hasError
    · rw [if_pos hq] at hend
      rw [hq] at hend
      cases hend
    · rw [if_neg hq] at hend ht ⊢
      obtain ⟨t₁, hos, hrest⟩ := treatAll_append ht
      rw [hos] at heach
      have heat : eatWith treat c (p, t) = (none, q, t₁) := by
        simp only [eatWith, heach, getError_fst]
        rw [if_neg hq]
      rw [eatAll, heat]
      exact ih (Bool.eq_false_iff.mpr hq) hend hrest

/-- The bytes of well formed packets, cut anywhere, are treated as these packets. -/
theorem eatAll_build {p : GTTParser} (hp : p = fresh ∨ p = waiting) {gs : List GTTPacket}
    (hgs : ∀ g ∈ gs, g.WellFormed) {cs : List ByteStr} (hne : cs ≠ [])
    (hcs : cs.flatten = gs.flatMap GTTPacket.build) {t t' : τ}
    (ht : treatAll treat gs t = (none, t')) :
    eatAll treat cs (p, t) = (none, waiting, t') := by
  have herr : p.hasError = false := by rcases hp with rfl | rfl <;> rfl
  have hwhole : eatChunks rules p [cs.flatten] = (gs, waiting) := by
    have hno : waiting.hasError = false := rfl
    simp [eatChunks, hcs, packets_eat_build hp hgs, hno]
  have hcut : eatChunks rules p cs = (gs, waiting) := by
    obtain ⟨hout, herror, hparser⟩ := eatChunks_congr herr hne (List.cons_ne_nil cs.flatten [])
      (by simp)
    rw [hwhole] at hout herror hparser
    exact Prod.ext hout (hparser herror)
  have hdone : treatAll treat (eatChunks rules p cs).1 t = (none, t') := by rwa [hcut]
  have heat := eatAll_eq herr (by rw [hcut]; rfl) hdone
  rwa [hcut] at heat

/-- Nothing but `MinorException` leaves an `eat` of the connection, and nothing its `read`,
exactly when the packets meet the condition under which each of them is handled. -/
theorem serve_eq_none_iff (hok : ∀ o t, Handled (treat o t).1 ↔ ok o t) (rs : List (Reading τ))
    {p : GTTParser} (hp : p.hasError = false) (t : τ) :
    serve treat rs (p, t) = none ↔ Throughout treat ok rs (p, t) := by
  induction rs generalizing p t with
  | nil => simp [serve, Throughout]
  | cons r rs ih =>
    rcases hr : r.recv with e | data
    · simp [serve, read, Throughout, hr]
    · by_cases h0 : data.length = 0
      · simp [serve, read, Throughout, hr, h0]
      · obtain ⟨heq, herr⟩ := eatWith_eq treat hp data (r.others t)
        have hall := treatAll_handled hok (packets rules (p.eat data)).1 (r.others t)
        rw [← heq] at hall
        simp only [serve, read, Throughout, hr, h0, if_false, ne_eq, not_false_eq_true,
          true_imp_iff, ← hall]
        rcases he : eatWith treat data (p, r.others t) with ⟨_ | e, q, t'⟩
        · have hq := herr (by rw [he])
          rw [he] at hq
          cases ho : r.isOpened
          · simp
          · simpa using ih hq t'
        · by_cases hm : e.isMinor <;> simp [hm]

end NetSelectSocket
end Epyx
