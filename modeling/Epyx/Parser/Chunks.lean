import Epyx.Parser.GTTParser

/-! The parser against the ways a stream can arrive: it is resumed at three positions with a
packet half filled, and gives the same packets wherever the stream was cut. -/
namespace Epyx.GTTParser
open Lib
variable (R : LineRules)

/-- What a case of the `switch` owes to the bytes that come later: a case that finished is not
changed by them, and a case that stalled is taken up again where it stopped. -/
def Resumes (f : GTTParser → Step GTTParser GTTPacket Exn) (p : GTTParser) : Prop :=
  ∀ d, match f p with
    | .stall p' => f (p.eat d) = round R (p'.eat d)
    | r => f (p.eat d) = r.mapState (·.eat d)

theorem contentCase_resumes {p : GTTParser} (hp : p.datapos = .content) :
    Resumes R contentCase p := by
  intro d
  by_cases hs : p.currentSize > 0
  · cases hpop : p.lineParser.popData p.currentSize with
    | none => simp [contentCase, hs, hpop, round, eat, hp]
    | some r =>
      obtain ⟨body, lp⟩ := r
      have hpush := LineParser.popData_push hpop d
      simp [contentCase, hs, hpop, eat, hpush, Step.mapState, startPacket, pkt]
  · simp [contentCase, hs, eat, Step.mapState, startPacket, pkt]

theorem headersCase_resumes {p : GTTParser} (hp : p.datapos = .headers) :
    Resumes R (headersCase R) p := by
  intro d
  cases hpop : p.lineParser.popLine with
  | none => simp [headersCase, hpop, round, eat, hp]
  | some r =>
    obtain ⟨line, lp⟩ := r
    have hpush := LineParser.popLine_push hpop d
    by_cases hl : line.length ≠ 0
    · simp only [headersCase, hpop, hl, eat, hpush, ne_eq, not_false_eq_true, if_true, afterLine,
        pkt]
      generalize R.parseHeaderLine line _ _ = r
      cases hr : r.thrown <;> simp [Step.mapState]
    · have hc := contentCase_resumes R
        (p := { p with lineParser := lp, datapos := .content }) rfl d
      simpa [headersCase, hpop, hl, eat, hpush] using hc

theorem firstLineCase_resumes {p : GTTParser} (hp : p.datapos = .firstLine) :
    Resumes R (firstLineCase R) p := by
  intro d
  cases hpop : p.lineParser.popLine with
  | none => simp [firstLineCase, hpop, round, eat, hp, pkt]
  | some r =>
    obtain ⟨line, lp⟩ := r
    have hpush := LineParser.popLine_push hpop d
    simp only [firstLineCase, hpop, eat, hpush, afterLine, pkt, Option.getD_some]
    generalize R.parseFirstLine line _ _ = r
    cases hr : r.thrown with
    | some e => simp [Step.mapState]
    | none =>
      have hh := headersCase_resumes R
        (p := { p with
          currentPkt := some r.pkt, currentSize := r.size, lineParser := lp,
          datapos := .headers }) rfl d
      simpa [eat] using hh

theorem round_resumes (p : GTTParser) : Resumes R (round R) p := by
  intro d
  cases hp : p.datapos with
  | firstLine => simpa [Resumes, round, eat, hp] using firstLineCase_resumes R hp d
  | headers => simpa [Resumes, round, eat, hp] using headersCase_resumes R hp d
  | content => simpa [Resumes, round, eat, hp] using contentCase_resumes R hp d

theorem machine_feeds : (machine R).Feeds eat where
  append p a b := by simp [eat, LineParser.push_append]
  step p d h := by
    have hr := round_resumes R p d
    change round R (p.eat d) = (round R p).mapState _
    cases hp : round R p with
    | stall p' => exact absurd hp (h p')
    | next p' | emit o p' | fail e p' => simpa [hp] using hr
  resume p p' d h := by
    have hr := round_resumes R p d
    have hp : round R p = .stall p' := h
    change round R (p.eat d) = round R (p'.eat d)
    simpa [hp] using hr

/-- Taking all packets out of a parser is draining the machine. -/
theorem packets_eq (p : GTTParser) :
    packets R p = (((machine R).drain p).1, caught ((machine R).drain p).2) := by
  induction hn : p.pending using Nat.strongRecOn generalizing p with
  | ind n ih =>
    subst hn
    by_cases hp : ∃ o p', (machine R).poll p = .emit o p'
    · obtain ⟨o, p', hp⟩ := hp
      have hg : getPacket R p = (.ok (some o), p') := by simp only [getPacket, hp]
      rw [packets_some R hg, (machine R).drain_poll_emit hp, ih _ (getPacket_lt R hg) p' rfl]
    · push Not at hp
      rw [(machine R).drain_poll_end hp]
      rcases hc : caught ((machine R).poll p) with ⟨p', _ | e⟩
      · exact packets_null R (getPacket_end R hp hc)
      · exact packets_throw R (getPacket_end R hp hc)

/-- What a round keeps: it throws only such exceptions, and leaves the error flag as it was, unless
it delivers a packet. -/
def Keeps (P : Exn → Prop) (flag : Bool) : Step GTTParser GTTPacket Exn → Prop
  | .fail e p => P e ∧ p.hasError = flag
  | .emit _ p => p.hasError = false
  | .next p | .stall p => p.hasError = flag

/-- The line rules throw only such exceptions, on the lines the parser gives them. -/
structure Throws (P : Exn → Prop) : Prop where
  firstLine : ∀ line pkt size e, (R.parseFirstLine line pkt size).thrown = some e → P e
  headerLine : ∀ line pkt size e, line.length ≠ 0 →
    (R.parseHeaderLine line pkt size).thrown = some e → P e

variable {R}

section
variable {P : Exn → Prop} {flag : Bool} {p : GTTParser}

theorem afterLine_keeps {r : LineResult} {k : GTTParser → Step GTTParser GTTPacket Exn}
    (hp : p.hasError = flag) (hr : ∀ e, r.thrown = some e → P e)
    (hk : ∀ q, q.hasError = flag → Keeps P flag (k q)) : Keeps P flag (afterLine p r k) := by
  unfold afterLine
  cases h : r.thrown with
  | none => exact hk _ hp
  | some e => exact ⟨hr e h, hp⟩

theorem contentCase_keeps (hp : p.hasError = flag) : Keeps P flag (contentCase p) := by
  unfold contentCase
  split
  · split
    · exact hp
    · rfl
  · rfl

theorem headersCase_keeps (hR : Throws R P) (hp : p.hasError = flag) :
    Keeps P flag (headersCase R p) := by
  cases hpop : p.lineParser.popLine with
  | none => simp only [headersCase, hpop]; exact hp
  | some r =>
    obtain ⟨line, lp⟩ := r
    by_cases hl : line.length ≠ 0
    · simp only [headersCase, hpop, hl, ne_eq, not_false_eq_true, if_true]
      exact afterLine_keeps hp (hR.headerLine line _ _ · hl) fun _ hq => hq
    · simp only [headersCase, hpop, hl, if_false]
      exact contentCase_keeps hp

theorem firstLineCase_keeps (hR : Throws R P) (hp : p.hasError = flag) :
    Keeps P flag (firstLineCase R p) := by
  cases hpop : p.lineParser.popLine with
  | none => simp only [firstLineCase, hpop]; exact hp
  | some r =>
    simp only [firstLineCase, hpop]
    exact afterLine_keeps hp (hR.firstLine r.1 _ _) fun _ hq => headersCase_keeps hR hq

theorem round_keeps (hR : Throws R P) (hp : p.hasError = flag) : Keeps P flag (round R p) := by
  unfold round
  split
  · exact firstLineCase_keeps hR hp
  · exact headersCase_keeps hR hp
  · exact contentCase_keeps hp

end

variable (R)

/-- The line rules throw nothing but parse errors, on the lines the parser gives them. -/
structure ParserOnly : Prop where
  firstLine : ∀ line pkt size e, (R.parseFirstLine line pkt size).thrown = some e → e.isParser
  headerLine : ∀ line pkt size e, line.length ≠ 0 →
    (R.parseHeaderLine line pkt size).thrown = some e → e.isParser

variable {R}

/-- A round leaves the error flag down, and an error it ends with is one `getPacket` catches. -/
def Sound : Step GTTParser GTTPacket Exn → Prop
  | .fail e p => e.isParser ∧ p.hasError = false
  | .next p | .emit _ p | .stall p => p.hasError = false

theorem round_sound (hR : ParserOnly R) {p : GTTParser} (hp : p.hasError = false) :
    Sound (round R p) := by
  have hkeeps := round_keeps (P := fun e => e.isParser) ⟨hR.firstLine, hR.headerLine⟩ hp
  cases hr : round R p <;> rw [hr] at hkeeps <;> exact hkeeps

/-- A parser without error that is drained waits without error or stops at a parse error. -/
theorem drain_sound (hR : ParserOnly R) {p : GTTParser} (hp : p.hasError = false) :
    Sound ((machine R).drain p).2 :=
  (machine R).drain_ends (I := fun p => p.hasError = false) (fun _ hq => round_sound hR hq)
    (fun _ hq => hq) (fun _ _ hq => hq) hp

/-- No exception leaves a `getPacket` of a parser without error. -/
theorem packets_noThrow (hR : ParserOnly R) {p : GTTParser} (hp : p.hasError = false) :
    (packets R p).2.2 = none := by
  have hs := drain_sound hR hp
  rw [packets_eq]
  cases hd : ((machine R).drain p).2 with
  | fail e q =>
    rw [hd] at hs
    simp [caught, hs.1]
  | next q | emit o q | stall q => simp [caught]

/-- Feeding chunk by chunk and taking the packets out is a run of the machine. -/
theorem eatChunks_eq (hR : ParserOnly R) (cs : List ByteStr) {p : GTTParser}
    (hp : p.hasError = false) :
    eatChunks R p cs =
      (((machine R).run eat p cs).1, (caught ((machine R).run eat p cs).2).1) := by
  induction cs generalizing p with
  | nil => simp [eatChunks, Transducer.run, caught]
  | cons c cs ih =>
    have hs := drain_sound hR (p := p.eat c) hp
    simp only [eatChunks, Transducer.run, packets_eq]
    rcases hd : (machine R).drain (p.eat c) with ⟨os, r⟩
    rw [hd] at hs
    cases r with
    | fail e q => simp [caught, hs.1]
    | next q | emit o q | stall q =>
      have hq : q.hasError = false := hs
      simp [caught, hq, ih hq]

theorem run_sound (hR : ParserOnly R) (cs : List ByteStr) {p : GTTParser}
    (hp : p.hasError = false) : Sound ((machine R).run eat p cs).2 := by
  induction cs generalizing p with
  | nil => exact hp
  | cons c cs ih =>
    have hs := drain_sound hR (p := p.eat c) hp
    rw [Transducer.run]
    rcases hd : (machine R).drain (p.eat c) with ⟨os, r⟩
    rw [hd] at hs
    cases r with
    | fail e q => exact hs
    | next q | emit o q | stall q => exact ih hs

/-- Two runs that end the same way leave the same error flag, and the same parser when it is
down. -/
theorem caught_of_verdict {r r' : Step GTTParser GTTPacket Exn} (hr : Sound r) (hr' : Sound r')
    (h : r.verdict = r'.verdict) :
    (caught r).1.hasError = (caught r').1.hasError ∧
    ((caught r).1.hasError = false → (caught r).1 = (caught r').1) := by
  cases r with
  | fail e p =>
    cases r' with
    | fail e' p' => simp [caught, hr.1, hr'.1]
    | next p' | emit o p' | stall p' => cases h
  | next p | emit o p | stall p =>
    cases r' with
    | fail e' p' => cases h
    | next p' | emit o p' | stall p' => cases h; simp [caught]

/-- The parsing functions of GTT throw nothing but `ParserException`. -/
theorem contentLength_isParser {module : String} {v : ByteStr} {pkt : GTTPacket} {size : Nat}
    {e : Exn} (h : (contentLength module v pkt size).thrown = some e) : e.isParser := by
  unfold contentLength at h
  split at h
  · cases h; rfl
  · split at h
    · rename_i hn
      cases h
      exact Text.toInt_error hn
    · split at h
      · cases h; rfl
      · cases h

theorem rules_parserOnly : ParserOnly rules where
  firstLine line pkt size e h := by
    simp only [rules, parseFirstLine] at h
    repeat' split at h
    all_goals cases h <;> rfl
  headerLine line pkt size e hl h := by
    simp only [rules, parseHeaderLine, hl, if_false] at h
    split at h
    · cases h; rfl
    · split at h
      · cases h; rfl
      · split at h
        · cases h; rfl
        · split at h
          · cases h; rfl
          · split at h
            · exact contentLength_isParser h
            · cases h

theorem getPacket_noThrow {p p' : GTTParser} {e : Exn} (hp : p.hasError = false) :
    getPacket rules p ≠ (.error e, p') := fun h => by
  have hnone := packets_noThrow rules_parserOnly hp
  rw [packets_throw rules h] at hnone
  cases hnone

/-- Two cuts of a stream come to the same, from any parser without error. -/
theorem eatChunks_congr {p : GTTParser} (hp : p.hasError = false) {cs ds : List ByteStr}
    (hc : cs ≠ []) (hd : ds ≠ []) (h : cs.flatten = ds.flatten) :
    (eatChunks rules p cs).1 = (eatChunks rules p ds).1 ∧
    (eatChunks rules p cs).2.hasError = (eatChunks rules p ds).2.hasError ∧
    ((eatChunks rules p cs).2.hasError = false →
      (eatChunks rules p cs).2 = (eatChunks rules p ds).2) := by
  obtain ⟨ho, hv⟩ := (machine_feeds rules).run_cut p hc hd h
  rw [eatChunks_eq rules_parserOnly cs hp, eatChunks_eq rules_parserOnly ds hp]
  exact ⟨ho, caught_of_verdict (run_sound rules_parserOnly cs hp)
    (run_sound rules_parserOnly ds hp) hv⟩

/-- Wherever a stream is cut, the parser delivers the same packets up to the first parser error,
meets an error or not alike, and without error ends in the same state. -/
theorem eatChunks_cut (cs ds : List ByteStr) (hc : cs ≠ []) (hd : ds ≠ [])
    (h : cs.flatten = ds.flatten) :
    (eatChunks rules fresh cs).1 = (eatChunks rules fresh ds).1 ∧
    (eatChunks rules fresh cs).2.hasError = (eatChunks rules fresh ds).2.hasError ∧
    ((eatChunks rules fresh cs).2.hasError = false →
      (eatChunks rules fresh cs).2 = (eatChunks rules fresh ds).2) :=
  eatChunks_congr rfl hc hd h

/-- A packet cut inside its line end, against the packet in one piece. -/
theorem eatChunks_cut_crlf :
    let cs := [lit "DHT PING\r", lit "\n\r\n"]
    let ds := [lit "DHT PING\r\n\r\n"]
    (eatChunks rules fresh cs).1 = (eatChunks rules fresh ds).1 ∧
    (eatChunks rules fresh cs).2.hasError = (eatChunks rules fresh ds).2.hasError ∧
    ((eatChunks rules fresh cs).2.hasError = false →
      (eatChunks rules fresh cs).2 = (eatChunks rules fresh ds).2) :=
  eatChunks_cut _ _ (by simp) (by simp) (by decide)

end Epyx.GTTParser
