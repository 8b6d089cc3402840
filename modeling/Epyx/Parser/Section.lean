import Epyx.Parser.Chunks
import Epyx.Parser.Framing

/-! What the parser makes of the lines it holds, whatever its line rules, and when they are the
rest of a message. -/
namespace Epyx.GTTParser
open Lib LineParser
variable (R : LineRules)

/-- The rest of a message from inside its headers: lines that are accepted, the blank line and as
many bytes as the headers announce. -/
inductive HeadersEnd : GTTPacket → Nat → ByteStr → Prop
  | blank {pkt size raw rest} : 10 ∉ raw → chomp raw = [] → size ≤ rest.length →
      HeadersEnd pkt size (raw ++ 10 :: rest)
  | line {pkt size raw rest} : 10 ∉ raw → chomp raw ≠ [] →
      (R.parseHeaderLine (chomp raw) pkt size).thrown = none →
      HeadersEnd (R.parseHeaderLine (chomp raw) pkt size).pkt
        (R.parseHeaderLine (chomp raw) pkt size).size rest →
      HeadersEnd pkt size (raw ++ 10 :: rest)

/-- The buffer starts with the rest of the message the parser is in. -/
def Complete (p : GTTParser) : Prop :=
  match p.datapos with
  | .firstLine => ∃ raw rest, 10 ∉ raw ∧ p.lineParser.buffer = raw ++ 10 :: rest ∧
      (R.parseFirstLine (chomp raw) p.pkt 0).thrown = none ∧
      HeadersEnd R (R.parseFirstLine (chomp raw) p.pkt 0).pkt
        (R.parseFirstLine (chomp raw) p.pkt 0).size rest
  | .headers => HeadersEnd R p.pkt p.currentSize p.lineParser.buffer
  | .content => p.currentSize ≤ p.lineParser.buffer.length

variable {R}

theorem emit_of_headersEnd {pkt : GTTPacket} {size : Nat} {buffer : ByteStr}
    (h : HeadersEnd R pkt size buffer) {p : GTTParser} (hd : p.datapos = .headers)
    (hpkt : p.pkt = pkt) (hsize : p.currentSize = size) (hb : p.lineParser.buffer = buffer) :
    ∃ o q, (machine R).poll p = .emit o q := by
  induction h generalizing p with
  | @blank pkt size raw rest hl hnil hle =>
    obtain ⟨o, q, he⟩ := (contentCase_emits_iff
      { p with lineParser := ⟨rest⟩, datapos := .content }).mpr (by simpa [hsize] using hle)
    exact ⟨o, q, (machine R).poll_emit ((step_blank hd hl hb hnil).trans he)⟩
  | @line pkt size raw rest hl hne ht _ ih =>
    subst hpkt hsize
    rw [poll_line_accepted hd hl hb hne ht]
    exact ih hd rfl rfl rfl

/-- Before the body a packet is delivered behind a line only. -/
theorem line_of_emit {p : GTTParser} (hd : p.datapos ≠ .content) {o : GTTPacket} {q : GTTParser}
    (h : (machine R).poll p = .emit o q) :
    ∃ raw rest, 10 ∉ raw ∧ p.lineParser.buffer = raw ++ 10 :: rest := by
  cases hpop : p.lineParser.popLine with
  | none =>
    obtain ⟨q', hs⟩ := step_noLine (R := R) hd hpop
    rw [(machine R).poll_stall hs] at h
    cases h
  | some r =>
    obtain ⟨raw, hl, -, hb⟩ := popLine_eq_some hpop
    exact ⟨raw, r.2.buffer, hl, hb⟩

/-- What is left of a message that is delivered from inside its headers. -/
theorem headersEnd_of_emit {p : GTTParser} (hd : p.datapos = .headers) {o : GTTPacket}
    {q : GTTParser} (h : (machine R).poll p = .emit o q) :
    HeadersEnd R p.pkt p.currentSize p.lineParser.buffer := by
  induction hn : p.lineParser.buffer.length using Nat.strongRecOn generalizing p with
  | ind n ih =>
    subst hn
    obtain ⟨raw, rest, hl, hb⟩ := line_of_emit (by simp [hd]) h
    rw [hb]
    by_cases hnil : chomp raw = []
    · have hs := step_blank (R := R) hd hl hb hnil
      rw [(machine R).poll_of_ne_next fun s' hs' =>
        contentCase_ne_next _ _ (hs.symm.trans hs'), hs] at h
      exact .blank hl hnil ((contentCase_emits_iff _).mp ⟨o, q, h⟩)
    · cases ht : (R.parseHeaderLine (chomp raw) p.pkt p.currentSize).thrown with
      | some e =>
        rw [poll_line_refused hd hl hb hnil ht] at h
        cases h
      | none =>
        have hlt : rest.length < p.lineParser.buffer.length := by
          simp only [hb, List.length_append, List.length_cons]
          omega
        rw [poll_line_accepted hd hl hb hnil ht] at h
        exact .line hl hnil ht (ih _ hlt (p := { p with
          currentPkt := some (R.parseHeaderLine (chomp raw) p.pkt p.currentSize).pkt,
          currentSize := (R.parseHeaderLine (chomp raw) p.pkt p.currentSize).size,
          lineParser := ⟨rest⟩ }) hd h rfl)

/-- From its first line a message is delivered if the line is accepted and the rest is there. -/
theorem firstLine_emits_iff {p : GTTParser} (hd : p.datapos = .firstLine) :
    (∃ o q, (machine R).poll p = .emit o q) ↔ Complete R p := by
  simp only [Complete, hd]
  constructor
  · rintro ⟨o, q, h⟩
    obtain ⟨raw, rest, hl, hb⟩ := line_of_emit (by simp [hd]) h
    cases ht : (R.parseFirstLine (chomp raw) p.pkt 0).thrown with
    | some e =>
      rw [poll_firstLine_refused hd hl hb ht] at h
      cases h
    | none =>
      rw [poll_firstLine_accepted hd hl hb ht] at h
      exact ⟨raw, rest, hl, hb, ht, headersEnd_of_emit rfl h⟩
  · rintro ⟨raw, rest, hl, hb, ht, hend⟩
    rw [poll_firstLine_accepted hd hl hb ht]
    exact emit_of_headersEnd hend rfl rfl rfl rfl

/-- The next call of `getPacket` returns a packet if and only if the buffer starts with the rest of
a message. -/
theorem getPacket_packet_iff (p : GTTParser) :
    (∃ o, (getPacket R p).1 = .ok (some o)) ↔ Complete R p := by
  have hpoll : (∃ o, (getPacket R p).1 = .ok (some o)) ↔
      ∃ o q, (machine R).poll p = .emit o q := by
    simp only [← getPacket_eq_some_iff]
    constructor
    · rintro ⟨o, h⟩
      exact ⟨o, _, Prod.ext h rfl⟩
    · rintro ⟨o, q, h⟩
      exact ⟨o, congrArg Prod.fst h⟩
  rw [hpoll]
  cases hd : p.datapos with
  | firstLine => exact firstLine_emits_iff hd
  | headers =>
    simp only [Complete, hd]
    constructor
    · rintro ⟨o, q, h⟩
      exact headersEnd_of_emit hd h
    · exact fun h => emit_of_headersEnd h hd rfl rfl rfl
  | content =>
    simp only [Complete, hd]
    have hs : (machine R).step p = contentCase p := by simp only [machine_step, round, hd]
    rw [(machine R).poll_of_ne_next fun s' hs' => contentCase_ne_next _ _ (hs.symm.trans hs'), hs]
    exact contentCase_emits_iff p

/-- Polling leaves the error flag as it was, unless it delivers a packet. -/
theorem poll_keeps {flag : Bool} {p : GTTParser} (hp : p.hasError = flag) :
    Keeps (fun _ => True) flag ((machine R).poll p) :=
  (machine R).poll_ends (I := fun p => p.hasError = flag)
    (fun _ hq => round_keeps ⟨fun _ _ _ _ _ => trivial, fun _ _ _ _ _ _ => trivial⟩ hq)
    (fun _ hq => hq) hp

/-- What the calls of `getPacket` come to, one after each chunk, up to the first that returns a
packet or reports an error: what it returns, and whether there is an error. -/
def firstPacket (R : LineRules) (p : GTTParser) :
    List ByteStr → Except Exn (Option GTTPacket) × Bool
  | [] => (.ok none, p.hasError)
  | c :: cs =>
    match getPacket R (p.eat c) with
    | (.ok none, q) => if q.hasError then (.ok none, true) else firstPacket R q cs
    | (r, q) => (r, q.hasError)

/-- What a call of `getPacket` comes to. -/
def outcome (r : Step GTTParser GTTPacket Exn) : Except Exn (Option GTTPacket) × Bool :=
  match r with
  | .emit o p => (.ok (some o), p.hasError)
  | .next p | .stall p => (.ok none, p.hasError)
  | .fail e p => if e.isParser then (.ok none, true) else (.error e, p.hasError)

theorem getPacket_outcome (p : GTTParser) :
    ((getPacket R p).1, (getPacket R p).2.hasError) = outcome ((machine R).poll p) := by
  unfold getPacket
  cases (machine R).poll p with
  | emit o q => rfl
  | next q | stall q => rfl
  | fail e q => cases he : e.isParser <;> simp [caught, outcome, he]

/-- Bytes that come after a call change only a call that has found nothing. -/
theorem poll_eat_append (p : GTTParser) (c d : ByteStr) :
    (machine R).poll (p.eat (c ++ d)) =
      match (machine R).poll (p.eat c) with
      | .stall q => (machine R).poll (q.eat d)
      | r => r.mapState (·.eat d) := by
  rw [(machine_feeds R).append, (machine_feeds R).poll_feed]
  cases (machine R).poll (p.eat c) <;> rfl

/-- However a stream is cut, the first packet or error is the one of the stream in one piece. -/
theorem firstPacket_eq (c : ByteStr) (cs : List ByteStr) {p : GTTParser} (hp : p.hasError = false) :
    firstPacket R p (c :: cs) = outcome ((machine R).poll (p.eat (c :: cs).flatten)) := by
  induction cs generalizing c p with
  | nil =>
    rw [List.flatten_cons, List.flatten_nil, List.append_nil, ← getPacket_outcome, firstPacket]
    rcases getPacket R (p.eat c) with ⟨_ | _ | _, q⟩
    · rfl
    · cases hq : q.hasError <;> simp [firstPacket, hq]
    · rfl
  | cons c' cs ih =>
    have hflag : Keeps (fun _ => True) false ((machine R).poll (p.eat c)) := poll_keeps hp
    have hget := getPacket_outcome (R := R) (p.eat c)
    rw [List.flatten_cons, poll_eat_append, firstPacket]
    cases hpoll : (machine R).poll (p.eat c) with
    | next q => exact absurd hpoll ((machine R).poll_ne_next _ _)
    | emit o q =>
      simp only [getPacket_eq_some_iff.mpr hpoll]
      rfl
    | fail e q =>
      rw [hpoll] at hget
      rcases hg : getPacket R (p.eat c) with ⟨r, q'⟩
      rw [hg] at hget
      cases he : e.isParser with
      | true =>
        simp only [outcome, he, if_true, Prod.mk.injEq] at hget
        simp [hget.1, hget.2, outcome, Step.mapState, he]
      | false =>
        simp only [outcome, he, Bool.false_eq_true, if_false, Prod.mk.injEq] at hget
        simp only [hget.1, hget.2, outcome, Step.mapState, he, Bool.false_eq_true, if_false]
        rfl
    | stall q =>
      rw [hpoll] at hflag
      have hq : q.hasError = false := hflag
      simp only [getPacket_stall R hpoll, hq, Bool.false_eq_true, if_false]
      exact ih c' hq

/-- Where a stream has come to nothing, it had come to nothing before. -/
theorem outcome_prefix {p : GTTParser} (hp : p.hasError = false) {c d : ByteStr}
    (h : outcome ((machine R).poll (p.eat (c ++ d))) = (.ok none, false)) :
    outcome ((machine R).poll (p.eat c)) = (.ok none, false) := by
  rw [poll_eat_append] at h
  have hflag : Keeps (fun _ => True) false ((machine R).poll (p.eat c)) := poll_keeps hp
  cases hpoll : (machine R).poll (p.eat c) with
  | next q => exact absurd hpoll ((machine R).poll_ne_next _ _)
  | emit o q => simp [hpoll, outcome, Step.mapState] at h
  | fail e q =>
    rw [hpoll] at h
    cases he : e.isParser <;> simp [outcome, Step.mapState, he] at h
  | stall q =>
    rw [hpoll] at hflag
    have hq : q.hasError = false := hflag
    simp [outcome, hq]

end Epyx.GTTParser
