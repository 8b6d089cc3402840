import Epyx.Parser.ContentLength

/-! The body of a message: what a parser delivers, waits for or refuses when the header section has
come, by the text of its content-length. -/
namespace Epyx.GTTParser
open Lib LineParser

/-- The packet a header line leaves behind. -/
def keep (k : Format) (pkt : GTTPacket) (raw : ByteStr) : GTTPacket :=
  (k.rules.parseHeaderLine (chomp raw) pkt 0).pkt

/-- A header line that is accepted and is no content-length. -/
structure OtherLine (k : Format) (raw : ByteStr) : Prop where
  newline : 10 ∉ raw
  name : ¬isContentLength (headerName (chomp raw))
  accepted : (k.rules.parseHeaderLine (chomp raw) .empty 0).thrown = none

/-- A header section with one content-length line: its lines as they come, without their `\n`. -/
structure HeaderSection (k : Format) where
  first : ByteStr
  before : List ByteStr
  content : ByteStr
  after : List ByteStr
  blank : ByteStr
  name : ByteStr
  spaces : Nat
  value : ByteStr
  first_ok : 10 ∉ first ∧ (k.rules.parseFirstLine (chomp first) .empty 0).thrown = none
  before_ok : ∀ raw ∈ before, OtherLine k raw
  after_ok : ∀ raw ∈ after, OtherLine k raw
  content_ok : 10 ∉ content ∧ chomp content = name ++ 58 :: (List.replicate spaces 32 ++ value)
  name_ok : isContentLength name
  value_ok : value.head? ≠ some 32
  blank_ok : 10 ∉ blank ∧ chomp blank = []

/-- Lines with their line ends. -/
def unlines (lines : List ByteStr) : ByteStr := lines.flatMap (· ++ [10])

namespace HeaderSection
variable {k : Format}

def bytes (s : HeaderSection k) : ByteStr :=
  unlines (s.first :: s.before ++ s.content :: s.after ++ [s.blank])

/-- The packet in front of the content-length line. -/
def started (s : HeaderSection k) : GTTPacket :=
  s.before.foldl (keep k) (k.rules.parseFirstLine (chomp s.first) .empty 0).pkt

/-- The packet without its body. -/
def head (s : HeaderSection k) : GTTPacket := s.after.foldl (keep k) s.started

/-- A content-length that is a positive decimal integer is the number of bytes that are waited for
behind the blank line and delivered as the body, however they come; any other is an error. -/
def Honoured (s : HeaderSection k) : Prop :=
  (∀ cs data, cs.flatten = s.bytes ++ data → firstPacket k.rules fresh cs =
    if IsSize s.value then
      if Decimal.value s.value ≤ data.length then
        (.ok (some { s.head with body := data.take (Decimal.value s.value) }), false)
      else (.ok none, false)
    else (.ok none, true)) ∧
  (IsSize s.value → ∀ cs, cs.flatten <+: s.bytes →
    firstPacket k.rules fresh cs = (.ok none, false))

end HeaderSection

/-- The texts for which the parsers do so: not the decimal integers that fit a `size_t` and no
`long`, and no other text that starts with a number or that HTTP takes for an empty value. -/
def ReadExactly (k : Format) (v : ByteStr) : Prop :=
  if IsDecimal v then ¬(2 ^ 63 ≤ Decimal.value v ∧ Decimal.value v < 2 ^ 64)
  else ¬(k = .http ∧ cstr v = []) ∧ ¬((cstr v).all printable ∧ StartsNumber (cstr v))

theorem parseFirstLine_keeps (k : Format) (line : ByteStr) (pkt : GTTPacket) (size : Nat) :
    (k.rules.parseFirstLine line pkt size).size = size ∧
      (k.rules.parseFirstLine line pkt size).pkt.body = pkt.body := by
  cases k with
  | gtt =>
    simp only [Format.rules, GTTParser.rules, parseFirstLine]
    repeat' split
    all_goals exact ⟨rfl, rfl⟩
  | http =>
    simp only [Format.rules, HTTPParser.rules, HTTPParser.parseFirstLine]
    repeat' split
    all_goals exact ⟨rfl, rfl⟩

/-- A header line that is no content-length is accepted whatever has been read before it. -/
theorem OtherLine.read {k : Format} {raw : ByteStr} (h : OtherLine k raw) (pkt : GTTPacket)
    (size : Nat) :
    k.rules.parseHeaderLine (chomp raw) pkt size = ⟨keep k pkt raw, size, none⟩ ∧
      (keep k pkt raw).body = pkt.body ∧ chomp raw ≠ [] := by
  have hname := h.name
  have hacc := h.accepted
  obtain ⟨name, text, hk, hline⟩ := k.header_accepted hacc
  rw [hline, headerName_colon hk] at hname
  rw [hline] at hacc
  rw [keep, hline]
  rcases k.header_read hk text with ⟨-, -, hread⟩ | ⟨v, -, hread⟩ | ⟨-, -, hread⟩
  · rw [hread, hread]
    exact ⟨rfl, rfl, by simp⟩
  · simp only [hname, Bool.false_eq_true, if_false] at hread
    rw [hread, hread]
    exact ⟨rfl, rfl, by simp⟩
  · obtain ⟨e, -, he⟩ := hread .empty 0
    rw [he] at hacc
    cases hacc

/-- The header lines that are no content-length fill the packet in their order. -/
theorem poll_others {k : Format} (lines : List ByteStr) (h : ∀ raw ∈ lines, OtherLine k raw)
    (pkt : GTTPacket) (size : Nat) (rest : ByteStr) :
    (machine k.rules).poll (reading pkt size (unlines lines ++ rest)) =
        (machine k.rules).poll (reading (lines.foldl (keep k) pkt) size rest) ∧
      (lines.foldl (keep k) pkt).body = pkt.body := by
  induction lines generalizing pkt with
  | nil => exact ⟨rfl, rfl⟩
  | cons raw lines ih =>
    have hraw := h raw (by simp)
    obtain ⟨hread, hbody, hne⟩ := hraw.read pkt size
    obtain ⟨hpoll, hrest⟩ := ih (fun r hr => h r (by simp [hr])) (keep k pkt raw)
    have hstep := step_reading_line (R := k.rules) hraw.newline hne pkt size (unlines lines ++ rest)
    simp only [hread] at hstep
    have hbytes : unlines (raw :: lines) ++ rest = raw ++ 10 :: (unlines lines ++ rest) := by
      simp [unlines]
    rw [hbytes, (machine k.rules).poll_next hstep]
    exact ⟨hpoll, hrest.trans hbody⟩

/-- The blank line ends the headers, and the body is taken or waited for. -/
theorem outcome_blank {R : LineRules} {pkt : GTTPacket} (hbody : pkt.body = []) (size : Nat)
    {blank : ByteStr} (hl : 10 ∉ blank) (hnil : chomp blank = []) (data : ByteStr) :
    outcome ((machine R).poll (reading pkt size (unlines [blank] ++ data))) =
      if size ≤ data.length then (.ok (some { pkt with body := data.take size }), false)
      else (.ok none, false) := by
  have hstep := step_reading_blank (R := R) hl hnil hbody size data
  have hbytes : unlines [blank] ++ data = blank ++ 10 :: data := by simp [unlines]
  rw [hbytes, (machine R).poll_of_ne_next (by rw [hstep]; split <;> simp), hstep]
  split <;> rfl

namespace HeaderSection
variable {k : Format} (s : HeaderSection k)

/-- What the content-length line comes to. -/
def sized : LineResult := k.rules.parseHeaderLine (chomp s.content) s.started 0

theorem started_body : s.started.body = [] :=
  (poll_others s.before s.before_ok _ 0 []).2.trans (parseFirstLine_keeps k _ _ _).2

theorem sized_reads : ReadsSize k s.value s.started s.sized := by
  rw [sized, s.content_ok.2]
  exact parseHeaderLine_readsSize k s.name_ok s.spaces s.value_ok s.started

/-- The lines up to the content-length are read one by one. -/
theorem poll_started (rest : ByteStr) :
    (machine k.rules).poll (fresh.eat (unlines (s.first :: s.before) ++ rest)) =
      (machine k.rules).poll (reading s.started 0 rest) := by
  have hbuffer : (ready (unlines (s.first :: s.before) ++ rest)).lineParser.buffer =
      s.first ++ 10 :: (unlines s.before ++ rest) := by simp [ready, unlines]
  rw [fresh_eat, poll_firstLine_accepted rfl s.first_ok.1 hbuffer s.first_ok.2]
  have hsize := (parseFirstLine_keeps k (chomp s.first) .empty 0).1
  have hpkt : (ready (unlines (s.first :: s.before) ++ rest)).pkt = .empty := rfl
  rw [hpkt, hsize]
  exact (poll_others s.before s.before_ok _ 0 rest).1

/-- What becomes of a header section and the bytes behind it. -/
theorem outcome_bytes (data : ByteStr) :
    outcome ((machine k.rules).poll (fresh.eat (s.bytes ++ data))) =
      if s.sized.thrown = none then
        if s.sized.size ≤ data.length then
          (.ok (some { s.after.foldl (keep k) s.sized.pkt with
            body := data.take s.sized.size }), false)
        else (.ok none, false)
      else (.ok none, true) := by
  have hbytes : s.bytes ++ data = unlines (s.first :: s.before) ++
      (s.content ++ 10 :: (unlines s.after ++ (unlines [s.blank] ++ data))) := by
    simp [bytes, unlines]
  have hne : chomp s.content ≠ [] := by rw [s.content_ok.2]; simp
  have hstep := step_reading_line (R := k.rules) s.content_ok.1 hne s.started 0
    (unlines s.after ++ (unlines [s.blank] ++ data))
  have hreads := s.sized_reads
  rw [← sized] at hstep
  rw [hbytes, poll_started]
  cases ht : s.sized.thrown with
  | some e =>
    simp only [ht] at hstep
    rw [(machine k.rules).poll_fail hstep]
    simp [outcome, hreads.parser e ht]
  | none =>
    simp only [ht] at hstep
    rw [(machine k.rules).poll_next hstep]
    have hothers := poll_others s.after s.after_ok s.sized.pkt s.sized.size
      (unlines [s.blank] ++ data)
    have hbody : (s.after.foldl (keep k) s.sized.pkt).body = [] :=
      hothers.2.trans (hreads.body.trans s.started_body)
    have hblank := outcome_blank (R := k.rules) hbody s.sized.size s.blank_ok.1 s.blank_ok.2 data
    rw [← hothers.1] at hblank
    simpa using hblank

theorem firstPacket_bytes {cs : List ByteStr} {data : ByteStr}
    (h : cs.flatten = s.bytes ++ data) :
    firstPacket k.rules fresh cs =
      outcome ((machine k.rules).poll (fresh.eat (s.bytes ++ data))) := by
  cases cs with
  | nil => simp [bytes, unlines] at h
  | cons c cs => rw [firstPacket_eq c cs rfl, h]

/-- A content-length that is refused is an error, whatever comes behind it. -/
theorem firstPacket_refused (hn : ¬Accepts k s.value) {cs : List ByteStr} {data : ByteStr}
    (h : cs.flatten = s.bytes ++ data) : firstPacket k.rules fresh cs = (.ok none, true) := by
  rw [s.firstPacket_bytes h, outcome_bytes, if_neg (mt s.sized_reads.accepts.mp hn)]

/-- A content-length that is accepted is no error. -/
theorem firstPacket_accepted (ha : Accepts k s.value) :
    (firstPacket k.rules fresh [s.bytes]).2 = false := by
  have hone : [s.bytes].flatten = s.bytes ++ [] := by simp
  rw [s.firstPacket_bytes hone, outcome_bytes,
    if_pos (s.sized_reads.accepts.mpr ha)]
  split <;> rfl

theorem accepts_decimal (hd : IsDecimal s.value) :
    Accepts k s.value ↔ 0 < Decimal.value s.value ∧ Decimal.value s.value < 2 ^ 63 := by
  simp [Accepts, hd.cstr_eq, hd.1, hd.printable, startsNumber_decimal hd]

/-- What is claimed of a decimal integer that a `long` holds. -/
theorem honoured_decimal (hd : IsDecimal s.value) (h0 : 0 < Decimal.value s.value)
    (hlt : Decimal.value s.value < 2 ^ 63) : s.Honoured := by
  have hsize : IsSize s.value := ⟨hd, h0, by omega⟩
  have hresult : ∀ data, outcome ((machine k.rules).poll (fresh.eat (s.bytes ++ data))) =
      if Decimal.value s.value ≤ data.length then
        (.ok (some { s.head with body := data.take (Decimal.value s.value) }), false)
      else (.ok none, false) := fun data => by
    rw [outcome_bytes, s.sized_reads.decimal hd h0 hlt, if_pos rfl]
    rfl
  refine ⟨fun cs data h => ?_, fun _ cs hpre => ?_⟩
  · rw [s.firstPacket_bytes h, hresult, if_pos hsize]
  · obtain ⟨rest, hrest⟩ := hpre
    have hall := hresult []
    rw [List.append_nil, ← hrest, List.length_nil, if_neg (by omega)] at hall
    cases cs with
    | nil => rfl
    | cons c cs => rw [firstPacket_eq c cs rfl, outcome_prefix rfl hall]

/-- A text that is no size and is accepted all the same. -/
theorem not_honoured_of_accepts (hs : ¬IsSize s.value) (ha : Accepts k s.value) : ¬s.Honoured := by
  intro hh
  have hclaim := hh.1 [s.bytes] [] (by simp)
  have hflag := s.firstPacket_accepted ha
  rw [hclaim, if_neg hs] at hflag
  cases hflag

/-- The content-length of a header section is kept exactly for the texts that are read exactly. -/
theorem honoured_iff (k : Format) (s : HeaderSection k) : s.Honoured ↔ ReadExactly k s.value := by
  have hone : [s.bytes].flatten = s.bytes ++ [] := by simp
  by_cases hd : IsDecimal s.value
  · rw [ReadExactly, if_pos hd]
    constructor
    · rintro hh ⟨h63, h64⟩
      have hn : ¬Accepts k s.value := fun ha => by
        have := (s.accepts_decimal hd).mp ha
        omega
      have hsize : IsSize s.value := ⟨hd, by omega, h64⟩
      have hclaim := hh.1 [s.bytes] [] hone
      rw [if_pos hsize, if_neg (by simp; omega), s.firstPacket_refused hn hone] at hclaim
      simp at hclaim
    · intro hrange
      by_cases hb : 0 < Decimal.value s.value ∧ Decimal.value s.value < 2 ^ 63
      · exact s.honoured_decimal hd hb.1 hb.2
      · have hn : ¬Accepts k s.value := mt (s.accepts_decimal hd).mp hb
        have hsize : ¬IsSize s.value := fun hs => by
          have := hs.2
          omega
        refine ⟨fun cs data h => ?_, fun hs => absurd hs hsize⟩
        rw [if_neg hsize, s.firstPacket_refused hn h]
  · have hsize : ¬IsSize s.value := fun hs => hd hs.1
    have hiff : ReadExactly k s.value ↔ ¬Accepts k s.value := by
      rw [ReadExactly, if_neg hd, Accepts, not_or]
    rw [hiff]
    constructor
    · exact fun hh ha => s.not_honoured_of_accepts hsize ha hh
    · intro hn
      refine ⟨fun cs data h => ?_, fun hs => absurd hs hsize⟩
      rw [if_neg hsize, s.firstPacket_refused hn h]

/-- A message that announces a negative size, a number with text behind it, and an HTTP answer that
announces nothing at all. -/
theorem not_honoured :
    (∃ s : HeaderSection .gtt,
      s.bytes = lit "DHT PING\r\ncontent-length: -5\r\n\r\n" ∧ ¬s.Honoured) ∧
    (∃ s : HeaderSection .http,
      s.bytes = lit "HTTP/1.1 200 OK\r\nContent-Length: 12abc\r\n\r\n" ∧ ¬s.Honoured) ∧
    ∃ s : HeaderSection .http,
      s.bytes = lit "HTTP/1.1 200 OK\r\nContent-Length:\r\n\r\n" ∧ ¬s.Honoured := by
  refine ⟨?_, ?_, ?_⟩
  · refine ⟨{
      first := lit "DHT PING\r", before := [], content := lit "content-length: -5\r"
      after := [], blank := [13], name := lit "content-length", spaces := 1, value := lit "-5"
      first_ok := by decide, before_ok := by simp, after_ok := by simp, content_ok := by decide
      name_ok := by decide, value_ok := by decide, blank_ok := by decide }, by decide, ?_⟩
    exact not_honoured_of_accepts _ (by decide) (.inr (by decide))
  · refine ⟨{
      first := lit "HTTP/1.1 200 OK\r", before := [], content := lit "Content-Length: 12abc\r"
      after := [], blank := [13], name := lit "Content-Length", spaces := 1, value := lit "12abc"
      first_ok := by decide, before_ok := by simp, after_ok := by simp, content_ok := by decide
      name_ok := by decide, value_ok := by decide, blank_ok := by decide }, by decide, ?_⟩
    exact not_honoured_of_accepts _ (by decide) (.inr (by decide))
  · refine ⟨{
      first := lit "HTTP/1.1 200 OK\r", before := [], content := lit "Content-Length:\r"
      after := [], blank := [13], name := lit "Content-Length", spaces := 0, value := lit ""
      first_ok := by decide, before_ok := by simp, after_ok := by simp, content_ok := by decide
      name_ok := by decide, value_ok := by decide, blank_ok := by decide }, by decide, ?_⟩
    exact not_honoured_of_accepts _ (by decide) (.inl (by decide))

end HeaderSection
end Epyx.GTTParser
