import Epyx.Parser.GTTParser

/-! What a round of `getPacket` makes of a whole line or a body, whatever the line rules. -/
namespace Epyx.GTTParser
open Lib LineParser
variable {R : LineRules} {p : GTTParser} {raw rest : ByteStr}

theorem popLine_raw (hl : 10 ∉ raw) (hb : p.lineParser.buffer = raw ++ 10 :: rest) :
    p.lineParser.popLine = some (chomp raw, ⟨rest⟩) := by
  have h : p.lineParser = ⟨raw ++ 10 :: rest⟩ := congrArg LineParser.mk hb
  rw [h, popLine_line rest hl]

theorem step_line (hd : p.datapos = .headers) (hl : 10 ∉ raw)
    (hb : p.lineParser.buffer = raw ++ 10 :: rest) (hne : chomp raw ≠ []) :
    (machine R).step p = afterLine { p with lineParser := ⟨rest⟩ }
      (R.parseHeaderLine (chomp raw) p.pkt p.currentSize) .next := by
  have hlen : (chomp raw).length ≠ 0 := fun h => hne (List.length_eq_zero_iff.mp h)
  simp only [machine_step, round, hd, headersCase, popLine_raw hl hb, ne_eq, hlen,
    not_false_eq_true, if_true]
  rfl

theorem step_blank (hd : p.datapos = .headers) (hl : 10 ∉ raw)
    (hb : p.lineParser.buffer = raw ++ 10 :: rest) (hnil : chomp raw = []) :
    (machine R).step p = contentCase { p with lineParser := ⟨rest⟩, datapos := .content } := by
  simp only [machine_step, round, hd, headersCase, popLine_raw hl hb, hnil, List.length_nil, ne_eq,
    not_true, if_false]

/-- The first line starts a packet, and the headers are read on from it. -/
theorem step_firstLine (hd : p.datapos = .firstLine) (hl : 10 ∉ raw)
    (hb : p.lineParser.buffer = raw ++ 10 :: rest) :
    (machine R).step p =
      afterLine { p with currentPkt := some p.pkt, currentSize := 0, lineParser := ⟨rest⟩ }
        (R.parseFirstLine (chomp raw) p.pkt 0) fun q =>
          (machine R).step { q with datapos := .headers } := by
  simp only [machine_step, round, hd, firstLineCase, popLine_raw hl hb]
  rfl

/-- Without a whole line nothing is read. -/
theorem step_noLine (hd : p.datapos ≠ .content) (hpop : p.lineParser.popLine = none) :
    ∃ q, (machine R).step p = .stall q := by
  cases hp : p.datapos with
  | firstLine =>
    simp only [machine_step, round, hp, firstLineCase, hpop]
    exact ⟨_, rfl⟩
  | headers =>
    simp only [machine_step, round, hp, headersCase, hpop]
    exact ⟨_, rfl⟩
  | content => exact absurd hp hd

/-- The body has come or is waited for; without a length the packet is left as it is. -/
theorem contentCase_cases (p : GTTParser) :
    contentCase p =
      if p.currentSize ≤ p.lineParser.buffer.length then
        .emit { p.pkt with
            body := if 0 < p.currentSize then p.lineParser.buffer.take p.currentSize
              else p.pkt.body }
          (startPacket { p with lineParser := ⟨p.lineParser.buffer.drop p.currentSize⟩ })
      else .stall p := by
  unfold contentCase popData
  by_cases hsize : p.currentSize > 0
  · by_cases hle : p.currentSize ≤ p.lineParser.buffer.length
    · simp [hsize, hle, Nat.not_lt.mpr hle]
    · simp [hsize, hle, Nat.lt_of_not_le hle]
  · have h0 : p.currentSize = 0 := by omega
    simp [h0, startPacket]

theorem contentCase_eq (p : GTTParser) (hbody : p.pkt.body = []) :
    contentCase p =
      if p.currentSize ≤ p.lineParser.buffer.length then
        .emit { p.pkt with body := p.lineParser.buffer.take p.currentSize }
          (startPacket { p with lineParser := ⟨p.lineParser.buffer.drop p.currentSize⟩ })
      else .stall p := by
  have hempty : (if 0 < p.currentSize then p.lineParser.buffer.take p.currentSize
      else p.pkt.body) = p.lineParser.buffer.take p.currentSize := by
    by_cases hsize : 0 < p.currentSize
    · rw [if_pos hsize]
    · rw [if_neg hsize, hbody, Nat.eq_zero_of_not_pos hsize, List.take_zero]
  rw [contentCase_cases, hempty]

theorem contentCase_emits_iff (p : GTTParser) :
    (∃ o q, contentCase p = .emit o q) ↔ p.currentSize ≤ p.lineParser.buffer.length := by
  rw [contentCase_cases]
  by_cases hle : p.currentSize ≤ p.lineParser.buffer.length <;> simp [hle]

theorem getPacket_eq_some_iff {o : GTTPacket} {p' : GTTParser} :
    getPacket R p = (.ok (some o), p') ↔ (machine R).poll p = .emit o p' := by
  unfold getPacket
  cases (machine R).poll p with
  | emit o' q => simp
  | next q | stall q => simp [caught]
  | fail e q => cases he : e.isParser <;> simp [caught, he]

/-- The parser that has accepted its first line reads on from the headers. -/
theorem poll_firstLine_accepted (hd : p.datapos = .firstLine) (hl : 10 ∉ raw)
    (hb : p.lineParser.buffer = raw ++ 10 :: rest)
    (ht : (R.parseFirstLine (chomp raw) p.pkt 0).thrown = none) :
    (machine R).poll p = (machine R).poll { p with
      currentPkt := some (R.parseFirstLine (chomp raw) p.pkt 0).pkt,
      currentSize := (R.parseFirstLine (chomp raw) p.pkt 0).size,
      lineParser := ⟨rest⟩, datapos := .headers } := by
  refine (machine R).poll_congr ?_
  rw [step_firstLine hd hl hb]
  simp only [afterLine, ht]

theorem poll_firstLine_refused {e : Exn} (hd : p.datapos = .firstLine) (hl : 10 ∉ raw)
    (hb : p.lineParser.buffer = raw ++ 10 :: rest)
    (ht : (R.parseFirstLine (chomp raw) p.pkt 0).thrown = some e) :
    (machine R).poll p = .fail e { p with
      currentPkt := some (R.parseFirstLine (chomp raw) p.pkt 0).pkt,
      currentSize := (R.parseFirstLine (chomp raw) p.pkt 0).size,
      lineParser := ⟨rest⟩ } := by
  refine (machine R).poll_fail ?_
  rw [step_firstLine hd hl hb]
  simp only [afterLine, ht]

/-- A header line that is accepted is read, and the next one is waited for. -/
theorem poll_line_accepted (hd : p.datapos = .headers) (hl : 10 ∉ raw)
    (hb : p.lineParser.buffer = raw ++ 10 :: rest) (hne : chomp raw ≠ [])
    (ht : (R.parseHeaderLine (chomp raw) p.pkt p.currentSize).thrown = none) :
    (machine R).poll p = (machine R).poll { p with
      currentPkt := some (R.parseHeaderLine (chomp raw) p.pkt p.currentSize).pkt,
      currentSize := (R.parseHeaderLine (chomp raw) p.pkt p.currentSize).size,
      lineParser := ⟨rest⟩ } := by
  refine (machine R).poll_next ?_
  rw [step_line hd hl hb hne]
  simp only [afterLine, ht]

theorem poll_line_refused {e : Exn} (hd : p.datapos = .headers) (hl : 10 ∉ raw)
    (hb : p.lineParser.buffer = raw ++ 10 :: rest) (hne : chomp raw ≠ [])
    (ht : (R.parseHeaderLine (chomp raw) p.pkt p.currentSize).thrown = some e) :
    (machine R).poll p = .fail e { p with
      currentPkt := some (R.parseHeaderLine (chomp raw) p.pkt p.currentSize).pkt,
      currentSize := (R.parseHeaderLine (chomp raw) p.pkt p.currentSize).size,
      lineParser := ⟨rest⟩ } := by
  refine (machine R).poll_fail ?_
  rw [step_line hd hl hb hne]
  simp only [afterLine, ht]

end Epyx.GTTParser
