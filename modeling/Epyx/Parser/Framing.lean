import Epyx.Parser.Rounds
import Epyx.Lib.TreeMap

/-! What the parser makes of the bytes of `GTTPacket::build`: the lines, the blank line and the
decimal content-length bring it back to the right byte whatever the bodies hold. -/
namespace Epyx

/-- `[A-Z][A-Z0-9_]*` -/
def isName : ByteStr → Bool
  | [] => false
  | c :: s => isupper c && s.all GTTParser.nameByte

/-- `[A-Za-z][A-Za-z0-9_-]*` -/
def isFlagName : ByteStr → Bool
  | [] => false
  | c :: s => isalpha c && s.all GTTParser.flagByte

/-- A header value: printable, not empty and not starting with a space. -/
def isFlagValue : ByteStr → Bool
  | [] => false
  | c :: s => c != 32 && (c :: s).all printable

/-- The packets the GTT format can carry. -/
structure GTTPacket.WellFormed (p : GTTPacket) : Prop where
  protocol : isName p.protocol
  method : isName p.method
  headers : ∀ h ∈ p.headers.toList,
    isFlagName h.1 ∧ ¬GTTParser.isContentLength h.1 ∧ isFlagValue h.2
  body : p.body.length < 2 ^ 63

namespace GTTParser
open Lib

theorem notMem_of_all {ok : Byte → Bool} {s : ByteStr} {c : Byte} (h : s.all ok)
    (hc : ok c = false) : c ∉ s := fun hm => by
  have := List.all_eq_true.mp h c hm
  simp [hc] at this

theorem isName_cons {s : ByteStr} (h : isName s) :
    ∃ c t, s = c :: t ∧ isupper c ∧ t.all nameByte := by
  cases s with
  | nil => cases h
  | cons c t => exact ⟨c, t, rfl, by simpa [isName] using h⟩

theorem isFlagName_cons {s : ByteStr} (h : isFlagName s) :
    ∃ c t, s = c :: t ∧ isalpha c ∧ t.all flagByte := by
  cases s with
  | nil => cases h
  | cons c t => exact ⟨c, t, rfl, by simpa [isFlagName] using h⟩

theorem isFlagValue_cons {s : ByteStr} (h : isFlagValue s) :
    ∃ c t, s = c :: t ∧ c ≠ 32 ∧ (c :: t).all printable := by
  cases s with
  | nil => cases h
  | cons c t => exact ⟨c, t, rfl, by simpa [isFlagValue] using h⟩

theorem notMem_name {s : ByteStr} {c : Byte} (h : isName s)
    (hc : isupper c = false ∧ nameByte c = false) : c ∉ s := by
  obtain ⟨d, t, rfl, hd, ht⟩ := isName_cons h
  have hcd : c ≠ d := by rintro rfl; simp [hc.1] at hd
  simpa [hcd] using notMem_of_all ht hc.2

theorem isFlagValue_iff {s : ByteStr} :
    isFlagValue s ↔ s ≠ [] ∧ s.head? ≠ some 32 ∧ s.all printable := by
  cases s with
  | nil => simp [isFlagValue]
  | cons c t => simp [isFlagValue]

/-- Text without spaces is a header value. -/
theorem isFlagValue_of_forall {s : ByteStr} (hne : s ≠ [])
    (h : ∀ c ∈ s, printable c ∧ c ≠ 32) : isFlagValue s :=
  isFlagValue_iff.mpr ⟨hne, fun h32 => (h 32 (List.mem_of_mem_head? h32)).2 rfl,
    List.all_eq_true.mpr fun c hc => (h c hc).1⟩

theorem headerOk {k v : ByteStr} (hk : isFlagName k ∧ ¬isContentLength k) (hv : isFlagValue v) :
    isFlagName k ∧ ¬isContentLength k ∧ isFlagValue v := ⟨hk.1, hk.2, hv⟩

theorem isdigit_printable {c : Byte} (h : isdigit c) : printable c ∧ c ≠ 32 := by
  have hb := Text.isdigit_bounds h
  refine ⟨?_, by rintro rfl; exact absurd h (by decide)⟩
  simp only [printable, Bool.and_eq_true, decide_eq_true_eq, UInt8.le_iff_toNat_le,
    UInt8.lt_iff_toNat_lt, UInt8.reduceToNat]
  omega

theorem islower_printable {c : Byte} (h : islower c) : printable c ∧ c ≠ 32 := by
  simp only [islower, Bool.and_eq_true, decide_eq_true_eq, UInt8.le_iff_toNat_le,
    UInt8.reduceToNat] at h
  refine ⟨?_, by rintro rfl; exact absurd h (by decide)⟩
  simp only [printable, Bool.and_eq_true, decide_eq_true_eq, UInt8.le_iff_toNat_le,
    UInt8.lt_iff_toNat_lt, UInt8.reduceToNat]
  omega

theorem fromInt_isFlagValue (n : Int) : isFlagValue (Text.fromInt n) := by
  refine isFlagValue_of_forall (Text.fromInt_ne_nil n) fun c hc => ?_
  rcases Text.fromInt_bytes hc with hd | rfl
  · exact isdigit_printable hd
  · decide

/-- The first line of a packet reads back as its protocol and its method. -/
theorem parseFirstLine_build {a b : ByteStr} (ha : isName a) (hb : isName b) (pkt : GTTPacket)
    (size : Nat) :
    parseFirstLine (a ++ 32 :: b) pkt size =
      ⟨{ pkt with protocol := a, method := b }, size, none⟩ := by
  obtain ⟨c, s, rfl, hc, hs⟩ := isName_cons ha
  obtain ⟨d, t, rfl, hd, ht⟩ := isName_cons hb
  have h1 : scan 32 nameByte (s ++ 32 :: d :: t) = some (s, 32 :: d :: t) :=
    scan_stop _ (notMem_of_all hs (by decide)) (List.all_eq_true.mp hs)
  have h2 : scan 0 nameByte t = some (t, []) :=
    scan_end (notMem_of_all ht (by decide)) (List.all_eq_true.mp ht)
  simp [parseFirstLine, hc, hd, h1, h2]

/-- A header line of a packet reads back as its name and its value. -/
theorem parseHeaderLine_build {k v : ByteStr} (hk : isFlagName k) (hv : isFlagValue v)
    (pkt : GTTPacket) (size : Nat) :
    parseHeaderLine (k ++ 58 :: 32 :: v) pkt size =
      if isContentLength k then contentLength "GTTParser" v pkt size
      else ⟨{ pkt with headers := pkt.headers.insert k v }, size, none⟩ := by
  obtain ⟨c, s, rfl, hc, hs⟩ := isFlagName_cons hk
  obtain ⟨d, t, rfl, hd, ht⟩ := isFlagValue_cons hv
  have h1 : scan 58 flagByte (s ++ 58 :: 32 :: d :: t) = some (s, 58 :: 32 :: d :: t) :=
    scan_stop _ (notMem_of_all hs (by decide)) (List.all_eq_true.mp hs)
  have h0 : (0 : Byte) ∉ d :: t := notMem_of_all ht (by decide)
  have hd0 : d ≠ 0 := fun h => h0 (by simp [h])
  have h2 : scan 0 printable (d :: t) = some (d :: t, []) :=
    scan_end h0 (List.all_eq_true.mp ht)
  simp [parseHeaderLine, hc, h1, h2, hd, hd0]
  rfl

theorem scan_eq_some {stop : Byte} {ok : Byte → Bool} (hs : stop ≠ 0) {s w r : ByteStr}
    (h : scan stop ok s = some (w, r)) : w.all ok ∧ ∃ t, r = stop :: t ∧ s = w ++ stop :: t := by
  induction s generalizing w with
  | nil => simp [scan, hs] at h
  | cons c s ih =>
    by_cases hc : c = stop
    · simp only [scan, hc, if_true, Option.some.injEq, Prod.mk.injEq] at h
      obtain ⟨rfl, rfl⟩ := h
      exact ⟨rfl, s, rfl, by simp [hc]⟩
    · cases hok : ok c with
      | false => simp [scan, hc, hok] at h
      | true =>
        simp only [scan, hc, hok, if_true, if_false, Option.map_eq_some_iff] at h
        obtain ⟨⟨w', r'⟩, h', heq⟩ := h
        cases heq
        obtain ⟨hall, t, rfl, rfl⟩ := ih h'
        exact ⟨by simp [hok, hall], t, rfl, rfl⟩

/-- The value a header line has when any text stands behind its name: leading spaces and what
follows a NUL are not seen. There is none when no byte is left, or one that cannot be printed. -/
def flagValue (text : ByteStr) : Option ByteStr :=
  let v := cstr (text.dropWhile (· == 32))
  if v ≠ [] ∧ v.all printable then some v else none

theorem scan_zero (ok : Byte → Bool) (s : ByteStr) :
    (scan 0 ok s).map Prod.fst = if (cstr s).all ok then some (cstr s) else none := by
  induction s with
  | nil => rfl
  | cons c s ih =>
    by_cases hc : c = 0
    · simp [scan, cstr, hc]
    · have hcs : cstr (c :: s) = c :: cstr s := by simp [cstr, hc]
      rw [scan, if_neg hc, hcs, List.all_cons]
      cases hok : ok c with
      | false => simp
      | true =>
        rw [if_pos rfl, Option.map_map]
        have hcomp : (Prod.fst ∘ fun r : ByteStr × ByteStr => (c :: r.1, r.2)) =
            (fun v => c :: v) ∘ Prod.fst := rfl
        rw [hcomp, ← Option.map_map, ih]
        by_cases hall : (cstr s).all ok <;> simp [hall]

/-- The scanner of a header line stops at the colon behind the flag name. -/
theorem scan_flagName {k : ByteStr} (hk : isFlagName k) (text : ByteStr) :
    ∃ c s, k = c :: s ∧ isalpha c ∧
      scan 58 flagByte (s ++ 58 :: text) = some (s, 58 :: text) := by
  obtain ⟨c, s, rfl, hc, hs⟩ := isFlagName_cons hk
  exact ⟨c, s, rfl, hc, scan_stop _ (notMem_of_all hs (by decide)) (List.all_eq_true.mp hs)⟩

/-- How the scanners of a header line fail, and the flag name with its colon where they do not. -/
theorem flagName_cases (line : ByteStr) :
    line = [] ∨ (∃ c s, line = c :: s ∧ isalpha c = false) ∨
      (∃ c s, line = c :: s ∧ isalpha c = true ∧ scan 58 flagByte s = none) ∨
      ∃ k text, isFlagName k ∧ line = k ++ 58 :: text := by
  cases line with
  | nil => exact .inl rfl
  | cons c s =>
    refine .inr ?_
    cases hc : isalpha c with
    | false => exact .inl ⟨c, s, rfl, hc⟩
    | true =>
      refine .inr ?_
      cases hs : scan 58 flagByte s with
      | none => exact .inl ⟨c, s, rfl, hc, hs⟩
      | some r =>
        obtain ⟨w, r⟩ := r
        obtain ⟨hw, t, -, rfl⟩ := scan_eq_some (by decide) hs
        exact .inr ⟨c :: w, t, by simp [isFlagName, hc, hw], rfl⟩

/-- What the scanner of the value finds: nothing, the value or a byte that cannot be printed. -/
theorem scan_flagValue (text : ByteStr) :
    (peek (text.dropWhile (· == 32)) = 0 ↔ cstr (text.dropWhile (· == 32)) = []) ∧
    (peek (text.dropWhile (· == 32)) ≠ 0 →
      (scan 0 printable (text.dropWhile (· == 32))).map Prod.fst = flagValue text) := by
  have hpeek : peek (text.dropWhile (· == 32)) = 0 ↔ cstr (text.dropWhile (· == 32)) = [] := by
    cases text.dropWhile (· == 32) with
    | nil => simp [cstr]
    | cons d t => by_cases hd : d = 0 <;> simp [cstr, hd]
  refine ⟨hpeek, fun hne => ?_⟩
  rw [scan_zero]
  simp only [flagValue, ne_eq, mt hpeek.mpr hne, not_false_eq_true, true_and]

/-- A header line with any text behind its colon. -/
theorem parseHeaderLine_colon {k : ByteStr} (hk : isFlagName k) (text : ByteStr) (pkt : GTTPacket)
    (size : Nat) :
    match flagValue text with
    | some v => parseHeaderLine (k ++ 58 :: text) pkt size =
        if isContentLength k then contentLength "GTTParser" v pkt size
        else ⟨{ pkt with headers := pkt.headers.insert k v }, size, none⟩
    | none => ∃ e, e.isParser ∧
        parseHeaderLine (k ++ 58 :: text) pkt size = ⟨pkt, size, some e⟩ := by
  obtain ⟨c, s, rfl, hc, h1⟩ := scan_flagName hk text
  obtain ⟨hpeek, hscan⟩ := scan_flagValue text
  by_cases h0 : peek (text.dropWhile (· == 32)) = 0
  · have hnone : flagValue text = none := by simp [flagValue, hpeek.mp h0]
    simp [parseHeaderLine, hc, h1, h0, hnone]
    rfl
  · rw [← hscan h0]
    cases hs : scan 0 printable (text.dropWhile (· == 32)) with
    | none =>
      simp [parseHeaderLine, hc, h1, h0, hs]
      rfl
    | some r =>
      simp [parseHeaderLine, hc, h1, h0, hs]
      rfl

theorem flagValue_space (text : ByteStr) : flagValue (32 :: text) = flagValue text := rfl

/-- A header line with any text behind its name. -/
theorem parseHeaderLine_text {k : ByteStr} (hk : isFlagName k ∧ ¬isContentLength k) (text : ByteStr)
    (pkt : GTTPacket) (size : Nat) :
    match flagValue text with
    | some v => parseHeaderLine (k ++ 58 :: 32 :: text) pkt size =
        ⟨{ pkt with headers := pkt.headers.insert k v }, size, none⟩
    | none => ∃ e, e.isParser ∧
        parseHeaderLine (k ++ 58 :: 32 :: text) pkt size = ⟨pkt, size, some e⟩ := by
  have h := parseHeaderLine_colon hk.1 (32 :: text) pkt size
  simpa only [flagValue_space, hk.2, if_false, Bool.false_eq_true] using h

theorem flagValue_isFlagValue {text v : ByteStr} (h : flagValue text = some v) : isFlagValue v := by
  simp only [flagValue, Option.ite_none_right_eq_some, Option.some.injEq] at h
  obtain ⟨⟨hne, hall⟩, rfl⟩ := h
  refine isFlagValue_iff.mpr ⟨hne, fun h32 => ?_, hall⟩
  cases hd : text.dropWhile (· == 32) with
  | nil => simp [hd, cstr] at hne
  | cons c t =>
    have hc : (c == 32) = false := by
      have hh := List.head_dropWhile_not (· == 32) (by simp [hd] : text.dropWhile (· == 32) ≠ [])
      simpa only [hd, List.head_cons] using hh
    rw [hd, cstr, List.takeWhile_cons] at h32
    split at h32
    · cases h32
      cases hc
    · cases h32

theorem flagValue_self {v : ByteStr} (h : isFlagValue v) : flagValue v = some v := by
  obtain ⟨c, t, rfl, hc, hall⟩ := isFlagValue_cons h
  have hd : (c :: t).dropWhile (· == 32) = c :: t := by simp [hc]
  have h0 : cstr (c :: t) = c :: t := cstr_eq_self (notMem_of_all hall (by decide))
  simp only [flagValue, hd, h0]
  exact if_pos ⟨List.cons_ne_nil c t, hall⟩

/-- The parser inside a packet: what it has read of it and what is left in the buffer. -/
def reading (pkt : GTTPacket) (size : Nat) (buffer : ByteStr) : GTTParser :=
  { fresh with
    currentPkt := some pkt, currentSize := size, lineParser := ⟨buffer⟩, datapos := .headers }

/-- The parser between two packets. -/
def ready (buffer : ByteStr) : GTTParser := { fresh with lineParser := ⟨buffer⟩ }

theorem step_reading_line {R : LineRules} {raw : ByteStr} (hl : 10 ∉ raw)
    (hne : LineParser.chomp raw ≠ []) (pkt : GTTPacket) (size : Nat)
    (rest : ByteStr) :
    let r := R.parseHeaderLine (LineParser.chomp raw) pkt size
    (machine R).step (reading pkt size (raw ++ 10 :: rest)) =
      match r.thrown with
      | some e => .fail e (reading r.pkt r.size rest)
      | none => .next (reading r.pkt r.size rest) :=
  step_line (p := reading pkt size (raw ++ 10 :: rest)) rfl hl rfl hne

/-- The blank line ends the headers: the body is there or is waited for. -/
theorem step_reading_blank {R : LineRules} {raw : ByteStr} (hl : 10 ∉ raw)
    (hnil : LineParser.chomp raw = []) {pkt : GTTPacket} (hbody : pkt.body = []) (size : Nat)
    (rest : ByteStr) :
    (machine R).step (reading pkt size (raw ++ 10 :: rest)) =
      if size ≤ rest.length then .emit { pkt with body := rest.take size } (ready (rest.drop size))
      else .stall { reading pkt size rest with datapos := .content } :=
  (step_blank (p := reading pkt size (raw ++ 10 :: rest)) rfl hl rfl hnil).trans
    (contentCase_eq { reading pkt size rest with datapos := .content } hbody)

theorem rules_header : rules.parseHeaderLine = parseHeaderLine := rfl

/-- A header line that is read without error is read, and the next one is waited for. -/
theorem round_header (P : GTTPacket) (size : Nat) {line : ByteStr} (rest : ByteStr)
    (hl : 10 ∉ line) (hne : line ≠ []) (ht : (parseHeaderLine line P size).thrown = none) :
    (machine rules).step (reading P size (line ++ crlf ++ rest)) =
      .next (reading (parseHeaderLine line P size).pkt (parseHeaderLine line P size).size
        rest) := by
  have hchomp := LineParser.chomp_cr line
  have hraw : 10 ∉ line ++ [13] := by simpa using hl
  have hstep := step_reading_line (R := rules) hraw (by rwa [hchomp]) P size rest
  have hbytes : line ++ crlf ++ rest = line ++ [13] ++ 10 :: rest := by simp [crlf]
  rw [hbytes, hstep, hchomp]
  simp only [rules_header, ht]

/-- A header line that is refused ends the reading of the packet. -/
theorem getPacket_refused (P : GTTPacket) (size : Nat) {raw : ByteStr} (rest : ByteStr)
    (hl : 10 ∉ raw) (hne : LineParser.chomp raw ≠ []) {r : LineResult} {e : Exn}
    (hr : parseHeaderLine (LineParser.chomp raw) P size = r) (he : r.thrown = some e)
    (hp : e.isParser) {p : GTTParser}
    (hpoll : (machine rules).poll p =
      (machine rules).poll (reading P size (raw ++ 10 :: rest))) :
    (getPacket rules p).1 = .ok none := by
  have hstep := step_reading_line (R := rules) hl hne P size rest
  simp only [rules_header, hr, he] at hstep
  have hfail : (machine rules).poll p = .fail e (reading r.pkt r.size rest) := by
    rw [hpoll, (machine rules).poll_fail hstep]
  rw [getPacket_error rules hfail hp]

/-- A packet without a protocol is refused at its first line, which starts with a space. -/
theorem getPacket_noProtocol {p : GTTPacket} (hp : p.protocol = []) (hm : 10 ∉ p.method) :
    (getPacket rules (fresh.eat p.build)).1 = .ok none := by
  have hl : 10 ∉ 32 :: p.method ++ [13] := by simpa using hm
  have hbuild : p.build = 32 :: p.method ++ [13] ++ 10 ::
      (p.headers.toList.flatMap GTTPacket.headerLine ++ GTTPacket.contentLine p.body ++ crlf ++
        p.body) := by
    simp [GTTPacket.build, hp, lit, crlf]
  have ht : (rules.parseFirstLine (32 :: p.method) .empty 0).thrown = some (.parser
      "GTTParser" "protocol name should begin with capital letters") := rfl
  rw [← LineParser.chomp_cr (32 :: p.method)] at ht
  rw [getPacket_error rules (poll_firstLine_refused (p := fresh.eat p.build) rfl hl hbuild ht) rfl]

theorem headerLine_noNewline {k v : ByteStr} (hk : isFlagName k) (hv : isFlagValue v) :
    10 ∉ k ++ 58 :: 32 :: v := by
  obtain ⟨c, s, rfl, hc, hs⟩ := isFlagName_cons hk
  obtain ⟨d, t, rfl, -, ht⟩ := isFlagValue_cons hv
  have h1 : 10 ∉ s := notMem_of_all hs (by decide)
  have h2 : 10 ∉ d :: t := notMem_of_all ht (by decide)
  have h3 : c ≠ 10 := by rintro rfl; exact absurd hc (by decide)
  simpa [h1, Ne.symm h3] using h2

/-- The header lines of a packet fill the header map in their order. -/
theorem poll_headers (hs : List (ByteStr × ByteStr)) (P : GTTPacket) (rest : ByteStr)
    (h : ∀ x ∈ hs, isFlagName x.1 ∧ ¬isContentLength x.1 ∧ isFlagValue x.2) :
    (machine rules).poll (reading P 0 (hs.flatMap GTTPacket.headerLine ++ rest)) =
      (machine rules).poll (reading
        { P with headers := hs.foldl (fun m x => m.insert x.1 x.2) P.headers } 0 rest) := by
  induction hs generalizing P with
  | nil => rfl
  | cons x hs ih =>
    obtain ⟨hk, hn, hv⟩ := h x (by simp)
    have hline := parseHeaderLine_build hk hv P 0
    rw [if_neg hn] at hline
    have hround := round_header P 0 (hs.flatMap GTTPacket.headerLine ++ rest)
      (headerLine_noNewline hk hv)
      (by simp) (by rw [hline])
    have hbytes : (x :: hs).flatMap GTTPacket.headerLine ++ rest =
        (x.1 ++ 58 :: 32 :: x.2) ++ crlf ++ (hs.flatMap GTTPacket.headerLine ++ rest) := by
      simp [GTTPacket.headerLine, lit]
    rw [hline] at hround
    rw [hbytes, (machine rules).poll_next hround, ih _ fun y hy => h y (by simp [hy])]
    rfl

/-- The content-length line of a packet announces the size of its body. -/
theorem poll_contentLine (body : ByteStr) (P : GTTPacket) (rest : ByteStr)
    (hb : body.length < 2 ^ 63) :
    (machine rules).poll (reading P 0 (GTTPacket.contentLine body ++ rest)) =
      (machine rules).poll (reading P body.length rest) := by
  by_cases h0 : body.length > 0
  · have hd : ∀ c ∈ Text.fromUnsignedLong body.length, isdigit c :=
      fun c hc => Decimal.digits_isDigit hc
    have hv : isFlagValue (Text.fromUnsignedLong body.length) :=
      isFlagValue_of_forall (Decimal.digits_ne_nil _) fun c hc =>
        isdigit_printable (Decimal.digits_isDigit hc)
    have hk : isFlagName (lit "content-length") := by decide
    have hn : isContentLength (lit "content-length") := by decide
    have hline := parseHeaderLine_build hk hv P 0
    have hsize : contentLength "GTTParser" (Text.fromUnsignedLong body.length) P 0 =
        ⟨P, body.length, none⟩ := by
      have hu : toU64 (body.length : Int) = body.length := by unfold toU64; omega
      have hne : body.length ≠ 0 := by omega
      simp [contentLength, Text.toInt_digits hb, hu, hne]
    rw [if_pos hn, hsize] at hline
    have hround := round_header P 0 rest (headerLine_noNewline hk hv) (by simp) (by rw [hline])
    rw [hline] at hround
    have hbytes : GTTPacket.contentLine body ++ rest =
        (lit "content-length" ++ 58 :: 32 :: Text.fromUnsignedLong body.length) ++ crlf ++
          rest := by
      simp [GTTPacket.contentLine, h0, lit]
    rw [hbytes, (machine rules).poll_next hround]
  · have hbody : body = [] := List.length_eq_zero_iff.mp (by omega)
    simp [hbody, GTTPacket.contentLine]

/-- The blank line ends the headers; exactly the body is read after it. -/
theorem round_body (P : GTTPacket) (body rest : ByteStr) (hP : P.body = []) :
    (machine rules).step (reading P body.length (crlf ++ body ++ rest)) =
      .emit { P with body := body } (ready rest) := by
  have hblank : 10 ∉ ([13] : ByteStr) ∧ LineParser.chomp [13] = [] := by decide
  have hbytes : crlf ++ body ++ rest = [13] ++ 10 :: (body ++ rest) := by simp [crlf]
  rw [hbytes, step_reading_blank hblank.1 hblank.2 hP, if_pos (by simp), List.take_left,
    List.drop_left]

/-- The first line starts a packet, and the headers are read on from it. -/
theorem poll_firstLine {a b rest : ByteStr} (ha : isName a) (hb : isName b) :
    (machine rules).poll (ready (a ++ 32 :: b ++ crlf ++ rest)) =
      (machine rules).poll (reading ⟨a, b, ∅, []⟩ 0 rest) := by
  have hl : 10 ∉ a ++ 32 :: b ++ [13] := by
    have h1 : 10 ∉ a := notMem_name ha (by decide)
    have h2 : 10 ∉ b := notMem_name hb (by decide)
    simpa [h1] using h2
  have hchomp := LineParser.chomp_cr (a ++ 32 :: b)
  have hline := parseFirstLine_build ha hb .empty 0
  have hbuffer : (ready (a ++ 32 :: b ++ crlf ++ rest)).lineParser.buffer =
      a ++ 32 :: b ++ [13] ++ 10 :: rest := by simp [ready, crlf]
  have hpkt : (ready (a ++ 32 :: b ++ crlf ++ rest)).pkt = .empty := rfl
  have hrules : rules.parseFirstLine = parseFirstLine := rfl
  rw [poll_firstLine_accepted rfl hl hbuffer (by rw [hchomp, hpkt, hrules, hline]), hchomp, hpkt,
    hrules, hline]
  rfl

/-- The parser takes a built packet, and nothing more, out of its buffer. -/
theorem getPacket_build {p : GTTPacket} (hp : p.WellFormed) (rest : ByteStr) :
    getPacket rules (ready (p.build ++ rest)) = (.ok (some p), ready rest) := by
  have hbytes : p.build ++ rest = p.protocol ++ 32 :: p.method ++ crlf ++
      (p.headers.toList.flatMap GTTPacket.headerLine ++
        (GTTPacket.contentLine p.body ++ (crlf ++ p.body ++ rest))) := by
    simp [GTTPacket.build, lit]
  have hbody := round_body ⟨p.protocol, p.method, p.headers, []⟩ p.body rest rfl
  have hpoll : (machine rules).poll (ready (p.build ++ rest)) = .emit p (ready rest) := by
    rw [hbytes, poll_firstLine hp.protocol hp.method, poll_headers _ _ _ hp.headers,
      TreeMap.foldl_insert_toList, poll_contentLine _ _ _ hp.body, (machine rules).poll_emit hbody]
  simp only [getPacket, hpoll]

/-- `n` calls of `getPacket`: what they returned, and the parser after them. -/
def getPackets (R : LineRules) : Nat → GTTParser → List (Except Exn (Option GTTPacket)) × GTTParser
  | 0, p => ([], p)
  | n + 1, p =>
    let r := getPacket R p
    let t := getPackets R n r.2
    (r.1 :: t.1, t.2)

theorem getPackets_build (ps : List GTTPacket) (rest : ByteStr) (h : ∀ p ∈ ps, p.WellFormed) :
    getPackets rules ps.length (ready (ps.flatMap GTTPacket.build ++ rest)) =
      (ps.map fun p => .ok (some p), ready rest) := by
  induction ps with
  | nil => rfl
  | cons p ps ih =>
    have hp := getPacket_build (h p (by simp)) (ps.flatMap GTTPacket.build ++ rest)
    have hps := ih fun q hq => h q (by simp [hq])
    simp only [List.flatMap_cons, List.append_assoc, List.length_cons, getPackets, hp, hps,
      List.map_cons]

/-- A parser that has looked for a packet in an empty buffer: it has made room for one. -/
def waiting : GTTParser := { fresh with currentPkt := some .empty }

theorem getPacket_empty : getPacket rules (ready []) = (.ok none, waiting) := by
  have hstep : (machine rules).step (ready []) = .stall waiting := rfl
  exact getPacket_stall rules ((machine rules).poll_stall hstep)

/-- Room for a packet makes no difference to what is read. -/
theorem getPacket_waiting (data : ByteStr) :
    getPacket rules (waiting.eat data) = getPacket rules (ready data) := by
  have hstep : (machine rules).step (waiting.eat data) = (machine rules).step (ready data) := by
    simp [machine_step, round, waiting, fresh, eat, ready, LineParser.push, firstLineCase,
      GTTParser.pkt]
  simp only [getPacket, (machine rules).poll_congr hstep]

/-- All packets of a stream of built packets. -/
theorem packets_build (ps : List GTTPacket) (h : ∀ p ∈ ps, p.WellFormed) :
    packets rules (ready (ps.flatMap GTTPacket.build)) = (ps, waiting, none) := by
  induction ps with
  | nil => exact packets_null rules getPacket_empty
  | cons p ps ih =>
    have hp := getPacket_build (h p (by simp)) (ps.flatMap GTTPacket.build)
    rw [List.flatMap_cons, packets_some rules hp, ih fun q hq => h q (by simp [hq])]

theorem fresh_eat (data : ByteStr) : fresh.eat data = ready data := by
  simp [eat, fresh, ready, LineParser.push]

/-- A parser between two packets delivers exactly the packets whose bytes it eats. -/
theorem packets_eat_build {p : GTTParser} (hp : p = fresh ∨ p = waiting) {gs : List GTTPacket}
    (hgs : ∀ g ∈ gs, g.WellFormed) :
    packets rules (p.eat (gs.flatMap GTTPacket.build)) = (gs, waiting, none) := by
  rw [← packets_build gs hgs]
  rcases hp with rfl | rfl
  · rw [fresh_eat]
  · exact packets_congr rules (getPacket_waiting _)

/-- A fresh parser returns exactly the packets whose bytes it has eaten, without error, and is
left with the bytes behind them. -/
theorem eat_builds (ps : List GTTPacket) (rest : ByteStr) (h : ∀ p ∈ ps, p.WellFormed) :
    let r := getPackets rules ps.length (fresh.eat (ps.flatMap GTTPacket.build ++ rest))
    r.1 = ps.map (fun p => .ok (some p)) ∧ r.2.getError = (false, "") ∧
      r.2.lineParser.buffer = rest := by
  simp only [fresh_eat, getPackets_build ps rest h]
  exact ⟨trivial, rfl, rfl⟩

/-- Two packets, the first with a body that looks like the end of a packet. -/
theorem eat_builds_pong :
    let p : GTTPacket :=
      ⟨lit "DHT", lit "PONG", Std.ExtTreeMap.ofList [(lit "ID", lit "7")], crlf ++ crlf⟩
    let q : GTTPacket := ⟨lit "N2NP", lit "PING", ∅, []⟩
    let r := getPackets rules 2 (fresh.eat ([p, q].flatMap GTTPacket.build ++ lit "N2NP P"))
    r.1 = [p, q].map (fun p => .ok (some p)) ∧ r.2.getError = (false, "") ∧
      r.2.lineParser.buffer = lit "N2NP P" := by
  intro p q
  refine eat_builds [p, q] (lit "N2NP P") fun x hx => ?_
  rcases List.mem_pair.mp hx with rfl | rfl
  · exact ⟨by decide, by decide, by decide, by decide⟩
  · exact ⟨by decide, by decide, by decide, by decide⟩

end GTTParser
end Epyx
