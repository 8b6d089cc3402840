import Epyx.Parser.Framing

/-! `parser/httpparser.cpp`: the line parsers that make a GTT parser read HTTP answers. -/
namespace Epyx
open Lib

namespace HTTPParser
open GTTParser (flagByte isContentLength contentLength scan_flagName
  flagName_cases scan_flagValue flagValue)

/-- A byte of the HTTP version. -/
def versionByte (c : Byte) : Bool := isalnum c || c = 47 || c = 46

/-- A byte of the text behind the HTTP code. -/
def descByte (c : Byte) : Bool := isalnum c || c = 32

/-- The version is kept as the protocol, the code as the method and the text behind it as the
header `HTTP-code`. An empty line fails an assertion, which is no parser error. -/
def parseFirstLine (line : ByteStr) (pkt : GTTPacket) (size : Nat) : LineResult :=
  if line.length = 0 then ⟨pkt, size, some (assertFailed "line.length() != 0")⟩
  else match scan 32 versionByte line with
  | none => ⟨pkt, size, some (.parser "HTTPParser" "Invalid HTTP version")⟩
  | some (version, rest) =>
    let pkt := { pkt with protocol := version }
    match scan 32 isdigit (rest.drop 1) with
    | none => ⟨pkt, size, some (.parser "HTTPParser" "Invalid HTTP code")⟩
    | some (code, rest) =>
      let pkt := { pkt with method := code }
      match scan 0 descByte (rest.drop 1) with
      | none => ⟨pkt, size, some (.parser "HTTPParser" "Invalid HTTP code decription")⟩
      | some (desc, _) =>
        ⟨{ pkt with headers := pkt.headers.insert (lit "HTTP-code") desc }, size, none⟩

/-- Flag names are kept in lower case, and a flag without value is no error. -/
def parseHeaderLine (line : ByteStr) (pkt : GTTPacket) (size : Nat) : LineResult :=
  if line.length = 0 then ⟨pkt, size, some (assertFailed "line.length() != 0")⟩
  else if !isalpha (peek line) then
    ⟨pkt, size, some (.parser "HTTPParser"
      "flag_name should begin with [a-zA-Z] or we should add newline to end the header")⟩
  else match scan 58 flagByte (line.drop 1) with
  | none => ⟨pkt, size, some (.parser "HTTPParser"
      "flag name should continue with [A-Za-z0-9-_]* or end with a space")⟩
  | some (name, rest) =>
    let flagName := Text.toLower (peek line :: name)
    let rest := (rest.drop 1).dropWhile (· == 32)
    if peek rest = 0 then
      ⟨{ pkt with headers := pkt.headers.insert flagName [] }, size, none⟩
    else match scan 0 printable rest with
    | none => ⟨pkt, size, some (.parser "HTTPParser"
        "flag_value should consist of printable characters or just end with CRLF")⟩
    | some (flagValue, _) =>
      if isContentLength flagName then contentLength "HTTPParser" flagValue pkt size
      else ⟨{ pkt with headers := pkt.headers.insert flagName flagValue }, size, none⟩

def rules : LineRules := ⟨parseFirstLine, parseHeaderLine⟩

theorem tolower_tolower (c : Byte) : tolower (tolower c) = tolower c := by
  unfold tolower
  split
  · rename_i h
    have hup : isupper (c + 32) = false := by
      simp only [isupper, Bool.and_eq_true, decide_eq_true_eq, UInt8.le_iff_toNat_le,
        UInt8.reduceToNat] at h
      simp only [isupper, Bool.and_eq_false_iff, decide_eq_false_iff_not, UInt8.le_iff_toNat_le,
        UInt8.toNat_add, UInt8.reduceToNat]
      omega
    simp [hup]
  · rfl

theorem isContentLength_toLower (k : ByteStr) :
    isContentLength (Text.toLower k) = isContentLength k := by
  have h : Text.toLower (Text.toLower k) = Text.toLower k := by
    simp [Text.toLower, tolower_tolower]
  rw [isContentLength, h, isContentLength]

/-- A header line with any text behind its colon. -/
theorem parseHeaderLine_colon {k : ByteStr} (hk : isFlagName k) (text : ByteStr) (pkt : GTTPacket)
    (size : Nat) :
    if cstr (text.dropWhile (· == 32)) = [] then parseHeaderLine (k ++ 58 :: text) pkt size =
      ⟨{ pkt with headers := pkt.headers.insert (Text.toLower k) [] }, size, none⟩
    else match flagValue text with
    | some v => parseHeaderLine (k ++ 58 :: text) pkt size =
        if isContentLength k then contentLength "HTTPParser" v pkt size
        else ⟨{ pkt with headers := pkt.headers.insert (Text.toLower k) v }, size, none⟩
    | none => ∃ e, e.isParser ∧
        parseHeaderLine (k ++ 58 :: text) pkt size = ⟨pkt, size, some e⟩ := by
  obtain ⟨c, s, rfl, hc, h1⟩ := scan_flagName hk text
  obtain ⟨hpeek, hscan⟩ := scan_flagValue text
  by_cases h0 : cstr (text.dropWhile (· == 32)) = []
  · simp [parseHeaderLine, hc, h1, hpeek, h0]
  · rw [if_neg h0]
    have hp : peek (text.dropWhile (· == 32)) ≠ 0 := mt hpeek.mp h0
    have hlower := isContentLength_toLower (c :: s)
    rw [← hscan hp]
    cases hs : scan 0 printable (text.dropWhile (· == 32)) with
    | none =>
      simp [parseHeaderLine, hc, h1, hp, hs]
      rfl
    | some r => simp [parseHeaderLine, hc, h1, hp, hs, hlower]

/-- A line without a flag name and its colon is refused. -/
theorem parseHeaderLine_accepted {line : ByteStr} {pkt : GTTPacket} {size : Nat}
    (h : (parseHeaderLine line pkt size).thrown = none) :
    ∃ k text, isFlagName k ∧ line = k ++ 58 :: text := by
  obtain rfl | ⟨c, s, rfl, hc⟩ | ⟨c, s, rfl, hc, hs⟩ | hflag := flagName_cases line
  · simp [parseHeaderLine] at h
  · simp [parseHeaderLine, hc] at h
  · simp [parseHeaderLine, hc, hs] at h
  · exact hflag

end HTTPParser
end Epyx
