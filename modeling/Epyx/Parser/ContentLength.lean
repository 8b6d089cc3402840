import Epyx.Parser.HTTPParser
import Epyx.Parser.Lines
import Epyx.Parser.Section

/-! The content-length of a message, from the text of its header line to the bytes that are waited
for. The text is read by a stream extraction into a `long` and kept in a `size_t`. -/
namespace Epyx.GTTParser
open Lib LineParser

/-- The two parsers there are. -/
inductive Format where
  | gtt | http
  deriving DecidableEq

def Format.rules : Format → LineRules
  | .gtt => GTTParser.rules
  | .http => HTTPParser.rules

/-- The module its parse errors name. -/
def Format.module : Format → String
  | .gtt => "GTTParser"
  | .http => "HTTPParser"

/-- The name a header is kept under. -/
def Format.key (name : ByteStr) : Format → ByteStr
  | .gtt => name
  | .http => Text.toLower name

/-- What a parser makes of a header line with any text behind its colon: in HTTP the text may be
empty; otherwise there is a value, or the line is refused. -/
theorem Format.header_read (k : Format) {name : ByteStr} (hk : isFlagName name) (text : ByteStr) :
    let read := k.rules.parseHeaderLine (name ++ 58 :: text)
    (k = .http ∧ cstr (text.dropWhile (· == 32)) = [] ∧ ∀ pkt size, read pkt size =
      ⟨{ pkt with headers := pkt.headers.insert (k.key name) [] }, size, none⟩) ∨
    (∃ v, flagValue text = some v ∧ ∀ pkt size, read pkt size =
      if isContentLength name then contentLength k.module v pkt size
      else ⟨{ pkt with headers := pkt.headers.insert (k.key name) v }, size, none⟩) ∨
    (flagValue text = none ∧ (k = .http → cstr (text.dropWhile (· == 32)) ≠ []) ∧
      ∀ pkt size, ∃ e, e.isParser ∧ read pkt size = ⟨pkt, size, some e⟩) := by
  cases k with
  | gtt =>
    have hread := parseHeaderLine_colon hk text
    cases hv : flagValue text with
    | none =>
      simp only [hv] at hread
      exact .inr (.inr ⟨rfl, fun h => (by cases h), hread⟩)
    | some v =>
      simp only [hv] at hread
      exact .inr (.inl ⟨v, rfl, hread⟩)
  | http =>
    have hread := HTTPParser.parseHeaderLine_colon hk text
    by_cases hnil : cstr (text.dropWhile (· == 32)) = []
    · simp only [hnil, if_true] at hread
      exact .inl ⟨rfl, hnil, hread⟩
    · simp only [hnil, if_false] at hread
      cases hv : flagValue text with
      | none =>
        simp only [hv] at hread
        exact .inr (.inr ⟨rfl, fun _ => hnil, hread⟩)
      | some v =>
        simp only [hv] at hread
        exact .inr (.inl ⟨v, rfl, hread⟩)

theorem Format.header_accepted (k : Format) {line : ByteStr} {pkt : GTTPacket} {size : Nat}
    (h : (k.rules.parseHeaderLine line pkt size).thrown = none) :
    ∃ name text, isFlagName name ∧ line = name ++ 58 :: text := by
  cases k with
  | gtt => exact parseHeaderLine_accepted h
  | http => exact HTTPParser.parseHeaderLine_accepted h

/-- A decimal integer, as text. -/
def IsDecimal (v : ByteStr) : Prop := v ≠ [] ∧ v.all isdigit

instance (v : ByteStr) : Decidable (IsDecimal v) := inferInstanceAs (Decidable (_ ∧ _))

/-- A positive decimal integer that fits a `size_t`. -/
def IsSize (v : ByteStr) : Prop :=
  IsDecimal v ∧ 0 < Decimal.value v ∧ Decimal.value v < 2 ^ 64

instance (v : ByteStr) : Decidable (IsSize v) := inferInstanceAs (Decidable (_ ∧ _))

/-- Text that starts with a number, signed or not, that is not zero and that a `long` holds. -/
def StartsNumber (v : ByteStr) : Prop :=
  Text.IsLong v ∧ Decimal.value (Text.scanNumber v).2 ≠ 0

instance (v : ByteStr) : Decidable (StartsNumber v) := inferInstanceAs (Decidable (_ ∧ _))

theorem isFlagName_of_isContentLength {k : ByteStr} (h : isContentLength k) : isFlagName k := by
  have halpha : ∀ c, isalpha (tolower c) → isalpha c := fun c hc => by
    unfold tolower at hc
    split at hc
    · rename_i hu
      simp [isalpha, hu]
    · exact hc
  have hflag : ∀ c, flagByte (tolower c) → flagByte c := fun c hc => by
    unfold tolower at hc
    split at hc
    · rename_i hu
      simp [flagByte, isalnum, isalpha, hu]
    · exact hc
  have hlower : Text.toLower k = lit "content-length" := by simpa [isContentLength] using h
  cases k with
  | nil => exact absurd hlower (by decide)
  | cons c s =>
    have hcons : tolower c :: s.map tolower = lit "content-length" := hlower
    obtain ⟨hc, hs⟩ := List.cons.inj hcons
    have hall : (s.map tolower).all flagByte := by rw [hs]; decide
    have h1 : isalpha c := halpha c (by rw [hc]; decide)
    simp only [isFlagName, h1, Bool.true_and, List.all_eq_true]
    exact fun d hd => hflag d (List.all_eq_true.mp hall _ (List.mem_map_of_mem hd))

/-- The size line is accepted if its text starts with a number. -/
theorem contentLength_accepts_iff (module : String) (v : ByteStr) (pkt : GTTPacket) :
    (contentLength module v pkt 0).thrown = none ↔ StartsNumber v := by
  have hsize : ¬0 > 0 := by omega
  rw [contentLength, if_neg hsize, StartsNumber]
  by_cases h : Text.IsLong v
  · have hb := h
    unfold Text.IsLong at hb
    rw [Text.toInt_isLong h]
    generalize Text.scanNumber v = r at hb
    obtain ⟨neg, ds⟩ := r
    have hu : toU64 (if neg then -(Decimal.value ds : Int) else Decimal.value ds) = 0 ↔
        Decimal.value ds = 0 := by
      cases neg <;> simp only [Bool.false_eq_true, if_false, if_true] at hb ⊢ <;> unfold toU64 <;>
        omega
    by_cases h0 : Decimal.value ds = 0
    · have hz : toU64 0 = 0 := by decide
      simp [hz, h0]
    · simp only [hu, h0, h, if_false, ne_eq, not_false_eq_true, and_self]
  · cases hn : Text.toInt v with
    | ok n => exact absurd ((Text.toInt_eq_ok_iff v).mp ⟨n, hn⟩) h
    | error e => simp [h]

theorem contentLength_pkt (module : String) (v : ByteStr) (pkt : GTTPacket) (size : Nat) :
    (contentLength module v pkt size).pkt = pkt := by
  unfold contentLength
  repeat' split
  all_goals rfl

/-- A decimal integer that a `long` holds is read as what it says. -/
theorem contentLength_decimal (module : String) {v : ByteStr} (hd : IsDecimal v)
    (h0 : 0 < Decimal.value v) (hlt : Decimal.value v < 2 ^ 63) (pkt : GTTPacket) :
    contentLength module v pkt 0 = ⟨pkt, Decimal.value v, none⟩ := by
  have hscan := Text.scanNumber_of_digits hd.1 (List.all_eq_true.mp hd.2)
  have hlong : Text.IsLong v := by
    unfold Text.IsLong
    rw [hscan]
    exact ⟨hd.1, hlt⟩
  have hint := Text.toInt_isLong hlong
  rw [hscan] at hint
  have hu : toU64 (Decimal.value v) = Decimal.value v := by unfold toU64; omega
  have hne : Decimal.value v ≠ 0 := by omega
  simp [contentLength, hint, hu, hne]

theorem startsNumber_decimal {v : ByteStr} (hd : IsDecimal v) :
    StartsNumber v ↔ 0 < Decimal.value v ∧ Decimal.value v < 2 ^ 63 := by
  have hscan := Text.scanNumber_of_digits hd.1 (List.all_eq_true.mp hd.2)
  simp only [StartsNumber, Text.IsLong, hscan, Bool.false_eq_true, if_false]
  have hne := hd.1
  constructor
  · rintro ⟨⟨-, h1⟩, h2⟩
    omega
  · rintro ⟨h1, h2⟩
    exact ⟨⟨hne, h2⟩, by omega⟩

/-- The content-length texts a parser accepts, as its scanner sees them up to the first NUL. HTTP
takes an empty one for a header without value. -/
def Accepts (k : Format) (v : ByteStr) : Prop :=
  (k = .http ∧ cstr v = []) ∨ ((cstr v).all printable ∧ StartsNumber (cstr v))

theorem IsDecimal.cstr_eq {v : ByteStr} (hd : IsDecimal v) : cstr v = v := by
  refine cstr_eq_self fun h0 => ?_
  exact absurd (List.all_eq_true.mp hd.2 0 h0) (by decide)

theorem IsDecimal.printable {v : ByteStr} (hd : IsDecimal v) : v.all printable :=
  List.all_eq_true.mpr fun c hc => (isdigit_printable (List.all_eq_true.mp hd.2 c hc)).1

theorem not_startsNumber_nil : ¬StartsNumber [] := by decide

/-- What the content-length line leaves of a packet whose size is not known yet. -/
structure ReadsSize (k : Format) (v : ByteStr) (pkt : GTTPacket) (r : LineResult) : Prop where
  accepts : r.thrown = none ↔ Accepts k v
  parser : ∀ e, r.thrown = some e → e.isParser
  body : r.pkt.body = pkt.body
  decimal : IsDecimal v → 0 < Decimal.value v → Decimal.value v < 2 ^ 63 →
    r = ⟨pkt, Decimal.value v, none⟩

theorem readsSize_contentLength (k : Format) (module : String) {v : ByteStr} (hne : cstr v ≠ [])
    (hp : (cstr v).all printable) (pkt : GTTPacket) :
    ReadsSize k v pkt (contentLength module (cstr v) pkt 0) where
  accepts := by
    rw [contentLength_accepts_iff]
    simp [Accepts, hne, hp]
  parser _ he := contentLength_isParser he
  body := by rw [contentLength_pkt]
  decimal hd h0 hlt := by
    rw [hd.cstr_eq]
    exact contentLength_decimal module hd h0 hlt pkt

theorem readsSize_refused {k : Format} {v : ByteStr} {e : Exn} (hn : ¬Accepts k v)
    (he : e.isParser) (pkt : GTTPacket) : ReadsSize k v pkt ⟨pkt, 0, some e⟩ where
  accepts := by simp [hn]
  parser e' h := by
    cases h
    exact he
  body := rfl
  decimal hd h0 hlt := by
    refine absurd (Or.inr ?_) hn
    rw [hd.cstr_eq]
    exact ⟨hd.printable, (startsNumber_decimal hd).mpr ⟨h0, hlt⟩⟩

/-- What stands behind the colon of a header line whose value does not start with a space. -/
theorem flagValue_spaces {v : ByteStr} (hv : v.head? ≠ some 32) (spaces : Nat) :
    (List.replicate spaces 32 ++ v).dropWhile (· == 32) = v ∧
    flagValue (List.replicate spaces 32 ++ v) =
      if cstr v ≠ [] ∧ (cstr v).all printable then some (cstr v) else none := by
  have hdrop : (List.replicate spaces 32 ++ v).dropWhile (· == 32) = v := by
    rw [List.dropWhile_append_of_pos fun c hc => by simp [List.eq_of_mem_replicate hc]]
    cases v with
    | nil => rfl
    | cons c s => simpa using hv
  exact ⟨hdrop, by rw [flagValue, hdrop]⟩

theorem parseHeaderLine_readsSize (k : Format) {name v : ByteStr} (hcl : isContentLength name)
    (spaces : Nat) (hv : v.head? ≠ some 32) (pkt : GTTPacket) :
    ReadsSize k v pkt
      (k.rules.parseHeaderLine (name ++ 58 :: (List.replicate spaces 32 ++ v)) pkt 0) := by
  obtain ⟨hdrop, hflag⟩ := flagValue_spaces hv spaces
  have hread := k.header_read (isFlagName_of_isContentLength hcl) (List.replicate spaces 32 ++ v)
  rw [hdrop, hflag] at hread
  rcases hread with ⟨rfl, hnil, hread⟩ | ⟨w, hw, hread⟩ | ⟨hnone, hhttp, hread⟩
  · rw [hread]
    refine ⟨?_, fun e he => ?_, rfl, fun hd => ?_⟩
    · simp [Accepts, hnil]
    · cases he
    · exact absurd (hd.cstr_eq ▸ hnil) hd.1
  · simp only [Option.ite_none_right_eq_some, Option.some.injEq] at hw
    obtain ⟨⟨hne, hp⟩, rfl⟩ := hw
    rw [hread, if_pos hcl]
    exact readsSize_contentLength k k.module hne hp pkt
  · obtain ⟨e, he, hread⟩ := hread pkt 0
    rw [hread]
    refine readsSize_refused ?_ he pkt
    rintro (⟨hk, hnil⟩ | ⟨hp, hs⟩)
    · exact hhttp hk hnil
    · have hne : cstr v ≠ [] := fun hnil => not_startsNumber_nil (hnil ▸ hs)
      simp [hne, hp] at hnone

end Epyx.GTTParser
