import Epyx.Parser.GTTPacket
import Epyx.Parser.LineParser
import Epyx.Lib.Transducer

/-! `parser/gttparser.cpp`: the parser of GTT packets, resumable at three positions. The two
line parsers are virtual, so the parser is written over them as `LineRules`. -/
namespace Epyx
open Lib

/-- `while (l[i] != stop) { if (!ok(l[i])) throw; i++; }`: the bytes passed over and the rest,
which starts at `stop`. At the end of the line stands the NUL of `c_str()`. -/
def scan (stop : Byte) (ok : Byte → Bool) : ByteStr → Option (ByteStr × ByteStr)
  | [] => if stop = 0 then some ([], []) else none
  | c :: s =>
    if c = stop then some ([], c :: s)
    else if ok c then (scan stop ok s).map fun r => (c :: r.1, r.2)
    else none

theorem scan_stop {stop : Byte} {ok : Byte → Bool} {w : ByteStr} (s : ByteStr)
    (hs : stop ∉ w) (hw : ∀ c ∈ w, ok c) : scan stop ok (w ++ stop :: s) = some (w, stop :: s) := by
  induction w with
  | nil => simp [scan]
  | cons c w ih =>
    have hc : c ≠ stop := fun h => hs (by simp [h])
    simp [scan, hc, hw c (by simp), ih (fun h => hs (by simp [h])) fun d hd => hw d (by simp [hd])]

theorem scan_end {ok : Byte → Bool} {w : ByteStr} (hs : 0 ∉ w) (hw : ∀ c ∈ w, ok c) :
    scan 0 ok w = some (w, []) := by
  induction w with
  | nil => simp [scan]
  | cons c w ih =>
    have hc : c ≠ 0 := fun h => hs (by simp [h])
    simp [scan, hc, hw c (by simp), ih (fun h => hs (by simp [h])) fun d hd => hw d (by simp [hd])]

/-- What a line parser leaves in the packet under construction and in `currentSize`, and the
exception it ends with, if any. -/
structure LineResult where
  pkt : GTTPacket
  size : Nat
  thrown : Option Exn

/-- The virtual `parseFirstLine` and `parseHeaderLine`. -/
structure LineRules where
  parseFirstLine : ByteStr → GTTPacket → Nat → LineResult
  parseHeaderLine : ByteStr → GTTPacket → Nat → LineResult

inductive DataPosition where
  | firstLine | headers | content
  deriving DecidableEq, Repr

/-- `currentPkt` is null between two packets; `currentSize` is a `size_t`. -/
structure GTTParser where
  currentPkt : Option GTTPacket
  currentSize : Nat
  errorMessage : String
  hasError : Bool
  lineParser : LineParser
  datapos : DataPosition
  deriving DecidableEq

namespace GTTParser

/-- A byte of a protocol or method name after the first. -/
def nameByte (c : Byte) : Bool := isupper c || isdigit c || c = 95

/-- A byte of a flag name after the first. -/
def flagByte (c : Byte) : Bool := isalnum c || c = 95 || c = 45

def parseFirstLine (line : ByteStr) (pkt : GTTPacket) (size : Nat) : LineResult :=
  if line.length = 0 then
    ⟨pkt, size, some (.parser "GTTParser" "empty first line")⟩
  else if !isupper (peek line) then
    ⟨pkt, size, some (.parser "GTTParser" "protocol name should begin with capital letters")⟩
  else match scan 32 nameByte (line.drop 1) with
  | none => ⟨pkt, size, some (.parser "GTTParser"
      "protocol name should continue with [A-Z0-9]* or end with a space")⟩
  | some (proto, rest) =>
    let pkt := { pkt with protocol := peek line :: proto }
    let rest := rest.drop 1
    if !isupper (peek rest) then
      ⟨pkt, size, some (.parser "GTTParser" "method name should begin with capital letters")⟩
    else match scan 0 nameByte (rest.drop 1) with
    | none => ⟨pkt, size, some (.parser "GTTParser"
        "method name should continue with [A-Z0-9]* or end with a space")⟩
    | some (name, _) => ⟨{ pkt with method := peek rest :: name }, size, none⟩

/-- `!strcasecmp(flagName.c_str(), "content-length")`. A flag name holds no NUL. -/
def isContentLength (flagName : ByteStr) : Bool :=
  Text.toLower flagName = lit "content-length"

/-- The content-length branch of `parseHeaderLine`: `currentSize` is unsigned, so only zero is
refused and a negative number wraps. -/
def contentLength (module : String) (flagValue : ByteStr) (pkt : GTTPacket) (size : Nat) :
    LineResult :=
  if size > 0 then
    ⟨pkt, size, some (.parser module "content-length flag has already appeared")⟩
  else match Text.toInt flagValue with
  | .error e => ⟨pkt, size, some e⟩
  | .ok n =>
    if toU64 n = 0 then
      ⟨pkt, 0, some (.parser module
        "not valid body size, body size should be a positive integer")⟩
    else ⟨pkt, toU64 n, none⟩

def parseHeaderLine (line : ByteStr) (pkt : GTTPacket) (size : Nat) : LineResult :=
  if line.length = 0 then ⟨pkt, size, some (assertFailed "line.length() != 0")⟩
  else if !isalpha (peek line) then
    ⟨pkt, size, some (.parser "GTTParser"
      "flag_name should begin with [a-zA-Z] or we should add newline to end the header")⟩
  else match scan 58 flagByte (line.drop 1) with
  | none => ⟨pkt, size, some (.parser "GTTParser"
      "flag name should continue with [A-Za-z0-9-_]* or end with a space")⟩
  | some (name, rest) =>
    let flagName := peek line :: name
    let rest := (rest.drop 1).dropWhile (· == 32)
    if peek rest = 0 then ⟨pkt, size, some (.parser "GTTParser" "flag without value")⟩
    else match scan 0 printable rest with
    | none => ⟨pkt, size, some (.parser "GTTParser"
        "flag_value should consist of printable characters or just end with CRLF")⟩
    | some (flagValue, _) =>
      if isContentLength flagName then contentLength "GTTParser" flagValue pkt size
      else ⟨{ pkt with headers := pkt.headers.insert flagName flagValue }, size, none⟩

def rules : LineRules := ⟨parseFirstLine, parseHeaderLine⟩

def startPacket (p : GTTParser) : GTTParser :=
  { p with
    currentPkt := none, currentSize := 0, datapos := .firstLine, hasError := false,
    errorMessage := "" }

def reset (p : GTTParser) : GTTParser := startPacket { p with lineParser := LineParser.reset }

/-- `GTTParser::GTTParser` -/
def fresh : GTTParser := ⟨none, 0, "", false, ⟨[]⟩, .firstLine⟩

def eat (p : GTTParser) (data : ByteStr) : GTTParser :=
  { p with lineParser := p.lineParser.push data }

/-- `GTTParser::getError`: true with the message when there is one. -/
def getError (p : GTTParser) : Bool × String :=
  if p.hasError then (true, p.errorMessage) else (false, "")

@[simp] theorem getError_fst (p : GTTParser) : p.getError.1 = p.hasError := by
  unfold getError; split <;> simp_all

/-- `*currentPkt`, which `dataposFirstLine` has allocated. -/
def pkt (p : GTTParser) : GTTPacket := p.currentPkt.getD .empty

/-- Leave the line parser's result in the parser; `k` is what follows if it did not throw. -/
def afterLine (p : GTTParser) (r : LineResult)
    (k : GTTParser → Step GTTParser GTTPacket Exn) : Step GTTParser GTTPacket Exn :=
  let p := { p with currentPkt := some r.pkt, currentSize := r.size }
  match r.thrown with
  | some e => .fail e p
  | none => k p

/-- `case dataposContent` -/
def contentCase (p : GTTParser) : Step GTTParser GTTPacket Exn :=
  if p.currentSize > 0 then
    match p.lineParser.popData p.currentSize with
    | none => .stall p
    | some (body, lp) =>
      .emit { p.pkt with body := body } (startPacket { p with lineParser := lp })
  else .emit p.pkt (startPacket p)

variable (R : LineRules)

/-- `case dataposHeaders`, falling through to the content on an empty line. -/
def headersCase (p : GTTParser) : Step GTTParser GTTPacket Exn :=
  match p.lineParser.popLine with
  | none => .stall p
  | some (line, lp) =>
    let p := { p with lineParser := lp }
    if line.length ≠ 0 then
      afterLine p (R.parseHeaderLine line p.pkt p.currentSize) .next
    else contentCase { p with datapos := .content }

/-- `case dataposFirstLine`, falling through to the headers. -/
def firstLineCase (p : GTTParser) : Step GTTParser GTTPacket Exn :=
  let p := { p with currentPkt := some p.pkt, currentSize := 0 }
  match p.lineParser.popLine with
  | none => .stall p
  | some (line, lp) =>
    let p := { p with lineParser := lp }
    afterLine p (R.parseFirstLine line p.pkt p.currentSize) fun p =>
      headersCase R { p with datapos := .headers }

/-- One round of the `while (true)` of `getPacket`. -/
def round (p : GTTParser) : Step GTTParser GTTPacket Exn :=
  match p.datapos with
  | .firstLine => firstLineCase R p
  | .headers => headersCase R p
  | .content => contentCase p

/-! Every round but a stalled one takes a line or a body out of the buffer. -/

/-- Bytes left to read; a packet whose headers are complete still has to be handed over. -/
def pending (p : GTTParser) : Nat :=
  2 * p.lineParser.buffer.length + if p.datapos = .content then 1 else 0

@[simp] theorem pending_startPacket (p : GTTParser) :
    p.startPacket.pending = 2 * p.lineParser.buffer.length := by
  simp [pending, startPacket]

theorem contentCase_emit {p p' : GTTParser} {o : GTTPacket} (h : contentCase p = .emit o p') :
    p'.pending ≤ 2 * p.lineParser.buffer.length ∧
      (p.datapos = .content → p'.pending < p.pending) := by
  unfold contentCase at h
  split at h
  · rename_i hsize
    split at h
    · cases h
    · rename_i body lp hpop
      have hlen := LineParser.popData_lt hpop
      have hle : p.currentSize ≤ p.lineParser.buffer.length := by
        by_contra hlt
        simp [LineParser.popData, Nat.lt_of_not_le hlt] at hpop
      cases h
      rw [pending_startPacket]
      exact ⟨by simp only; omega, fun hd => by simp only [pending, hd, if_true]; omega⟩
  · cases h
    rw [pending_startPacket]
    exact ⟨le_refl _, fun hd => by simp only [pending, hd, if_true]; omega⟩

theorem contentCase_ne_next (p p' : GTTParser) : contentCase p ≠ .next p' := by
  unfold contentCase
  split
  · split <;> simp
  · simp

theorem headersCase_lt {p : GTTParser} :
    (∀ p', headersCase R p = .next p' → p'.lineParser.buffer.length < p.lineParser.buffer.length ∧
      p'.datapos = p.datapos) ∧
    ∀ o p', headersCase R p = .emit o p' → p'.pending < 2 * p.lineParser.buffer.length := by
  cases hpop : p.lineParser.popLine with
  | none => simp [headersCase, hpop]
  | some r =>
    obtain ⟨line, lp⟩ := r
    have hlt := LineParser.popLine_lt hpop
    simp only [headersCase, hpop]
    by_cases hl : line.length ≠ 0
    · simp only [hl, ne_eq, not_false_eq_true, if_true, afterLine]
      cases (R.parseHeaderLine line (pkt { p with lineParser := lp }) p.currentSize).thrown with
      | none =>
        refine ⟨fun p' h => ?_, fun o p' h => by cases h⟩
        cases h
        exact ⟨hlt, rfl⟩
      | some e => simp
    · simp only [hl, if_false]
      refine ⟨fun p' h => absurd h (contentCase_ne_next _ _), fun o p' h => ?_⟩
      have := (contentCase_emit h).1
      simp only at this hlt
      omega

theorem firstLineCase_lt {p : GTTParser} :
    (∀ p', firstLineCase R p = .next p' → p'.pending < p.pending) ∧
    ∀ o p', firstLineCase R p = .emit o p' → p'.pending < p.pending := by
  cases hpop : p.lineParser.popLine with
  | none => simp [firstLineCase, hpop]
  | some r =>
    obtain ⟨line, lp⟩ := r
    have hlt := LineParser.popLine_lt hpop
    simp only [firstLineCase, hpop, afterLine]
    generalize R.parseFirstLine line _ _ = r
    cases r.thrown with
    | some e => simp
    | none =>
      refine ⟨fun p' h => ?_, fun o p' h => ?_⟩
      · obtain ⟨h1, h2⟩ := (headersCase_lt R).1 _ h
        have hp : p'.pending = 2 * p'.lineParser.buffer.length := by simp [pending, h2]
        simp only at h1
        rw [hp, pending]
        omega
      · have := (headersCase_lt R).2 _ _ h
        simp only [pending] at this ⊢
        omega

/-- The parser as a machine over its buffer. -/
def machine : Transducer GTTParser GTTPacket Exn where
  step := round R
  size := pending
  next_lt p p' h := by
    cases hd : p.datapos with
    | firstLine => exact (firstLineCase_lt R).1 p' (by simpa [round, hd] using h)
    | headers =>
      obtain ⟨h1, h2⟩ := (headersCase_lt R (p := p)).1 p' (by simpa [round, hd] using h)
      simp only [pending, h2, hd]
      simpa using h1
    | content => exact absurd (by simpa [round, hd] using h) (contentCase_ne_next p p')
  emit_lt p o p' h := by
    cases hd : p.datapos with
    | firstLine => exact (firstLineCase_lt R).2 o p' (by simpa [round, hd] using h)
    | headers =>
      have := (headersCase_lt R (p := p)).2 o p' (by simpa [round, hd] using h)
      simp only [pending, hd] at this ⊢
      omega
    | content => exact (contentCase_emit (by simpa [round, hd] using h)).2 hd

theorem machine_step (p : GTTParser) : (machine R).step p = round R p := rfl

/-- The `catch (ParserException e)` of `getPacket`: the parser it leaves and the exception it lets
through. -/
def caught : Step GTTParser GTTPacket Exn → GTTParser × Option Exn
  | .fail e p =>
    if e.isParser then ({ p with errorMessage := e.getMessage, hasError := true }, none)
    else (p, some e)
  | .next p | .emit _ p | .stall p => (p, none)

/-- `GTTParser::getPacket`: a packet, or null when the buffer holds no more of one or when a
`ParserException` was caught; any other exception leaves the call. -/
def getPacket (p : GTTParser) : Except Exn (Option GTTPacket) × GTTParser :=
  match (machine R).poll p with
  | .emit o p' => (.ok (some o), p')
  | r =>
    match caught r with
    | (p', none) => (.ok none, p')
    | (p', some e) => (.error e, p')

theorem getPacket_end {p p' : GTTParser} {e : Option Exn}
    (h : ∀ o q, (machine R).poll p ≠ .emit o q) (hc : caught ((machine R).poll p) = (p', e)) :
    getPacket R p = (e.elim (.ok none) .error, p') := by
  unfold getPacket
  split
  · rename_i hp
    exact absurd hp (h _ _)
  · rw [hc]
    cases e <;> rfl

theorem getPacket_stall {p p' : GTTParser} (h : (machine R).poll p = .stall p') :
    getPacket R p = (.ok none, p') := by
  simp only [getPacket, h, caught]

/-- A parse error is kept for `getError`. -/
theorem getPacket_error {p p' : GTTParser} {e : Exn} (h : (machine R).poll p = .fail e p')
    (he : e.isParser) :
    getPacket R p = (.ok none, { p' with errorMessage := e.getMessage, hasError := true }) := by
  simp only [getPacket, h, caught, he, if_true]

/-- Any other exception leaves the call. -/
theorem getPacket_throw {p p' : GTTParser} {e : Exn} (h : (machine R).poll p = .fail e p')
    (he : e.isParser = false) : getPacket R p = (.error e, p') := by
  simp only [getPacket, h, caught, he, Bool.false_eq_true, if_false]

theorem getPacket_lt {p p' : GTTParser} {o : GTTPacket} (h : getPacket R p = (.ok (some o), p')) :
    p'.pending < p.pending := by
  unfold getPacket at h
  split at h
  · rename_i hp
    cases h
    exact (machine R).poll_emit_lt p _ _ hp
  · split at h <;> cases h

/-- `while ((pkt = getPacket())) ...`: the packets in order, the parser afterwards, and the
exception that left `getPacket`, if one did. -/
def packets (p : GTTParser) : List GTTPacket × GTTParser × Option Exn :=
  match _h : getPacket R p with
  | (.ok (some o), p') => let r := packets p'; (o :: r.1, r.2)
  | (.ok none, p') => ([], p', none)
  | (.error e, p') => ([], p', some e)
termination_by p.pending
decreasing_by exact getPacket_lt R ‹_›

theorem packets_some {p p' : GTTParser} {o : GTTPacket} (h : getPacket R p = (.ok (some o), p')) :
    packets R p = (o :: (packets R p').1, (packets R p').2) := by
  rw [packets]; split <;> simp_all

theorem packets_null {p p' : GTTParser} (h : getPacket R p = (.ok none, p')) :
    packets R p = ([], p', none) := by
  rw [packets]; split <;> simp_all

theorem packets_throw {p p' : GTTParser} {e : Exn} (h : getPacket R p = (.error e, p')) :
    packets R p = ([], p', some e) := by
  rw [packets]; split <;> simp_all

/-- Two parsers with the same next packet have the same packets. -/
theorem packets_congr {p q : GTTParser} (h : getPacket R p = getPacket R q) :
    packets R p = packets R q := by
  rcases hq : getPacket R q with ⟨_ | _ | _, q'⟩
  · rw [packets_throw R hq, packets_throw R (h.trans hq)]
  · rw [packets_null R hq, packets_null R (h.trans hq)]
  · rw [packets_some R hq, packets_some R (h.trans hq)]

/-- The loop of an `eat`, `while ((pkt = getPacket())) treat(pkt)`: the exception that ended it, if
one did, the parser, and what the packets have made of the rest of the state. -/
def eachPacket {τ : Type*} (treat : GTTPacket → τ → Option Exn × τ) (p : GTTParser) (t : τ) :
    Option Exn × GTTParser × τ :=
  match _h : getPacket R p with
  | (.ok (some o), p') =>
    match treat o t with
    | (some e, t') => (some e, p', t')
    | (none, t') => eachPacket treat p' t'
  | (.ok none, p') => (none, p', t)
  | (.error e, p') => (some e, p', t)
termination_by p.pending
decreasing_by exact getPacket_lt R ‹_›

/-- Treat packets one after the other, up to the first exception. -/
def treatAll {τ : Type*} (treat : GTTPacket → τ → Option Exn × τ) :
    List GTTPacket → τ → Option Exn × τ
  | [], t => (none, t)
  | o :: os, t =>
    match treat o t with
    | (some e, t') => (some e, t')
    | (none, t') => treatAll treat os t'

section
variable {τ : Type*} (treat : GTTPacket → τ → Option Exn × τ) (t : τ)

theorem eachPacket_some {p p' : GTTParser} {o : GTTPacket}
    (h : getPacket R p = (.ok (some o), p')) :
    eachPacket R treat p t =
      match treat o t with
      | (some e, t') => (some e, p', t')
      | (none, t') => eachPacket R treat p' t' := by
  rw [eachPacket]; split <;> simp_all

theorem eachPacket_null {p p' : GTTParser} (h : getPacket R p = (.ok none, p')) :
    eachPacket R treat p t = (none, p', t) := by
  rw [eachPacket]; split <;> simp_all

theorem eachPacket_throw {p p' : GTTParser} {e : Exn} (h : getPacket R p = (.error e, p')) :
    eachPacket R treat p t = (some e, p', t) := by
  rw [eachPacket]; split <;> simp_all

/-- The loop treats the packets the parser delivers; if none throws, the parser is left as when
they are only taken out. -/
theorem eachPacket_eq (p : GTTParser) :
    match treatAll treat (packets R p).1 t with
    | (some e, t') => ∃ q, eachPacket R treat p t = (some e, q, t')
    | (none, t') => eachPacket R treat p t = ((packets R p).2.2, (packets R p).2.1, t') := by
  induction hn : p.pending using Nat.strongRecOn generalizing p t with
  | ind n ih =>
    subst hn
    rcases hg : getPacket R p with ⟨r, p'⟩
    rcases r with e | _ | o
    · rw [packets_throw R hg, eachPacket_throw R treat t hg]
      rfl
    · rw [packets_null R hg, eachPacket_null R treat t hg]
      rfl
    · have hih := ih _ (getPacket_lt R hg) (treat o t).2 p' rfl
      rw [packets_some R hg, eachPacket_some R treat t hg]
      rcases ht : treat o t with ⟨_ | e, t'⟩
      · rw [ht] at hih
        simpa only [treatAll, ht] using hih
      · simp [treatAll, ht]

end

/-- Feed a parser chunk by chunk and take all packets out after each chunk, up to the first
parser error. -/
def eatChunks (p : GTTParser) : List ByteStr → List GTTPacket × GTTParser
  | [] => ([], p)
  | c :: cs =>
    let r := packets R (p.eat c)
    if r.2.1.hasError then (r.1, r.2.1)
    else
      let t := eatChunks r.2.1 cs
      (r.1 ++ t.1, t.2)

end GTTParser
end Epyx
