import Epyx.DHT.Distance
import Epyx.DHT.Wire

/-! What becomes of the key of a STORE or a GET, which stands in a header line as it is. -/
namespace Epyx.DHT
open Lib

/-- What `Node::fromN2NP` makes of a payload: the packet it reads, if it reads one. -/
def received (inet : Inet) (data : ByteStr) : Option Packet :=
  match (GTTParser.getPacket GTTParser.rules (GTTParser.fresh.eat data)).1 with
  | .ok (some pkt) => (Packet.ofGTT inet pkt).toOption
  | _ => none

/-- A STORE of a value, or a GET. -/
def Content.asking (connectionId : Int32) (key : ByteStr) : Option ByteStr → Content
  | some value => .store connectionId key value
  | none => .get connectionId key

namespace Packet
variable (inet : Inet) («from» : Id) (connectionId : Int32) (key : ByteStr) (value : Option ByteStr)

def askingMethod : Option ByteStr → ByteStr
  | some _ => lit "STORE"
  | none => lit "GET"

theorem toGTTPacket_asking :
    toGTTPacket ⟨«from», .asking connectionId key value⟩ =
      ⟨lit "DHT", askingMethod value,
        (((∅ : Headers).insert (lit "from") from.print).insert (lit "key") key).insert
          (lit "connectionid") (Text.fromInt connectionId.toInt), value.getD []⟩ := by
  cases value <;> rfl

/-- What stands before the key in the packet, as the parser has it. -/
def beforeKey : GTTPacket :=
  ⟨lit "DHT", askingMethod value,
    ((∅ : Headers).insert (lit "connectionid") (Text.fromInt connectionId.toInt)).insert
      (lit "from") from.print, []⟩

/-- The headers of the packet, in the order of their names. -/
theorem beforeKey_insert :
    (beforeKey «from» connectionId value).headers.insert (lit "key") key =
      (toGTTPacket ⟨«from», .asking connectionId key value⟩).headers := by
  rw [← TreeMap.foldl_insert_toList (toGTTPacket ⟨«from», .asking connectionId key value⟩).headers,
    toGTTPacket_asking]
  rfl

/-- The bytes of the packet from the key line on. -/
def fromKey : ByteStr :=
  lit "key" ++ 58 :: 32 :: key ++ crlf ++
    (GTTPacket.contentLine (value.getD []) ++ (crlf ++ value.getD []))

/-- Up to the key line the packet is read as it was written. -/
theorem poll_beforeKey :
    (GTTParser.machine GTTParser.rules).poll
        (GTTParser.fresh.eat (toGTTPacket ⟨«from», .asking connectionId key value⟩).build) =
      (GTTParser.machine GTTParser.rules).poll
        (GTTParser.reading (beforeKey «from» connectionId value) 0 (fromKey key value)) := by
  have hbytes : (toGTTPacket ⟨«from», .asking connectionId key value⟩).build =
      lit "DHT" ++ 32 :: askingMethod value ++ crlf ++
        ([(lit "connectionid", Text.fromInt connectionId.toInt),
          (lit "from", from.print)].flatMap GTTPacket.headerLine ++ fromKey key value) := by
    have hlist : (toGTTPacket ⟨«from», .asking connectionId key value⟩).headers.toList =
        [(lit "connectionid", Text.fromInt connectionId.toInt), (lit "from", from.print),
          (lit "key", key)] := by
      rw [toGTTPacket_asking]
      rfl
    rw [GTTPacket.build, hlist, toGTTPacket_asking]
    simp [fromKey, GTTPacket.headerLine, lit]
  have hmethod : isName (askingMethod value) := by
    cases value with
    | none => decide
    | some v => exact (by decide : isName (lit "STORE"))
  rw [GTTParser.fresh_eat, hbytes, GTTParser.poll_firstLine (by decide) hmethod,
    GTTParser.poll_headers]
  · rfl
  · intro x hx
    rcases List.mem_pair.mp hx with rfl | rfl
    · exact GTTParser.headerOk connectionid_name (GTTParser.fromInt_isFlagValue _)
    · exact GTTParser.headerOk from_name from.print_isFlagValue

/-- The first line of a key, without the `\r` at its end. A key of one line is all of it. -/
def firstLine (key : ByteStr) : ByteStr :=
  if 10 ∈ key then LineParser.chomp (key.takeWhile (· != 10)) else key

/-- The key line of the packet is cut where the key has its first line end. -/
theorem fromKey_cut :
    ∃ raw rest, fromKey key value = raw ++ 10 :: rest ∧ 10 ∉ raw ∧
      LineParser.chomp raw = lit "key" ++ 58 :: 32 :: firstLine key := by
  have hname : 10 ∉ lit "key" ++ [58, 32] := by decide
  by_cases h : 10 ∈ key
  · have hsplit := List.takeWhile_append_dropWhile (p := (· != 10)) (l := key)
    cases hd : key.dropWhile (· != 10) with
    | nil => exact absurd (dropWhile_bne_eq_nil.mp hd) (by simpa using h)
    | cons c t =>
      have hc : c = 10 := by
        have hh := List.head_dropWhile_not (· != 10) (by simp [hd] : key.dropWhile (· != 10) ≠ [])
        simpa only [hd, List.head_cons, bne_eq_false_iff_eq] using hh
      have hno : 10 ∉ key.takeWhile (· != 10) := fun hm => by simpa using List.mem_takeWhile_imp hm
      refine ⟨lit "key" ++ [58, 32] ++ key.takeWhile (· != 10),
        t ++ crlf ++ (GTTPacket.contentLine (value.getD []) ++ (crlf ++ value.getD [])), ?_, ?_, ?_⟩
      · rw [hd, hc] at hsplit
        conv_lhs => rw [fromKey, ← hsplit]
        simp
      · exact fun hm => (List.mem_append.mp hm).elim hname hno
      · rw [LineParser.chomp_append (by decide), firstLine, if_pos h]
        simp
  · refine ⟨lit "key" ++ 58 :: 32 :: key ++ [13],
      GTTPacket.contentLine (value.getD []) ++ (crlf ++ value.getD []), ?_, ?_, ?_⟩
    · simp [fromKey, crlf]
    · simpa [h] using hname
    · rw [LineParser.chomp, List.getLast?_concat, if_pos rfl, List.dropLast_concat, firstLine,
        if_neg h]

/-- A key whose first line is no header value is refused. -/
theorem received_refused (h : GTTParser.flagValue (firstLine key) = none) :
    received inet (toGTTPacket ⟨«from», .asking connectionId key value⟩).build = none := by
  obtain ⟨raw, rest, hcut, hraw, hline⟩ := fromKey_cut key value
  have hparse := GTTParser.parseHeaderLine_text key_name (firstLine key)
    (beforeKey «from» connectionId value) 0
  rw [h] at hparse
  obtain ⟨e, he, hr⟩ := hparse
  have hpoll := poll_beforeKey «from» connectionId key value
  rw [hcut] at hpoll
  have hget := GTTParser.getPacket_refused _ 0 rest hraw (by rw [hline]; simp) (hline ▸ hr) rfl he
    hpoll
  simp only [received, hget]

/-- A key of one line is read as the header value it makes. -/
theorem received_asking {v : ByteStr} (hkey : 10 ∉ key) (h : GTTParser.flagValue key = some v)
    (hvalue : (value.getD []).length < 2 ^ 63) :
    received inet (toGTTPacket ⟨«from», .asking connectionId key value⟩).build =
      some ⟨«from», .asking connectionId v value⟩ := by
  have hparse := GTTParser.parseHeaderLine_text key_name key
    (beforeKey «from» connectionId value) 0
  rw [h] at hparse
  have hline : 10 ∉ lit "key" ++ 58 :: 32 :: key := by
    have hname : 10 ∉ lit "key" ++ [58, 32] := by decide
    simpa [hkey] using hname
  have hround := GTTParser.round_header (beforeKey «from» connectionId value) 0
    (GTTPacket.contentLine (value.getD []) ++ (crlf ++ value.getD [])) hline (by simp)
    (by rw [hparse])
  rw [hparse, beforeKey_insert «from» connectionId v value] at hround
  have hbody := GTTParser.round_body ⟨lit "DHT", askingMethod value,
    (toGTTPacket ⟨«from», .asking connectionId v value⟩).headers, []⟩ (value.getD []) [] rfl
  have hpoll : (GTTParser.machine GTTParser.rules).poll
      (GTTParser.fresh.eat (toGTTPacket ⟨«from», .asking connectionId key value⟩).build) =
        .emit (toGTTPacket ⟨«from», .asking connectionId v value⟩) (GTTParser.ready []) := by
    rw [poll_beforeKey, fromKey, (GTTParser.machine GTTParser.rules).poll_next hround]
    rw [List.append_nil] at hbody
    have hcontent := GTTParser.poll_contentLine (value.getD []) ⟨lit "DHT",
      askingMethod value, (toGTTPacket ⟨«from», .asking connectionId v value⟩).headers, []⟩
      (crlf ++ value.getD []) hvalue
    refine hcontent.trans ?_
    rw [(GTTParser.machine GTTParser.rules).poll_emit hbody, toGTTPacket_asking]
  have hget : (GTTParser.getPacket GTTParser.rules (GTTParser.fresh.eat
      (toGTTPacket ⟨«from», .asking connectionId key value⟩).build)).1 =
        .ok (some (toGTTPacket ⟨«from», .asking connectionId v value⟩)) := by
    simp only [GTTParser.getPacket, hpoll]
  have hv := GTTParser.flagValue_isFlagValue h
  have hlegal : (Content.asking connectionId v value).Legal := by
    cases value with
    | none => exact hv
    | some value => exact ⟨hv, hvalue⟩
  have hcarried : (Content.asking connectionId v value).carried = .asking connectionId v value := by
    cases value <;> rfl
  have hcount : (Content.asking connectionId v value).peerCount < 2 ^ 31 := by
    cases value <;> exact Nat.two_pow_pos 31
  have hread := ofGTT_eq inet ⟨«from», .asking connectionId v value⟩
    (readContent_writeContent inet «from» hlegal hcount)
  simp only [received, hget, hread, hcarried]
  rfl

/-- A STORE or a GET is read as it was sent, or not at all, when the first line of its key is the
whole key and a header value, or no header value at all; and if the key is one line, only then. -/
theorem received_key_iff (hvalue : (value.getD []).length < 2 ^ 63) :
    let p : Packet := ⟨«from», .asking connectionId key value⟩
    let v := GTTParser.flagValue (firstLine key)
    (v = none ∨ v = some key → ∀ q, received inet p.toGTTPacket.build = some q → q = p) ∧
      (10 ∉ key → (∀ q, received inet p.toGTTPacket.build = some q → q = p) →
        v = none ∨ v = some key) := by
  intro p v
  refine ⟨?_, fun hline hall => ?_⟩
  · rintro (hv | hv) q hq
    · rw [received_refused inet «from» connectionId key value hv] at hq
      cases hq
    · -- a header value has no line end in it
      have hline : 10 ∉ key := by
        obtain ⟨c, t, rfl, -, ht⟩ :=
          GTTParser.isFlagValue_cons (GTTParser.flagValue_isFlagValue hv)
        exact GTTParser.notMem_of_all ht (by decide)
      have hself := GTTParser.flagValue_self (GTTParser.flagValue_isFlagValue hv)
      rw [received_asking inet «from» connectionId key value hline hself hvalue] at hq
      exact (Option.some.inj hq).symm
  · have hfirst : firstLine key = key := if_neg hline
    cases hv : v with
    | none => exact .inl rfl
    | some w =>
      have hw : GTTParser.flagValue (firstLine key) = some w := hv
      rw [hfirst] at hw
      have hq := hall _ (received_asking inet «from» connectionId key value hline hw hvalue)
      refine .inr (congrArg some ?_)
      cases value with
      | none => exact (Content.get.inj (Packet.mk.inj hq).2).2
      | some value => exact (Content.store.inj (Packet.mk.inj hq).2).2.1

/-- A key that is a header value, and one that cannot be printed. -/
theorem received_key_iff_plain :
    let p : Packet := ⟨.zero, .asking 7 (lit "a b") (some (lit "v"))⟩
    let q : Packet := ⟨.zero, .asking 7 [1] none⟩
    (∀ r, received .zero p.toGTTPacket.build = some r → r = p) ∧
      ∀ r, received .zero q.toGTTPacket.build = some r → r = q :=
  ⟨(received_key_iff .zero .zero 7 (lit "a b") (some (lit "v")) (by decide)).1 (.inr (by decide)),
    (received_key_iff .zero .zero 7 [1] none (by decide)).1 (.inl (by decide))⟩

/-- A leading space is lost, and a key of two lines writes a header of its own: the packet arrives
with another key and another connection id. -/
theorem received_key_changed :
    received .zero (toGTTPacket ⟨.zero, .get 1 (lit " a")⟩).build =
        some ⟨.zero, .get 1 (lit "a")⟩ ∧
      received .zero (toGTTPacket ⟨.zero, .get 1 (lit "a\nconnectionid: 7")⟩).build =
        some ⟨.zero, .get 7 (lit "a")⟩ := by
  decide +kernel

end Packet
end Epyx.DHT
