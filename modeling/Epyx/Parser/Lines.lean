import Epyx.Parser.Framing

/-! Which lines the GTT parser accepts. Its scanners run over a C string, so a line is read up to
its first NUL and accepted for what stands there, whatever follows. -/
namespace Epyx.GTTParser

/-- `NAME SPACE NAME` -/
def IsFirstLine (s : ByteStr) : Prop := ∃ a b, isName a ∧ isName b ∧ s = a ++ 32 :: b

/-- A flag name, a colon, spaces and a value. -/
def IsHeaderLine (s : ByteStr) : Prop :=
  ∃ k n v, isFlagName k ∧ isFlagValue v ∧ s = k ++ 58 :: (List.replicate n 32 ++ v)

/-- What stands before the colon of a header line. -/
def headerName (line : ByteStr) : ByteStr := line.takeWhile (· != 58)

/-- `parseFirstLine` accepts the line if and only if the whole of it has the format, and what it
stores accounts for every byte. -/
def FirstLineExact (line : ByteStr) (pkt : GTTPacket) (size : Nat) : Prop :=
  let r := parseFirstLine line pkt size
  (r.thrown = none ↔ IsFirstLine line) ∧
    (r.thrown = none → line = r.pkt.protocol ++ 32 :: r.pkt.method)

/-- The same of `parseHeaderLine`, for a flag that is not content-length. -/
def HeaderLineExact (line : ByteStr) (pkt : GTTPacket) (size : Nat) : Prop :=
  ¬isContentLength (headerName line) →
    let r := parseHeaderLine line pkt size
    (r.thrown = none ↔ IsHeaderLine line) ∧
      (r.thrown = none → ∃ k n v, line = k ++ 58 :: (List.replicate n 32 ++ v) ∧
        r.pkt = { pkt with headers := pkt.headers.insert k v })

theorem name_noNul {s : ByteStr} (h : isName s) : 0 ∉ s := notMem_name h (by decide)

theorem flagName_noNul {s : ByteStr} (h : isFlagName s) : 0 ∉ s := by
  obtain ⟨c, t, rfl, hc, ht⟩ := isFlagName_cons h
  have h0 : c ≠ 0 := by rintro rfl; exact absurd hc (by decide)
  simpa [Ne.symm h0] using notMem_of_all ht (by decide)

theorem flagValue_noNul {s : ByteStr} (h : isFlagValue s) : 0 ∉ s := by
  obtain ⟨c, t, rfl, -, ht⟩ := isFlagValue_cons h
  exact notMem_of_all ht (by decide)

theorem IsFirstLine.noNul {s : ByteStr} (h : IsFirstLine s) : 0 ∉ s := by
  obtain ⟨a, b, ha, hb, rfl⟩ := h
  simpa [name_noNul ha] using name_noNul hb

theorem IsHeaderLine.noNul {s : ByteStr} (h : IsHeaderLine s) : 0 ∉ s := by
  obtain ⟨k, n, v, hk, hv, rfl⟩ := h
  simp [flagName_noNul hk, flagValue_noNul hv, List.mem_replicate]

/-- A line is read as its bytes before the first NUL. -/
theorem parseFirstLine_cstr {line a b : ByteStr} (ha : isName a) (hb : isName b)
    (h : cstr line = a ++ 32 :: b) (pkt : GTTPacket) (size : Nat) :
    parseFirstLine line pkt size = ⟨{ pkt with protocol := a, method := b }, size, none⟩ := by
  obtain ⟨t, hline, ht⟩ := cstr_split line
  rw [h] at hline
  obtain ⟨c, s, rfl, hc, hs⟩ := isName_cons ha
  obtain ⟨d, u, rfl, hd, hu⟩ := isName_cons hb
  have h1 : scan 32 nameByte (s ++ 32 :: d :: (u ++ t)) = some (s, 32 :: d :: (u ++ t)) :=
    scan_stop _ (notMem_of_all hs (by decide)) (List.all_eq_true.mp hs)
  have hcstr : cstr (u ++ t) = u := by
    rw [cstr_append (notMem_of_all hu (by decide)), ht, List.append_nil]
  have hz := scan_zero nameByte (u ++ t)
  rw [hcstr, if_pos hu] at hz
  obtain ⟨⟨w, r⟩, hscan, hw⟩ := Option.map_eq_some_iff.mp hz
  have hl : line = c :: (s ++ 32 :: d :: (u ++ t)) := by simpa using hline
  simp only at hw
  subst hl hw
  simp [parseFirstLine, hc, hd, h1, hscan]

/-- A line that is accepted has the format up to its first NUL. -/
theorem parseFirstLine_accepted {line : ByteStr} {pkt : GTTPacket} {size : Nat}
    (h : (parseFirstLine line pkt size).thrown = none) : IsFirstLine (cstr line) := by
  cases line with
  | nil => simp [parseFirstLine] at h
  | cons c s =>
    cases hc : isupper c with
    | false => simp [parseFirstLine, hc] at h
    | true =>
      cases hs : scan 32 nameByte s with
      | none => simp [parseFirstLine, hc, hs] at h
      | some r =>
        obtain ⟨w, r⟩ := r
        obtain ⟨hw, t, rfl, rfl⟩ := scan_eq_some (by decide) hs
        have ha : isName (c :: w) := by simp [isName, hc, hw]
        cases t with
        | nil =>
          have hz : isupper 0 = false := by decide
          simp [parseFirstLine, hc, hs, hz] at h
        | cons d t =>
          cases hd : isupper d with
          | false => simp [parseFirstLine, hc, hs, hd] at h
          | true =>
            have hz := scan_zero nameByte t
            by_cases hall : (cstr t).all nameByte
            · have hb : isName (d :: cstr t) := by simp [isName, hd, hall]
              have h0 : (0 : Byte) ∉ c :: w ++ [32, d] := by
                have hd0 : d ≠ 0 := by rintro rfl; exact absurd hd (by decide)
                simpa [Ne.symm hd0] using name_noNul ha
              refine ⟨_, _, ha, hb, ?_⟩
              have happ := cstr_append h0 t
              simpa using happ
            · rw [if_neg hall, Option.map_eq_none_iff] at hz
              simp [parseFirstLine, hc, hs, hd, hz] at h

theorem flagValue_eq_some_iff {text v : ByteStr} :
    flagValue text = some v ↔ isFlagValue v ∧ ∃ n, cstr text = List.replicate n 32 ++ v := by
  constructor
  · intro h
    refine ⟨flagValue_isFlagValue h, (text.takeWhile (· == 32)).length, ?_⟩
    have hrep : text.takeWhile (· == 32) =
        List.replicate (text.takeWhile (· == 32)).length 32 :=
      List.eq_replicate_of_mem fun c hc => by simpa using List.mem_takeWhile_imp hc
    simp only [flagValue, Option.ite_none_right_eq_some, Option.some.injEq] at h
    obtain ⟨-, rfl⟩ := h
    rw [← hrep, ← cstr_append, List.takeWhile_append_dropWhile]
    rw [hrep]
    simp [List.mem_replicate]
  · rintro ⟨hv, n, htext⟩
    obtain ⟨t, hsplit, ht⟩ := cstr_split text
    obtain ⟨c, s, rfl, hc, hall⟩ := isFlagValue_cons hv
    have hdrop : text.dropWhile (· == 32) = c :: s ++ t := by
      rw [hsplit, htext, List.append_assoc,
        List.dropWhile_append_of_pos fun d hd => by simp [List.eq_of_mem_replicate hd]]
      simp [hc]
    have hcstr : cstr (c :: s ++ t) = c :: s := by
      rw [cstr_append (notMem_of_all hall (by decide)), ht, List.append_nil]
    simp only [flagValue, hdrop, hcstr]
    simpa using hall

/-- A line without a flag name and its colon is refused. -/
theorem parseHeaderLine_accepted {line : ByteStr} {pkt : GTTPacket} {size : Nat}
    (h : (parseHeaderLine line pkt size).thrown = none) :
    ∃ k text, isFlagName k ∧ line = k ++ 58 :: text := by
  obtain rfl | ⟨c, s, rfl, hc⟩ | ⟨c, s, rfl, hc, hs⟩ | hflag := flagName_cases line
  · simp [parseHeaderLine] at h
  · simp [parseHeaderLine, hc] at h
  · simp [parseHeaderLine, hc, hs] at h
  · exact hflag

theorem headerName_colon {k : ByteStr} (hk : isFlagName k) (text : ByteStr) :
    headerName (k ++ 58 :: text) = k := by
  obtain ⟨c, s, rfl, hc, hs⟩ := isFlagName_cons hk
  have h58 : 58 ∉ c :: s := by
    have hc58 : c ≠ 58 := by rintro rfl; exact absurd hc (by decide)
    simpa [Ne.symm hc58] using notMem_of_all hs (by decide)
  have hall : ∀ d ∈ c :: s, (d != 58) = true := fun d hd =>
    bne_iff_ne.mpr fun h => h58 (h ▸ hd)
  rw [headerName, List.takeWhile_append_of_pos hall]
  simp

/-- Up to the first NUL, a line with a flag name and its colon has the format if and only if a
value is found behind them. -/
theorem isHeaderLine_colon {k : ByteStr} (hk : isFlagName k) (text : ByteStr) :
    IsHeaderLine (cstr (k ++ 58 :: text)) ↔ ∃ v, flagValue text = some v := by
  have h0 : 0 ∉ k ++ [58] := by simpa using flagName_noNul hk
  have hc : cstr (k ++ 58 :: text) = k ++ 58 :: cstr text := by
    simpa using cstr_append h0 text
  rw [hc]
  constructor
  · rintro ⟨k', n, v, hk', hv, heq⟩
    have hname := congrArg headerName heq
    rw [headerName_colon hk, headerName_colon hk'] at hname
    subst hname
    exact ⟨v, flagValue_eq_some_iff.mpr ⟨hv, n, by simpa using heq⟩⟩
  · rintro ⟨v, hv⟩
    obtain ⟨hval, n, htext⟩ := flagValue_eq_some_iff.mp hv
    exact ⟨k, n, v, hk, hval, by rw [htext]⟩

/-- A scanner that accepts a line for what stands before its first NUL is exact if and only if
there is no NUL, or nothing to accept before it. -/
theorem exact_iff {line : ByteStr} {F P : ByteStr → Prop} {accepted : Prop}
    (hacc : accepted ↔ F (cstr line)) (hparts : accepted → P (cstr line))
    (hnul : F line → 0 ∉ line) :
    ((accepted ↔ F line) ∧ (accepted → P line)) ↔ ¬(0 ∈ line ∧ F (cstr line)) := by
  by_cases h0 : 0 ∈ line
  · have hno : ¬F line := fun h => hnul h h0
    rw [← hacc]
    exact ⟨fun h hc => hno (h.1.mp hc.2), fun h =>
      ⟨⟨fun ha => absurd ⟨h0, ha⟩ h, fun hf => absurd hf hno⟩, fun ha => absurd ⟨h0, ha⟩ h⟩⟩
  · rw [cstr_eq_self h0] at hacc hparts
    exact ⟨fun _ hc => h0 hc.1, fun _ => ⟨hacc, hparts⟩⟩

theorem firstLineExact_iff (line : ByteStr) (pkt : GTTPacket) (size : Nat) :
    FirstLineExact line pkt size ↔ ¬(0 ∈ line ∧ IsFirstLine (cstr line)) := by
  have hread : IsFirstLine (cstr line) →
      (parseFirstLine line pkt size).thrown = none ∧ cstr line =
        (parseFirstLine line pkt size).pkt.protocol ++ 32 ::
          (parseFirstLine line pkt size).pkt.method := by
    rintro ⟨a, b, ha, hb, hline⟩
    rw [parseFirstLine_cstr ha hb hline]
    exact ⟨rfl, hline⟩
  exact exact_iff (P := fun s => s = (parseFirstLine line pkt size).pkt.protocol ++ 32 ::
      (parseFirstLine line pkt size).pkt.method)
    ⟨parseFirstLine_accepted, fun h => (hread h).1⟩
    (fun h => (hread (parseFirstLine_accepted h)).2) IsFirstLine.noNul

/-- What a header line that is no content-length is accepted for. -/
theorem headerLine_read {line : ByteStr} (hn : ¬isContentLength (headerName line)) (pkt : GTTPacket)
    (size : Nat) :
    ((parseHeaderLine line pkt size).thrown = none ↔ IsHeaderLine (cstr line)) ∧
      ((parseHeaderLine line pkt size).thrown = none →
        ∃ k n v, cstr line = k ++ 58 :: (List.replicate n 32 ++ v) ∧
          (parseHeaderLine line pkt size).pkt =
            { pkt with headers := pkt.headers.insert k v }) := by
  by_cases hline : ∃ k text, isFlagName k ∧ line = k ++ 58 :: text
  · obtain ⟨k, text, hk, rfl⟩ := hline
    rw [headerName_colon hk] at hn
    have hread := parseHeaderLine_colon hk text pkt size
    rw [isHeaderLine_colon hk]
    cases hv : flagValue text with
    | none =>
      rw [hv] at hread
      obtain ⟨e, -, he⟩ := hread
      simp [he]
    | some v =>
      simp only [hv, if_neg hn] at hread
      obtain ⟨-, n, htext⟩ := flagValue_eq_some_iff.mp hv
      have h0 : 0 ∉ k ++ [58] := by simpa using flagName_noNul hk
      have hc : cstr (k ++ 58 :: text) = k ++ 58 :: cstr text := by
        simpa using cstr_append h0 text
      rw [hread]
      exact ⟨⟨fun _ => ⟨v, rfl⟩, fun _ => rfl⟩, fun _ => ⟨k, n, v, by rw [hc, htext], rfl⟩⟩
  · have hrefused : (parseHeaderLine line pkt size).thrown ≠ none := fun h =>
      hline (parseHeaderLine_accepted h)
    refine ⟨⟨fun h => absurd h hrefused, fun hf => ?_⟩, fun h => absurd h hrefused⟩
    obtain ⟨k, n, v, hk, -, hc⟩ := hf
    obtain ⟨t, hsplit, -⟩ := cstr_split line
    exact absurd ⟨k, _, hk, by simpa [hc] using hsplit⟩ hline

theorem headerLineExact_iff (line : ByteStr) (pkt : GTTPacket) (size : Nat) :
    HeaderLineExact line pkt size ↔
      ¬(0 ∈ line ∧ ¬isContentLength (headerName line) ∧ IsHeaderLine (cstr line)) := by
  by_cases hn : isContentLength (headerName line)
  · simp [HeaderLineExact, hn]
  · obtain ⟨hacc, hparts⟩ := headerLine_read hn pkt size
    have hexact := exact_iff (P := fun s => ∃ k n v, s = k ++ 58 :: (List.replicate n 32 ++ v) ∧
      (parseHeaderLine line pkt size).pkt = { pkt with headers := pkt.headers.insert k v })
      hacc hparts IsHeaderLine.noNul
    simpa only [HeaderLineExact, hn, Bool.false_eq_true, not_false_eq_true, forall_const,
      true_and] using hexact

/-- The two line parsers accept exactly the lines of their formats and account for every byte of
them, but for a line with a NUL behind a text of the format: what follows the NUL is ignored. -/
theorem lines_exact_iff (line : ByteStr) (pkt : GTTPacket) (size : Nat) :
    (FirstLineExact line pkt size ↔ ¬(0 ∈ line ∧ IsFirstLine (cstr line))) ∧
    (HeaderLineExact line pkt size ↔
      ¬(0 ∈ line ∧ ¬isContentLength (headerName line) ∧ IsHeaderLine (cstr line))) :=
  ⟨firstLineExact_iff line pkt size, headerLineExact_iff line pkt size⟩

/-- `DHT PING` with a NUL and more text behind it is the first line of a `DHT PING`, and a header
keeps only the text before its NUL. -/
theorem lines_inexact :
    let first := lit "DHT PING" ++ 0 :: lit "junk"
    let header := lit "ID: 7" ++ 0 :: lit "junk"
    10 ∉ first ∧ 10 ∉ header ∧
    (parseFirstLine first .empty 0).thrown = none ∧ ¬FirstLineExact first .empty 0 ∧
    (parseHeaderLine header .empty 0).thrown = none ∧ ¬HeaderLineExact header .empty 0 := by
  intro first header
  have hf : IsFirstLine (cstr first) := ⟨lit "DHT", lit "PING", by decide, by decide, by decide⟩
  have hh : IsHeaderLine (cstr header) :=
    ⟨lit "ID", 1, lit "7", by decide, by decide, by decide⟩
  refine ⟨by decide, by decide, by decide, fun h => ?_, by decide, fun h => ?_⟩
  · exact (firstLineExact_iff first .empty 0).mp h ⟨by decide, hf⟩
  · exact (headerLineExact_iff header .empty 0).mp h ⟨by decide, by decide, hh⟩

end Epyx.GTTParser
