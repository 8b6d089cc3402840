import Epyx.Lib.Machine
import Epyx.Parser.AfterError
import Epyx.Parser.Body

/-! HTTP answers whose header names are written in different cases are read alike, and the names
of the lines cannot touch the text kept from the first line. -/
namespace Epyx.HTTPParser
open Lib
open GTTParser (flagByte reading getPacket packets machine unlines outcome firstPacket)

/-! The bytes of a name in whatever case. -/

theorem flagByte_tolower (c : Byte) : flagByte (tolower c) = flagByte c := by
  have h : ∀ n : Fin 256, flagByte (tolower (.ofFin n)) = flagByte (.ofFin n) := by decide +kernel
  exact h c.toFin

theorem isalpha_tolower (c : Byte) : isalpha (tolower c) = isalpha c := by
  have h : ∀ n : Fin 256, isalpha (tolower (.ofFin n)) = isalpha (.ofFin n) := by decide +kernel
  exact h c.toFin

/-- A byte that is no letter is its own lower case, and that of no other byte. -/
theorem tolower_eq_iff {b : Byte} (hb : isalpha b = false) (c : Byte) : tolower c = b ↔ c = b := by
  have h : ∀ n : Fin 256, isalpha (tolower (.ofFin n)) ∨ tolower (.ofFin n) = .ofFin n := by
    decide +kernel
  constructor
  · intro hc
    rcases h c.toFin with halpha | hsame
    · have hbyte : isalpha (tolower c) = true := halpha
      rw [hc, hb] at hbyte
      cases hbyte
    · exact hsame.symm.trans hc
  · rintro rfl
    rcases h c.toFin with halpha | hsame
    · have hbyte : isalpha (tolower c) = true := halpha
      rw [isalpha_tolower, hb] at hbyte
      cases hbyte
    · exact hsame

theorem mem_toLower {b : Byte} (hb : isalpha b = false) (s : ByteStr) :
    b ∈ Text.toLower s ↔ b ∈ s := by
  simp only [Text.toLower, List.mem_map, tolower_eq_iff hb, exists_eq_right]

/-- Two lines that differ in nothing but the case of letters in front of the colon. -/
inductive SameFlag : ByteStr → ByteStr → Prop
  | intro (name name' text : ByteStr) (colon : 58 ∉ name)
      (lower : Text.toLower name = Text.toLower name') : SameFlag (name ++ text) (name' ++ text)

/-- The scanner of the name stops at the same place of both lines. -/
theorem scan_name {s s' : ByteStr} (h : Text.toLower s = Text.toLower s') (hcolon : 58 ∉ s)
    (text : ByteStr) :
    (scan 58 flagByte (s ++ text)).map (fun r => (Text.toLower r.1, r.2)) =
      (scan 58 flagByte (s' ++ text)).map fun r => (Text.toLower r.1, r.2) := by
  induction s generalizing s' with
  | nil =>
    have hnil : s' = [] := List.map_eq_nil_iff.mp h.symm
    rw [hnil]
  | cons c s ih =>
    cases s' with
    | nil => cases h
    | cons c' s' =>
      obtain ⟨hc, hs⟩ : tolower c = tolower c' ∧ Text.toLower s = Text.toLower s' :=
        List.cons.inj h
      have hne : c ≠ 58 := fun he => hcolon (by simp [he])
      have hne' : c' ≠ 58 := fun he =>
        hne ((tolower_eq_iff (by decide) c).mp (hc.trans ((tolower_eq_iff (by decide) c').mpr he)))
      have hflag : flagByte c = flagByte c' := by
        rw [← flagByte_tolower c, hc, flagByte_tolower]
      have hrest := ih hs fun hm => hcolon (List.mem_cons_of_mem c hm)
      simp only [List.cons_append, scan, hne, hne', hflag, if_false]
      split
      · have hcons : ∀ (d : Byte) (o : Option (ByteStr × ByteStr)),
            (o.map fun r => (d :: r.1, r.2)).map (fun r => (Text.toLower r.1, r.2)) =
              (o.map fun r => (Text.toLower r.1, r.2)).map fun r => (tolower d :: r.1, r.2) := by
          intro d o
          cases o <;> rfl
        rw [hcons, hcons, hrest, hc]
      · rfl

/-- Lines that differ in the case of the name are read alike. -/
theorem parseHeaderLine_sameFlag {line line' : ByteStr} (h : SameFlag line line') (pkt : GTTPacket)
    (size : Nat) : parseHeaderLine line pkt size = parseHeaderLine line' pkt size := by
  obtain ⟨name, name', text, hcolon, hlower⟩ := h
  cases name with
  | nil =>
    have hnil : name' = [] := List.map_eq_nil_iff.mp hlower.symm
    rw [hnil]
  | cons c s =>
    cases name' with
    | nil => cases hlower
    | cons c' s' =>
      obtain ⟨hc, hs⟩ : tolower c = tolower c' ∧ Text.toLower s = Text.toLower s' :=
        List.cons.inj hlower
      have halpha : isalpha c = isalpha c' := by rw [← isalpha_tolower c, hc, isalpha_tolower]
      have hscan := scan_name hs (fun hm => hcolon (List.mem_cons_of_mem c hm)) text
      have hpeek : ∀ (d : Byte) (t : ByteStr), peek (d :: t) = d := fun _ _ => rfl
      simp only [List.cons_append, parseHeaderLine, List.length_cons, Nat.add_eq_zero_iff,
        Nat.one_ne_zero, and_false, if_false, hpeek, List.drop_succ_cons, List.drop_zero, halpha]
      split
      · rfl
      · cases hr : scan 58 flagByte (s ++ text) with
        | none =>
          rw [hr] at hscan
          rw [Option.map_eq_none_iff.mp hscan.symm]
        | some r =>
          rw [hr] at hscan
          obtain ⟨r', hr', heq⟩ := Option.map_eq_some_iff.mp hscan.symm
          obtain ⟨hname, hrest⟩ := Prod.mk.inj heq
          have hkey : Text.toLower (c :: r.1) = Text.toLower (c' :: r'.1) :=
            congrArg₂ List.cons hc hname.symm
          rw [hr']
          simp only [hkey, hrest]

theorem getLast?_toLower {s s' : ByteStr} (h : Text.toLower s = Text.toLower s') :
    s.getLast? = some 13 ↔ s'.getLast? = some 13 := by
  have hlast : ∀ t : ByteStr, t.getLast? = some 13 ↔ (Text.toLower t).getLast? = some 13 := by
    intro t
    rw [Text.toLower, List.getLast?_map]
    cases t.getLast? with
    | none => rfl
    | some c => simp only [Option.map_some, Option.some.injEq, tolower_eq_iff (b := 13) rfl]
  rw [hlast s, hlast s', h]

/-- The line ends are taken off alike. -/
theorem SameFlag.chomp {raw raw' : ByteStr} (h : SameFlag raw raw') :
    SameFlag (LineParser.chomp raw) (LineParser.chomp raw') := by
  obtain ⟨name, name', text, hcolon, hlower⟩ := h
  rcases List.eq_nil_or_concat text with rfl | ⟨text, c, rfl⟩
  · simp only [List.append_nil, LineParser.chomp, getLast?_toLower hlower]
    have hdrop : Text.toLower name.dropLast = Text.toLower name'.dropLast := by
      have hmap := congrArg List.dropLast hlower
      simpa only [Text.toLower, List.map_dropLast] using hmap
    split
    · have hsub : 58 ∉ name.dropLast := fun hm => hcolon (List.dropLast_subset name hm)
      simpa only [List.append_nil] using SameFlag.intro _ _ [] hsub hdrop
    · simpa only [List.append_nil] using SameFlag.intro _ _ [] hcolon hlower
  · have hchomp : ∀ n : ByteStr, LineParser.chomp (n ++ text.concat c) =
        n ++ if c = 13 then text else text.concat c := by
      intro n
      rw [List.concat_eq_append, ← List.append_assoc, LineParser.chomp, List.getLast?_concat,
        List.dropLast_concat]
      by_cases hc : c = 13
      · simp [hc]
      · simp [hc]
    rw [hchomp, hchomp]
    exact .intro _ _ _ hcolon hlower

theorem SameFlag.length {raw raw' : ByteStr} (h : SameFlag raw raw') :
    raw.length = raw'.length := by
  obtain ⟨name, name', text, -, hlower⟩ := h
  have hlen := congrArg List.length hlower
  simp only [Text.toLower, List.length_map] at hlen
  rw [List.length_append, List.length_append, hlen]

theorem SameFlag.newline {raw raw' : ByteStr} (h : SameFlag raw raw') : 10 ∈ raw ↔ 10 ∈ raw' := by
  obtain ⟨name, name', text, -, hlower⟩ := h
  have hten := mem_toLower (b := 10) rfl
  rw [List.mem_append, List.mem_append, ← hten name, hlower, hten]

/-- A header line as it comes, without its `\n`: it is not the blank line. -/
structure IsFlagLine (raw : ByteStr) : Prop where
  newline : 10 ∉ raw
  blank : LineParser.chomp raw ≠ []

theorem SameFlag.isFlagLine {raw raw' : ByteStr} (h : SameFlag raw raw') (hraw : IsFlagLine raw) :
    IsFlagLine raw' where
  newline := mt h.newline.mpr hraw.newline
  blank hnil := by
    have hlen := h.chomp.length
    rw [hnil] at hlen
    exact hraw.blank (List.length_eq_zero_iff.mp hlen)

/-- Two calls come to the same; where they fail, they may leave different bytes behind. -/
inductive SameEnd : Step GTTParser GTTPacket Exn → Step GTTParser GTTPacket Exn → Prop
  | same (r : Step GTTParser GTTPacket Exn) : SameEnd r r
  | failed (e : Exn) (p : GTTParser) (lp lp' : LineParser) :
      SameEnd (.fail e { p with lineParser := lp }) (.fail e { p with lineParser := lp' })

/-- The header lines are read one by one, up to the first that is refused. -/
theorem poll_flags {raws raws' : List ByteStr} (h : List.Forall₂ SameFlag raws raws')
    (hlines : ∀ raw ∈ raws, IsFlagLine raw) (rest : ByteStr) (pkt : GTTPacket) (size : Nat) :
    SameEnd ((machine rules).poll (reading pkt size (unlines raws ++ rest)))
      ((machine rules).poll (reading pkt size (unlines raws' ++ rest))) := by
  induction h generalizing pkt size with
  | nil => exact .same _
  | @cons raw raw' raws raws' hraw _ ih =>
    have hline := hlines raw (List.mem_cons_self ..)
    have hline' := hraw.isFlagLine hline
    have hbytes : ∀ (line : ByteStr) (lines : List ByteStr),
        unlines (line :: lines) ++ rest = line ++ 10 :: (unlines lines ++ rest) := by
      intro line lines
      simp [unlines]
    have hstep := GTTParser.step_reading_line (R := rules) hline.newline hline.blank pkt size
      (unlines raws ++ rest)
    have hstep' := GTTParser.step_reading_line (R := rules) hline'.newline hline'.blank pkt size
      (unlines raws' ++ rest)
    have hread : rules.parseHeaderLine (LineParser.chomp raw') pkt size =
        rules.parseHeaderLine (LineParser.chomp raw) pkt size :=
      (parseHeaderLine_sameFlag hraw.chomp pkt size).symm
    rw [hread] at hstep'
    rw [hbytes, hbytes]
    generalize rules.parseHeaderLine (LineParser.chomp raw) pkt size = r at hstep hstep'
    cases ht : r.thrown with
    | some e =>
      simp only [ht] at hstep hstep'
      rw [(machine rules).poll_fail hstep, (machine rules).poll_fail hstep']
      exact .failed e (reading r.pkt r.size []) _ _
    | none =>
      simp only [ht] at hstep hstep'
      rw [(machine rules).poll_next hstep, (machine rules).poll_next hstep']
      exact ih (fun line hm => hlines line (List.mem_cons_of_mem raw hm)) r.pkt r.size

/-- An answer: its first line, its header lines and what follows them, the blank line first. -/
def answer (first : ByteStr) (raws : List ByteStr) (rest : ByteStr) : ByteStr :=
  first ++ 10 :: (unlines raws ++ rest)

theorem poll_answer {first : ByteStr} (hfirst : 10 ∉ first) {raws raws' : List ByteStr}
    (h : List.Forall₂ SameFlag raws raws') (hlines : ∀ raw ∈ raws, IsFlagLine raw)
    (rest : ByteStr) :
    SameEnd ((machine rules).poll (GTTParser.fresh.eat (answer first raws rest)))
      ((machine rules).poll (GTTParser.fresh.eat (answer first raws' rest))) := by
  have hrefused := fun (lines : List ByteStr) (e : Exn) =>
    GTTParser.poll_firstLine_refused (R := rules) (e := e)
      (p := GTTParser.fresh.eat (answer first lines rest)) rfl hfirst rfl
  have hpkt : ∀ lines : List ByteStr,
      (GTTParser.fresh.eat (answer first lines rest)).pkt = .empty := fun _ => rfl
  have haccepted := fun lines : List ByteStr => GTTParser.poll_firstLine_accepted (R := rules)
    (p := GTTParser.fresh.eat (answer first lines rest)) rfl hfirst rfl
  simp only [hpkt] at hrefused haccepted
  generalize rules.parseFirstLine (LineParser.chomp first) .empty 0 = r at hrefused haccepted
  cases ht : r.thrown with
  | some e =>
    rw [hrefused raws e ht, hrefused raws' e ht]
    exact .failed e { GTTParser.fresh with currentPkt := some r.pkt, currentSize := r.size } _ _
  | none =>
    rw [haccepted raws ht, haccepted raws' ht]
    exact poll_flags h hlines rest r.pkt r.size

/-- The packets are the same, and so are the exception and the error they end with. -/
theorem SameEnd.packets {p p' : GTTParser}
    (h : SameEnd ((machine rules).poll p) ((machine rules).poll p')) :
    (packets rules p).1 = (packets rules p').1 ∧
      (packets rules p).2.2 = (packets rules p').2.2 ∧
      (packets rules p).2.1.getError = (packets rules p').2.1.getError := by
  generalize hr : (machine rules).poll p = r at h
  generalize hr' : (machine rules).poll p' = r' at h
  cases h with
  | same =>
    have hget : getPacket rules p = getPacket rules p' := by rw [getPacket, getPacket, hr, hr']
    rw [GTTParser.packets_congr rules hget]
    exact ⟨rfl, rfl, rfl⟩
  | failed e q lp lp' =>
    cases he : e.isParser with
    | true =>
      have hnull := GTTParser.getPacket_error rules hr he
      have hnull' := GTTParser.getPacket_error rules hr' he
      rw [GTTParser.packets_null rules hnull, GTTParser.packets_null rules hnull']
      exact ⟨rfl, rfl, rfl⟩
    | false =>
      have hthrow := GTTParser.getPacket_throw rules hr he
      have hthrow' := GTTParser.getPacket_throw rules hr' he
      rw [GTTParser.packets_throw rules hthrow, GTTParser.packets_throw rules hthrow']
      exact ⟨rfl, rfl, rfl⟩

theorem SameEnd.outcome {r r' : Step GTTParser GTTPacket Exn} (h : SameEnd r r') :
    outcome r = outcome r' := by
  cases h with
  | same => rfl
  | failed e p lp lp' => rfl

/-! The text of the first line. -/

/-- The key it is kept under, which is no name in lower case. -/
def codeKey : ByteStr := lit "HTTP-code"

theorem toLower_ne_codeKey (name : ByteStr) : Text.toLower name ≠ codeKey := by
  intro h
  have hlower := congrArg Text.toLower h
  have hidem : Text.toLower (Text.toLower name) = Text.toLower name := by
    simp only [Text.toLower, List.map_map, Function.comp_def, tolower_tolower]
  rw [hidem, h] at hlower
  exact absurd hlower (by decide)

/-- The line was accepted as a first line, and the headers hold the text it has left there. -/
def HasCode (line : ByteStr) (headers : Headers) : Prop :=
  (parseFirstLine line .empty 0).thrown = none ∧
    ∃ desc, (parseFirstLine line .empty 0).pkt.headers[codeKey]? = some desc ∧
      headers[codeKey]? = some desc

theorem hasCode_firstLine {line : ByteStr} {pkt : GTTPacket} {size : Nat}
    (h : (parseFirstLine line pkt size).thrown = none) :
    HasCode line (parseFirstLine line pkt size).pkt.headers := by
  unfold HasCode
  unfold parseFirstLine at h ⊢
  by_cases hlen : line.length = 0
  · simp only [hlen, if_true] at h
    cases h
  · cases h1 : scan 32 versionByte line with
    | none =>
      simp only [hlen, if_false, h1] at h
      cases h
    | some r1 =>
      cases h2 : scan 32 isdigit (r1.2.drop 1) with
      | none =>
        simp only [hlen, if_false, h1, h2] at h
        cases h
      | some r2 =>
        cases h3 : scan 0 descByte (r2.2.drop 1) with
        | none =>
          simp only [hlen, if_false, h1, h2, h3] at h
          cases h
        | some r3 =>
          simp only [hlen, if_false, h2, h3]
          exact ⟨trivial, r3.1, Std.ExtTreeMap.getElem?_insert_self,
            Std.ExtTreeMap.getElem?_insert_self⟩

/-- A header line leaves it alone, whatever its name, and whether it is accepted or not. -/
theorem headerLine_code (line : ByteStr) (pkt : GTTPacket) (size : Nat) :
    (parseHeaderLine line pkt size).pkt.headers[codeKey]? = pkt.headers[codeKey]? := by
  have hinsert : ∀ name v : ByteStr,
      (pkt.headers.insert (Text.toLower name) v)[codeKey]? = pkt.headers[codeKey]? := by
    intro name v
    rw [Std.ExtTreeMap.getElem?_insert,
      if_neg fun h => toLower_ne_codeKey name (Std.LawfulEqCmp.eq_of_compare h)]
  have hlength : ∀ v : ByteStr, (GTTParser.contentLength "HTTPParser" v pkt size).pkt = pkt := by
    intro v
    unfold GTTParser.contentLength
    split
    · rfl
    · split
      · rfl
      · split <;> rfl
  unfold parseHeaderLine
  split
  · rfl
  · split
    · rfl
    · split
      · rfl
      · dsimp only
        split
        · exact hinsert _ _
        · split
          · rfl
          · split
            · rw [hlength]
            · exact hinsert _ _

/-- A parser, and the line it has last taken out of its buffer for a first line. -/
structure Reader where
  parser : GTTParser
  firstLine : ByteStr

/-- `getPacket` takes a first line where it stands in front of one that has come. -/
def Reader.taken (r : Reader) : ByteStr :=
  if r.parser.datapos = .firstLine then (r.parser.lineParser.popLine.map Prod.fst).getD r.firstLine
  else r.firstLine

open GTTParser (ParserCall) in
/-- The owner of a parser calls it; each packet he gets is put out with its first line. -/
def reader : Machine Reader ParserCall (ByteStr × GTTPacket) where
  step r call :=
    let parser := call.apply rules r.parser
    match call with
    | .getPacket => some (⟨parser, r.taken⟩,
        ((getPacket rules r.parser).1.toOption.join.map fun o => (r.taken, o)).toList)
    | .eat _ | .reset => some (⟨parser, r.firstLine⟩, [])

/-- Inside a message the headers hold the text of its first line. -/
def Started (line : ByteStr) (p : GTTParser) : Prop :=
  p.datapos = .firstLine ∨ HasCode line p.pkt.headers

/-- What a call makes of a message: it is still one with this first line, or delivered as one. -/
def Delivers (line : ByteStr) : Step GTTParser GTTPacket Exn → Prop
  | .emit o p => HasCode line o.headers ∧ p.datapos = .firstLine
  | .next p | .stall p | .fail _ p => HasCode line p.pkt.headers ∧ p.datapos ≠ .firstLine

theorem contentCase_delivers {line : ByteStr} {p : GTTParser} (hd : p.datapos ≠ .firstLine)
    (h : HasCode line p.pkt.headers) : Delivers line (GTTParser.contentCase p) := by
  unfold GTTParser.contentCase
  split
  · split
    · exact ⟨h, hd⟩
    · exact ⟨h, rfl⟩
  · exact ⟨h, rfl⟩

theorem step_delivers {line : ByteStr} {p : GTTParser} (hd : p.datapos ≠ .firstLine)
    (h : HasCode line p.pkt.headers) : Delivers line ((machine rules).step p) := by
  rw [GTTParser.machine_step, GTTParser.round]
  cases hp : p.datapos with
  | firstLine => exact absurd hp hd
  | content => exact contentCase_delivers hd h
  | headers =>
    dsimp only
    unfold GTTParser.headersCase
    split
    · exact ⟨h, hd⟩
    · rename_i flag lp hpop
      dsimp only
      split
      · have hflag : HasCode line
            (rules.parseHeaderLine flag p.pkt p.currentSize).pkt.headers := by
          obtain ⟨haccepted, desc, hdesc, hcode⟩ := h
          exact ⟨haccepted, desc, hdesc, (headerLine_code flag p.pkt p.currentSize).trans hcode⟩
        unfold GTTParser.afterLine
        dsimp only
        split
        · exact ⟨hflag, hd⟩
        · exact ⟨hflag, hd⟩
      · exact contentCase_delivers (by simp) h

theorem poll_delivers {line : ByteStr} {p : GTTParser} (hd : p.datapos ≠ .firstLine)
    (h : HasCode line p.pkt.headers) : Delivers line ((machine rules).poll p) :=
  (machine rules).poll_ends (I := fun p => p.datapos ≠ .firstLine ∧ HasCode line p.pkt.headers)
    (fun _ hp => step_delivers hp.1 hp.2) (fun _ hq => ⟨hq.2, hq.1⟩) ⟨hd, h⟩

/-- A call of `getPacket` keeps to the first line it takes, or to the one it is behind. -/
theorem Reader.poll_delivers {r : Reader} (h : Started r.firstLine r.parser) :
    match (machine rules).poll r.parser with
    | .emit o p => HasCode r.taken o.headers ∧ p.datapos = .firstLine
    | .next p | .stall p | .fail _ p => Started r.taken p := by
  have hinside : ∀ line p, HasCode line p.pkt.headers → p.datapos ≠ .firstLine →
      match (machine rules).poll p with
      | .emit o p => HasCode line o.headers ∧ p.datapos = .firstLine
      | .next p | .stall p | .fail _ p => Started line p := by
    intro line p hcode hd
    have hdelivers := HTTPParser.poll_delivers hd hcode
    cases hpoll : (machine rules).poll p <;> rw [hpoll] at hdelivers
    · exact .inr hdelivers.1
    · exact hdelivers
    · exact .inr hdelivers.1
    · exact .inr hdelivers.1
  by_cases hd : r.parser.datapos = .firstLine
  · cases hpop : r.parser.lineParser.popLine with
    | none =>
      have hstep : (machine rules).step r.parser =
          .stall { r.parser with currentPkt := some r.parser.pkt, currentSize := 0 } := by
        simp only [GTTParser.machine_step, GTTParser.round, hd, GTTParser.firstLineCase, hpop]
      rw [(machine rules).poll_stall hstep]
      exact .inl hd
    | some popped =>
      obtain ⟨line, lp⟩ := popped
      have htaken : r.taken = line := by simp only [taken, hd, hpop, if_true, Option.map_some,
        Option.getD_some]
      obtain ⟨raw, hraw, rfl, hbuffer⟩ := LineParser.popLine_eq_some hpop
      rw [htaken]
      cases ht : (rules.parseFirstLine (LineParser.chomp raw) r.parser.pkt 0).thrown with
      | some e =>
        rw [GTTParser.poll_firstLine_refused hd hraw hbuffer ht]
        exact .inl hd
      | none =>
        rw [GTTParser.poll_firstLine_accepted hd hraw hbuffer ht]
        exact hinside _ _ (hasCode_firstLine ht) (by simp)
  · have htaken : r.taken = r.firstLine := if_neg hd
    rw [htaken]
    exact hinside _ _ (h.resolve_left hd) hd

theorem Reader.getPacket_delivers {r : Reader} (h : Started r.firstLine r.parser) :
    Started r.taken (getPacket rules r.parser).2 ∧
      ∀ o, (getPacket rules r.parser).1 = .ok (some o) → HasCode r.taken o.headers := by
  have hdelivers := Reader.poll_delivers h
  cases hpoll : (machine rules).poll r.parser with
  | emit o p =>
    rw [hpoll] at hdelivers
    rw [GTTParser.getPacket_eq_some_iff.mpr hpoll]
    refine ⟨.inl hdelivers.2, fun o' ho' => ?_⟩
    cases ho'
    exact hdelivers.1
  | next p => exact absurd hpoll ((machine rules).poll_ne_next _ _)
  | stall p =>
    rw [hpoll] at hdelivers
    rw [GTTParser.getPacket_stall rules hpoll]
    exact ⟨hdelivers, fun o' ho' => by cases ho'⟩
  | fail e p =>
    rw [hpoll] at hdelivers
    cases he : e.isParser with
    | true =>
      rw [GTTParser.getPacket_error rules hpoll he]
      exact ⟨hdelivers, fun o' ho' => by cases ho'⟩
    | false =>
      rw [GTTParser.getPacket_throw rules hpoll he]
      exact ⟨hdelivers, fun o' ho' => by cases ho'⟩

/-- Every packet has the text of the first line it was read behind, however the parser is called,
behind errors and resets too. -/
theorem hasCode_of_run {line₀ : ByteStr} {r : Reader} {log : List (ByteStr × GTTPacket)}
    (run : reader.Run (fun _ _ _ => True) ⟨GTTParser.fresh, line₀⟩ r log) :
    ∀ x ∈ log, HasCode x.1 x.2.headers := by
  have hstart : Started line₀ GTTParser.fresh := .inl rfl
  refine (run.invariant (P := fun r log => Started r.firstLine r.parser ∧
    ∀ x ∈ log, HasCode x.1 x.2.headers) ⟨hstart, by simp⟩ ?_).2
  intro r log call r' out h _ taken
  cases call with
  | eat data =>
    cases taken
    rw [List.append_nil]
    exact h
  | reset =>
    cases taken
    rw [List.append_nil]
    exact ⟨.inl rfl, h.2⟩
  | getPacket =>
    cases taken
    obtain ⟨hstarted, hpacket⟩ := Reader.getPacket_delivers h.1
    refine ⟨hstarted, fun x hx => ?_⟩
    rcases List.mem_append.mp hx with hx | hx
    · exact h.2 x hx
    · obtain ⟨o, ho, rfl⟩ := Option.map_eq_some_iff.mp (Option.mem_toList.mp hx)
      refine hpacket o ?_
      cases hget : (getPacket rules r.parser).1 with
      | error e => simp [hget, Except.toOption] at ho
      | ok opt =>
        rw [hget] at ho
        exact congrArg Except.ok ho

/-- What a parser makes of two streams is the same: the packets and the exception or the error they
end with; and the first packet or error, however they are cut. -/
structure Alike (bytes bytes' : ByteStr) : Prop where
  packets : (GTTParser.packets rules (GTTParser.fresh.eat bytes)).1 =
    (GTTParser.packets rules (GTTParser.fresh.eat bytes')).1
  thrown : (GTTParser.packets rules (GTTParser.fresh.eat bytes)).2.2 =
    (GTTParser.packets rules (GTTParser.fresh.eat bytes')).2.2
  error : (GTTParser.packets rules (GTTParser.fresh.eat bytes)).2.1.getError =
    (GTTParser.packets rules (GTTParser.fresh.eat bytes')).2.1.getError
  cut : ∀ cs cs', cs.flatten = bytes → cs'.flatten = bytes' →
    firstPacket rules GTTParser.fresh cs = firstPacket rules GTTParser.fresh cs'

theorem SameEnd.alike {bytes bytes' : ByteStr} (hne : bytes ≠ []) (hne' : bytes' ≠ [])
    (h : SameEnd ((machine rules).poll (GTTParser.fresh.eat bytes))
      ((machine rules).poll (GTTParser.fresh.eat bytes'))) : Alike bytes bytes' where
  packets := h.packets.1
  thrown := h.packets.2.1
  error := h.packets.2.2
  cut cs cs' hcs hcs' := by
    cases cs with
    | nil => exact absurd hcs.symm hne
    | cons c cs =>
      cases cs' with
      | nil => exact absurd hcs'.symm hne'
      | cons c' cs' =>
        rw [GTTParser.firstPacket_eq c cs rfl, GTTParser.firstPacket_eq c' cs' rfl, hcs, hcs']
        exact h.outcome

/-- Answers with the same first line, header lines that differ only in the case of their names and
the same bytes behind them are read alike. In every packet a parser returns, the text of the first
line is as that line has left it. -/
theorem answers_alike :
    (∀ first raws raws' rest, 10 ∉ first → List.Forall₂ SameFlag raws raws' →
      (∀ raw ∈ raws, IsFlagLine raw) →
      Alike (answer first raws rest) (answer first raws' rest)) ∧
    ∀ line₀ r log, reader.Run (fun _ _ _ => True) ⟨GTTParser.fresh, line₀⟩ r log →
      ∀ x ∈ log, HasCode x.1 x.2.headers := by
  refine ⟨fun first raws raws' rest hfirst h hlines => ?_,
    fun line₀ r log run => hasCode_of_run run⟩
  have hne : ∀ lines, answer first lines rest ≠ [] := by
    intro lines
    simp [answer]
  exact (poll_answer hfirst h hlines rest).alike (hne raws) (hne raws')

/-- An answer with a body, whose last header has the name the text of the first line is kept
under. -/
theorem answers_alike_located :
    Alike (lit "HTTP/1.1 200 OK\r\nContent-Length: 2\r\nHTTP-code: none\r\n\r\nhi")
        (lit "HTTP/1.1 200 OK\r\nCONTENT-length: 2\r\nhttp-Code: none\r\n\r\nhi") ∧
      ∃ r log, reader.Run (fun _ _ _ => True) ⟨GTTParser.fresh, []⟩ r log ∧
        log.map (fun x => (x.1, x.2.headers[codeKey]?)) =
          [(lit "HTTP/1.1 200 OK", some (lit "OK"))] ∧
        ∀ x ∈ log, HasCode x.1 x.2.headers := by
  refine ⟨?_, ?_⟩
  · have hsame : List.Forall₂ SameFlag
        [lit "Content-Length: 2\r", lit "HTTP-code: none\r"]
        [lit "CONTENT-length: 2\r", lit "http-Code: none\r"] :=
      .cons (.intro (lit "Content-Length") (lit "CONTENT-length") (lit ": 2\r") (by decide)
        (by decide)) (.cons (.intro (lit "HTTP-code") (lit "http-Code") (lit ": none\r") (by decide)
        (by decide)) .nil)
    have hlines : ∀ raw ∈ [lit "Content-Length: 2\r", lit "HTTP-code: none\r"],
        IsFlagLine raw := by
      intro raw hraw
      have hall : ∀ raw ∈ [lit "Content-Length: 2\r", lit "HTTP-code: none\r"],
          10 ∉ raw ∧ LineParser.chomp raw ≠ [] := by decide
      exact ⟨(hall raw hraw).1, (hall raw hraw).2⟩
    have hbytes : answer (lit "HTTP/1.1 200 OK\r")
        [lit "Content-Length: 2\r", lit "HTTP-code: none\r"] (lit "\r\nhi") =
        lit "HTTP/1.1 200 OK\r\nContent-Length: 2\r\nHTTP-code: none\r\n\r\nhi" := by
      decide +kernel
    have hbytes' : answer (lit "HTTP/1.1 200 OK\r")
        [lit "CONTENT-length: 2\r", lit "http-Code: none\r"] (lit "\r\nhi") =
        lit "HTTP/1.1 200 OK\r\nCONTENT-length: 2\r\nhttp-Code: none\r\n\r\nhi" := by
      decide +kernel
    rw [← hbytes, ← hbytes']
    exact answers_alike.1 _ _ _ _ (by decide) hsame hlines
  · have h : (reader.exec (fun _ _ _ => true) (⟨GTTParser.fresh, []⟩, [])
        [.eat (lit "HTTP/1.1 200 OK\r\nContent-Length: 2\r\nHTTP-code: none\r\n\r\nhi"),
          .getPacket]).map (fun r => r.2.map fun x => (x.1, x.2.headers[codeKey]?)) =
        some [(lit "HTTP/1.1 200 OK", some (lit "OK"))] := by
      decide +kernel
    obtain ⟨⟨r, log⟩, hrun, hlog⟩ := Option.map_eq_some_iff.mp h
    have run := (Machine.Run.exec .start hrun).free
    exact ⟨r, log, run, hlog, answers_alike.2 [] r log run⟩

end Epyx.HTTPParser
