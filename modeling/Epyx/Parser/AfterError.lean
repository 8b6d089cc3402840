import Epyx.Parser.HTTPParser
import Epyx.Parser.Section

/-! What a parser does after an error. `getPacket` does not look at `hasError`: it goes on behind
the bad line, with the position and the half-filled packet it had. -/
namespace Epyx.GTTParser
open Lib
variable (R : LineRules)

/-- What the owner of a parser can call. -/
inductive ParserCall where
  | eat (data : ByteStr)
  | getPacket
  | reset
  deriving DecidableEq

/-- The parser after a call. -/
def ParserCall.apply (p : GTTParser) : ParserCall → GTTParser
  | .eat data => p.eat data
  | .getPacket => (GTTParser.getPacket R p).2
  | .reset => p.reset

/-- A fresh parser after a sequence of calls. -/
def after (calls : List ParserCall) : GTTParser := calls.foldl (ParserCall.apply R) fresh

/-- `getPacket` reports an error: `getError` is true after it. -/
def Reports (p : GTTParser) : Prop := (getPacket R p).2.getError.1

/-- Once `getPacket` has reported an error, no later `getPacket` returns a packet until `reset`. -/
def Silent (calls : List ParserCall) : Prop :=
  ∀ a b c, calls = a ++ .getPacket :: (b ++ .getPacket :: c) → Reports R (after R a) → .reset ∉ b →
    ∀ o, (getPacket R (after R (a ++ .getPacket :: b))).1 ≠ .ok (some o)

variable {R}

/-- A call that returns no packet does not take the error flag down. -/
theorem getPacket_keepsError {p : GTTParser} (hp : p.hasError = true)
    (h : ∀ o, (getPacket R p).1 ≠ .ok (some o)) : (getPacket R p).2.hasError = true := by
  have hkeep := poll_keeps (R := R) hp
  unfold getPacket at h ⊢
  cases hpoll : (machine R).poll p with
  | emit o q => simp [hpoll] at h
  | next q | stall q =>
    rw [hpoll] at hkeep
    exact hkeep
  | fail e q =>
    rw [hpoll] at hkeep
    cases he : e.isParser with
    | true => simp [caught, he]
    | false =>
      have hq : q.hasError = true := hkeep.2
      simp [caught, he, hq]

theorem reports_iff {p : GTTParser} :
    Reports R p ↔ (ParserCall.getPacket.apply R p).hasError = true := by
  rw [Reports, getError_fst, ParserCall.apply]

theorem after_concat (calls : List ParserCall) (x : ParserCall) :
    after R (calls ++ [x]) = x.apply R (after R calls) := by
  simp [after]

/-- The error flag is up only after a call that has reported an error, with no reset since. -/
theorem hasError_reported (calls : List ParserCall) (h : (after R calls).hasError = true) :
    ∃ a b, calls = a ++ .getPacket :: b ∧ Reports R (after R a) ∧ .reset ∉ b := by
  induction calls using List.reverseRecOn with
  | nil => cases h
  | append_singleton calls x ih =>
    rw [after_concat] at h
    cases x with
    | eat data =>
      obtain ⟨a, b, rfl, hr, hb⟩ := ih h
      exact ⟨a, b ++ [.eat data], by simp, hr, by simpa using hb⟩
    | getPacket => exact ⟨calls, [], rfl, reports_iff.mpr h, by simp⟩
    | reset => cases h

/-- Behind a reported error the flag stays up, as long as no call finds the rest of a message. -/
theorem hasError_stays {a b : List ParserCall} (hr : Reports R (after R a)) (hb : .reset ∉ b)
    (hstep : ∀ b' c', b = b' ++ .getPacket :: c' →
      (after R (a ++ .getPacket :: b')).hasError = true →
      ¬Complete R (after R (a ++ .getPacket :: b'))) :
    (after R (a ++ .getPacket :: b)).hasError = true := by
  induction b using List.reverseRecOn with
  | nil =>
    rw [after_concat]
    exact reports_iff.mp hr
  | append_singleton b x ih =>
    have hih := ih (fun hm => hb (by simp [hm])) fun b' c' h =>
      hstep b' (c' ++ [x]) (by simp [h])
    rw [← List.cons_append, ← List.append_assoc, after_concat]
    cases x with
    | eat data => exact hih
    | getPacket =>
      have hnot := hstep b [] rfl hih
      rw [← getPacket_packet_iff] at hnot
      exact getPacket_keepsError hih fun o ho => hnot ⟨o, ho⟩
    | reset => simp at hb

variable (R)

/-- A run keeps silent after an error if and only if no `getPacket` is called, with the error flag
up, on a buffer that starts with the rest of a message. -/
theorem silent_iff (calls : List ParserCall) :
    Silent R calls ↔ ∀ a c, calls = a ++ .getPacket :: c → (after R a).hasError = true →
      ¬Complete R (after R a) := by
  constructor
  · intro hs a c hcalls herr hcomplete
    obtain ⟨a, b, rfl, hr, hb⟩ := hasError_reported a herr
    obtain ⟨o, ho⟩ := (getPacket_packet_iff _).mpr hcomplete
    exact hs a b c (by simpa using hcalls) hr hb o ho
  · intro hstep a b c hcalls hr hb o ho
    have herr := hasError_stays hr hb fun b' c' h =>
      hstep (a ++ .getPacket :: b') (c' ++ .getPacket :: c) (by simp [hcalls, h])
    exact hstep (a ++ .getPacket :: b) c (by simp [hcalls]) herr
      ((getPacket_packet_iff _).mp ⟨o, ho⟩)

variable {R}

/-- A bad header line right behind the first line, and the blank line behind it. -/
theorem not_silent {p q : GTTParser} {e : Exn} {data : ByteStr} (hp : fresh.eat data = p)
    (hs : (machine R).step p = .fail e q) (he : e.isParser) (hd : q.datapos = .headers)
    (hsize : q.currentSize = 0) (hb : q.lineParser.buffer = crlf) :
    ¬Silent R [.eat data, .getPacket, .getPacket] := by
  have hget := getPacket_error R ((machine R).poll_fail hs) he
  have hafter : after R [.eat data, .getPacket] = (getPacket R p).2 := by
    simp [after, ParserCall.apply, hp]
  intro hsilent
  have hcomplete : Complete R (after R [.eat data, .getPacket]) := by
    rw [hafter, hget]
    simp only [Complete, hd, hb, hsize]
    have hblank : crlf = [13] ++ 10 :: [] := rfl
    rw [hblank]
    exact .blank (by decide) (by decide) (by simp)
  obtain ⟨o, ho⟩ := (getPacket_packet_iff _).mpr hcomplete
  refine hsilent [.eat data] [] [] rfl ?_ (by simp) o ho
  have heat : after R [.eat data] = p := by simp [after, ParserCall.apply, hp]
  simp [Reports, heat, hget]

/-- Both parsers deliver a message whose only header line they have rejected. -/
theorem delivers_after_error :
    ¬Silent rules [.eat (lit "DHT PING\r\n!\r\n\r\n"), .getPacket, .getPacket] ∧
    ¬Silent HTTPParser.rules
      [.eat (lit "HTTP/1.1 200 OK\r\n!\r\n\r\n"), .getPacket, .getPacket] :=
  ⟨not_silent rfl rfl rfl rfl rfl rfl, not_silent rfl rfl rfl rfl rfl rfl⟩

end Epyx.GTTParser
