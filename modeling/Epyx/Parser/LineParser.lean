import Epyx.Core.Byte

/-! `parser/lineparser.cpp`: the buffer of received bytes, cut into lines and blocks. -/
namespace Epyx

structure LineParser where
  buffer : ByteStr
  deriving DecidableEq, Repr

namespace LineParser

def reset : LineParser := ⟨[]⟩

def push (p : LineParser) (data : ByteStr) : LineParser :=
  if p.buffer = [] then ⟨data⟩ else ⟨p.buffer ++ data⟩

/-- A line without the `\r` of its line end. -/
def chomp (line : ByteStr) : ByteStr :=
  if line.getLast? = some 13 then line.dropLast else line

/-- `LineParser::popLine`: the line and the buffer after it, if the buffer holds a `\n`. -/
def popLine (p : LineParser) : Option (ByteStr × LineParser) :=
  match p.buffer.dropWhile (· != 10) with
  | [] => none
  | _ :: rest => some (chomp (p.buffer.takeWhile (· != 10)), ⟨rest⟩)

/-- `LineParser::popData`, for the `size > 0` its assertion demands. -/
def popData (p : LineParser) (size : Nat) : Option (ByteStr × LineParser) :=
  if size > p.buffer.length then none
  else some (p.buffer.take size, ⟨p.buffer.drop size⟩)

@[simp] theorem push_buffer (p : LineParser) (data : ByteStr) :
    (p.push data).buffer = p.buffer ++ data := by
  unfold push; split <;> simp_all

theorem push_append (p : LineParser) (a b : ByteStr) : p.push (a ++ b) = (p.push a).push b := by
  have h : (p.push (a ++ b)).buffer = ((p.push a).push b).buffer := by simp
  exact congrArg LineParser.mk h

/-- A line that has no `\n` in it, once its `\n` has come. -/
theorem popLine_line {line : ByteStr} (rest : ByteStr) (h : 10 ∉ line) :
    popLine ⟨line ++ 10 :: rest⟩ = some (chomp line, ⟨rest⟩) := by
  have hp : ∀ c ∈ line, (c != 10) = true := fun c hc =>
    bne_iff_ne.mpr fun h10 => h (h10 ▸ hc)
  simp only [popLine, List.dropWhile_append_of_pos hp, List.takeWhile_append_of_pos hp]
  simp

/-- What a line is popped from: the line, its `\n` and the rest. -/
theorem popLine_eq_some {p p' : LineParser} {line : ByteStr} (h : p.popLine = some (line, p')) :
    ∃ raw, 10 ∉ raw ∧ line = chomp raw ∧ p.buffer = raw ++ 10 :: p'.buffer := by
  have hsplit := List.takeWhile_append_dropWhile (p := (· != 10)) (l := p.buffer)
  unfold popLine at h
  split at h
  · cases h
  · rename_i c rest hd
    simp only [Option.some.injEq, Prod.mk.injEq] at h
    obtain ⟨rfl, rfl⟩ := h
    have hc : c = 10 := by
      have hne : p.buffer.dropWhile (· != 10) ≠ [] := by simp [hd]
      have hh := List.head_dropWhile_not (· != 10) hne
      simpa only [hd, List.head_cons, bne_eq_false_iff_eq] using hh
    refine ⟨_, fun hm => ?_, rfl, ?_⟩
    · simpa using List.mem_takeWhile_imp hm
    · rw [hd, hc] at hsplit
      exact hsplit.symm

theorem popLine_lt {p p' : LineParser} {line : ByteStr} (h : p.popLine = some (line, p')) :
    p'.buffer.length < p.buffer.length := by
  obtain ⟨raw, -, -, hb⟩ := popLine_eq_some h
  simp only [hb, List.length_append, List.length_cons]
  omega

/-- Only the end of a line is looked at. -/
theorem chomp_append {a : ByteStr} (h : a.getLast? ≠ some 13) (b : ByteStr) :
    chomp (a ++ b) = a ++ chomp b := by
  rcases List.eq_nil_or_concat b with rfl | ⟨t, c, rfl⟩
  · simp [chomp, h]
  · rw [List.concat_eq_append, ← List.append_assoc, chomp, chomp, List.getLast?_concat,
      List.getLast?_concat, List.dropLast_concat, List.dropLast_concat]
    split
    · rfl
    · rw [List.append_assoc]

/-- Bytes pushed behind a complete line wait for their turn. -/
theorem popLine_push {p p' : LineParser} {line : ByteStr} (h : p.popLine = some (line, p'))
    (data : ByteStr) : (p.push data).popLine = some (line, p'.push data) := by
  obtain ⟨raw, hraw, rfl, hb⟩ := popLine_eq_some h
  have hp : p.push data = ⟨raw ++ 10 :: (p'.push data).buffer⟩ :=
    congrArg LineParser.mk (show (p.push data).buffer = _ by simp [hb])
  rw [hp, popLine_line _ hraw]

theorem popData_lt {p p' : LineParser} {size : Nat} {data : ByteStr}
    (h : p.popData size = some (data, p')) : p'.buffer.length = p.buffer.length - size := by
  unfold popData at h
  split at h
  · cases h
  · cases h; simp

theorem popData_push {p p' : LineParser} {size : Nat} {body : ByteStr}
    (h : p.popData size = some (body, p')) (data : ByteStr) :
    (p.push data).popData size = some (body, p'.push data) := by
  unfold popData at h ⊢
  split at h
  · cases h
  · rename_i hs
    simp only [Option.some.injEq, Prod.mk.injEq] at h
    obtain ⟨rfl, rfl⟩ := h
    have hle : size ≤ p.buffer.length := by omega
    have hp : (⟨p.buffer.drop size⟩ : LineParser).push data = ⟨p.buffer.drop size ++ data⟩ :=
      congrArg LineParser.mk (push_buffer _ _)
    have hlt : ¬size > p.buffer.length + data.length := by omega
    simp [hp, hlt, List.take_append_of_le_length hle, List.drop_append_of_le_length hle]

theorem chomp_cr (line : ByteStr) : chomp (line ++ [13]) = line := by simp [chomp]

/-- A line ended by `String::crlf` is popped without its line end. -/
theorem popLine_crlf {line : ByteStr} (h : 10 ∉ line) (rest : ByteStr) :
    popLine ⟨line ++ crlf ++ rest⟩ = some (line, ⟨rest⟩) := by
  have hl : 10 ∉ line ++ [13] := by simpa using h
  have hs : line ++ crlf ++ rest = (line ++ [13]) ++ 10 :: rest := by simp [crlf]
  rw [hs, popLine_line _ hl, chomp_cr]

end LineParser
end Epyx
