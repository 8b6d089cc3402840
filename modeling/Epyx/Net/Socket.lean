import Epyx.Core.Exception
import Epyx.Core.Byte

/-! `net/socket.cpp`: writing a whole buffer through a `send` that may accept less than it is
given. -/
namespace Epyx

/-- The virtual `Socket::send`, over all its calls: call `i` is offered `size` bytes and accepts
some of them, or throws. -/
abbrev SendCalls := Nat → Nat → Except Exn Nat

/-- What has come of a write: the bytes the transport accepted, the number of the next call of
`send`, and the value returned. -/
structure Sent where
  wire : ByteStr
  calls : Nat
  result : Except Exn Bool

namespace Socket
variable (send : SendCalls)

/-- The loop of `Socket::sendAll`, with a bound on its rounds. The pointer `data` is not
advanced. -/
def sendRounds (data : ByteStr) : Nat → Nat → Nat → Sent
  | 0, i, _ => ⟨[], i, .ok true⟩
  | rounds + 1, i, size =>
    if size = 0 then ⟨[], i, .ok true⟩
    else match send i size with
    | .error e => ⟨[], i + 1, .error e⟩
    | .ok sentBytes =>
      if sentBytes = 0 then ⟨[], i + 1, .ok false⟩
      else if sentBytes ≤ size then
        let r := sendRounds data rounds (i + 1) (size - sentBytes)
        { r with wire := data.take sentBytes ++ r.wire }
      else ⟨data.take sentBytes, i + 1, .error (assertFailed "sentBytes <= size")⟩

/-- The whole loop: each round but the last takes at least one byte off `size`. -/
def sendLoop (data : ByteStr) (i size : Nat) : Sent := sendRounds send data size i size

/-- `Socket::sendAll`, whose `size` is an `int`. -/
def sendAll (data : ByteStr) (i : Nat) (size : Int) : Sent := sendLoop send data i size.toNat

/-- `Socket::sendBytes`: the length of the string is narrowed to an `int`. -/
def sendBytes (bytes : ByteStr) (i : Nat) : Sent := sendAll send bytes i (toInt32 bytes.length)

def write (message : ByteStr) (i : Nat) : Sent := sendAll send message i (toInt32 message.length)

/-- A `send` that takes what it is given, or a part of it, and never nothing. -/
def Progress (accept : Nat → Nat → Nat) : Prop :=
  ∀ i size, 0 < size → 1 ≤ accept i size ∧ accept i size ≤ size

/-- The law of a whole write. -/
def Delivers (r : Sent) (data : ByteStr) : Prop := r.wire = data ∧ r.result = .ok true

/-- Where in a buffer of `size` bytes call `k` after call `i` starts. -/
def offset (accept : Nat → Nat → Nat) (i size : Nat) : Nat → Nat
  | 0 => 0
  | k + 1 => offset accept i size k + accept (i + k) (size - offset accept i size k)

/-- What call `i + k` sends, the first bytes of the buffer, is what stands at its place. -/
def RepeatsAt (accept : Nat → Nat → Nat) (data : ByteStr) (i k : Nat) : Prop :=
  let o := offset accept i data.length k
  o < data.length →
    (data.drop o).take (accept (i + k) (data.length - o)) =
      data.take (accept (i + k) (data.length - o))

variable {accept : Nat → Nat → Nat}

@[simp] theorem sendLoop_zero (data : ByteStr) (i : Nat) :
    sendLoop send data i 0 = ⟨[], i, .ok true⟩ := rfl

theorem sendRounds_eq (data : ByteStr) (rounds i size : Nat) (h : size ≤ rounds) :
    sendRounds send data rounds i size = sendLoop send data i size := by
  induction hn : size using Nat.strongRecOn generalizing rounds size i with
  | ind n ih =>
    subst hn
    match size, rounds with
    | 0, 0 | 0, _ + 1 => rfl
    | size + 1, rounds + 1 =>
      rw [sendLoop, sendRounds, sendRounds]
      rcases hs : send i (size + 1) with e | sentBytes
      · rfl
      · by_cases h0 : sentBytes = 0
        · simp [h0]
        · have h1 := ih (size + 1 - sentBytes) (by omega) rounds (i + 1) _ (by omega) rfl
          have h2 := ih (size + 1 - sentBytes) (by omega) size (i + 1) _ (by omega) rfl
          simp only [h0, if_false, h1, h2]

/-- The loop as it goes when `send` accepts something each time. -/
theorem sendLoop_succ (h : Progress accept) (data : ByteStr) (i : Nat) {size : Nat}
    (hs : 0 < size) :
    sendLoop (fun i n => .ok (accept i n)) data i size =
      let r := sendLoop (fun i n => .ok (accept i n)) data (i + 1) (size - accept i size)
      { r with wire := data.take (accept i size) ++ r.wire } := by
  obtain ⟨n, rfl⟩ := Nat.exists_eq_add_one.mpr hs
  obtain ⟨h1, h2⟩ := h i (n + 1) hs
  have ha : accept i (n + 1) ≠ 0 := by omega
  have hrest := sendRounds_eq (fun i n => .ok (accept i n)) data n (i + 1) _
    (show n + 1 - accept i (n + 1) ≤ n by omega)
  rw [sendLoop, sendRounds]
  simp only [Nat.succ_ne_zero, if_false, ha, h2, if_true, hrest]

/-- A write that always makes progress ends, having handed over as many bytes as it was given. -/
theorem sendLoop_ends (h : Progress accept) (data : ByteStr) (i size : Nat)
    (hs : size ≤ data.length) :
    (sendLoop (fun i n => .ok (accept i n)) data i size).wire.length = size ∧
      (sendLoop (fun i n => .ok (accept i n)) data i size).result = .ok true := by
  induction hn : size using Nat.strongRecOn generalizing i size with
  | ind n ih =>
    subst hn
    by_cases h0 : size = 0
    · simp [h0]
    · have hpos : 0 < size := Nat.pos_of_ne_zero h0
      obtain ⟨h1, h2⟩ := h i size hpos
      obtain ⟨hl, hr⟩ := ih (size - accept i size) (by omega) (i + 1) _ (by omega) rfl
      rw [sendLoop_succ h data i hpos]
      refine ⟨?_, hr⟩
      simp only [List.length_append, List.length_take, hl]
      omega

variable (accept) in
theorem offset_mono (i size k j : Nat) :
    offset accept i size k ≤ offset accept i size (k + j) := by
  induction j with
  | zero => exact le_refl _
  | succ j ih => exact ih.trans (Nat.le_add_right _ _)

/-- From the place a call has reached, the rest of the buffer goes out exactly when the bytes
repeat at that place and at every later one. -/
theorem sendLoop_wire (h : Progress accept) (data : ByteStr) (i k : Nat)
    (hk : offset accept i data.length k ≤ data.length) :
    (sendLoop (fun i n => .ok (accept i n)) data (i + k)
        (data.length - offset accept i data.length k)).wire =
        data.drop (offset accept i data.length k) ↔
      ∀ j ≥ k, RepeatsAt accept data i j := by
  induction hn : data.length - offset accept i data.length k using Nat.strongRecOn
    generalizing k with
  | ind n ih =>
    by_cases h0 : n = 0
    · -- the end is reached: no later call has anything to send
      have hend : data.length ≤ offset accept i data.length k := by omega
      have hdrop : data.drop (offset accept i data.length k) = [] := List.drop_of_length_le hend
      refine ⟨fun _ j hj hlt => ?_, fun _ => by simp [h0, hdrop]⟩
      have := offset_mono accept i data.length k (j - k)
      rw [Nat.add_sub_cancel' hj] at this
      omega
    · have hpos : 0 < n := Nat.pos_of_ne_zero h0
      obtain ⟨h1, h2⟩ := h (i + k) n hpos
      have hnext : offset accept i data.length (k + 1) =
          offset accept i data.length k + accept (i + k) n := by rw [offset, hn]
      have hrest := ih (n - accept (i + k) n) (by omega) (k + 1) (by omega) (by omega)
      rw [← Nat.add_assoc] at hrest
      have hsplit : data.drop (offset accept i data.length k) =
          (data.drop (offset accept i data.length k)).take (accept (i + k) n) ++
            data.drop (offset accept i data.length (k + 1)) := by
        rw [hnext, ← List.drop_drop, List.take_append_drop]
      have hlen : (data.take (accept (i + k) n)).length =
          ((data.drop (offset accept i data.length k)).take (accept (i + k) n)).length := by
        simp only [List.length_take, List.length_drop]
        omega
      have hhere : RepeatsAt accept data i k ↔ data.take (accept (i + k) n) =
          (data.drop (offset accept i data.length k)).take (accept (i + k) n) := by
        have hlt : offset accept i data.length k < data.length := by omega
        simp only [RepeatsAt, hlt, hn, true_imp_iff]
        exact eq_comm
      rw [sendLoop_succ h data (i + k) hpos]
      simp only []
      rw [hsplit, List.append_eq_append_iff_of_size_eq_left hlen, hrest, ← hhere]
      refine ⟨fun ⟨ha, hb⟩ j hj => ?_, fun ha => ⟨ha k (le_refl k), fun j hj => ha j (by omega)⟩⟩
      rcases Nat.eq_or_lt_of_le hj with rfl | hlt
      · exact ha
      · exact hb j hlt

/-- `sendAll` with the length of its buffer narrowed to an `int` hands over the buffer exactly
when the length fits and each accepted chunk after the first repeats the first bytes. -/
theorem sendAll_delivers (h : Progress accept) (data : ByteStr) (i : Nat) :
    Delivers (sendAll (fun i n => .ok (accept i n)) data i (toInt32 data.length)) data ↔
      data.length < 2 ^ 31 ∧ ∀ k, RepeatsAt accept data i k := by
  have hsize : (toInt32 data.length).toNat ≤ data.length := by unfold toInt32; omega
  obtain ⟨hl, hr⟩ := sendLoop_ends h data i _ hsize
  by_cases hfit : data.length < 2 ^ 31
  · have hint : InInt data.length := by unfold InInt; omega
    have hwire := sendLoop_wire h data i 0 (Nat.zero_le _)
    simp only [offset, Nat.sub_zero, Nat.add_zero, List.drop_zero, ge_iff_le, Nat.zero_le,
      true_imp_iff] at hwire
    rw [toInt32_eq_self hint, Int.toNat_natCast] at hr
    rw [Delivers, sendAll, toInt32_eq_self hint, Int.toNat_natCast, hwire]
    exact ⟨fun hd => ⟨hfit, hd.1⟩, fun hd => ⟨hd.2, hr⟩⟩
  · refine ⟨fun hd => ?_, fun hd => absurd hd.1 hfit⟩
    have hlen : (toInt32 data.length).toNat = data.length := by
      rw [← hl]; exact congrArg List.length hd.1
    unfold toInt32 at hlen
    omega

/-- `sendBytes` and `write` hand a buffer to the transport byte for byte exactly when it is
shorter than `2 ^ 31` and each chunk accepted after the first repeats its first bytes. -/
theorem sendBytes_delivers_iff (h : Progress accept) (data : ByteStr) (i : Nat) :
    (Delivers (sendBytes (fun i n => .ok (accept i n)) data i) data ↔
      data.length < 2 ^ 31 ∧ ∀ k, RepeatsAt accept data i k) ∧
    (Delivers (write (fun i n => .ok (accept i n)) data i) data ↔
      data.length < 2 ^ 31 ∧ ∀ k, RepeatsAt accept data i k) :=
  ⟨sendAll_delivers h data i, sendAll_delivers h data i⟩

/-- A transport that takes one byte at a time. -/
theorem sendBytes_delivers_iff_one :
    (Delivers (sendBytes (fun _ _ => .ok 1) (lit "aa") 0) (lit "aa") ↔
      (lit "aa").length < 2 ^ 31 ∧ ∀ k, RepeatsAt (fun _ _ => 1) (lit "aa") 0 k) ∧
    (Delivers (write (fun _ _ => .ok 1) (lit "aa") 0) (lit "aa") ↔
      (lit "aa").length < 2 ^ 31 ∧ ∀ k, RepeatsAt (fun _ _ => 1) (lit "aa") 0 k) :=
  have h : Progress fun _ _ => 1 := fun _ _ hs => ⟨le_refl 1, hs⟩
  sendBytes_delivers_iff h _ _

/-- Of `ab`, taken one byte at a time, the transport gets `aa`. -/
theorem sendBytes_partial :
    Progress (fun _ _ => 1) ∧
    (sendBytes (fun _ _ => .ok 1) (lit "ab") 0).wire = lit "aa" ∧
    ¬Delivers (sendBytes (fun _ _ => .ok 1) (lit "ab") 0) (lit "ab") := by
  have hwire : (sendBytes (fun _ _ => .ok 1) (lit "ab") 0).wire = lit "aa" := by decide +kernel
  refine ⟨fun _ _ hs => ⟨le_refl 1, hs⟩, hwire, fun hd => ?_⟩
  exact absurd (hwire.symm.trans hd.1) (by decide)

/-- What the transport takes in one call arrives whole. -/
theorem sendBytes_atOnce (h : Progress accept) {data : ByteStr} {i : Nat}
    (hfit : data.length < 2 ^ 31) (hall : accept i data.length = data.length) :
    Delivers (sendBytes (fun i n => .ok (accept i n)) data i) data := by
  refine (sendAll_delivers h data i).mpr ⟨hfit, fun k => ?_⟩
  cases k with
  | zero => simp [RepeatsAt, offset]
  | succ k =>
    have := offset_mono accept i data.length 1 k
    rw [offset, offset, Nat.sub_zero, Nat.add_zero, hall, Nat.add_comm 1 k] at this
    intro hlt
    omega

end Socket
end Epyx
