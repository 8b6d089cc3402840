import Epyx.Core.Exception
import Epyx.Core.Byte

/-! `net/socket.cpp`: reading a whole buffer through `TCPSocket::recv`, which may bring less than
it is asked for. -/
namespace Epyx

/-- What the calls of `::recv` bring, one after the other; behind them the peer has closed the
connection. -/
abbrev Reads := List (Except Exn ByteStr)

/-- A buffer behind a read, and the value returned. -/
structure Received where
  data : ByteStr
  result : Except Exn Bool
  deriving DecidableEq

/-- The bytes stand at the start of the buffer; what is behind them stays. -/
def overwrite (data bytes : ByteStr) : ByteStr := bytes ++ data.drop bytes.length

/-- What `TCPSocket::recv` leaves in the buffer when `::recv` has brought `bytes`: a byte behind
them is set to zero if there is room. -/
def TCPSocket.recv (data : ByteStr) (size : Int) (bytes : ByteStr) : ByteStr :=
  overwrite data (if (bytes.length : Int) < size then bytes ++ [0] else bytes)

namespace Socket

/-- `Socket::recvAll`. The pointer `data` is not advanced. -/
def recvAll : Reads → ByteStr → Int → Received
  | [], data, size =>
    if size > 0 then ⟨TCPSocket.recv data size [], .ok false⟩ else ⟨data, .ok true⟩
  | read :: reads, data, size =>
    if size > 0 then
      match read with
      | .error e => ⟨data, .error e⟩
      | .ok bytes =>
        let data := TCPSocket.recv data size bytes
        if bytes.length = 0 then ⟨data, .ok false⟩
        else if bytes.length ≤ size then recvAll reads data (size - bytes.length)
        else ⟨data, .error (assertFailed "recvBytes <= size")⟩
    else ⟨data, .ok true⟩

/-- `byte_str::assign(const byte *)`, of the memory from the pointer on: it stops at the first
zero byte, and without one runs out of the memory. -/
def assign (memory : ByteStr) : Option ByteStr := if 0 ∈ memory then some (cstr memory) else none

/-- `Socket::recvBytes`: `fresh` is the array `new byte[size]` gives, and `behind` the memory that
comes after it. -/
def recvBytes (reads : Reads) (data fresh behind : ByteStr) (size : Int) : Option Received :=
  let r := recvAll reads fresh size
  match r.result with
  | .ok true => (assign (r.data ++ behind)).map (⟨·, .ok true⟩)
  | result => some ⟨data, result⟩

end Socket

theorem overwrite_length {data bytes : ByteStr} (h : bytes.length ≤ data.length) :
    (overwrite data bytes).length = data.length := by
  simp only [overwrite, List.length_append, List.length_drop]
  omega

theorem overwrite_drop {data bytes : ByteStr} {n : Nat} (h : bytes.length ≤ n) :
    (overwrite data bytes).drop n = data.drop n := by
  rw [overwrite, List.drop_append, List.drop_of_length_le h, List.nil_append, List.drop_drop]
  congr 1
  omega

namespace TCPSocket

/-- The bytes and the zero behind them stay within the size. -/
theorem written_length {size : Nat} {bytes : ByteStr} (h : bytes.length ≤ size) :
    (if (bytes.length : Int) < size then bytes ++ [0] else bytes).length ≤ size := by
  split
  · simp only [List.length_append, List.length_singleton]
    omega
  · exact h

theorem recv_length (data : ByteStr) {bytes : ByteStr} {size : Nat} (h : bytes.length ≤ size)
    (hs : size ≤ data.length) : (recv data size bytes).length = data.length :=
  overwrite_length ((written_length h).trans hs)

theorem recv_drop {data bytes : ByteStr} {size : Nat} (h : bytes.length ≤ size) :
    (recv data size bytes).drop size = data.drop size :=
  overwrite_drop (written_length h)

/-- A read that fills the buffer. -/
theorem recv_full (data bytes : ByteStr) :
    recv data bytes.length bytes = bytes ++ data.drop bytes.length := by
  simp [recv, overwrite]

/-- A read that does not. -/
theorem recv_short {data bytes : ByteStr} {size : Nat} (h : bytes.length < size) :
    recv data size bytes = bytes ++ 0 :: data.drop (bytes.length + 1) := by
  have hlt : (bytes.length : Int) < size := by omega
  simp [recv, overwrite, hlt]

end TCPSocket

namespace Socket
open TCPSocket

/-- One round of the loop, with bytes that are not too many. -/
theorem recvAll_cons {bytes : ByteStr} (reads : Reads) (data : ByteStr) {size : Nat}
    (hne : bytes ≠ []) (h : bytes.length ≤ size) :
    recvAll (.ok bytes :: reads) data size =
      recvAll reads (recv data size bytes) ((size - bytes.length : Nat) : Int) := by
  have hpos : 0 < bytes.length := List.length_pos_iff.mpr hne
  have h0 : bytes.length ≠ 0 := by omega
  have hs : (size : Int) > 0 := by omega
  have hle : (bytes.length : Int) ≤ size := by omega
  have hsub : (size : Int) - bytes.length = ((size - bytes.length : Nat) : Int) := by omega
  simp only [recvAll, hs, if_true, h0, if_false, hle, hsub]

/-- The loop ends when all bytes have come, and it has written nothing behind its first round's
size. -/
theorem recvAll_ends {reads : List ByteStr} (hpos : ∀ c ∈ reads, c ≠ []) (data : ByteStr)
    (hs : reads.flatten.length ≤ data.length) :
    let r := recvAll (reads.map .ok) data reads.flatten.length
    r.result = .ok true ∧ r.data.length = data.length ∧
      r.data.drop reads.flatten.length = data.drop reads.flatten.length := by
  induction reads generalizing data with
  | nil => exact ⟨rfl, rfl, rfl⟩
  | cons bytes reads ih =>
    have hlen : (bytes :: reads).flatten.length = bytes.length + reads.flatten.length := by simp
    have hle : bytes.length ≤ (bytes :: reads).flatten.length := by omega
    have hsub : (bytes :: reads).flatten.length - bytes.length = reads.flatten.length := by omega
    have hdata := recv_length data hle hs
    obtain ⟨hr, hl, hd⟩ := ih (fun c hc => hpos c (by simp [hc]))
      (recv data ((bytes :: reads).flatten.length : Nat) bytes) (by omega)
    simp only [List.map_cons]
    rw [recvAll_cons _ _ (hpos bytes (by simp)) hle, hsub]
    refine ⟨hr, hl.trans hdata, ?_⟩
    -- what the later rounds leave alone the first one has left alone too
    have hfar := congrArg (List.drop bytes.length) hd
    rw [List.drop_drop, List.drop_drop, Nat.add_comm _ bytes.length, ← hlen, recv_drop hle] at hfar
    exact hfar

/-- All bytes in one read. -/
theorem recvAll_once {bytes : ByteStr} (hne : bytes ≠ []) (data : ByteStr) :
    recvAll [.ok bytes] data bytes.length = ⟨bytes ++ data.drop bytes.length, .ok true⟩ := by
  rw [recvAll_cons _ _ hne (Nat.le_refl _), Nat.sub_self, recv_full]
  rfl

/-- All bytes but one, and then the last one. -/
theorem recvAll_twice {bytes : ByteStr} (hne : bytes ≠ []) (b : Byte) (data : ByteStr) :
    recvAll [.ok bytes, .ok [b]] data (bytes.length + 1 : Nat) =
      ⟨b :: (bytes.tail ++ 0 :: data.drop (bytes.length + 1)), .ok true⟩ := by
  have hsub : bytes.length + 1 - bytes.length = [b].length := by simp
  rw [recvAll_cons _ _ hne (Nat.le_add_right _ 1), recv_short (Nat.lt_add_one _), hsub,
    recvAll_once (by simp), List.length_singleton, List.drop_one]
  obtain ⟨c, t, rfl⟩ := List.exists_cons_of_ne_nil hne
  rfl

/-- The law of a whole read: the buffer has room for what the reads bring, and starts with it
afterwards. -/
def Receives (reads : List ByteStr) (data : ByteStr) : Prop :=
  let r := recvAll (reads.map .ok) data reads.flatten.length
  r.data.take reads.flatten.length = reads.flatten ∧ r.result = .ok true

/-- One read, or one and the last byte, where the bytes that are lost are zero. -/
def InOneRead (reads : List ByteStr) : Prop := reads.length = 1 ∨ ∃ t, reads = [0 :: t, [0]]

/-- When a first read leaves more than one byte to come, the last place is never written. -/
theorem receives_last {bytes : ByteStr} {reads : List ByteStr} (hne : bytes ≠ [])
    (hpos : ∀ c ∈ reads, c ≠ []) (data : ByteStr)
    (hdata : (bytes :: reads).flatten.length ≤ data.length)
    (hmore : bytes.length + 1 < (bytes :: reads).flatten.length)
    (h : Receives (bytes :: reads) data) :
    data[(bytes :: reads).flatten.length - 1]? =
      (bytes :: reads).flatten[(bytes :: reads).flatten.length - 1]? := by
  have hlen : (bytes :: reads).flatten.length = bytes.length + reads.flatten.length := by simp
  have hpos' : 0 < bytes.length := List.length_pos_iff.mpr hne
  obtain ⟨n, hn⟩ : ∃ n, n = (bytes :: reads).flatten.length := ⟨_, rfl⟩
  have hsub : n - bytes.length = reads.flatten.length := by omega
  have htake := h.1
  simp only [List.map_cons] at htake
  rw [recvAll_cons _ _ hne (by omega), ← hn, hsub] at htake
  obtain ⟨-, -, hd⟩ := recvAll_ends hpos (recv data n bytes)
    (by rw [recv_length _ (by omega) (by omega)]; omega)
  rw [← hn, ← htake, List.getElem?_take_of_lt (by omega)]
  -- the later rounds keep what is behind their size, and the first one what is behind its zero
  have hlater := congrArg (·[n - 1 - reads.flatten.length]?) hd
  simp only [List.getElem?_drop] at hlater
  rw [show reads.flatten.length + (n - 1 - reads.flatten.length) = n - 1 by omega] at hlater
  rw [hlater, recv_short (by omega), List.getElem?_append_right (by omega),
    show n - 1 - bytes.length = (n - 2 - bytes.length) + 1 by omega, List.getElem?_cons_succ,
    List.getElem?_drop]
  congr 1
  omega

/-- Reads without an empty one that bring one byte. -/
theorem one_byte {reads : List ByteStr} (hpos : ∀ c ∈ reads, c ≠ [])
    (h : reads.flatten.length = 1) : ∃ b, reads = [[b]] := by
  cases reads with
  | nil => cases h
  | cons c reads =>
    have hc : 0 < c.length := List.length_pos_iff.mpr (hpos c (by simp))
    have hlen : c.length + reads.flatten.length = 1 := by simpa using h
    obtain ⟨b, rfl⟩ := List.length_eq_one_iff.mp (show c.length = 1 by omega)
    cases reads with
    | nil => exact ⟨b, rfl⟩
    | cons d reads =>
      have hd : 0 < d.length := List.length_pos_iff.mpr (hpos d (by simp))
      simp only [List.flatten_cons, List.length_append] at hlen
      omega

theorem byte_add_one_ne (x : Byte) : x + 1 ≠ x := by
  intro hx
  have hval := congrArg UInt8.toNat hx
  rw [UInt8.toNat_add] at hval
  have := x.toNat_lt
  simp only [UInt8.reduceToNat] at *
  omega

/-- When more than one byte comes behind the first read, a buffer that held another byte at the last
place keeps it there. -/
theorem exists_not_receives {bytes : ByteStr} {reads : List ByteStr} (hb : bytes ≠ [])
    (hpos : ∀ c ∈ reads, c ≠ []) (hmore : bytes.length + 1 < (bytes :: reads).flatten.length) :
    ∃ data : ByteStr, data.length = (bytes :: reads).flatten.length ∧
      ¬Receives (bytes :: reads) data := by
  obtain ⟨n, hn⟩ : ∃ n, n = (bytes :: reads).flatten.length := ⟨_, rfl⟩
  have hlt : n - 1 < (bytes :: reads).flatten.length := by omega
  refine ⟨List.replicate n ((bytes :: reads).flatten[n - 1] + 1), by simp [hn], fun h => ?_⟩
  have hlast := receives_last hb hpos _ (by simp [hn]) hmore h
  rw [← hn, List.getElem?_replicate, if_pos (by omega), List.getElem?_eq_getElem hlt] at hlast
  exact byte_add_one_ne _ (Option.some.inj hlast)

/-- When one byte comes behind the first read, it overwrites the first byte. -/
theorem inOneRead_of_last {bytes : ByteStr} (hb : bytes ≠ []) {b : Byte}
    (h : Receives [bytes, [b]] (List.replicate (bytes.length + 1) 0)) :
    InOneRead [bytes, [b]] := by
  have htake := h.1
  have hflat : ([bytes, [b]] : List ByteStr).flatten = bytes ++ [b] := by simp
  simp only [hflat, List.map_cons, List.map_nil, List.length_append, List.length_singleton] at htake
  rw [recvAll_twice hb] at htake
  obtain ⟨c, t, rfl⟩ := List.exists_cons_of_ne_nil hb
  simp only [List.length_cons, List.take_succ_cons, List.tail_cons, List.cons_append,
    List.cons.injEq, List.take_length_add_append, List.take_zero, List.append_cancel_left_eq,
    and_true] at htake
  obtain ⟨rfl, rfl⟩ := htake
  exact .inr ⟨t, rfl⟩

/-- Buffers of just the right size tell the reads that go wrong. -/
theorem inOneRead_of_receives {reads : List ByteStr} (hpos : ∀ c ∈ reads, c ≠ [])
    (hne : reads ≠ [])
    (h : ∀ data : ByteStr, data.length = reads.flatten.length → Receives reads data) :
    InOneRead reads := by
  match reads, hne with
  | [bytes], _ => exact .inl rfl
  | bytes :: read :: reads, _ =>
    have hb : bytes ≠ [] := hpos bytes (by simp)
    have hread : 0 < read.length := List.length_pos_iff.mpr (hpos read (by simp))
    have hlen : (bytes :: read :: reads).flatten.length =
        bytes.length + (read :: reads).flatten.length := by simp
    have hrest : read.length ≤ (read :: reads).flatten.length := by simp
    have htail : ∀ c ∈ read :: reads, c ≠ [] := fun c hc => hpos c (List.mem_cons_of_mem _ hc)
    by_cases hmore : bytes.length + 1 < (bytes :: read :: reads).flatten.length
    · obtain ⟨data, hdata, hnot⟩ := exists_not_receives hb htail hmore
      exact absurd (h data hdata) hnot
    · obtain ⟨b, hb1⟩ := one_byte htail (by omega)
      rw [hb1] at h ⊢
      exact inOneRead_of_last hb (h _ (by simp))

theorem InOneRead.receives {reads : List ByteStr} (hpos : ∀ c ∈ reads, c ≠ [])
    (h : InOneRead reads) (data : ByteStr) : Receives reads data := by
  rcases h with hone | ⟨t, rfl⟩
  · obtain ⟨bytes, rfl⟩ := List.length_eq_one_iff.mp hone
    have hb : bytes ≠ [] := hpos bytes (by simp)
    simp only [Receives, List.map_cons, List.map_nil, List.flatten_cons, List.flatten_nil,
      List.append_nil]
    rw [recvAll_once hb]
    simp
  · have h := recvAll_twice (List.cons_ne_nil 0 t) 0 data
    simp only [Receives, List.map_cons, List.map_nil, List.flatten_cons, List.flatten_nil,
      List.append_nil, List.length_append, List.length_singleton]
    rw [h]
    simp [List.take_length_add_append]

/-- The C string in a buffer is all of it just when no byte of it is zero and the one behind it
is. -/
theorem assign_iff {buffer behind bytes : ByteStr} (h : buffer.length = bytes.length) :
    assign (buffer ++ behind) = some bytes ↔
      buffer = bytes ∧ 0 ∉ bytes ∧ behind.head? = some 0 := by
  constructor
  · intro hassign
    by_cases h0 : 0 ∈ buffer ++ behind
    · rw [assign, if_pos h0, Option.some.injEq] at hassign
      have hpre : bytes <+: buffer ++ behind := hassign ▸ List.takeWhile_prefix _
      obtain rfl : buffer = bytes :=
        (List.prefix_of_prefix_length_le (List.prefix_append _ _) hpre h.le).eq_of_length h
      have hnot : 0 ∉ buffer := fun hm => by
        rw [← hassign] at hm
        simpa using List.mem_takeWhile_imp hm
      refine ⟨rfl, hnot, ?_⟩
      -- the copy has stopped behind the buffer
      cases behind with
      | nil => exact absurd (by simpa using h0) hnot
      | cons b behind =>
        have hall : ∀ c ∈ buffer, (c != 0) = true := fun c hc =>
          bne_iff_ne.mpr fun he => hnot (he ▸ hc)
        rw [cstr, List.takeWhile_append_of_pos hall] at hassign
        by_cases hb : b = 0
        · rw [hb]
          rfl
        · simp [hb] at hassign
    · rw [assign, if_neg h0] at hassign
      cases hassign
  · rintro ⟨rfl, hnot, hhead⟩
    obtain ⟨t, rfl⟩ := List.head?_eq_some_iff.mp hhead
    have hall : ∀ c ∈ buffer, (c != 0) = true := fun c hc =>
      bne_iff_ne.mpr fun he => hnot (he ▸ hc)
    rw [assign, if_pos (by simp), cstr, List.takeWhile_append_of_pos hall]
    simp

/-- What `recvBytes` gives the caller is the C string in its array. -/
theorem recvBytes_iff {reads : List ByteStr} (hpos : ∀ c ∈ reads, c ≠ []) (data behind : ByteStr)
    {fresh : ByteStr} (hfresh : fresh.length = reads.flatten.length) :
    recvBytes (reads.map .ok) data fresh behind reads.flatten.length =
        some ⟨reads.flatten, .ok true⟩ ↔
      Receives reads fresh ∧ 0 ∉ reads.flatten ∧ behind.head? = some 0 := by
  obtain ⟨hr, hl, -⟩ := recvAll_ends hpos fresh hfresh.ge
  rw [hfresh] at hl
  have htake := List.take_of_length_le hl.le
  simp only [recvBytes, hr, Option.map_eq_some_iff, Received.mk.injEq, and_true, exists_eq_right,
    Receives, htake]
  exact assign_iff hl

/-- Whatever the memory held: `recvAll` leaves the bytes in their order just when they come in one
read, and `recvBytes` gives them to the caller just when moreover none of them is zero and the
memory behind its array starts with a zero. -/
theorem recv_in_order_iff {reads : List ByteStr} (hpos : ∀ c ∈ reads, c ≠ []) (hne : reads ≠ [])
    (data behind : ByteStr) :
    ((∀ buffer : ByteStr, reads.flatten.length ≤ buffer.length →
        let r := recvAll (reads.map .ok) buffer reads.flatten.length
        r.data.take reads.flatten.length = reads.flatten ∧ r.result = .ok true) ↔
      InOneRead reads) ∧
    ((∀ fresh : ByteStr, fresh.length = reads.flatten.length →
        recvBytes (reads.map .ok) data fresh behind reads.flatten.length =
          some ⟨reads.flatten, .ok true⟩) ↔
      reads.length = 1 ∧ 0 ∉ reads.flatten ∧ behind.head? = some 0) := by
  refine ⟨⟨fun h => ?_, fun h buffer _ => h.receives hpos buffer⟩, fun h => ?_,
    fun h fresh hf => ?_⟩
  · exact inOneRead_of_receives hpos hne fun buffer hb => h buffer hb.ge
  · have hbytes := fun (fresh : ByteStr) (hf : fresh.length = reads.flatten.length) =>
      (recvBytes_iff hpos data behind hf).mp (h fresh hf)
    have hone := inOneRead_of_receives hpos hne fun fresh hf => (hbytes fresh hf).1
    obtain ⟨-, hzero, hbehind⟩ := hbytes (List.replicate reads.flatten.length 0) (by simp)
    refine ⟨hone.resolve_right ?_, hzero, hbehind⟩
    rintro ⟨t, rfl⟩
    simp at hzero
  · obtain ⟨hone, hzero, hbehind⟩ := h
    have hreceives := InOneRead.receives hpos (.inl hone) fresh
    exact (recvBytes_iff hpos data behind hf).mpr ⟨hreceives, hzero, hbehind⟩

/-- A read of three bytes. -/
theorem recv_in_order_iff_abc :
    ((∀ buffer : ByteStr, [lit "abc"].flatten.length ≤ buffer.length →
        let r := recvAll ([lit "abc"].map .ok) buffer [lit "abc"].flatten.length
        r.data.take [lit "abc"].flatten.length = [lit "abc"].flatten ∧ r.result = .ok true) ↔
      InOneRead [lit "abc"]) ∧
    ((∀ fresh : ByteStr, fresh.length = [lit "abc"].flatten.length →
        recvBytes ([lit "abc"].map .ok) [] fresh [0] [lit "abc"].flatten.length =
          some ⟨[lit "abc"].flatten, .ok true⟩) ↔
      [lit "abc"].length = 1 ∧ 0 ∉ [lit "abc"].flatten ∧ [(0 : Byte)].head? = some 0) :=
  recv_in_order_iff (by decide) (by decide) [] [0]

/-- `ab` and then `c` leave `cb` in the buffer, and of `a`, zero, `b` in one read only `a` comes
back. -/
theorem recv_out_of_order :
    recvAll [.ok (lit "ab"), .ok (lit "c")] (lit "...") 3 = ⟨[99, 98, 0], .ok true⟩ ∧
    (recvAll [.ok (lit "ab"), .ok (lit "c")] (lit "...") 3).data.take 3 ≠ lit "abc" ∧
    recvBytes [.ok [97, 0, 98]] [] (lit "...") [0] 3 = some ⟨lit "a", .ok true⟩ ∧
    recvBytes [.ok [97, 0, 98]] [] (lit "...") [0] 3 ≠ some ⟨[97, 0, 98], .ok true⟩ := by
  decide

end Socket
end Epyx
