import Epyx.Core.Byte

/-! `dht/id.cpp`: the 256-bit ids of the DHT and their text. -/
namespace Epyx.DHT

/-- `Id::STORAGE_SIZE` bytes. -/
structure Id where
  data : List Byte
  size : data.length = 32
  deriving DecidableEq, Repr

namespace Id

/-- The digits `operator<<` writes. -/
def hexa (n : Byte) : Byte := (lit "0123456789abcdef").getD n.toNat 0

/-- What `operator<<` writes for byte number `loop` and those after it. -/
def printFrom (loop : Nat) : List Byte → ByteStr
  | [] => []
  | b :: bs =>
    (if loop % 2 = 0 ∧ loop ≠ 0 then [58] else []) ++
      (hexa (b / 16) :: hexa (b % 16) :: printFrom (loop + 1) bs)

/-- `operator<<` -/
def print (id : Id) : ByteStr := printFrom 0 id.data

/-- `in.get()`, stored in a `uint8_t`: at the end of the stream it is `EOF`, which is `-1`. -/
def get : ByteStr → Byte × ByteStr
  | [] => (255, [])
  | c :: s => (c, s)

/-- `n > '9' ? (n - 'a' + 10) : (n - '0')` -/
def digit (n : Byte) : Byte := if n > 57 then n - 97 + 10 else n - 48

/-- The loop of `operator>>`, from byte number `i` on, with `left` bytes to read. -/
def readFrom : Nat → Nat → ByteStr → List Byte × ByteStr
  | 0, _, s => ([], s)
  | left + 1, i, s =>
    let n1 := get s
    let n2 := get n1.2
    let s := if i ≠ 31 ∧ i % 2 = 1 then (get n2.2).2 else n2.2
    let r := readFrom left (i + 1) s
    ((16 * digit n1.1 + digit n2.1) :: r.1, r.2)

theorem readFrom_length (left i : Nat) (s : ByteStr) : (readFrom left i s).1.length = left := by
  induction left generalizing i s with
  | zero => rfl
  | succ left ih => simp [readFrom, ih]

/-- `operator>>`: the id, and what is left of the stream. -/
def read (s : ByteStr) : Id × ByteStr :=
  (⟨(readFrom 32 0 s).1, readFrom_length 32 0 s⟩, (readFrom 32 0 s).2)

/-- Two digits give back the byte they were written for. -/
theorem digit_hexa (b : Byte) : 16 * digit (hexa (b / 16)) + digit (hexa (b % 16)) = b := by
  have h : ∀ n : Fin 256, let b := UInt8.ofFin n
      16 * digit (hexa (b / 16)) + digit (hexa (b % 16)) = b := by decide +kernel
  simpa using h b.toFin

theorem hexa_bytes {n : Byte} (h : n < 16) : isdigit (hexa n) ∨ islower (hexa n) := by
  have hall : ∀ k : Fin 16, isdigit (hexa (UInt8.ofNat k)) ∨ islower (hexa (UInt8.ofNat k)) := by
    decide
  have hn : n.toNat < 16 := by simpa [UInt8.lt_iff_toNat_lt] using h
  simpa using hall ⟨n.toNat, hn⟩

theorem printFrom_bytes {bs : List Byte} {loop : Nat} {c : Byte} (h : c ∈ printFrom loop bs) :
    isdigit c ∨ islower c ∨ c = 58 := by
  induction bs generalizing loop with
  | nil => cases h
  | cons b bs ih =>
    have h1 : b / 16 < 16 := by
      have := b.toNat_lt
      simp only [UInt8.lt_iff_toNat_lt, UInt8.toNat_div, UInt8.reduceToNat]; omega
    have h2 : b % 16 < 16 := by
      simp only [UInt8.lt_iff_toNat_lt, UInt8.toNat_mod, UInt8.reduceToNat]; omega
    simp only [printFrom, List.mem_append, List.mem_cons] at h
    rcases h with h | rfl | rfl | h
    · split at h
      · exact .inr (.inr (List.mem_singleton.mp h))
      · cases h
    · exact (hexa_bytes h1).imp_right .inl
    · exact (hexa_bytes h2).imp_right .inl
    · exact ih h

theorem print_bytes {id : Id} {c : Byte} (h : c ∈ id.print) : isdigit c ∨ islower c ∨ c = 58 :=
  printFrom_bytes h

theorem print_ne_nil (id : Id) : id.print ≠ [] := by
  obtain ⟨data, size⟩ := id
  cases data with
  | nil => cases size
  | cons b bs => simp [print, printFrom]

/-- Reading from byte `i` on, behind the colon before it if there is one, gives back the bytes
that were written and stops behind them. -/
theorem readFrom_printFrom (bs : List Byte) (b : Byte) (i : Nat) (rest : ByteStr)
    (hi : i + (b :: bs).length = 32) :
    readFrom (b :: bs).length i (hexa (b / 16) :: hexa (b % 16) :: (printFrom (i + 1) bs ++ rest)) =
      (b :: bs, rest) := by
  induction bs generalizing b i with
  | nil =>
    have h31 : i = 31 := by simpa using hi
    simp [readFrom, get, printFrom, h31, digit_hexa]
  | cons b' bs ih =>
    simp only [List.length_cons] at hi
    have h31 : i ≠ 31 := by omega
    have hih := ih b' (i + 1) (by simp only [List.length_cons]; omega)
    simp only [List.length_cons] at hih ⊢
    rw [readFrom]
    by_cases hodd : i % 2 = 1
    · have heven : (i + 1) % 2 = 0 := by omega
      simp [get, h31, hodd, printFrom, heven, digit_hexa, hih]
    · have heven : ¬(i + 1) % 2 = 0 := by omega
      simp [get, hodd, printFrom, heven, digit_hexa, hih]

/-- The text of an id reads back as the id, and nothing behind it is touched. -/
theorem read_print (id : Id) (rest : ByteStr) : read (id.print ++ rest) = (id, rest) := by
  obtain ⟨data, size⟩ := id
  cases data with
  | nil => cases size
  | cons b bs =>
    have h := readFrom_printFrom bs b 0 rest (by simpa using size)
    rw [size] at h
    have hp : print ⟨b :: bs, size⟩ ++ rest =
        hexa (b / 16) :: hexa (b % 16) :: (printFrom 1 bs ++ rest) := by
      simp [print, printFrom]
    simp only [read, hp, h]

/-- The hexadecimal digits in lower case. -/
def ishexa (c : Byte) : Bool := isdigit c || (97 ≤ c && c ≤ 102)

theorem hexa_ishexa (b : Byte) : ishexa (hexa (b / 16)) ∧ ishexa (hexa (b % 16)) ∧
    hexa (b / 16) ≠ 58 ∧ hexa (b % 16) ≠ 58 := by
  have h : ∀ n : Fin 256, let b := UInt8.ofFin n
      ishexa (hexa (b / 16)) ∧ ishexa (hexa (b % 16)) ∧
        hexa (b / 16) ≠ 58 ∧ hexa (b % 16) ≠ 58 := by
    decide +kernel
  simpa using h b.toFin

/-- Two digits for each byte, and a colon before each one with an even number but the first. -/
theorem printFrom_counts (bs : List Byte) {loop : Nat} (hloop : loop ≠ 0) :
    (printFrom loop bs).countP ishexa = 2 * bs.length ∧
    (printFrom loop bs).count 58 = (bs.length + (loop + 1) % 2) / 2 ∧
    (printFrom loop bs).length = 2 * bs.length + (bs.length + (loop + 1) % 2) / 2 := by
  induction bs generalizing loop with
  | nil =>
    refine ⟨rfl, ?_, ?_⟩
    · simp only [printFrom, List.count_nil, List.length_nil]
      omega
    · simp only [printFrom, List.length_nil]
      omega
  | cons b bs ih =>
    obtain ⟨hdigits, hcolons, hlength⟩ := ih (Nat.succ_ne_zero loop)
    obtain ⟨hhigh, hlow, hhigh58, hlow58⟩ := hexa_ishexa b
    have hcolon : ¬ishexa 58 := by decide
    by_cases heven : loop % 2 = 0
    · refine ⟨?_, ?_, ?_⟩
      · simp [printFrom, heven, hloop, hhigh, hlow, hcolon, hdigits]
        omega
      · simp [printFrom, heven, hloop, hhigh58, hlow58, hcolons]
        omega
      · simp [printFrom, heven, hloop, hlength]
        omega
    · refine ⟨?_, ?_, ?_⟩
      · simp [printFrom, heven, hhigh, hlow, hdigits]
        omega
      · simp [printFrom, heven, hhigh58, hlow58, hcolons]
        omega
      · simp [printFrom, heven, hlength]
        omega

theorem print_counts (id : Id) :
    id.print.countP ishexa = 64 ∧ id.print.count 58 = 15 ∧ id.print.length = 79 := by
  obtain ⟨data, size⟩ := id
  cases data with
  | nil => cases size
  | cons b bs =>
    have hlen : bs.length = 31 := Nat.succ.inj size
    obtain ⟨hdigits, hcolons, hlength⟩ := printFrom_counts bs Nat.one_ne_zero
    obtain ⟨hhigh, hlow, hhigh58, hlow58⟩ := hexa_ishexa b
    rw [hlen] at hdigits hcolons hlength
    have hprint : print ⟨b :: bs, size⟩ = hexa (b / 16) :: hexa (b % 16) :: printFrom 1 bs := by
      simp [print, printFrom]
    rw [hprint]
    refine ⟨?_, ?_, ?_⟩
    · rw [List.countP_cons_of_pos hhigh, List.countP_cons_of_pos hlow, hdigits]
    · rw [List.count_cons_of_ne hhigh58, List.count_cons_of_ne hlow58, hcolons]
    · rw [List.length_cons, List.length_cons, hlength]

/-- Of a stream that begins with the text of an id, the 64 digits and 15 colons of that text are
read, which give back the id, and what follows them is left. -/
theorem read_written (id : Id) (rest : ByteStr) :
    read (id.print ++ rest) = (id, rest) ∧
    id.print.countP ishexa = 64 ∧ id.print.count 58 = 15 ∧ id.print.length = 79 :=
  ⟨read_print id rest, print_counts id⟩

end Id
end Epyx.DHT
