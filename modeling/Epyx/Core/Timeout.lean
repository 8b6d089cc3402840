import Epyx.Core.Byte

/-! `core/timeout.cpp`: deadlines on the clock of `gettimeofday`. -/
namespace Epyx

/-- A `struct timeval` as the clock gives it. Its seconds stay far from the ends of a `time_t`. -/
structure TimeVal where
  sec : Int
  usec : Nat
  usec_lt : usec < 1000000
  deriving DecidableEq, Repr

namespace TimeVal

/-- The same time in microseconds. -/
def micros (t : TimeVal) : Int := t.sec * 1000000 + t.usec

theorem micros_inj {t u : TimeVal} : t.micros = u.micros ↔ t = u := by
  refine ⟨fun h => ?_, fun h => h ▸ rfl⟩
  obtain ⟨s, m, hm⟩ := t
  obtain ⟨s', m', hm'⟩ := u
  simp only [micros] at h
  have hsec : s = s' := by omega
  have husec : m = m' := by omega
  subst hsec husec
  rfl

/-- The time at a number of microseconds. -/
def ofMicros (n : Int) : TimeVal where
  sec := n / 1000000
  usec := (n % 1000000).toNat
  usec_lt := by omega

@[simp] theorem micros_ofMicros (n : Int) : (ofMicros n).micros = n := by
  simp only [micros, ofMicros]
  omega

end TimeVal

/-- A `Timeout`, by its `maxTime`. -/
structure Timeout where
  maxTime : TimeVal
  deriving DecidableEq, Repr

namespace Timeout

/-- `Timeout::Timeout` at the time `tv`. The factor is an `int` and `ms` an `unsigned int`, so
their product is one of 32 bits; only the sum is a `long`. -/
def new (tv : TimeVal) (ms : UInt32) : Timeout :=
  let usec := tv.usec + (1000 * ms).toNat
  ⟨tv.sec + (usec / 1000000 : Nat), usec % 1000000, Nat.mod_lt _ (by decide)⟩

/-- `hasExpired` at the time `tv`. -/
def hasExpired (t : Timeout) (tv : TimeVal) : Bool :=
  tv.sec > t.maxTime.sec || (tv.sec = t.maxTime.sec && tv.usec > t.maxTime.usec)

/-- `remainingTimeval` at the time `tv`. -/
def remainingTimeval (t : Timeout) (tv : TimeVal) : TimeVal :=
  if tv.sec > t.maxTime.sec then ⟨0, 0, by decide⟩
  else
    let sec := t.maxTime.sec - tv.sec
    if _h : tv.usec > t.maxTime.usec then
      if sec = 0 then ⟨sec, 0, by decide⟩
      else ⟨sec - 1, 1000000 + t.maxTime.usec - tv.usec, by omega⟩
    else ⟨sec, t.maxTime.usec - tv.usec, by have := t.maxTime.usec_lt; omega⟩

/-- `remainingMsec` at the time `tv`: a sum of `long`s returned as an `int`. -/
def remainingMsec (t : Timeout) (tv : TimeVal) : Int :=
  let tv := t.remainingTimeval tv
  toInt32 (tv.sec * 1000 + (tv.usec % 1000 : Nat))

/-- `operator<` -/
def lt (t₁ t₂ : Timeout) : Bool :=
  if t₁.maxTime.sec < t₂.maxTime.sec then true
  else if t₁.maxTime.sec > t₂.maxTime.sec then false
  else t₁.maxTime.usec < t₂.maxTime.usec

/-- The deadline in microseconds. -/
def deadline (t : Timeout) : Int := t.maxTime.micros

theorem hasExpired_iff (t : Timeout) (tv : TimeVal) :
    t.hasExpired tv ↔ t.deadline < tv.micros := by
  have hmax := t.maxTime.usec_lt
  have htv := tv.usec_lt
  simp only [hasExpired, deadline, TimeVal.micros, Bool.or_eq_true, Bool.and_eq_true,
    decide_eq_true_eq]
  omega

theorem lt_iff (t₁ t₂ : Timeout) : t₁.lt t₂ ↔ t₁.deadline < t₂.deadline := by
  have h₁ := t₁.maxTime.usec_lt
  have h₂ := t₂.maxTime.usec_lt
  simp only [lt, deadline, TimeVal.micros]
  split
  · simp only [true_iff]
    omega
  · split
    · simp only [Bool.false_eq_true, false_iff]
      omega
    · simp only [decide_eq_true_eq]
      omega

/-- The microseconds left at a time, none once the deadline has passed. -/
def left (t : Timeout) (tv : TimeVal) : Int := max (t.deadline - tv.micros) 0

theorem remainingTimeval_micros (t : Timeout) (tv : TimeVal) :
    (t.remainingTimeval tv).micros = t.left tv := by
  have hmax := t.maxTime.usec_lt
  have htv := tv.usec_lt
  unfold remainingTimeval left deadline
  split
  · simp only [TimeVal.micros]
    omega
  · dsimp only
    split
    · split
      · simp only [TimeVal.micros]
        omega
      · simp only [TimeVal.micros]
        omega
    · simp only [TimeVal.micros]
      omega

theorem remainingTimeval_eq (t : Timeout) (tv : TimeVal) :
    t.remainingTimeval tv = .ofMicros (t.left tv) := by
  rw [← TimeVal.micros_inj, remainingTimeval_micros, TimeVal.micros_ofMicros]

theorem remainingTimeval_eq_zero_iff (t : Timeout) (tv : TimeVal) :
    t.remainingTimeval tv = ⟨0, 0, by decide⟩ ↔ t.deadline ≤ tv.micros := by
  have hzero : TimeVal.micros ⟨0, 0, by decide⟩ = 0 := rfl
  rw [← TimeVal.micros_inj, remainingTimeval_micros, hzero]
  simp only [left]
  omega

/-- What is left is the difference to the deadline, in a normal form; it is nothing just from the
deadline on, and so whenever the timeout has expired. -/
theorem remainingTimeval_exact (t : Timeout) (now : TimeVal) :
    (t.remainingTimeval now).usec < 1000000 ∧
    (t.remainingTimeval now).micros = max 0 (t.deadline - now.micros) ∧
    (t.remainingTimeval now = ⟨0, 0, by decide⟩ ↔ t.deadline ≤ now.micros) ∧
    (t.hasExpired now → t.remainingTimeval now = ⟨0, 0, by decide⟩) := by
  refine ⟨(t.remainingTimeval now).usec_lt, ?_, t.remainingTimeval_eq_zero_iff now, fun h => ?_⟩
  · rw [remainingTimeval_micros, left, Int.max_comm]
  · rw [remainingTimeval_eq_zero_iff]
    exact Int.le_of_lt ((t.hasExpired_iff now).mp h)

/-- A microsecond behind the deadline. -/
theorem remainingTimeval_exact_expired :
    remainingTimeval ⟨⟨1, 5, by decide⟩⟩ ⟨1, 6, by decide⟩ = ⟨0, 0, by decide⟩ :=
  (remainingTimeval_exact ⟨⟨1, 5, by decide⟩⟩ ⟨1, 6, by decide⟩).2.2.2 (by decide)

/-- What the constructor adds to the time it reads. -/
theorem deadline_new (tv : TimeVal) (ms : UInt32) :
    (new tv ms).deadline = tv.micros + ms.toNat * 1000 % 2 ^ 32 := by
  have hmul : (1000 * ms).toNat = ms.toNat * 1000 % 2 ^ 32 := by
    rw [UInt32.toNat_mul, Nat.mul_comm]
    rfl
  simp only [deadline, new, TimeVal.micros, hmul]
  omega

/-- Built at any time, a timeout has expired exactly when its milliseconds are over, as long as
their product with 1000 fits in an `unsigned int`. -/
theorem hasExpired_new_iff (tv : TimeVal) (ms : UInt32) :
    (∀ t : TimeVal, (new tv ms).hasExpired t ↔ tv.micros + ms.toNat * 1000 < t.micros) ↔
      ms.toNat ≤ 4294967 := by
  have hlt : ms.toNat < 2 ^ 32 := ms.toNat_lt
  simp only [hasExpired_iff, deadline_new]
  constructor
  · intro h
    have hlate := h (.ofMicros (tv.micros + ms.toNat * 1000))
    rw [TimeVal.micros_ofMicros] at hlate
    omega
  · intro h t
    omega

/-- A timeout of 4294968 ms, over an hour, is over after less than a millisecond. -/
theorem hasExpired_new_early :
    ¬∀ t : TimeVal, (new ⟨0, 0, by decide⟩ 4294968).hasExpired t ↔
      TimeVal.micros ⟨0, 0, by decide⟩ + (4294968 : UInt32).toNat * 1000 < t.micros := by
  intro h
  have hearly := (h ⟨0, 1000, by decide⟩).mp (by decide)
  revert hearly
  decide

end Timeout
end Epyx
