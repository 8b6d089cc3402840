import Mathlib.Data.List.Basic

/-! Machines that read a buffered stream: they can be stopped at any point for want of input
and resumed when more has been appended. If appending input commutes with each step, what such a
machine reports does not depend on where the stream was cut. -/
namespace Epyx.Lib
variable {σ ω ε δ : Type*}

/-- What one step of a machine does: it goes on, reports an output, stops for want of input, or
fails. -/
inductive Step (σ ω ε : Type*) where
  | next (s : σ)
  | emit (o : ω) (s : σ)
  | stall (s : σ)
  | fail (e : ε) (s : σ)

namespace Step

/-- The same step with the state it leaves changed. -/
def mapState (f : σ → σ) : Step σ ω ε → Step σ ω ε
  | next s => next (f s)
  | emit o s => emit o (f s)
  | stall s => stall (f s)
  | fail e s => fail e (f s)

/-- How a run that reports nothing more has ended: with an error, or waiting in a state. -/
def verdict : Step σ ω ε → Except ε σ
  | next s | emit _ s | stall s => .ok s
  | fail e _ => .error e

end Step

/-- A step function whose every step but the last consumes something. -/
structure Transducer (σ ω ε : Type*) where
  step : σ → Step σ ω ε
  size : σ → Nat
  next_lt : ∀ s s', step s = .next s' → size s' < size s
  emit_lt : ∀ s o s', step s = .emit o s' → size s' < size s

namespace Transducer
variable (M : Transducer σ ω ε)

/-- Step until there is something to report. -/
def poll (s : σ) : Step σ ω ε :=
  match _h : M.step s with
  | .next s' => poll s'
  | .emit o s' => .emit o s'
  | .stall s' => .stall s'
  | .fail e s' => .fail e s'
termination_by M.size s
decreasing_by exact M.next_lt s s' ‹_›

theorem poll_next {s s' : σ} (h : M.step s = .next s') : M.poll s = M.poll s' := by
  rw [poll]; split <;> simp_all

theorem poll_of_ne_next {s : σ} (h : ∀ s', M.step s ≠ .next s') : M.poll s = M.step s := by
  rw [poll]; split <;> simp_all

theorem poll_emit {s s' : σ} {o : ω} (h : M.step s = .emit o s') : M.poll s = .emit o s' := by
  rw [M.poll_of_ne_next (by simp [h]), h]

theorem poll_stall {s s' : σ} (h : M.step s = .stall s') : M.poll s = .stall s' := by
  rw [M.poll_of_ne_next (by simp [h]), h]

theorem poll_fail {s s' : σ} {e : ε} (h : M.step s = .fail e s') : M.poll s = .fail e s' := by
  rw [M.poll_of_ne_next (by simp [h]), h]

/-- Two states from which the machine takes the same first step poll alike. -/
theorem poll_congr {s t : σ} (h : M.step s = M.step t) : M.poll s = M.poll t := by
  by_cases hn : ∃ s', M.step t = .next s'
  · obtain ⟨s', hs⟩ := hn
    rw [M.poll_next hs, M.poll_next (h.trans hs)]
  · push Not at hn
    rw [M.poll_of_ne_next hn, M.poll_of_ne_next (h ▸ hn), h]

theorem poll_emit_lt (s : σ) : ∀ o s', M.poll s = .emit o s' → M.size s' < M.size s := by
  induction s using poll.induct M with
  | case1 s s₁ h ih =>
    intro o s' hp
    have := M.next_lt s s₁ h
    have := ih o s' (by rw [← M.poll_next h, hp])
    omega
  | case2 s o₁ s₁ h =>
    intro o s' hp
    rw [M.poll_emit h] at hp
    cases hp
    exact M.emit_lt s _ _ h
  | case3 s s₁ h =>
    intro o s' hp
    rw [M.poll_stall h] at hp
    cases hp
  | case4 s e s₁ h =>
    intro o s' hp
    rw [M.poll_fail h] at hp
    cases hp

theorem poll_ne_next (s s' : σ) : M.poll s ≠ .next s' := by
  induction s using poll.induct M with
  | case1 s s₁ h ih => rwa [M.poll_next h]
  | case2 s o s₁ h | case3 s s₁ h | case4 s e s₁ h =>
    rw [M.poll_of_ne_next (by simp [h]), h]
    simp

/-- What each step guarantees, given what it keeps from step to step, is guaranteed of the step
polling ends with. -/
theorem poll_ends {I : σ → Prop} {Q : Step σ ω ε → Prop} (hstep : ∀ s, I s → Q (M.step s))
    (hnext : ∀ s, Q (.next s) → I s) {s : σ} (hs : I s) : Q (M.poll s) := by
  induction s using poll.induct M with
  | case1 s s₁ h ih =>
    rw [M.poll_next h]
    exact ih (hnext _ (h ▸ hstep s hs))
  | case2 s o s₁ h | case3 s s₁ h | case4 s e s₁ h =>
    rw [M.poll_of_ne_next (by simp [h])]
    exact hstep s hs

/-- Poll until the machine waits for input or fails, collecting what it reports. -/
def drain (s : σ) : List ω × Step σ ω ε :=
  match _h : M.poll s with
  | .emit o s' => let r := drain s'; (o :: r.1, r.2)
  | .next s' => ([], .next s')
  | .stall s' => ([], .stall s')
  | .fail e s' => ([], .fail e s')
termination_by M.size s
decreasing_by exact M.poll_emit_lt s o s' ‹_›

theorem drain_poll_emit {s s' : σ} {o : ω} (h : M.poll s = .emit o s') :
    M.drain s = (o :: (M.drain s').1, (M.drain s').2) := by
  rw [drain]; split <;> simp_all

theorem drain_poll_end {s : σ} (h : ∀ o s', M.poll s ≠ .emit o s') :
    M.drain s = ([], M.poll s) := by
  rw [drain]; split <;> simp_all

theorem drain_next {s s' : σ} (h : M.step s = .next s') : M.drain s = M.drain s' := by
  rw [drain, drain, M.poll_next h]

theorem drain_emit {s s' : σ} {o : ω} (h : M.step s = .emit o s') :
    M.drain s = (o :: (M.drain s').1, (M.drain s').2) :=
  M.drain_poll_emit (M.poll_emit h)

theorem drain_stall {s s' : σ} (h : M.step s = .stall s') : M.drain s = ([], .stall s') := by
  have hp := M.poll_stall h
  rw [M.drain_poll_end (by simp [hp]), hp]

theorem drain_fail {s s' : σ} {e : ε} (h : M.step s = .fail e s') :
    M.drain s = ([], .fail e s') := by
  have hp := M.poll_fail h
  rw [M.drain_poll_end (by simp [hp]), hp]

theorem drain_congr {s t : σ} (h : M.step s = M.step t) : M.drain s = M.drain t := by
  rw [drain, drain, M.poll_congr h]

/-- What each step guarantees, given what it keeps from step to step, is guaranteed of the step
a drained machine ends with. -/
theorem drain_ends {I : σ → Prop} {Q : Step σ ω ε → Prop} (hstep : ∀ s, I s → Q (M.step s))
    (hnext : ∀ s, Q (.next s) → I s) (hemit : ∀ o s, Q (.emit o s) → I s) {s : σ} (hs : I s) :
    Q (M.drain s).2 := by
  induction hn : M.size s using Nat.strongRecOn generalizing s with
  | ind n ih =>
    subst hn
    have hq := hstep s hs
    cases h : M.step s with
    | next s' =>
      rw [M.drain_next h]
      exact ih _ (M.next_lt s s' h) (hnext s' (h ▸ hq)) rfl
    | emit o s' =>
      rw [M.drain_emit h]
      exact ih _ (M.emit_lt s o s' h) (hemit o s' (h ▸ hq)) rfl
    | stall s' => rw [M.drain_stall h]; exact h ▸ hq
    | fail e s' => rw [M.drain_fail h]; exact h ▸ hq

/-- Appending input: it extends what a step has not consumed, and a machine that stopped for want
of input goes on from where it stopped. -/
structure Feeds (feed : σ → List δ → σ) : Prop where
  append : ∀ s a b, feed s (a ++ b) = feed (feed s a) b
  step : ∀ s d, (∀ s', M.step s ≠ .stall s') →
    M.step (feed s d) = (M.step s).mapState (feed · d)
  resume : ∀ s s' d, M.step s = .stall s' → M.step (feed s d) = M.step (feed s' d)

variable {M} {feed : σ → List δ → σ}

/-- Appending input leaves what polling has come to, and resumes it where it waits. -/
theorem Feeds.poll_feed (hf : M.Feeds feed) (d : List δ) (s : σ) :
    M.poll (feed s d) =
      match M.poll s with
      | .stall s' => M.poll (feed s' d)
      | r => r.mapState (feed · d) := by
  induction s using poll.induct M with
  | case1 s s₁ h ih =>
    have hs : M.step (feed s d) = .next (feed s₁ d) := by simp [hf.step s d, h, Step.mapState]
    rw [M.poll_next hs, M.poll_next h, ih]
  | case2 s o s₁ h | case4 s e s₁ h =>
    have hs : M.step (feed s d) = (M.step s).mapState (feed · d) := hf.step s d (by simp [h])
    rw [M.poll_of_ne_next (s := s) (by simp [h]),
      M.poll_of_ne_next (by simp [hs, h, Step.mapState]), hs, h]
  | case3 s s₁ h =>
    rw [M.poll_congr (hf.resume s s₁ d h), M.poll_stall h]

/-- Appending input to a state that has been drained is draining it with the input appended. -/
theorem Feeds.drain_feed (hf : M.Feeds feed) (d : List δ) (s : σ) :
    M.drain (feed s d) =
      match M.drain s with
      | (os, .fail e s') => (os, .fail e (feed s' d))
      | (os, .stall s') | (os, .next s') | (os, .emit _ s') =>
        (os ++ (M.drain (feed s' d)).1, (M.drain (feed s' d)).2) := by
  induction hn : M.size s using Nat.strongRecOn generalizing s with
  | ind n ih =>
    subst hn
    cases h : M.step s with
    | next s' =>
      have hs : M.step (feed s d) = .next (feed s' d) := by simp [hf.step s d, h, Step.mapState]
      rw [M.drain_next hs, M.drain_next h, ih _ (M.next_lt s s' h) s' rfl]
    | emit o s' =>
      have hs : M.step (feed s d) = .emit o (feed s' d) := by simp [hf.step s d, h, Step.mapState]
      rw [M.drain_emit hs, M.drain_emit h, ih _ (M.emit_lt s o s' h) s' rfl]
      rcases M.drain s' with ⟨os, r⟩
      cases r <;> simp
    | stall s' =>
      rw [M.drain_stall h, M.drain_congr (hf.resume s s' d h)]
      simp
    | fail e s' =>
      have hs : M.step (feed s d) = .fail e (feed s' d) := by simp [hf.step s d, h, Step.mapState]
      rw [M.drain_fail hs, M.drain_fail h]

variable (M feed)

/-- Feed chunk by chunk, draining after each, up to the first failure. -/
def run (s : σ) : List (List δ) → List ω × Step σ ω ε
  | [] => ([], .stall s)
  | c :: cs =>
    match M.drain (feed s c) with
    | (os, .fail e s') => (os, .fail e s')
    | (os, .stall s') | (os, .next s') | (os, .emit _ s') =>
      let r := run s' cs
      (os ++ r.1, r.2)

variable {M feed}

/-- However a stream is cut into chunks, a run over them reports what draining the whole stream
reports, and ends the same way. -/
theorem Feeds.run_eq_drain (hf : M.Feeds feed) (cs : List (List δ)) (c : List δ) (s : σ) :
    (M.run feed s (c :: cs)).1 = (M.drain (feed s (c :: cs).flatten)).1 ∧
    (M.run feed s (c :: cs)).2.verdict = (M.drain (feed s (c :: cs).flatten)).2.verdict := by
  induction cs generalizing c s with
  | nil =>
    simp only [run, List.flatten_cons, List.flatten_nil, List.append_nil]
    rcases hd : M.drain (feed s c) with ⟨os, r⟩
    cases r <;> simp [Step.verdict]
  | cons c' cs ih =>
    rw [List.flatten_cons, hf.append, hf.drain_feed, run]
    rcases hd : M.drain (feed s c) with ⟨os, r⟩
    cases r with
    | fail e s' => simp [Step.verdict]
    | stall s' | next s' | emit o s' =>
      obtain ⟨h1, h2⟩ := ih c' s'
      simp only [h1, h2, and_self]

/-- Two cuts of one stream give the same outputs and the same end. -/
theorem Feeds.run_cut (hf : M.Feeds feed) (s : σ) {cs ds : List (List δ)}
    (hc : cs ≠ []) (hd : ds ≠ []) (h : cs.flatten = ds.flatten) :
    (M.run feed s cs).1 = (M.run feed s ds).1 ∧
    (M.run feed s cs).2.verdict = (M.run feed s ds).2.verdict := by
  obtain ⟨c, cs, rfl⟩ := List.exists_cons_of_ne_nil hc
  obtain ⟨d, ds, rfl⟩ := List.exists_cons_of_ne_nil hd
  have h1 := hf.run_eq_drain cs c s
  have h2 := hf.run_eq_drain ds d s
  rw [h] at h1
  exact ⟨h1.1.trans h2.1.symm, h1.2.trans h2.2.symm⟩

end Transducer
end Epyx.Lib
