import Mathlib.Data.List.Pairwise
import Mathlib.Logic.Function.Basic

/-! Machines that write a log: a step takes an event and says what it has put out. -/
namespace Epyx.Lib

/-- A deterministic step on the states `σ`, undefined where the machine cannot take the event. -/
structure Machine (σ ε ο : Type*) where
  step : σ → ε → Option (σ × List ο)

/-- Every entry of a log is accounted for by the log before it. -/
def Grounded {ο : Type*} (J : List ο → ο → Prop) (log : List ο) : Prop :=
  ∀ l₁ o l₂, log = l₁ ++ o :: l₂ → J l₁ o

theorem Grounded.nil {ο : Type*} (J : List ο → ο → Prop) : Grounded J [] := by
  simp [Grounded]

theorem Grounded.concat {ο : Type*} {J : List ο → ο → Prop} {log : List ο} {o : ο}
    (h : Grounded J log) (ho : J log o) : Grounded J (log ++ [o]) := by
  intro l₁ x l₂ hx
  rcases List.eq_nil_or_concat l₂ with rfl | ⟨l₃, y, rfl⟩
  · obtain ⟨rfl, hox⟩ := List.append_inj' hx rfl
    cases hox
    exact ho
  · rw [List.concat_eq_append, ← List.cons_append, ← List.append_assoc] at hx
    exact h l₁ x l₃ (List.append_inj' hx rfl).1

/-- Entries come that are accounted for by whatever log. -/
theorem Grounded.append {ο : Type*} {J : List ο → ο → Prop} {log new : List ο}
    (h : Grounded J log) (hnew : ∀ o ∈ new, ∀ l, J l o) : Grounded J (log ++ new) := by
  induction new generalizing log with
  | nil => rwa [List.append_nil]
  | cons o new ih =>
    rw [← List.singleton_append, ← List.append_assoc]
    exact ih (h.concat (hnew o (List.mem_cons_self ..) log)) fun x hx => hnew x (.tail _ hx)

theorem Grounded.left {ο : Type*} {J : List ο → ο → Prop} {l₁ l₂ : List ο}
    (h : Grounded J (l₁ ++ l₂)) : Grounded J l₁ := fun k₁ o k₂ hk =>
  h k₁ o (k₂ ++ l₂) (by simp [hk])

/-- What accounts for an entry is still there at the end of the log. -/
theorem Grounded.of_mem {ο : Type*} {J : List ο → ο → Prop} {log : List ο} (h : Grounded J log)
    (mono : ∀ l₁ l₂ o, J l₁ o → J (l₁ ++ l₂) o) {o : ο} (ho : o ∈ log) : J log o := by
  obtain ⟨l₁, l₂, rfl⟩ := List.append_of_mem ho
  exact mono _ _ _ (h l₁ o l₂ rfl)

/-- What is marked differently from everything else in a list is there once. -/
theorem eq_of_nodup_filterMap {ο κ : Type*} {f : ο → Option κ} {l : List ο} {a b : ο} {k : κ}
    (h : (l.filterMap f).Nodup) (ha : a ∈ l) (hb : b ∈ l) (hfa : f a = some k)
    (hfb : f b = some k) : a = b := by
  have hsymm : Std.Symm fun a b : ο => ∀ k, f a = some k → ∀ m, f b = some m → k ≠ m :=
    ⟨fun a b hab k hk m hm => (hab m hm k hk).symm⟩
  by_contra hne
  exact (List.pairwise_filterMap.mp h).forall ha hb hne k hfa k hfb rfl

namespace Machine
variable {σ ε ο ι : Type*}

/-- The runs from a state in which every step is one that `ok` allows, in view of the state and
of the log before it; each with the state it reaches and its log. -/
inductive Run (M : Machine σ ε ο) (ok : σ → List ο → ε → Prop) (s₀ : σ) : σ → List ο → Prop
  | start : Run M ok s₀ s₀ []
  | step {s s' : σ} {log out : List ο} {e : ε} (run : Run M ok s₀ s log) (allowed : ok s log e)
      (taken : M.step s e = some (s', out)) : Run M ok s₀ s' (log ++ out)

/-- What holds at the start and is kept by every allowed step holds in every state reached. -/
theorem Run.invariant {M : Machine σ ε ο} {ok : σ → List ο → ε → Prop} {s₀ : σ}
    {P : σ → List ο → Prop} (start : P s₀ [])
    (step : ∀ s log e s' out, P s log → ok s log e → M.step s e = some (s', out) →
      P s' (log ++ out)) {s : σ} {log : List ο} (run : Run M ok s₀ s log) : P s log := by
  induction run with
  | start => exact start
  | step run allowed taken ih => exact step _ _ _ _ _ ih allowed taken

/-- A run goes on where another one has ended. -/
theorem Run.append {M : Machine σ ε ο} {ok : σ → List ο → ε → Prop} {s₀ s s' : σ}
    {log log' : List ο} (run : Run M (fun _ _ _ => True) s₀ s log) (run' : Run M ok s s' log') :
    Run M (fun _ _ _ => True) s₀ s' (log ++ log') := by
  induction run' with
  | start => rwa [List.append_nil]
  | step _ _ taken ih =>
    rw [← List.append_assoc]
    exact ih.step trivial taken

/-- A run may be seen as one with fewer restrictions. -/
theorem Run.mono {M : Machine σ ε ο} {ok ok' : σ → List ο → ε → Prop} {s₀ s : σ} {log : List ο}
    (h : ∀ s log e, ok s log e → ok' s log e) (run : Run M ok s₀ s log) : Run M ok' s₀ s log := by
  induction run with
  | start => exact .start
  | step run allowed taken ih => exact ih.step (h _ _ _ allowed) taken

theorem Run.free {M : Machine σ ε ο} {ok : σ → List ο → ε → Prop} {s₀ s : σ} {log : List ο}
    (run : Run M ok s₀ s log) : Run M (fun _ _ _ => True) s₀ s log :=
  run.mono fun _ _ _ _ => trivial

theorem Run.of_decide {M : Machine σ ε ο} {ok : σ → List ο → ε → Prop}
    [∀ s log e, Decidable (ok s log e)] {s₀ s : σ} {log : List ο}
    (run : Run M (fun s log e => decide (ok s log e)) s₀ s log) : Run M ok s₀ s log :=
  run.mono fun _ _ _ h => of_decide_eq_true h

/-- The machine takes the events one after the other, as long as they are allowed; the state is
held with the log so far. -/
def exec (M : Machine σ ε ο) (ok : σ → List ο → ε → Bool) (r : σ × List ο) :
    List ε → Option (σ × List ο)
  | [] => some r
  | e :: es =>
    if ok r.1 r.2 e then (M.step r.1 e).bind fun t => M.exec ok (t.1, r.2 ++ t.2) es else none

/-- A run of events each of which is allowed where it comes. -/
theorem Run.exec_of {M : Machine σ ε ο} {ok : σ → List ο → ε → Bool} {ok' : σ → List ο → ε → Prop}
    {s₀ : σ} {r t : σ × List ο} {es : List ε} (run : Run M ok' s₀ r.1 r.2)
    (hok : ∀ e ∈ es, ∀ s log, ok s log e → ok' s log e) (h : M.exec ok r es = some t) :
    Run M ok' s₀ t.1 t.2 := by
  induction es generalizing r with
  | nil => cases h; exact run
  | cons e es ih =>
    rw [Machine.exec] at h
    split at h
    · rename_i hallowed
      obtain ⟨⟨s', out⟩, hs, h⟩ := Option.bind_eq_some_iff.mp h
      exact ih (run.step (hok e (.head _) _ _ hallowed) hs) (fun e he => hok e (.tail _ he)) h
    · cases h

theorem Run.exec {M : Machine σ ε ο} {ok : σ → List ο → ε → Bool} {s₀ : σ} {r t : σ × List ο}
    {es : List ε} (run : Run M (fun s log e => ok s log e) s₀ r.1 r.2)
    (h : M.exec ok r es = some t) : Run M (fun s log e => ok s log e) s₀ t.1 t.2 :=
  run.exec_of (fun _ _ _ _ h => h) h

/-- The machine with what it takes in its log as well. -/
def traced (M : Machine σ ε ο) : Machine σ ε (ε ⊕ ο) where
  step s e := (M.step s e).map fun r => (r.1, .inl e :: r.2.map .inr)

/-- What was put out. -/
def outputs (log : List (ε ⊕ ο)) : List ο := log.filterMap Sum.getRight?

theorem outputs_append (log : List (ε ⊕ ο)) (e : ε) (out : List ο) :
    outputs (log ++ .inl e :: out.map .inr) = outputs log ++ out := by
  have hout : (out.map Sum.inr).filterMap (Sum.getRight? : ε ⊕ ο → Option ο) = out := by
    rw [List.filterMap_map]
    exact List.filterMap_some
  rw [outputs, List.filterMap_append, List.filterMap_cons_none rfl, hout, outputs]

/-- A run is one of the machine itself, whatever else is in its log. -/
theorem Run.untraced {M : Machine σ ε ο} {ok : σ → List ο → ε → Prop} {s₀ s : σ}
    {log : List (ε ⊕ ο)} (run : Run M.traced (fun s log e => ok s (outputs log) e) s₀ s log) :
    Run M ok s₀ s (outputs log) := by
  induction run with
  | start => exact .start
  | step run allowed taken ih =>
    obtain ⟨⟨s', out⟩, hs, heq⟩ := Option.map_eq_some_iff.mp taken
    cases heq
    rw [outputs_append]
    exact ih.step allowed hs

/-- One machine for each index; an event is for one of them. -/
def family [DecidableEq ι] (M : ι → Machine σ ε ο) : Machine (ι → σ) (ι × ε) (ι × ο) where
  step s e := ((M e.1).step (s e.1) e.2).map fun r =>
    (Function.update s e.1 r.1, r.2.map fun o => (e.1, o))

/-- A step of a family is a step of the member that was named; the others stay as they are. -/
theorem family_step [DecidableEq ι] {M : ι → Machine σ ε ο} {s s' : ι → σ} {i : ι} {e : ε}
    {out : List (ι × ο)} (h : (family M).step s (i, e) = some (s', out)) :
    ∃ t o, (M i).step (s i) e = some (t, o) ∧ s' = Function.update s i t ∧
      out = o.map fun o => (i, o) := by
  obtain ⟨⟨t, o⟩, hr, he⟩ := Option.map_eq_some_iff.mp h
  cases he
  exact ⟨t, o, hr, rfl, rfl⟩

/-- What the member `i` has put out. -/
def logOf [DecidableEq ι] (i : ι) (log : List (ι × ο)) : List ο :=
  log.filterMap fun x => if x.1 = i then some x.2 else none

theorem mem_logOf [DecidableEq ι] {i : ι} {log : List (ι × ο)} {o : ο} :
    o ∈ logOf i log ↔ (i, o) ∈ log := by
  simp only [logOf, List.mem_filterMap, Option.ite_none_right_eq_some, Option.some.injEq]
  exact ⟨fun ⟨x, hx, hi, ho⟩ => hi ▸ ho ▸ hx, fun h => ⟨_, h, rfl, rfl⟩⟩

theorem logOf_append [DecidableEq ι] (i : ι) (l₁ l₂ : List (ι × ο)) :
    logOf i (l₁ ++ l₂) = logOf i l₁ ++ logOf i l₂ := List.filterMap_append

/-- What a member puts out is in its own log, and in no other one. -/
theorem logOf_map [DecidableEq ι] (i j : ι) (out : List ο) :
    logOf i (out.map fun o => (j, o)) = if j = i then out else [] := by
  rw [logOf, List.filterMap_map]
  show out.filterMap (fun o => if j = i then some o else none) = _
  by_cases hi : j = i <;> simp [hi]

/-- Where an entry stands in the log of its member it stands in the whole log. -/
theorem logOf_split [DecidableEq ι] {i : ι} {log : List (ι × ο)} {l₁ l₂ : List ο} {o : ο}
    (h : logOf i log = l₁ ++ o :: l₂) :
    ∃ k₁ k₂, log = k₁ ++ (i, o) :: k₂ ∧ logOf i k₁ = l₁ ∧ logOf i k₂ = l₂ := by
  obtain ⟨k₁, k, rfl, h₁, hk⟩ := List.filterMap_eq_append_iff.mp h
  obtain ⟨m, x, k₂, rfl, hm, hx, h₂⟩ := List.filterMap_eq_cons_iff.mp hk
  obtain ⟨rfl, hxo⟩ : x.1 = i ∧ x.2 = o := by
    simpa only [Option.ite_none_right_eq_some, Option.some.injEq] using hx
  refine ⟨k₁ ++ m, k₂, ?_, ?_, h₂⟩
  · rw [← hxo, List.append_assoc]
  · have hnil : logOf x.1 m = [] := List.filterMap_eq_nil_iff.mpr hm
    rw [logOf_append, hnil, List.append_nil]
    exact h₁

/-- What a run of a family is for one of its members: a run of that one. -/
theorem Run.member [DecidableEq ι] {M : ι → Machine σ ε ο}
    {ok : (ι → σ) → List (ι × ο) → ι × ε → Prop} {s₀ s : ι → σ} {log : List (ι × ο)}
    (run : Run (family M) ok s₀ s log) (i : ι) :
    Run (M i) (fun _ _ _ => True) (s₀ i) (s i) (logOf i log) := by
  induction run with
  | start => exact .start
  | @step s s' log out e run allowed taken ih =>
    obtain ⟨j, e⟩ := e
    obtain ⟨t, o, ht, rfl, rfl⟩ := family_step taken
    rw [logOf_append, logOf_map]
    by_cases hi : j = i
    · subst hi
      rw [Function.update_self, if_pos rfl]
      exact ih.step trivial ht
    · rw [Function.update_of_ne (Ne.symm hi), if_neg hi, List.append_nil]
      exact ih

end Machine
end Epyx.Lib
