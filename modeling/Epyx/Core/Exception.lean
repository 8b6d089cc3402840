import Epyx.Core.Byte

/-! The ways a call can end abnormally: the four classes of `core/exception.h`, and the two
endings no `catch` clause sees. -/
namespace Epyx

/-- An exception with the module and the message it was built with. `err` is `ErrException`,
a subclass of `FailException`. -/
inductive Exn where
  | fail (module message : String)
  | err (module fct : String)
  | minor (module message : String)
  | parser (module message : String)
  /-- a `throw;` with no active exception: `std::terminate` -/
  | terminate
  /-- a call through a null pointer -/
  | nullPointer
  deriving DecidableEq, Repr

/-- What `catch (MinorException e)` catches. -/
def Exn.isMinor : Exn → Bool
  | .minor _ _ => true
  | _ => false

/-- What `catch (ParserException e)` catches. -/
def Exn.isParser : Exn → Bool
  | .parser _ _ => true
  | _ => false

def Exn.getMessage : Exn → String
  | .fail _ m | .minor _ m | .parser _ m => m
  | .err _ fct => "Error with " ++ fct
  | .terminate | .nullPointer => ""

/-- The exception `EPYX_ASSERT(condition)` throws when the condition is false. -/
def assertFailed (condition : String) : Exn := .fail "assert" condition

/-- The exception a result carries, if any. -/
def thrown {α : Type*} : Except Exn α → Option Exn
  | .ok _ => none
  | .error e => some e

@[simp] theorem thrown_ok {α : Type*} (a : α) : thrown (.ok a : Except Exn α) = none := rfl

@[simp] theorem thrown_error {α : Type*} (e : Exn) :
    thrown (.error e : Except Exn α) = some e := rfl

/-- A call returns normally or throws `MinorException`. -/
def Handled : Option Exn → Prop
  | none => True
  | some e => e.isMinor

@[simp] theorem handled_none : Handled none := trivial

@[simp] theorem handled_some (e : Exn) : Handled (some e) ↔ e.isMinor := Iff.rfl

theorem Exn.isMinor_of_isParser {e : Exn} (h : e.isParser) : e.isMinor = false := by
  cases e <;> first | rfl | cases h

instance (o : Option Exn) : Decidable (Handled o) := by
  cases o <;> unfold Handled <;> infer_instance

theorem map_eq_ok_iff {α β : Type*} {r : Except Exn α} {f : α → β} :
    (∃ b, r.map f = .ok b) ↔ ∃ a, r = .ok a := by
  cases r <;> simp [Except.map]

theorem bind_eq_ok {α β : Type*} {r : Except Exn α} {f : α → Except Exn β} {b : β} :
    r.bind f = .ok b ↔ ∃ a, r = .ok a ∧ f a = .ok b := by
  cases r <;> simp [Except.bind]

theorem bind_eq_ok_iff {α β : Type*} {r : Except Exn α} {f : α → Except Exn β} :
    (∃ b, r.bind f = .ok b) ↔ ∃ a, r = .ok a ∧ ∃ b, f a = .ok b := by
  cases r <;> simp [Except.bind]

theorem ite_eq_ok_iff {α : Type*} {p q q' : Prop} [Decidable p] {r s : Except Exn α}
    (hr : (∃ a, r = .ok a) ↔ q) (hs : (∃ a, s = .ok a) ↔ q') :
    (∃ a, (if p then r else s) = .ok a) ↔ if p then q else q' := by
  split
  · exact hr
  · exact hs

/-- No part of a computation throws a `MinorException`, then the whole does not. -/
def NeverMinor {α : Type*} (r : Except Exn α) : Prop := ∀ e, r = .error e → e.isMinor = false

theorem NeverMinor.ok {α : Type*} (a : α) : NeverMinor (.ok a : Except Exn α) := nofun

theorem NeverMinor.bind {α β : Type*} {r : Except Exn α} {f : α → Except Exn β}
    (hr : NeverMinor r) (hf : ∀ a, NeverMinor (f a)) : NeverMinor (r.bind f) := by
  cases r with
  | ok a => exact hf a
  | error e => exact fun e' h => by cases h; exact hr e rfl

theorem NeverMinor.map {α β : Type*} {r : Except Exn α} (hr : NeverMinor r) (f : α → β) :
    NeverMinor (r.map f) := by
  cases r with
  | ok a => nofun
  | error e => exact fun e' h => by cases h; exact hr e rfl

theorem NeverMinor.ite {α : Type*} {p : Prop} [Decidable p] {r s : Except Exn α}
    (hr : NeverMinor r) (hs : NeverMinor s) : NeverMinor (if p then r else s) := by
  split
  · exact hr
  · exact hs

/-- What never throws a `MinorException` is handled when it succeeds, and only then. -/
theorem NeverMinor.handled_iff {α : Type*} {r : Except Exn α} (h : NeverMinor r) :
    Handled (thrown r) ↔ ∃ a, r = .ok a := by
  cases r with
  | ok a => simp
  | error e => simp [h e rfl]

theorem map_eq_error_iff {α β : Type*} {r : Except Exn α} {f : α → β} {e : Exn} :
    r.map f = .error e ↔ r = .error e := by
  cases r <;> simp [Except.map]

end Epyx
