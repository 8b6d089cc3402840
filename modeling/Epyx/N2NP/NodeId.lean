import Epyx.Net.SockAddress
import Epyx.Parser.Framing

/-! `n2np/nodeid.cpp`: a node is a name at a relay. -/
namespace Epyx.N2NP

structure NodeId where
  name : ByteStr
  relay : SockAddress
  deriving DecidableEq, Repr

namespace NodeId

/-- `NodeId::NodeId()` -/
def unset : NodeId := ⟨[], .unset⟩

/-- `NodeId::NodeId(str)` -/
def ofString (inet : Inet) (str : ByteStr) : Except Exn NodeId :=
  match str.dropWhile (· != 64) with
  | [] => .error (.parser "N2np::NodeId" "No @ in ID")
  | _ :: addr => (SockAddress.ofString inet addr).map (⟨str.takeWhile (· != 64), ·⟩)

/-- `operator<<`, and `NodeId::toString` -/
def print (n : NodeId) : ByteStr := n.name ++ 64 :: n.relay.print

/-- `NodeId::compare`, by the sign of its result. -/
def compare (a b : NodeId) : Ordering :=
  match a.relay.compare b.relay with
  | .eq => Ord.compare a.name b.name
  | c => c

def empty (n : NodeId) : Bool := n.name = [] && n.relay.empty

instance : Ord NodeId := ⟨compare⟩

theorem compare_lex : compare = compareLex (compareOn NodeId.relay) (compareOn NodeId.name) := by
  funext a b
  change (match Ord.compare a.relay b.relay with | .eq => _ | c => c) =
    (Ord.compare a.relay b.relay).then _
  cases Ord.compare a.relay b.relay <;> rfl

instance : Std.TransOrd NodeId := by
  change Std.TransCmp compare
  rw [compare_lex]
  infer_instance

theorem compare_eq_iff {a b : NodeId} : a.compare b = .eq ↔ a = b := by
  obtain ⟨name, relay⟩ := a
  obtain ⟨name', relay'⟩ := b
  simp [compare_lex, compareLex, compareOn, Ordering.then_eq_eq, and_comm]

instance : Std.LawfulEqOrd NodeId where
  compare_self := compare_eq_iff.mpr rfl
  eq_of_compare := compare_eq_iff.mp

/-- The node ids whose text is a header value: a name without `@` at a canonical IPv4 address. -/
structure Legal (n : NodeId) : Prop where
  name : n.name.all printable
  noAt : 64 ∉ n.name
  noSpace : n.name.head? ≠ some 32
  relay : n.relay.IsIPv4

/-- The text of a node id reads back when its name holds no `@`. -/
theorem ofString_print {n : NodeId} (hname : 64 ∉ n.name) (hrelay : n.relay.IsIPv4) (inet : Inet) :
    ofString inet n.print = .ok n := by
  have hat : ∀ c ∈ n.name, (c != 64) = true := fun c hc =>
    bne_iff_ne.mpr fun he => hname (he ▸ hc)
  have hd : (n.name ++ 64 :: n.relay.print).dropWhile (· != 64) = 64 :: n.relay.print := by
    rw [List.dropWhile_append_of_pos hat]; simp
  have ht : (n.name ++ 64 :: n.relay.print).takeWhile (· != 64) = n.name := by
    rw [List.takeWhile_append_of_pos hat]; simp
  simp only [ofString, print, hd, ht, SockAddress.ofString_print inet hrelay, Except.map]

theorem relay_printable {a : SockAddress} (h : a.IsIPv4) {c : Byte} (hc : c ∈ a.print) :
    printable c ∧ c ≠ 32 := by
  rcases h.print_bytes hc with hd | rfl | rfl
  · exact GTTParser.isdigit_printable hd
  · decide
  · decide

theorem Legal.print_isFlagValue {n : NodeId} (h : n.Legal) : isFlagValue n.print := by
  refine GTTParser.isFlagValue_iff.mpr ⟨by simp [print], fun h32 => ?_, ?_⟩
  · rcases hn : n.name with _ | ⟨c, t⟩
    · simp [print, hn] at h32
    · exact h.noSpace (by simpa [print, hn] using h32)
  · have hrelay : n.relay.print.all printable :=
      List.all_eq_true.mpr fun c hc => (relay_printable h.relay hc).1
    have hat : printable 64 := by decide
    simp [print, List.all_append, h.name, hrelay, hat]

end NodeId
end Epyx.N2NP
