import Epyx.Lib.ThreeWay
import Epyx.N2NP.NodeId

/-! The operators that `net/ipaddress.cpp`, `net/sockaddress.cpp` and `n2np/nodeid.cpp` define by
`compare`. -/
namespace Epyx
open Lib (ThreeWay.Total ThreeWay.Agree ThreeWay.apart ThreeWay.total)

namespace IpAddress

def eq : IpAddress → IpAddress → Bool := Lib.ThreeWay.eq compare
def ne : IpAddress → IpAddress → Bool := Lib.ThreeWay.ne compare
def lt : IpAddress → IpAddress → Bool := Lib.ThreeWay.lt compare

theorem compare_total : ThreeWay.Total compare :=
  ThreeWay.total (Ord.compare : IpAddress → IpAddress → Ordering)

end IpAddress

namespace SockAddress

def eq : SockAddress → SockAddress → Bool := Lib.ThreeWay.eq compare
def ne : SockAddress → SockAddress → Bool := Lib.ThreeWay.ne compare
def lt : SockAddress → SockAddress → Bool := Lib.ThreeWay.lt compare

theorem compare_total : ThreeWay.Total compare :=
  ThreeWay.total (Ord.compare : SockAddress → SockAddress → Ordering)

end SockAddress

namespace N2NP.NodeId

def eq : NodeId → NodeId → Bool := Lib.ThreeWay.eq compare
def ne : NodeId → NodeId → Bool := Lib.ThreeWay.ne compare
def lt : NodeId → NodeId → Bool := Lib.ThreeWay.lt compare

theorem compare_total : ThreeWay.Total compare :=
  ThreeWay.total (Ord.compare : NodeId → NodeId → Ordering)

/-- Node ids are the same when all that is compared of them is. -/
theorem fields_iff (x y : NodeId) : x = y ↔
    x.relay.ip.ipVersion = y.relay.ip.ipVersion ∧ x.relay.ip.ip = y.relay.ip.ip ∧
      x.relay.port = y.relay.port ∧ x.name = y.name := by
  obtain ⟨name, ⟨⟨ip, version⟩, port⟩⟩ := x
  obtain ⟨name', ⟨⟨ip', version'⟩, port'⟩⟩ := y
  simp only [mk.injEq, SockAddress.mk.injEq, IpAddress.mk.injEq]
  constructor
  · rintro ⟨hname, ⟨hip, hversion⟩, hport⟩
    exact ⟨hversion, hip, hport, hname⟩
  · rintro ⟨hversion, hip, hport, hname⟩
    exact ⟨hname, ⟨hip, hversion⟩, hport⟩

/-- The three comparisons are total orders, and two values are equal in one just when all their
fields are. The operators are those of the order, and in a map whose keys are node ids what is
done under one key leaves what is there under any other. -/
theorem compare_orders :
    ThreeWay.Total IpAddress.compare ∧ ThreeWay.Total SockAddress.compare ∧
    ThreeWay.Total compare ∧
    (∀ x y : NodeId, compare x y = .eq ↔
      x.relay.ip.ipVersion = y.relay.ip.ipVersion ∧ x.relay.ip.ip = y.relay.ip.ip ∧
        x.relay.port = y.relay.port ∧ x.name = y.name) ∧
    ThreeWay.Agree IpAddress.eq IpAddress.ne IpAddress.lt ∧
    ThreeWay.Agree SockAddress.eq SockAddress.ne SockAddress.lt ∧
    ThreeWay.Agree eq ne lt ∧
    ∀ {β : Type*} (m : Std.ExtTreeMap NodeId β Ord.compare) (x y : NodeId) (v : β), x ≠ y →
      (m.insert x v)[x]? = some v ∧ (m.insert x v)[y]? = m[y]? ∧
        (m.erase x)[x]? = none ∧ (m.erase x)[y]? = m[y]? := by
  refine ⟨IpAddress.compare_total, SockAddress.compare_total, compare_total, fun x y => ?_,
    IpAddress.compare_total.agree, SockAddress.compare_total.agree, compare_total.agree,
    fun m x y v hxy => ThreeWay.apart m hxy v⟩
  rw [compare_eq_iff, fields_iff]

/-- Two nodes of one relay, whose names differ in one byte. -/
theorem compare_orders_names :
    let one : NodeId := ⟨lit "1", ⟨⟨lit "10.0.0.1", 4⟩, 5000⟩⟩
    let two : NodeId := ⟨lit "2", ⟨⟨lit "10.0.0.1", 4⟩, 5000⟩⟩
    (((∅ : Std.ExtTreeMap NodeId Nat Ord.compare).insert one 30).insert two 0)[one]? = some 30 := by
  intro one two
  have hne : two ≠ one := by decide
  obtain ⟨-, -, -, -, -, -, -, hmaps⟩ := compare_orders
  rw [(hmaps _ two one 0 hne).2.1]
  exact (hmaps ∅ one two 30 hne.symm).1

end N2NP.NodeId
end Epyx
