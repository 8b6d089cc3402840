import Epyx.DHT.Steps
import Mathlib.Data.List.Nodup

/-! The connection ids a node gives out: one after the other, from wherever its counter stood. -/
namespace Epyx.DHT
open Lib

/-- The id `sendQuery` has returned. -/
def Output.issued : Output → Option Int64
  | .query _ id _ => some id
  | _ => none

def issued (log : List Output) : List Int64 := log.filterMap Output.issued

@[simp] theorem issued_append (log out : List Output) :
    issued (log ++ out) = issued log ++ issued out := List.filterMap_append

/-- `k` ids from `start` on. The counter wraps. -/
def idsFrom (start : Int64) (k : Nat) : List Int64 :=
  (List.range k).map fun i => start + Int64.ofNat i

theorem idsFrom_succ (start : Int64) (k : Nat) :
    idsFrom start (k + 1) = idsFrom start k ++ [start + Int64.ofNat k] := by
  simp [idsFrom, List.range_succ]

theorem ofNat_inj {i j : Nat} (hi : i < 2 ^ 64) (hj : j < 2 ^ 64)
    (h : Int64.ofNat i = Int64.ofNat j) : i = j := by
  have hbv := congrArg Int64.toBitVec h
  simp only [Int64.toBitVec_ofNat'] at hbv
  have hn := congrArg BitVec.toNat hbv
  rwa [BitVec.toNat_ofNat, BitVec.toNat_ofNat, Nat.mod_eq_of_lt hi, Nat.mod_eq_of_lt hj] at hn

theorem nodup_idsFrom (start : Int64) {k : Nat} (hk : k ≤ 2 ^ 64) : (idsFrom start k).Nodup := by
  refine List.Nodup.map_on (fun i hi j hj h => ?_) List.nodup_range
  rw [List.mem_range] at hi hj
  exact ofNat_inj (by omega) (by omega) ((Int64.add_right_inj start).mp h)

theorem toInt32_toInt64_of_mem_idsFrom {start : Int64} {k : Nat} (hl : -2 ^ 31 ≤ start.toInt)
    (hu : start.toInt + k ≤ 2 ^ 31) {c : Int64} (hc : c ∈ idsFrom start k) :
    c.toInt32.toInt64 = c := by
  obtain ⟨i, hi, rfl⟩ := List.mem_map.mp hc
  rw [List.mem_range] at hi
  have hadd : (start + Int64.ofNat i).toInt = start.toInt + i := by
    rw [Int64.toInt_add, Int64.toInt_ofNat_of_lt (by omega)]
    exact Int.bmod_eq_of_le (by omega) (by omega)
  apply Int64.toInt.inj
  rw [Int32.toInt_toInt64, Int64.toInt_toInt32, hadd]
  exact Int.bmod_eq_of_le (by omega) (by omega)

/-- An id that was given out once was given out for one query. -/
theorem query_unique {log : List Output} (h : (issued log).Nodup) {a b : ActorId} {c : Int64}
    {p q : Query} (hp : .query a c p ∈ log) (hq : .query b c q ∈ log) : p = q := by
  exact (Output.query.inj (eq_of_nodup_filterMap h hp hq rfl rfl)).2.2

namespace InternalNode

/-- The node has given out `k` ids from `start` on, and the next one is the next in the row. -/
def Counted (start : Int64) (log : List Output) (n : InternalNode) : Prop :=
  ∃ k, issued (log ++ n.out) = idsFrom start k ∧ n.processActorsCount = start + Int64.ofNat k

variable {start : Int64} {log : List Output}

theorem Counted.emit {n : InternalNode} (h : Counted start log n) {o : Output}
    (ho : o.issued = none) : Counted start log (n.emit o) := by
  obtain ⟨k, hi, hc⟩ := h
  exact ⟨k, by simpa [InternalNode.emit, issued, ho] using hi, hc⟩

theorem Counted.sendQuery {n : InternalNode} (h : Counted start log n) (a : ActorId)
    (p : ProcessActor) (peer : SPtr) (query : Query) :
    Counted start log (n.sendQuery a p peer query).1 := by
  obtain ⟨k, hi, hc⟩ := h
  refine ⟨k + 1, ?_, ?_⟩
  · rw [idsFrom_succ, ← hi, ← hc]
    simp [InternalNode.sendQuery, InternalNode.emit, send, arm, registerNewConnectionId, issued]
    rfl
  · show n.processActorsCount + 1 = _
    rw [hc, Int64.add_assoc]
    congr 1
    exact (Int64.ofNat_add k 1).symm

theorem Counted.run {n : InternalNode} (h : Counted start log n) (a : ActorId) (p : ProcessActor)
    (r : Role × List Action) : Counted start log (n.run a p r) := by
  have hfold : ∀ (xs : List Action) (s : InternalNode × ProcessActor), Counted start log s.1 →
      Counted start log (xs.foldl (perform a) s).1 := by
    intro xs
    induction xs with
    | nil => exact fun s hs => hs
    | cons x xs ih =>
      refine fun s hs => ih _ ?_
      cases x with
      | sendQuery peer query => exact hs.sendQuery a s.2 peer query
      | call callback => exact hs.emit rfl
      | _ => exact hs
  exact hfold r.2 (n, { p with role := r.1 }) h

theorem Counted.part {n n' : InternalNode} (h : Counted start log n) (hp : Part n n') :
    Counted start log n' := by
  cases hp with
  | aside ha =>
    obtain ⟨k, hi, hc⟩ := h
    obtain ⟨out, hout, haside⟩ := ha.out
    have hnone : issued out = [] := Output.filterMap_aside haside (fun _ _ => rfl) fun _ _ => rfl
    refine ⟨k, ?_, ha.processActorsCount.trans hc⟩
    rw [hout, ← List.append_assoc, issued, List.filterMap_append, ← issued, ← issued, hi, hnone,
      List.append_nil]
  | add role => exact h
  | handler found alive hr => exact h.run _ _ _
  | @settle a p c o r found alive asked settles hr =>
    have hu : Counted start log (n.unregisterConnectionId c) := h
    refine (hu.emit ?_).run _ _ _
    rcases settles with ⟨answer, rfl⟩ | rfl <;> rfl
  | @destroy a p found dead =>
    obtain ⟨r, hr⟩ := foldl_unregister p.queries.keys n
    simp only [destroy, hr]
    exact h

/-- The ids of a run are those from the value the counter started with on. -/
theorem issued_eq {id : Id} {n2npId : N2NP.NodeId} {start : Int64}
    {ok : InternalNode → List Output → Event → Prop} {n : InternalNode} {log : List Output}
    (run : machine.Run ok (.new id n2npId start) n log) :
    issued log = idsFrom start (issued log).length := by
  have h : Counted start ([] ++ log) n := by
    refine run_parts (P := Counted start) (fun _ _ _ h hp => h.part hp) (fun log n h => ?_) []
      ⟨0, rfl, by simp [new]⟩ run
    obtain ⟨k, hi, hc⟩ := h
    exact ⟨k, by simpa using hi, hc⟩
  obtain ⟨k, hi, -⟩ := h
  rw [run_out rfl run, List.append_nil, List.nil_append] at hi
  have hk : (issued log).length = k := by simp [hi, idsFrom]
  rw [hk]
  exact hi

end InternalNode
end Epyx.DHT
