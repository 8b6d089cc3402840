import Epyx.DHT.Keys
import Epyx.DHT.Registered

/-! The way of a connection id: from the registry into a query, over the wire, and with the answer
back to the registry. -/
namespace Epyx.DHT
open Lib

/-- The id a packet carries, if its method has one. -/
def Content.connectionId : Content → Option Int32
  | .ping | .pong => none
  | .store c _ _ | .stored c _ | .get c _ | .got c _ _ | .find c _ _ | .found c _ _ _ => some c

/-- The id that is read of a packet at the other end of the wire, if it is read at all. -/
def readId (inet : Inet) (p : Packet) : Option Int32 :=
  (received inet p.toGTTPacket.build).bind (·.content.connectionId)

/-- A key of one line. No string is longer than a `size_t` can count. -/
def Query.Plain : Query → Prop
  | .find _ _ => True
  | .get key => 10 ∉ key
  | .store key value => 10 ∉ key ∧ value.length < 2 ^ 63

instance (q : Query) : Decidable q.Plain := by
  cases q <;> unfold Query.Plain <;> infer_instance

/-- A query with a key of one line, whose id is an `int`. -/
def Output.Narrow : Output → Prop
  | .query _ c q => InInt c.toInt ∧ q.Plain
  | _ => True

instance (o : Output) : Decidable o.Narrow := by
  cases o <;> unfold Output.Narrow <;> infer_instance

theorem readId_query {inet : Inet} {«from» : Id} {c w : Int32} {q : Query} (hq : q.Plain)
    (h : readId inet ⟨«from», q.content c⟩ = some w) : w = c := by
  have hasking : ∀ (key : ByteStr) (value : Option ByteStr), 10 ∉ key →
      (value.getD []).length < 2 ^ 63 →
      readId inet ⟨«from», .asking c key value⟩ = some w → w = c := by
    intro key value hkey hvalue h
    cases hv : GTTParser.flagValue key with
    | none =>
      have hfirst : Packet.firstLine key = key := if_neg hkey
      rw [readId, Packet.received_refused inet «from» c key value (by rw [hfirst, hv])] at h
      cases h
    | some v =>
      rw [readId, Packet.received_asking inet «from» c key value hkey hv hvalue] at h
      cases value <;> exact (Option.some.inj h).symm
  cases q with
  | find count idToFind =>
    have hread := Packet.ofGTT_build (p := ⟨«from», .find c count idToFind⟩) trivial
      (Nat.two_pow_pos 31) inet
    simp only [Query.content, readId, received, hread.1, hread.2.1] at h
    exact (Option.some.inj h).symm
  | get key => exact hasking key none hq (Nat.two_pow_pos 63) h
  | store key value => exact hasking key (some value) hq.1 hq.2 h

theorem toInt32_toInt64_iff (c : Int64) : c.toInt32.toInt64 = c ↔ InInt c.toInt := by
  have hback : c.toInt32.toInt64.toInt = c.toInt.bmod (2 ^ 32) := by
    rw [Int32.toInt_toInt64, Int64.toInt_toInt32]
  constructor
  · intro h
    rw [h] at hback
    have hl := Int.le_bmod (x := c.toInt) (m := 2 ^ 32) (by decide)
    have hu := Int.bmod_lt (x := c.toInt) (m := 2 ^ 32) (by decide)
    rw [← hback] at hl hu
    exact ⟨by omega, by omega⟩
  · rintro ⟨hl, hu⟩
    refine Int64.toInt.inj ?_
    rw [hback]
    exact Int.bmod_eq_of_le (by omega) (by omega)

namespace InternalNode

theorem idsFrom_length_le {start : Int64} {k : Nat} (h : ∀ c ∈ idsFrom start k, InInt c.toInt) :
    k ≤ 2 ^ 64 := by
  by_contra hk
  have hmem : ∀ i, i < 2 ^ 64 → InInt (start + Int64.ofNat i).toInt := fun i hi =>
    h _ (List.mem_map.mpr ⟨i, List.mem_range.mpr (by omega), rfl⟩)
  have h0 := hmem 0 (by decide)
  have hlast := hmem (2 ^ 32) (by decide)
  have hz : start + Int64.ofNat 0 = start := by simp
  rw [hz] at h0
  have hadd : (start + Int64.ofNat (2 ^ 32)).toInt = start.toInt + 2 ^ 32 := by
    rw [Int64.toInt_add, Int64.toInt_ofNat_of_lt (by decide)]
    exact Int.bmod_eq_of_le (by have := h0.1; omega) (by have := h0.2; omega)
  have hl := h0.1
  have hu := hlast.2
  omega

theorem narrow_issued {log : List Output} (h : ∀ o ∈ log, o.Narrow) :
    ∀ c ∈ issued log, InInt c.toInt := fun c hc => by
  obtain ⟨o, ho, hoc⟩ := List.mem_filterMap.mp hc
  cases o with
  | query a d q =>
    cases hoc
    exact (h _ ho).1
  | _ => cases hoc

/-- What is registered is the id of a query of the actor it is registered for, and of no other
one's. -/
theorem registered_query {id : Id} {n2npId : N2NP.NodeId}
    {start : Int64} {ok : InternalNode → List Output → Event → Prop} {n : InternalNode}
    {log : List Output} (run : machine.Run ok (.new id n2npId start) n log)
    (hlog : (issued log).length ≤ 2 ^ 64) {c : Int64} {b : ActorId}
    (hc : n.processActors[c]? = some b) :
    c ∈ issued log ∧ ∀ a q, .query a c q ∈ log → a = b := by
  obtain ⟨-, hstep, hunique⟩ := registry_of_run run hlog
  have hgiven : (c, b) ∈ (registryOf log n).given := by
    have hpending := (hstep.exact c b).mp hc
    exact hstep.given b c (by simp [hpending])
  refine ⟨?_, fun a q hq => ?_⟩
  · rw [← map_fst_given]
    rw [registryOf, run_out rfl run, List.append_nil] at hgiven
    exact List.mem_map_of_mem hgiven
  · have hq' : (c, a) ∈ (registryOf log n).given :=
      List.mem_filterMap.mpr ⟨_, List.mem_append_left _ hq, rfl⟩
    exact hunique.owner hq' hgiven

/-- The id that is read of a query that arrives is the one it was registered under if that one is
an `int`, and only then. In a run in which all are, every query that is outstanding has an id of
its own on the wire, and an answer with that id is dispatched to the actor that has sent the query,
as long as it is outstanding, and to nobody else. -/
theorem echo_dispatched {id : Id} {n2npId : N2NP.NodeId}
    {start : Int64} {ok : InternalNode → List Output → Event → Prop} {n : InternalNode}
    {log : List Output} (run : machine.Run ok (.new id n2npId start) n log)
    (inet : Inet) :
    (∀ a c q, .query a c q ∈ log → q.Plain → ∀ w, readId inet ⟨id, q.content c.toInt32⟩ = some w →
      (w.toInt64 = c ↔ InInt c.toInt)) ∧
    ((∀ o ∈ log, o.Narrow) →
      (∀ a c q, .query a c q ∈ log → ∀ w, readId inet ⟨id, q.content c.toInt32⟩ = some w →
        w.toInt64 = c ∧ ∀ sender answer, answerId answer = w →
          (n.processActors[c]? = some a ∧ n.dispatchToProcessActor sender answer =
            n.post (.process a (.receive sender answer))) ∨
          (n.processActors[c]? = none ∧ n.dispatchToProcessActor sender answer = n)) ∧
      ∀ (c d : Int64) (a b : ActorId), n.processActors[c]? = some a →
        n.processActors[d]? = some b → c.toInt32 = d.toInt32 → c = d) := by
  refine ⟨fun a c q _ hq w hw => ?_, fun hall => ?_⟩
  · rw [readId_query hq hw]
    exact toInt32_toInt64_iff c
  · have hids := narrow_issued hall
    have hlog : (issued log).length ≤ 2 ^ 64 := by
      rw [issued_eq run] at hids
      exact idsFrom_length_le hids
    refine ⟨fun a c q hq w hw => ?_, fun c d a b hc hd hcd => ?_⟩
    · obtain ⟨hint, hplain⟩ := hall _ hq
      obtain rfl := readId_query hplain hw
      have hback := (toInt32_toInt64_iff c).mpr hint
      refine ⟨hback, fun sender answer hanswer => ?_⟩
      cases hc : n.processActors[c]? with
      | none => exact .inr ⟨rfl, by simp only [dispatchToProcessActor, hanswer, hback, hc]⟩
      | some b =>
        obtain rfl := (registered_query run hlog hc).2 a q hq
        exact .inl ⟨rfl, by simp only [dispatchToProcessActor, hanswer, hback, hc]⟩
    · have hc' := hids c (registered_query run hlog hc).1
      have hd' := hids d (registered_query run hlog hd).1
      rw [← (toInt32_toInt64_iff c).mpr hc', hcd, (toInt32_toInt64_iff d).mpr hd']

/-- The other query of `answered` is outstanding. -/
theorem echo_dispatched_answered :
    ∃ n log, machine.Run (fun _ _ _ => true)
        (.new (Peer.numbered 7).id (Peer.numbered 7).n2npId 0) n log ∧
      .query 5 1 (.find 5 .zero) ∈ log ∧ (∀ o ∈ log, o.Narrow) ∧
      ∀ w, readId .zero ⟨(Peer.numbered 7).id, (Query.find 5 .zero).content (1 : Int64).toInt32⟩ =
          some w →
        w.toInt64 = 1 ∧ ∀ sender answer, answerId answer = w →
          (n.processActors[(1 : Int64)]? = some 5 ∧ n.dispatchToProcessActor sender answer =
            n.post (.process 5 (.receive sender answer))) ∨
          (n.processActors[(1 : Int64)]? = none ∧ n.dispatchToProcessActor sender answer = n) := by
  have h : (machine.exec (fun _ _ _ => true)
      (.new (Peer.numbered 7).id (Peer.numbered 7).n2npId 0, []) answered).map
        (fun r => (decide (.query 5 1 (.find 5 .zero) ∈ r.2), decide (∀ o ∈ r.2, o.Narrow))) =
        some (true, true) := by
    decide +kernel
  obtain ⟨⟨n, log⟩, hrun, heq⟩ := Option.map_eq_some_iff.mp h
  obtain ⟨hq, hall⟩ : .query 5 1 (.find 5 .zero) ∈ log ∧ ∀ o ∈ log, o.Narrow := by
    simpa only [Prod.mk.injEq, decide_eq_true_eq] using heq
  have run := Machine.Run.exec .start hrun
  exact ⟨n, log, run, hq, hall, ((echo_dispatched run .zero).2 hall).1 5 1 _ hq⟩

/-- A node whose counter stands behind the last `int` sends a query; its answer finds nobody. -/
theorem echo_lost :
    ∃ n log, machine.Run (fun _ _ _ => True)
        (.new (Peer.numbered 7).id (Peer.numbered 7).n2npId 2147483648) n log ∧
      .query 5 2147483648 (.find 5 .zero) ∈ log ∧
      n.processActors[(2147483648 : Int64)]? = some 5 ∧
      readId .zero ⟨(Peer.numbered 7).id,
        (Query.find 5 .zero).content (2147483648 : Int64).toInt32⟩ = some (-2147483648) ∧
      ∀ sender answer, answerId answer = -2147483648 →
        n.dispatchToProcessActor sender answer = n := by
  have h : (machine.exec (fun _ _ _ => true)
      (.new (Peer.numbered 7).id (Peer.numbered 7).n2npId 2147483648, [])
      [.receive ⟨(Peer.numbered 1).id, .ping⟩ (Peer.numbered 1).n2npId 0, .findClosest 1 .zero]).map
        (fun r => (decide (.query 5 2147483648 (.find 5 .zero) ∈ r.2),
          r.1.processActors[(2147483648 : Int64)]?, r.1.processActors[(-2147483648 : Int64)]?)) =
        some (true, some 5, none) := by
    decide +kernel
  obtain ⟨⟨n, log⟩, hrun, heq⟩ := Option.map_eq_some_iff.mp h
  obtain ⟨hq, hregistered, hnone⟩ : .query 5 2147483648 (.find 5 .zero) ∈ log ∧
      n.processActors[(2147483648 : Int64)]? = some 5 ∧
      n.processActors[(-2147483648 : Int64)]? = none := by
    simpa only [Prod.mk.injEq, decide_eq_true_eq] using heq
  refine ⟨n, log, (Machine.Run.exec .start hrun).free, hq, hregistered,
    by decide +kernel, fun sender answer hanswer => ?_⟩
  have hback : (-2147483648 : Int32).toInt64 = -2147483648 := by decide
  simp only [dispatchToProcessActor, hanswer, hback, hnone]

end InternalNode
end Epyx.DHT
