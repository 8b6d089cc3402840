import Epyx.Lib.Machine
import Epyx.N2NP.Node
import Mathlib.Data.List.Perm.Basic

/-! What nodes put on the wire when they treat packets and their modules send nothing: one
acknowledgement or one error for a packet that is neither. -/
namespace Epyx.N2NP
open Lib

/-- An acknowledgement or an error. -/
def Packet.isReply (p : Packet) : Bool := p.method = lit "ACK" ∨ p.method = lit "ERR"

namespace Node
variable {μ : Type*}

/-- The packet a call of `send` gives to a socket, if it comes that far. -/
def emits (n : Node) (dest : NodeId) (method data : ByteStr) (store : Bool) : List Packet :=
  if (method ≠ lit "ID" ∧ ¬n.hasId) ∨ (store ∧ n.curId ∈ n.sentMap) ∨ n.select dest = none then []
  else [n.outgoing dest method data]

/-- What follows a call of the module. -/
def callReplies (module : NodeId → ByteStr → Node × μ → Option Exn × Node × μ) (pkt : Packet)
    (s : Node × μ) : List Packet :=
  let r := module pkt.from pkt.data s
  if r.1.all Exn.isMinor then
    r.2.1.emits pkt.from (lit "ACK") (Text.fromUnsignedLong pkt.pktID.toNat) false
  else []

/-- What `treat` gives to a socket besides what the module does, in the order of its tests. -/
def replies (modules : Modules μ) (pkt : Packet) (s : Node × μ) : List Packet :=
  let n := s.1
  if ¬n.hasId then []
  else if pkt.to.compare n.nodeid ≠ .eq then []
  else if pkt.isReply then []
  else
    let n := n.weigh pkt.from pkt.data
    match modules pkt.method with
    | none => n.emits pkt.from (lit "ERR") (Text.fromUnsignedLong pkt.pktID.toNat) false
    | some module => callReplies module pkt (n, s.2)

/-- The modules leave alone what is given to the sockets. -/
def Silent (modules : Modules μ) : Prop :=
  ∀ method module, modules method = some module →
    ∀ «from» data s, (module «from» data s).2.1.wires = s.1.wires

/-- What was given to the sockets. -/
def sentBytes (n : Node) : List ByteStr := n.wires.map Prod.snd

variable {net : SendCalls}

theorem send_sentBytes (n : Node) (dest : NodeId) (method data : ByteStr) (store : Bool) :
    (n.send net dest method data store).2.sentBytes =
      n.sentBytes ++ (n.emits dest method data store).map Packet.build := by
  have hpkt : (n.outgoing dest method data).pktID = n.curId := rfl
  unfold send emits
  by_cases hid : method ≠ lit "ID" ∧ ¬n.hasId
  · rw [if_pos hid, if_pos (.inl hid), List.map_nil, List.append_nil]
  · rw [if_neg hid]
    simp only [hpkt]
    by_cases hstore : store ∧ n.curId ∈ n.sentMap
    · rw [if_pos hstore, if_pos (.inr (.inl hstore)), List.map_nil, List.append_nil]
      rfl
    · rw [if_neg hstore]
      split
      · rename_i hnone
        have hnone : n.select dest = none := by
          cases store <;> exact hnone
        have hskip : (method ≠ lit "ID" ∧ ¬n.hasId) ∨ (store ∧ n.curId ∈ n.sentMap) ∨
            n.select dest = none := .inr (.inr hnone)
        rw [if_pos hskip, List.map_nil, List.append_nil]
        cases store <;> rfl
      · rename_i sock hsock
        have hsock : n.select dest = some sock := by
          cases store <;> exact hsock
        have hgo : ¬((method ≠ lit "ID" ∧ ¬n.hasId) ∨ (store ∧ n.curId ∈ n.sentMap) ∨
            n.select dest = none) := by
          rw [hsock, not_or, not_or]
          exact ⟨hid, hstore, Option.some_ne_none sock⟩
        rw [if_neg hgo]
        cases store <;> simp [write, sentBytes, weigh]

theorem setAddress_sentBytes (inet : Inet) (values : List ByteStr) (n : Node) :
    (setAddress inet values n).2.sentBytes = n.sentBytes := by
  induction values generalizing n with
  | nil => rfl
  | cons value values ih =>
    rw [setAddress]
    split
    · rfl
    · exact ih _

theorem callModule_sentBytes {module : NodeId → ByteStr → Node × μ → Option Exn × Node × μ}
    (hm : ∀ «from» data s, (module «from» data s).2.1.wires = s.1.wires) (pkt : Packet)
    (s : Node × μ) :
    (callModule net module pkt s).2.1.sentBytes =
      s.1.sentBytes ++ (callReplies module pkt s).map Packet.build := by
  have hwires := hm pkt.from pkt.data s
  unfold callModule callReplies
  rcases hr : module pkt.from pkt.data s with ⟨threw, n, m⟩
  rw [hr] at hwires
  have hbytes : s.1.sentBytes = n.sentBytes := congrArg (List.map Prod.snd) hwires.symm
  rw [hbytes]
  cases threw with
  | none => exact send_sentBytes n _ _ _ _
  | some e =>
    dsimp only [Option.all_some]
    split
    · exact send_sentBytes n _ _ _ _
    · rw [List.map_nil, List.append_nil]

/-- The bytes `treat` gives to the sockets are those of its replies. -/
theorem treat_sentBytes {modules : Modules μ} (hm : Silent modules) (inet : Inet) (pkt : Packet)
    (s : Node × μ) :
    (treat inet net modules pkt s).2.1.sentBytes =
      s.1.sentBytes ++ (replies modules pkt s).map Packet.build := by
  unfold treat replies
  dsimp only
  by_cases hid : s.1.hasId
  · rw [if_neg (not_not.mpr hid), if_neg (not_not.mpr hid)]
    by_cases hto : pkt.to.compare s.1.nodeid = .eq
    · rw [if_neg (not_not.mpr hto), if_neg (not_not.mpr hto)]
      by_cases hack : pkt.method = lit "ACK"
      · rw [if_pos hack, if_pos (by simp [Packet.isReply, hack]), List.map_nil, List.append_nil]
        split <;> rfl
      · rw [if_neg hack]
        by_cases herr : pkt.method = lit "ERR"
        · rw [if_pos herr, if_pos (by simp [Packet.isReply, herr]), List.map_nil, List.append_nil]
        · rw [if_neg herr, if_neg (by simp [Packet.isReply, hack, herr])]
          cases hmod : modules pkt.method with
          | none => exact send_sentBytes _ _ _ _ _
          | some module => exact callModule_sentBytes (hm _ _ hmod) pkt _
    · rw [if_pos hto, if_pos hto, List.map_nil, List.append_nil]
  · rw [if_pos hid, if_pos hid, List.map_nil, List.append_nil]
    split
    · rfl
    · exact setAddress_sentBytes inet _ _

/-- Nothing is sent, or one packet. -/
theorem emits_cases (n : Node) (dest : NodeId) (method data : ByteStr) (store : Bool) :
    n.emits dest method data store = [] ∨
      n.emits dest method data store = [n.outgoing dest method data] := by
  unfold emits
  split
  · exact .inl rfl
  · exact .inr rfl

/-- A packet is replied to once or not at all, and a reply is not. -/
theorem replies_cases (modules : Modules μ) (pkt : Packet) (s : Node × μ) :
    replies modules pkt s = [] ∨
      pkt.isReply = false ∧ ∃ reply, replies modules pkt s = [reply] ∧ reply.isReply := by
  have hone : ∀ (n : Node) (method : ByteStr), method = lit "ACK" ∨ method = lit "ERR" →
      ∀ dest data, n.emits dest method data false = [] ∨
        ∃ reply, n.emits dest method data false = [reply] ∧ reply.isReply := by
    intro n method hmethod dest data
    refine (emits_cases n dest method data false).imp_right fun h => ⟨_, h, ?_⟩
    exact decide_eq_true hmethod
  unfold replies
  dsimp only
  split
  · exact .inl rfl
  · split
    · exact .inl rfl
    · split
      · exact .inl rfl
      · rename_i hreply
        have hpkt := Bool.eq_false_iff.mpr hreply
        split
        · exact (hone _ _ (.inr rfl) _ _).imp_right fun h => ⟨hpkt, h⟩
        · unfold callReplies
          dsimp only
          split
          · exact (hone _ _ (.inl rfl) _ _).imp_right fun h => ⟨hpkt, h⟩
          · exact .inl rfl

end Node

/-! ### Any number of nodes -/

namespace Quiet
variable {ι μ : Type*} [DecidableEq ι]

/-- The nodes with their modules' states, and the packets in flight. -/
structure State (ι μ : Type*) where
  node : ι → Node × μ
  flight : List Packet

/-- A packet in flight comes to a node, or is lost. -/
inductive Event (ι : Type*) where
  | deliver (i : ι) (k : Nat)
  | lose (k : Nat)

/-- What a node sends is in flight as it will be read; the log says who has sent it. -/
def machine (inet : Inet) (net : ι → SendCalls) (modules : ι → Modules μ) :
    Machine (State ι μ) (Event ι) (ι × Packet) where
  step s
    | .deliver i k =>
      s.flight[k]?.map fun pkt =>
        let sent := Node.replies (modules i) pkt (s.node i)
        (⟨Function.update s.node i (Node.treat inet (net i) (modules i) pkt (s.node i)).2,
          s.flight.eraseIdx k ++ sent.map Packet.carried⟩, sent.map (i, ·))
    | .lose k => s.flight[k]?.map fun _ => (⟨s.node, s.flight.eraseIdx k⟩, [])

/-- How many packets in flight are not replies. -/
def answerable (flight : List Packet) : Nat := flight.countP fun p => !p.isReply

theorem answerable_eraseIdx {flight : List Packet} {k : Nat} {pkt : Packet}
    (h : flight[k]? = some pkt) :
    answerable flight = answerable (flight.eraseIdx k) + if pkt.isReply then 0 else 1 := by
  obtain ⟨hlt, rfl⟩ := List.getElem?_eq_some_iff.mp h
  have hperm := (List.getElem_cons_eraseIdx_perm hlt).countP_eq fun p => !p.isReply
  rw [List.countP_cons] at hperm
  rw [answerable, ← hperm, answerable]
  cases flight[k].isReply <;> rfl

/-- Replies that are in flight add nothing. -/
theorem answerable_append {flight sent : List Packet} (h : ∀ p ∈ sent, p.isReply) :
    answerable (flight ++ sent.map Packet.carried) = answerable flight := by
  have hnone : (sent.map Packet.carried).countP (fun p => !p.isReply) = 0 := by
    refine List.countP_eq_zero.mpr fun p hp => ?_
    obtain ⟨q, hq, rfl⟩ := List.mem_map.mp hp
    have hreply : q.carried.isReply = q.isReply := rfl
    simp [hreply, h q hq]
  rw [answerable, List.countP_append, hnone]
  rfl

variable {inet : Inet} {net : ι → SendCalls} {modules : ι → Modules μ} {s s' : State ι μ}

/-- What a step puts on the wire is a reply, and uses up a packet that is none. -/
theorem step_answerable {e : Event ι} {out : List (ι × Packet)}
    (hs : (machine inet net modules).step s e = some (s', out)) :
    (∀ x ∈ out, x.2.isReply) ∧ out.length + answerable s'.flight ≤ answerable s.flight := by
  cases e with
  | deliver i k =>
    obtain ⟨pkt, hk, heq⟩ := Option.map_eq_some_iff.mp hs
    have herase := answerable_eraseIdx hk
    rcases Node.replies_cases (modules i) pkt (s.node i) with hnone | ⟨hpkt, reply, hone, hreply⟩
    · rw [hnone] at heq
      cases heq
      refine ⟨by simp, ?_⟩
      simp only [List.map_nil, List.append_nil, List.length_nil]
      omega
    · rw [hone] at heq
      cases heq
      refine ⟨by simpa using hreply, ?_⟩
      rw [answerable_append (by simpa using hreply), herase, hpkt]
      simp [Nat.add_comm]
  | lose k =>
    obtain ⟨pkt, hk, heq⟩ := Option.map_eq_some_iff.mp hs
    have herase := answerable_eraseIdx hk
    cases heq
    refine ⟨by simp, ?_⟩
    simp only [List.length_nil]
    omega

/-- Nodes whose modules send nothing put at most one packet on the wire for each one they treat, an
acknowledgement or an error, and none for these. However the packets in flight are delivered, no
more will be put on the wire than there are packets in flight that are neither. -/
theorem replies_le (hm : ∀ i, Node.Silent (modules i)) :
    (∀ i pkt (s : Node × μ),
      (Node.treat inet (net i) (modules i) pkt s).2.1.sentBytes =
        s.1.sentBytes ++ (Node.replies (modules i) pkt s).map Packet.build ∧
      (Node.replies (modules i) pkt s).length ≤ 1 ∧
      (pkt.isReply → Node.replies (modules i) pkt s = []) ∧
      ∀ reply ∈ Node.replies (modules i) pkt s, reply.isReply) ∧
    ∀ (s₀ s : State ι μ) log, (machine inet net modules).Run (fun _ _ _ => True) s₀ s log →
      (∀ x ∈ log, x.2.isReply) ∧ log.length ≤ answerable s₀.flight := by
  refine ⟨fun i pkt s => ⟨Node.treat_sentBytes (hm i) inet pkt s, ?_⟩, fun s₀ s log run => ?_⟩
  · rcases Node.replies_cases (modules i) pkt s with hnone | ⟨hpkt, reply, hone, hreply⟩
    · simp [hnone]
    · simp [hone, hpkt, hreply]
  · have h := run.invariant
      (P := fun s log => (∀ x ∈ log, x.2.isReply) ∧
        log.length + answerable s.flight ≤ answerable s₀.flight) ⟨by simp, by simp⟩ <| by
      intro s log e s' out h _ taken
      obtain ⟨hout, hle⟩ := step_answerable taken
      refine ⟨fun x hx => (List.mem_append.mp hx).elim (h.1 x) (hout x), ?_⟩
      have hsum := h.2
      rw [List.length_append]
      omega
    exact ⟨h.1, Nat.le_of_add_right_le h.2⟩

/-- A packet with a method that nobody knows goes from one node to another: the error that comes
back is the end of it. -/
theorem replies_le_error :
    let ids (i : Bool) : NodeId := ⟨if i then lit "2-10.0.0.8:40000" else lit "self", Relay.home⟩
    let node (i : Bool) : Node × Unit :=
      (⟨⟨3, Relay.home⟩, ids i, true, .unset, ∅, 1, ∅, ∅, 0, []⟩, ())
    let pkt : Packet := { Packet.new (lit "X") [] with «from» := ids false, «to» := ids true }
    ∃ s log, (machine Inet.zero (fun _ _ n => .ok n) fun _ _ => none).Run (fun _ _ _ => True)
        ⟨node, [pkt]⟩ s log ∧ s.flight = [] ∧ log.map (fun x => (x.1, x.2.method)) =
          [(true, lit "ERR")] ∧ log.length ≤ answerable [pkt] := by
  intro ids node pkt
  have h : ((machine Inet.zero (fun _ _ n => .ok n) fun _ _ => none).exec (fun _ _ _ => true)
      (⟨node, [pkt]⟩, []) [.deliver true 0, .deliver false 0]).map
        (fun r => (r.1.flight, r.2.map fun x => (x.1, x.2.method))) =
      some ([], [(true, lit "ERR")]) := by decide +kernel
  obtain ⟨⟨s, log⟩, hexec, heq⟩ := Option.map_eq_some_iff.mp h
  obtain ⟨hflight, hlog⟩ := Prod.mk.inj heq
  have run := (Machine.Run.exec .start hexec).free
  have hsilent : ∀ i : Bool, Node.Silent ((fun _ _ => none : Bool → Modules Unit) i) := by
    simp [Node.Silent]
  exact ⟨s, log, run, hflight, hlog, ((replies_le hsilent).2 _ s log run).2⟩

end Quiet
end Epyx.N2NP
