import Epyx.Lib.Machine
import Epyx.N2NP.Node
import Mathlib.Logic.Relation

/-! Several nodes over a network, and the record of what each of them sends, passes to a module and
acknowledges. -/
namespace Epyx.N2NP
open Lib
open Std (ExtTreeMap)

namespace Node

def offerDirectConn (n : Node) (recipient : NodeId) (sock : Option Conn) : Node :=
  { n with directSockets := n.directSockets.insert recipient sock }

/-- What a program or a module calls on a node. -/
inductive Call where
  | send (dest : NodeId) (method data : ByteStr) (store : Bool)
  | offerDirectConn (recipient : NodeId) (sock : Option Conn)
  deriving DecidableEq

/-- What a node has done: a packet was sent, or given to a module; an acknowledgement was sent for
a packet, or took an id out of `sentMap`. -/
inductive Record where
  | sent (pkt : Packet) (store : Bool)
  | passed (pkt : Packet)
  | acknowledged (pkt ack : Packet)
  | acked (ack : Packet) (id : UInt64)
  deriving DecidableEq

/-- `send` makes a packet and keeps it if it is to be stored. -/
def sends (n : Node) (method : ByteStr) (store : Bool) : Bool :=
  (method = lit "ID" ∨ n.hasId) ∧ ¬(store ∧ n.curId ∈ n.sentMap)

variable (net : SendCalls)

def Call.run (n : Node) : Call → Node × List Record
  | .send dest method data store =>
    ((n.send net dest method data store).2,
      if n.sends method store then [.sent (n.outgoing dest method data) store] else [])
  | .offerDirectConn recipient sock => (n.offerDirectConn recipient sock, [])

def runCalls (n : Node) : List Call → Node × List Record
  | [] => (n, [])
  | c :: cs =>
    let r := c.run net n
    let t := runCalls r.1 cs
    (t.1, r.2 ++ t.2)

/-- What a module does with one packet: the calls on the node, with those that other threads make
meanwhile, and what it throws. -/
structure Behaviour where
  calls : List Call
  threw : Option Exn
  deriving DecidableEq

def Behaviour.fromN2NP (b : Behaviour) (_ : NodeId) (_ : ByteStr) (s : Node × Unit) :
    Option Exn × Node × Unit :=
  (b.threw, (runCalls net s.1 b.calls).1, ())

/-- The packet with which `sendAck` answers another one. -/
def acknowledgement (n : Node) (pkt : Packet) : Packet :=
  n.outgoing pkt.from (lit "ACK") (Text.fromUnsignedLong pkt.pktID.toNat)

/-- What `treat` does with a packet, in the order of its tests. -/
def treatRecords (n : Node) (pkt : Packet) (module : Option Behaviour) : List Record :=
  if ¬n.hasId then []
  else if pkt.to.compare n.nodeid ≠ .eq then []
  else if pkt.method = lit "ACK" then
    match Text.toULong pkt.data with
    | .error _ => []
    | .ok idAcked => [.acked pkt (UInt64.ofNat idAcked)]
  else if pkt.method = lit "ERR" then []
  else
    let n := n.weigh pkt.from pkt.data
    match module with
    | none =>
      (Call.run net n
        (.send pkt.from (lit "ERR") (Text.fromUnsignedLong pkt.pktID.toNat) false)).2
    | some b =>
      let r := runCalls net n b.calls
      .passed pkt :: r.2 ++
        if b.threw.all Exn.isMinor ∧ r.1.sends (lit "ACK") false then
          [.acknowledged pkt (r.1.acknowledgement pkt), .sent (r.1.acknowledgement pkt) false]
        else []

/-- The members of a node when its constructor has connected it. -/
def blank (sock : Conn) : Node := ⟨sock, .unset, false, .unset, ∅, 0, ∅, ∅, 0, []⟩

/-- The request for an id that the constructor sends. -/
def request (sock : Conn) : Packet := (blank sock).outgoing ⟨[], sock.address⟩ (lit "ID") []

/-- `Node::Node(addr)`, which has connected `sock` to the address: there is no node if the request
for an id throws. -/
@[irreducible] def create (sock : Conn) : Option Node :=
  let r := (blank sock).send net ⟨[], sock.address⟩ (lit "ID") [] true
  r.1.toOption.map fun _ => r.2

/-- What happens at a node: it is made, called, or given a packet that it has read; the module
bound to the method of the packet at that time, if there is one, is part of the event. -/
inductive Event where
  | create (sock : Conn)
  | call (c : Call)
  | receive (pkt : Packet) (module : Option Behaviour)

def machine (inet : Inet) : Machine (Option Node) Event Record where
  step
    | none, .create sock => (create net sock).map fun n => (some n, [.sent (request sock) true])
    | some n, .call c =>
      let r := c.run net n
      some (some r.1, r.2)
    | some n, .receive pkt module =>
      some (some (treat inet net (fun _ => module.map (Behaviour.fromN2NP net)) pkt (n, ())).2.1,
        n.treatRecords net pkt module)
    | _, _ => none

/-- A packet that N2NP can carry comes to `treat` as it is read, out of the bytes it was built
into. -/
theorem eat_build {μ : Type*} (inet : Inet) (modules : Modules μ) {p : Packet} (hp : p.Legal)
    {parser : GTTParser} (hparser : parser = GTTParser.fresh ∨ parser = GTTParser.waiting)
    {s s' : Node × μ} (ht : treat inet net modules p.carried s = (none, s')) :
    eat inet net modules p.build (parser, s) = (none, GTTParser.waiting, s') := by
  have hwf : ∀ g ∈ [p.toGTT], g.WellFormed := by simpa using hp.toGTT_wellFormed
  have hbytes : p.build = [p.toGTT].flatMap GTTPacket.build := by simp [Packet.build]
  rw [eat, hbytes]
  refine NetSelectSocket.eatWith_build hparser hwf ?_
  simp only [GTTParser.treatAll, treatPacket, hp.ofGTT_toGTT inet, ht]

/-! ### The part of a node that matters here -/

/-- Who a node is, the next id and the packets that are kept. -/
structure Book where
  nodeid : NodeId
  hasId : Bool
  curId : UInt64
  sentMap : ExtTreeMap UInt64 Packet

def book (n : Node) : Book := ⟨n.nodeid, n.hasId, n.curId, n.sentMap⟩

@[simp] theorem offerDirectConn_book (n : Node) (recipient : NodeId) (sock : Option Conn) :
    (n.offerDirectConn recipient sock).book = n.book := rfl

theorem setAddress_book (inet : Inet) (values : List ByteStr) (n : Node) :
    (setAddress inet values n).2.book = n.book := by
  induction values generalizing n with
  | nil => rfl
  | cons value values ih =>
    rw [setAddress]
    split
    · rfl
    · exact ih _

/-- The book of a node that has sent a packet. -/
def Book.send (b : Book) (pkt : Packet) (store : Bool) : Book :=
  { b with
    curId := b.curId + 1
    sentMap := if store then b.sentMap.insert b.curId pkt else b.sentMap }

theorem send_book (n : Node) (dest : NodeId) (method data : ByteStr) {store : Bool}
    (h : n.sends method store) :
    (n.send net dest method data store).2.book =
      n.book.send (n.outgoing dest method data) store := by
  obtain ⟨hid, hfree⟩ := of_decide_eq_true h
  have hno : ¬(method ≠ lit "ID" ∧ ¬n.hasId) := fun h => hid.elim h.1 h.2
  have hpkt : (n.outgoing dest method data).pktID = n.curId := rfl
  unfold send
  rw [if_neg hno]
  simp only [hpkt]
  rw [if_neg hfree]
  split <;> cases store <;> rfl

/-- Where `send` makes no packet, it keeps none; it may have counted. -/
theorem send_book_refused (n : Node) (dest : NodeId) (method data : ByteStr) {store : Bool}
    (h : n.sends method store = false) :
    (n.send net dest method data store).2.book = n.book ∨
      n.curId ∈ n.sentMap ∧
        (n.send net dest method data store).2.book = { n.book with curId := n.curId + 1 } := by
  have hpkt : (n.outgoing dest method data).pktID = n.curId := rfl
  unfold send
  by_cases hno : method ≠ lit "ID" ∧ ¬n.hasId
  · rw [if_pos hno]
    exact .inl rfl
  · have hid : method = lit "ID" ∨ n.hasId := by
      by_contra hc
      rw [not_or] at hc
      exact hno hc
    have hused : store ∧ n.curId ∈ n.sentMap := by
      by_contra hc
      exact of_decide_eq_false h ⟨hid, hc⟩
    rw [if_neg hno]
    simp only [hpkt]
    rw [if_pos hused]
    exact .inr ⟨hused.2, rfl⟩

theorem create_book {net : SendCalls} {sock : Conn} {n : Node} (h : create net sock = some n) :
    n.book = (blank sock).book.send (request sock) true := by
  have hbook := send_book net (blank sock) ⟨[], sock.address⟩ (lit "ID") []
    (show (blank sock).sends (lit "ID") true by simp [sends, blank])
  unfold create at h
  rw [Option.map_eq_some_iff] at h
  obtain ⟨sent, -, rfl⟩ := h
  exact hbook

theorem machine_create (net : SendCalls) (inet : Inet) (sock : Conn) :
    (machine net inet).step none (.create sock) =
      (create net sock).map fun n => (some n, [.sent (request sock) true]) := rfl

/-! ### What a step can do -/

/-- What can happen to the book of a node and to its record; `d` is the packet it was given. -/
inductive Move (d : Option Packet) : Book × List Record → Book × List Record → Prop
  | count {b log} (h : b.curId ∈ b.sentMap) : Move d (b, log) ({ b with curId := b.curId + 1 }, log)
  | send {b log} (pkt : Packet) (store : Bool) (hid : pkt.pktID = b.curId)
      (hfrom : pkt.from = b.nodeid) (hm : pkt.method ≠ lit "ACK") :
      Move d (b, log) (b.send pkt store, log ++ [.sent pkt store])
  | reply {b log} (pkt ack : Packet) (hpassed : .passed pkt ∈ log) (hid : ack.pktID = b.curId)
      (hfrom : ack.from = b.nodeid) (hto : ack.to = pkt.from)
      (hdata : ack.data = Text.fromUnsignedLong pkt.pktID.toNat) :
      Move d (b, log) (b.send ack false, log ++ [.acknowledged pkt ack, .sent ack false])
  | pass {b log} (pkt : Packet) (hd : d = some pkt) (hid : b.hasId) (hto : pkt.to = b.nodeid) :
      Move d (b, log) (b, log ++ [.passed pkt])
  | identify {b log} (pkt : Packet) (hd : d = some pkt) (h : ¬b.hasId) :
      Move d (b, log) ({ b with nodeid := pkt.to, hasId := true }, log)
  | ack {b log} (pkt : Packet) (id : Nat) (hd : d = some pkt) (hid : b.hasId)
      (hto : pkt.to = b.nodeid) (hm : pkt.method = lit "ACK")
      (hdata : Text.toULong pkt.data = .ok id) :
      Move d (b, log) ({ b with sentMap := b.sentMap.erase (UInt64.ofNat id) },
        log ++ [.acked pkt (UInt64.ofNat id)])

abbrev Moves (d : Option Packet) : Book × List Record → Book × List Record → Prop :=
  Relation.ReflTransGen (Move d)

/-- The acknowledgements are sent by `treat` only. -/
def Call.Plain : Call → Prop
  | .send _ method _ _ => method ≠ lit "ACK"
  | .offerDirectConn _ _ => True

instance : (c : Call) → Decidable c.Plain
  | .send _ method _ _ => inferInstanceAs (Decidable (method ≠ _))
  | .offerDirectConn _ _ => inferInstanceAs (Decidable True)

variable {net : SendCalls} {d : Option Packet}

theorem call_moves {c : Call} (hc : c.Plain) (n : Node) (log : List Record) :
    Moves d (n.book, log) ((c.run net n).1.book, log ++ (c.run net n).2) := by
  cases c with
  | send dest method data store =>
    rw [Call.run]
    cases hs : n.sends method store with
    | true =>
      rw [if_pos rfl, send_book net n dest method data hs]
      exact .single (.send _ store rfl rfl hc)
    | false =>
      rw [if_neg Bool.false_ne_true, List.append_nil]
      rcases send_book_refused net n dest method data hs with heq | ⟨hused, heq⟩
      · rw [heq]
      · rw [heq]
        exact .single (.count hused)
  | offerDirectConn recipient sock =>
    rw [Call.run, offerDirectConn_book, List.append_nil]

theorem runCalls_moves {cs : List Call} (hcs : ∀ c ∈ cs, c.Plain) (n : Node) (log : List Record) :
    Moves d (n.book, log) ((runCalls net n cs).1.book, log ++ (runCalls net n cs).2) := by
  induction cs generalizing n log with
  | nil => rw [runCalls, List.append_nil]
  | cons c cs ih =>
    have hfirst : Moves d (n.book, log) ((c.run net n).1.book, log ++ (c.run net n).2) :=
      call_moves (hcs c (List.mem_cons_self ..)) n log
    rw [runCalls, ← List.append_assoc]
    exact hfirst.trans (ih (fun c hc => hcs c (List.mem_cons_of_mem _ hc)) _ _)

/-- The acknowledgement of a packet that was passed on. -/
theorem sendAck_moves (n : Node) {pkt : Packet} {log : List Record} (h : .passed pkt ∈ log) :
    Moves d (n.book, log) ((n.sendAck net pkt).2.book, log ++
      if n.sends (lit "ACK") false then
        [.acknowledged pkt (n.acknowledgement pkt), .sent (n.acknowledgement pkt) false]
      else []) := by
  rw [sendAck]
  cases hs : n.sends (lit "ACK") false with
  | true =>
    rw [if_pos rfl, send_book net n _ _ _ hs]
    exact .single (.reply pkt (n.acknowledgement pkt) h rfl rfl rfl rfl)
  | false =>
    rw [if_neg Bool.false_ne_true, List.append_nil]
    rcases send_book_refused net n pkt.from (lit "ACK")
      (Text.fromUnsignedLong pkt.pktID.toNat) hs with heq | ⟨hused, heq⟩
    · rw [heq]
    · rw [heq]
      exact .single (.count hused)

theorem callModule_book (b : Behaviour) (pkt : Packet) (n : Node) :
    (callModule net (Behaviour.fromN2NP net b) pkt (n, ())).2.1.book =
      if b.threw.all Exn.isMinor then ((runCalls net n b.calls).1.sendAck net pkt).2.book
      else (runCalls net n b.calls).1.book := by
  unfold callModule Behaviour.fromN2NP
  cases b.threw with
  | none => rfl
  | some e => cases he : e.isMinor <;> simp [he]

/-- A packet for a module: it is passed on, the module makes its calls, and unless what it throws
ends the thread the packet is acknowledged. -/
theorem passed_moves {b : Behaviour} (hcs : ∀ c ∈ b.calls, c.Plain) {n : Node} {pkt : Packet}
    (hid : n.hasId) (hto : pkt.to = n.nodeid) (log : List Record) :
    let m := n.weigh pkt.from pkt.data
    let r := runCalls net m b.calls
    Moves (some pkt) (n.book, log)
      ((callModule net (Behaviour.fromN2NP net b) pkt (m, ())).2.1.book,
        log ++ (.passed pkt :: r.2 ++
          if b.threw.all Exn.isMinor ∧ r.1.sends (lit "ACK") false then
            [.acknowledged pkt (r.1.acknowledgement pkt), .sent (r.1.acknowledgement pkt) false]
          else [])) := by
  intro m r
  have hpass : Moves (some pkt) (n.book, log) (m.book, log ++ [.passed pkt]) :=
    .single (.pass pkt rfl hid hto)
  have hcalls : Moves (some pkt) (n.book, log) (r.1.book, log ++ [.passed pkt] ++ r.2) :=
    hpass.trans (runCalls_moves hcs m (log ++ [.passed pkt]))
  have hlog : ∀ out, log ++ (.passed pkt :: r.2 ++ out) = (log ++ [.passed pkt] ++ r.2) ++ out := by
    simp
  rw [callModule_book, hlog]
  cases b.threw.all Exn.isMinor with
  | true =>
    simp only [if_true, true_and]
    exact hcalls.trans (sendAck_moves r.1 (by simp))
  | false =>
    simp only [Bool.false_eq_true, if_false, false_and, List.append_nil]
    exact hcalls

theorem treat_moves {inet : Inet} {pkt : Packet} {module : Option Behaviour}
    (hcs : ∀ b ∈ module, ∀ c ∈ b.calls, c.Plain) (n : Node) (log : List Record) :
    Moves (some pkt) (n.book, log)
      ((treat inet net (fun _ => module.map (Behaviour.fromN2NP net)) pkt (n, ())).2.1.book,
        log ++ n.treatRecords net pkt module) := by
  unfold treat treatRecords
  dsimp only
  by_cases hid : n.hasId
  · rw [if_neg (not_not.mpr hid), if_neg (not_not.mpr hid)]
    by_cases hto : pkt.to.compare n.nodeid = .eq
    · rw [if_neg (not_not.mpr hto), if_neg (not_not.mpr hto)]
      have hto := NodeId.compare_eq_iff.mp hto
      by_cases hack : pkt.method = lit "ACK"
      · rw [if_pos hack, if_pos hack]
        cases hdata : Text.toULong pkt.data with
        | error e => rw [List.append_nil]
        | ok id => exact .single (.ack pkt id rfl hid hto hack hdata)
      · rw [if_neg hack, if_neg hack]
        by_cases herr : pkt.method = lit "ERR"
        · rw [if_pos herr, if_pos herr, List.append_nil]
        · rw [if_neg herr, if_neg herr]
          cases module with
          | none =>
            have hplain : (Call.send pkt.from (lit "ERR")
                (Text.fromUnsignedLong pkt.pktID.toNat) false).Plain :=
              show lit "ERR" ≠ lit "ACK" by decide
            exact call_moves hplain (n.weigh pkt.from pkt.data) log
          | some b =>
            exact passed_moves (hcs b rfl) hid hto log
    · rw [if_pos hto, if_pos hto, List.append_nil]
  · rw [if_pos hid, if_pos hid, List.append_nil]
    by_cases hm : pkt.method = lit "ID"
    · rw [if_neg (not_not.mpr hm)]
      have hbook := setAddress_book inet (ipLines pkt.data)
        { n with nodeid := pkt.to, hasId := true }
      exact hbook ▸ .single (.identify pkt rfl hid)
    · rw [if_pos hm]

def bookOf : Option Node → Book
  | none => ⟨.unset, false, 0, ∅⟩
  | some n => n.book

def Event.packet : Event → Option Packet
  | .receive pkt _ => some pkt
  | _ => none

def Event.calls : Event → List Call
  | .create _ => []
  | .call c => [c]
  | .receive _ module => (module.map Behaviour.calls).getD []

theorem step_moves {inet : Inet} {e : Event} (hcs : ∀ c ∈ e.calls, c.Plain) {s s' : Option Node}
    {out : List Record} (hs : (machine net inet).step s e = some (s', out)) (log : List Record) :
    Moves e.packet (bookOf s, log) (bookOf s', log ++ out) := by
  cases s with
  | none =>
    cases e with
    | create sock =>
      have hm : lit "ID" ≠ lit "ACK" := by decide
      rw [machine_create, Option.map_eq_some_iff] at hs
      obtain ⟨n, hn, heq⟩ := hs
      cases heq
      rw [bookOf, bookOf, create_book hn]
      exact .single (.send (request sock) true rfl rfl hm)
    | call c => cases hs
    | receive pkt module => cases hs
  | some n =>
    cases e with
    | create sock => cases hs
    | call c =>
      cases hs
      exact call_moves (hcs c (List.mem_singleton_self c)) n log
    | receive pkt module =>
      cases hs
      refine treat_moves (fun b hb c hc => hcs c ?_) n log
      rw [Option.mem_def] at hb
      simpa [Event.calls, hb] using hc

end Node
end Epyx.N2NP
