import Epyx.Lib.Machine
import Epyx.Lib.TreeMap
import Epyx.N2NP.Relay

/-! The names a relay gives to its nodes, over every sequence of calls: no name is given twice, and
what is sent to a name goes to the socket that has it. -/
namespace Epyx.N2NP
open Lib
open Std (ExtTreeMap)

namespace Relay

/-! ### One name -/

theorem nodeName_noNul (number : UInt64) {sock : Conn} (h : sock.address.IsText) :
    0 ∉ nodeName number sock := by
  have hdigits : 0 ∉ Text.fromUnsignedLong number.toNat := fun h0 =>
    absurd (Decimal.digits_isDigit h0) (by decide)
  have hdash : 0 ∉ lit "-" := by decide
  unfold nodeName
  split
  · decide
  · simp [hdigits, hdash, h.print]

/-- A name tells the number it was made from. -/
theorem nodeName_digits (number : UInt64) (sock : Conn) :
    (nodeName number sock).takeWhile Decimal.isDigit =
      if number = 1 then [] else Decimal.digits number.toNat := by
  unfold nodeName
  split
  · decide
  · rw [List.append_assoc]
    exact Decimal.takeWhile_digits _ _ fun c hc => by cases hc; decide

theorem nodeName_injective {m n : UInt64} {s t : Conn} (h : nodeName m s = nodeName n t) :
    m = n := by
  have hd := congrArg (List.takeWhile Decimal.isDigit) h
  rw [nodeName_digits, nodeName_digits] at hd
  split at hd
  · rename_i hm
    split at hd
    · rename_i hn
      rw [hm, hn]
    · exact absurd hd.symm (Decimal.digits_ne_nil _)
  · split at hd
    · exact absurd hd (Decimal.digits_ne_nil _)
    · exact UInt64.toNat_inj.mp (Decimal.digits_injective hd)

/-! ### The calls -/

/-- What is called on a relay. -/
inductive Call where
  | attachNode (sock : Conn)
  | detachNode (nodeid : NodeId)
  | detachAllNodes
  | treat (pkt : Packet)
  deriving DecidableEq

def Call.socket : Call → Option Conn
  | .attachNode sock => some sock
  | _ => none

/-- What the calls have done: an id was made for a socket, and either returned or lost to an
exception; ids were taken back; a packet was written. -/
inductive Deed where
  | attached (nodeid : NodeId) (sock : Conn) (result : Except Exn Bool)
  | detached (nodeid : NodeId)
  | detachedAll
  | wrote (pkt : Packet) (target : Target) (bytes : ByteStr)
  deriving DecidableEq

def machine (send : SendCalls) : Machine (Relay × Nat) Call Deed where
  step s
    | .attachNode sock =>
      let r := s.1.attachNode send sock s.2
      some ((r.1, r.2.2.calls), [.attached r.2.1 sock r.2.2.result])
    | .detachNode nodeid => some (((s.1.detachNode nodeid).1, s.2), [.detached nodeid])
    | .detachAllNodes => some ((s.1.detachAllNodes, s.2), [.detachedAll])
    | .treat pkt => some (s, (s.1.treat pkt).toList.map fun r => .wrote pkt r.1 r.2)

def Deed.made : Deed → Option NodeId
  | .attached nodeid _ _ => some nodeid
  | _ => none

/-- The id was made for the socket, with this result, and has not been taken back since. -/
def Holds (log : List Deed) (nodeid : NodeId) (sock : Conn) (result : Except Exn Bool) : Prop :=
  ∃ l₁ l₂, log = l₁ ++ .attached nodeid sock result :: l₂ ∧
    .detached nodeid ∉ l₂ ∧ .detachedAll ∉ l₂

/-- The sockets are those of peers with an address. -/
def Peers (_ : Relay × Nat) (_ : List Deed) (c : Call) : Prop :=
  ∀ sock ∈ c.socket, sock.address.IsText

instance (s : Relay × Nat) (log : List Deed) (c : Call) : Decidable (Peers s log c) :=
  inferInstanceAs (Decidable (∀ sock ∈ c.socket, sock.address.IsText))

theorem Holds.append {log out : List Deed} {nodeid : NodeId} {sock : Conn}
    {result : Except Exn Bool} (h : Holds log nodeid sock result) (hid : .detached nodeid ∉ out)
    (hall : .detachedAll ∉ out) : Holds (log ++ out) nodeid sock result := by
  obtain ⟨l₁, l₂, rfl, h1, h2⟩ := h
  refine ⟨l₁, l₂ ++ out, by simp, ?_, ?_⟩
  · simp [h1, hid]
  · simp [h2, hall]

theorem Holds.mem {log : List Deed} {nodeid : NodeId} {sock : Conn} {result : Except Exn Bool}
    (h : Holds log nodeid sock result) : .attached nodeid sock result ∈ log := by
  obtain ⟨l₁, l₂, rfl, -⟩ := h
  simp

def ids (log : List Deed) : List NodeId := log.filterMap Deed.made

theorem ids_append (log out : List Deed) : ids (log ++ out) = ids log ++ ids out :=
  List.filterMap_append

/-- What is known of a relay and of what was called on it. -/
structure Kept (addr : SockAddress) (s : Relay × Nat) (log : List Deed) : Prop where
  relayAddr : s.1.relayAddr = addr
  next : s.1.nodeNextId = 1 + UInt64.ofNat (ids log).length
  made : ∀ (k : Nat) (id : NodeId), (ids log)[k]? = some id →
    ∃ sock, id = ⟨nodeName (1 + UInt64.ofNat k) sock, addr⟩
  entries : ∀ (name : ByteStr) (info : NodeInfo), s.1.nodes[name]? = some info →
    ∃ result, Holds log ⟨name, addr⟩ info.sock result

theorem Kept.start (addr : SockAddress) : Kept addr (Relay.new addr, 0) [] where
  relayAddr := rfl
  next := rfl
  made := by simp [ids]
  entries := by simp [Relay.new]

/-- A call that makes no id leaves the ids as they are. -/
theorem Kept.quiet {addr : SockAddress} {s s' : Relay × Nat} {log out : List Deed}
    (h : Kept addr s log) (hout : ids out = []) (haddr : s'.1.relayAddr = s.1.relayAddr)
    (hnext : s'.1.nodeNextId = s.1.nodeNextId)
    (hentries : ∀ (name : ByteStr) (info : NodeInfo), s'.1.nodes[name]? = some info →
      s.1.nodes[name]? = some info ∧ .detached ⟨name, addr⟩ ∉ out ∧ .detachedAll ∉ out) :
    Kept addr s' (log ++ out) where
  relayAddr := haddr.trans h.relayAddr
  next := by rw [hnext, h.next, ids_append, hout, List.append_nil]
  made := by rw [ids_append, hout, List.append_nil]; exact h.made
  entries name info hinfo := by
    obtain ⟨hold, hid, hall⟩ := hentries name info hinfo
    obtain ⟨result, hr⟩ := h.entries name info hold
    exact ⟨result, hr.append hid hall⟩

theorem Kept.attach {addr : SockAddress} {s : Relay × Nat} {log : List Deed}
    (h : Kept addr s log) (send : SendCalls) {sock : Conn} (hsock : sock.address.IsText) :
    Kept addr ((s.1.attachNode send sock s.2).1, (s.1.attachNode send sock s.2).2.2.calls)
      (log ++ [.attached (s.1.attachNode send sock s.2).2.1 sock
        (s.1.attachNode send sock s.2).2.2.result]) := by
  obtain ⟨name, hname⟩ : ∃ name, nodeName s.1.nodeNextId sock = name := ⟨_, rfl⟩
  have hid : (s.1.attachNode send sock s.2).2.1 = ⟨name, addr⟩ := by
    have hc : cstr (nodeName s.1.nodeNextId sock) = name :=
      hname ▸ cstr_eq_self (nodeName_noNul _ hsock)
    rw [attachNode, h.relayAddr, hc]
  have hnodes : (s.1.attachNode send sock s.2).1.nodes =
      s.1.nodes.insert name ⟨⟨name, addr⟩, sock⟩ := by
    rw [← hid, ← hname]
    rfl
  generalize (s.1.attachNode send sock s.2).2.2.result = result
  have hids : ids [.attached (s.1.attachNode send sock s.2).2.1 sock result] =
      [⟨name, addr⟩] := by rw [hid]; rfl
  refine ⟨h.relayAddr, ?_, fun k id hk => ?_, fun n info hn => ?_⟩
  · show s.1.nodeNextId + 1 = _
    rw [h.next, ids_append, hids, List.length_append, List.length_singleton]
    rw [UInt64.ofNat_add, UInt64.add_assoc]
    rfl
  · rw [ids_append, hids] at hk
    rcases Nat.lt_trichotomy k (ids log).length with hlt | rfl | hgt
    · rw [List.getElem?_append_left hlt] at hk
      exact h.made k id hk
    · refine ⟨sock, ?_⟩
      rw [← h.next, hname]
      simpa using hk.symm
    · rw [List.getElem?_eq_none (by simpa [Nat.succ_le_iff] using hgt)] at hk
      cases hk
  · rw [hnodes] at hn
    rcases Lib.TreeMap.of_getElem?_insert hn with ⟨rfl, rfl⟩ | ⟨-, hn⟩
    · exact ⟨result, log, [], by rw [hid], by simp, by simp⟩
    · obtain ⟨r, hr⟩ := h.entries n info hn
      exact ⟨r, hr.append (by simp) (by simp)⟩

theorem Kept.step {addr : SockAddress} {send : SendCalls} {s s' : Relay × Nat}
    {log out : List Deed} {c : Call} (h : Kept addr s log) (hc : Peers s log c)
    (hs : (machine send).step s c = some (s', out)) : Kept addr s' (log ++ out) := by
  cases c with
  | attachNode sock =>
    cases hs
    exact h.attach send (hc sock rfl)
  | detachNode nodeid =>
    cases hs
    unfold detachNode
    split
    · rename_i hne
      have hrelay : nodeid.relay ≠ addr := fun he =>
        hne (SockAddress.compare_eq_iff.mpr (he.trans h.relayAddr.symm))
      refine h.quiet rfl rfl rfl fun name info hinfo => ⟨hinfo, fun hm => ?_, by simp⟩
      cases List.mem_singleton.mp hm
      exact hrelay rfl
    · refine h.quiet rfl rfl rfl fun name info hinfo => ?_
      obtain ⟨hne, hinfo⟩ := Lib.TreeMap.of_getElem?_erase hinfo
      refine ⟨hinfo, fun hm => ?_, by simp⟩
      cases List.mem_singleton.mp hm
      exact hne rfl
  | detachAllNodes =>
    cases hs
    refine h.quiet rfl rfl rfl fun name info hinfo => ?_
    simp [detachAllNodes] at hinfo
  | treat pkt =>
    cases hs
    refine h.quiet ?_ rfl rfl fun name info hinfo => ⟨hinfo, ?_, ?_⟩ <;>
      cases s.1.treat pkt <;> simp [ids, Deed.made]

/-- As long as the counter has not come round no id has been made twice. -/
theorem Kept.nodup {addr : SockAddress} {s : Relay × Nat} {log : List Deed}
    (h : Kept addr s log) (hlog : (ids log).length < 2 ^ 64) : (ids log).Nodup := by
  refine nodup_of_counted (fun n id => ∃ sock, id = ⟨nodeName (1 + n) sock, addr⟩) hlog.le
    h.made ?_
  rintro j k _ ⟨s, rfl⟩ ⟨t, ht⟩
  have hnumber := nodeName_injective (NodeId.mk.inj ht).1
  simpa using hnumber

/-- A packet for this relay is written to the socket that holds the id it is sent to. -/
def Routed (addr : SockAddress) (log : List Deed) : Deed → Prop
  | .wrote pkt target bytes => pkt.to.relay = addr →
    ∃ sock result, target = .node sock ∧ bytes = pkt.build ∧ Holds log pkt.to sock result
  | _ => True

theorem Kept.treat {addr : SockAddress} {s : Relay × Nat} {log : List Deed} (h : Kept addr s log)
    {pkt : Packet} {target : Target} {bytes : ByteStr}
    (ht : s.1.treat pkt = some (target, bytes)) : Routed addr log (.wrote pkt target bytes) := by
  intro haddr
  have heq : pkt.to.relay.compare s.1.relayAddr = .eq :=
    SockAddress.compare_eq_iff.mpr (haddr.trans h.relayAddr.symm)
  rw [Relay.treat, if_neg (not_not.mpr heq)] at ht
  obtain ⟨info, hinfo, he⟩ := Option.map_eq_some_iff.mp ht
  obtain ⟨result, hr⟩ := h.entries _ info hinfo
  cases he
  refine ⟨info.sock, result, rfl, rfl, ?_⟩
  rwa [← haddr] at hr

theorem routed_of_run {send : SendCalls} {addr : SockAddress} {s : Relay × Nat}
    {log : List Deed} (run : (machine send).Run Peers (.new addr, 0) s log) :
    Kept addr s log ∧ Grounded (Routed addr) log := by
  refine run.invariant (P := fun s log => Kept addr s log ∧ Grounded (Routed addr) log)
    ⟨.start addr, .nil _⟩ fun s log c s' out ⟨h, hg⟩ hc hs => ⟨h.step hc hs, ?_⟩
  cases c with
  | attachNode sock => cases hs; exact hg.concat trivial
  | detachNode nodeid => cases hs; exact hg.concat trivial
  | detachAllNodes => cases hs; exact hg.concat trivial
  | treat pkt =>
    cases hs
    cases ht : s.1.treat pkt with
    | none => simpa using hg
    | some r => exact hg.concat (h.treat ht)

/-- No id is made twice. A packet for this relay is written only to the socket of the `attachNode`
that made the id it is sent to, while the id has not been taken back; that call has returned the
id, unless it is one that threw when it could not send the id. -/
theorem written_to_holder {send : SendCalls} {addr : SockAddress} {s : Relay × Nat}
    {log : List Deed} (run : (machine send).Run Peers (.new addr, 0) s log)
    (hlog : (ids log).length < 2 ^ 64) :
    (ids log).Nodup ∧
    ∀ l₁ pkt target bytes l₂, log = l₁ ++ .wrote pkt target bytes :: l₂ → pkt.to.relay = addr →
      ((∃ sock ret, target = .node sock ∧ bytes = pkt.build ∧ Holds l₁ pkt.to sock (.ok ret)) ↔
        ¬∃ sock e, .attached pkt.to sock (.error e) ∈ l₁) := by
  obtain ⟨h, hg⟩ := routed_of_run run
  have hnodup := h.nodup hlog
  refine ⟨hnodup, fun l₁ pkt target bytes l₂ hsplit haddr => ?_⟩
  obtain ⟨sock, result, htarget, hbytes, hholds⟩ := hg l₁ _ l₂ hsplit haddr
  constructor
  · rintro ⟨sock', ret, -, -, hok⟩ ⟨sock'', e, herror⟩
    rw [hsplit, ids_append] at hnodup
    cases eq_of_nodup_filterMap (List.nodup_append.mp hnodup).1 hok.mem herror rfl rfl
  · intro hne
    cases result with
    | error e => exact absurd ⟨sock, e, hholds.mem⟩ hne
    | ok ret => exact ⟨sock, ret, htarget, hbytes, hholds⟩

/-- A packet for the first node. -/
def hello : Packet := { Packet.new (lit "DHT") [] with «to» := ⟨lit "self", home⟩ }

/-- The first node gets a packet. -/
theorem written_to_holder_self :
    ∃ s log, (machine fun _ n => .ok n).Run Peers (.new home, 0) s log ∧
      log = [.attached ⟨lit "self", home⟩ client (.ok true),
        .wrote hello (.node client) hello.build] ∧
      (ids log).Nodup ∧
      ∃ ret, Holds [.attached ⟨lit "self", home⟩ client (.ok true)] hello.to client (.ok ret) := by
  have h : ((machine fun _ n => .ok n).exec (fun s log c => Peers s log c) ((.new home, 0), [])
      [.attachNode client, .treat hello]).map Prod.snd =
        some [.attached ⟨lit "self", home⟩ client (.ok true),
          .wrote hello (.node client) hello.build] := by
    decide +kernel
  obtain ⟨⟨s, log⟩, hrun, rfl⟩ := Option.map_eq_some_iff.mp h
  have run := (Machine.Run.exec .start hrun).of_decide
  obtain ⟨hnodup, hwrote⟩ := written_to_holder run
    ((List.length_filterMap_le _ _).trans_lt (show 2 < 2 ^ 64 by decide))
  obtain ⟨sock, ret, hsock, -, hholds⟩ := (hwrote [_] hello _ _ [] rfl rfl).mpr (by simp)
  cases hsock
  exact ⟨s, _, run, rfl, hnodup, ret, hholds⟩

/-- The `send` of the first id is interrupted: `attachNode` throws, but the node stays in the map,
and a packet for a name that was never returned is written. -/
theorem written_unreturned :
    ∃ s log, (machine fun i n => if i = 0 then .error (.err "Socket" "send") else .ok n).Run
        Peers (.new home, 0) s log ∧
      log = [.attached ⟨lit "self", home⟩ client (.error (.err "Socket" "send")),
        .wrote hello (.node client) hello.build] ∧
      ¬∃ sock ret, Holds [.attached ⟨lit "self", home⟩ client (.error (.err "Socket" "send"))]
        hello.to sock (.ok ret) := by
  have h : ((machine fun i n => if i = 0 then .error (.err "Socket" "send") else .ok n).exec
      (fun s log c => Peers s log c) ((.new home, 0), []) [.attachNode client, .treat hello]).map
        Prod.snd = some [.attached ⟨lit "self", home⟩ client (.error (.err "Socket" "send")),
          .wrote hello (.node client) hello.build] := by
    decide +kernel
  obtain ⟨⟨s, log⟩, hrun, rfl⟩ := Option.map_eq_some_iff.mp h
  refine ⟨s, _, (Machine.Run.exec .start hrun).of_decide, rfl, ?_⟩
  rintro ⟨sock, ret, hholds⟩
  simpa using hholds.mem

end Relay
end Epyx.N2NP
