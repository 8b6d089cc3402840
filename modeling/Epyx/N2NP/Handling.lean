import Epyx.Lib.TreeMap
import Epyx.N2NP.Exchange

/-! What a node acknowledges: the packets it gives to the modules that are registered with it, and
how the modules come back from them. -/
namespace Epyx.N2NP
open Lib
open Std (ExtTreeMap)

/-- A node and the modules that are bound to methods; `κ` are the modules. -/
structure ModuleHost (κ : Type*) where
  node : Option Node
  modules : ExtTreeMap ByteStr κ

namespace ModuleHost
open Node (Behaviour Call Record runCalls)
variable {κ : Type*}

inductive Event (κ : Type*) where
  | create (sock : Conn)
  | addModule (method : ByteStr) (m : κ)
  | call (c : Call)
  /-- a packet comes, and the module it is for, if there is one, does this with it -/
  | receive (pkt : Packet) (b : Behaviour)

/-- What is seen of a node: its own record, the modules that are bound, and each return of a
module's `fromN2NP`. -/
inductive Entry (κ : Type*) where
  | record (r : Record)
  | bound (method : ByteStr) (m : κ)
  | returned (m : κ) (pkt : Packet) (threw : Option Exn)
  deriving DecidableEq

def Entry.toRecord : Entry κ → Option Record
  | .record r => some r
  | _ => none

/-- The module that `treat` calls with a packet, after all its tests. -/
def called (n : Node) (modules : ExtTreeMap ByteStr κ) (pkt : Packet) : Option κ :=
  if n.hasId ∧ pkt.to.compare n.nodeid = .eq ∧ pkt.method ≠ lit "ACK" ∧ pkt.method ≠ lit "ERR" then
    modules[pkt.method]?
  else none

variable (net : SendCalls) (inet : Inet)

/-- What is sent once a module is back: the acknowledgement, unless the exception of the module
has left `treat`. -/
def answer (n : Node) (pkt : Packet) (threw : Option Exn) : List Record :=
  if threw.all Exn.isMinor ∧ n.sends (lit "ACK") false then
    [.acknowledged pkt (n.acknowledgement pkt), .sent (n.acknowledgement pkt) false]
  else []

/-- What `treat` does with a packet. -/
def treatEntries (n : Node) (modules : ExtTreeMap ByteStr κ) (pkt : Packet) (b : Behaviour) :
    List (Entry κ) :=
  match called n modules pkt with
  | none => (n.treatRecords net pkt none).map .record
  | some m =>
    let r := runCalls net (n.weigh pkt.from pkt.data) b.calls
    (.passed pkt :: r.2).map .record ++
      .returned m pkt b.threw :: (answer r.1 pkt b.threw).map .record

/-- A node with its modules. `Node::addModule` throws for a method that is bound already. -/
def machine : Machine (ModuleHost κ) (Event κ) (Entry κ) where
  step s
    | .create sock =>
      ((Node.machine net inet).step s.node (.create sock)).map fun r =>
        ({ s with node := r.1 }, r.2.map .record)
    | .addModule method m =>
      s.node.map fun _ =>
        if method ∈ s.modules then (s, [])
        else ({ s with modules := s.modules.insert method m }, [.bound method m])
    | .call c =>
      ((Node.machine net inet).step s.node (.call c)).map fun r =>
        ({ s with node := r.1 }, r.2.map .record)
    | .receive pkt b =>
      s.node.bind fun n =>
        ((Node.machine net inet).step s.node
            (.receive pkt ((s.modules[pkt.method]?).map fun _ => b))).map fun r =>
          ({ s with node := r.1 }, treatEntries net n s.modules pkt b)

/-! ### The record of the node -/

theorem filterMap_map_record (rs : List Record) :
    (rs.map (Entry.record : Record → Entry κ)).filterMap Entry.toRecord = rs := by
  rw [List.filterMap_map]
  exact List.filterMap_some

/-- The entries are the record of `treat` and the return of the module in it. -/
theorem treatEntries_toRecord (n : Node) (modules : ExtTreeMap ByteStr κ) (pkt : Packet)
    (b : Behaviour) :
    (treatEntries net n modules pkt b).filterMap Entry.toRecord =
      n.treatRecords net pkt ((modules[pkt.method]?).map fun _ => b) := by
  unfold treatEntries called
  by_cases h : n.hasId ∧ pkt.to.compare n.nodeid = .eq ∧ pkt.method ≠ lit "ACK" ∧
      pkt.method ≠ lit "ERR"
  · rw [if_pos h]
    obtain ⟨hid, hto, hack, herr⟩ := h
    cases hm : modules[pkt.method]? with
    | none => exact filterMap_map_record _
    | some m =>
      simp only [List.filterMap_append, filterMap_map_record, List.filterMap_cons, Entry.toRecord]
      simp [Node.treatRecords, hid, hto, hack, herr, answer]
  · rw [if_neg h]
    refine (filterMap_map_record _).trans ?_
    unfold Node.treatRecords
    by_cases hid : n.hasId
    · by_cases hto : pkt.to.compare n.nodeid = .eq
      · by_cases hack : pkt.method = lit "ACK"
        · simp [hid, hto, hack]
        · have herr : pkt.method = lit "ERR" := by
            by_contra herr
            exact h ⟨hid, hto, hack, herr⟩
          simp [hid, hto, herr]
      · simp [hid, hto]
    · simp [hid]

/-- With the modules left out, a run is one of the node. -/
theorem run_toRecord {s₀ s : ModuleHost κ} {log : List (Entry κ)}
    (run : (machine net inet).Run (fun _ _ _ => True) s₀ s log) :
    (Node.machine net inet).Run (fun _ _ _ => True) s₀.node s.node
      (log.filterMap Entry.toRecord) := by
  induction run with
  | start => exact .start
  | @step s s' log out e run allowed taken ih =>
    rw [List.filterMap_append]
    cases e with
    | create sock =>
      obtain ⟨r, hr, heq⟩ := Option.map_eq_some_iff.mp taken
      cases heq
      rw [filterMap_map_record]
      exact ih.step trivial hr
    | addModule method m =>
      obtain ⟨n, hn, heq⟩ := Option.map_eq_some_iff.mp taken
      have hquiet : ∀ out : List (Entry κ), out.filterMap Entry.toRecord = [] →
          (Node.machine net inet).Run (fun _ _ _ => True) s₀.node s.node
            (log.filterMap Entry.toRecord ++ out.filterMap Entry.toRecord) := by
        intro out hout
        rwa [hout, List.append_nil]
      split at heq
      · cases heq
        exact hquiet [] rfl
      · cases heq
        exact hquiet [.bound method m] rfl
    | call c =>
      obtain ⟨r, hr, heq⟩ := Option.map_eq_some_iff.mp taken
      cases heq
      rw [filterMap_map_record]
      exact ih.step trivial hr
    | receive pkt b =>
      obtain ⟨n, hn, heq⟩ := Option.bind_eq_some_iff.mp taken
      obtain ⟨r, hr, heq⟩ := Option.map_eq_some_iff.mp heq
      cases heq
      have hrecords : n.treatRecords net pkt ((s.modules[pkt.method]?).map fun _ => b) = r.2 := by
        rw [hn] at hr
        cases hr
        rfl
      rw [treatEntries_toRecord, hrecords]
      exact ih.step trivial hr

/-! ### Acknowledgements -/

/-- Each acknowledgement stands right behind the return, without an exception, of the module that
was bound to the method of the packet and had been given it; it goes to the sender of the packet
with its number. -/
def AfterHandling (log : List (Entry κ)) : Entry κ → Prop
  | .record (.acknowledged pkt ack) =>
    (∃ m before during, log = before ++ .record (.passed pkt) :: during ++ [.returned m pkt none] ∧
      .bound pkt.method m ∈ before ∧ ∀ x ∈ during, ∃ q store, x = .record (.sent q store)) ∧
    ack.method = lit "ACK" ∧ ack.to = pkt.from ∧
      ack.data = Text.fromUnsignedLong pkt.pktID.toNat
  | _ => True

/-- No module that is called throws a `MinorException`. -/
def Unfailing (s : ModuleHost κ) (_ : List (Entry κ)) : Event κ → Prop
  | .receive pkt b =>
    ∀ n ∈ s.node, (called n s.modules pkt).isSome → ∀ e ∈ b.threw, e.isMinor = false
  | _ => True

instance (s : ModuleHost κ) (log : List (Entry κ)) : (e : Event κ) → Decidable (Unfailing s log e)
  | .receive _ b => inferInstanceAs (Decidable (∀ n ∈ s.node, _ → ∀ e ∈ b.threw, _))
  | .create _ => inferInstanceAs (Decidable True)
  | .addModule _ _ => inferInstanceAs (Decidable True)
  | .call _ => inferInstanceAs (Decidable True)

/-- The record has no acknowledgement. -/
def Quiet (rs : List Record) : Prop := ∀ pkt ack, .acknowledged pkt ack ∉ rs

variable {net : SendCalls} {inet : Inet}

theorem sent_of_mem_run {n : Node} {c : Call} {r : Record} (h : r ∈ (c.run net n).2) :
    ∃ q store, r = .sent q store := by
  cases c with
  | send dest method data store =>
    rw [Call.run] at h
    split at h
    · exact ⟨_, _, List.mem_singleton.mp h⟩
    · cases h
  | offerDirectConn recipient sock => cases h

theorem sent_of_mem_runCalls {cs : List Call} {n : Node} {r : Record}
    (h : r ∈ (runCalls net n cs).2) : ∃ q store, r = .sent q store := by
  induction cs generalizing n with
  | nil => cases h
  | cons c cs ih =>
    rcases List.mem_append.mp h with h | h
    · exact sent_of_mem_run h
    · exact ih h

theorem quiet_treatRecords (n : Node) (pkt : Packet) : Quiet (n.treatRecords net pkt none) := by
  intro p ack h
  unfold Node.treatRecords at h
  dsimp only at h
  split at h
  · cases h
  split at h
  · cases h
  split at h
  · split at h
    · cases h
    · cases List.mem_singleton.mp h
  split at h
  · cases h
  · obtain ⟨q, store, hq⟩ := sent_of_mem_run h
    cases hq

theorem after_quiet {rs : List Record} (h : Quiet rs) :
    ∀ x ∈ rs.map (Entry.record : Record → Entry κ), ∀ log, AfterHandling log x := by
  intro x hx log
  obtain ⟨r, hr, rfl⟩ := List.mem_map.mp hx
  cases r with
  | acknowledged pkt ack => exact absurd hr (h pkt ack)
  | _ => trivial

theorem called_bound {n : Node} {modules : ExtTreeMap ByteStr κ} {pkt : Packet} {m : κ}
    (h : called n modules pkt = some m) : modules[pkt.method]? = some m :=
  (Option.ite_none_right_eq_some.mp h).2

/-- A packet for a module that does not fail: what is acknowledged was handled. -/
theorem grounded_treatEntries {n : Node} {modules : ExtTreeMap ByteStr κ} {pkt : Packet}
    {b : Behaviour} {log : List (Entry κ)} (h : Grounded AfterHandling log)
    (hbound : ∀ method m, modules[method]? = some m → .bound method m ∈ log)
    (hb : (called n modules pkt).isSome → ∀ e ∈ b.threw, e.isMinor = false) :
    Grounded AfterHandling (log ++ treatEntries net n modules pkt b) := by
  unfold treatEntries
  cases hm : called n modules pkt with
  | none => exact h.append (after_quiet (quiet_treatRecords n pkt))
  | some m =>
    have hmodule : .bound pkt.method m ∈ log := hbound _ _ (called_bound hm)
    have hsent : ∀ o ∈ (runCalls net (n.weigh pkt.from pkt.data) b.calls).2,
        ∃ q store, o = .sent q store := fun o ho => sent_of_mem_runCalls ho
    dsimp only
    generalize runCalls net (n.weigh pkt.from pkt.data) b.calls = r at hsent ⊢
    have hcalls : Quiet (.passed pkt :: r.2) := by
      intro p ack hack
      obtain ⟨q, store, hq⟩ := hsent _ ((List.mem_cons.mp hack).resolve_left nofun)
      cases hq
    obtain ⟨start, hstart⟩ : ∃ start, start =
        log ++ (.passed pkt :: r.2).map .record ++ [.returned m pkt b.threw] := ⟨_, rfl⟩
    have hreturned : Grounded AfterHandling start :=
      hstart ▸ (h.append (after_quiet hcalls)).concat trivial
    have hsplit : ∀ out, log ++ ((.passed pkt :: r.2).map .record ++
        .returned m pkt b.threw :: out) = start ++ out := by simp [hstart]
    rw [hsplit, answer]
    split
    · rename_i hsends
      have hnone : b.threw = none := by
        cases ht : b.threw with
        | none => rfl
        | some e =>
          have hminor : e.isMinor = false := hb (by simp [hm]) e ht
          have hall := hsends.1
          rw [ht, Option.all_some, hminor] at hall
          cases hall
      have hack : AfterHandling start (.record (.acknowledged pkt (r.1.acknowledgement pkt))) := by
        refine ⟨⟨m, log, r.2.map .record, by simp [hstart, hnone], hmodule, fun x hx => ?_⟩,
          rfl, rfl, rfl⟩
        obtain ⟨o, ho, rfl⟩ := List.mem_map.mp hx
        obtain ⟨q, store, rfl⟩ := hsent o ho
        exact ⟨q, store, rfl⟩
      have hlast : AfterHandling (start ++ [.record (.acknowledged pkt (r.1.acknowledgement pkt))])
          (.record (.sent (r.1.acknowledgement pkt) false)) := trivial
      have hboth := (hreturned.concat hack).concat hlast
      rwa [List.append_assoc] at hboth
    · rwa [List.map_nil, List.append_nil]

/-- What a step makes of the record of the node. -/
theorem quiet_machine {s : Option Node} {e : Node.Event} {r : Option Node × List Record}
    (hcall : (∃ sock, e = .create sock) ∨ ∃ c, e = .call c)
    (h : (Node.machine net inet).step s e = some r) : Quiet r.2 := by
  intro pkt ack hack
  rcases hcall with ⟨sock, rfl⟩ | ⟨c, rfl⟩
  · cases s with
    | none =>
      obtain ⟨n, hn, rfl⟩ := Option.map_eq_some_iff.mp h
      cases List.mem_singleton.mp hack
    | some n => cases h
  · cases s with
    | none => cases h
    | some n =>
      cases h
      obtain ⟨q, store, hq⟩ := sent_of_mem_run hack
      cases hq

/-- What is known of a host and its entries. -/
structure Sound (s : ModuleHost κ) (log : List (Entry κ)) : Prop where
  bound : ∀ method m, s.modules[method]? = some m → .bound method m ∈ log
  grounded : Grounded AfterHandling log

theorem Sound.step {s s' : ModuleHost κ} {log out : List (Entry κ)} {e : Event κ}
    (h : Sound s log) (allowed : Unfailing s log e)
    (taken : (machine net inet).step s e = some (s', out)) : Sound s' (log ++ out) := by
  have hkept : ∀ method m, s.modules[method]? = some m → .bound method m ∈ log ++ out :=
    fun method m hm => List.mem_append_left _ (h.bound method m hm)
  cases e with
  | create sock =>
    obtain ⟨r, hr, heq⟩ := Option.map_eq_some_iff.mp taken
    cases heq
    exact ⟨hkept, h.grounded.append (after_quiet (quiet_machine (.inl ⟨sock, rfl⟩) hr))⟩
  | addModule method m =>
    obtain ⟨n, hn, heq⟩ := Option.map_eq_some_iff.mp taken
    split at heq
    · cases heq
      exact ⟨hkept, by simpa using h.grounded⟩
    · cases heq
      refine ⟨fun method' m' hm => ?_, h.grounded.concat trivial⟩
      rcases TreeMap.of_getElem?_insert hm with ⟨rfl, rfl⟩ | hm
      · exact List.mem_append_right _ (List.mem_singleton_self _)
      · exact hkept method' m' hm.2
  | call c =>
    obtain ⟨r, hr, heq⟩ := Option.map_eq_some_iff.mp taken
    cases heq
    exact ⟨hkept, h.grounded.append (after_quiet (quiet_machine (.inr ⟨c, rfl⟩) hr))⟩
  | receive pkt b =>
    obtain ⟨n, hn, heq⟩ := Option.bind_eq_some_iff.mp taken
    obtain ⟨r, hr, heq⟩ := Option.map_eq_some_iff.mp heq
    cases heq
    exact ⟨hkept, grounded_treatEntries h.grounded h.bound (allowed n hn)⟩

theorem run_hasId (n : Node) (c : Call) : (c.run net n).1.hasId = n.hasId := by
  cases c with
  | send dest method data store =>
    show (n.send net dest method data store).2.hasId = n.hasId
    unfold Node.send
    split
    · rfl
    · dsimp only
      split
      · rfl
      · split <;> cases store <;> rfl
  | offerDirectConn recipient sock => rfl

theorem runCalls_hasId (n : Node) (cs : List Call) : (runCalls net n cs).1.hasId = n.hasId := by
  induction cs generalizing n with
  | nil => rfl
  | cons c cs ih => exact (ih _).trans (run_hasId n c)

/-- A module that throws a `MinorException` is followed by the acknowledgement. -/
theorem treatEntries_minor (net : SendCalls) {n : Node} {modules : ExtTreeMap ByteStr κ}
    {pkt : Packet} {b : Behaviour} {m : κ} {e : Exn} (hm : called n modules pkt = some m)
    (ht : b.threw = some e) (he : e.isMinor) :
    ∃ before ack after, treatEntries net n modules pkt b =
      before ++ .returned m pkt (some e) :: .record (.acknowledged pkt ack) :: after := by
  have hid : n.hasId := (Option.ite_none_right_eq_some.mp hm).1.1
  unfold treatEntries
  rw [hm, ht]
  dsimp only
  have hsends : (runCalls net (n.weigh pkt.from pkt.data) b.calls).1.sends (lit "ACK") false := by
    have hcalls : (runCalls net (n.weigh pkt.from pkt.data) b.calls).1.hasId = n.hasId :=
      runCalls_hasId _ _
    simp [Node.sends, hcalls, hid]
  have hall : (some e).all Exn.isMinor := he
  rw [answer, if_pos ⟨hall, hsends⟩]
  exact ⟨_, _, _, rfl⟩

/-- Behind a failed handling stands no acknowledgement of the packet. -/
theorem not_grounded {log l₁ l₂ : List (Entry κ)} {m : κ} {pkt ack : Packet} {e : Exn}
    (h : log = l₁ ++ .returned m pkt (some e) :: .record (.acknowledged pkt ack) :: l₂) :
    ¬Grounded AfterHandling log := by
  intro hg
  obtain ⟨⟨m', before, during, hlog, -⟩, -⟩ :=
    hg (l₁ ++ [.returned m pkt (some e)]) (.record (.acknowledged pkt ack)) l₂ (by simp [h])
  obtain ⟨-, hlast⟩ := List.append_inj' hlog rfl
  cases hlast

/-- In every run in which no module that is called throws a `MinorException`, each acknowledgement
follows the complete handling of its packet by the module bound to its method, and the failed
handling of a packet is not followed by an acknowledgement of it; after a step with such an
exception this is lost. -/
theorem acknowledged_after_handling (net : SendCalls) (inet : Inet) :
    (∀ (s : ModuleHost κ) log, (machine net inet).Run Unfailing ⟨none, ∅⟩ s log →
      Grounded AfterHandling log ∧ ∀ l₁ m pkt e ack l₂,
        log ≠ l₁ ++ .returned m pkt (some e) :: .record (.acknowledged pkt ack) :: l₂) ∧
    ∀ (s : ModuleHost κ) log e s' out,
      (machine net inet).Run (fun _ _ _ => True) ⟨none, ∅⟩ s log → ¬Unfailing s log e →
      (machine net inet).step s e = some (s', out) → ¬Grounded AfterHandling (log ++ out) := by
  refine ⟨fun s log run => ?_, fun s log e s' out _ hfail taken => ?_⟩
  · have hsound : Sound s log := run.invariant (P := Sound) ⟨by simp, .nil _⟩
      fun s log e s' out h allowed taken => h.step allowed taken
    exact ⟨hsound.grounded, fun l₁ m pkt e ack l₂ heq => not_grounded heq hsound.grounded⟩
  · cases e with
    | create sock => exact absurd trivial hfail
    | addModule method m => exact absurd trivial hfail
    | call c => exact absurd trivial hfail
    | receive pkt b =>
      obtain ⟨n, hn, heq⟩ := Option.bind_eq_some_iff.mp taken
      obtain ⟨r, hr, heq⟩ := Option.map_eq_some_iff.mp heq
      cases heq
      simp only [Unfailing, Option.mem_def, hn, Option.some.injEq, forall_eq', not_forall,
        Bool.not_eq_false] at hfail
      obtain ⟨hsome, e, ht, he⟩ := hfail
      obtain ⟨m, hm⟩ := Option.isSome_iff_exists.mp hsome
      obtain ⟨before, ack, after, hentries⟩ := treatEntries_minor net hm ht he
      rw [hentries]
      exact not_grounded (List.append_assoc log before _).symm

def self : NodeId := ⟨lit "self", Relay.home⟩

def peer : NodeId := ⟨lit "2-10.0.0.7:51324", Relay.home⟩

/-- A packet of the peer for the module of the direct connections. -/
def message : Packet :=
  { Packet.new (lit "DIRECTCONNECTION") (lit "DC ESTABLISHED\r\n\r\n") with
    «from» := peer, «to» := self, pktID := 7 }

/-- The acknowledgement of it. -/
def reply : Packet :=
  { Packet.new (lit "ACK") (lit "7") with «from» := self, «to» := peer, pktID := 1 }

/-- A node gets its id and a module, and the packet comes, which the module returns from so. -/
def delivery (threw : Option Exn) : List (Event Nat) :=
  [.create ⟨3, Relay.home⟩, .addModule (lit "DIRECTCONNECTION") 0,
    .receive (((Relay.new Relay.home).idPacket self Relay.client).carried) ⟨[], none⟩,
    .receive message ⟨[], threw⟩]

def entries (threw : Option Exn) : List (Entry Nat) :=
  [.record (.sent (Node.request ⟨3, Relay.home⟩) true), .bound (lit "DIRECTCONNECTION") 0,
    .record (.passed message), .returned 0 message threw, .record (.acknowledged message reply),
    .record (.sent reply false)]

theorem acknowledged_after_handling_message :
    ∃ s, (machine (fun _ n => .ok n) Inet.zero).Run Unfailing ⟨none, ∅⟩ s (entries none) ∧
      Grounded AfterHandling (entries none) := by
  have h : ((machine (fun _ n => .ok n) Inet.zero).exec (fun s log e => Unfailing s log e)
      (⟨none, ∅⟩, []) (delivery none)).map Prod.snd = some (entries none) := by decide +kernel
  obtain ⟨⟨s, log⟩, hexec, hlog⟩ := Option.map_eq_some_iff.mp h
  obtain rfl : log = entries none := hlog
  have run := (Machine.Run.exec .start hexec).of_decide
  exact ⟨s, run, ((acknowledged_after_handling _ _).1 s _ run).1⟩

/-- The exception with which the dispatcher refuses a packet of a node it has no connection for. -/
def unknownSender : Exn :=
  .minor "DirectConnection::Dispatcher::fromN2NP" "No direct connection from specified ID"

/-- The packet was refused, and is acknowledged. -/
theorem acknowledged_refused :
    ∃ s, (machine (fun _ n => .ok n) Inet.zero).Run (fun _ _ _ => True) ⟨none, ∅⟩ s
        (entries (some unknownSender)) ∧
      ¬Grounded AfterHandling (entries (some unknownSender)) ∧
      ∃ l₁ l₂, entries (some unknownSender) = l₁ ++ .returned 0 message (some unknownSender) ::
        .record (.acknowledged message reply) :: l₂ := by
  have h : ((machine (fun _ n => .ok n) Inet.zero).exec (fun _ _ _ => true) (⟨none, ∅⟩, [])
      (delivery (some unknownSender))).map Prod.snd = some (entries (some unknownSender)) := by
    decide +kernel
  obtain ⟨⟨s, log⟩, hexec, hlog⟩ := Option.map_eq_some_iff.mp h
  obtain rfl : log = entries (some unknownSender) := hlog
  have hsplit : entries (some unknownSender) = (entries (some unknownSender)).take 3 ++
      .returned 0 message (some unknownSender) :: .record (.acknowledged message reply) ::
        [.record (.sent reply false)] := rfl
  exact ⟨s, (Machine.Run.exec .start hexec).free, not_grounded hsplit, _, _, hsplit⟩

end ModuleHost
end Epyx.N2NP
