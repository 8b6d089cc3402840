import Epyx.N2NP.Exchange
import Epyx.NatPunching.OpenConnection
import Epyx.Parser.Framing

/-! The attempts at a direct connection: which messages one end sends, and how its role and the
method it tests go on from one `DID_NOT_WORK` to the next. -/
namespace Epyx.DirectConnection
open Lib
open N2NP (NodeId Node Conn)

/-- What decides on a `DID_NOT_WORK`. -/
structure Roles where
  etat : State
  client_tried : Bool
  server_tried : Bool
  tested_method : Method
  deriving DecidableEq, Repr

def State.other : State → State
  | .client => .server
  | .server => .client

/-- What is done while an event is treated: a message is sent to the other end, a socket is offered
to the node, or a `DID_NOT_WORK` is handled, with the roles before it and after it. -/
inductive Act where
  | sent (pkt : GTTPacket)
  | offered (sock : Option Conn)
  | failed (before after : Roles)
  deriving DecidableEq

namespace OpenConnection

/-- `OpenConnection::OpenConnection` -/
def create (remoteHost : NodeId) (clients : Bool) : OpenConnection :=
  ⟨remoteHost, if clients then .client else .server, false, false, .direct, none⟩

def roles (oc : OpenConnection) : Roles :=
  ⟨oc.etat, oc.client_tried, oc.server_tried, oc.tested_method⟩

section
variable (world : World) (net : SendCalls)

/-- `OpenConnection::run` -/
def run (n : Node) (oc : OpenConnection) : Option Exn × Node × OpenConnection :=
  if oc.etat = .server then serverStateOpen world net n oc else (none, n, oc)

def afterSendActs (sockListen : Listener) (headers : Headers) (n : Node) (oc : OpenConnection) :
    List Act :=
  match sockListen.received world with
  | .error _ => []
  | .ok data =>
    if sockListen.hasAccept ∧ data = testMessage then
      [.offered sockListen.sock, .sent (message "ESTABLISHED" headers)]
    else
      .sent (message "DID_NOT_WORK" headers) ::
        if (thrown (send net n oc (message "DID_NOT_WORK" headers)).1).isNone then
          [.failed oc.roles oc.didNotWorkServer.roles]
        else []

def serverStateOpenActs (n : Node) (oc : OpenConnection) : List Act :=
  match listenAddress world n oc with
  | .error _ => []
  | .ok (sockListen, addr) =>
    let headers := sendHeaders addr
    .sent (message "SEND" headers) ::
      match send net n oc (message "SEND" headers) with
      | (.error _, _) => []
      | (.ok _, n) => afterSendActs world net sockListen headers n oc

def didNotWorkActs (n : Node) (oc : OpenConnection) : List Act :=
  if oc.etat = .server then [.failed oc.roles oc.didNotWorkServer.roles]
  else if ¬oc.server_tried then
    .failed oc.roles { oc with etat := .server }.roles ::
      serverStateOpenActs world net n { oc with etat := .server }
  else [.failed oc.roles oc.roles]

def afterTestActs (sent : Except Exn Bool) (n : Node) (oc : OpenConnection) : List Act :=
  match sent with
  | .error _ => []
  | .ok true => []
  | .ok false =>
    .sent (message "DID_NOT_WORK" ∅) ::
      match send net n oc (message "DID_NOT_WORK" ∅) with
      | (.error _, _) => []
      | (.ok _, n) => didNotWorkActs world net n oc

def sendMessageActs (inet : Inet) (headers : Headers) (n : Node) (oc : OpenConnection) :
    List Act :=
  match headers[lit "Address"]?, headers[lit "Message"]? with
  | none, _ => []
  | some _, none => []
  | some address, some msg =>
    match SockAddress.ofString inet address with
    | .error _ => []
    | .ok addr =>
      match connect world addr with
      | .error _ => []
      | .ok conn =>
        afterTestActs world net (Socket.sendBytes (world.tcp addr) msg 0).result n
          { oc with socket := some conn }

def getMessageActs (inet : Inet) (command : ByteStr) (headers : Headers) (n : Node)
    (oc : OpenConnection) : List Act :=
  if command = lit "SEND" ∧ oc.etat = .client then sendMessageActs world net inet headers n oc
  else if command = lit "DID_NOT_WORK" then didNotWorkActs world net n oc
  else if command = lit "ESTABLISHED" then [.offered oc.socket]
  else []

def runActs (n : Node) (oc : OpenConnection) : List Act :=
  if oc.etat = .server then serverStateOpenActs world net n oc else []

end

/-- What a connection lives through: its thread runs, or it is given a message; each time with
the node and the world as they are by then. -/
inductive Event where
  | run (world : World) (net : SendCalls) (n : Node)
  | getMessage (world : World) (net : SendCalls) (n : Node) (inet : Inet) (command : ByteStr)
      (headers : Headers)

def Event.net : Event → SendCalls
  | .run _ net _ => net
  | .getMessage _ net .. => net

def Event.node : Event → Node
  | .run _ _ n => n
  | .getMessage _ _ n .. => n

def Event.result (oc : OpenConnection) : Event → Option Exn × Node × OpenConnection
  | .run world net n => oc.run world net n
  | .getMessage world net n inet command headers =>
    OpenConnection.getMessage world net inet command headers n oc

def Event.acts (oc : OpenConnection) : Event → List Act
  | .run world net n => oc.runActs world net n
  | .getMessage world net n inet command headers =>
    getMessageActs world net inet command headers n oc

/-- A null pointer ends the process. -/
def machine : Machine OpenConnection Event Act where
  step oc e :=
    if (e.result oc).1 = some .nullPointer then none else some ((e.result oc).2.2, e.acts oc)

end OpenConnection

def Act.call (remoteHost : NodeId) : Act → Option Node.Call
  | .sent pkt => some (.send remoteHost (lit "DIRECTCONNECTION") pkt.build true)
  | .offered sock => some (.offerDirectConn remoteHost sock)
  | .failed .. => none

/-- What a `DID_NOT_WORK` makes of the roles. -/
def Roles.fail (r : Roles) : Roles :=
  match r.etat with
  | .server =>
    if ¬r.client_tried then { r with server_tried := true }
    else if r.tested_method = .direct then ⟨.client, false, false, .upnp⟩
    else r
  | .client => if ¬r.server_tried then { r with etat := .server } else r

/-- The failures lead from the roles `r` to the roles `r'`. -/
def Roles.Leads (r' : Roles) : Roles → List Act → Prop
  | r, [] => r = r'
  | r, .failed before after :: acts => before = r ∧ after = r.fail ∧ Leads r' after acts
  | r, .sent _ :: acts => Leads r' r acts
  | r, .offered _ :: acts => Leads r' r acts

namespace OpenConnection

/-- The messages one end can send. -/
inductive IsMessage : GTTPacket → Prop
  | send (addr : SockAddress) : IsMessage (message "SEND" (sendHeaders addr))
  | established (addr : SockAddress) : IsMessage (message "ESTABLISHED" (sendHeaders addr))
  | didNotWork (addr : SockAddress) : IsMessage (message "DID_NOT_WORK" (sendHeaders addr))
  | noConnection : IsMessage (message "DID_NOT_WORK" ∅)

/-- What is recorded is what is done: the node goes through the calls, the roles go through the
failures, and what is sent is a message. -/
structure Does (net : SendCalls) (acts : List Act) (n : Node) (oc : OpenConnection)
    (r : Option Exn × Node × OpenConnection) : Prop where
  node : (Node.runCalls net n (acts.filterMap (Act.call oc.remoteHost))).1 = r.2.1
  roles : Roles.Leads r.2.2.roles oc.roles acts
  messages : ∀ pkt, .sent pkt ∈ acts → IsMessage pkt

namespace Does
variable {net : SendCalls} {acts : List Act} {n : Node} {oc oc' : OpenConnection}
  {r : Option Exn × Node × OpenConnection} {pkt : GTTPacket}

/-- The calls of the node depend on the other end only, not on the rest of the connection. -/
theorem node_eq (h : Does net acts n oc' r) (hhost : oc'.remoteHost = oc.remoteHost) :
    (Node.runCalls net n (acts.filterMap (Act.call oc.remoteHost))).1 = r.2.1 := by
  rw [← hhost]
  exact h.node

theorem nothing (e : Option Exn) : Does net [] n oc (e, n, oc) where
  node := rfl
  roles := rfl
  messages _ h := absurd h List.not_mem_nil

theorem sent (hpkt : IsMessage pkt) (h : Does net acts (send net n oc pkt).2 oc r) :
    Does net (.sent pkt :: acts) n oc r where
  node := h.node
  roles := h.roles
  messages q hq := by
    rcases List.mem_cons.mp hq with heq | hq
    · cases heq
      exact hpkt
    · exact h.messages q hq

theorem offered {sock : Option Conn}
    (h : Does net acts (n.offerDirectConn oc.remoteHost sock) oc r) :
    Does net (.offered sock :: acts) n oc r where
  node := h.node
  roles := h.roles
  messages q hq := h.messages q ((List.mem_cons.mp hq).resolve_left nofun)

theorem failed (hhost : oc'.remoteHost = oc.remoteHost) (hroles : oc'.roles = oc.roles.fail)
    (h : Does net acts n oc' r) : Does net (.failed oc.roles oc'.roles :: acts) n oc r where
  node := h.node_eq hhost
  roles := ⟨rfl, hroles, h.roles⟩
  messages q hq := h.messages q ((List.mem_cons.mp hq).resolve_left nofun)

/-- The roles are all that counts of the connection. -/
theorem congr (h : Does net acts n oc' r) (hhost : oc'.remoteHost = oc.remoteHost)
    (hroles : oc'.roles = oc.roles) : Does net acts n oc r where
  node := h.node_eq hhost
  roles := hroles ▸ h.roles
  messages := h.messages

end Does

variable {world : World} {net : SendCalls} {n : Node} {oc : OpenConnection}

theorem roles_didNotWorkServer (h : oc.etat = .server) :
    oc.didNotWorkServer.roles = oc.roles.fail := by
  obtain ⟨remoteHost, etat, client_tried, server_tried, tested_method, socket⟩ := oc
  cases h
  cases client_tried with
  | false => rfl
  | true => cases tested_method <;> rfl

theorem remoteHost_didNotWorkServer : oc.didNotWorkServer.remoteHost = oc.remoteHost := by
  unfold didNotWorkServer
  split
  · rfl
  · split <;> rfl

theorem does_afterSend (h : oc.etat = .server) (sockListen : Listener) (addr : SockAddress) :
    Does net (afterSendActs world net sockListen (sendHeaders addr) n oc) n oc
      (afterSend world net sockListen (sendHeaders addr) n oc) := by
  unfold afterSendActs afterSend
  cases sockListen.received world with
  | error e => exact .nothing _
  | ok data =>
    dsimp only
    split
    · exact .offered (.sent (.established addr) (.nothing _))
    · refine .sent (.didNotWork addr) ?_
      split
      · exact .failed remoteHost_didNotWorkServer (roles_didNotWorkServer h) (.nothing _)
      · exact .nothing _

theorem does_serverStateOpen (h : oc.etat = .server) :
    Does net (serverStateOpenActs world net n oc) n oc (serverStateOpen world net n oc) := by
  unfold serverStateOpenActs serverStateOpen
  cases listenAddress world n oc with
  | error e => exact .nothing _
  | ok r =>
    obtain ⟨sockListen, addr⟩ := r
    refine .sent (.send addr) ?_
    dsimp only
    rcases send net n oc (message "SEND" (sendHeaders addr)) with ⟨_ | _, n'⟩
    · exact .nothing _
    · exact does_afterSend h sockListen addr

theorem does_didNotWork :
    Does net (didNotWorkActs world net n oc) n oc (didNotWork world net n oc) := by
  unfold didNotWorkActs didNotWork
  split
  · rename_i hserver
    exact .failed remoteHost_didNotWorkServer (roles_didNotWorkServer hserver) (.nothing _)
  · rename_i hserver
    have hclient : oc.etat = .client := by
      cases hetat : oc.etat with
      | client => rfl
      | server => exact absurd hetat hserver
    split
    · rename_i htried
      have hroles : ({ oc with etat := .server } : OpenConnection).roles = oc.roles.fail := by
        unfold Roles.fail roles
        dsimp only
        rw [hclient]
        exact (if_pos htried).symm
      exact .failed rfl hroles (does_serverStateOpen rfl)
    · rename_i htried
      have hroles : oc.roles = oc.roles.fail := by
        unfold Roles.fail roles
        dsimp only
        rw [hclient]
        exact (if_neg htried).symm
      exact .failed rfl hroles (.nothing _)

theorem does_afterTest (sent : Except Exn Bool) :
    Does net (afterTestActs world net sent n oc) n oc (afterTest world net sent n oc) := by
  unfold afterTestActs afterTest
  rcases sent with e | _ | _
  · exact .nothing _
  · refine .sent .noConnection ?_
    dsimp only
    rcases send net n oc (message "DID_NOT_WORK" ∅) with ⟨_ | _, n'⟩
    · exact .nothing _
    · exact does_didNotWork
  · exact .nothing _

theorem does_sendMessage (inet : Inet) (headers : Headers) :
    Does net (sendMessageActs world net inet headers n oc) n oc
      (sendMessage world net inet headers n oc) := by
  unfold sendMessageActs sendMessage
  cases headers[lit "Address"]? with
  | none => exact .nothing _
  | some address =>
    cases headers[lit "Message"]? with
    | none => exact .nothing _
    | some msg =>
      dsimp only
      cases SockAddress.ofString inet address with
      | error e => exact .nothing _
      | ok addr =>
        dsimp only
        cases connect world addr with
        | error e => exact .nothing _
        | ok conn =>
          exact Does.congr (does_afterTest _) rfl rfl

theorem does_getMessage (inet : Inet) (command : ByteStr) (headers : Headers) :
    Does net (getMessageActs world net inet command headers n oc) n oc
      (getMessage world net inet command headers n oc) := by
  unfold getMessageActs getMessage
  split
  · exact does_sendMessage inet headers
  · split
    · exact does_didNotWork
    · split
      · have hmoved : Does net [] (n.offerDirectConn oc.remoteHost oc.socket)
            { oc with socket := none } (none, _, _) := .nothing none
        exact .offered (hmoved.congr rfl rfl)
      · exact .nothing _

theorem does_run : Does net (runActs world net n oc) n oc (run world net n oc) := by
  unfold runActs run
  split
  · rename_i hserver
    exact does_serverStateOpen hserver
  · exact .nothing _

theorem Event.does (oc : OpenConnection) (e : Event) :
    Does e.net (e.acts oc) e.node oc (e.result oc) := by
  cases e with
  | run world net n => exact does_run
  | getMessage world net n inet command headers => exact does_getMessage ..

/-! The messages have no protocol name, so no parser takes their first line. -/

/-- The parser of the other end makes of a message what it was. -/
def Arrives (pkt : GTTPacket) : Prop :=
  ∃ q, (GTTParser.getPacket GTTParser.rules (GTTParser.fresh.eat pkt.build)).1 = .ok (some q) ∧
    q.method = pkt.method ∧ q.headers = pkt.headers

theorem IsMessage.getPacket {pkt : GTTPacket} (h : IsMessage pkt) :
    (GTTParser.getPacket GTTParser.rules (GTTParser.fresh.eat pkt.build)).1 = .ok none := by
  cases h with
  | send => exact GTTParser.getPacket_noProtocol rfl (show 10 ∉ lit "SEND" by decide)
  | established => exact GTTParser.getPacket_noProtocol rfl (show 10 ∉ lit "ESTABLISHED" by decide)
  | didNotWork | noConnection =>
    exact GTTParser.getPacket_noProtocol rfl (show 10 ∉ lit "DID_NOT_WORK" by decide)

/-- Whatever a connection sends is lost: the parser of the other end gives no packet, and its
dispatcher dereferences the null pointer. -/
theorem message_lost (oc : OpenConnection) (e : Event) {pkt : GTTPacket}
    (h : .sent pkt ∈ e.acts oc) :
    ¬Arrives pkt ∧ ∀ world net inet «from» s,
      Dispatcher.fromN2NP world net inet «from» pkt.build s = (some .nullPointer, s) := by
  have hnone := ((e.does oc).messages pkt h).getPacket
  refine ⟨?_, ?_⟩
  · rintro ⟨q, hq, -⟩
    rw [hnone] at hq
    cases hq
  · intro world net inet «from» s
    simp only [Dispatcher.fromN2NP, hnone]

def self : Node :=
  ⟨⟨3, N2NP.Relay.home⟩, ⟨lit "self", N2NP.Relay.home⟩, true,
    ⟨⟨lit "10.0.0.9", 4⟩, 51324⟩, ∅, 1, ∅, ∅, 0, []⟩

def peer : NodeId := ⟨lit "2-10.0.0.7:51324", N2NP.Relay.home⟩

/-- A world in which somebody connects to the listener at once, and `send` takes `k` bytes. -/
def reached (k : Nat) : World where
  spawn := true
  socket := some 7
  tcp _ _ _ := .ok k
  server := .ok (some 6)
  accept := some (.ok ⟨⟨lit "10.0.0.7", 4⟩, 40001⟩)
  sockname _ := ⟨⟨lit "0.0.0.0", 4⟩, 4000⟩
  openMapPort _ := .error (.fail "UPNP" "")
  recv _ := none
  recv_server _ _ := rfl

/-- A server is asked to open a connection. -/
def serve : Event := .run (reached 4) (fun _ n => .ok n) self

def address : SockAddress := ⟨⟨lit "10.0.0.9", 4⟩, 4000⟩

/-- A client is asked to connect to an address that takes nothing. -/
def connectEvent : Event :=
  .getMessage (reached 0) (fun _ n => .ok n) self Inet.zero (lit "SEND") (sendHeaders address)

/-- The word that nothing could be sent does not come through. -/
theorem message_lost_noConnection :
    .sent (message "DID_NOT_WORK" ∅) ∈ connectEvent.acts (create peer true) ∧
      ¬Arrives (message "DID_NOT_WORK" ∅) := by
  have hsent : .sent (message "DID_NOT_WORK" ∅) ∈ connectEvent.acts (create peer true) := by
    decide +kernel
  exact ⟨hsent, (message_lost _ _ hsent).1⟩

/-- The other end is never asked to connect. -/
theorem send_not_parsed :
    .sent (message "SEND" (sendHeaders address)) ∈ serve.acts (create peer false) ∧
      ¬Arrives (message "SEND" (sendHeaders address)) := by
  have hnone : (GTTParser.getPacket GTTParser.rules
      (GTTParser.fresh.eat (message "SEND" (sendHeaders address)).build)).1 = .ok none := by
    decide +kernel
  refine ⟨by decide +kernel, ?_⟩
  rintro ⟨q, hq, -⟩
  rw [hnone] at hq
  cases hq

/-! The roles. Nothing sets `client_tried`, so a server stays a server, and a client that has
become one too: no failure is the second of a client. -/

end OpenConnection

def Act.FailsAs (role : State) : Act → Prop
  | .failed before _ => before.etat = role ∧ before.tested_method = .direct
  | _ => False

/-- A `DID_NOT_WORK` was handled in the role, while the direct method was tested. -/
def FailedAs (role : State) (log : List Act) : Prop := ∃ a ∈ log, a.FailsAs role

theorem failedAs_cons (role : State) (a : Act) (log : List Act) :
    FailedAs role (a :: log) ↔ a.FailsAs role ∨ FailedAs role log := List.exists_mem_cons_iff ..

theorem not_failedAs_nil (role : State) : ¬FailedAs role [] := by
  simp [FailedAs]

/-- How often a `DID_NOT_WORK` was handled. -/
def failures : List Act → Nat
  | [] => 0
  | .failed .. :: log => failures log + 1
  | .sent _ :: log => failures log
  | .offered _ :: log => failures log

/-- When both roles have failed, one of the failures has made the other method the tested one,
with the flags cleared and the roles swapped. -/
def MovesOn (log : List Act) (tested_method : Method) : Prop :=
  FailedAs .client log → FailedAs .server log →
    (∃ before, .failed before ⟨before.etat.other, false, false, .upnp⟩ ∈ log ∧
      before.tested_method = .direct) ∧ tested_method = .upnp

namespace Roles
variable {r r' : Roles} {log : List Act}

/-- Roles which no failure moves on. -/
structure Stuck (r : Roles) : Prop where
  tested_method : r.tested_method = .direct
  client_tried : r.client_tried = false
  server_tried : r.etat = .client → r.server_tried = false

theorem Stuck.fail (h : r.Stuck) : r.fail.Stuck ∧ r.fail.etat = .server := by
  obtain ⟨etat, client_tried, server_tried, tested_method⟩ := r
  obtain ⟨hmethod, hclient, hserver⟩ := h
  cases hmethod
  cases hclient
  cases etat with
  | client =>
    cases hserver rfl
    exact ⟨⟨rfl, rfl, nofun⟩, rfl⟩
  | server => exact ⟨⟨rfl, rfl, nofun⟩, rfl⟩

theorem Leads.append {mid : Roles} {log' : List Act} (h : Leads mid r log)
    (h' : Leads r' mid log') : Leads r' r (log ++ log') := by
  induction log generalizing r with
  | nil =>
    cases h
    exact h'
  | cons a log ih =>
    cases a with
    | sent pkt => exact ih h
    | offered sock => exact ih h
    | failed before after =>
      obtain ⟨hbefore, hafter, h⟩ := h
      exact ⟨hbefore, hafter, ih h⟩

theorem Stuck.of_leads (hr : r.Stuck) (h : Leads r' r log) : r'.Stuck := by
  induction log generalizing r with
  | nil =>
    cases h
    exact hr
  | cons a log ih =>
    cases a with
    | sent pkt => exact ih hr h
    | offered sock => exact ih hr h
    | failed before after =>
      obtain ⟨-, rfl, h⟩ := h
      exact ih hr.fail.1 h

/-- Every failure of a server is one of a server. -/
theorem Stuck.server_failures (hr : r.Stuck) (hserver : r.etat = .server) (h : Leads r' r log) :
    ¬FailedAs .client log ∧ (FailedAs .server log ↔ 0 < failures log) := by
  induction log generalizing r with
  | nil => simp [not_failedAs_nil, failures]
  | cons a log ih =>
    rw [failedAs_cons, failedAs_cons]
    cases a with
    | sent pkt => simpa only [Act.FailsAs, false_or, failures] using ih hr hserver h
    | offered sock => simpa only [Act.FailsAs, false_or, failures] using ih hr hserver h
    | failed before after =>
      obtain ⟨rfl, rfl, h⟩ := h
      have hlog := (ih hr.fail.1 hr.fail.2 h).1
      have hrole : before.etat ≠ .client := by simp [hserver]
      refine ⟨?_, iff_of_true (.inl ⟨hserver, hr.tested_method⟩) (Nat.succ_pos _)⟩
      rintro (hfails | hfailed)
      · exact hrole hfails.1
      · exact hlog hfailed

/-- The first failure of a client makes a server of it. -/
theorem Stuck.client_failures (hr : r.Stuck) (hclient : r.etat = .client) (h : Leads r' r log) :
    FailedAs .client log ∧ FailedAs .server log ↔ 1 < failures log := by
  induction log generalizing r with
  | nil => simp [not_failedAs_nil, failures]
  | cons a log ih =>
    rw [failedAs_cons, failedAs_cons]
    cases a with
    | sent pkt => simpa only [Act.FailsAs, false_or, failures] using ih hr hclient h
    | offered sock => simpa only [Act.FailsAs, false_or, failures] using ih hr hclient h
    | failed before after =>
      obtain ⟨rfl, rfl, h⟩ := h
      have hlog := (hr.fail.1.server_failures hr.fail.2 h).2
      have hfails : Act.FailsAs .client (.failed before before.fail) :=
        ⟨hclient, hr.tested_method⟩
      have hrole : ¬Act.FailsAs .server (.failed before before.fail) := fun hs => by
        simp [Act.FailsAs, hclient] at hs
      simp only [hfails, hrole, true_or, true_and, false_or, hlog, failures,
        Nat.lt_add_left_iff_pos]

end Roles

namespace OpenConnection

theorem create_stuck (remoteHost : NodeId) (clients : Bool) :
    (create remoteHost clients).roles.Stuck := by
  cases clients
  · exact ⟨rfl, rfl, fun _ => rfl⟩
  · exact ⟨rfl, rfl, fun _ => rfl⟩

theorem leads_of_run {oc₀ oc : OpenConnection} {log : List Act}
    (run : machine.Run (fun _ _ _ => True) oc₀ oc log) : Roles.Leads oc.roles oc₀.roles log := by
  have hstart : Roles.Leads oc₀.roles oc₀.roles [] := rfl
  refine run.invariant (P := fun oc log => Roles.Leads oc.roles oc₀.roles log) hstart ?_
  intro oc log e oc' out h _ taken
  obtain ⟨-, taken⟩ := Option.ite_none_left_eq_some.mp taken
  cases taken
  exact h.append (e.does oc).roles

/-- The direct method is tested for good. A connection is as it should be exactly when it has begun
as a server or has not failed twice: the first failure of a client is one of a client, any other
one is of a server. -/
theorem movesOn_iff (remoteHost : NodeId) (clients : Bool) {oc : OpenConnection} {log : List Act}
    (run : machine.Run (fun _ _ _ => True) (create remoteHost clients) oc log) :
    oc.tested_method = .direct ∧
      (MovesOn log oc.tested_method ↔ clients = false ∨ failures log ≤ 1) := by
  have hstuck := create_stuck remoteHost clients
  have hleads := leads_of_run run
  have hdirect : oc.tested_method = .direct := (hstuck.of_leads hleads).tested_method
  have hmoves : MovesOn log oc.tested_method ↔ ¬(FailedAs .client log ∧ FailedAs .server log) := by
    rw [hdirect]
    refine ⟨fun h hboth => ?_, fun h hclient hserver => absurd ⟨hclient, hserver⟩ h⟩
    have hupnp : Method.direct = .upnp := (h hboth.1 hboth.2).2
    cases hupnp
  refine ⟨hdirect, hmoves.trans ?_⟩
  cases clients with
  | false =>
    have hnone := (hstuck.server_failures rfl hleads).1
    exact iff_of_true (fun hboth => hnone hboth.1) (.inl rfl)
  | true =>
    rw [hstuck.client_failures rfl hleads]
    simp only [Nat.not_lt, Bool.true_eq_false, false_or]

/-- A `DID_NOT_WORK` comes. -/
def didNotWorkEvent : Event :=
  .getMessage (reached 4) (fun _ n => .ok n) self Inet.zero (lit "DID_NOT_WORK") ∅

/-- A client has failed: it has asked the other end to connect to the server it has become. -/
theorem movesOn_iff_client :
    ∃ oc log, machine.Run (fun _ _ _ => True) (create peer true) oc log ∧ oc.etat = .server ∧
      failures log = 1 ∧ MovesOn log oc.tested_method := by
  have h : (machine.exec (fun _ _ _ => true) (create peer true, []) [didNotWorkEvent]).map
      (fun r => (r.1.etat, failures r.2)) = some (.server, 1) := by
    decide +kernel
  obtain ⟨⟨oc, log⟩, hrun, heq⟩ := Option.map_eq_some_iff.mp h
  obtain ⟨hserver, hfailed⟩ : oc.etat = .server ∧ failures log = 1 := by
    simpa only [Prod.mk.injEq] using heq
  have run := (Machine.Run.exec .start hrun).free
  exact ⟨oc, log, run, hserver, hfailed, (movesOn_iff peer true run).2.mpr (.inr hfailed.le)⟩

/-- A client has failed, and so has the server it became when the next `DID_NOT_WORK` came: the
direct method is tested still. -/
theorem stays_direct :
    ∃ oc log, machine.Run (fun _ _ _ => True) (create peer true) oc log ∧
      FailedAs .client log ∧ FailedAs .server log ∧ oc.tested_method = .direct ∧
      ¬MovesOn log oc.tested_method := by
  have h : machine.exec (fun _ _ _ => true) (create peer true, [])
      [didNotWorkEvent, didNotWorkEvent] =
      some (⟨peer, .server, false, true, .direct, none⟩,
        [.failed ⟨.client, false, false, .direct⟩ ⟨.server, false, false, .direct⟩,
          .sent (message "SEND" (sendHeaders address)),
          .failed ⟨.server, false, false, .direct⟩ ⟨.server, false, true, .direct⟩]) := by
    decide +kernel
  have run := (Machine.Run.exec .start h).free
  refine ⟨_, _, run, ⟨_, .head _, rfl, rfl⟩, ⟨_, .tail _ (.tail _ (.head _)), rfl, rfl⟩, rfl,
    fun hmoves => ?_⟩
  have hupnp := (hmoves ⟨_, .head _, rfl, rfl⟩ ⟨_, .tail _ (.tail _ (.head _)), rfl, rfl⟩).2
  cases hupnp

end OpenConnection
end Epyx.DirectConnection
