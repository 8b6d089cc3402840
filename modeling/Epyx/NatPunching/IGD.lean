import Epyx.NatPunching.Command
import Epyx.Net.URI

/-! `natpunching/upnp/igd.cpp`: what is asked of an internet gateway, through the service that is
taken for its WAN connection. -/
namespace Epyx.UPNP

structure PortMap where
  enabled : Bool
  destination : SockAddress
  natPort : UInt16
  protocol : ByteStr
  description : ByteStr
  deriving DecidableEq, Repr

inductive Protocol where
  | TCP
  | UDP
  deriving DecidableEq, Repr

def Protocol.name : Protocol → ByteStr
  | .TCP => lit "TCP"
  | .UDP => lit "UDP"

structure IGD where
  rootDescURI : URI
  address : SockAddress
  services : Services

/-- What a gateway object works with. `envelope` is what TinyXML prints for a command, and `answer`
what comes back for a command behind those that were sent before it, null where nothing does. -/
structure Surroundings where
  inet : Inet
  envelope : ByteStr → String → List (ByteStr × ByteStr) → ByteStr
  answer : List Command → Command → Option CommandResult
  /-- the addresses of `NetIf::getAllNet` -/
  interfaces : List IpAddress

namespace IGD
variable (w : Surroundings)

/-- `IGD::IGD(rootDescURI)` -/
def new (rootDescURI : URI) : IGD := ⟨rootDescURI, rootDescURI.addr, ∅⟩

/-- `IGD::getServices`, from what the description of the gateway came to. -/
def getServices (igd : IGD) (services : Option Services) : Bool × IGD :=
  match services with
  | none => (false, igd)
  | some services => (true, { igd with services := services })

/-- The loop of `initWanIPConnCommand`. The condition is the position that `find` gives, which is
true unless it is 0; `npos` is true as well. -/
def findService (services : Services) : Option (ByteStr × ByteStr) :=
  services.toList.find? fun entry => Text.find entry.1 (lit "WANIPConn") ≠ some 0

/-- `IGD::initWanIPConnCommand` -/
def initWanIPConnCommand (igd : IGD) (command : Command) : Bool × Command :=
  match findService igd.services with
  | none => (false, command)
  | some (service, path) => (true, command.setRemote igd.address service path)

/-- `Command::queryAnswer`, with the commands that were sent so far. -/
def queryAnswer (order : Command) (sent : List Command) : Option CommandResult × List Command :=
  match order.query w.envelope with
  | none => (none, sent)
  | some _ => (w.answer sent order, sent ++ [order])

/-- `IGD::getExtIPAdress` -/
def getExtIPAdress (igd : IGD) (sent : List Command) : Except Exn IpAddress × List Command :=
  let (found, order) := igd.initWanIPConnCommand .new
  if ¬found then (.ok .unset, sent)
  else
    match queryAnswer w (order.setAction .getExtIp) sent with
    | (none, sent) => (.ok .unset, sent)
    | (some res, sent) =>
      (IpAddress.ofString w.inet (res.getString "NewExternalIPAddress") 0, sent)

/-- What an answer says of a port map. -/
def portMap (res : CommandResult) : Except Exn PortMap := do
  let intPort ← res.getUShort "NewInternalPort"
  let client ← IpAddress.ofString w.inet (res.getString "NewInternalClient") 4
  let natPort ← res.getUShort "NewExternalPort"
  return ⟨res.getBoolean "NewEnabled", ⟨client, intPort⟩, natPort, res.getString "NewProtocol",
    res.getString "NewPortMappingDescription"⟩

/-- The loop of `getListPortMap` from an index on; null when it has not ended in this number of
rounds, since it goes on for as long as the gateway has port maps. -/
def listPortMap (igd : IGD) : Nat → Int → List Command →
    Option (Except Exn (List PortMap)) × List Command
  | 0, _, sent => (none, sent)
  | rounds + 1, index, sent =>
    let (found, order) := igd.initWanIPConnCommand .new
    if ¬found then (some (.ok []), sent)
    else
      let order := (order.setAction .getGenPortMap).addArgument "NewPortMappingIndex"
        (Text.fromInt index)
      match queryAnswer w order sent with
      | (none, sent) => (some (.ok []), sent)
      | (some res, sent) =>
        if res.httpStatus ≠ 200 then (some (.ok []), sent)
        else
          match portMap w res with
          | .error e => (some (.error e), sent)
          | .ok tmp =>
            let (rest, sent) := listPortMap igd rounds (toInt32 (index + 1)) sent
            (rest.map (·.map (tmp :: ·)), sent)

/-- `IGD::getListPortMap` -/
def getListPortMap (igd : IGD) (rounds : Nat) (sent : List Command) :
    Option (Except Exn (List PortMap)) × List Command :=
  listPortMap w igd rounds 0 sent

/-- `IGD::getLocalAdress`: the first IPv4 address that begins like that of the gateway, by
`memcmp` on three bytes, the NUL at the end included. -/
def getLocalAdress (igd : IGD) : IpAddress :=
  (w.interfaces.find? fun iface => iface.ipVersion = 4 ∧
    (iface.ip ++ [0]).take 3 = (igd.address.ip.ip ++ [0]).take 3).getD .unset

/-- `IGD::addPortMap` -/
def addPortMap (igd : IGD) (locPort : UInt16) (proto : Protocol) (extPort : UInt16)
    (sent : List Command) : Except Exn SockAddress × List Command :=
  let localIP := igd.getLocalAdress w
  match igd.getExtIPAdress w sent with
  | (.error e, sent) => (.error e, sent)
  | (.ok extIP, sent) =>
    let (found, order) := igd.initWanIPConnCommand .new
    if ¬found then (.ok .unset, sent)
    else
      let order := ((((((((order.setAction .addPortMap).addArgument "NewRemoteHost" []).addArgument
        "NewExternalPort" (Text.fromInt extPort.toNat)).addArgument
        "NewProtocol" proto.name).addArgument
        "NewInternalPort" (Text.fromInt locPort.toNat)).addArgument
        "NewInternalClient" localIP.ip).addArgument
        "NewEnabled" (lit "1")).addArgument
        "NewPortMappingDescription"
          (lit "Epyx Going Through your Nat with UPnP IGD Protocol")).addArgument
        "NewLeaseDuration" (lit "0")
      match queryAnswer w order sent with
      | (none, sent) => (.ok .unset, sent)
      | (some res, sent) =>
        (.ok (if res.httpStatus = 500 then .unset else ⟨extIP, extPort⟩), sent)

/-- `IGD::delPortMap` -/
def delPortMap (igd : IGD) (addr : SockAddress) (proto : Protocol) (sent : List Command) :
    Bool × List Command :=
  let (found, order) := igd.initWanIPConnCommand .new
  if ¬found then (false, sent)
  else
    let order := (((order.setAction .delPortMap).addArgument "NewRemoteHost" []).addArgument
      "NewExternalPort" (Text.fromInt addr.port.toNat)).addArgument "NewProtocol" proto.name
    match queryAnswer w order sent with
    | (none, sent) => (false, sent)
    | (some res, sent) => (res.httpStatus ≠ 500, sent)

/-! Where the commands go. -/

variable {w}

/-- The command is for this service of the gateway. -/
def For (igd : IGD) (entry : ByteStr × ByteStr) (order : Command) : Prop :=
  order.address = igd.address ∧ order.service = entry.1 ∧ order.path = entry.2

@[simp] theorem for_setAction {igd : IGD} {entry : ByteStr × ByteStr} {order : Command}
    {action : ActionType} : For igd entry (order.setAction action) ↔ For igd entry order := Iff.rfl

@[simp] theorem for_addArgument {igd : IGD} {entry : ByteStr × ByteStr} {order : Command}
    {name : String} {value : ByteStr} :
    For igd entry (order.addArgument name value) ↔ For igd entry order := Iff.rfl

/-- More commands are sent, all of them for the service that is found. -/
def Sends (igd : IGD) (sent sent' : List Command) : Prop :=
  ∃ orders, sent' = sent ++ orders ∧
    ∀ order ∈ orders, ∃ entry, findService igd.services = some entry ∧ For igd entry order

theorem Sends.refl (igd : IGD) (sent : List Command) : Sends igd sent sent :=
  ⟨[], (List.append_nil sent).symm, nofun⟩

theorem Sends.trans {igd : IGD} {sent₁ sent₂ sent₃ : List Command} (h : Sends igd sent₁ sent₂)
    (h' : Sends igd sent₂ sent₃) : Sends igd sent₁ sent₃ := by
  obtain ⟨orders, rfl, horders⟩ := h
  obtain ⟨orders', rfl, horders'⟩ := h'
  refine ⟨orders ++ orders', List.append_assoc .., fun order ho => ?_⟩
  exact (List.mem_append.mp ho).elim (horders order) (horders' order)

/-- A command that is initialised is for the service that is found. -/
theorem initWanIPConnCommand_for {igd : IGD} {command : Command}
    (h : (igd.initWanIPConnCommand command).1 = true) :
    ∃ entry, findService igd.services = some entry ∧
      For igd entry (igd.initWanIPConnCommand command).2 := by
  unfold initWanIPConnCommand at h ⊢
  split at h
  · cases h
  · rename_i service path hfound
    exact ⟨(service, path), hfound, rfl, rfl, rfl⟩

/-- A query sends its command, if anything; what is added to an initialised one leaves it for the
service that is found. -/
theorem sends_of_query {igd : IGD} {command order : Command} {sent sent' : List Command}
    {res : Option CommandResult} (hinit : ¬¬(igd.initWanIPConnCommand command).1 = true)
    (hquery : queryAnswer w order sent = (res, sent'))
    (horder : ∀ entry, For igd entry (igd.initWanIPConnCommand command).2 → For igd entry order) :
    Sends igd sent sent' := by
  obtain ⟨entry, hfound, hfor⟩ := initWanIPConnCommand_for (not_not.mp hinit)
  unfold queryAnswer at hquery
  split at hquery
  · cases hquery
    exact .refl igd sent
  · cases hquery
    refine ⟨[order], rfl, fun order' ho => ?_⟩
    cases List.mem_singleton.mp ho
    exact ⟨entry, hfound, horder entry hfor⟩

theorem getExtIPAdress_sends (igd : IGD) (sent : List Command) :
    Sends igd sent (igd.getExtIPAdress w sent).2 := by
  unfold getExtIPAdress
  dsimp only
  split
  · exact .refl igd sent
  · rename_i hinit
    split
    · rename_i hquery
      exact sends_of_query hinit hquery (by simp)
    · rename_i hquery
      exact sends_of_query hinit hquery (by simp)

theorem listPortMap_sends (igd : IGD) (rounds : Nat) (index : Int) (sent : List Command) :
    Sends igd sent (igd.listPortMap w rounds index sent).2 := by
  induction rounds generalizing index sent with
  | zero => exact .refl igd sent
  | succ rounds ih =>
    unfold listPortMap
    dsimp only
    split
    · exact .refl igd sent
    · rename_i hinit
      split
      · rename_i hquery
        exact sends_of_query hinit hquery (by simp)
      · rename_i hquery
        have hsends := sends_of_query hinit hquery (by simp)
        split
        · exact hsends
        · split
          · exact hsends
          · exact hsends.trans (ih _ _)

theorem addPortMap_sends (igd : IGD) (locPort : UInt16) (proto : Protocol) (extPort : UInt16)
    (sent : List Command) : Sends igd sent (igd.addPortMap w locPort proto extPort sent).2 := by
  have hext := getExtIPAdress_sends (w := w) igd sent
  unfold addPortMap
  dsimp only
  split
  · rename_i hget
    rwa [hget] at hext
  · rename_i hget
    rw [hget] at hext
    split
    · exact hext
    · rename_i hinit
      split
      · rename_i hquery
        exact hext.trans (sends_of_query hinit hquery (by simp))
      · rename_i hquery
        exact hext.trans (sends_of_query hinit hquery (by simp))

theorem delPortMap_sends (igd : IGD) (addr : SockAddress) (proto : Protocol)
    (sent : List Command) : Sends igd sent (igd.delPortMap w addr proto sent).2 := by
  unfold delPortMap
  dsimp only
  split
  · exact .refl igd sent
  · rename_i hinit
    split
    · rename_i hquery
      exact sends_of_query hinit hquery (by simp)
    · rename_i hquery
      exact sends_of_query hinit hquery (by simp)

/-- What is asked of a gateway. -/
inductive Call where
  | getExtIPAdress
  | getListPortMap (rounds : Nat)
  | addPortMap (locPort : UInt16) (proto : Protocol) (extPort : UInt16)
  | delPortMap (addr : SockAddress) (proto : Protocol)

/-- The commands that were sent when a call has ended, or after some rounds of its loop. -/
def Call.sends (w : Surroundings) (igd : IGD) (sent : List Command) : Call → List Command
  | .getExtIPAdress => (igd.getExtIPAdress w sent).2
  | .getListPortMap rounds => (igd.getListPortMap w rounds sent).2
  | .addPortMap locPort proto extPort => (igd.addPortMap w locPort proto extPort sent).2
  | .delPortMap addr proto => (igd.delPortMap w addr proto sent).2

theorem call_sends (igd : IGD) (call : Call) (sent : List Command) :
    Sends igd sent (call.sends w igd sent) := by
  cases call with
  | getExtIPAdress => exact getExtIPAdress_sends igd sent
  | getListPortMap rounds => exact listPortMap_sends igd rounds 0 sent
  | addPortMap locPort proto extPort => exact addPortMap_sends igd locPort proto extPort sent
  | delPortMap addr proto => exact delPortMap_sends igd addr proto sent

/-- The service with this type is one for WAN connections. -/
def IsWanIPConn (service : ByteStr) : Prop := lit "WANIPConn" <:+: service

instance (service : ByteStr) : Decidable (IsWanIPConn service) :=
  inferInstanceAs (Decidable (_ <:+: _))

/-- The command is for a service of the gateway that is one for WAN connections. -/
def Directed (igd : IGD) (order : Command) : Prop :=
  ∃ entry ∈ igd.services.toList, For igd entry order ∧ IsWanIPConn entry.1

/-- Every command that is initialised or sent is for a service for WAN connections, and without
one there is none. -/
structure Meets (igd : IGD) : Prop where
  built : ∀ command, (igd.initWanIPConnCommand command).1 = true →
    Directed igd (igd.initWanIPConnCommand command).2
  sent : ∀ w (call : Call) sent, ∃ orders, call.sends w igd sent = sent ++ orders ∧
    ∀ order ∈ orders, Directed igd order
  silent : (∀ entry ∈ igd.services.toList, ¬IsWanIPConn entry.1) →
    (∀ command, (igd.initWanIPConnCommand command).1 = false) ∧
    ∀ w (call : Call) sent, call.sends w igd sent = sent

theorem findService_eq (services : Services) :
    findService services = services.toList.find? fun entry => ¬lit "WANIPConn" <+: entry.1 := by
  unfold findService
  congr 1
  funext entry
  rw [decide_eq_decide, ne_eq, Text.find_eq_zero_iff]

/-- Of the types that do not begin with the text that is looked for, the first one, if there is
one, has it. -/
def FirstIsWanIPConn (services : Services) : Prop :=
  ∀ entry, services.toList.find? (fun entry => ¬lit "WANIPConn" <+: entry.1) = some entry →
    IsWanIPConn entry.1

/-- The commands go where they should just for the gateways whose first service that counts is one
for WAN connections. -/
theorem meets_iff (igd : IGD) : Meets igd ↔ FirstIsWanIPConn igd.services := by
  unfold FirstIsWanIPConn
  rw [← findService_eq]
  constructor
  · intro h entry hfound
    have hinit : (igd.initWanIPConnCommand .new).1 = true := by
      rw [initWanIPConnCommand, hfound]
    obtain ⟨entry', hfound', -, hservice, -⟩ := initWanIPConnCommand_for hinit
    obtain ⟨wan, -, ⟨-, hwan, -⟩, hconn⟩ := h.built _ hinit
    rw [hfound', Option.some.injEq] at hfound
    rwa [← hfound, ← hservice, hwan]
  · intro h
    have hdirected : ∀ {entry order}, findService igd.services = some entry →
        For igd entry order → Directed igd order := fun hfound hfor =>
      ⟨_, List.mem_of_find?_eq_some hfound, hfor, h _ hfound⟩
    refine ⟨fun command hinit => ?_, fun w call sent => ?_, fun hnone => ?_⟩
    · obtain ⟨entry, hfound, hfor⟩ := initWanIPConnCommand_for hinit
      exact hdirected hfound hfor
    · obtain ⟨orders, horders, hfor⟩ := call_sends (w := w) igd call sent
      refine ⟨orders, horders, fun order ho => ?_⟩
      obtain ⟨entry, hfound, hentry⟩ := hfor order ho
      exact hdirected hfound hentry
    · have hfound : findService igd.services = none := by
        cases hfound : findService igd.services with
        | none => rfl
        | some entry =>
          have hmem := List.mem_of_find?_eq_some hfound
          exact absurd (h entry hfound) (hnone entry hmem)
      refine ⟨fun command => ?_, fun w call sent => ?_⟩
      · rw [initWanIPConnCommand, hfound]
      · obtain ⟨orders, horders, hfor⟩ := call_sends (w := w) igd call sent
        have hnil : orders = [] := List.eq_nil_iff_forall_not_mem.mpr fun order ho => by
          obtain ⟨entry, hentry, -⟩ := hfor order ho
          rw [hfound] at hentry
          cases hentry
        rw [horders, hnil, List.append_nil]

/-- A gateway whose first service is the configuration of its LAN. -/
def router : IGD :=
  { IGD.new ⟨lit "http", ⟨⟨lit "192.168.42.1", 4⟩, 1337⟩, lit "/rootDesc.xml"⟩ with
    services := (∅ : Services).insert (lit "urn:schemas-upnp-org:service:WANIPConnection:1")
        (lit "/ctl/IPConn") |>.insert (lit "urn:schemas-upnp-org:service:Layer3Forwarding:1")
        (lit "/ctl/L3F") }

/-- Its commands go to another service than that of the WAN connection. -/
theorem initWanIPConnCommand_layer3 :
    (router.initWanIPConnCommand .new).1 = true ∧
    (router.initWanIPConnCommand .new).2.service =
      lit "urn:schemas-upnp-org:service:Layer3Forwarding:1" ∧
    ¬Meets router := by
  have hinit : (router.initWanIPConnCommand .new).1 = true ∧
      (router.initWanIPConnCommand .new).2.service =
        lit "urn:schemas-upnp-org:service:Layer3Forwarding:1" := by
    decide +kernel
  refine ⟨hinit.1, hinit.2, fun h => ?_⟩
  obtain ⟨entry, -, ⟨-, hservice, -⟩, hconn⟩ := h.built _ hinit.1
  rw [← hservice, hinit.2] at hconn
  revert hconn
  decide +kernel

end IGD
end Epyx.UPNP
