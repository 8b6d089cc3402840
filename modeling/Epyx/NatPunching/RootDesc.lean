import Epyx.Lib.Forest
import Epyx.Lib.TreeMap
import Epyx.Parser.HTTPParser

/-! `natpunching/upnp/rootdesc.cpp`: the services of an internet gateway, out of the description of
its devices. -/
namespace Epyx.UPNP
open Lib
open Forest (Reaches visits)

/-- `TiXmlNode::NodeType`, of the nodes below a document. -/
inductive NodeType where
  | element
  | comment
  | unknown
  | text
  | declaration
  deriving DecidableEq, Repr

/-- What a `TiXmlNode` says of itself; `value` is the C string of `Value`. -/
structure NodeLabel where
  type : NodeType
  value : ByteStr
  deriving DecidableEq

/-- A `TiXmlNode` with its children. A pointer to one that stands among siblings is the list of it
and those behind it, and the empty list is the null pointer. -/
abbrev TiXmlNode := RoseTree NodeLabel

namespace TiXmlNode

/-- `ToElement` is not null. -/
def isElement (node : TiXmlNode) : Bool := node.label.type = .element

/-- The first element in a list of siblings. -/
def firstElement (siblings : List TiXmlNode) : List TiXmlNode :=
  siblings.dropWhile fun node => !isElement node

/-- `TiXmlNode::FirstChildElement()` -/
def firstChildElement (node : TiXmlNode) : List TiXmlNode := firstElement node.children

/-- `TiXmlNode::FirstChildElement(const char *)` -/
def firstChildElementNamed (node : TiXmlNode) (value : String) : Option TiXmlNode :=
  node.children.find? fun child => child.label.value = lit value ∧ isElement child

/-- `TiXmlElement::GetText`: null if the first child is not a text. -/
def getText (node : TiXmlNode) : Option ByteStr :=
  match node.children with
  | [] => none
  | child :: _ => if child.label.type = .text then some child.label.value else none

/-- `FirstChildElement(value)->GetText()`, where there is both. -/
def textOf (node : TiXmlNode) (value : String) : Option ByteStr :=
  (firstChildElementNamed node value).bind getText

end TiXmlNode

open TiXmlNode

/-- `std::map<std::string, std::string>`: the control url of each type of service. -/
abbrev Services := Std.ExtTreeMap ByteStr ByteStr

namespace RootDesc

/-- `node->FirstChildElement(value)->GetText()`, which is used without a look at the pointers. -/
def childText (node : TiXmlNode) (value : String) : Except Exn ByteStr :=
  match textOf node value with
  | none => .error .nullPointer
  | some text => .ok text

theorem sizeOf_firstElement (siblings : List TiXmlNode) :
    sizeOf (firstElement siblings) ≤ sizeOf siblings := by
  unfold firstElement
  induction siblings with
  | nil => exact Nat.le_refl _
  | cons node siblings ih =>
    rw [List.dropWhile_cons]
    split
    · simp only [List.cons.sizeOf_spec]
      omega
    · exact Nat.le_refl _

theorem sizeOf_firstChildElement (node : TiXmlNode) (siblings : List TiXmlNode) :
    sizeOf (firstChildElement node) < sizeOf (node :: siblings) := by
  obtain ⟨label, children⟩ := node
  have h := sizeOf_firstElement children
  simp only [firstChildElement, RoseTree.children_node, List.cons.sizeOf_spec,
    RoseTree.node.sizeOf_spec]
  omega

/-- `RootDesc::parseRootDescFile` -/
def parseRootDescFile (siblings : List TiXmlNode) (services : Services) :
    Except Exn Services :=
  match siblings with
  | [] => .ok services
  | node :: siblings => do
    let services ←
      if node.label.value = lit "service" then do
        let type ← childText node "serviceType"
        let ctrlUrl ← childText node "controlURL"
        pure (services.insert type ctrlUrl)
      else if node.label.value = lit "serviceList" then
        parseRootDescFile (firstChildElement node) services
      else if node.label.value = lit "deviceList" then
        parseRootDescFile (firstChildElement node) services
      else if node.label.value = lit "device" then
        parseRootDescFile (firstChildElement node) services
      else pure services
    -- `NextSiblingElement`, which is looked at before the call
    if firstElement siblings ≠ [] then parseRootDescFile (firstElement siblings) services
    else pure services
termination_by sizeOf siblings
decreasing_by
  · have h := sizeOf_firstElement siblings
    simp only [List.cons.sizeOf_spec]
    omega
  · exact sizeOf_firstChildElement node siblings
  · exact sizeOf_firstChildElement node siblings
  · exact sizeOf_firstChildElement node siblings

/-- `RootDesc::eat`: null while the packet has not come. `parse` is what TinyXML makes of the text
of a document: the children of the document. -/
def eat (parse : ByteStr → List TiXmlNode) (htpars : GTTParser) (data : ByteStr) :
    Except Exn (Option Services) × GTTParser :=
  match GTTParser.getPacket HTTPParser.rules (htpars.eat data) with
  | (.error e, htpars) => (.error e, htpars)
  | (.ok none, htpars) => (.ok none, htpars)
  | (.ok (some pkt), htpars) =>
    match firstElement (parse (cstr pkt.body)) with
    | [] => (.error .nullPointer, htpars)
    | root :: _ => ((parseRootDescFile (firstChildElement root) ∅).map some, htpars)

/-! The services that are listed, and in which order. -/

/-- The elements that are descended through. -/
def descends (label : NodeLabel) : Bool :=
  label.type = .element ∧ (label.value = lit "device" ∨ label.value = lit "deviceList" ∨
    label.value = lit "serviceList")

def isService (node : TiXmlNode) : Bool := isElement node ∧ node.label.value = lit "service"

/-- A service element with a text for its type and one for its control url. -/
structure Describes (node : TiXmlNode) (type url : ByteStr) : Prop where
  service : isService node
  serviceType : textOf node "serviceType" = some type
  controlURL : textOf node "controlURL" = some url

/-- The service at a path below a list of siblings. The order of the paths is that of the
document. -/
def Lists (siblings : List TiXmlNode) (path : List Nat) (type url : ByteStr) : Prop :=
  ∃ node, Reaches descends siblings path node ∧ Describes node type url

/-- What a node does to the map by itself. -/
def record (node : TiXmlNode) (services : Services) : Except Exn Services :=
  if isService node then do
    let type ← childText node "serviceType"
    let ctrlUrl ← childText node "controlURL"
    pure (services.insert type ctrlUrl)
  else pure services

theorem parseRootDescFile_nil (services : Services) :
    parseRootDescFile [] services = .ok services := by
  rw [parseRootDescFile]

/-- The three kinds of element that are descended through are treated alike. -/
theorem ite_descends {γ : Type*} {label : NodeLabel} (h : label.type = .element) (x y : γ) :
    (if label.value = lit "serviceList" then x
      else if label.value = lit "deviceList" then x
      else if label.value = lit "device" then x else y) = if descends label then x else y := by
  by_cases hservices : label.value = lit "serviceList"
  · simp [descends, h, hservices]
  · by_cases hdevices : label.value = lit "deviceList"
    · simp [descends, h, hdevices]
    · by_cases hdevice : label.value = lit "device"
      · simp [descends, h, hdevice]
      · simp [descends, h, hservices, hdevices, hdevice]

/-- An element is looked at, then its children, if it is descended through, then the siblings. -/
theorem parseRootDescFile_cons {node : TiXmlNode} (hnode : isElement node)
    (siblings : List TiXmlNode) (services : Services) :
    parseRootDescFile (node :: siblings) services = record node services >>= fun services =>
      (if descends node.label then parseRootDescFile (firstChildElement node) services
        else pure services) >>= parseRootDescFile (firstElement siblings) := by
  have hsiblings : ∀ services : Services,
      (if firstElement siblings ≠ [] then parseRootDescFile (firstElement siblings) services
        else pure services) = parseRootDescFile (firstElement siblings) services := by
    intro services
    split
    · rfl
    · rename_i hnil
      rw [not_not.mp hnil, parseRootDescFile_nil]
      rfl
  have helement : node.label.type = .element := by simpa [isElement] using hnode
  rw [parseRootDescFile]
  simp only [hsiblings, ite_descends helement]
  by_cases hservice : node.label.value = lit "service"
  · have hother : lit "service" ≠ lit "device" ∧ lit "service" ≠ lit "deviceList" ∧
        lit "service" ≠ lit "serviceList" := by decide
    have hdescends : descends node.label = false := by simp [descends, hservice, hother]
    have his : isService node = true := by simp [isService, hnode, hservice]
    simp only [record, his, hservice, hdescends, if_true, Bool.false_eq_true, if_false, bind_assoc,
      pure_bind]
  · have his : isService node = false := by simp [isService, hservice]
    simp only [record, his, hservice, if_false, Bool.false_eq_true, pure_bind]
    split
    · rfl
    · rfl

/-- The function goes through the nodes in document order. -/
theorem parseRootDescFile_eq (i : Nat) (siblings : List TiXmlNode) (services : Services) :
    parseRootDescFile (firstElement siblings) services =
      (visits descends i siblings).foldlM (fun services x => record x.2 services) services := by
  induction siblings using Forest.induction generalizing i services with
  | nil =>
    rw [visits, firstElement, List.dropWhile_nil, parseRootDescFile_nil]
    rfl
  | cons label children siblings hchildren hsiblings =>
    rw [Forest.visits_cons, List.foldlM_cons]
    simp only [List.foldlM_append]
    cases hnode : isElement (.node label children) with
    | false =>
      have hfirst : firstElement (.node label children :: siblings) = firstElement siblings := by
        rw [firstElement, List.dropWhile_cons, hnode]
        rfl
      have hdescends : descends label = false := by
        have htype : label.type ≠ .element := of_decide_eq_false hnode
        simp [descends, htype]
      have his : isService (.node label children) = false := by simp [isService, hnode]
      rw [hfirst, hsiblings (i + 1), hdescends]
      simp only [record, his, Bool.false_eq_true, if_false, List.foldlM_nil, pure_bind]
    | true =>
      have hfirst : firstElement (.node label children :: siblings) =
          .node label children :: siblings := by
        rw [firstElement, List.dropWhile_cons, hnode]
        rfl
      rw [hfirst, parseRootDescFile_cons hnode]
      congr 1
      funext services
      rw [RoseTree.label_node]
      split
      · rw [firstChildElement, RoseTree.children_node, hchildren 0, List.foldlM_map]
        congr 1
        funext services
        exact hsiblings (i + 1) services
      · simp only [List.foldlM_nil, pure_bind]
        exact hsiblings (i + 1) services

/-- What a service is listed with. -/
def texts (node : TiXmlNode) : Option (ByteStr × ByteStr) :=
  if isService node then
    (textOf node "serviceType").bind fun type =>
      (textOf node "controlURL").map fun url => (type, url)
  else none

theorem texts_eq_some {node : TiXmlNode} {type url : ByteStr} :
    texts node = some (type, url) ↔ Describes node type url := by
  simp only [texts, Option.ite_none_right_eq_some, Option.bind_eq_some_iff, Option.map_eq_some_iff,
    Prod.mk.injEq]
  constructor
  · rintro ⟨hservice, type', htype, url', hurl, rfl, rfl⟩
    exact ⟨hservice, htype, hurl⟩
  · intro h
    exact ⟨h.service, type, h.serviceType, url, h.controlURL, rfl, rfl⟩

theorem record_describes {node : TiXmlNode} {type url : ByteStr} (h : Describes node type url)
    (services : Services) : record node services = .ok (services.insert type url) := by
  simp only [record, h.service, if_true, childText, h.serviceType, h.controlURL]
  rfl

/-- The services below a list of siblings, in document order. -/
def listed (siblings : List TiXmlNode) : List (List Nat × ByteStr × ByteStr) :=
  (visits descends 0 siblings).filterMap fun x => (texts x.2).map fun entry => (x.1, entry)

theorem mem_listed {siblings : List TiXmlNode} {path : List Nat} {type url : ByteStr} :
    (path, type, url) ∈ listed siblings ↔ Lists siblings path type url := by
  simp only [listed, List.mem_filterMap, Option.map_eq_some_iff, Prod.exists, Prod.mk.injEq]
  constructor
  · rintro ⟨path', node, hvisit, type', url', htexts, rfl, rfl, rfl⟩
    exact ⟨node, Forest.mem_visits_zero.mp hvisit, texts_eq_some.mp htexts⟩
  · rintro ⟨node, hreach, hdescribes⟩
    exact ⟨path, node, Forest.mem_visits_zero.mpr hreach, type, url,
      texts_eq_some.mpr hdescribes, rfl, rfl, rfl⟩

/-- With a type and a control url in every service, the function inserts what is listed. -/
theorem parseRootDescFile_listed {siblings : List TiXmlNode}
    (h : ∀ path node, Reaches descends siblings path node → isService node →
      ∃ type url, Describes node type url) (services : Services) :
    parseRootDescFile (firstElement siblings) services =
      .ok ((listed siblings).foldl (fun services x => services.insert x.2.1 x.2.2) services) := by
  have hvisits : ∀ x ∈ visits descends 0 siblings, isService x.2 →
      ∃ type url, Describes x.2 type url :=
    fun x hx => h x.1 x.2 (Forest.mem_visits_zero.mp hx)
  rw [parseRootDescFile_eq 0, listed]
  generalize visits descends 0 siblings = visited at hvisits
  induction visited generalizing services with
  | nil => rfl
  | cons x visited ih =>
    have hrest := fun services => ih services fun y hy => hvisits y (List.mem_cons_of_mem x hy)
    rw [List.foldlM_cons, List.filterMap_cons]
    cases hservice : isService x.2 with
    | true =>
      obtain ⟨type, url, hdescribes⟩ := hvisits x (List.mem_cons_self ..) hservice
      rw [record_describes hdescribes, texts_eq_some.mpr hdescribes]
      exact hrest _
    | false =>
      have hrecord : record x.2 services = .ok services := by
        simp only [record, hservice, Bool.false_eq_true, if_false]
        rfl
      have htexts : texts x.2 = none := by
        simp only [texts, hservice, Bool.false_eq_true, if_false]
      rw [hrecord, htexts]
      exact hrest services

/-- The url found for a type is the one of the last service of that type, in document order. -/
theorem getElem?_listed (siblings : List TiXmlNode) (services : Services) {type url : ByteStr} :
    ((listed siblings).foldl (fun services x => services.insert x.2.1 x.2.2) services)[type]? =
        some url ↔
      (∃ path, Lists siblings path type url ∧
        ∀ path' url', Lists siblings path' type url' → path' ≤ path) ∨
      (∀ path' url', ¬Lists siblings path' type url') ∧ services[type]? = some url := by
  have hsorted : (listed siblings).Pairwise fun x y => x.1 < y.1 := by
    refine (Forest.pairwise_visits 0 siblings).filterMap _ fun x y hxy a ha b hb => ?_
    obtain ⟨entry, -, rfl⟩ := Option.map_eq_some_iff.mp ha
    obtain ⟨entry', -, rfl⟩ := Option.map_eq_some_iff.mp hb
    exact hxy
  rw [TreeMap.getElem?_foldl_insert hsorted]
  simp only [mem_listed]

/-- Started on the first element of a list of siblings in which every service has a type and a
control url, the function ends with a map in which each type has the control url of the last
service of that type, in document order, among those that are reached by descending only through
devices, lists of devices and lists of services; what the map has held for any other type is left
as it was. -/
theorem parseRootDescFile_services {siblings : List TiXmlNode}
    (h : ∀ path node, Reaches descends siblings path node → isService node →
      ∃ type url, Describes node type url) (services : Services) :
    ∃ result, parseRootDescFile (firstElement siblings) services = .ok result ∧
      ∀ type url, result[type]? = some url ↔
        (∃ path, Lists siblings path type url ∧
          ∀ path' url', Lists siblings path' type url' → path' ≤ path) ∨
        (∀ path' url', ¬Lists siblings path' type url') ∧ services[type]? = some url :=
  ⟨_, parseRootDescFile_listed h services, fun _ _ => getElem?_listed siblings services⟩

/-- The answer of a gateway: `eat` gives the last control urls of the services below the root
element of the description that comes as its body. -/
theorem eat_services (parse : ByteStr → List TiXmlNode) {htpars htpars' : GTTParser}
    {data : ByteStr} {pkt : GTTPacket} {root : TiXmlNode} {rest : List TiXmlNode}
    (hpkt : GTTParser.getPacket HTTPParser.rules (htpars.eat data) = (.ok (some pkt), htpars'))
    (hroot : firstElement (parse (cstr pkt.body)) = root :: rest)
    (h : ∀ path node, Reaches descends root.children path node → isService node →
      ∃ type url, Describes node type url) :
    ∃ result, eat parse htpars data = (.ok (some result), htpars') ∧
      ∀ type url, result[type]? = some url ↔ ∃ path, Lists root.children path type url ∧
        ∀ path' url', Lists root.children path' type url' → path' ≤ path := by
  refine ⟨(listed root.children).foldl (fun services x => services.insert x.2.1 x.2.2) ∅, ?_, ?_⟩
  · simp only [eat, hpkt, hroot, firstChildElement, parseRootDescFile_listed h]
    rfl
  · intro type url
    rw [getElem?_listed]
    simp

def element (value : String) (children : List TiXmlNode) : TiXmlNode :=
  .node ⟨.element, lit value⟩ children

def text (value : String) : TiXmlNode := .node ⟨.text, lit value⟩ []

def service (type url : String) : TiXmlNode :=
  element "service" [element "serviceType" [text type], element "controlURL" [text url]]

/-- A device with a service in two places; the one inside an element of another kind is not
reached. -/
def gateway : List TiXmlNode :=
  [element "specVersion" [service "Layer3" "/l3"],
    element "device" [
      element "serviceList" [service "WANIP" "/first"],
      element "deviceList" [element "device" [element "serviceList" [service "WANIP" "/ctl"]]]]]

/-- The later service of a type is the one that counts. -/
theorem parseRootDescFile_services_gateway :
    ∃ result, parseRootDescFile (firstElement gateway) ∅ = .ok result ∧
      result[lit "WANIP"]? = some (lit "/ctl") := by
  have hdescribed : ∀ x ∈ visits descends 0 gateway, isService x.2 → (texts x.2).isSome := by
    decide +kernel
  have h : ∀ path node, Reaches descends gateway path node → isService node →
      ∃ type url, Describes node type url := by
    intro path node hreach hservice
    obtain ⟨entry, hentry⟩ := Option.isSome_iff_exists.mp
      (hdescribed (path, node) (Forest.mem_visits_zero.mpr hreach) hservice)
    exact ⟨entry.1, entry.2, texts_eq_some.mp hentry⟩
  obtain ⟨result, hrun, hresult⟩ := parseRootDescFile_services h ∅
  have hlast : ([1, 1, 0, 0, 0], lit "WANIP", lit "/ctl") ∈ listed gateway ∧
      ∀ x ∈ listed gateway, x.2.1 = lit "WANIP" → x.1 ≤ [1, 1, 0, 0, 0] := by
    decide +kernel
  refine ⟨result, hrun, (hresult _ _).mpr (.inl ⟨_, mem_listed.mp hlast.1, ?_⟩)⟩
  intro path url hlists
  exact hlast.2 _ (mem_listed.mpr hlists) rfl

end RootDesc
end Epyx.UPNP
