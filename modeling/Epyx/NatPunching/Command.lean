import Epyx.NatPunching.RootDesc
import Epyx.Net.SockAddress

/-! `natpunching/upnp/action.cpp` and `command.cpp`: the commands a gateway takes and what is read
out of its answers. -/
namespace Epyx.UPNP
open Lib TiXmlNode

inductive ActionType where
  | connType
  | getExtIp
  | addPortMap
  | delPortMap
  | numEntriesPortMap
  | specificPortMap
  | getGenPortMap
  | listPortMap
  | getStatInfo
  deriving DecidableEq, Repr

namespace Action

def toString : ActionType → String
  | .connType => "GetConnectionTypeInfo"
  | .getExtIp => "GetExternalIPAddress"
  | .addPortMap => "AddPortMapping"
  | .delPortMap => "DeletePortMapping"
  | .numEntriesPortMap => "GetPortMappingNumberOfEntries"
  | .specificPortMap => "GetSpecificPortMappingEntry"
  | .listPortMap => "GetListOfPortMappings"
  | .getGenPortMap => "GetGenericPortMappingEntry"
  | .getStatInfo => "GetStatusInfo"

def needArgs : ActionType → Bool
  | .connType | .getExtIp | .numEntriesPortMap | .getStatInfo => false
  | .addPortMap | .delPortMap | .specificPortMap | .listPortMap | .getGenPortMap => true

end Action

/-- `std::map<std::string, std::string>` -/
abbrev Vars := Std.ExtTreeMap ByteStr ByteStr

structure CommandResult where
  httpStatus : Int
  headers : Headers
  vars : Vars

namespace CommandResult

def getString (res : CommandResult) (key : String) : ByteStr := (res.vars[lit key]?).getD []

/-- A variable that is missing is false. -/
def getBoolean (res : CommandResult) (key : String) : Bool :=
  match res.vars[lit key]? with
  | none => false
  | some value => value ≠ lit "0"

def getUShort (res : CommandResult) (key : String) : Except Exn UInt16 :=
  match res.vars[lit key]? with
  | none => .ok 0
  | some value => (Text.toInt value).map UInt16.ofInt

end CommandResult

structure Command where
  address : SockAddress
  path : ByteStr
  service : ByteStr
  action : Option ActionType
  args : Std.ExtTreeMap ByteStr ByteStr

namespace Command

/-- `Command::Command()` -/
def new : Command := ⟨.unset, [], [], none, ∅⟩

def setRemote (c : Command) (addr : SockAddress) (service path : ByteStr) : Command :=
  { c with address := addr, path := path, service := service }

def setAction (c : Command) (action : ActionType) : Command := { c with action := some action }

def addArgument (c : Command) (name : String) (value : ByteStr) : Command :=
  { c with args := c.args.insert (lit name) value }

/-- `Command::query`: what is written to the socket, if anything is. `envelope` is what TinyXML
prints for a service, the name of an action and its arguments. -/
def query (envelope : ByteStr → String → List (ByteStr × ByteStr) → ByteStr) (c : Command) :
    Option ByteStr :=
  match c.action with
  | none => none
  | some action =>
    if Action.needArgs action ∧ c.args.isEmpty then none
    else
      let actiontype := Action.toString action
      let command := envelope c.service actiontype c.args.toList
      some (lit "POST " ++ c.path ++ lit " HTTP/1.1" ++ crlf ++
        lit "Host: " ++ c.address.print ++ crlf ++
        lit "User-Agent: Epyx Natpunching FTW" ++ crlf ++
        lit "Content-Length: " ++ Text.fromUnsignedLong command.length ++ crlf ++
        lit "Content-Type: text/xml" ++ crlf ++
        lit "SOAPAction: \"" ++ c.service ++ lit "#" ++ lit actiontype ++ lit "\"" ++ crlf ++
        lit "Connection: Close" ++ crlf ++
        lit "Cache-Control: no-cache" ++ crlf ++
        lit "Pragma: no-cache" ++ crlf ++
        crlf ++
        command ++ crlf)

/-- `strstr(node->Value(), "Body")` -/
def hasBody (node : TiXmlNode) : Bool := (Text.find node.label.value (lit "Body")).isSome

/-- The loop that goes down to the body by first children. -/
def findBody : List TiXmlNode → Except Exn TiXmlNode
  | [] => .error .nullPointer
  | node :: _ => if hasBody node then .ok node else findBody node.children
termination_by siblings => sizeOf siblings
decreasing_by
  obtain ⟨label, children⟩ := node
  simp only [RoseTree.children_node, List.cons.sizeOf_spec, RoseTree.node.sizeOf_spec]
  omega

/-- `value ? value->Value() : ""` -/
def childValue (child : TiXmlNode) : ByteStr :=
  match child.children with
  | [] => []
  | value :: _ => value.label.value

/-- The loop over the children of the answer. -/
def readVars (node : TiXmlNode) : Vars :=
  node.children.foldl (fun vars child => vars.insert child.label.value (childValue child)) ∅

/-- What `Command::eat` does with a document, given by its nodes. -/
def readAnswer (document : List TiXmlNode) : Except Exn Vars := do
  let body ← findBody (firstElement document)
  match body.children with
  | [] => .error .nullPointer
  | node :: _ => pure (readVars node)

/-- `Command::eat`: null while the packet has not come. `parse` is what TinyXML makes of the text
of a document. -/
def eat (parse : ByteStr → List TiXmlNode) (htpars : GTTParser) (data : ByteStr) :
    Except Exn (Option CommandResult) × GTTParser :=
  match GTTParser.getPacket HTTPParser.rules (htpars.eat data) with
  | (.error e, htpars) => (.error e, htpars)
  | (.ok none, htpars) => (.ok none, htpars)
  | (.ok (some pkt), htpars) =>
    (do
      let httpStatus ← Text.toInt pkt.method
      let vars ← readAnswer (parse (cstr pkt.body))
      pure (some ⟨toInt32 httpStatus, pkt.headers, vars⟩), htpars)

/-! What the walk finds in a document. -/

/-- Going down by first children, the first node that speaks of a body. -/
inductive FirstBody : List TiXmlNode → TiXmlNode → Prop
  | here {node : TiXmlNode} {siblings : List TiXmlNode} (h : hasBody node = true) :
      FirstBody (node :: siblings) node
  | down {node body : TiXmlNode} {siblings : List TiXmlNode} (h : hasBody node = false)
      (below : FirstBody node.children body) : FirstBody (node :: siblings) body

theorem findBody_nil : findBody [] = .error .nullPointer := by
  rw [findBody]

theorem findBody_cons (node : TiXmlNode) (siblings : List TiXmlNode) :
    findBody (node :: siblings) = if hasBody node then .ok node else findBody node.children := by
  rw [findBody]

theorem findBody_eq_ok_iff {siblings : List TiXmlNode} {body : TiXmlNode} :
    findBody siblings = .ok body ↔ FirstBody siblings body := by
  induction siblings using Forest.induction with
  | nil =>
    rw [findBody_nil]
    refine iff_of_false (by simp) fun h => ?_
    cases h
  | cons label children siblings hchildren _ =>
    rw [findBody_cons]
    cases hnode : hasBody (.node label children) with
    | true =>
      rw [if_pos rfl, Except.ok.injEq]
      constructor
      · rintro rfl
        exact .here hnode
      · intro h
        cases h with
        | here => rfl
        | down hother => rw [hnode] at hother; cases hother
    | false =>
      rw [if_neg (by decide), RoseTree.children_node, hchildren]
      constructor
      · exact fun h => .down hnode h
      · intro h
        cases h with
        | here hother => rw [hnode] at hother; cases hother
        | down _ below => exact below

/-- The walk ends at a body or off the end of the document. -/
theorem findBody_error {siblings : List TiXmlNode} {e : Exn} (h : findBody siblings = .error e) :
    e = .nullPointer := by
  induction siblings using Forest.induction with
  | nil =>
    rw [findBody_nil] at h
    cases h
    rfl
  | cons label children siblings hchildren _ =>
    rw [findBody_cons] at h
    split at h
    · cases h
    · exact hchildren h

/-- The node whose children are read. -/
def Answer (document : List TiXmlNode) (answer : TiXmlNode) : Prop :=
  ∃ body others, FirstBody (firstElement document) body ∧ body.children = answer :: others

theorem readAnswer_eq_ok_iff {document : List TiXmlNode} {vars : Vars} :
    readAnswer document = .ok vars ↔ ∃ answer, Answer document answer ∧ vars = readVars answer := by
  unfold readAnswer Answer
  cases hbody : findBody (firstElement document) with
  | error e =>
    refine iff_of_false (by simp [bind, Except.bind]) ?_
    rintro ⟨answer, ⟨body, others, hfirst, -⟩, -⟩
    rw [findBody_eq_ok_iff.mpr hfirst] at hbody
    cases hbody
  | ok body =>
    have hunique : ∀ {other}, FirstBody (firstElement document) other → body = other :=
      fun h => Except.ok.inj (hbody.symm.trans (findBody_eq_ok_iff.mpr h))
    simp only [bind, Except.bind]
    constructor
    · intro h
      split at h
      · cases h
      · rename_i answer others hchildren
        cases h
        exact ⟨answer, ⟨body, others, findBody_eq_ok_iff.mp hbody, hchildren⟩, rfl⟩
    · rintro ⟨answer, ⟨other, others, hfirst, hchildren⟩, rfl⟩
      cases hunique hfirst
      rw [hchildren]
      rfl

theorem readAnswer_error {document : List TiXmlNode} {e : Exn}
    (h : readAnswer document = .error e) : e = .nullPointer := by
  unfold readAnswer at h
  cases hbody : findBody (firstElement document) with
  | error e' =>
    rw [hbody] at h
    cases h
    exact findBody_error hbody
  | ok body =>
    simp only [hbody, bind, Except.bind] at h
    split at h
    · cases h
      rfl
    · cases h

/-- Of the children of a node with this name, the last one has this value. -/
def Gives (node : TiXmlNode) (name value : ByteStr) : Prop :=
  ∃ (i : Nat) (child : TiXmlNode), node.children[i]? = some child ∧ child.label.value = name ∧
    childValue child = value ∧
    ∀ (j : Nat) (other : TiXmlNode), node.children[j]? = some other → other.label.value = name →
      j ≤ i

theorem getElem?_readVars {node : TiXmlNode} {name value : ByteStr} :
    (readVars node)[name]? = some value ↔ Gives node name value := by
  rw [readVars, TreeMap.getElem?_foldl_insert_list]
  simp [Gives]

theorem readVars_eq_iff {node other : TiXmlNode} :
    readVars node = readVars other ↔
      ∀ name value, Gives node name value ↔ Gives other name value := by
  simp only [← getElem?_readVars]
  constructor
  · intro h name value
    rw [h]
  · intro h
    refine Std.ExtTreeMap.ext_getElem? fun {name} => Option.ext fun value => ?_
    exact h name value

/-- An element with this name, with or without a namespace in front of it. -/
def isNamed (name : String) (node : TiXmlNode) : Bool :=
  isElement node ∧ (node.label.value = lit name ∨ lit (":" ++ name) <:+ node.label.value)

/-- The first element below the body of an envelope; there are several if there are several
bodies. -/
def Result (document : List TiXmlNode) (result : TiXmlNode) : Prop :=
  ∃ root siblings, firstElement document = root :: siblings ∧ isNamed "Envelope" root ∧
    ∃ body ∈ root.children, isNamed "Body" body ∧
      ∃ others, firstChildElement body = result :: others

/-- No null pointer is followed, and the variables are the names below the first element of the
body, with their values. -/
structure Meets (document : List TiXmlNode) : Prop where
  safe : readAnswer document ≠ .error .nullPointer
  vars : ∀ result, Result document result → ∃ vars, readAnswer document = .ok vars ∧
    ∀ name value, vars[name]? = some value ↔ Gives result name value

/-- The documents whose bodies are where the walk looks for one: by first children it comes to a
node that speaks of a body and has a child, and that child gives the same names and values as the
first element of any body of the envelope. -/
structure Regular (document : List TiXmlNode) : Prop where
  answered : ∃ answer, Answer document answer
  same : ∀ answer result, Answer document answer → Result document result →
    ∀ name value, Gives answer name value ↔ Gives result name value

/-- The walk through a document does what it should just for the regular ones. -/
theorem readAnswer_meets_iff (document : List TiXmlNode) :
    Meets document ↔ Regular document := by
  constructor
  · intro h
    cases hread : readAnswer document with
    | error e =>
      cases readAnswer_error hread
      exact absurd hread h.safe
    | ok vars =>
      refine ⟨?_, fun answer result hanswer hresult name value => ?_⟩
      · obtain ⟨answer, hanswer, -⟩ := readAnswer_eq_ok_iff.mp hread
        exact ⟨answer, hanswer⟩
      · obtain ⟨vars, hok, hvars⟩ := h.vars result hresult
        have hread := readAnswer_eq_ok_iff.mpr ⟨answer, hanswer, rfl⟩
        rw [hok, Except.ok.injEq] at hread
        rw [← getElem?_readVars, ← hread, hvars]
  · intro h
    obtain ⟨answer, hanswer⟩ := h.answered
    have hread := readAnswer_eq_ok_iff.mpr ⟨answer, hanswer, rfl⟩
    refine ⟨?_, fun result hresult => ⟨readVars answer, hread, fun name value => ?_⟩⟩
    · intro hnull
      rw [hread] at hnull
      cases hnull
    · rw [getElem?_readVars]
      exact h.same answer result hanswer hresult name value

def element (value : String) (children : List TiXmlNode) : TiXmlNode :=
  .node ⟨.element, lit value⟩ children

/-- On a document without elements the walk starts from a null pointer, and behind a header it
does not look for the body. -/
theorem readAnswer_unparsable :
    ¬Meets [] ∧
    ¬Meets [element "s:Envelope" [element "s:Header" [],
      element "s:Body" [element "u:GetExternalIPAddressResponse" []]]] := by
  refine ⟨fun h => h.safe ?_, fun h => h.safe ?_⟩
  · rw [readAnswer, firstElement, List.dropWhile_nil, findBody_nil]
    rfl
  · have hfirst : ∀ children, firstElement [element "s:Envelope" children] =
        [element "s:Envelope" children] := fun _ => rfl
    have hvalue : (Text.find (lit "s:Envelope") (lit "Body")).isSome = false := by decide +kernel
    have henvelope : ∀ children, hasBody (element "s:Envelope" children) = false := fun _ => hvalue
    have hheader : hasBody (element "s:Header" []) = false := by decide +kernel
    rw [readAnswer, hfirst, findBody_cons, henvelope, if_neg (by decide), element,
      RoseTree.children_node, findBody_cons, hheader, if_neg (by decide), element,
      RoseTree.children_node, findBody_nil]
    rfl

theorem hasBody_of_isNamed {node : TiXmlNode} (h : isNamed "Body" node = true) :
    hasBody node = true := by
  obtain ⟨-, hvalue⟩ : isElement node = true ∧ (node.label.value = lit "Body" ∨
      lit (":" ++ "Body") <:+ node.label.value) := by simpa [isNamed] using h
  have hinfix : lit "Body" <:+: node.label.value := by
    rcases hvalue with heq | ⟨pre, hpre⟩
    · exact heq ▸ List.infix_rfl
    · exact ⟨pre ++ [58], [], by rw [← hpre, List.append_nil, List.append_assoc]; rfl⟩
  cases hfind : Text.find node.label.value (lit "Body") with
  | none => exact absurd hinfix (Text.find_eq_none_iff.mp hfind)
  | some n => rw [hasBody, hfind]; rfl

/-- An envelope of nothing but a body whose first child is the answer. -/
theorem regular_of_envelope {document siblings others : List TiXmlNode}
    {root body answer : TiXmlNode} (hroot : firstElement document = root :: siblings)
    (hplain : hasBody root = false) (hchildren : root.children = [body])
    (hbody : isNamed "Body" body = true) (hfirst : body.children = answer :: others)
    (helement : isElement answer = true) : Regular document := by
  have hanswer : Answer document answer := by
    refine ⟨body, others, ?_, hfirst⟩
    rw [hroot]
    refine .down hplain ?_
    rw [hchildren]
    exact .here (hasBody_of_isNamed hbody)
  have hother : ∀ {other}, Answer document other → readVars answer = readVars other := fun h =>
    Except.ok.inj ((readAnswer_eq_ok_iff.mpr ⟨_, hanswer, rfl⟩).symm.trans
      (readAnswer_eq_ok_iff.mpr ⟨_, h, rfl⟩))
  refine ⟨⟨answer, hanswer⟩, fun other result h hresult => ?_⟩
  rw [← readVars_eq_iff, ← hother h]
  obtain ⟨root', siblings', hroot', -, body', hmem, -, others', hresult⟩ := hresult
  obtain ⟨rfl, -⟩ := List.cons.inj (hroot.symm.trans hroot')
  rw [hchildren, List.mem_singleton] at hmem
  subst hmem
  rw [firstChildElement, hfirst, firstElement, List.dropWhile_cons_of_neg (by simp [helement])]
    at hresult
  rw [(List.cons.inj hresult).1]

/-- The answer of a gateway: what `eat` comes to is what the walk through its body comes to. -/
theorem eat_document (parse : ByteStr → List TiXmlNode) {htpars htpars' : GTTParser}
    {data : ByteStr} {pkt : GTTPacket} {status : Int}
    (hpkt : GTTParser.getPacket HTTPParser.rules (htpars.eat data) = (.ok (some pkt), htpars'))
    (hstatus : Text.toInt pkt.method = .ok status) :
    eat parse htpars data = ((readAnswer (parse (cstr pkt.body))).map fun vars =>
      some ⟨toInt32 status, pkt.headers, vars⟩, htpars') := by
  simp only [eat, hpkt, hstatus]
  cases readAnswer (parse (cstr pkt.body)) <;> rfl

end Command
end Epyx.UPNP
