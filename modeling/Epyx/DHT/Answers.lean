import Epyx.DHT.Informed
import Epyx.DHT.Mail

/-! What the answers in a network mean: an answer that an actor takes in comes from the node that was
asked, and says what that node has done for it. -/
namespace Epyx.DHT
open N2NP (NodeId)
open Lib
open InternalNode

namespace Deployment
variable {ι : Type*} (D : Deployment ι)

/-- The node `j` has sent this to the node `i`. -/
def Sent (log : Log ι) (j i : ι) (content : Content) : Prop :=
  (j, .send (D.n2npId i) ⟨D.id j, content⟩) ∈ log

/-- Where the mail of the node `i` comes from. -/
structure Came (log : Log ι) (i : ι) (n : InternalNode) : Prop where
  asked : ∀ m ∈ n.messages, ∀ sender content, m.asks = some (sender, content) →
    ∃ j, D.Names n.objects sender j ∧ D.Sent log j i content
  answered : ∀ a peer answer, .process a (.receive peer answer) ∈ n.messages →
    ∃ j content, D.Sent log j i content ∧ answer.Reads n.objects content.carried
  timers : ∀ m ∈ n.timeouts, m.isTimer

/-- An answer an actor has taken in. -/
def Heard (log : Log ι) (i : ι) (objects : Peers) (c : Int64) (answer : Answer) : Prop :=
  c = (answerId answer).toInt64 ∧ objects.Has answer.peers ∧
    ∃ j content, D.Sent log j i content ∧ answer.Reads objects content.carried

variable {D} {log log' : Log ι} {i j : ι} {n n' : InternalNode}

theorem Sent.mono {content : Content} (h : D.Sent log j i content) (hl : log ⊆ log') :
    D.Sent log' j i content := hl h

theorem Heard.mono {objects later : Peers} {c : Int64} {answer : Answer}
    (h : D.Heard log i objects c answer) (hl : log ⊆ log') (hlater : objects.Later later) :
    D.Heard log' i later c answer := by
  obtain ⟨hc, hpeers, j, content, hsent, hreads⟩ := h
  exact ⟨hc, hpeers.later hlater.length, j, content, hsent.mono hl, hreads.later hlater hpeers⟩

/-- Objects that are those of nodes stay so while the node goes on. -/
theorem Genuine.names_later {objects later : Peers} {p : SPtr} (h : D.Names objects p j)
    (hgenuine : ∀ o ∈ later, ∃ l, o.toPeer = D.peer l) (hlater : objects.Later later) :
    D.Names later p j := by
  obtain ⟨o, ho, hj⟩ := h
  have hp : p < objects.length := (List.getElem?_eq_some_iff.mp ho).1
  have hp' : p < later.length := Nat.lt_of_lt_of_le hp hlater.length
  obtain ⟨l, hl⟩ := hgenuine _ (List.getElem_mem hp')
  have hid := hlater.id p hp
  have hthere : (objects.deref p).id = D.id j := by
    rw [Peers.deref, List.getD_eq_getElem?_getD, ho]
    exact congrArg Peer.id hj
  have hhere : (later.deref p).id = D.id l := by
    rw [Peers.deref, List.getD_eq_getElem?_getD, List.getElem?_eq_getElem hp']
    exact congrArg Peer.id hl
  rw [hthere, hhere] at hid
  rw [D.id_injective hid] at hl
  exact ⟨_, List.getElem?_eq_getElem hp', hl⟩

/-- Some of the mail is taken. -/
theorem Came.take (h : D.Came log i n) (hobjects : n'.objects = n.objects)
    (hmessages : n'.messages ⊆ n.messages) (htimeouts : n'.timeouts ⊆ n.timeouts) :
    D.Came log i n' := by
  refine ⟨fun m hm => ?_, fun a peer answer hm => ?_, fun m hm => h.timers m (htimeouts hm)⟩
  · rw [hobjects]
    exact h.asked m (hmessages hm)
  · rw [hobjects]
    exact h.answered a peer answer (hmessages hm)

/-- Mail from within is added. -/
theorem Came.inside (h : D.Came log i n) (hobjects : n'.objects = n.objects)
    (hinside : Inside n n') : D.Came log i n' := by
  obtain ⟨ms, hmessages, hms⟩ := hinside.messages
  obtain ⟨ts, htimeouts, hts⟩ := hinside.timeouts
  refine ⟨fun m hm sender content hasks => ?_, fun a peer answer hm => ?_, fun m hm => ?_⟩
  · rw [hobjects]
    rw [hmessages] at hm
    rcases List.mem_append.mp hm with hm | hm
    · exact h.asked m hm sender content hasks
    · rw [(hms m hm).1] at hasks
      cases hasks
  · rw [hobjects]
    rw [hmessages] at hm
    rcases List.mem_append.mp hm with hm | hm
    · exact h.answered a peer answer hm
    · cases (hms _ hm).2
  · rw [htimeouts] at hm
    rcases List.mem_append.mp hm with hm | hm
    · exact h.timers m hm
    · exact hts m hm

/-- A packet of the node `j` comes in. -/
theorem Came.processPacket (h : D.Came log i n) (htidy : Tidy n) {p : Packet}
    (hsent : (j, .send (D.n2npId i) p) ∈ log) (hfrom : p.from = D.id j) (now : Int)
    (hgenuine : ∀ o ∈ (n.processPacket p.carried (D.n2npId j) now).objects,
      ∃ l, o.toPeer = D.peer l) :
    D.Came log i (n.processPacket p.carried (D.n2npId j) now) := by
  have hcarried : p.carried.from = D.id j := hfrom
  have hcontent : D.Sent log j i p.content := by
    unfold Sent
    rw [← hfrom]
    exact hsent
  have hobjects := (processPacket_table n p.carried (D.n2npId j) now).2
  have hlater : n.objects.Later (n.processPacket p.carried (D.n2npId j) now).objects := by
    rw [hobjects]
    exact (n.kbucket.seenPeer_later n.objects p.carried.from (D.n2npId j) now).trans (.append _ _)
  have hsender : D.Names (n.processPacket p.carried (D.n2npId j) now).objects
      (n.seenPeer p.carried.from (D.n2npId j) now).2 j := by
    rw [hobjects, hcarried]
    exact (KBucket.seenPeer_names D htidy.table j now).2.1.append _
  obtain ⟨ms, hmessages, hms⟩ := n.processPacket_mail p.carried (D.n2npId j) now
  refine ⟨fun m hm sender content hasks => ?_, fun a peer answer hm => ?_, ?_⟩
  · rw [hmessages] at hm
    rcases List.mem_append.mp hm with hm | hm
    · obtain ⟨l, hnames, hl⟩ := h.asked m hm sender content hasks
      exact ⟨l, Genuine.names_later hnames hgenuine hlater, hl⟩
    · rcases hms m hm with ⟨hnew, -⟩ | ⟨a, answer, rfl, -⟩
      · rw [hnew] at hasks
        cases hasks
        refine ⟨j, hsender, ?_⟩
        have hsame : p.carried.content = p.content := by
          obtain ⟨id, content⟩ := p
          cases content with
          | got c status value => cases m <;> cases hnew
          | found c status count peers => cases m <;> cases hnew
          | _ => rfl
        rw [hsame]
        exact hcontent
      · cases hasks
  · rw [hmessages] at hm
    rcases List.mem_append.mp hm with hm | hm
    · obtain ⟨l, content, hl, hreads⟩ := h.answered a peer answer hm
      have hpeers : n.objects.Has answer.peers := fun q hq =>
        htidy.messages _ hm q (List.mem_cons_of_mem _ hq)
      exact ⟨l, content, hl, hreads.later hlater hpeers⟩
    · rcases hms _ hm with ⟨-, hanswer⟩ | ⟨b, answer', heq, hreads⟩
      · cases hanswer
      · cases heq
        exact ⟨j, p.content, hcontent, hreads⟩
  · rw [(n.processPacket_storage p.carried (D.n2npId j) now).2.2]
    exact h.timers

theorem Came.handle (h : D.Came log i n) (htidy : Tidy n)
    (hfrom : ∀ j dest p, (j, .send dest p) ∈ log → p.from = D.id j) {e : InternalNode.Event}
    (he : D.Delivers log (i, e)) (hn : n.handle e = some n')
    (hgenuine : ∀ o ∈ n'.objects, ∃ l, o.toPeer = D.peer l) : D.Came log i n' := by
  cases e with
  | receive pkt senderId now =>
    obtain ⟨j, p, hsent, rfl, rfl⟩ := he
    cases hn
    exact h.processPacket htidy hsent (hfrom _ _ _ hsent) now hgenuine
  | work k keyId =>
    obtain ⟨m, -, hn⟩ := Option.bind_eq_some_iff.mp hn
    have htaken : D.Came log i { n with messages := n.messages.eraseIdx k } :=
      h.take rfl (fun m hm => List.mem_of_mem_eraseIdx hm) fun m hm => hm
    exact htaken.inside (treat_sameTable hn).objects (treat_inside hn)
  | expire k =>
    obtain ⟨m, hm, rfl⟩ := Option.map_eq_some_iff.mp hn
    have htaken : D.Came log i { n with timeouts := n.timeouts.eraseIdx k } :=
      h.take rfl (fun m hm => hm) fun m hm => List.mem_of_mem_eraseIdx hm
    have htimer := h.timers m (List.mem_of_getElem? hm)
    refine htaken.inside rfl ⟨⟨[m], rfl, fun m' hm' => ?_⟩, ⟨[], (List.append_nil _).symm, nofun⟩⟩
    rw [List.mem_singleton.mp hm']
    cases m with
    | process a pm =>
      cases pm with
      | receive peer answer => cases htimer
      | _ => exact ⟨rfl, rfl⟩
    | newKey key => cases htimer
    | replicate key => exact ⟨rfl, rfl⟩
    | _ => cases htimer
  | sendPing dest => cases hn; exact h.inside rfl ⟨(Inside.refl n).messages, (Inside.refl n).timeouts⟩
  | findClosest count idToFind =>
    exact h.inside ((SameTable.refl n).findClosest hn).objects (findClosest_inside hn)
  | getValue key keyId =>
    exact h.inside ((SameTable.add n _).findClosest hn).objects (spawn_inside hn)
  | setValue key value keyId edit =>
    exact h.inside ((SameTable.add n _).findClosest hn).objects (spawn_inside hn)

variable [DecidableEq ι]

/-- An answer goes to the node that has asked: the peers of a FOUND lead on, a GOT without a value
says that nothing was stored after the question, and a STORED that the value is. -/
def Answered (log : Log ι) (j : ι) (dest : NodeId) : Content → Prop
  | .found c status _ peers => ∃ i count target, dest = D.n2npId i ∧
      D.Sent log i j (.find c count target) ∧ status = 0 ∧
      (0 < count.toInt → peers.length < 2 ^ 31 ∧ D.Leads target j (peers.map (·.id)))
  | .got c status _ => ∃ i key, dest = D.n2npId i ∧ D.Sent log i j (.get c key) ∧
      (status = 0 ∨ ∃ l, l <+: log ∧ D.Sent l i j (.get c key) ∧
        lastStored (Machine.logOf j l) key = none)
  | .stored c status => ∃ i key value, dest = D.n2npId i ∧ D.Sent log i j (.store c key value) ∧
      status = 0 ∧ (j, .stored key value) ∈ log
  | _ => True

/-- What a node puts out after what the log says, as far as it answers. -/
def Replied (log : Log ι) : ι × Output → Prop
  | (j, .send dest pkt) => D.Answered log j dest pkt.content
  | _ => True

theorem Answered.mono {dest : NodeId} {content : Content} (h : D.Answered log j dest content)
    (hl : log <+: log') : D.Answered log' j dest content := by
  cases content with
  | found c status count peers =>
    obtain ⟨i, cnt, target, hdest, hsent, hfound⟩ := h
    exact ⟨i, cnt, target, hdest, hsent.mono hl.subset, hfound⟩
  | got c status value =>
    obtain ⟨i, key, hdest, hsent, hgot⟩ := h
    refine ⟨i, key, hdest, hsent.mono hl.subset, hgot.imp_right ?_⟩
    rintro ⟨l, hprefix, hl'⟩
    exact ⟨l, hprefix.trans hl, hl'⟩
  | stored c status =>
    obtain ⟨i, key, value, hdest, hsent, hstatus, hstored⟩ := h
    exact ⟨i, key, value, hdest, hsent.mono hl.subset, hstatus, hl.subset hstored⟩
  | _ => trivial

/-- What answers nothing needs no reason. -/
theorem replied_quiet {o : Output} (h : o.serves = false) (log : Log ι) (i : ι) :
    D.Replied log (i, o) := by
  cases o with
  | send dest pkt =>
    obtain ⟨id, content⟩ := pkt
    cases content <;> trivial
  | _ => trivial

theorem replied_plain (hlog : Grounded D.Replied log) (hplain : Plain n n') (hout : n.out = []) :
    Grounded D.Replied (log ++ n'.out.map (Prod.mk i)) := by
  obtain ⟨os, hos, hquiet⟩ := hplain.out
  rw [hos, hout, List.nil_append]
  refine hlog.append fun x hx l => ?_
  obtain ⟨o, ho, rfl⟩ := List.mem_map.mp hx
  exact replied_quiet (hquiet o ho) l i

/-- A request is taken, and answered as it should be. -/
theorem replied_work {keyId : Id} (hlog : Grounded D.Replied log) {m : Message}
    {sender : SPtr} {content : Content} (hasks : m.asks = some (sender, content))
    (hnames : D.Names n.objects sender j) (hsent : D.Sent log j i content)
    (hfiled : KBucket.AllFiled (D.id i) n.kbucket n.objects)
    (hstorage : Remembers (Machine.logOf i log) n) (hout : n.out = [])
    (hinformed : ∀ sender c count target, m = .find sender c count target → D.Informed i n)
    (hn : n.treat keyId m = some n') :
    Grounded D.Replied (log ++ n'.out.map (Prod.mk i)) := by
  have haddress : (n.objects.deref sender).n2npId = D.n2npId j := congrArg Peer.n2npId hnames.deref
  have hreply : ∀ content : Content, D.Answered log i (D.n2npId j) content →
      Grounded D.Replied (log ++ (n.send content sender).out.map (Prod.mk i)) := fun content h => by
    have hsend : (n.send content sender).out = [.send (D.n2npId j) ⟨n.id, content⟩] := by
      rw [send, haddress, InternalNode.emit, hout]
      rfl
    rw [hsend]
    exact hlog.concat h
  cases m with
  | ping peer => cases hasks; cases hn; exact hreply _ trivial
  | get peer c key =>
    cases hasks
    cases hn
    unfold treatGet
    have hlast := hstorage key
    rw [hout, List.append_nil] at hlast
    split
    · exact hreply _ ⟨j, key, rfl, hsent, .inl rfl⟩
    · rename_i hnone
      exact hreply _ ⟨j, key, rfl, hsent, .inr ⟨log, List.prefix_rfl, hsent, hlast ▸ hnone⟩⟩
  | store peer c key value =>
    cases hasks
    cases hn
    obtain ⟨ms, hstore, -⟩ := n.treatStore_eq sender c key value
    rw [hstore]
    dsimp only
    rw [hout, haddress, List.nil_append, List.singleton_append, List.map_cons, List.map_singleton,
      ← List.singleton_append, ← List.append_assoc]
    have hwritten : Grounded D.Replied (log ++ [(i, .stored key value)]) := hlog.concat trivial
    exact hwritten.concat ⟨j, key, value, rfl, hsent.mono (List.subset_append_left _ _), rfl,
      List.mem_append_right _ (.head _)⟩
  | find peer c count target =>
    cases hasks
    obtain ⟨nearest, hnearest, rfl⟩ := Option.map_eq_some_iff.mp hn
    refine hreply _ ⟨j, count, target, rfl, hsent, rfl, fun hpos => ⟨?_, ?_⟩⟩
    · have hlt : count.toInt < 2 ^ 31 := count.toInt_lt
      obtain ⟨nearest', hnearest', hlen⟩ := hfiled.findNearestNodes_length target (n := count.toInt)
        (by unfold toU64; omega)
      rw [hnearest] at hnearest'
      cases hnearest'
      rw [List.length_map, hlen]
      unfold toU64
      omega
    · have hlt : count.toInt < 2 ^ 31 := count.toInt_lt
      have hcount : 1 ≤ toU64 count.toInt := by
        unfold toU64
        omega
      have hleads := (hinformed _ _ _ _ rfl).leads hfiled target hcount hnearest
      rwa [List.map_map]
  | _ => cases hasks

/-- Who takes a FIND is informed. -/
def Ready (D : Deployment ι) (s : ι → InternalNode) : ι × InternalNode.Event → Prop
  | (i, .work k _) => ∀ sender c count target,
      (s i).messages[k]? = some (.find sender c count target) → D.Informed i (s i)
  | _ => True

theorem Message.asks_of_request {m : Message} {r : SPtr × Request} (h : m.request = some r) :
    ∃ content, m.asks = some (r.1, content) := by
  cases m with
  | ping peer => cases h; exact ⟨_, rfl⟩
  | get peer c key => cases h; exact ⟨_, rfl⟩
  | store peer c key value => cases h; exact ⟨_, rfl⟩
  | find peer c count target => cases h; exact ⟨_, rfl⟩
  | _ => cases h

theorem Replied.handle {s : ι → InternalNode}
    (hlog : Grounded D.Replied log) (hcame : D.Came log i (s i))
    (hfiled : KBucket.AllFiled (D.id i) (s i).kbucket (s i).objects)
    (hstorage : Remembers (Machine.logOf i log) (s i)) (hout : (s i).out = [])
    {e : InternalNode.Event} (hready : D.Ready s (i, e))
    (hn : (s i).handle e = some n') :
    Grounded D.Replied (log ++ n'.out.map (Prod.mk i)) := by
  cases e with
  | receive pkt senderId now =>
    cases hn
    rw [((s i).processPacket_storage pkt senderId now).2.1, hout]
    simpa using hlog
  | work k keyId =>
    obtain ⟨m, hm, hn⟩ := Option.bind_eq_some_iff.mp hn
    cases hr : m.request with
    | none =>
      exact replied_plain (n := { s i with messages := (s i).messages.eraseIdx k }) hlog
        (treat_plain hr hn) hout
    | some r =>
      obtain ⟨content, hasks⟩ := Message.asks_of_request hr
      obtain ⟨j, hnames, hsent⟩ := hcame.asked m (List.mem_of_getElem? hm) _ _ hasks
      refine replied_work (n := { s i with messages := (s i).messages.eraseIdx k }) hlog hasks hnames
        hsent hfiled hstorage hout (fun sender c count target hfind => ?_) hn
      exact hready sender c count target (hfind ▸ hm)
  | expire k =>
    obtain ⟨m, -, rfl⟩ := Option.map_eq_some_iff.mp hn
    show Grounded D.Replied (log ++ (s i).out.map (Prod.mk i))
    rw [hout]
    simpa using hlog
  | sendPing dest => cases hn; exact replied_plain hlog (.emit _ rfl) hout
  | findClosest count idToFind => exact replied_plain hlog (findClosest_plain hn) hout
  | getValue key keyId =>
    exact replied_plain hlog ((add_plain _ _).trans (findClosest_plain hn)) hout
  | setValue key value keyId edit =>
    exact replied_plain hlog ((add_plain _ _).trans (findClosest_plain hn)) hout

/-! ### Runs -/

/-- What is true of the answers in a network at all times. -/
structure Spoken (D : Deployment ι) (log : Log ι) (s : ι → InternalNode) : Prop where
  replied : Grounded D.Replied log
  came : ∀ i, D.Came log i (s i)
  filed : ∀ i, KBucket.AllFiled (D.id i) (s i).kbucket (s i).objects
  storage : ∀ i, Remembers (Machine.logOf i log) (s i)
  heard : ∀ i a c answer, (i, .onNewAnswer a c answer) ∈ log → D.Heard log i (s i).objects c answer

/-- What is delivered was sent, users find in a vector what they are shown, and who takes a FIND is
informed. -/
def Settled (D : Deployment ι) (s : ι → InternalNode) (log : Log ι)
    (e : ι × InternalNode.Event) : Prop := D.Fair log e ∧ D.Ready s e

instance [Fintype ι] (i : ι) (n : InternalNode) : Decidable (D.Informed i n) :=
  inferInstanceAs (Decidable (∀ l, l ≠ i →
    ∃ p ∈ n.kbucket.buckets.getD (KBucket.index (D.id i) (D.id l)) [],
      (n.objects.deref p).id ≠ D.id i))

def ready [Fintype ι] (D : Deployment ι) (s : ι → InternalNode) : ι × InternalNode.Event → Bool
  | (i, .work k _) =>
    match (s i).messages[k]? with
    | some (.find _ _ _ _) => D.Informed i (s i)
    | _ => true
  | _ => true

theorem ready_sound [Fintype ι] {s : ι → InternalNode} {e : ι × InternalNode.Event}
    (h : D.ready s e) : D.Ready s e := by
  obtain ⟨i, e⟩ := e
  cases e with
  | work k keyId =>
    intro sender c count target hm
    rw [ready, hm] at h
    exact of_decide_eq_true h
  | _ => trivial

theorem settled_sound [Fintype ι] {s : ι → InternalNode} {e : ι × InternalNode.Event}
    (h : D.fair log e && D.ready s e) : D.Settled s log e :=
  have ⟨hfair, hready⟩ := Bool.and_eq_true_iff.mp h
  ⟨fair_sound hfair, ready_sound hready⟩

theorem Spoken.step {s : ι → InternalNode} (h : Spoken D log s)
    (hhonest : Honest D log s) (hlog : Grounded D.Justified log) {e : InternalNode.Event}
    (he : D.Settled s log (i, e)) (hn : (s i).handle e = some n') :
    Spoken D (log ++ n'.out.map (Prod.mk i)) (Function.update s i { n' with out := [] }) := by
  have hout := hhonest.out i
  have htidy := (hhonest.holds i).tidy
  have hfrom : ∀ j dest p, (j, .send dest p) ∈ log → p.from = D.id j :=
    fun j dest p hsent => from_of_grounded hlog hsent
  have hgenuine := (hhonest.genuine i).handle htidy hhonest.tells hfrom he.1.1 hn
  have hsub : log ⊆ log ++ n'.out.map (Prod.mk i) := List.subset_append_left _ _
  have hcame := (h.came i).handle htidy hfrom he.1.1 hn hgenuine.objects
  have hlater : (s i).objects.Later n'.objects := by
    by_cases hreceive : ∃ pkt senderId now, e = .receive pkt senderId now
    · obtain ⟨pkt, senderId, now, rfl⟩ := hreceive
      cases hn
      rw [(processPacket_table (s i) pkt senderId now).2]
      exact ((s i).kbucket.seenPeer_later _ pkt.from senderId now).trans (.append _ _)
    · have hsame := handle_sameTable
        (fun pkt senderId now heq => hreceive ⟨pkt, senderId, now, heq⟩) hn
      rw [hsame.objects]
      exact .refl _
  have hfiled : KBucket.AllFiled (D.id i) n'.kbucket n'.objects := by
    have hown := (h.filed i).ownId
    have hfile : Filed (s i) := by
      unfold Filed
      rw [hown]
      exact h.filed i
    have hfile' : Filed n' := handle_filed hfile hn
    unfold Filed at hfile'
    rwa [handle_ownId hn, hown] at hfile'
  have hstorage : Remembers (Machine.logOf i log) n' := (h.storage i).handle hn
  refine ⟨Replied.handle h.replied (h.came i) (h.filed i) (h.storage i) hout he.2 hn, fun j => ?_,
    fun j => ?_, fun j => ?_, fun j a c answer hmem => ?_⟩
  · by_cases hj : j = i
    · subst hj
      rw [Function.update_self]
      refine ⟨fun m hm sender content hasks => ?_, fun a peer answer hm => ?_, hcame.timers⟩
      · obtain ⟨l, hnames, hl⟩ := hcame.asked m hm sender content hasks
        exact ⟨l, hnames, hl.mono hsub⟩
      · obtain ⟨l, content, hl, hreads⟩ := hcame.answered a peer answer hm
        exact ⟨l, content, hl.mono hsub, hreads⟩
    · rw [Function.update_of_ne hj]
      refine ⟨fun m hm sender content hasks => ?_, fun a peer answer hm => ?_, (h.came j).timers⟩
      · obtain ⟨l, hnames, hl⟩ := (h.came j).asked m hm sender content hasks
        exact ⟨l, hnames, hl.mono hsub⟩
      · obtain ⟨l, content, hl, hreads⟩ := (h.came j).answered a peer answer hm
        exact ⟨l, content, hl.mono hsub, hreads⟩
  · by_cases hj : j = i
    · subst hj
      rw [Function.update_self]
      exact hfiled
    · rw [Function.update_of_ne hj]
      exact h.filed j
  · rw [Machine.logOf_append, Machine.logOf_map]
    by_cases hj : j = i
    · subst hj
      rw [Function.update_self, if_pos rfl]
      intro key
      rw [List.append_nil]
      exact hstorage key
    · rw [Function.update_of_ne hj, if_neg (Ne.symm hj), List.append_nil]
      exact h.storage j
  · have hold : (j, .onNewAnswer a c answer) ∈ log → D.Heard (log ++ n'.out.map (Prod.mk i)) j
        (Function.update s i { n' with out := [] } j).objects c answer := fun hbefore => by
      have hheard := h.heard j a c answer hbefore
      by_cases hj : j = i
      · subst hj
        rw [Function.update_self]
        exact hheard.mono hsub hlater
      · rw [Function.update_of_ne hj]
        exact hheard.mono hsub (.refl _)
    rcases List.mem_append.mp hmem with hmem | hmem
    · exact hold hmem
    · obtain ⟨o, ho, heq⟩ := List.mem_map.mp hmem
      cases heq
      rcases handle_hears hn ho with ho | ⟨hc, peer, hm⟩
      · rw [hout] at ho
        cases ho
      · rw [Function.update_self]
        obtain ⟨l, content, hl, hreads⟩ := (h.came i).answered a peer answer hm
        have hpeers : (s i).objects.Has answer.peers := fun q hq =>
          htidy.messages _ hm q (List.mem_cons_of_mem _ hq)
        exact ⟨hc, hpeers.later hlater.length, l, content, hl.mono hsub,
          hreads.later hlater hpeers⟩

theorem spoken_of_run {s : ι → InternalNode}
    (run : network.Run D.Settled D.init s log) : Spoken D log s := by
  induction run with
  | start =>
    refine ⟨.nil _, fun i => ⟨nofun, nofun, nofun⟩, fun i => KBucket.AllFiled.new (D.id i),
      fun i key => ?_, nofun⟩
    simp [init, InternalNode.new, lastStored, Machine.logOf]
  | @step s s' log out e run allowed taken ih =>
    obtain ⟨i, e⟩ := e
    obtain ⟨t, o, ht, rfl, rfl⟩ := Machine.family_step taken
    obtain ⟨n', hn, heq⟩ := Option.map_eq_some_iff.mp ht
    cases heq
    have hrun : network.Run (fun _ log e => D.Fair log e) D.init s log :=
      run.mono fun _ _ _ h => h.1
    exact ih.step (honest_of_run hrun) (sound_of_run (hrun.mono fun _ _ _ h => h.1)).1 allowed hn

/-- What the answer of the node `j` to a question means to the node `i`. -/
def Means (D : Deployment ι) (log : Log ι) (objects : Peers) (i j : ι) :
    Query → Answer → Prop
  | .find count target, answer => 0 < count.toInt →
      D.Leads target j (answer.offered.map fun p => (objects.deref p).id)
  | .get key, .got c status _ => status = 0 ∨ ∃ l, l <+: log ∧ D.Sent l i j (.get c key) ∧
      lastStored (Machine.logOf j l) key = none
  | .store key value, .stored _ _ => (j, .stored key value) ∈ log
  | _, _ => False

/-- An answer that was taken in for a question comes from the node that was asked. -/
theorem answer_means {s : ι → InternalNode}
    (run : network.Run D.Settled D.init s log) (hfit : D.CountersFit log) {a : ActorId}
    {c : Int64} {answer : Answer} (hanswer : (i, .onNewAnswer a c answer) ∈ log) {query : Query}
    (hquery : (i, .query a c query) ∈ log) (hsent : D.Sent log i j (query.content c.toInt32)) :
    D.Means log (s i).objects i j query answer := by
  have hspoken := spoken_of_run run
  have hfree : network.Run (fun _ log e => D.Delivers log e) D.init s log :=
    run.mono fun _ _ _ h => h.1.1
  obtain ⟨hnodup, hint⟩ := ids_of_run hfree hfit i
  obtain ⟨hc, hpeers, l, content, hreply, hreads⟩ := hspoken.heard i a c answer hanswer
  have hanswered : D.Answered log l (D.n2npId i) content :=
    hspoken.replied.of_mem (fun l₁ l₂ o h => by
      obtain ⟨k, o⟩ := o
      cases o with
      | send dest pkt => exact Answered.mono h (List.prefix_append _ _)
      | _ => trivial) hreply
  -- a node asks one node under an id
  have hquestions : (questions (Machine.logOf i log)).Nodup := by
    rw [questions_of_run rfl (Machine.Run.member run i)]
    refine List.Nodup.map_on (fun x hx y hy heq => ?_) hnodup
    rw [← hint x hx, ← hint y hy, heq]
  have hone : ∀ {k : ι} {content : Content}, D.Sent log i k content →
      content.question = some c.toInt32 → k = j ∧ content = query.content c.toInt32 := by
    intro k content hk hquestion
    have hother : (query.content c.toInt32).question = some c.toInt32 := by cases query <;> rfl
    have heq := eq_of_nodup_filterMap hquestions (Machine.mem_logOf.mpr hk)
      (Machine.mem_logOf.mpr hsent) hquestion hother
    obtain ⟨hdest, hpkt⟩ := Output.send.inj heq
    exact ⟨D.n2npId_injective hdest, congrArg Packet.content hpkt⟩
  have hback : c.toInt32 = answerId answer := by rw [hc, Int32.toInt32_toInt64]
  cases answer with
  | found c' status count ps =>
    obtain ⟨peers, hcontent, hids⟩ := hreads
    cases content with
    | found c'' status' count' peers' =>
      cases hcontent
      obtain ⟨k, cnt, target, hdest, hfind, hstatus, hleads⟩ := hanswered
      obtain rfl := D.n2npId_injective hdest
      obtain ⟨rfl, hq⟩ := hone hfind (by rw [hback]; rfl)
      cases query with
      | find count target =>
        cases hq
        intro hpos
        obtain ⟨hlen, hleads⟩ := hleads hpos
        have hcount : ps ≠ [] → (0 : Int32) < Int32.ofNat peers.length := fun hne => by
          have hlength : ps.length = peers.length := by simpa using congrArg List.length hids
          have hnonempty := List.length_pos_iff.mpr hne
          rw [Int32.lt_iff_toInt_lt, Int32.toInt_ofNat_of_lt hlen, Int32.toInt_zero]
          omega
        rw [Answer.offered_found hstatus hcount, hids]
        exact hleads
      | _ => cases hq
    | _ => cases hcontent
  | got c' status value =>
    cases content with
    | got c'' status' value' =>
      cases hreads
      obtain ⟨k, key, hdest, hget, hgot⟩ := hanswered
      obtain rfl := D.n2npId_injective hdest
      obtain ⟨rfl, hq⟩ := hone hget (by rw [hback]; rfl)
      cases query with
      | get key => cases hq; exact hgot
      | _ => cases hq
    | _ => cases hreads
  | stored c' status =>
    cases content with
    | stored c'' status' =>
      cases hreads
      obtain ⟨k, key, value, hdest, hstore, hstatus, hstored⟩ := hanswered
      obtain rfl := D.n2npId_injective hdest
      obtain ⟨rfl, hq⟩ := hone hstore (by rw [hback]; rfl)
      cases query with
      | store key value => cases hq; exact hstored
      | _ => cases hq
    | _ => cases hreads

end Deployment
end Epyx.DHT
