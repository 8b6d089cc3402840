import Epyx.DHT.Turns

/-! What a node asks and hears: each question goes out under an id of its own, and an answer is taken
in as it was read. -/
namespace Epyx.DHT
open N2NP (NodeId)
open Lib

/-- The id a question is asked under. -/
def Content.question : Content → Option Int32
  | .get connectionId _ | .store connectionId _ _ | .find connectionId _ _ => some connectionId
  | _ => none

def Output.question : Output → Option Int32
  | .send _ pkt => pkt.content.question
  | _ => none

/-- The ids that went out with questions. -/
def questions (log : List Output) : List Int32 := log.filterMap Output.question

theorem questions_append (log out : List Output) :
    questions (log ++ out) = questions log ++ questions out := List.filterMap_append

/-- The request in a message, as the packet had it, and the peer it comes from. -/
def Message.asks : Message → Option (SPtr × Content)
  | .ping sender => some (sender, .ping)
  | .get sender connectionId key => some (sender, .get connectionId key)
  | .store sender connectionId key value => some (sender, .store connectionId key value)
  | .find sender connectionId count idToFind => some (sender, .find connectionId count idToFind)
  | _ => none

def Message.isAnswer : Message → Bool
  | .process _ (.receive _ _) => true
  | _ => false

/-- The answer is what was read of a packet. -/
def Answer.Reads (objects : Peers) : Answer → Content → Prop
  | .got c status value, content => content = .got c status value
  | .stored c status, content => content = .stored c status
  | .found c status count ps, content => ∃ peers, content = .found c status count peers ∧
      ps.map (fun p => (objects.deref p).id) = peers.map (·.id)

theorem Answer.Reads.later {objects later : Peers} {answer : Answer} {content : Content}
    (h : answer.Reads objects content) (hlater : objects.Later later)
    (hpeers : objects.Has answer.peers) : answer.Reads later content := by
  cases answer with
  | found c status count ps =>
    obtain ⟨peers, hcontent, hids⟩ := h
    refine ⟨peers, hcontent, ?_⟩
    rw [← hids]
    exact List.map_congr_left fun p hp => hlater.id p (hpeers p hp)
  | _ => exact h

/-- All peers of a FOUND are offered that has no error and counts them. -/
theorem Answer.offered_found {c status count : Int32} {ps : List SPtr} (hstatus : status = 0)
    (hcount : ps ≠ [] → 0 < count) : (Answer.found c status count ps).offered = ps := by
  cases ps with
  | nil => simp [Answer.offered]
  | cons p ps => simp [Answer.offered, hstatus, hcount]

namespace InternalNode
variable {n n' : InternalNode}

/-! ### The questions of a node -/

/-- Each question has an id of its own. -/
def Questions (out : List Output) : Prop := questions out = (issued out).map Int64.toInt32

theorem Questions.append {out out' : List Output} (h : Questions out) (h' : Questions out') :
    Questions (out ++ out') := by
  rw [Questions, questions_append, issued_append, List.map_append, h, h']

theorem acted_questions (objects : Peers) (id : Id) (a : ActorId) (c : Int64) (xs : List Action) :
    Questions (acted objects id a c xs) := by
  unfold Questions
  induction xs generalizing c with
  | nil => rfl
  | cons x xs ih =>
    cases x with
    | sendQuery peer query =>
      have hquery : (query.content c.toInt32).question = some c.toInt32 := by cases query <;> rfl
      simp only [acted, questions, issued, List.filterMap_cons, Output.question, Output.issued,
        hquery, List.map_cons]
      exact congrArg _ (ih (c + 1))
    | call callback => exact ih c
    | _ => exact ih c

theorem quiet_questions {out : List Output} (hquestion : ∀ o ∈ out, o.question = none)
    (hissued : ∀ o ∈ out, o.issued = none) : Questions out := by
  have h₁ : questions out = [] := List.filterMap_eq_nil_iff.mpr hquestion
  have h₂ : issued out = [] := List.filterMap_eq_nil_iff.mpr hissued
  rw [Questions, h₁, h₂]
  rfl

theorem findClosest_questions {cb : FindCallback} {count : Int} {idToFind : Id}
    (h : n.findClosest cb count idToFind = some n') :
    ∃ os, n'.out = n.out ++ os ∧ Questions os := by
  obtain ⟨nearest, -, hran⟩ := findClosest_ran h
  exact ⟨_, hran.out, acted_questions _ _ _ _ _⟩

theorem spawn_questions {role : Role} {cb : FindCallback} {count : Int} {idToFind : Id}
    (h : (n.add role).findClosest cb count idToFind = some n') :
    ∃ os, n'.out = n.out ++ os ∧ Questions os :=
  findClosest_questions (n := n.add role) h

theorem treatProcess_questions (n : InternalNode) (a : ActorId) (m : ProcessMessage) :
    ∃ os, (n.treatProcess a m).out = n.out ++ os ∧ Questions os := by
  have hnothing : ∃ os, n.out = n.out ++ os ∧ Questions os := ⟨[], (List.append_nil _).symm, rfl⟩
  rcases n.treatProcess_cases a m with heq | ⟨p, -, -, heq⟩ | ⟨p₀, p, r, said, -, -, htreats, hacted⟩
  · rw [heq]
    exact hnothing
  · obtain ⟨r, hr⟩ := foldl_unregister p.queries.keys n
    rw [heq, destroy, hr]
    exact hnothing
  · refine ⟨_, hacted.out, Questions.append ?_ (acted_questions _ _ _ _ _)⟩
    cases htreats <;> rfl

theorem handle_questions {e : Event}
    (h : n.handle e = some n') : ∃ os, n'.out = n.out ++ os ∧ Questions os := by
  cases e with
  | receive pkt senderId now =>
    cases h
    exact ⟨[], by rw [(n.processPacket_storage pkt senderId now).2.1, List.append_nil], rfl⟩
  | work k keyId =>
    obtain ⟨m, -, h⟩ := Option.bind_eq_some_iff.mp h
    cases hr : m.request with
    | some r =>
      obtain ⟨os, content, hout, hanswers, hstored⟩ := (treat_served hr h).out
      refine ⟨os ++ [_], hout.trans (List.append_assoc ..), ?_⟩
      have hcontent : content.question = none := by
        cases content <;> first | rfl | cases hanswers
      refine Questions.append (quiet_questions ?_ ?_) (quiet_questions ?_ ?_)
      · intro o ho
        obtain ⟨key, value, rfl⟩ := hstored o ho
        rfl
      · intro o ho
        obtain ⟨key, value, rfl⟩ := hstored o ho
        rfl
      · simpa [Output.question] using hcontent
      · simp [Output.issued]
    | none =>
      cases m with
      | newKey key => cases h; exact ⟨[], (List.append_nil _).symm, rfl⟩
      | replicate key =>
        simp only [InternalNode.treat, treatReplicate] at h
        split at h
        · exact spawn_questions (n := { n with messages := n.messages.eraseIdx k }) h
        · cases h
          exact ⟨[], (List.append_nil _).symm, rfl⟩
      | process a m => cases h; exact treatProcess_questions _ a m
      | _ => cases hr
  | expire k =>
    obtain ⟨m, -, rfl⟩ := Option.map_eq_some_iff.mp h
    exact ⟨[], (List.append_nil _).symm, rfl⟩
  | sendPing dest => cases h; exact ⟨[_], rfl, rfl⟩
  | findClosest count idToFind => exact findClosest_questions h
  | getValue key keyId => exact spawn_questions h
  | setValue key value keyId edit => exact spawn_questions h

theorem questions_of_run {ok : InternalNode → List Output → Event → Prop}
    {log : List Output} {n₀ : InternalNode} (hout : n₀.out = [])
    (run : machine.Run ok n₀ n log) : Questions log := by
  have h : n.out = [] ∧ Questions log := by
    refine run.invariant (P := fun n log => n.out = [] ∧ Questions log) ⟨hout, rfl⟩ ?_
    intro n log e n' out hn _ taken
    obtain ⟨n₁, hn₁, heq⟩ := Option.map_eq_some_iff.mp taken
    cases heq
    obtain ⟨os, hos, hquestions⟩ := handle_questions hn₁
    rw [hn.1, List.nil_append] at hos
    exact ⟨rfl, hn.2.append (hos ▸ hquestions)⟩
  exact h.2

/-! ### The mail of a node -/

/-- What a packet adds to the mail: the request it is, or what is read of the answer it is. -/
theorem processPacket_mail (n : InternalNode) (pkt : Packet) (senderId : NodeId) (now : Int) :
    ∃ ms, (n.processPacket pkt senderId now).messages = n.messages ++ ms ∧ ∀ m ∈ ms,
      m.asks = some ((n.seenPeer pkt.from senderId now).2, pkt.content) ∧ m.isAnswer = false ∨
      ∃ a answer, m = .process a (.receive (n.seenPeer pkt.from senderId now).2 answer) ∧
        answer.Reads (n.processPacket pkt senderId now).objects pkt.content := by
  have hd : ∀ (n : InternalNode) (sender : SPtr) (answer : Answer),
      ∃ ms, (n.dispatchToProcessActor sender answer).messages = n.messages ++ ms ∧
        ∀ m ∈ ms, ∃ a, m = .process a (.receive sender answer) := fun n sender answer => by
    unfold dispatchToProcessActor
    split
    · exact ⟨[_], rfl, fun m hm => ⟨_, List.mem_singleton.mp hm⟩⟩
    · exact ⟨[], (List.append_nil _).symm, nofun⟩
  have hobjects := (processPacket_table n pkt senderId now).2
  unfold processPacket at hobjects ⊢
  cases hc : pkt.content with
  | pong => exact ⟨[], (List.append_nil _).symm, nofun⟩
  | got c status value =>
    obtain ⟨ms, hms, hall⟩ := hd (n.seenPeer pkt.from senderId now).1
      (n.seenPeer pkt.from senderId now).2 (.got c status value)
    refine ⟨ms, hms, fun m hm => .inr ?_⟩
    obtain ⟨a, rfl⟩ := hall m hm
    exact ⟨a, _, rfl, rfl⟩
  | stored c status =>
    obtain ⟨ms, hms, hall⟩ := hd (n.seenPeer pkt.from senderId now).1
      (n.seenPeer pkt.from senderId now).2 (.stored c status)
    refine ⟨ms, hms, fun m hm => .inr ?_⟩
    obtain ⟨a, rfl⟩ := hall m hm
    exact ⟨a, _, rfl, rfl⟩
  | found c status count foundPeers =>
    rw [hc] at hobjects
    dsimp only at hobjects ⊢
    obtain ⟨ms, hms, hall⟩ := hd ((n.seenPeer pkt.from senderId now).1.readPeers foundPeers).1
      (n.seenPeer pkt.from senderId now).2
      (.found c status count ((n.seenPeer pkt.from senderId now).1.readPeers foundPeers).2)
    refine ⟨ms, hms, fun m hm => .inr ?_⟩
    obtain ⟨a, rfl⟩ := hall m hm
    refine ⟨a, _, rfl, foundPeers, rfl, ?_⟩
    rw [hobjects]
    -- the new objects stand behind the others
    refine List.ext_getElem (by simp [readPeers, Content.peers]) fun k hk hk' => ?_
    have hlt : k < foundPeers.length := by simpa using hk'
    simp [readPeers, Peers.deref, Content.peers, hlt]
  | _ => exact ⟨[_], rfl, fun m hm => .inl (by rw [List.mem_singleton.mp hm]; exact ⟨rfl, rfl⟩)⟩

/-- The mail grows from within: by no requests and no answers, and by timers. -/
structure Inside (n n' : InternalNode) : Prop where
  messages : ∃ ms, n'.messages = n.messages ++ ms ∧ ∀ m ∈ ms, m.asks = none ∧ m.isAnswer = false
  timeouts : ∃ ms, n'.timeouts = n.timeouts ++ ms ∧ ∀ m ∈ ms, m.isTimer

theorem Inside.refl (n : InternalNode) : Inside n n :=
  ⟨⟨[], (List.append_nil _).symm, nofun⟩, ⟨[], (List.append_nil _).symm, nofun⟩⟩

theorem Inside.add (n : InternalNode) (role : Role) : Inside n (n.add role) :=
  ⟨⟨[], (List.append_nil _).symm, nofun⟩, ⟨[_], rfl, by simp [Message.isTimer]⟩⟩

theorem Inside.trans {n'' : InternalNode} (h : Inside n n') (h' : Inside n' n'') : Inside n n'' :=
  ⟨grow_trans h.messages h'.messages, grow_trans h.timeouts h'.timeouts⟩

/-- What a handler sends and arms is within the node. -/
theorem inside_of_fits {a : ActorId} {xs : List Action} {key : Option ByteStr}
    {got : ByteStr → Prop} (hxs : ∀ x ∈ xs, x.Fits key got)
    (hmessages : n'.messages = n.messages ++ posted a xs)
    (htimeouts : ∃ ms, n'.timeouts = n.timeouts ++ ms ∧
      ∀ m ∈ ms, m.isTimer ∨ .timeout m ∈ xs) : Inside n n' := by
  obtain ⟨ms, hms, htimers⟩ := htimeouts
  refine ⟨⟨_, hmessages, fun m hm => ?_⟩, ⟨ms, hms, fun m hm => ?_⟩⟩
  · obtain ⟨x, hx, hxm⟩ := List.mem_filterMap.mp hm
    cases x with
    | post b message =>
      cases hxm
      have hfits := hxs _ hx
      cases message with
      | receive peer answer => cases hfits
      | _ => exact ⟨rfl, rfl⟩
    | kill => cases hxm; exact ⟨rfl, rfl⟩
    | _ => cases hxm
  · rcases htimers m hm with htimer | hm
    · exact htimer
    · obtain ⟨k, rfl⟩ := hxs _ hm
      rfl

theorem Treats.fits {a : ActorId} {m : ProcessMessage} {p q : ProcessActor}
    {r : Role × List Action} {said : List Output} (h : Treats n a p m q r said) :
    ∃ got, ∀ x ∈ r.2, x.Fits p.role.key got := by
  cases h with
  | answer peer answer pending => exact ⟨_, (p.role.onNewAnswer_keeps n.objects answer).2⟩
  | timeout c asked =>
    have hkeeps : p.role.Keeps (fun _ => False) (p.role.onAnswerTimeout n.objects) :=
      p.role.onAnswerTimeout_keeps n.objects
    exact ⟨_, hkeeps.2⟩
  | other m receive timeout =>
    have hkeeps : p.role.Keeps (fun _ => False) (p.role.treat n.objects n.id m) :=
      p.role.treat_keeps n.objects n.id m
    exact ⟨_, hkeeps.2⟩

theorem spawn_inside {role : Role} {cb : FindCallback} {count : Int} {idToFind : Id}
    (h : (n.add role).findClosest cb count idToFind = some n') : Inside n n' := by
  obtain ⟨nearest, -, hran⟩ := findClosest_ran h
  exact ((Inside.add n role).trans (.add _ _)).trans (inside_of_fits
    (FinderActor.start_fits (n.add role).objects _ nearest) hran.messages hran.timeouts)

theorem findClosest_inside {cb : FindCallback} {count : Int} {idToFind : Id}
    (h : n.findClosest cb count idToFind = some n') : Inside n n' := by
  obtain ⟨nearest, -, hran⟩ := findClosest_ran h
  exact (Inside.add n _).trans (inside_of_fits
    (FinderActor.start_fits n.objects _ nearest) hran.messages hran.timeouts)

theorem treatProcess_inside (n : InternalNode) (a : ActorId) (m : ProcessMessage) :
    Inside n (n.treatProcess a m) := by
  rcases n.treatProcess_cases a m with heq | ⟨p, -, -, heq⟩ | ⟨p₀, p, r, said, -, -, htreats, hacted⟩
  · rw [heq]
    exact .refl n
  · obtain ⟨r, hr⟩ := foldl_unregister p.queries.keys n
    rw [heq, destroy, hr]
    have h := Inside.refl n
    exact ⟨h.messages, h.timeouts⟩
  · obtain ⟨got, hfits⟩ := htreats.fits
    exact inside_of_fits hfits hacted.messages hacted.timeouts

theorem treat_inside {keyId : Id} {m : Message}
    (h : n.treat keyId m = some n') : Inside n n' := by
  have hsend : ∀ (content : Content) (sender : SPtr), Inside n (n.send content sender) :=
    fun _ _ => ⟨⟨[], (List.append_nil _).symm, nofun⟩, ⟨[], (List.append_nil _).symm, nofun⟩⟩
  cases m with
  | ping sender => cases h; exact hsend _ _
  | get sender c key =>
    cases h
    unfold treatGet
    split
    · exact hsend _ _
    · exact hsend _ _
  | store sender c key value =>
    cases h
    simp only [treatStore, storageSet]
    split
    · exact ⟨⟨[.newKey key], rfl, by simp [Message.asks, Message.isAnswer]⟩,
        ⟨[], (List.append_nil _).symm, nofun⟩⟩
    · exact ⟨⟨[], (List.append_nil _).symm, nofun⟩, ⟨[], (List.append_nil _).symm, nofun⟩⟩
  | find sender c count idToFind =>
    obtain ⟨nearest, -, rfl⟩ := Option.map_eq_some_iff.mp h
    exact hsend _ _
  | newKey key =>
    cases h
    exact ⟨⟨[], (List.append_nil _).symm, nofun⟩, ⟨[_], rfl, by simp [Message.isTimer]⟩⟩
  | replicate key =>
    simp only [InternalNode.treat, treatReplicate] at h
    split at h
    · exact spawn_inside h
    · cases h
      exact .refl n
  | process a m => cases h; exact treatProcess_inside n a m

/-! ### The answers that are taken in -/

theorem acted_silent {objects : Peers} {id : Id} {a : ActorId} {c : Int64} {xs : List Action}
    {b : ActorId} {d : Int64} {answer : Answer} :
    .onNewAnswer b d answer ∉ acted objects id a c xs := by
  induction xs generalizing c with
  | nil => exact List.not_mem_nil
  | cons x xs ih =>
    cases x with
    | sendQuery peer query => simp [acted, ih]
    | call callback => simp [acted, ih]
    | _ => exact ih

theorem findClosest_silent {cb : FindCallback} {count : Int} {idToFind : Id} {a : ActorId}
    {c : Int64} {answer : Answer} (h : n.findClosest cb count idToFind = some n')
    (hmem : .onNewAnswer a c answer ∈ n'.out) : .onNewAnswer a c answer ∈ n.out := by
  obtain ⟨nearest, -, hran⟩ := findClosest_ran h
  rw [hran.out] at hmem
  exact (List.mem_append.mp hmem).resolve_right acted_silent

theorem spawn_silent {role : Role} {cb : FindCallback} {count : Int} {idToFind : Id} {a : ActorId}
    {c : Int64} {answer : Answer} (h : (n.add role).findClosest cb count idToFind = some n')
    (hmem : .onNewAnswer a c answer ∈ n'.out) : .onNewAnswer a c answer ∈ n.out :=
  findClosest_silent (n := n.add role) h hmem

/-- An answer is taken in when the message with it is. -/
theorem treatProcess_hears {a b : ActorId} {m : ProcessMessage} {c : Int64} {answer : Answer}
    (hmem : .onNewAnswer b c answer ∈ (n.treatProcess a m).out) :
    .onNewAnswer b c answer ∈ n.out ∨
      b = a ∧ c = (answerId answer).toInt64 ∧ ∃ peer, m = .receive peer answer := by
  rcases n.treatProcess_cases a m with heq | ⟨p, -, -, heq⟩ | ⟨p₀, p, r, said, -, -, htreats, hacted⟩
  · exact .inl (heq ▸ hmem)
  · obtain ⟨r, hr⟩ := foldl_unregister p.queries.keys n
    rw [heq, destroy, hr] at hmem
    exact .inl hmem
  · rw [hacted.out] at hmem
    refine (List.mem_append.mp hmem).imp_right fun hmem => ?_
    have hsaid := (List.mem_append.mp hmem).resolve_right acted_silent
    cases htreats with
    | answer peer answer' pending =>
      cases List.mem_singleton.mp hsaid
      exact ⟨rfl, rfl, peer, rfl⟩
    | timeout d asked => cases List.mem_singleton.mp hsaid
    | other m receive timeout => cases hsaid

theorem handle_hears {e : Event}
    (h : n.handle e = some n') {a : ActorId} {c : Int64} {answer : Answer}
    (hmem : .onNewAnswer a c answer ∈ n'.out) :
    .onNewAnswer a c answer ∈ n.out ∨
      c = (answerId answer).toInt64 ∧ ∃ peer, .process a (.receive peer answer) ∈ n.messages := by
  cases e with
  | receive pkt senderId now =>
    cases h
    rw [(n.processPacket_storage pkt senderId now).2.1] at hmem
    exact .inl hmem
  | work k keyId =>
    obtain ⟨m, hm, h⟩ := Option.bind_eq_some_iff.mp h
    cases hr : m.request with
    | some r =>
      obtain ⟨os, content, hout, -, hstored⟩ := (treat_served hr h).out
      rw [hout] at hmem
      rcases List.mem_append.mp hmem with hmem | hmem
      · rcases List.mem_append.mp hmem with hmem | hmem
        · exact .inl hmem
        · obtain ⟨key, value, heq⟩ := hstored _ hmem
          cases heq
      · cases List.mem_singleton.mp hmem
    | none =>
      cases m with
      | newKey key => cases h; exact .inl hmem
      | replicate key =>
        simp only [InternalNode.treat, treatReplicate] at h
        split at h
        · exact .inl (spawn_silent (n := { n with messages := n.messages.eraseIdx k }) h hmem)
        · cases h
          exact .inl hmem
      | process b pm =>
        cases h
        rcases treatProcess_hears hmem with hmem | ⟨rfl, hc, peer, rfl⟩
        · exact .inl hmem
        · exact .inr ⟨hc, peer, List.mem_of_getElem? hm⟩
      | _ => cases hr
  | expire k =>
    obtain ⟨m, -, rfl⟩ := Option.map_eq_some_iff.mp h
    exact .inl hmem
  | sendPing dest =>
    cases h
    exact .inl ((List.mem_append.mp hmem).resolve_right (by simp))
  | findClosest count idToFind => exact .inl (findClosest_silent h hmem)
  | getValue key keyId => exact .inl (spawn_silent h hmem)
  | setValue key value keyId edit => exact .inl (spawn_silent h hmem)

/-- The table stays that of its node. -/
theorem handle_ownId {e : Event}
    (h : n.handle e = some n') : n'.kbucket.ownId = n.kbucket.ownId := by
  by_cases hreceive : ∃ pkt senderId now, e = .receive pkt senderId now
  · obtain ⟨pkt, senderId, now, rfl⟩ := hreceive
    cases h
    rw [(processPacket_table n pkt senderId now).1]
    unfold InternalNode.seenPeer KBucket.seenPeer
    dsimp only
    split <;> rfl
  · have hsame := handle_sameTable (fun pkt senderId now heq => hreceive ⟨pkt, senderId, now, heq⟩) h
    rw [hsame.kbucket]

end InternalNode
end Epyx.DHT
