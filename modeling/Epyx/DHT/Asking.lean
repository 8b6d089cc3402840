import Epyx.DHT.Answers

/-! What an actor has asked and what it was told. As long as none of its questions is given up, it
waits for those that were not answered. -/
namespace Epyx.DHT
open Lib

/-- The actor an output is about, questions and what becomes of them. -/
def Output.actor : Output → Option ActorId
  | .query a _ _ | .onNewAnswer a _ _ | .onAnswerTimeout a _ => some a
  | _ => none

/-- The ids the actor has asked under. -/
def asksOf (a : ActorId) (log : List Output) : List Int64 :=
  log.filterMap fun
    | .query b c _ => if b = a then some c else none
    | _ => none

/-- The ids the actor has got an answer under. -/
def hearsOf (a : ActorId) (log : List Output) : List Int64 :=
  log.filterMap fun
    | .onNewAnswer b c _ => if b = a then some c else none
    | _ => none

/-- No question of the actor was given up. -/
def Patient (a : ActorId) (log : List Output) : Prop := ∀ c, .onAnswerTimeout a c ∉ log

section Log
variable {a b : ActorId} {log out : List Output}

theorem asksOf_append : asksOf a (log ++ out) = asksOf a log ++ asksOf a out :=
  List.filterMap_append

theorem hearsOf_append : hearsOf a (log ++ out) = hearsOf a log ++ hearsOf a out :=
  List.filterMap_append

theorem mem_asksOf {c : Int64} : c ∈ asksOf a log ↔ ∃ query, .query a c query ∈ log := by
  constructor
  · intro h
    obtain ⟨o, ho, heq⟩ := List.mem_filterMap.mp h
    cases o with
    | query b d query =>
      dsimp only at heq
      split at heq
      · rename_i hb
        cases heq
        exact ⟨query, hb ▸ ho⟩
      · cases heq
    | _ => cases heq
  · rintro ⟨query, h⟩
    exact List.mem_filterMap.mpr ⟨_, h, by simp⟩

theorem mem_hearsOf {c : Int64} : c ∈ hearsOf a log ↔ ∃ answer, .onNewAnswer a c answer ∈ log := by
  constructor
  · intro h
    obtain ⟨o, ho, heq⟩ := List.mem_filterMap.mp h
    cases o with
    | onNewAnswer b d answer =>
      dsimp only at heq
      split at heq
      · rename_i hb
        cases heq
        exact ⟨answer, hb ▸ ho⟩
      · cases heq
    | _ => cases heq
  · rintro ⟨answer, h⟩
    exact List.mem_filterMap.mpr ⟨_, h, by simp⟩

theorem asksOf_silent (h : ∀ o ∈ out, o.actor ≠ some a) : asksOf a out = [] :=
  List.eq_nil_iff_forall_not_mem.mpr fun c hc => by
    obtain ⟨query, hmem⟩ := mem_asksOf.mp hc
    exact h _ hmem rfl

theorem hearsOf_silent (h : ∀ o ∈ out, o.actor ≠ some a) : hearsOf a out = [] :=
  List.eq_nil_iff_forall_not_mem.mpr fun c hc => by
    obtain ⟨answer, hmem⟩ := mem_hearsOf.mp hc
    exact h _ hmem rfl

theorem Patient.left (h : Patient a (log ++ out)) : Patient a log :=
  fun c hc => h c (List.mem_append_left _ hc)

theorem Patient.append (h : Patient a log) (hout : ∀ c, .onAnswerTimeout a c ∉ out) :
    Patient a (log ++ out) :=
  fun c hc => (List.mem_append.mp hc).elim (h c) (hout c)

theorem mem_issued {c : Int64} (h : c ∈ asksOf a log) : c ∈ issued log := by
  obtain ⟨query, hmem⟩ := mem_asksOf.mp h
  exact List.mem_filterMap.mpr ⟨_, hmem, rfl⟩

end Log

namespace InternalNode
variable {n n' : InternalNode} {a b : ActorId} {log : List Output}

theorem acted_actor {objects : Peers} {id : Id} {c : Int64} {xs : List Action} {o : Output}
    (h : o ∈ acted objects id a c xs) : o.actor = none ∨ o.actor = some a := by
  induction xs generalizing c with
  | nil => cases h
  | cons x xs ih =>
    cases x with
    | sendQuery peer query =>
      rcases List.mem_cons.mp h with rfl | h
      · exact .inr rfl
      · rcases List.mem_cons.mp h with rfl | h
        · exact .inl rfl
        · exact ih h
    | call callback =>
      rcases List.mem_cons.mp h with rfl | h
      · exact .inl rfl
      · exact ih h
    | _ => exact ih h

/-- Only what asks is about the actor. -/
theorem acted_aside {objects : Peers} {id : Id} {c : Int64} {xs : List Action}
    (hxs : ∀ peer query, .sendQuery peer query ∉ xs) {o : Output}
    (h : o ∈ acted objects id a c xs) : o.actor = none := by
  induction xs with
  | nil => cases h
  | cons x xs ih =>
    have hrest := ih fun peer query hmem => hxs peer query (.tail _ hmem)
    cases x with
    | sendQuery peer query => exact absurd (.head _) (hxs peer query)
    | call callback =>
      rcases List.mem_cons.mp h with rfl | h
      · rfl
      · exact hrest h
    | _ => exact hrest h

theorem asksOf_acted (objects : Peers) (id : Id) (a : ActorId) (c : Int64) (xs : List Action) :
    asksOf a (acted objects id a c xs) = given c xs := by
  unfold asksOf
  induction xs generalizing c with
  | nil => rfl
  | cons x xs ih =>
    cases x with
    | sendQuery peer query => simpa [acted, given] using ih (c + 1)
    | call callback => simpa [acted, given] using ih c
    | _ => exact ih c

theorem hearsOf_acted (objects : Peers) (id : Id) (a b : ActorId) (c : Int64) (xs : List Action) :
    hearsOf b (acted objects id a c xs) = [] :=
  List.eq_nil_iff_forall_not_mem.mpr fun d hd => by
    obtain ⟨answer, hmem⟩ := mem_hearsOf.mp hd
    exact acted_silent hmem

/-- The actor waits for the answers it has not got. -/
structure Talks (log : List Output) (a : ActorId) (p : ProcessActor) : Prop where
  waits : ∀ c, p.queries[c]? = some true → c ∈ asksOf a log ∧ c ∉ hearsOf a log
  asked : hearsOf a log ⊆ asksOf a log
  once : (hearsOf a log).Nodup

theorem Talks.silent {p : ProcessActor} (h : Talks log a p) {out : List Output}
    (hout : ∀ o ∈ out, o.actor ≠ some a) : Talks (log ++ out) a p := by
  have hasks : asksOf a (log ++ out) = asksOf a log := by
    rw [asksOf_append, asksOf_silent hout, List.append_nil]
  have hhears : hearsOf a (log ++ out) = hearsOf a log := by
    rw [hearsOf_append, hearsOf_silent hout, List.append_nil]
  exact ⟨by rw [hasks, hhears]; exact h.waits, by rw [hasks, hhears]; exact h.asked,
    by rw [hhears]; exact h.once⟩

/-- What is said before a handler acts. -/
theorem Talks.said {p₀ p : ProcessActor} {m : ProcessMessage} {r : Role × List Action}
    {said : List Output} (h : Talks log a p₀) (htreats : Treats n a p₀ m p r said)
    (hpatient : Patient a (log ++ said)) : Talks (log ++ said) a p := by
  cases htreats with
  | answer peer answer pending =>
    obtain ⟨hasked, hnew⟩ := h.waits _ pending
    have hasks : asksOf a (log ++ [.onNewAnswer a (answerId answer).toInt64 answer]) =
        asksOf a log := by
      rw [asksOf_append]
      exact List.append_nil _
    have hhears : hearsOf a (log ++ [.onNewAnswer a (answerId answer).toInt64 answer]) =
        hearsOf a log ++ [(answerId answer).toInt64] := by
      rw [hearsOf_append]
      simp [hearsOf]
    refine ⟨fun c hc => ?_, ?_, ?_⟩
    · rw [hasks, hhears, List.mem_append, List.mem_singleton, not_or]
      rcases TreeMap.of_getElem?_insert hc with ⟨-, hc⟩ | ⟨hne, hc⟩
      · cases hc
      · exact ⟨(h.waits c hc).1, (h.waits c hc).2, Ne.symm hne⟩
    · rw [hasks, hhears]
      exact List.append_subset.mpr ⟨h.asked, List.cons_subset.mpr ⟨hasked, List.nil_subset _⟩⟩
    · rw [hhears]
      exact List.nodup_append.mpr ⟨h.once, List.nodup_singleton _, fun x hx y hy hxy =>
        hnew (List.mem_singleton.mp hy ▸ hxy ▸ hx)⟩
  | timeout c asked => exact absurd (List.mem_append_right _ (.head _)) (hpatient c)
  | other m receive timeout => rwa [List.append_nil]

/-- The handler asks under new ids. -/
theorem Talks.acted {p q : ProcessActor} {r : Role × List Action} {c : Int64} (h : Talks log a p)
    (hbecame : Became c p q r) (objects : Peers) (id : Id)
    (hnodup : (issued (log ++ acted objects id a c r.2)).Nodup) :
    Talks (log ++ InternalNode.acted objects id a c r.2) a q := by
  have hasks : asksOf a (log ++ InternalNode.acted objects id a c r.2) =
      asksOf a log ++ given c r.2 := by rw [asksOf_append, asksOf_acted]
  have hhears : hearsOf a (log ++ InternalNode.acted objects id a c r.2) = hearsOf a log := by
    rw [hearsOf_append, hearsOf_acted, List.append_nil]
  refine ⟨fun d hd => ?_, ?_, ?_⟩
  · rw [hasks, hhears]
    rw [hbecame.queries] at hd
    split at hd
    · rename_i hgiven
      refine ⟨List.mem_append_right _ hgiven, fun hheard => ?_⟩
      rw [issued_append] at hnodup
      rw [← asksOf_acted objects id a] at hgiven
      exact (List.nodup_append.mp hnodup).2.2 _ (mem_issued (h.asked hheard)) _
        (mem_issued hgiven) rfl
    · exact ⟨List.mem_append_left _ (h.waits d hd).1, (h.waits d hd).2⟩
  · rw [hasks, hhears]
    exact List.subset_append_of_subset_left _ h.asked
  · rw [hhears]
    exact h.once

/-- Who has no answer to wait for has got all answers. -/
theorem Talks.all {p : ProcessActor} (h : Talks log a p)
    (hlength : (asksOf a log).length ≤ (hearsOf a log).length) : asksOf a log ⊆ hearsOf a log :=
  ((h.once.subperm h.asked).perm_of_length_le hlength).symm.subset

/-! ### What can happen to a node -/

end InternalNode

/-- The message tells an actor how the search has ended that it has spawned. -/
def Message.result (a : ActorId) : Message → Option ProcessMessage
  | .process b (.findSuccess peers) => if b = a then some (.findSuccess peers) else none
  | .process b .findFailure => if b = a then some .findFailure else none
  | _ => none

theorem Message.result_timer {m : Message} (h : m.isTimer) (a : ActorId) : m.result a = none := by
  cases m with
  | process b pm =>
    cases pm with
    | findSuccess peers => cases h
    | findFailure => cases h
    | _ => rfl
  | _ => rfl

namespace InternalNode
variable {n n' : InternalNode}

/-- The results in the mail of the actor `a`. -/
def results (n : InternalNode) (a : ActorId) : List ProcessMessage :=
  n.messages.filterMap (Message.result a)

/-- No actor notices. -/
structure Unnoticed (n n' : InternalNode) : Prop where
  aside : Aside n n'
  later : n.objects.Later n'.objects
  results : ∀ a, n'.results a = n.results a

/-- What goes out aside is about no actor. -/
theorem Aside.actor {n n' : InternalNode} (h : Aside n n') {out : List Output}
    (hout : n'.out = n.out ++ out) {o : Output} (ho : o ∈ out) : o.actor = none := by
  obtain ⟨out', hout', hall⟩ := h.out
  rw [hout, List.append_cancel_left_eq] at hout'
  have haside := hall o (hout' ▸ ho)
  cases o with
  | send dest pkt => rfl
  | stored key value => rfl
  | _ => cases haside

/-- The actor `getValue`, `setValue` and the replicater spawn a search for, with the id they make of
its key. -/
inductive Starts (n : InternalNode) (key : ByteStr) (keyId : Id) : Event → Role → Prop
  | getValue : Starts n key keyId (.getValue key keyId) (.getter (.new key))
  | setValue (value : ByteStr) (edit : List SPtr → List SPtr) :
      Starts n key keyId (.setValue key value keyId edit) (.setter (.new key value (.user edit)))
  | replicate {k : Nat} (value : ByteStr) (hm : n.messages[k]? = some (.replicate key)) :
      Starts n key keyId (.work k keyId) (.setter (.new key value (.replicater false key)))

/-- What an event comes to. -/
inductive Happens (n : InternalNode) : Event → InternalNode → Prop
  | quiet {e : Event} {n' : InternalNode} (h : Unnoticed n n') : Happens n e n'
  | search {e : Event} {n' : InternalNode} (count : Int) (idToFind : Id)
      (h : n.findClosest .user count idToFind = some n') : Happens n e n'
  | operation {e : Event} {ms : List Message} {n' : InternalNode}
      (h₀ : Unnoticed n { n with messages := ms }) {role : Role} {key : ByteStr} {keyId : Id}
      (hrole : Starts n key keyId e role)
      (h : ({ n with messages := ms }.add role).findClosest (.search n.actorCount) 10 keyId =
        some n') : Happens n e n'
  | turn {k : Nat} {keyId : Id} {a : ActorId} {m : ProcessMessage}
      (hm : n.messages[k]? = some (.process a m)) :
      Happens n (.work k keyId) ({ n with messages := n.messages.eraseIdx k }.treatProcess a m)

theorem Unnoticed.refl (n : InternalNode) : Unnoticed n n := ⟨.refl n, .refl _, fun _ => rfl⟩

theorem Unnoticed.trans {n'' : InternalNode} (h : Unnoticed n n') (h' : Unnoticed n' n'') : Unnoticed n n'' := by
  obtain ⟨out, hout, hall⟩ := h.aside.out
  obtain ⟨out', hout', hall'⟩ := h'.aside.out
  refine ⟨⟨h'.aside.actorCount.trans h.aside.actorCount, h'.aside.actors.trans h.aside.actors,
    h'.aside.processActorsCount.trans h.aside.processActorsCount,
    h'.aside.processActors.trans h.aside.processActors, out ++ out', ?_, fun o ho => ?_⟩,
    h.later.trans h'.later, fun a => (h'.results a).trans (h.results a)⟩
  · rw [hout', hout, List.append_assoc]
  · exact (List.mem_append.mp ho).elim (hall o) (hall' o)

/-- A message is taken that is no result. -/
theorem Unnoticed.take {k : Nat} {m : Message} (hm : n.messages[k]? = some m)
    (hresult : ∀ a, m.result a = none) : Unnoticed n { n with messages := n.messages.eraseIdx k } := by
  refine ⟨.silent rfl rfl rfl rfl rfl, .refl _, fun a => ?_⟩
  have hsplit := List.take_append_drop k n.messages
  obtain ⟨hk, hget⟩ := List.getElem?_eq_some_iff.mp hm
  rw [List.drop_eq_getElem_cons hk, hget] at hsplit
  show (n.messages.eraseIdx k).filterMap _ = n.messages.filterMap _
  conv_rhs => rw [← hsplit]
  rw [List.eraseIdx_eq_take_drop_succ, List.filterMap_append, List.filterMap_append,
    List.filterMap_cons, hresult a]

/-- Mail comes in that is no result. -/
theorem results_append {ms : List Message} (hmessages : n'.messages = n.messages ++ ms)
    (hms : ∀ m ∈ ms, ∀ a, m.result a = none) (a : ActorId) : n'.results a = n.results a := by
  rw [results, hmessages, List.filterMap_append,
    List.filterMap_eq_nil_iff.mpr fun m hm => hms m hm a, List.append_nil]
  rfl

theorem Unnoticed.receive (n : InternalNode) (pkt : Packet) (senderId : N2NP.NodeId) (now : Int) :
    Unnoticed n (n.processPacket pkt senderId now) := by
  obtain ⟨ms, hmessages, hms⟩ := n.processPacket_mail pkt senderId now
  refine ⟨processPacket_aside n pkt senderId now, ?_, results_append hmessages fun m hm a => ?_⟩
  · rw [(processPacket_table n pkt senderId now).2]
    exact (n.kbucket.seenPeer_later _ pkt.from senderId now).trans (.append _ _)
  · rcases hms m hm with ⟨hasks, -⟩ | ⟨b, answer, rfl, -⟩
    · cases m with
      | process b pm => cases hasks
      | _ => rfl
    · rfl

theorem Unnoticed.send (n : InternalNode) (content : Content) (dest : SPtr) :
    Unnoticed n (n.send content dest) :=
  ⟨(Aside.refl n).send content dest, .refl _, fun _ => rfl⟩

theorem Unnoticed.store (n : InternalNode) (peer : SPtr) (c : Int32) (key value : ByteStr) :
    Unnoticed n (n.treatStore peer c key value) := by
  have hemit : Unnoticed n (n.emit (.stored key value)) :=
    ⟨(Aside.refl n).emit rfl, .refl _, fun _ => rfl⟩
  refine (hemit.trans ?_).trans (.send _ _ _)
  unfold storageSet
  dsimp only
  split
  · exact ⟨.silent rfl rfl rfl rfl rfl, .refl _, results_append rfl (by simp [Message.result])⟩
  · exact ⟨.silent rfl rfl rfl rfl rfl, .refl _, fun _ => rfl⟩

theorem treat_happens {k : Nat} {keyId : Id} {m : Message} (hm : n.messages[k]? = some m)
    (h : { n with messages := n.messages.eraseIdx k }.treat keyId m = some n') :
    Happens n (.work k keyId) n' := by
  cases m with
  | ping sender => cases h; exact .quiet ((Unnoticed.take hm fun _ => rfl).trans (.send _ _ _))
  | get sender c key =>
    cases h
    unfold treatGet
    split
    · exact .quiet ((Unnoticed.take hm fun _ => rfl).trans (.send _ _ _))
    · exact .quiet ((Unnoticed.take hm fun _ => rfl).trans (.send _ _ _))
  | store sender c key value =>
    cases h
    exact .quiet ((Unnoticed.take hm fun _ => rfl).trans (.store _ _ _ _ _))
  | find sender c count idToFind =>
    obtain ⟨nearest, -, rfl⟩ := Option.map_eq_some_iff.mp h
    exact .quiet ((Unnoticed.take hm fun _ => rfl).trans (.send _ _ _))
  | newKey key =>
    cases h
    exact .quiet ((Unnoticed.take hm fun _ => rfl).trans
      ⟨.silent rfl rfl rfl rfl rfl, .refl _, fun _ => rfl⟩)
  | replicate key =>
    have htaken := Unnoticed.take hm fun _ => rfl
    simp only [InternalNode.treat, treatReplicate] at h
    split at h
    · exact .operation htaken (.replicate _ hm) h
    · cases h
      exact .quiet htaken
  | process a pm => cases h; exact .turn hm

theorem handle_happens {e : Event} (htimers : ∀ m ∈ n.timeouts, m.isTimer)
    (h : n.handle e = some n') : Happens n e n' := by
  cases e with
  | receive pkt senderId now => cases h; exact .quiet (.receive n pkt senderId now)
  | work k keyId =>
    obtain ⟨m, hm, h⟩ := Option.bind_eq_some_iff.mp h
    exact treat_happens hm h
  | expire k =>
    obtain ⟨m, hm, rfl⟩ := Option.map_eq_some_iff.mp h
    refine .quiet ⟨.silent rfl rfl rfl rfl rfl, .refl _, results_append rfl ?_⟩
    intro m' hm'
    rw [List.mem_singleton.mp hm']
    exact Message.result_timer (htimers m (List.mem_of_getElem? hm))
  | sendPing dest =>
    cases h
    exact .quiet ⟨(Aside.refl n).emit rfl, .refl _, fun _ => rfl⟩
  | findClosest count idToFind => exact .search count idToFind h
  | getValue key keyId => exact .operation (.refl n) .getValue h
  | setValue key value keyId edit => exact .operation (.refl n) (.setValue value edit) h

end InternalNode
end Epyx.DHT
