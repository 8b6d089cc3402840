import Epyx.DHT.Operations

/-! A value that was set is there: a set asks the nearest node to the key to store the value, and a
get that comes later asks it too. -/
namespace Epyx.DHT
open Lib
open Std (ExtTreeMap)
open InternalNode

namespace InternalNode
variable {n n' : InternalNode} {a : ActorId}

theorem acted_patient {objects : Peers} {id : Id} {a b : ActorId} {c d : Int64} {xs : List Action} :
    .onAnswerTimeout b d ∉ acted objects id a c xs := by
  induction xs generalizing c with
  | nil => exact List.not_mem_nil
  | cons x xs ih =>
    cases x with
    | sendQuery peer query => simp [acted, ih]
    | call callback => simp [acted, ih]
    | _ => exact ih

/-- Who is asked is asked under some id. -/
theorem mem_acted (objects : Peers) (id : Id) (a : ActorId) (c : Int64) {xs : List Action}
    {peer : SPtr} {query : Query} (h : .sendQuery peer query ∈ xs) :
    ∃ d, .query a d query ∈ acted objects id a c xs ∧
      .send (objects.deref peer).n2npId ⟨id, query.content d.toInt32⟩ ∈
        acted objects id a c xs := by
  induction xs generalizing c with
  | nil => cases h
  | cons x xs ih =>
    rcases List.mem_cons.mp h with rfl | hx
    · exact ⟨c, .head _, .tail _ (.head _)⟩
    · cases x with
      | sendQuery peer' query' =>
        obtain ⟨d, hquery, hsend⟩ := ih (c + 1) hx
        exact ⟨d, .tail _ (.tail _ hquery), .tail _ (.tail _ hsend)⟩
      | call callback =>
        obtain ⟨d, hquery, hsend⟩ := ih c hx
        exact ⟨d, .tail _ hquery, .tail _ hsend⟩
      | _ => exact ih c hx

theorem query_acted {objects : Peers} {id : Id} {a b : ActorId} {c d : Int64} {xs : List Action}
    {query : Query} (h : .query b d query ∈ acted objects id a c xs) :
    ∃ peer, .sendQuery peer query ∈ xs := by
  induction xs generalizing c with
  | nil => cases h
  | cons x xs ih =>
    cases x with
    | sendQuery peer query' =>
      rcases List.mem_cons.mp h with heq | h
      · cases heq
        exact ⟨peer, .head _⟩
      · obtain ⟨p, hp⟩ := ih ((List.mem_cons.mp h).resolve_left nofun)
        exact ⟨p, .tail _ hp⟩
    | call callback =>
      obtain ⟨p, hp⟩ := ih ((List.mem_cons.mp h).resolve_left nofun)
      exact ⟨p, .tail _ hp⟩
    | _ =>
      obtain ⟨p, hp⟩ := ih h
      exact ⟨p, .tail _ hp⟩

theorem length_given {c : Int64} {pre : List Action} {peers : List SPtr} {query : Query}
    (hpre : ∀ x ∈ pre, ∃ ps, x = .call (.onFoundPeers ps)) :
    (given c (pre ++ peers.map (.sendQuery · query))).length = peers.length := by
  induction pre with
  | nil =>
    induction peers generalizing c with
    | nil => rfl
    | cons p peers ih => exact congrArg (· + 1) (ih (c := c + 1))
  | cons x pre ih =>
    obtain ⟨ps, rfl⟩ := hpre x (.head _)
    exact ih fun y hy => hpre y (.tail _ hy)

/-- What an actor is told was told it before, or is what a search has ended with now. -/
theorem turn_results {m m' : ProcessMessage} {p₀ p : ProcessActor} {r : Role × List Action}
    {said : List Output} (htreats : Treats n a p₀ m p r said) (hacted : Acted n n' a p r said)
    {b : ActorId} (hm' : m' ∈ n'.results b) :
    m' ∈ n.results b ∨ ∃ f, p₀.role = .finder f ∧ f.callback = .search b ∧ .post b m' ∈ r.2 := by
  have hmessages := hacted.messages
  by_cases hpost : ∃ b m, .post b m ∈ r.2
  · obtain ⟨c, m'', hx⟩ := hpost
    obtain ⟨f, hf, hcallback, heq⟩ := htreats.handler.posts hx
    rw [heq] at hmessages
    obtain ⟨⟨ms, hresults, -, hall⟩, hother⟩ := results_post hmessages
    by_cases hb : b = c
    · subst hb
      rw [hresults] at hm'
      refine (List.mem_append.mp hm').imp_right fun hmem => ⟨f, hf, hcallback, ?_⟩
      rw [hall m' hmem]
      exact hx
    · rw [hother b hb] at hm'
      exact .inl hm'
  · rw [results_posted hmessages fun c m hx => hpost ⟨c, m, hx⟩] at hm'
    exact .inl hm'

end InternalNode

namespace Deployment
variable {ι : Type*} (D : Deployment ι)

/-- The node `j` is the nearest one to an id that `idForString` may give for the key. -/
def Closest (named : ByteStr → Id → Prop) (key : ByteStr) (j : ι) : Prop :=
  ∃ target, named key target ∧ D.Nearest target j

/-- The node `i` knows the nearest node to the key among these peers. -/
def Among (named : ByteStr → Id → Prop) (objects : Peers) (key : ByteStr) (peers : List SPtr) :
    Prop :=
  ∃ j, D.Closest named key j ∧ ∃ x ∈ peers, x < objects.length ∧
    (objects.deref x).id = D.id j

/-- An operation that is on its way has asked the nearest node to its key, if it has asked at all,
and waits for so many answers. -/
structure Serves (named : ByteStr → Id → Prop) (log : List Output) (i : ι) (a : ActorId)
    (key : ByteStr) (query : Query) (r : Role) : Prop where
  pending : r.pendingRequests = (asksOf a log).length - (hearsOf a log).length
  question : ∀ c query', .query a c query' ∈ log → query' = query
  nearest : asksOf a log ≠ [] → ∃ c j, D.Closest named key j ∧ .query a c query ∈ log ∧
    .send (D.n2npId j) ⟨D.id i, query.content c.toInt32⟩ ∈ log
  unlucky : ∀ c answer, .onNewAnswer a c answer ∈ log → ¬ r.Lucky answer

/-- The operations of the node `i` that are watched. -/
structure Serving (named : ByteStr → Id → Prop) (W : ActorId → Prop) (log : List Output) (i : ι)
    (n : InternalNode) : Prop where
  patient : ∀ a, W a → Patient a log ∧ Patient (a + 1) log
  results : ∀ a, W a → ∀ m ∈ n.results a, ∃ peers, m = .findSuccess peers ∧ peers.length ≤ 10 ∧
    ∀ (p : ProcessActor) (key : ByteStr) (query : Query), n.actors[a]? = some p →
      p.role.question = some (key, query) → D.Among named n.objects key peers
  serves : ∀ (a : ActorId) (p : ProcessActor) (key : ByteStr) (query : Query),
    n.actors[a]? = some p → p.alive = true → p.role.question = some (key, query) → W a →
      D.Serves named log i a key query p.role

variable {D} {named : ByteStr → Id → Prop} {W : ActorId → Prop} {log out : List Output} {i : ι}
  {a : ActorId} {key : ByteStr} {query : Query} {r : Role} {n n' : InternalNode}

theorem Among.later {objects later : Peers} {peers : List SPtr}
    (h : D.Among named objects key peers) (hlater : objects.Later later) :
    D.Among named later key peers := by
  obtain ⟨j, hnearest, x, hx, hvalid, hid⟩ := h
  exact ⟨j, hnearest, x, hx, Nat.lt_of_lt_of_le hvalid hlater.length,
    (hlater.id x hvalid).trans hid⟩

theorem Serves.silent (h : D.Serves named log i a key query r)
    (hout : ∀ o ∈ out, o.actor ≠ some a) :
    D.Serves named (log ++ out) i a key query r := by
  have hasks : asksOf a (log ++ out) = asksOf a log := asksOf_eq hout
  have hhears : hearsOf a (log ++ out) = hearsOf a log := by
    rw [hearsOf_append, hearsOf_silent hout, List.append_nil]
  refine ⟨?_, fun c query' hmem => ?_, fun hne => ?_, fun c answer hmem => ?_⟩
  · rw [hasks, hhears]
    exact h.pending
  · exact h.question c query' ((List.mem_append.mp hmem).resolve_right fun hmem => hout _ hmem rfl)
  · rw [hasks] at hne
    obtain ⟨c, j, hnearest, hquery, hsend⟩ := h.nearest hne
    exact ⟨c, j, hnearest, List.mem_append_left _ hquery, List.mem_append_left _ hsend⟩
  · exact h.unlucky c answer ((List.mem_append.mp hmem).resolve_right fun hmem => hout _ hmem rfl)

/-- An operation that has done nothing yet. -/
theorem Serves.new (hsilent : ∀ o ∈ log, o.actor ≠ some a) (hr : r.pendingRequests = 0) :
    D.Serves named log i a key query r := by
  refine ⟨?_, fun c query' hmem => absurd rfl (hsilent _ hmem), fun hne => ?_,
    fun c answer hmem => absurd rfl (hsilent _ hmem)⟩
  · rw [hr, asksOf_silent hsilent, hearsOf_silent hsilent]
    rfl
  · exact absurd (asksOf_silent hsilent) hne

/-- It takes an answer, and goes on. -/
theorem Serves.answer (h : D.Serves named log i a key query r) {answer : Answer} {c : Int64}
    {r' : Role} (hpending : r'.pendingRequests = r.pendingRequests - 1)
    (hunlucky : ¬ r.Lucky answer) (hlucky : ∀ answer, r'.Lucky answer → r.Lucky answer) :
    D.Serves named (log ++ [.onNewAnswer a c answer]) i a key query r' := by
  have hasks : asksOf a (log ++ [.onNewAnswer a c answer]) = asksOf a log := by
    rw [asksOf_append]
    exact List.append_nil _
  refine ⟨?_, fun d query' hmem => ?_, fun hne => ?_, fun d answer' hmem hlucky' => ?_⟩
  · rw [hasks, hearsOf_append, hpending, h.pending]
    simp only [hearsOf, List.length_append, List.filterMap_cons, List.filterMap_nil, if_true,
      List.length_singleton]
    omega
  · exact h.question d query' ((List.mem_append.mp hmem).resolve_right (by simp))
  · rw [hasks] at hne
    obtain ⟨d, j, hnearest, hquery, hsend⟩ := h.nearest hne
    exact ⟨d, j, hnearest, List.mem_append_left _ hquery, List.mem_append_left _ hsend⟩
  · rcases List.mem_append.mp hmem with hmem | hmem
    · exact h.unlucky d answer' hmem (hlucky answer' hlucky')
    · cases List.mem_singleton.mp hmem
      exact hunlucky (hlucky answer hlucky')

/-- It has its peers, and asks them. -/
theorem Serves.begins (hasked : asksOf a log = []) (hheard : hearsOf a log = [])
    {objects : Peers} (hgenuine : ∀ o ∈ objects, ∃ j, o.toPeer = D.peer j) {peers : List SPtr}
    (hamong : D.Among named objects key peers) {s : Role × List Action}
    (hbegins : r.Begins query peers s) (c : Int64) :
    D.Serves named (log ++ acted objects (D.id i) a c s.2) i a key query s.1 := by
  obtain ⟨pre, hactions, hpre⟩ := hbegins.actions
  have hasks : asksOf a (log ++ acted objects (D.id i) a c s.2) = given c s.2 := by
    rw [asksOf_append, hasked, asksOf_acted, List.nil_append]
  have hhears : hearsOf a (log ++ acted objects (D.id i) a c s.2) = [] := by
    rw [hearsOf_append, hheard, hearsOf_acted, List.append_nil]
  refine ⟨?_, fun d query' hmem => ?_, fun _ => ?_, fun d answer hmem => ?_⟩
  · rw [hasks, hhears, hbegins.pending, hactions, length_given hpre]
    simp
  · rcases List.mem_append.mp hmem with hmem | hmem
    · have hd := mem_asksOf.mpr ⟨query', hmem⟩
      rw [hasked] at hd
      cases hd
    · obtain ⟨p, hp⟩ := query_acted hmem
      rw [hactions] at hp
      rcases List.mem_append.mp hp with hp | hp
      · obtain ⟨ps, heq⟩ := hpre _ hp
        cases heq
      · obtain ⟨p', -, heq⟩ := List.mem_map.mp hp
        cases heq
        rfl
  · obtain ⟨j, hnearest, x, hx, hvalid, hid⟩ := hamong
    obtain ⟨l, hl⟩ := hgenuine _ (Peers.mem_of_lt hvalid)
    obtain rfl : l = j := D.id_injective ((congrArg Peer.id hl).symm.trans hid)
    have hmem : .sendQuery x query ∈ s.2 := by
      rw [hactions]
      exact List.mem_append_right _ (List.mem_map_of_mem hx)
    obtain ⟨d, hquery, hsend⟩ := mem_acted objects (D.id i) a c hmem
    rw [show (objects.deref x).n2npId = D.n2npId l from congrArg Peer.n2npId hl] at hsend
    exact ⟨d, l, hnearest, List.mem_append_right _ hquery, List.mem_append_right _ hsend⟩
  · have hd := mem_hearsOf.mpr ⟨answer, hmem⟩
    rw [hhears] at hd
    cases hd

/-! ### Steps -/

theorem Serving.quiet (h : D.Serving named W log i n) (hquiet : Unnoticed n n')
    (hout : n'.out = n.out ++ out) : D.Serving named W (log ++ out) i n' := by
  have hsilent : ∀ o ∈ out, o.actor = none := fun o ho => hquiet.aside.actor hout ho
  have hpatient : ∀ b c, .onAnswerTimeout b c ∉ out := fun b c hc => by cases hsilent _ hc
  refine ⟨fun a ha => ⟨(h.patient a ha).1.append (hpatient _), (h.patient a ha).2.append (hpatient _)⟩,
    fun a ha m hm => ?_, fun a p key query hp halive hquestion ha => ?_⟩
  · rw [hquiet.results] at hm
    obtain ⟨peers, heq, hlength, hamong⟩ := h.results a ha m hm
    refine ⟨peers, heq, hlength, fun p key query hp hquestion => ?_⟩
    rw [hquiet.aside.actors] at hp
    exact (hamong p key query hp hquestion).later hquiet.later
  · rw [hquiet.aside.actors] at hp
    refine (h.serves a p key query hp halive hquestion ha).silent fun o ho => ?_
    rw [hsilent o ho]
    exact nofun

theorem Serving.add (h : D.Serving named W log i n)
    (hfresh : ∀ o ∈ log, o.actor ≠ some n.actorCount) (hempty : n.results n.actorCount = [])
    {role : Role} (hrole : role.pendingRequests = 0) :
    D.Serving named W log i (n.add role) := by
  refine ⟨h.patient, fun a ha m hm => ?_, fun a p key query hp halive hquestion ha => ?_⟩
  · obtain ⟨peers, heq, hlength, hamong⟩ := h.results a ha m hm
    refine ⟨peers, heq, hlength, fun p key query hp hquestion => ?_⟩
    rcases TreeMap.of_getElem?_insert hp with ⟨rfl, -⟩ | ⟨-, hp⟩
    · have hm' : m ∈ n.results n.actorCount := hm
      rw [hempty] at hm'
      cases hm'
    · exact hamong p key query hp hquestion
  · rcases TreeMap.of_getElem?_insert hp with ⟨rfl, rfl⟩ | ⟨-, hp⟩
    · exact .new hfresh hrole
    · exact h.serves a p key query hp halive hquestion ha

theorem Serving.findClosest (h : D.Serving named W log i n)
    (hfresh : ∀ o ∈ log, o.actor ≠ some n.actorCount) (hempty : n.results n.actorCount = [])
    {cb : FindCallback} {count : Int} {target : Id}
    (hn : n.findClosest cb count target = some n') (hout : n'.out = n.out ++ out) :
    D.Serving named W (log ++ out) i n' := by
  obtain ⟨nearest, -, hran⟩ := findClosest_ran hn
  have hadded : D.Serving named W log i (n.add (.finder (.new target count cb))) :=
    h.add hfresh hempty rfl
  have hacted := hran.out
  rw [hout] at hacted
  obtain rfl := List.append_cancel_left hacted
  obtain ⟨q, hactors, hbecame⟩ := hran.actors
  have hold : ∀ {b : ActorId} {p : ProcessActor}, p.role.question ≠ none →
      n'.actors[b]? = some p → b ≠ n.actorCount ∧
        (n.add (.finder (.new target count cb))).actors[b]? = some p := by
    intro b p hquestion hp
    rw [hactors] at hp
    rcases TreeMap.of_getElem?_insert hp with ⟨rfl, rfl⟩ | ⟨hne, hp⟩
    · rw [hbecame.role] at hquestion
      exact absurd rfl hquestion
    · exact ⟨Ne.symm hne, hp⟩
  refine ⟨fun a ha => ⟨(h.patient a ha).1.append fun c => acted_patient,
      (h.patient a ha).2.append fun c => acted_patient⟩,
    fun a ha m hm => ?_, fun a p key query hp halive hquestion ha => ?_⟩
  · rw [results_posted hran.messages fun _ _ => FinderActor.sendQueries_post] at hm
    obtain ⟨peers, heq, hlength, hamong⟩ := hadded.results a ha m hm
    refine ⟨peers, heq, hlength, fun p key query hp hquestion => ?_⟩
    rw [hran.objects]
    exact hamong p key query (hold (by rw [hquestion]; exact nofun) hp).2 hquestion
  · obtain ⟨hne, hp⟩ := hold (by rw [hquestion]; exact nofun) hp
    refine (hadded.serves a p key query hp halive hquestion ha).silent fun o ho heq => ?_
    rcases acted_actor ho with hnone | hsome
    · rw [hnone] at heq
      cases heq
    · rw [hsome] at heq
      exact hne (Option.some.inj heq).symm

theorem Serving.destroy (h : D.Serving named W log i n) (p : ProcessActor) :
    D.Serving named W log i (n.destroy a p) := by
  obtain ⟨r, hr⟩ := foldl_unregister p.queries.keys n
  rw [InternalNode.destroy, hr]
  refine ⟨h.patient, fun b hb m hm => ?_, fun b q key query hq =>
    h.serves b q key query (TreeMap.of_getElem?_erase hq).2⟩
  obtain ⟨peers, heq, hlength, hamong⟩ := h.results b hb m hm
  exact ⟨peers, heq, hlength, fun q key query hq =>
    hamong q key query (TreeMap.of_getElem?_erase hq).2⟩

theorem Serving.take (h : D.Serving named W log i n) {k : Nat} {m : Message}
    (hm : n.messages[k]? = some m) :
    D.Serving named W log i { n with messages := n.messages.eraseIdx k } := by
  refine ⟨h.patient, fun a ha m' hm' => h.results a ha m' ?_, h.serves⟩
  obtain ⟨l₁, l₂, hbefore, hafter⟩ := results_take hm a
  rw [hafter] at hm'
  rw [hbefore]
  rcases List.mem_append.mp hm' with hm' | hm'
  · exact List.mem_append_left _ (List.mem_append_left _ hm')
  · exact List.mem_append_right _ hm'

theorem lucky_of_question {r r' : Role} (h : r'.question = r.question) {answer : Answer}
    (hlucky : r'.Lucky answer) : r.Lucky answer := by
  cases r' with
  | getter g' =>
    cases r with
    | getter g => exact hlucky
    | finder f => cases h
    | setter s => simp [Role.question] at h
  | _ => cases hlucky

/-- What the operation makes of a message, when it is watched. -/
theorem Serves.turn {p₀ p q : ProcessActor} {m : ProcessMessage} {s : Role × List Action}
    {said : List Output} (h : D.Serves named log i a key query p₀.role)
    (hquestion : p₀.role.question = some (key, query)) (hwhole : p₀.role.Whole)
    (htalks : Talks log a p₀) (hid : n.id = D.id i)
    (hgenuine : ∀ o ∈ n.objects, ∃ j, o.toPeer = D.peer j) (htreats : Treats n a p₀ m p s said)
    (hquick : m ≠ .timeout ∧ ∀ c, m ≠ .processTimeout c)
    (hresult : ∀ m', (Message.process a m).result a = some m' → asksOf a log = [] ∧
      ∃ peers, m = .findSuccess peers ∧ peers.length ≤ 10 ∧ D.Among named n.objects key peers)
    (hbecame : Became n.processActorsCount p q s) (halive : q.alive = true) :
    D.Serves named (log ++ (said ++ acted n.objects n.id a n.processActorsCount s.2)) i a key
      query q.role := by
  have hsome : p₀.role.question ≠ none := by
    rw [hquestion]
    exact nofun
  have hsame := htreats.handler.operation.1
  rw [hbecame.role]
  cases htreats with
  | answer peer answer pending =>
    have htakes := Role.onNewAnswer_takes hsome n.objects answer
    obtain ⟨hpending, hunlucky⟩ := htakes.goes (hbecame.alive.mp halive).2
    rw [← List.append_assoc]
    refine (h.answer hpending hunlucky fun answer' => lucky_of_question hsame).silent ?_
    intro o ho heq
    have hnone := acted_aside (fun peer query hmem => by cases htakes.still _ hmem) ho
    rw [hnone] at heq
    cases heq
  | timeout c asked => exact absurd rfl (hquick.2 c)
  | other m receive timeout =>
    rw [List.nil_append]
    by_cases hm : ∃ peers, m = .findSuccess peers
    · obtain ⟨peers, rfl⟩ := hm
      obtain ⟨hasked, peers', heq, hlength, hamong⟩ :=
        hresult (.findSuccess peers) (by simp [Message.result])
      cases heq
      have hheard : hearsOf a log = [] := List.eq_nil_iff_forall_not_mem.mpr fun c hc => by
        have hc' := htalks.asked hc
        rw [hasked] at hc'
        cases hc'
      have hbegins := Role.treat_begins hquestion hwhole n.objects n.id hlength
      have hserves := Serves.begins (D := D) (i := i) (a := a) hasked hheard hgenuine hamong hbegins
        n.processActorsCount
      rwa [← hid] at hserves
    · obtain ⟨hrole, hstill⟩ := Role.treat_still hsome n.objects n.id fun peers heq => hm ⟨peers, heq⟩
      rw [hrole]
      refine h.silent fun o ho heq => ?_
      have hnone := acted_aside (fun peer query hmem => by cases hstill _ hmem) ho
      rw [hnone] at heq
      cases heq

/-- What the actor `a` has found has the nearest node among it. -/
def Finder (D : Deployment ι) (n : InternalNode) (a : ActorId) (x : Action) (peers : List SPtr) :
    Prop :=
  ∃ (p : ProcessActor) (f : FinderActor) (j : ι), n.actors[a]? = some p ∧ p.role = .finder f ∧
    x = f.callback.onFound f.foundPeers ∧ peers.length ≤ toU64 f.countToFind ∧
    D.Nearest f.requestedId j ∧
    ∃ y ∈ peers, y < n.objects.length ∧ (n.objects.deref y).id = D.id j

/-- A search that ends in this turn has found the nearest node to the key of its parent. -/
theorem among_of_turn {m m' : ProcessMessage} {p₀ p : ProcessActor} {s : Role × List Action}
    {said : List Output} (htreats : Treats n a p₀ m p s said) (hacted : Acted n n' a p s said)
    (hquick : m ≠ .timeout ∧ ∀ c, m ≠ .processTimeout c) {f : FinderActor}
    (hf : p₀.role = .finder f) {b : ActorId} (hx : .post b m' ∈ s.2)
    (hlinked : Linked named (log ++ out) n') (hpatient : Patient a (log ++ out))
    (hgood : ∀ x peers, n'.Finds a x → x.found = some peers → Patient a (log ++ out) →
      D.Finder n' a x peers) :
    ∃ peers, m' = .findSuccess peers ∧ peers.length ≤ 10 ∧
      ∀ (p : ProcessActor) (key : ByteStr) (query : Query), n'.actors[b]? = some p →
        p.role.question = some (key, query) → D.Among named n'.objects key peers := by
  have hfound : ∃ peers, m' = .findSuccess peers := by
    cases htreats with
    | answer peer answer pending =>
      rw [hf, Role.onNewAnswer, Search.onNewAnswer_eq] at hx
      rcases FinderActor.onResponse_cases n.objects (FinderActor.addPeers n.objects f answer.offered)
        with ⟨y, -, heq⟩ | ⟨-, heq⟩ | heq
      · rw [Prod.map_snd, heq] at hx
        cases List.mem_singleton.mp hx
      · rw [Prod.map_snd, heq] at hx
        rcases List.mem_pair.mp hx with hpost | hkill
        · cases hcb : (FinderActor.addPeers n.objects f answer.offered).callback with
          | user => rw [hcb] at hpost; cases hpost
          | search parent => rw [hcb] at hpost; cases hpost; exact ⟨_, rfl⟩
        · cases hkill
      · rw [Prod.map_snd, heq] at hx
        cases hx
    | timeout c asked => exact absurd rfl (hquick.2 c)
    | other m receive timeout =>
      rw [hf] at hx
      cases m with
      | timeout => exact absurd rfl hquick.1
      | _ => cases hx
  obtain ⟨peers, rfl⟩ := hfound
  obtain ⟨p', f', j, hp', hf', hcallback, hlength, hnearest, y, hy, hvalid, hid⟩ :=
    hgood _ peers (turn_finds htreats hacted hx rfl) rfl hpatient
  have hsearch : f'.callback = .search b := by
    cases hcb : f'.callback with
    | user => rw [hcb] at hcallback; cases hcallback
    | search parent => rw [hcb] at hcallback; cases hcallback; rfl
  obtain ⟨-, hten, hparent⟩ := hlinked.finders a p' f' b hp' hf' hsearch
  rw [hten] at hlength
  refine ⟨peers, rfl, hlength, fun q key query hq hquestion => ?_⟩
  obtain ⟨key', query', hkey, hrequested⟩ := hparent q hq
  rw [hquestion] at hkey
  cases hkey
  exact ⟨j, ⟨_, hrequested, hnearest⟩, y, hy, hvalid, hid⟩

theorem Serving.turn (h : D.Serving named W log i n) (hlinked : Linked named log n)
    (hlinked' : Linked named (log ++ out) n') (hid : n.id = D.id i)
    (hgenuine : ∀ o ∈ n.objects, ∃ j, o.toPeer = D.peer j) {m : ProcessMessage}
    {p₀ p : ProcessActor} {s : Role × List Action} {said : List Output}
    (hp₀ : n.actors[a]? = some p₀) (halive : p₀.alive = true)
    (htalks : Patient a log → Talks log a p₀) (htreats : Treats n a p₀ m p s said)
    (hacted : Acted n n' a p s said) (hout : n'.out = n.out ++ out)
    (hquick : (W a ∨ ∃ b, a = b + 1 ∧ W b) → m ≠ .timeout ∧ ∀ c, m ≠ .processTimeout c)
    (hresult : W a → ∀ m', (Message.process a m).result a = some m' → asksOf a log = [] ∧
      ∃ peers, m = .findSuccess peers ∧ peers.length ≤ 10 ∧
        ∀ key query, p₀.role.question = some (key, query) → D.Among named n.objects key peers)
    (hgood : ∀ x peers, n'.Finds a x → x.found = some peers → Patient a (log ++ out) →
      D.Finder n' a x peers) : D.Serving named W (log ++ out) i n' := by
  have heq := hacted.out
  rw [hout] at heq
  obtain rfl := List.append_cancel_left heq
  obtain ⟨q, hactors, hbecame⟩ := hacted.actors
  have hold : ∀ {b : ActorId} {p : ProcessActor}, n'.actors[b]? = some p →
      b = a ∧ p = q ∨ b ≠ a ∧ n.actors[b]? = some p := by
    intro b p hp
    rw [hactors] at hp
    rcases TreeMap.of_getElem?_insert hp with ⟨rfl, rfl⟩ | ⟨hne, hp⟩
    · exact .inl ⟨rfl, rfl⟩
    · exact .inr ⟨Ne.symm hne, hp⟩
  have hsame : q.role.question = p₀.role.question := by
    rw [hbecame.role, htreats.handler.operation.1]
  have hsaid : ∀ o ∈ said, o.actor = some a := by
    cases htreats <;> simp [Output.actor]
  -- no question is given up that is watched
  have hkeeps : ∀ b, Patient b log → (a = b → W a ∨ ∃ b, a = b + 1 ∧ W b) →
      Patient b (log ++ (said ++ acted n.objects n.id a n.processActorsCount s.2)) := by
    intro b hpatient hwatched
    refine hpatient.append fun c hc => ?_
    rcases List.mem_append.mp hc with hs | hs
    · have hb : a = b := (Option.some.inj (hsaid _ hs)).symm
      cases htreats with
      | answer peer answer pending => cases List.mem_singleton.mp hs
      | timeout d asked => exact (hquick (hwatched hb)).2 d rfl
      | other m receive timeout => cases hs
    · exact acted_patient hs
  have hpatient : ∀ b, W b →
      Patient b (log ++ (said ++ acted n.objects n.id a n.processActorsCount s.2)) ∧
      Patient (b + 1) (log ++ (said ++ acted n.objects n.id a n.processActorsCount s.2)) :=
    fun b hb => ⟨hkeeps b (h.patient b hb).1 fun heq => .inl (heq ▸ hb),
      hkeeps (b + 1) (h.patient b hb).2 fun heq => .inr ⟨b, heq, hb⟩⟩
  refine ⟨hpatient, fun b hb m' hm' => ?_, fun b p' key query hp' halive' hquestion hb => ?_⟩
  · rcases turn_results htreats hacted hm' with hm' | ⟨f, hf, hsearch, hx⟩
    · obtain ⟨peers, heq, hlength, hamong⟩ := h.results b hb m' hm'
      refine ⟨peers, heq, hlength, fun p' key query hp' hquestion => ?_⟩
      rw [hacted.objects]
      rcases hold hp' with ⟨rfl, rfl⟩ | ⟨-, hp'⟩
      · exact hamong p₀ key query hp₀ (hsame ▸ hquestion)
      · exact hamong p' key query hp' hquestion
    · obtain ⟨rfl, -, -⟩ := hlinked.finders a p₀ f b hp₀ hf hsearch
      exact among_of_turn htreats hacted (hquick (.inr ⟨b, rfl, hb⟩)) hf hx hlinked'
        (hpatient b hb).2 hgood
  · rcases hold hp' with ⟨rfl, rfl⟩ | ⟨hne, hp'⟩
    · have hquestion₀ : p₀.role.question = some (key, query) := hsame ▸ hquestion
      refine (h.serves b p₀ key query hp₀ halive hquestion₀ hb).turn hquestion₀
        (hlinked.whole b p₀ hp₀) (htalks (h.patient b hb).1) hid hgenuine htreats (hquick (.inl hb))
        (fun m' hm' => ?_) hbecame halive'
      obtain ⟨hasked, peers, heq, hlength, hamong⟩ := hresult hb m' hm'
      exact ⟨hasked, peers, heq, hlength, hamong key query hquestion₀⟩
    · refine (h.serves b p' key query hp' halive' hquestion hb).silent fun o ho heq => ?_
      rcases List.mem_append.mp ho with ho | ho
      · rw [hsaid o ho] at heq
        exact hne (Option.some.inj heq).symm
      · rcases acted_actor ho with hnone | hsome
        · rw [hnone] at heq
          cases heq
        · rw [hsome] at heq
          exact hne (Option.some.inj heq).symm

/-- The timers of the operations that are watched do not go off. -/
def Unhurried (W : ActorId → Prop) (n : InternalNode) : InternalNode.Event → Prop
  | .work k _ => ∀ a m p, n.messages[k]? = some (.process a m) → n.actors[a]? = some p →
    p.alive = true → (W a ∨ ∃ b, a = b + 1 ∧ W b) → m ≠ .timeout ∧ ∀ c, m ≠ .processTimeout c
  | _ => True

theorem Serving.handle (h : D.Serving named W log i n) (hlinked : Linked named log n)
    (hsearched : D.Searched log i n) (hplaced : Placed n) (hout : n.out = [])
    (htimers : ∀ m ∈ n.timeouts, m.isTimer) (hid : n.id = D.id i) {e : InternalNode.Event}
    (hwhole : e.Whole) (hnames : e.Names named n)
    (hquick : Unhurried W n e) (hn : n.handle e = some n')
    (hgenuine : ∀ o ∈ n'.objects, ∃ j, o.toPeer = D.peer j)
    (hgood : ∀ a x peers, n'.Finds a x → x.found = some peers → Patient a (log ++ n'.out) →
      D.Finder n' a x peers) : D.Serving named W (log ++ n'.out) i n' := by
  have hlinked' := hlinked.handle hplaced hout htimers hsearched.fresh hwhole hnames hn
  have hempty : ∀ a, n.actorCount ≤ a → n.results a = [] := fun a ha => by
    by_contra hne
    exact Nat.lt_irrefl _ (Nat.lt_of_lt_of_le (hlinked.results a hne).1 ha)
  have hidle : ∀ n'' : InternalNode, D.Serving named W log i n'' → n''.out = [] →
      D.Serving named W (log ++ n''.out) i n'' := fun n'' h hnil => by
    have hlog : log ++ n''.out = log := by rw [hnil, List.append_nil]
    rw [hlog]
    exact h
  cases handle_happens htimers hn with
  | quiet hquiet => exact h.quiet hquiet (by rw [hout]; rfl)
  | search count target hn =>
    exact h.findClosest (hsearched.fresh _ (Nat.le_refl _)) (hempty _ (Nat.le_refl _)) hn
      (by rw [hout]; rfl)
  | @operation _ ms n' h₀ role key keyId hrole hn =>
    have hquiet : D.Serving named W log i { n with messages := ms } := by
      have hquiet := h.quiet h₀ (List.append_nil _).symm
      rwa [List.append_nil] at hquiet
    have hadded : D.Serving named W log i (InternalNode.add { n with messages := ms } role) :=
      hquiet.add (hsearched.fresh _ (Nat.le_refl _))
        ((h₀.results _).trans (hempty _ (Nat.le_refl _))) hrole.pendingRequests
    exact hadded.findClosest (hsearched.fresh _ (Nat.le_succ _))
      ((h₀.results _).trans (hempty _ (Nat.le_succ _))) hn (by rw [InternalNode.add, arm, hout]; rfl)
  | @turn k keyId a m hm =>
    have htaken := h.take hm
    rcases InternalNode.treatProcess_cases { n with messages := n.messages.eraseIdx k } a m with
      heq | ⟨p, -, -, heq⟩ | ⟨p₀, p, r, said, hp, halive, htreats, hacted⟩
    · rw [heq]
      exact hidle _ htaken hout
    · obtain ⟨r, hr⟩ := foldl_unregister p.queries.keys { n with messages := n.messages.eraseIdx k }
      rw [heq]
      exact hidle _ (htaken.destroy p) (by rw [InternalNode.destroy, hr]; exact hout)
    · have hobjects := hacted.objects
      rw [hobjects] at hgenuine
      refine htaken.turn (hlinked.take hm) hlinked' hid hgenuine hp halive (hsearched.talks a p₀ hp)
        htreats hacted (by rw [hout]; rfl) (hquick a m p₀ hm hp halive) (fun ha m' hm' => ?_)
        (hgood a)
      have hmem : m' ∈ n.results a := List.mem_filterMap.mpr ⟨_, List.mem_of_getElem? hm, hm'⟩
      obtain ⟨peers, rfl, hlength, hamong⟩ := h.results a ha m' hmem
      refine ⟨(hlinked.results a (List.ne_nil_of_mem hmem)).2.1, peers, ?_, hlength,
        fun key query => hamong p₀ key query hp⟩
      cases m <;> simp [Message.result] at hm'
      rw [hm']

end Deployment
end Epyx.DHT
