import Epyx.N2NP.Exchange

/-! An entry of `sentMap` stays until the packet was passed to a module where it was sent to: the
invariant that leads from an acknowledgement back to the packet it is for. -/
namespace Epyx.N2NP
open Lib
open Std (ExtTreeMap)

namespace Node

/-! ### One node -/

def Record.number : Record → Option UInt64
  | .sent pkt _ => some pkt.pktID
  | _ => none

/-- The ids of the packets that were sent, in the order in which they were sent. -/
def numbers (log : List Record) : List UInt64 := log.filterMap Record.number

theorem numbers_append (l₁ l₂ : List Record) : numbers (l₁ ++ l₂) = numbers l₁ ++ numbers l₂ :=
  List.filterMap_append

theorem mem_numbers {log : List Record} {pkt : Packet} {store : Bool}
    (h : .sent pkt store ∈ log) : pkt.pktID ∈ numbers log :=
  List.mem_filterMap.mpr ⟨_, h, rfl⟩

/-- A packet with this id was sent to be kept, and none with it has been acknowledged since. -/
def Waiting (log : List Record) (id : UInt64) : Prop :=
  ∃ l₁ q l₂, log = l₁ ++ .sent q true :: l₂ ∧ q.pktID = id ∧ ∀ a, .acked a id ∉ l₂

theorem Waiting.mem_numbers {log : List Record} {id : UInt64} (h : Waiting log id) :
    id ∈ numbers log := by
  obtain ⟨l₁, q, l₂, rfl, rfl, -⟩ := h
  exact Node.mem_numbers (List.mem_append_right _ (List.mem_cons_self ..))

theorem waiting_concat (log : List Record) (o : Record) (id : UInt64) :
    Waiting (log ++ [o]) id ↔
      (∃ q, o = .sent q true ∧ q.pktID = id) ∨ Waiting log id ∧ ∀ a, o ≠ .acked a id := by
  constructor
  · rintro ⟨l₁, q, l₂, heq, hid, hnone⟩
    rcases List.eq_nil_or_concat l₂ with rfl | ⟨l₃, o', rfl⟩
    · obtain ⟨-, ho⟩ := List.append_inj' heq rfl
      exact .inl ⟨q, (List.cons.inj ho).1, hid⟩
    · rw [List.concat_eq_append, ← List.cons_append, ← List.append_assoc] at heq
      obtain ⟨rfl, ho⟩ := List.append_inj' heq rfl
      obtain rfl := (List.cons.inj ho).1
      refine .inr ⟨⟨l₁, q, l₃, rfl, hid, fun a ha => hnone a (by simp [ha])⟩, fun a ha => ?_⟩
      exact hnone a (by simp [ha])
  · rintro (⟨q, rfl, hid⟩ | ⟨⟨l₁, q, l₂, rfl, hid, hnone⟩, ho⟩)
    · exact ⟨log, q, [], rfl, hid, by simp⟩
    · refine ⟨l₁, q, l₂ ++ [o], by simp, hid, fun a ha => ?_⟩
      rcases List.mem_append.mp ha with ha | ha
      · exact hnone a ha
      · exact ho a (List.mem_singleton.mp ha).symm

theorem Move.grows {d : Option Packet} {b b' : Book} {log log' : List Record}
    (m : Move d (b, log) (b', log')) : log <+: log' := by
  cases m <;> first | exact List.prefix_append _ _ | exact List.prefix_rfl

/-- What the book of a node has of its record. -/
structure Tallied (b : Book) (log : List Record) : Prop where
  next : b.curId = UInt64.ofNat (numbers log).length
  numbers : ∀ (k : Nat) (id : UInt64), (numbers log)[k]? = some id → id = UInt64.ofNat k
  entries : ∀ id, id ∈ b.sentMap ↔ Waiting log id

theorem Tallied.lt {b : Book} {log : List Record} (h : Tallied b log)
    (hlog : (Node.numbers log).length < 2 ^ 31) {id : UInt64} (hid : id ∈ Node.numbers log) :
    id.toNat < (Node.numbers log).length := by
  obtain ⟨k, hk, rfl⟩ := List.mem_iff_getElem.mp hid
  rw [h.numbers k _ (List.getElem?_eq_getElem hk)]
  exact (UInt64.toNat_ofNat_of_lt' (show k < 2 ^ 64 by omega)).trans_lt hk

/-- The next id is not one of those that are kept. -/
theorem Tallied.curId_free {b : Book} {log : List Record} (h : Tallied b log)
    (hlog : (Node.numbers log).length < 2 ^ 31) : b.curId ∉ Node.numbers log := by
  intro hid
  have hlt := h.lt hlog hid
  rw [h.next, UInt64.toNat_ofNat_of_lt' (show _ < 2 ^ 64 by omega)] at hlt
  exact Nat.lt_irrefl _ hlt

theorem Tallied.nodup {b : Book} {log : List Record} (h : Tallied b log)
    (hlog : (Node.numbers log).length < 2 ^ 31) : (Node.numbers log).Nodup := by
  refine nodup_of_counted (fun n id => id = n) (by omega) h.numbers ?_
  rintro j k id rfl rfl
  rfl

/-- A record that sends nothing leaves the ids as they are. -/
theorem Tallied.quiet {b b' : Book} {log : List Record} (h : Tallied b log) {o : Record}
    (ho : o.number = none) (hcur : b'.curId = b.curId)
    (hentries : ∀ id, id ∈ b'.sentMap ↔ id ∈ b.sentMap ∧ ∀ a, o ≠ .acked a id) :
    Tallied b' (log ++ [o]) := by
  have hnumbers : Node.numbers (log ++ [o]) = Node.numbers log := by
    rw [numbers_append, show Node.numbers [o] = [] by simp [Node.numbers, ho], List.append_nil]
  refine ⟨by rw [hnumbers, hcur, h.next], by rw [hnumbers]; exact h.numbers, fun id => ?_⟩
  rw [hentries, h.entries, waiting_concat]
  refine ⟨.inr, fun hw => hw.resolve_left ?_⟩
  rintro ⟨q, rfl, -⟩
  cases ho

theorem Tallied.send {b : Book} {log : List Record} (h : Tallied b log) {pkt : Packet}
    (hid : pkt.pktID = b.curId) (store : Bool) :
    Tallied (b.send pkt store) (log ++ [.sent pkt store]) := by
  have hnumbers : Node.numbers (log ++ [.sent pkt store]) = Node.numbers log ++ [b.curId] := by
    rw [numbers_append, ← hid]
    rfl
  refine ⟨?_, fun k id hk => ?_, fun id => ?_⟩
  · rw [hnumbers, List.length_append, List.length_singleton, UInt64.ofNat_add, ← h.next]
    rfl
  · rw [hnumbers] at hk
    rcases Nat.lt_trichotomy k (Node.numbers log).length with hlt | rfl | hgt
    · rw [List.getElem?_append_left hlt] at hk
      exact h.numbers k id hk
    · rw [← h.next]
      simpa using hk.symm
    · rw [List.getElem?_eq_none (by simpa [Nat.succ_le_iff] using hgt)] at hk
      cases hk
  · rw [waiting_concat, ← h.entries]
    cases store with
    | true => simp [Book.send, hid, ExtTreeMap.mem_insert]
    | false => simp [Book.send]

theorem Tallied.move {d : Option Packet} {b b' : Book} {log log' : List Record}
    (m : Move d (b, log) (b', log')) (hlog : (Node.numbers log').length < 2 ^ 31)
    (h : Tallied b log) : Tallied b' log' := by
  cases m with
  | count hused =>
    exact absurd ((h.entries _).mp hused).mem_numbers (h.curId_free hlog)
  | send pkt store hid hfrom hm => exact h.send hid store
  | reply pkt ack hpassed hid hfrom hto hdata =>
    have hquiet : Tallied b (log ++ [.acknowledged pkt ack]) :=
      h.quiet rfl rfl fun id => by simp
    simpa using hquiet.send hid false
  | pass pkt hd hid hto => exact h.quiet rfl rfl fun id => by simp
  | identify pkt hd hid => exact ⟨h.next, h.numbers, h.entries⟩
  | ack pkt id hd hid hto hm hdata =>
    refine h.quiet rfl rfl fun id' => ?_
    simp [ExtTreeMap.mem_erase, and_comm]

end Node

/-! ### The nodes and the network -/

namespace Network
open Node
variable {ι : Type*} (ids : ι → NodeId)

abbrev Log (ι : Type*) := List (ι × Record)

/-- What the network can deliver: the answer of a relay to the request for an id, or a packet that
was sent, as it is read. -/
def Delivered (log : Log ι) (pkt : Packet) : Prop :=
  (pkt.method = lit "ID" ∧ pkt.from.name = []) ∨
    ∃ j q store, (j, .sent q store) ∈ log ∧ pkt = q.carried

def carries (pkt : Packet) : Record → Bool
  | .sent q _ => pkt = q.carried
  | _ => false

theorem delivered_iff (log : Log ι) (pkt : Packet) : Delivered log pkt ↔
    (pkt.method = lit "ID" ∧ pkt.from.name = []) ∨ ∃ x ∈ log, carries pkt x.2 := by
  refine or_congr_right ⟨?_, ?_⟩
  · rintro ⟨j, q, store, hx, hr⟩
    exact ⟨_, hx, decide_eq_true hr⟩
  · rintro ⟨⟨j, r⟩, hx, hr⟩
    cases r with
    | sent q store => exact ⟨j, q, store, hx, of_decide_eq_true hr⟩
    | _ => cases hr

instance (log : Log ι) (pkt : Packet) : Decidable (Delivered log pkt) :=
  decidable_of_iff _ (delivered_iff log pkt).symm

/-- The network may lose packets, deliver them more than once, late and in any order. A node that
has no id yet is given what is addressed to the one it gets. -/
def Delivers (s : ι → Option Node) (log : Log ι) (e : ι × Event) : Prop :=
  (∀ c ∈ e.2.calls, c.Plain) ∧
    ∀ pkt ∈ e.2.packet, Delivered log pkt ∧ (pkt.to = ids e.1 ∨ (bookOf (s e.1)).hasId)

instance (s : ι → Option Node) (log : Log ι) (e : ι × Event) : Decidable (Delivers ids s log e) :=
  inferInstanceAs (Decidable (_ ∧ _))

/-- What stands behind a record. -/
def Justified (log : Log ι) : ι × Record → Prop
  | (i, .sent pkt _) =>
    (pkt.from = .unset ∨ pkt.from = ids i) ∧
      (pkt.method = lit "ACK" → ∃ p, (i, .acknowledged p pkt) ∈ log)
  | (i, .passed pkt) => pkt.to = ids i ∧ Delivered log pkt
  | (i, .acknowledged pkt ack) =>
    (i, .passed pkt) ∈ log ∧ ack.to = pkt.from ∧
      ack.data = Text.fromUnsignedLong pkt.pktID.toNat
  | (i, .acked ack id) =>
    ack.to = ids i ∧ ack.method = lit "ACK" ∧ Delivered log ack ∧
      ∃ n, Text.toULong ack.data = .ok n ∧ id = UInt64.ofNat n

variable {ids}

theorem Delivered.mono {l₁ : Log ι} {pkt : Packet} (h : Delivered l₁ pkt) (l₂ : Log ι) :
    Delivered (l₁ ++ l₂) pkt := by
  refine h.imp_right ?_
  rintro ⟨j, q, store, hq, hpkt⟩
  exact ⟨j, q, store, List.mem_append_left _ hq, hpkt⟩

theorem Justified.mono (l₁ l₂ : Log ι) (o : ι × Record) (h : Justified ids l₁ o) :
    Justified ids (l₁ ++ l₂) o := by
  obtain ⟨i, r⟩ := o
  cases r with
  | sent pkt store =>
    refine ⟨h.1, fun hm => ?_⟩
    obtain ⟨p, hp⟩ := h.2 hm
    exact ⟨p, List.mem_append_left _ hp⟩
  | passed pkt => exact ⟨h.1, h.2.mono l₂⟩
  | acknowledged pkt ack => exact ⟨List.mem_append_left _ h.1, h.2⟩
  | acked ack id => exact ⟨h.1, h.2.1, h.2.2.1.mono l₂, h.2.2.2⟩

/-- A node has the id it was given, once it has one. -/
def Named (id : NodeId) (b : Book) : Prop := b.nodeid = if b.hasId then id else .unset

/-- What is known of the node `i`, with its own record and that of all nodes. -/
structure Sound (ids : ι → NodeId) (i : ι) (b : Book) (own : List Record) (log : Log ι) : Prop where
  tallied : (numbers own).length < 2 ^ 31 → Tallied b own
  named : Named (ids i) b
  grounded : Grounded (Justified ids) log

/-- A move of a node that was given what the network can deliver. -/
theorem Sound.move [DecidableEq ι] {i : ι} {d : Option Packet} {b b' : Book}
    {own own' : List Record} {log : Log ι} (h : Sound ids i b own log)
    (hown : ∀ r ∈ own, (i, r) ∈ log)
    (hd : ∀ pkt ∈ d, Delivered log pkt ∧ (pkt.to = ids i ∨ b.hasId))
    (m : Move d (b, own) (b', own')) :
    ∃ out, own' = own ++ out ∧ Sound ids i b' own' (log ++ out.map fun r => (i, r)) ∧
      (b.hasId → b'.hasId) := by
  have htallied : (numbers own').length < 2 ^ 31 → Tallied b' own' := fun hlog =>
    Tallied.move m hlog (h.tallied ((m.grows.filterMap _).length_le.trans_lt hlog))
  have hfrom : b.nodeid = .unset ∨ b.nodeid = ids i := by
    rw [h.named]
    split
    · exact .inr rfl
    · exact .inl rfl
  cases m with
  | count hused => exact ⟨[], by simp, ⟨htallied, h.named, by simpa using h.grounded⟩, id⟩
  | send pkt store hid hpkt hm =>
    refine ⟨_, rfl, ⟨htallied, h.named, h.grounded.concat ⟨hpkt ▸ hfrom, fun ha => ?_⟩⟩, id⟩
    exact absurd ha hm
  | reply pkt ack hpassed hid hpkt hto hdata =>
    refine ⟨_, rfl, ⟨htallied, h.named, ?_⟩, id⟩
    have hack : Justified ids log (i, .acknowledged pkt ack) := ⟨hown _ hpassed, hto, hdata⟩
    have hsent : Justified ids (log ++ [(i, .acknowledged pkt ack)]) (i, .sent ack false) :=
      ⟨hpkt ▸ hfrom, fun _ => ⟨pkt, by simp⟩⟩
    simpa using (h.grounded.concat hack).concat hsent
  | pass pkt hpkt hid hto =>
    have hname : pkt.to = ids i := by rw [hto, h.named, if_pos hid]
    exact ⟨_, rfl, ⟨htallied, h.named, h.grounded.concat ⟨hname, (hd pkt hpkt).1⟩⟩, id⟩
  | identify pkt hpkt hid =>
    have hname : pkt.to = ids i := (hd pkt hpkt).2.resolve_right hid
    exact ⟨[], by simp, ⟨htallied, by simp [Named, hname], by simpa using h.grounded⟩, fun _ => rfl⟩
  | ack pkt n hpkt hid hto hm hdata =>
    have hname : pkt.to = ids i := by rw [hto, h.named, if_pos hid]
    exact ⟨_, rfl, ⟨htallied, h.named,
      h.grounded.concat ⟨hname, hm, (hd pkt hpkt).1, n, hdata, rfl⟩⟩, id⟩

theorem Sound.moves [DecidableEq ι] {i : ι} {d : Option Packet} {b : Book} {log : Log ι}
    (h : Sound ids i b (Machine.logOf i log) log)
    (hd : ∀ pkt ∈ d, Delivered log pkt ∧ (pkt.to = ids i ∨ b.hasId)) {t : Book × List Record}
    (m : Moves d (b, Machine.logOf i log) t) :
    ∃ out, t.2 = Machine.logOf i log ++ out ∧
      Sound ids i t.1 t.2 (log ++ out.map fun r => (i, r)) ∧ (b.hasId → t.1.hasId) := by
  induction m with
  | refl => exact ⟨[], by simp, by simpa using h, id⟩
  | @tail t u _ m ih =>
    obtain ⟨out, hout, hsound, hid⟩ := ih
    have hown : ∀ r ∈ t.2, (i, r) ∈ log ++ out.map fun r => (i, r) := fun r hr => by
      rw [hout] at hr
      refine List.mem_append.mpr ((List.mem_append.mp hr).imp Machine.mem_logOf.mp fun hr => ?_)
      exact List.mem_map.mpr ⟨r, hr, rfl⟩
    obtain ⟨out', hout', hsound', hid'⟩ := hsound.move hown
      (fun pkt hpkt => ⟨(hd pkt hpkt).1.mono _, (hd pkt hpkt).2.imp_right hid⟩) m
    refine ⟨out ++ out', ?_, ?_, hid' ∘ hid⟩
    · rw [hout', hout, List.append_assoc]
    · rw [List.map_append, ← List.append_assoc]
      exact hsound'

theorem Sound.start (i : ι) : Sound ids i (bookOf none) [] [] where
  tallied _ := ⟨rfl, by simp [numbers], fun id => by
    simp [bookOf, Waiting]⟩
  named := rfl
  grounded := .nil _

variable [DecidableEq ι] {inet : Inet} {net : ι → SendCalls}

def machine (inet : Inet) (net : ι → SendCalls) :
    Machine (ι → Option Node) (ι × Event) (ι × Record) :=
  Machine.family fun i => Node.machine (net i) inet

theorem sound_of_run {s : ι → Option Node} {log : Log ι}
    (run : (machine inet net).Run (Delivers ids) (fun _ => none) s log) (i : ι) :
    Sound ids i (bookOf (s i)) (Machine.logOf i log) log := by
  refine run.invariant (P := fun s log => ∀ i, Sound ids i (bookOf (s i)) (Machine.logOf i log) log)
    (fun i => .start i) ?_ i
  rintro s log ⟨i, e⟩ s' out h ⟨hcalls, hdelivered⟩ taken j
  obtain ⟨t, o, ht, rfl, rfl⟩ := Machine.family_step taken
  obtain ⟨o', ho, hsound, -⟩ := (h i).moves hdelivered
    (step_moves hcalls ht (Machine.logOf i log))
  obtain rfl := List.append_cancel_left ho
  rw [Machine.logOf_append, Machine.logOf_map]
  by_cases hij : i = j
  · subst hij
    rw [Function.update_self, if_pos rfl]
    exact hsound
  · rw [Function.update_of_ne (Ne.symm hij), if_neg hij, List.append_nil]
    exact ⟨(h j).tallied, (h j).named, hsound.grounded⟩

/-! ### Acknowledgements -/

omit [DecidableEq ι] in
/-- The packet that an acknowledgement is for, when it comes to a node: one that this node has sent
under the id it carries, and that was passed on where it was sent to. -/
theorem acknowledges (hids : Function.Injective ids) (hnames : ∀ i, (ids i).name ≠ [])
    {log : Log ι} (hg : Grounded (Justified ids) log) {i : ι} {a : Packet} {id : UInt64}
    (ha : Justified ids log (i, .acked a id))
    (hsmall : ∀ q store, (i, .sent q store) ∈ log → q.pktID.toNat < 2 ^ 31) :
    ∃ j q store ack, (i, .sent q store) ∈ log ∧ q.pktID = id ∧ q.to = ids j ∧
      (j, .passed q.carried) ∈ log ∧ (j, .acknowledged q.carried ack) ∈ log ∧ a = ack.carried := by
  obtain ⟨hto, hm, ⟨hID, -⟩ | ⟨j, ack, store, hack, rfl⟩, n, hdata, rfl⟩ := ha
  · rw [hm] at hID
    exact absurd hID (by decide)
  have hof : ∀ {o}, o ∈ log → Justified ids log o := fun ho => hg.of_mem Justified.mono ho
  obtain ⟨p, hp⟩ := (hof hack).2 hm
  obtain ⟨hpassed, hackto, hackdata⟩ := hof hp
  obtain ⟨hpto, hpfrom⟩ := hof hpassed
  -- the packet came from the node that the acknowledgement goes to
  have hfrom : p.from = ids i := hackto.symm.trans hto
  rcases hpfrom with ⟨-, hrelay⟩ | ⟨k, q, store', hq, rfl⟩
  · rw [hfrom] at hrelay
    exact absurd hrelay (hnames i)
  have hk : k = i := by
    rcases (hof hq).1 with hunset | hnamed
    · have hname : (ids i).name = [] := congrArg NodeId.name (hfrom.symm.trans hunset)
      exact absurd hname (hnames i)
    · exact hids (hnamed.symm.trans hfrom)
  subst hk
  have hid : q.carried.pktID = q.pktID :=
    (Packet.ofInt_toInt32_iff q.pktID).mpr (.inl (hsmall q store' hq))
  have hn : n = q.pktID.toNat := by
    have hread : Text.toULong ack.data = .ok n := hdata
    rw [hackdata, hid, Text.toULong_digits q.pktID.toNat_lt] at hread
    exact (Except.ok.inj hread).symm
  exact ⟨j, q, store', ack, hq, by simp [hn], hpto, hpassed, hp, rfl⟩

theorem small_of_run {s : ι → Option Node} {log : Log ι}
    (run : (machine inet net).Run (Delivers ids) (fun _ => none) s log)
    {i : ι} (hlog : (numbers (Machine.logOf i log)).length < 2 ^ 31) {q : Packet} {store : Bool}
    (hq : (i, .sent q store) ∈ log) : q.pktID.toNat < 2 ^ 31 :=
  (((sound_of_run run i).tallied hlog).lt hlog (mem_numbers (Machine.mem_logOf.mpr hq))).trans hlog

section
variable {s : ι → Option Node} {log : Log ι}

/-- Everything that led to an acknowledgement happened before it. -/
theorem acknowledges_of_run (hids : Function.Injective ids) (hnames : ∀ i, (ids i).name ≠ [])
    (run : (machine inet net).Run (Delivers ids) (fun _ => none) s log) {i : ι}
    (hlog : (numbers (Machine.logOf i log)).length < 2 ^ 31) {l₁ l₂ : Log ι} {a : Packet}
    {id : UInt64} (h : log = l₁ ++ (i, .acked a id) :: l₂) :
    ∃ j q store ack, (i, .sent q store) ∈ l₁ ∧ q.pktID = id ∧ q.to = ids j ∧
      (j, .passed q.carried) ∈ l₁ ∧ (j, .acknowledged q.carried ack) ∈ l₁ ∧ a = ack.carried := by
  have hg := (sound_of_run run i).grounded
  refine acknowledges hids hnames (h ▸ hg).left (hg l₁ _ l₂ h) fun q store hq => ?_
  exact small_of_run run hlog (by rw [h]; exact List.mem_append_left _ hq)

/-- A node gives an id to one packet only. -/
theorem sent_unique (run : (machine inet net).Run (Delivers ids) (fun _ => none) s log) {i : ι}
    (hlog : (numbers (Machine.logOf i log)).length < 2 ^ 31) {p q : Packet} {store store' : Bool}
    (hp : (i, .sent p store) ∈ log) (hq : (i, .sent q store') ∈ log) (h : p.pktID = q.pktID) :
    p = q := by
  have hnodup := ((sound_of_run run i).tallied hlog).nodup hlog
  have heq := eq_of_nodup_filterMap hnodup (Machine.mem_logOf.mpr hp) (Machine.mem_logOf.mpr hq)
    rfl (congrArg some h.symm)
  exact (Record.sent.inj heq).1

/-- No acknowledgement comes before the packet is sent, so that a packet which waits was never
acknowledged. -/
theorem waiting_iff (hids : Function.Injective ids) (hnames : ∀ i, (ids i).name ≠ [])
    (run : (machine inet net).Run (Delivers ids) (fun _ => none) s log) {i : ι}
    (hlog : (numbers (Machine.logOf i log)).length < 2 ^ 31) (id : UInt64) :
    Waiting (Machine.logOf i log) id ↔
      (∃ q, (i, .sent q true) ∈ log ∧ q.pktID = id) ∧ ∀ a, (i, .acked a id) ∉ log := by
  constructor
  · rintro ⟨l₁, q, l₂, hsplit, rfl, hnone⟩
    obtain ⟨k₁, k₂, rfl, rfl, rfl⟩ := Machine.logOf_split hsplit
    refine ⟨⟨q, by simp, rfl⟩, fun a ha => ?_⟩
    rcases List.mem_append.mp ha with ha | ha
    · -- an acknowledgement before: the id was in use before
      obtain ⟨h₁, h₂, rfl⟩ := List.append_of_mem ha
      obtain ⟨-, q', store, -, hq', hid, -⟩ := acknowledges_of_run hids hnames run hlog
        (show _ = h₁ ++ (i, .acked a q.pktID) :: (h₂ ++ (i, .sent q true) :: k₂) by simp)
      have hnodup := ((sound_of_run run i).tallied hlog).nodup hlog
      rw [hsplit, numbers_append] at hnodup
      refine (List.nodup_append.mp hnodup).2.2 q'.pktID ?_ q.pktID
        (by simp [numbers, Record.number]) hid
      exact mem_numbers (Machine.mem_logOf.mpr (List.mem_append_left _ hq'))
    · rcases List.mem_cons.mp ha with ha | ha
      · cases ha
      · exact hnone a (Machine.mem_logOf.mpr ha)
  · rintro ⟨⟨q, hq, hid⟩, hnone⟩
    obtain ⟨l₁, l₂, hsplit⟩ := List.append_of_mem (Machine.mem_logOf.mpr hq)
    refine ⟨l₁, q, l₂, hsplit, hid, fun a ha => hnone a (Machine.mem_logOf.mp ?_)⟩
    rw [hsplit]
    exact List.mem_append_right _ (List.mem_cons_of_mem _ ha)

/-- A node keeps exactly the packets that it has sent to be kept and that have not been
acknowledged to it. An entry goes only after the packet was passed to a module where it was sent
to, and an acknowledgement takes out the entry of the packet it was sent for and no other. -/
theorem kept_until_passed (hids : Function.Injective ids) (hnames : ∀ i, (ids i).name ≠ [])
    (run : (machine inet net).Run (Delivers ids) (fun _ => none) s log)
    (hlog : ∀ i, (numbers (Machine.logOf i log)).length < 2 ^ 31) :
    (∀ i n, s i = some n → ∀ id : UInt64, id ∈ n.sentMap ↔
      (∃ q, (i, .sent q true) ∈ log ∧ q.pktID = id) ∧ ∀ a, (i, .acked a id) ∉ log) ∧
    (∀ i n, s i = some n → ∀ q, (i, .sent q true) ∈ log → q.pktID ∉ n.sentMap →
      ∃ j, q.to = ids j ∧ (j, .passed q.carried) ∈ log) ∧
    ∀ l₁ i a id l₂, log = l₁ ++ (i, .acked a id) :: l₂ →
      (∃ j q store ack, (i, .sent q store) ∈ l₁ ∧ q.pktID = id ∧ q.to = ids j ∧
        (j, .passed q.carried) ∈ l₁ ∧ (j, .acknowledged q.carried ack) ∈ l₁ ∧ a = ack.carried) ∧
      ∀ j p ack, (j, .acknowledged p ack) ∈ log → a = ack.carried →
        p.from = ids i ∧ p.pktID = id := by
  have hentries : ∀ i n, s i = some n → ∀ id : UInt64, id ∈ n.sentMap ↔
      (∃ q, (i, .sent q true) ∈ log ∧ q.pktID = id) ∧ ∀ a, (i, .acked a id) ∉ log := by
    intro i n hn id
    have hsound := sound_of_run run i
    rw [hn] at hsound
    exact ((hsound.tallied (hlog i)).entries id).trans (waiting_iff hids hnames run (hlog i) id)
  refine ⟨hentries, fun i n hn q hq hgone => ?_, fun l₁ i a id l₂ h =>
    ⟨acknowledges_of_run hids hnames run (hlog i) h, fun j p ack hp ha => ?_⟩⟩
  · obtain ⟨a, ha⟩ : ∃ a, (i, .acked a q.pktID) ∈ log := by
      by_contra hnone
      exact hgone ((hentries i n hn _).mpr ⟨⟨q, hq, rfl⟩, not_exists.mp hnone⟩)
    obtain ⟨l₁, l₂, hsplit⟩ := List.append_of_mem ha
    obtain ⟨j, q', store, ack, hq', hid, hto, hpassed, -⟩ :=
      acknowledges_of_run hids hnames run (hlog i) hsplit
    have hmem : ∀ {o}, o ∈ l₁ → o ∈ log := fun ho => hsplit ▸ List.mem_append_left _ ho
    obtain rfl := sent_unique run (hlog i) (hmem hq') hq hid
    exact ⟨j, hto, hmem hpassed⟩
  · have hg := (sound_of_run run i).grounded
    obtain ⟨hto, -, -, n, hdata, rfl⟩ := hg l₁ _ l₂ h
    obtain ⟨-, hackto, hackdata⟩ := hg.of_mem Justified.mono hp
    subst ha
    have hread : Text.toULong ack.data = .ok n := hdata
    rw [hackdata, Text.toULong_digits p.pktID.toNat_lt] at hread
    obtain rfl := Except.ok.inj hread
    exact ⟨hackto.symm.trans hto, by simp⟩

end

def pair (i : Bool) : NodeId :=
  ⟨if i then lit "2-10.0.0.8:40000" else lit "self", Relay.home⟩

/-- The packet that each of them sends to the other one. -/
def greeting (i : Bool) : Packet :=
  { Packet.new (lit "DHT") [] with «from» := pair i, «to» := pair !i, pktID := 1 }

/-- Both nodes get their ids and send a packet with the same number; the first one arrives, is
passed on and acknowledged. -/
def greetings : List (Bool × Event) :=
  let answer (i : Bool) := ((Relay.new Relay.home).idPacket (pair i) Relay.client).carried
  let ack : Packet :=
    { Packet.new (lit "ACK") (lit "1") with «from» := pair true, «to» := pair false, pktID := 2 }
  [(false, .create ⟨3, Relay.home⟩), (true, .create ⟨3, Relay.home⟩),
    (false, .receive (answer false) none), (true, .receive (answer true) none),
    (false, .call (.send (pair true) (lit "DHT") [] true)),
    (true, .call (.send (pair false) (lit "DHT") [] true)),
    (true, .receive (greeting false).carried (some ⟨[], none⟩)),
    (false, .receive ack.carried none)]

theorem kept_until_passed_pair :
    ∃ s log n m, (machine Inet.zero fun _ _ k => .ok k).Run (Delivers pair) (fun _ => none) s log ∧
      s false = some n ∧ s true = some m ∧ (1 : UInt64) ∉ n.sentMap ∧ (1 : UInt64) ∈ m.sentMap ∧
      ∃ j, (greeting false).to = pair j ∧ (j, .passed (greeting false).carried) ∈ log := by
  have h : ((machine Inet.zero fun _ _ k => .ok k).exec (fun s log e => Delivers pair s log e)
      (fun _ => none, []) greetings).map (fun r =>
        ((r.1 false).map fun n => n.sentMap.contains 1,
          (r.1 true).map fun n => n.sentMap.contains 1,
          decide ((false, .sent (greeting false) true) ∈ r.2),
          (numbers (Machine.logOf false r.2)).length, (numbers (Machine.logOf true r.2)).length)) =
      some (some false, some true, true, 2, 3) := by
    decide +kernel
  obtain ⟨⟨s, log⟩, hrun, heq⟩ := Option.map_eq_some_iff.mp h
  obtain ⟨hn, hm, hsent, hfalse, htrue⟩ : _ ∧ _ ∧ _ ∧ _ ∧ _ := by
    simpa only [Prod.mk.injEq] using heq
  obtain ⟨n, hn, hgone⟩ := Option.map_eq_some_iff.mp hn
  obtain ⟨m, hm, hkept⟩ := Option.map_eq_some_iff.mp hm
  have run := (Machine.Run.exec .start hrun).of_decide
  have hids : Function.Injective pair := by
    intro i j
    cases i <;> cases j <;> decide
  have hlog : ∀ i, (numbers (Machine.logOf i log)).length < 2 ^ 31 := by
    intro i
    cases i
    · rw [hfalse]; decide
    · rw [htrue]; decide
  have hgone : (1 : UInt64) ∉ n.sentMap := fun hin => by
    rw [ExtTreeMap.mem_iff_contains.mp hin] at hgone
    cases hgone
  have hkept : (1 : UInt64) ∈ m.sentMap := ExtTreeMap.mem_iff_contains.mpr hkept
  exact ⟨s, log, n, m, run, hn, hm, hgone, hkept,
    (kept_until_passed hids (by decide) run hlog).2.1 false n hn _ (of_decide_eq_true hsent) hgone⟩

end Network
end Epyx.N2NP
