import Mathlib.Data.List.Nodup
import PeerDiscovery.Proofs.Fleet.Work

/-! Answers of a fleet are sound: `callbacks_sound`.
The invariant `Sound` says that all nodes are sound for the lore of the fleet, which is what its nodes
have advertised, hosted and asked up to now, and that every query in flight is one that went out. -/
namespace PeerDiscovery
namespace Fleet

open Discovery (Engine)
open Net (Network Site Terrain)
open Node (Asker)

variable {f : Fleet} {i : Nat} {n n' : Node} {net : Network}

/-- What the nodes of a fleet have made known, taken on and asked. -/
def lore (f : Fleet) : Lore where
  advertises p e := ∃ n ∈ f.nodes, n.engine.self = p ∧ n.engine.endpoint = some e
  hosts p facts := ∃ n ∈ f.nodes, n.engine.self = p ∧ facts ∈ n.hosted
  asked p id facts := ∃ q ∈ f.queries, q.id = id ∧ q.facts = facts ∧
    ∃ n, f.nodes[q.node]? = some n ∧ n.engine.self = p

structure Sound (f : Fleet) : Prop where
  nodes : ∃ ends, SoundNetwork f.lore ends f.network ∧
    ∀ i n, f.nodes[i]? = some n → SoundNode f.lore ends f.network i n
  fresh : ∀ n ∈ f.nodes, n.used = false → n.engine.endpoint = none
  selves : (f.nodes.map fun n => n.engine.self).Nodup
  issued : ∀ q ∈ f.queries, ∃ n, f.nodes[q.node]? = some n ∧ q.serial < n.engine.issued
  once : ∀ q ∈ f.queries, ∀ q' ∈ f.queries, q.node = q'.node → q.serial = q'.serial → q = q'
  waiting : ∀ i n, f.nodes[i]? = some n → ∀ w ∈ n.engine.inFlight,
    ∃ q ∈ f.queries, q.node = i ∧ q.id = w.1 ∧ q.asker = w.2

/-- How a node may go on, when these queries of its go out. -/
structure Advances (i : Nat) (n n' : Node) (asked : List Query) : Prop where
  self : n'.engine.self = n.engine.self
  endpoint : ∀ own, n.engine.endpoint = some own → n'.engine.endpoint = some own
  hosted : ∀ facts ∈ n.hosted, facts ∈ n'.hosted
  issued : n.engine.issued ≤ n'.engine.issued
  fresh : n'.used = false → n'.engine.endpoint = none
  inFlight : ∀ w ∈ n'.engine.inFlight, w ∈ n.engine.inFlight ∨ ∃ q ∈ asked, q.id = w.1 ∧ q.asker = w.2
  asked : asked = [] ∨ ∃ facts asker, asked = [call i n facts asker] ∧ n.engine.issued < n'.engine.issued

theorem Advances.of_continues (hfresh : n.used = false → n.engine.endpoint = none) (h : Continues n n' []) :
    Advances i n n' [] where
  self := h.engine.self
  endpoint _ ho := h.engine.endpoint.trans ho
  hosted := h.hosted
  issued := h.engine.issued
  fresh hu := h.engine.endpoint.trans (hfresh (h.used.symm.trans hu))
  inFlight w hw := (h.engine.inFlight w hw).imp_right fun hn => absurd hn List.not_mem_nil
  asked := .inl rfl

theorem Advances.of_begun {own : Endpoint} (hfresh : n.engine.endpoint = none) (h : SoundNode.Begun n n' own) :
    Advances i n n' [] where
  self := h.self
  endpoint _ ho := absurd (hfresh.symm.trans ho) nofun
  hosted := h.hosted
  issued := h.issued
  fresh hu := absurd (h.used.symm.trans hu) nofun
  inFlight w hw := .inl (h.inFlight w hw)
  asked := .inl rfl

def called (i : Nat) (n : Node) (facts : FactSet) (asker : Asker) : List Query :=
  if GoesOut n facts then [call i n facts asker] else []

theorem ask_eq (f : Fleet) (i : Nat) (n : Node) (facts : FactSet) (asker : Asker) :
    f.ask i n facts asker = { f with queries := f.queries ++ called i n facts asker } := by
  unfold ask called
  split
  · rfl
  · rw [List.append_nil]

theorem Advances.of_find (hfresh : n.used = false → n.engine.endpoint = none) {facts : FactSet} {asker : Asker} :
    Advances i n (n.find facts asker).1 (called i n facts asker) := by
  have h := Continues.find n facts asker
  refine ⟨h.engine.self, fun _ ho => h.engine.endpoint.trans ho, h.hosted, h.engine.issued,
    fun hu => h.engine.endpoint.trans (hfresh (h.used.symm.trans hu)), fun w hw => ?_, ?_⟩
  · refine (h.engine.inFlight w hw).imp_right fun hm => ?_
    unfold called
    split at hm
    · next hg =>
      rw [if_pos hg, List.mem_singleton.1 hm]
      exact ⟨_, List.mem_cons_self, rfl, rfl⟩
    · exact absurd hm List.not_mem_nil
  · unfold called
    split
    · next hg => exact .inr ⟨facts, asker, rfl, SoundNode.issued_find_lt hg asker⟩
    · exact .inl rfl

theorem Advances.of_taken {m : Node} {asked : List Query} (hc : Continues n m []) (he : m.engine = n.engine)
    (h : Advances i m n' asked) : Advances i n n' asked where
  self := h.self.trans (by rw [he])
  endpoint own ho := h.endpoint own (by rwa [he])
  hosted facts hf := h.hosted facts (hc.hosted facts hf)
  issued := by
    rw [← he]
    exact h.issued
  fresh := h.fresh
  inFlight w hw := by
    rw [← he]
    exact h.inFlight w hw
  asked := by
    refine h.asked.imp_right ?_
    rintro ⟨facts, asker, hq, hlt⟩
    refine ⟨facts, asker, ?_, ?_⟩
    · rw [hq, call, call, he]
    · rw [← he]
      exact hlt

theorem exists_mem_set {P : Node → Prop} {nodes : List Node} (hn : nodes[i]? = some n) (hp : P n → P n')
    (h : ∃ m ∈ nodes, P m) : ∃ m ∈ nodes.set i n', P m := by
  obtain ⟨m, hm, hpm⟩ := h
  obtain ⟨j, hj⟩ := List.mem_iff_getElem?.1 hm
  by_cases hij : i = j
  · subst hij
    obtain rfl := Option.some.inj (hn.symm.trans hj)
    exact ⟨n', List.mem_set (List.getElem?_eq_some_iff.1 hn).1 n', hp hpm⟩
  · exact ⟨m, List.mem_of_getElem? (by rwa [List.getElem?_set_ne hij]), hpm⟩

theorem exists_getElem?_set {P : Node → Prop} {nodes : List Node} {j : Nat} (hn : nodes[i]? = some n)
    (hp : P n → P n') (h : ∃ m, nodes[j]? = some m ∧ P m) : ∃ m, (nodes.set i n')[j]? = some m ∧ P m := by
  obtain ⟨m, hm, hpm⟩ := h
  by_cases hij : i = j
  · subst hij
    obtain rfl := Option.some.inj (hn.symm.trans hm)
    exact ⟨n', List.getElem?_set_self (List.getElem?_eq_some_iff.1 hn).1, hp hpm⟩
  · exact ⟨m, by rwa [List.getElem?_set_ne hij], hpm⟩

def advance (f : Fleet) (i : Nat) (net : Network) (n : Node) (asked : List Query) : Fleet where
  network := net
  nodes := f.nodes.set i n
  queries := f.queries ++ asked

theorem lore_le_advance {asked : List Query} (hn : f.nodes[i]? = some n) (ha : Advances i n n' asked) (net : Network) :
    f.lore ≤ (f.advance i net n' asked).lore where
  advertises _ e := exists_mem_set hn fun h => ⟨ha.self.trans h.1, ha.endpoint e h.2⟩
  hosts _ facts := exists_mem_set hn fun h => ⟨ha.self.trans h.1, ha.hosted facts h.2⟩
  asked p id facts h := by
    obtain ⟨q, hq, hid, hf, hnode⟩ := h
    exact ⟨q, List.mem_append_left asked hq, hid, hf, exists_getElem?_set hn (fun hs => ha.self.trans hs) hnode⟩

theorem selves_advance {asked : List Query} (hn : f.nodes[i]? = some n) (ha : Advances i n n' asked) (net : Network) :
    (f.advance i net n' asked).nodes.map (fun m => m.engine.self) = f.nodes.map fun m => m.engine.self := by
  have hself : (f.nodes.map fun m => m.engine.self)[i]? = some n'.engine.self := by
    rw [List.getElem?_map, hn, ha.self]
    rfl
  obtain ⟨hlt, hget⟩ := List.getElem?_eq_some_iff.1 hself
  change (f.nodes.set i n').map _ = _
  rw [List.map_set, ← hget]
  exact List.set_getElem_self hlt

theorem Advances.of_mem_asked {asked : List Query} (ha : Advances i n n' asked) {q : Query} (hq : q ∈ asked) :
    q.node = i ∧ q.serial = n.engine.issued ∧ n.engine.issued < n'.engine.issued ∧ ∀ q' ∈ asked, q' = q := by
  rcases ha.asked with he | ⟨facts, asker, he, hlt⟩
  · rw [he] at hq
    exact absurd hq List.not_mem_nil
  · rw [he, List.mem_singleton] at hq
    refine ⟨congrArg Query.node hq, congrArg Query.serial hq, hlt, fun q' hq' => ?_⟩
    rw [he, List.mem_singleton] at hq'
    rw [hq', hq]

theorem Sound.serial_lt (h : f.Sound) (hn : f.nodes[i]? = some n) {q : Query} (hq : q ∈ f.queries) (hi : q.node = i) :
    q.serial < n.engine.issued := by
  obtain ⟨m, hm, hlt⟩ := h.issued q hq
  rw [hi] at hm
  obtain rfl := Option.some.inj (hn.symm.trans hm)
  exact hlt

theorem Sound.advance {asked : List Query} (h : f.Sound) (hn : f.nodes[i]? = some n)
    (ha : Advances i n n' asked)
    (hw : ∀ ends, SoundNetwork (f.advance i net n' asked).lore ends f.network →
      SoundNode (f.advance i net n' asked).lore ends f.network i n →
      ∃ ends', Worked (f.advance i net n' asked).lore i ends f.network ends' net n') :
    (f.advance i net n' asked).Sound := by
  have hle := lore_le_advance hn ha net
  refine ⟨?_, ?_, ?_, ?_, ?_, ?_⟩
  · obtain ⟨ends, hnet, hnodes⟩ := h.nodes
    obtain ⟨ends', hworked⟩ := hw ends (hnet.mono hle) ((hnodes i n hn).mono hle)
    refine ⟨ends', hworked.network, fun j m hm => ?_⟩
    rcases getElem?_set_cases hm with ⟨rfl, rfl⟩ | ⟨hj, hm⟩
    · exact hworked.node
    · exact ((hnodes j m hm).mono hle).still (fun s hs k hp => hworked.servers s hs j k hp hj)
        fun s hs hc => hworked.clients s hs fun hi => hj (hc.symm.trans hi)
  · exact forall_mem_set h.fresh i ha.fresh
  · rw [selves_advance hn ha net]
    exact h.selves
  · intro q hq
    rcases List.mem_append.1 hq with hq | hq
    · exact exists_getElem?_set hn (fun hlt => Nat.lt_of_lt_of_le hlt ha.issued) (h.issued q hq)
    · obtain ⟨hi, hs, hlt, -⟩ := ha.of_mem_asked hq
      refine ⟨n', ?_, hs ▸ hlt⟩
      rw [hi]
      exact List.getElem?_set_self (List.getElem?_eq_some_iff.1 hn).1
  · intro q hq q' hq' hnode hs
    rcases List.mem_append.1 hq with hq | hq <;> rcases List.mem_append.1 hq' with hq' | hq'
    · exact h.once q hq q' hq' hnode hs
    · obtain ⟨hi, hs', -⟩ := ha.of_mem_asked hq'
      have hlt := h.serial_lt hn hq (hnode.trans hi)
      omega
    · obtain ⟨hi, hs', -⟩ := ha.of_mem_asked hq
      have hlt := h.serial_lt hn hq' (hnode.symm.trans hi)
      omega
    · obtain ⟨-, -, -, heq⟩ := ha.of_mem_asked hq'
      exact heq q hq
  · intro j m hm w hw'
    rcases getElem?_set_cases hm with ⟨rfl, rfl⟩ | ⟨-, hm⟩
    · rcases ha.inFlight w hw' with hw' | ⟨q, hq, hid, hk⟩
      · obtain ⟨q, hq, hi, hid, hk⟩ := h.waiting j n hn w hw'
        exact ⟨q, List.mem_append_left asked hq, hi, hid, hk⟩
      · exact ⟨q, List.mem_append_right f.queries hq, (ha.of_mem_asked hq).1, hid, hk⟩
    · obtain ⟨q, hq, hi, hid, hk⟩ := h.waiting j m hm w hw'
      exact ⟨q, List.mem_append_left asked hq, hi, hid, hk⟩

theorem setWork_eq (f : Fleet) (i : Nat) (net : Network) (n : Node) : f.setWork i net n = f.advance i net n [] := by
  simp only [setWork, setNode, advance, List.append_nil]

theorem setNode_eq (f : Fleet) (i : Nat) (n : Node) : f.setNode i n = f.advance i f.network n [] :=
  setWork_eq f i f.network n

theorem setWork_ask_eq (f : Fleet) (i : Nat) (n : Node) (facts : FactSet) (asker : Asker) (net : Network) (n' : Node) :
    (f.ask i n facts asker).setWork i net n' = f.advance i net n' (called i n facts asker) := by
  rw [ask_eq]
  rfl

theorem setNode_ask_eq (f : Fleet) (i : Nat) (n : Node) (facts : FactSet) (asker : Asker) (n' : Node) :
    (f.ask i n facts asker).setNode i n' = f.advance i f.network n' (called i n facts asker) := by
  rw [ask_eq]
  rfl

namespace Sound

theorem withNode (h : f.Sound) {act : Node → Fleet} (ha : ∀ n, f.nodes[i]? = some n → (act n).Sound) :
    (f.withNode i act).Sound := by
  unfold Fleet.withNode
  split
  · exact h
  · next n hn => exact ha n hn

theorem fresh_of (h : f.Sound) (hn : f.nodes[i]? = some n) : n.used = false → n.engine.endpoint = none :=
  h.fresh n (List.mem_of_getElem? hn)

theorem alone {asked : List Query} (h : f.Sound) (hn : f.nodes[i]? = some n) (ha : Advances i n n' asked)
    (hs : ∀ ends, SoundNode (f.advance i f.network n' asked).lore ends f.network i n →
      SoundNode (f.advance i f.network n' asked).lore ends f.network i n') :
    (f.advance i f.network n' asked).Sound :=
  h.advance hn ha fun ends hnet hnode => ⟨ends, .alone hnet (hs ends hnode)⟩

theorem network (h : f.Sound) (hf : f.network.Fades net) (hx : net.listeners = f.network.listeners) :
    { f with network := net }.Sound := by
  obtain ⟨ends, hnet, hnodes⟩ := h.nodes
  refine ⟨⟨ends, ?_, fun i n hn => ?_⟩, h.fresh, h.selves, h.issued, h.once, h.waiting⟩
  · exact hnet.still (fun _ hm => .inl (hx ▸ hm)) fun x hm s hs =>
      serverStill_of_fades ends hf (hnet.waits x hm s hs).made
  · exact (hnodes i n hn).still (fun _ hs _ _ => serverStill_of_fades ends hf hs)
      fun _ hs _ => clientStill_of_fades ends hf hs

theorem start (h : f.Sound) (i : Nat) (found : Option Net.IpAddr) : (f.step (.start i found)).Sound := by
  refine h.withNode fun n hn => ?_
  split
  · next net n' own hs =>
    rw [setWork_eq]
    have hused := (SoundNode.start_cases hs).1
    have hb := SoundNode.begun_of_start hs
    refine h.advance hn (.of_begun (h.fresh_of hn hused) hb) fun ends hnet hnode => ⟨ends, hnode.start hnet hs ?_⟩
    exact ⟨n', List.mem_set (List.getElem?_eq_some_iff.1 hn).1 n', hb.self, hb.endpoint⟩
  · exact h

theorem host (h : f.Sound) (i : Nat) (facts : FactSet) : (f.step (.host i facts)).Sound := by
  refine h.withNode fun n hn => ?_
  rw [setNode_eq]
  have hc := continues_announceLocal n facts
  refine h.alone hn (.of_continues (h.fresh_of hn) hc) fun ends hnode => hnode.announceLocal ?_
  exact ⟨_, List.mem_set (List.getElem?_eq_some_iff.1 hn).1 _, hc.engine.self, mem_announceLocal n facts⟩

theorem asked_called (hn : f.nodes[i]? = some n) {m : Node} {facts : FactSet} {asker : Asker} (hg : GoesOut m facts)
    (hs : n'.engine.self = m.engine.self) :
    (f.advance i net n' (called i m facts asker)).lore.asked m.engine.self m.engine.nextId facts := by
  refine ⟨call i m facts asker, List.mem_append_right f.queries ?_, rfl, rfl, n', ?_, hs⟩
  · rw [called, if_pos hg]
    exact List.mem_cons_self
  · exact List.getElem?_set_self (List.getElem?_eq_some_iff.1 hn).1

theorem find (h : f.Sound) (i : Nat) (facts : FactSet) (caller : Nat) : (f.step (.find i facts caller)).Sound := by
  refine h.withNode fun n hn => ?_
  rw [setNode_ask_eq]
  refine h.alone hn (.of_find (h.fresh_of hn)) fun ends hnode => hnode.find fun hg => asked_called hn hg ?_
  exact (Continues.find n facts (.caller caller)).engine.self

theorem request (h : f.Sound) (i : Nat) (envelope : Envelope) : (f.step (.request i envelope)).Sound := by
  refine h.withNode fun n hn => ?_
  rw [setNode_eq]
  exact h.alone hn (.of_continues (h.fresh_of hn) (.setMailbox n _)) fun ends hnode => hnode.request envelope

theorem shutdown (h : f.Sound) (i limit : Nat) : (f.step (.shutdown i limit)).Sound := by
  refine h.withNode fun n hn => ?_
  dsimp only
  rw [setWork_eq]
  exact h.advance hn (.of_continues (h.fresh_of hn) (continues_shutdown f.network n limit)) fun ends hnet hnode =>
    ⟨ends, hnode.shutdown hnet limit⟩

theorem release (h : f.Sound) (i : Nat) : (f.step (.release i)).Sound := by
  refine h.withNode fun n hn => ?_
  rw [setNode_eq]
  exact h.alone hn (.of_continues (h.fresh_of hn) (continues_release n)) fun ends hnode => hnode.release

/-- The beacon of a node that has an endpoint says where the node is. -/
theorem beacon (h : f.Sound) (i source now : Nat) : (f.step (.beacon i source now)).Sound := by
  refine h.withNode fun n hn => h.withNode fun m hm => ?_
  split
  · exact h
  · next endpoint he =>
    rw [setNode_eq]
    obtain ⟨ends, -, hnodes⟩ := h.nodes
    have hk := (hnodes source m hm).informed.endpoint endpoint he
    have ha := Advances.of_continues (i := i) (h.fresh_of hn) (continues_beacon n ⟨m.engine.self, endpoint⟩ now)
    exact h.alone hn ha fun ends hnode =>
      hnode.beacon (b := ⟨m.engine.self, endpoint⟩) (hk.mono (lore_le_advance hn ha _)) now

theorem mailboxWork (h : f.Sound) (hn : f.nodes[i]? = some n) {work : Option (Network × Mailbox)}
    (hw : ∀ net mailbox, work = some (net, mailbox) → ∀ l ends, SoundNetwork l ends f.network →
      SoundMailbox l ends f.network i n.mailbox → ∃ ends', MailboxWorked l i ends f.network ends' net mailbox) :
    (f.mailboxWork i n work).Sound := by
  cases work with
  | none => exact h
  | some work =>
    obtain ⟨net, mailbox⟩ := work
    have he : f.mailboxWork i n (some (net, mailbox)) = f.advance i net (n.setMailbox mailbox) [] := setWork_eq _ _ _ _
    rw [he]
    refine h.advance hn (.of_continues (h.fresh_of hn) (.setMailbox n mailbox)) fun ends hnet hnode => ?_
    obtain ⟨ends', hworked⟩ := hw net mailbox rfl _ ends hnet hnode.mailbox
    exact ⟨ends', .mailbox hnode hworked⟩

theorem accept (h : f.Sound) (i : Nat) : (f.step (.accept i)).Sound :=
  h.withNode fun _ hn => h.mailboxWork hn fun _ _ hw _ _ hnet hm => hm.acceptWork? hnet hw

theorem read (h : f.Sound) (i number : Nat) : (f.step (.read i number)).Sound := by
  refine h.withNode fun n hn => h.mailboxWork hn fun net mailbox hw l ends hnet hm => ?_
  obtain ⟨c, hc, hw⟩ := Option.bind_eq_some_iff.1 hw
  exact ⟨ends, hm.readWork? hnet hc hw⟩

theorem notice (h : f.Sound) (i : Nat) : (f.step (.notice i)).Sound := by
  refine h.withNode fun _ hn => h.mailboxWork hn fun net mailbox hw l ends hnet hm => ?_
  obtain ⟨mailbox', ht, he⟩ := Option.map_eq_some_iff.1 hw
  obtain ⟨rfl, rfl⟩ := Prod.mk.inj he
  exact ⟨ends, hm.noticeWork hnet ht⟩

theorem write (h : f.Sound) (i number : Nat) : (f.step (.write i number)).Sound := by
  refine h.withNode fun n hn => h.mailboxWork hn fun net mailbox hw l ends hnet hm => ?_
  obtain ⟨c, hc, hw⟩ := Option.bind_eq_some_iff.1 hw
  exact ⟨ends, hm.writeWork? hnet hc hw⟩

theorem courier (h : f.Sound) (i link : Nat) : (f.step (.courier i link)).Sound := by
  refine h.withNode fun n hn => ?_
  cases hw : n.couriers[link]?.bind (n.courierWork? f.network link) with
  | none => exact h
  | some work =>
    obtain ⟨net, n', calls⟩ := work
    obtain ⟨c, hc, hw⟩ := Option.bind_eq_some_iff.1 hw
    have he : f.nodeWork i (some (net, n', calls)) = f.advance i net n' [] := setWork_eq _ _ _ _
    rw [he]
    exact h.advance hn (.of_continues (h.fresh_of hn) (continues_courierWork? hw)) fun ends hnet hnode =>
      hnode.courierWork? hnet hc hw

theorem inbound (h : f.Sound) (i now : Nat) : (f.step (.inbound i now)).Sound := by
  refine h.withNode fun n hn => ?_
  cases hw : n.inboundWork? f.network now with
  | none => exact h
  | some work =>
    obtain ⟨net, n', calls⟩ := work
    obtain ⟨rfl, hc⟩ := continues_inboundWork? hw
    have he : f.nodeWork i (some (f.network, n', calls)) = f.advance i f.network n' [] := setWork_eq _ _ _ _
    rw [he]
    exact h.alone hn (.of_continues (h.fresh_of hn) hc) fun ends hnode => hnode.inboundWork? hw

theorem discovery (h : f.Sound) (i : Nat) : (f.step (.discovery i)).Sound := by
  refine h.withNode fun n hn => ?_
  cases hw : n.discoveryWork? f.network with
  | none => exact h
  | some work =>
    obtain ⟨net, n', calls⟩ := work
    obtain ⟨rfl, hc⟩ := continues_discoveryWork? hw
    have he : f.nodeWork i (some (f.network, n', calls)) = f.advance i f.network n' [] := setWork_eq _ _ _ _
    rw [he]
    exact h.alone hn (.of_continues (h.fresh_of hn) hc) fun ends hnode => hnode.discoveryWork? hw

/-- The pump handles an event: what a peer has sent, or what was asked through the mailbox. -/
theorem event (h : f.Sound) (i now : Nat) : (f.step (.event i now)).Sound := by
  refine h.withNode fun n hn => ?_
  rw [eventWork?_eq, askEvent]
  cases he : nextEvent? n with
  | none => exact h
  | some next =>
    obtain ⟨m, event⟩ := next
    obtain ⟨hengine, hc⟩ := continues_nextEvent? he
    have hfresh : m.used = false → m.engine.endpoint = none := fun hu =>
      hc.engine.endpoint.trans (h.fresh_of hn (hc.used.symm.trans hu))
    cases event with
    | received envelope =>
      have hd := hc.trans (.dispatch m envelope now)
      change (f.setWork i f.network (m.dispatch envelope now).1).Sound
      rw [setWork_eq]
      refine h.alone hn (.of_continues (h.fresh_of hn) hd) fun ends hnode => ?_
      obtain ⟨hm, hevent⟩ := hnode.nextEvent? he
      exact hm.dispatch (.inl hevent) now
    | sent envelope =>
      obtain ⟨id, token, sender, message⟩ := envelope
      cases message with
      | query facts =>
        change ((f.ask i m facts (.request id token)).setWork i f.network (m.find facts (.request id token)).1).Sound
        rw [setWork_ask_eq]
        refine h.alone hn (.of_taken hc hengine (.of_find hfresh)) fun ends hnode => ?_
        obtain ⟨hm, -⟩ := hnode.nextEvent? he
        exact hm.find fun hg => asked_called hn hg (Continues.find m facts (.request id token)).engine.self
      | announce facts =>
        have hl := continues_announceLocal m facts
        change (f.setWork i f.network (m.announceLocal facts).1).Sound
        rw [setWork_eq]
        refine h.alone hn (.of_continues (h.fresh_of hn) (hc.trans hl)) fun ends hnode => ?_
        obtain ⟨hm, -⟩ := hnode.nextEvent? he
        refine hm.announceLocal ⟨_, List.mem_set (List.getElem?_eq_some_iff.1 hn).1 _, hl.engine.self, ?_⟩
        exact mem_announceLocal m facts
      | hello address port | response texts =>
        change (f.setWork i f.network m).Sound
        rw [setWork_eq]
        exact h.alone hn (.of_continues (h.fresh_of hn) hc) fun ends hnode => (hnode.nextEvent? he).1

theorem sever (h : f.Sound) (stream : Nat) (side : Net.Side) (kept : Nat) :
    (f.step (.sever stream side kept)).Sound :=
  h.network (f.network.fades_modify stream side (fun _ => List.take_prefix _ _) fun _ => rfl) rfl

theorem step (h : f.Sound) (a : Action) : (f.step a).Sound := by
  cases a with
  | start i found => exact h.start i found
  | host i facts => exact h.host i facts
  | find i facts caller => exact h.find i facts caller
  | request i envelope => exact h.request i envelope
  | shutdown i limit => exact h.shutdown i limit
  | release i => exact h.release i
  | beacon i source now => exact h.beacon i source now
  | accept i => exact h.accept i
  | read i number => exact h.read i number
  | notice i => exact h.notice i
  | write i number => exact h.write i number
  | event i now => exact h.event i now
  | inbound i now => exact h.inbound i now
  | discovery i => exact h.discovery i
  | courier i link => exact h.courier i link
  | pass time => exact h.network (.of_streams rfl) rfl
  | fault faults => exact h.network (.of_streams rfl) rfl
  | reroute terrain => exact h.network (.of_streams rfl) rfl
  | sever stream side kept => exact h.sever stream side kept

theorem run (h : f.Sound) (actions : List Action) : (f.run actions).Sound := by
  induction actions generalizing f with
  | nil => exact h
  | cons a actions ih => exact ih (h.step a)

theorem new {specs : List Spec} (hself : (specs.map Spec.self).Nodup)
    (htcp : ∀ s ∈ specs, s.mailbox.transport = .tcp) (terrain : Terrain) (taken : List Site) :
    (Fleet.new terrain taken specs).Sound := by
  have hspec : ∀ {n : Node}, n ∈ (Fleet.new terrain taken specs).nodes → ∃ s ∈ specs, n = s.node := by
    intro n hn
    obtain ⟨s, hs, rfl⟩ := List.mem_map.1 hn
    exact ⟨s, hs, rfl⟩
  refine ⟨⟨⟨fun _ => ⟨List.replicate 16 0, rfl⟩, fun _ => (0, 0), fun _ => .connection 0 0⟩, ?_, fun i n hn => ?_⟩,
    fun n hn _ => ?_, ?_, fun _ hq => absurd hq List.not_mem_nil, fun _ hq => absurd hq List.not_mem_nil,
    fun i n hn w hw => ?_⟩
  · have hbacklog : ∀ x ∈ (Fleet.new terrain taken specs).network.listeners, x.backlog = [] := by
      intro x hx
      obtain ⟨site, -, rfl⟩ := List.mem_map.1 hx
      rfl
    refine ⟨fun x hx => ?_, fun x hx s hs => ?_⟩
    · rw [hbacklog x hx]
      exact List.nodup_nil
    · rw [hbacklog x hx] at hs
      exact absurd hs List.not_mem_nil
  · have hmem := List.mem_of_getElem? hn
    obtain ⟨s, hs, rfl⟩ := hspec hmem
    refine ⟨⟨nofun, ?_, ?_, ?_, ?_⟩, fun facts hf => ⟨s.node, hmem, rfl, hf⟩, ?_, ?_, ⟨.new _ _ _ _, ?_, htcp s hs⟩⟩
    · exact fun _ ht => absurd ht List.not_mem_nil
    · exact fun _ he => absurd he List.not_mem_nil
    · exact fun _ hk => absurd hk List.not_mem_nil
    · exact fun _ hm => absurd hm List.not_mem_nil
    · exact fun k c hc => absurd hc nofun
    · exact fun _ hm => absurd hm List.not_mem_nil
    · exact fun _ hx => absurd hx List.not_mem_nil
  · obtain ⟨s, -, rfl⟩ := hspec hn
    rfl
  · have he : (Fleet.new terrain taken specs).nodes.map (fun n => n.engine.self) = specs.map Spec.self := by
      change (specs.map Spec.node).map _ = _
      rw [List.map_map]
      rfl
    rw [he]
    exact hself
  · obtain ⟨s, -, rfl⟩ := hspec (List.mem_of_getElem? hn)
    exact absurd hw List.not_mem_nil

end Sound

/-- An endpoint is the one of a node that has a service with the facts asked for. -/
def Provides (f : Fleet) (endpoint : Endpoint) (query : FactSet) : Prop :=
  ∃ n ∈ f.nodes, n.engine.endpoint = some endpoint ∧ ∃ facts ∈ n.hosted, facts.ContainsAll query

instance (f : Fleet) (endpoint : Endpoint) (query : FactSet) : Decidable (f.Provides endpoint query) :=
  inferInstanceAs (Decidable (∃ n ∈ f.nodes, _))

theorem Sound.node_eq (h : f.Sound) {j : Nat} {m : Node} (hn : f.nodes[i]? = some n) (hm : f.nodes[j]? = some m)
    (hs : n.engine.self = m.engine.self) : i = j := by
  have hi : (f.nodes.map fun n => n.engine.self)[i]? = some n.engine.self := by rw [List.getElem?_map, hn]; rfl
  have hj : (f.nodes.map fun n => n.engine.self)[j]? = some m.engine.self := by rw [List.getElem?_map, hm]; rfl
  have hlt := (List.getElem?_eq_some_iff.1 hi).1
  exact (List.getElem?_inj hlt h.selves).1 (hi.trans (hs ▸ hj.symm))

theorem Sound.provides (h : f.Sound) {endpoint : Endpoint} {facts query : FactSet} (ho : f.lore.Offers endpoint facts)
    (hc : facts.ContainsAll query) : f.Provides endpoint query := by
  obtain ⟨p, ⟨⟨n, hn, hp, he⟩, -, -⟩, m, hm, hp', hf⟩ := ho
  obtain ⟨j, hj⟩ := List.mem_iff_getElem?.1 hn
  obtain ⟨j', hj'⟩ := List.mem_iff_getElem?.1 hm
  obtain rfl := h.node_eq hj hj' (hp.trans hp'.symm)
  obtain rfl := Option.some.inj (hj.symm.trans hj')
  exact ⟨n, hn, he, facts, hf, hc⟩

/-- Ids are given out in turn, so that as long as there are new ones no two queries share one. -/
theorem Sound.eq_of_id (h : f.Sound) (hn : f.nodes[i]? = some n) (hids : n.engine.issued ≤ UInt64.size)
    {q q' : Query} (hq : q ∈ f.queries) (hq' : q' ∈ f.queries) (hi : q.node = i) (hi' : q'.node = i)
    (hid : q.id = q'.id) : q = q' := by
  have hlt : ∀ x ∈ f.queries, x.node = i → x.serial < UInt64.size := by
    intro x hx hi
    obtain ⟨m, hm, hlt⟩ := h.issued x hx
    rw [hi] at hm
    obtain rfl := Option.some.inj (hn.symm.trans hm)
    omega
  have hl := hlt q hq hi
  have hl' := hlt q' hq' hi'
  have hnat : (q.serial + 1) % UInt64.size = (q'.serial + 1) % UInt64.size := by
    have hh := congrArg UInt64.toNat hid
    simpa [Query.id, UInt64.toNat_ofNat'] using hh
  refine h.once q hq q' hq' (hi.trans hi'.symm) ?_
  simp only [UInt64.size] at hl hl' hnat
  omega

theorem mem_dispatch {m : Envelope} {now : Nat} {asker : Asker} {endpoint : Endpoint}
    (h : (asker, endpoint) ∈ (n.host.dispatch m now).2) :
    ∃ texts, m.message = .response texts ∧ (m.id, asker) ∈ n.engine.inFlight ∧
      ∃ text ∈ texts, Endpoint.parse text = .ok endpoint := by
  have hh : (n.host.dispatch m now).2 = (n.engine.dispatch m now).2.calls := by
    unfold Host.dispatch
    dsimp only
    split <;> rfl
  rw [hh] at h
  obtain ⟨id, token, sender, message⟩ := m
  cases message with
  | hello address port =>
    cases sender with
    | none => exact absurd h List.not_mem_nil
    | some sender => exact absurd h List.not_mem_nil
  | announce facts => exact absurd h List.not_mem_nil
  | query facts => exact absurd h List.not_mem_nil
  | response texts =>
    change (asker, endpoint) ∈ (n.engine.onResponse ⟨id, token, sender, .response texts⟩).2 at h
    unfold Engine.onResponse at h
    split at h
    · dsimp only at h
      split at h
      · exact absurd h List.not_mem_nil
      · next k hk =>
        obtain ⟨text, ht, he⟩ := List.mem_filterMap.1 h
        obtain ⟨endpoint', hp, he⟩ := Option.map_eq_some_iff.1 he
        obtain ⟨rfl, rfl⟩ := Prod.mk.inj he
        refine ⟨texts, rfl, mem_of_lookup hk, text, ht, ?_⟩
        cases hparse : Endpoint.parse text with
        | error e =>
          rw [hparse] at hp
          cases hp
        | ok e =>
          rw [hparse] at hp
          rw [Option.some.inj hp]
    · exact absurd h List.not_mem_nil

def callerOf? : Asker × Endpoint → Option (Nat × Endpoint)
  | (.caller number, endpoint) => some (number, endpoint)
  | (.request _ _, _) => none

theorem calls_tellAll (n : Node) (calls : List (Asker × Endpoint)) : (n.tellAll calls).2 = calls.filterMap callerOf? := by
  induction calls generalizing n with
  | nil => rfl
  | cons c calls ih =>
    obtain ⟨asker, endpoint⟩ := c
    cases asker with
    | caller number => exact congrArg ((number, endpoint) :: ·) (ih n)
    | request id token => exact ih _

theorem calls_dispatch (n : Node) (m : Envelope) (now : Nat) :
    (n.dispatch m now).2 = (n.host.dispatch m now).2.filterMap callerOf? :=
  calls_tellAll _ _

theorem calls_find (n : Node) (facts : FactSet) (asker : Asker) :
    (n.find facts asker).2.2 = ((n.engine.find facts asker).2.2.map fun endpoint => (asker, endpoint)).filterMap callerOf? :=
  calls_tellAll _ _

theorem told_event (f : Fleet) (i now : Nat) :
    f.told (.event i now) = (f.callbacks (.event i now)).filterMap fun c => callerOf? c.2 := by
  cases hn : f.nodes[i]? with
  | none => simp [told, workCalls, callbacks, call?, arrival?, hn]
  | some n =>
    have hw := eventWork?_eq f.network n now
    cases he : nextEvent? n with
    | none => simp [told, workCalls, callbacks, call?, arrival?, hn, he, hw]
    | some next =>
      obtain ⟨m, event⟩ := next
      cases event with
      | received envelope =>
        simp [told, workCalls, callbacks, call?, arrival?, hn, he, hw, calls_dispatch, List.filterMap_map]
      | sent envelope =>
        obtain ⟨id, token, sender, message⟩ := envelope
        cases message with
        | query facts =>
          simp [told, workCalls, callbacks, call?, arrival?, hn, he, hw, Node.onRequest, call, calls_find,
            List.filterMap_map]
        | hello address port | announce facts | response texts =>
          simp [told, workCalls, callbacks, call?, arrival?, hn, he, hw, Node.onRequest]

theorem told_inbound (f : Fleet) (i now : Nat) :
    f.told (.inbound i now) = (f.callbacks (.inbound i now)).filterMap fun c => callerOf? c.2 := by
  cases hn : f.nodes[i]? with
  | none => simp [told, workCalls, callbacks, call?, arrival?, hn]
  | some n =>
    cases hp : n.pumps with
    | none => simp [told, workCalls, callbacks, call?, arrival?, hn, hp, Node.inboundWork?]
    | some pumps =>
      cases hi : n.inbound with
      | nil => simp [told, workCalls, callbacks, call?, arrival?, hn, hp, hi, Node.inboundWork?]
      | cons envelope rest =>
        simp [told, workCalls, callbacks, call?, arrival?, hn, hp, hi, Node.inboundWork?, calls_dispatch,
          List.filterMap_map]

theorem told_quiet {work : Option Node.Work} (h : ∀ w, work = some w → w.2.2 = []) : workCalls work = [] := by
  cases work with
  | none => rfl
  | some w => exact h w rfl

/-- Callers of `find` are told what `callbacks` has for them, and nothing else. -/
theorem told_eq (f : Fleet) (a : Action) : f.told a = (f.callbacks a).filterMap fun c => callerOf? c.2 := by
  cases a with
  | find i facts caller =>
    cases hn : f.nodes[i]? with
    | none => simp [told, callbacks, call?, arrival?, hn]
    | some n => simp [told, callbacks, call?, arrival?, hn, call, calls_find, List.filterMap_map]
  | event i now => exact told_event f i now
  | inbound i now => exact told_inbound f i now
  | discovery i =>
    refine told_quiet fun w hw => ?_
    obtain ⟨n, -, hw⟩ := Option.bind_eq_some_iff.1 hw
    obtain ⟨pumps, -, hw⟩ := Option.bind_eq_some_iff.1 hw
    obtain ⟨next, -, hw⟩ := Option.bind_eq_some_iff.1 hw
    cases hw
    rfl
  | courier i link =>
    refine told_quiet fun w hw => ?_
    obtain ⟨n, -, hw⟩ := Option.bind_eq_some_iff.1 hw
    obtain ⟨c, -, hw⟩ := Option.bind_eq_some_iff.1 hw
    obtain ⟨l, -, hw⟩ := Option.bind_eq_some_iff.1 hw
    obtain ⟨done, -, hw⟩ := Option.bind_eq_some_iff.1 hw
    cases hw
    rfl
  | _ => rfl

theorem Sound.provides_of_call (h : f.Sound) {a : Action} {q : Query} (hc : f.call? a = some (q, n))
    {endpoint : Endpoint} (he : endpoint ∈ (n.engine.find q.facts q.asker).2.2) : f.Provides endpoint q.facts := by
  have hinformed : Informed f.lore n.engine := by
    obtain ⟨ends, -, hnodes⟩ := h.nodes
    cases a with
    | find i facts caller =>
      obtain ⟨m, hm, he⟩ := Option.map_eq_some_iff.1 hc
      obtain ⟨-, rfl⟩ := Prod.mk.inj he
      exact (hnodes i m hm).informed
    | event i now =>
      obtain ⟨m, hm, hc⟩ := Option.bind_eq_some_iff.1 hc
      obtain ⟨⟨m', event⟩, he, hc⟩ := Option.bind_eq_some_iff.1 hc
      have hm' := ((hnodes i m hm).nextEvent? he).1.informed
      cases event with
      | received envelope => cases hc
      | sent envelope =>
        obtain ⟨id, token, sender, message⟩ := envelope
        cases message with
        | query facts =>
          obtain ⟨-, rfl⟩ := Prod.mk.inj (Option.some.inj hc)
          exact hm'
        | hello address port | announce facts | response texts => cases hc
    | _ => cases hc
  rcases Engine.find_cases n.engine q.facts q.asker with ⟨-, hf⟩ | ⟨-, -, hf⟩ | ⟨-, -, hf⟩
  · rw [hf] at he
    exact absurd he List.not_mem_nil
  · rw [hf] at he
    obtain ⟨facts, ho, hcontains⟩ := hinformed.mem_query he
    exact h.provides ho hcontains
  · rw [hf] at he
    exact absurd he List.not_mem_nil

/-- What a response tells an asker: its query went out under the id of the response, and the endpoint
provides what was asked for under that id. -/
theorem Sound.provides_of_arrival (h : f.Sound) {a : Action} {m : Envelope} {now : Nat}
    (ha : f.arrival? a = some (i, n, m, now)) {asker : Asker} {endpoint : Endpoint}
    (hc : (asker, endpoint) ∈ (n.host.dispatch m now).2) :
    (∃ n', f.nodes[i]? = some n' ∧ n'.engine = n.engine) ∧
      (∃ q ∈ f.queries, q.node = i ∧ q.id = m.id ∧ q.asker = asker) ∧
      ∃ q ∈ f.queries, q.node = i ∧ q.id = m.id ∧ f.Provides endpoint q.facts := by
  obtain ⟨texts, hmessage, hflight, text, ht, hparse⟩ := mem_dispatch hc
  obtain ⟨ends, -, hnodes⟩ := h.nodes
  have hnode : ∃ n', f.nodes[i]? = some n' ∧ n'.engine = n.engine ∧ f.lore.Answers n'.engine.self m := by
    cases a with
    | event j now =>
      obtain ⟨n', hn', ha⟩ := Option.bind_eq_some_iff.1 ha
      obtain ⟨⟨m', event⟩, he, ha⟩ := Option.bind_eq_some_iff.1 ha
      cases event with
      | sent envelope => cases ha
      | received envelope =>
        obtain ⟨p, -, hs⟩ := ((hnodes j n' hn').nextEvent? he).2
        cases ha
        obtain ⟨id, token, sender, message⟩ := m
        obtain rfl : message = .response texts := hmessage
        exact False.elim hs
    | inbound j now =>
      obtain ⟨n', hn', ha⟩ := Option.bind_eq_some_iff.1 ha
      obtain ⟨pumps, -, ha⟩ := Option.bind_eq_some_iff.1 ha
      cases hin : n'.inbound with
      | nil =>
        rw [hin] at ha
        cases ha
      | cons envelope rest =>
        rw [hin] at ha
        cases ha
        exact ⟨n', hn', rfl, (hnodes i n' hn').inbound m (hin ▸ List.mem_cons_self)⟩
    | _ => cases ha
  obtain ⟨n', hn', he, hanswers⟩ := hnode
  refine ⟨⟨n', hn', he⟩, ?_, ?_⟩
  · exact h.waiting i n' hn' (m.id, asker) (he ▸ hflight)
  · obtain ⟨id, token, sender, message⟩ := m
    obtain rfl : message = .response texts := hmessage
    obtain ⟨query, ⟨q, hq, hid, rfl, n'', hn'', hself⟩, hfits⟩ := hanswers
    obtain ⟨own, facts, rfl, ho, hcontains⟩ := hfits text ht
    obtain ⟨p, hk, hf⟩ := ho
    have hown : own = endpoint := by
      rw [Endpoint.parse_text hk.plain] at hparse
      exact Except.ok.inj hparse
    exact ⟨q, hq, h.node_eq hn'' hn' hself, hid, hown ▸ h.provides ⟨p, hk, hf⟩ hcontains⟩

theorem arrival?_of_call? {a : Action} {q : Query} (hc : f.call? a = some (q, n)) : f.arrival? a = none := by
  cases a with
  | event i now =>
    obtain ⟨m, hm, hc⟩ := Option.bind_eq_some_iff.1 hc
    obtain ⟨⟨m', event⟩, he, hc⟩ := Option.bind_eq_some_iff.1 hc
    cases event with
    | received envelope => cases hc
    | sent envelope => simp [arrival?, hm, he]
  | inbound i now => cases hc
  | _ => rfl

theorem Sound.callbacks (h : f.Sound) {a : Action} {asker : Asker} {endpoint : Endpoint}
    (hc : (i, asker, endpoint) ∈ f.callbacks a) :
    (∃ q ∈ f.answered a, q.node = i ∧ q.asker = asker) ∧ (∃ q ∈ f.answered a, f.Provides endpoint q.facts) ∧
      ((∀ n, f.nodes[i]? = some n → n.engine.issued ≤ UInt64.size) →
        ∀ q ∈ f.answered a, f.Provides endpoint q.facts) := by
  rcases List.mem_append.1 hc with hc | hc
  · cases hcall : f.call? a with
    | none =>
      rw [hcall] at hc
      exact absurd hc List.not_mem_nil
    | some called =>
      obtain ⟨q, n⟩ := called
      rw [hcall] at hc
      obtain ⟨endpoint', he, heq⟩ := List.mem_map.1 hc
      obtain ⟨rfl, hrest⟩ := Prod.mk.inj heq
      obtain ⟨rfl, rfl⟩ := Prod.mk.inj hrest
      have hanswered : f.answered a = [q] := by
        rw [answered, hcall, arrival?_of_call? hcall]
        rfl
      have hp := h.provides_of_call hcall he
      rw [hanswered]
      refine ⟨⟨q, List.mem_cons_self, rfl, rfl⟩, ⟨q, List.mem_cons_self, hp⟩, fun _ q' hq' => ?_⟩
      rw [List.mem_singleton.1 hq']
      exact hp
  · cases harrival : f.arrival? a with
    | none =>
      rw [harrival] at hc
      exact absurd hc List.not_mem_nil
    | some arrived =>
      obtain ⟨j, n, m, now⟩ := arrived
      rw [harrival] at hc
      obtain ⟨⟨asker', endpoint'⟩, he, heq⟩ := List.mem_map.1 hc
      obtain ⟨rfl, hrest⟩ := Prod.mk.inj heq
      obtain ⟨rfl, rfl⟩ := Prod.mk.inj hrest
      obtain ⟨⟨n', hn', -⟩, ⟨q, hq, hi, hid, hk⟩, q', hq', hi', hid', hp⟩ := h.provides_of_arrival harrival he
      have hcall : f.call? a = none := by
        cases hcall : f.call? a with
        | none => rfl
        | some called => exact absurd (harrival.symm.trans (arrival?_of_call? hcall)) nofun
      have hanswered : f.answered a = f.queries.filter fun q => q.node = j ∧ q.id = m.id := by
        rw [answered, hcall, harrival]
        rfl
      rw [hanswered]
      refine ⟨⟨q, List.mem_filter.2 ⟨hq, by simpa using ⟨hi, hid⟩⟩, hi, hk⟩,
        ⟨q', List.mem_filter.2 ⟨hq', by simpa using ⟨hi', hid'⟩⟩, hp⟩, fun hids x hx => ?_⟩
      obtain ⟨hx, hmatch⟩ := List.mem_filter.1 hx
      obtain ⟨hxi, hxid⟩ : x.node = j ∧ x.id = m.id := by simpa using hmatch
      rw [h.eq_of_id hn' (hids n' hn') hx hq' hxi hi' (hxid.trans hid'.symm)]
      exact hp

/-- Whatever happens to a fleet, in whatever order and on whatever terrain: an endpoint that an asker is told of is one that
a node has advertised, and that node has a service with all the facts that were asked for under the id. Which sockets the
machines can bind and where connections go makes no difference, and may change at any time.
Ids are 64 bits long. Until a node has used them all up, an id stands for one query of it. -/
theorem callbacks_sound {specs : List Spec} (hself : (specs.map Spec.self).Nodup)
    (htcp : ∀ s ∈ specs, s.mailbox.transport = .tcp) (terrain : Terrain) (taken : List Site) (actions : List Action)
    (a : Action) {i : Nat} {asker : Asker} {endpoint : Endpoint}
    (h : (i, asker, endpoint) ∈ ((new terrain taken specs).run actions).callbacks a) :
    (∃ q ∈ ((new terrain taken specs).run actions).answered a, q.node = i ∧ q.asker = asker) ∧
      (∃ q ∈ ((new terrain taken specs).run actions).answered a,
        ((new terrain taken specs).run actions).Provides endpoint q.facts) ∧
      ((∀ n, ((new terrain taken specs).run actions).nodes[i]? = some n → n.engine.issued ≤ UInt64.size) →
        ∀ q ∈ ((new terrain taken specs).run actions).answered a,
          ((new terrain taken specs).run actions).Provides endpoint q.facts) :=
  ((Sound.new hself htcp terrain taken).run actions).callbacks h

/-- The address of a machine on a network that two machines share. -/
def lanIp (machine : Nat) : Net.IpAddr := .v4 ⟨192, 168, 0, UInt8.ofNat (machine + 1)⟩

/-- One node asks for a clock before it knows anyone; the other one has a clock, behind a wildcard with the same port on
another machine. -/
def askerAndClock : List Spec :=
  [⟨1, ⟨List.replicate 16 1, rfl⟩, .tcp "*" 9000, 0, []⟩,
    ⟨2, ⟨List.replicate 16 2, rfl⟩, .tcp "*" 9000, 0, [.ofRecords [⟨"kind", "clock"⟩]]⟩]

def askerAndClockStart : Fleet :=
  new (.ofMachines fun machine ip => ip.IsHome ∨ ip = lanIp machine) [⟨2, .v4 .unspecified, 80⟩] askerAndClock

/-- A beacon of the clock arrives, and the query travels to its machine and its answer back. -/
def clockIsFound : List Action :=
  [.find 0 (.ofRecords [⟨"kind", "clock"⟩]) 7, .start 0 (some (lanIp 1)), .start 1 (some (lanIp 2)), .beacon 0 1 0,
    .courier 0 0, .courier 0 0, .courier 0 0, .accept 1, .read 1 0, .notice 1, .notice 1, .notice 1,
    .event 1 0, .event 1 0, .write 1 0, .courier 0 0]

theorem callbacks_sound_remote :
    (0, .caller 7, .tcp "192.168.0.3" 9000) ∈ (askerAndClockStart.run clockIsFound).callbacks (.inbound 0 0) ∧
      ∀ q ∈ (askerAndClockStart.run clockIsFound).answered (.inbound 0 0),
        (askerAndClockStart.run clockIsFound).Provides (.tcp "192.168.0.3" 9000) q.facts := by
  have h : (0, .caller 7, .tcp "192.168.0.3" 9000) ∈
      (askerAndClockStart.run clockIsFound).callbacks (.inbound 0 0) := by decide +kernel
  have hids : (askerAndClockStart.run clockIsFound).nodes[0]?.all
      (fun n => n.engine.issued ≤ UInt64.size) = true := by decide +kernel
  refine ⟨h, (callbacks_sound (by decide) (by decide) _ _ clockIsFound (.inbound 0 0) h).2.2 fun n hn => ?_⟩
  have hn : (askerAndClockStart.run clockIsFound).nodes[0]? = some n := hn
  rw [hn] at hids
  exact of_decide_eq_true hids

end Fleet
end PeerDiscovery
