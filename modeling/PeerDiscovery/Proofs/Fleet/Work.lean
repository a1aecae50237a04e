import PeerDiscovery.Proofs.Fleet.Nodes
import PeerDiscovery.Proofs.Mailbox.Opening

/-! What can happen to a node of a fleet, one case for each action.
A node that was sound is sound afterwards, and the other nodes do not notice. -/
namespace PeerDiscovery
namespace Fleet

open Discovery (Engine Courier Tracker Link)
open Net (Network)
open Node (Asker)

variable {l l' : Lore} {ends ends' : Ends} {net net' : Network} {i : Nat} {n n' : Node}

/-- A node and the network after something that the node did. -/
structure Worked (l : Lore) (i : Nat) (ends : Ends) (net : Network) (ends' : Ends) (net' : Network) (n' : Node) :
    Prop where
  servers : ∀ s < net.streams.length, ∀ j k, ends.place s = .connection j k → j ≠ i →
    ServerStill l ends net ends' net' s
  clients : ∀ s < net.streams.length, (ends.client s).1 ≠ i → ClientStill l ends net ends' net' s
  network : SoundNetwork l ends' net'
  node : SoundNode l ends' net' i n'

namespace Worked

theorem alone (hnet : SoundNetwork l ends net) (h : SoundNode l ends net i n') : Worked l i ends net ends net n' where
  servers _ hs _ _ _ _ := serverStill_of_eq ends hs rfl
  clients _ hs _ := clientStill_of_eq ends hs rfl
  network := hnet
  node := h

theorem mailbox {mailbox' : Mailbox} (h : SoundNode l ends net i n)
    (hw : MailboxWorked l i ends net ends' net' mailbox') : Worked l i ends net ends' net' (n.setMailbox mailbox') where
  servers := hw.servers
  clients s hs _ := hw.clients s hs
  network := hw.network
  node :=
    { informed := h.informed
      hosted := h.hosted
      couriers := fun k c hc => (h.couriers k c hc).still fun s hs _ => hw.clients s hs
      inbound := h.inbound
      mailbox := hw.mailbox }

/-- A courier has worked. A link whose courier has ended takes no more. -/
theorem courier {k : Nat} {c : Courier} {w : Courier.Work} (h : SoundNode l ends net i n)
    (hk : n.couriers[k]? = some c) (hw : CourierWorked l i k n.engine.self ends net ends' w) :
    Worked l i ends net ends' w.1 { n with couriers := n.couriers.set k w.2.1, inbound := n.inbound ++ w.2.2 } where
  servers s hs _ _ _ _ := hw.servers s hs
  clients s hs hne := hw.clients s hs fun he => hne (by rw [he])
  network := hw.network
  node := by
    refine ⟨h.informed, h.hosted, fun m d hd => ?_, fun m hm => ?_, h.mailbox.still fun s hs _ _ => hw.servers s hs⟩
    · rcases getElem?_set_cases hd with ⟨rfl, rfl⟩ | ⟨hne, hd⟩
      · exact hw.courier
      · refine (h.couriers m d hd).still fun s hs he => hw.clients s hs fun hk => hne ?_
        exact (Prod.mk.inj (he.symm.trans hk)).2
    · rcases List.mem_append.1 hm with hm | hm
      · exact h.inbound m hm
      · exact hw.replies m hm

end Worked

namespace SoundNode

/-- What a start that succeeds has made of a node. -/
structure Begun (n n' : Node) (own : Endpoint) : Prop where
  self : n'.engine.self = n.engine.self
  endpoint : n'.engine.endpoint = some own
  hosted : ∀ facts ∈ n.hosted, facts ∈ n'.hosted
  issued : n.engine.issued ≤ n'.engine.issued
  inFlight : ∀ q ∈ n'.engine.inFlight, q ∈ n.engine.inFlight
  used : n'.used = true

theorem foldl_note {p : PeerId} {own : Endpoint} (hk : l.Knows p own) {hosted : List FactSet}
    (hf : ∀ facts ∈ hosted, l.hosts p facts) (h : SoundNode l ends net i n) :
    SoundNode l ends net i (hosted.foldl (fun n facts => n.note own facts) n) := by
  induction hosted generalizing n with
  | nil => exact h
  | cons facts hosted ih =>
    exact ih (fun facts' hf' => hf facts' (List.mem_cons_of_mem facts hf'))
      (h.note ⟨p, hk, hf facts List.mem_cons_self⟩)

theorem continues_foldl_note (own : Endpoint) (hosted : List FactSet) (n : Node) :
    Continues n (hosted.foldl (fun n facts => n.note own facts) n) [] := by
  induction hosted generalizing n with
  | nil => exact .refl n
  | cons facts hosted ih => exact (continues_note n own facts).trans (ih (n.note own facts))

theorem knows_advertised {p : PeerId} {bound : Endpoint} {addr : Net.SocketAddr} {found : Option Net.IpAddr}
    (ha : l.advertises p (Engine.advertised bound found)) (ht : bound.transport = .tcp)
    (hs : bound.socketAddr = .ok addr) : l.Knows p (Engine.advertised bound found) := by
  refine ⟨ha, ?_, ?_⟩
  · unfold Engine.advertised
    split <;> exact ht
  · unfold Engine.advertised
    split
    · exact Endpoint.plain_text_v4 _
    · next hw => exact Endpoint.plain_of_socketAddr hs hw

theorem openOn_ok {m m' : Mailbox} {bound : Endpoint} (h : m.openOn net = (net', m', .ok bound)) :
    bound.transport = m.requested.transport ∧ ∃ addr, bound.socketAddr = .ok addr := by
  rcases m.openOn_cases net with ⟨e, he, -⟩ | ⟨addr, ho, -, -, haddr⟩
  · cases he.symm.trans h
  · cases ho.symm.trans h
    exact ⟨rfl, addr, haddr⟩

/-- A node whose mailbox is open and whose engine has started, before its services are noted. -/
def begun (n : Node) (mailbox : Mailbox) (own : Endpoint) : Node :=
  { (({ n with used := true }.setMailbox mailbox).setEngine
      { n.engine with started := true, endpoint := some own }.subscribe.1).setMailbox mailbox.addListener.1 with
    pumps := some (mailbox.addListener.2, n.engine.subscribers.length) }

theorem start_cases {found : Option Net.IpAddr} {own : Endpoint}
    (h : n.start net found (.ok ()) = (net', n', .ok own)) :
    n.used = false ∧ ∃ mailbox bound, n.mailbox.openOn net = (net', mailbox, .ok bound) ∧
      own = Engine.advertised bound found ∧
      n' = n.hosted.foldl (fun n facts => n.note own facts) (begun n mailbox own) := by
  unfold Node.start at h
  split at h
  · cases h
  · next hused =>
    dsimp only at h
    split at h
    · cases h
    · next net₁ mailbox bound hopen =>
      split at h
      · cases h
      · next engine advertised hstart =>
        obtain ⟨hown, hengine⟩ := Engine.start_eq_ok hstart
        obtain ⟨hn, hrest⟩ := Prod.mk.inj h
        obtain ⟨hn', ho⟩ := Prod.mk.inj hrest
        obtain rfl := Except.ok.inj ho
        subst hn
        refine ⟨by simpa using hused, mailbox, bound, hopen, hown, ?_⟩
        rw [← hn', hengine]
        rfl

theorem begun_of_start {found : Option Net.IpAddr} {own : Endpoint}
    (h : n.start net found (.ok ()) = (net', n', .ok own)) : Begun n n' own := by
  obtain ⟨-, mailbox, bound, -, -, rfl⟩ := start_cases h
  have hc := continues_foldl_note own n.hosted (begun n mailbox own)
  exact ⟨hc.engine.self, hc.engine.endpoint, hc.hosted, hc.engine.issued,
    fun q hq => (hc.engine.inFlight q hq).resolve_right List.not_mem_nil, hc.used⟩

/-- A start that succeeds: the node is known from now on at an endpoint of which the text reads back. -/
theorem start (h : SoundNode l ends net i n) (hnet : SoundNetwork l ends net) {found : Option Net.IpAddr}
    {own : Endpoint} (hs : n.start net found (.ok ()) = (net', n', .ok own)) (ha : l.advertises n.engine.self own) :
    Worked l i ends net ends net' n' := by
  obtain ⟨-, mailbox, bound, hopen, hown, rfl⟩ := start_cases hs
  obtain ⟨htcp, addr, haddr⟩ := openOn_ok hopen
  have hk : l.Knows n.engine.self own := by
    rw [hown] at ha ⊢
    exact knows_advertised ha (htcp.trans h.mailbox.tcp) haddr
  have hused : SoundNode l ends net i { n with used := true } :=
    ⟨h.informed, h.hosted, h.couriers, h.inbound, h.mailbox⟩
  have hworked := Worked.mailbox hused (h.mailbox.openOn hnet hopen)
  have hinformed : Informed l { n.engine with started := true, endpoint := some own }.subscribe.1 := by
    refine ⟨fun own' ho => ?_, h.informed.trackers, h.informed.directory, h.informed.links, h.informed.pending⟩
    rw [← Option.some.inj ho]
    exact hk
  have hlisten := (hworked.node.setEngine hinformed rfl).setMailbox hworked.node.mailbox.addListener
  have hbegun : SoundNode l ends net' i (begun n mailbox own) :=
    ⟨hlisten.informed, hlisten.hosted, hlisten.couriers, hlisten.inbound, hlisten.mailbox⟩
  exact ⟨hworked.servers, hworked.clients, hworked.network, foldl_note hk h.hosted hbegun⟩

theorem shutdown (h : SoundNode l ends net i n) (hnet : SoundNetwork l ends net) (limit : Nat) :
    Worked l i ends net ends (n.shutdown net limit).1 (n.shutdown net limit).2 := by
  have hh : ∀ m : Node, SoundNode l ends net i m →
      Worked l i ends net ends ((m.setEngine (m.engine.shutdown limit)).mailbox.closeOn net).1
        ((m.setEngine (m.engine.shutdown limit)).setMailbox
          ((m.setEngine (m.engine.shutdown limit)).mailbox.closeOn net).2) := by
    intro m hm
    have hs := hm.setEngine (hm.informed.shutdown limit) (Engine.Continues.shutdown m.engine limit).self
    exact Worked.mailbox hs (hs.mailbox.closeOn hnet)
  unfold Node.shutdown
  cases n.pumps with
  | none => exact hh n h
  | some pumps =>
    obtain ⟨listener, subscriber⟩ := pumps
    have hi : Informed l (n.engine.unsubscribe subscriber) := h.informed.of_same rfl rfl rfl rfl rfl rfl
    have hs := (h.setEngine hi rfl).setMailbox (h.mailbox.dropListener listener)
    exact hh _ ⟨hs.informed, hs.hosted, hs.couriers, hs.inbound, hs.mailbox⟩

theorem release (h : SoundNode l ends net i n) : SoundNode l ends net i n.release := by
  unfold Node.release
  split
  · exact h
  · refine ⟨h.informed, h.hosted, fun k c hc => ?_, h.inbound, h.mailbox⟩
    rw [List.getElem?_map] at hc
    obtain ⟨d, hd, rfl⟩ := Option.map_eq_some_iff.1 hc
    exact (h.couriers k d hd).close

theorem beacon (h : SoundNode l ends net i n) {b : Beacon} (hk : l.Knows b.peer b.endpoint) (now : Nat) :
    SoundNode l ends net i (n.setEngine (n.engine.onBeacon b now)) :=
  h.setEngine (h.informed.onBeacon hk now) (Engine.sameQueries_onBeacon n.engine b now).self

theorem request (h : SoundNode l ends net i n) (envelope : Envelope) :
    SoundNode l ends net i (n.setMailbox (n.mailbox.send { envelope with sender := none }).1) :=
  h.setMailbox (h.mailbox.request envelope)

theorem inboundWork? {now : Nat} {calls : Node.Calls} (h : SoundNode l ends net i n)
    (hw : n.inboundWork? net now = some (net', n', calls)) : SoundNode l ends net i n' := by
  obtain ⟨_, -, hw⟩ := Option.bind_eq_some_iff.1 hw
  cases hn : n.inbound with
  | nil =>
    rw [hn] at hw
    cases hw
  | cons m rest =>
    rw [hn] at hw
    cases hw
    have hs : SoundNode l ends net i { n with inbound := rest } :=
      ⟨h.informed, h.hosted, h.couriers, fun m' hm' => h.inbound m' (hn ▸ List.mem_cons_of_mem m hm'), h.mailbox⟩
    exact hs.dispatch (.inr (h.inbound m (hn ▸ List.mem_cons_self))) now

theorem announceHostedTo (h : SoundNode l ends net i n) (t : Tracker) :
    SoundNode l ends net i (n.announceHostedTo t) := by
  have hh : ∀ (hosted : List FactSet) (e : Engine Asker), (∀ facts ∈ hosted, l.hosts e.self facts) → Informed l e →
      Informed l (hosted.foldl (fun e facts => (e.announceTo facts t.link).1) e) := by
    intro hosted
    induction hosted with
    | nil => exact fun e _ he => he
    | cons facts hosted ih =>
      intro e hf he
      have hs := Informed.self_announceTo e facts t.link
      exact ih (e.announceTo facts t.link).1 (fun facts' hf' => hs ▸ hf facts' (List.mem_cons_of_mem facts hf'))
        (he.announceTo (hf facts List.mem_cons_self) t.link)
  exact h.setEngine (hh n.hosted n.engine h.hosted h.informed) (continues_announceHostedTo n t).engine.self

theorem discoveryWork? {calls : Node.Calls} (h : SoundNode l ends net i n)
    (hw : n.discoveryWork? net = some (net', n', calls)) : SoundNode l ends net i n' := by
  obtain ⟨pumps, -, hw⟩ := Option.bind_eq_some_iff.1 hw
  obtain ⟨⟨e, t⟩, ht, hw⟩ := Option.bind_eq_some_iff.1 hw
  obtain ⟨-, hrest⟩ := Prod.mk.inj (Option.some.inj hw)
  obtain ⟨hn, -⟩ := Prod.mk.inj hrest
  have he : Informed l e ∧ e.self = n.engine.self := by
    unfold Engine.takeNext? at ht
    split at ht
    · cases ht
    · split at ht
      · cases ht
      · obtain ⟨rfl, -⟩ := Prod.mk.inj (Option.some.inj ht)
        exact ⟨h.informed.of_same rfl rfl rfl rfl rfl rfl, rfl⟩
  rw [← hn]
  exact (h.setEngine he.1 he.2).announceHostedTo t

theorem nextEvent? {event : Mailbox.Event} (h : SoundNode l ends net i n) (he : nextEvent? n = some (n', event)) :
    SoundNode l ends net i n' ∧ SoundEvent l event := by
  obtain ⟨pumps, -, he⟩ := Option.bind_eq_some_iff.1 he
  obtain ⟨⟨mailbox, event'⟩, ht, he⟩ := Option.bind_eq_some_iff.1 he
  obtain ⟨rfl, rfl⟩ := Prod.mk.inj (Option.some.inj he)
  obtain ⟨hm, hevent⟩ := h.mailbox.takeEvent? ht
  exact ⟨h.setMailbox hm, hevent⟩

theorem issued_find_lt {facts : FactSet} (hg : GoesOut n facts) (asker : Asker) :
    n.engine.issued < (n.find facts asker).1.engine.issued := by
  have hh : (n.find facts asker).1.engine = (n.engine.find facts asker).1 := by
    unfold Node.find
    dsimp only
    obtain ⟨subscriptions, ht⟩ := tellAll_eq (n.setEngine (n.engine.find facts asker).1)
      ((n.engine.find facts asker).2.2.map fun e => (asker, e))
    rw [ht]
    rfl
  rw [hh]
  rcases Engine.find_cases n.engine facts asker with ⟨hs, -⟩ | ⟨-, hq, -⟩ | ⟨-, -, h⟩
  · exact absurd (hs.symm.trans hg.1) Bool.noConfusion
  · exact absurd hg.2 hq
  · rw [h, Engine.submit_eq]
    exact Nat.lt_succ_self _

theorem courierWork? {k : Nat} {c : Courier} {calls : Node.Calls} (h : SoundNode l ends net i n)
    (hnet : SoundNetwork l ends net) (hk : n.couriers[k]? = some c)
    (hw : n.courierWork? net k c = some (net', n', calls)) : ∃ ends', Worked l i ends net ends' net' n' := by
  obtain ⟨link, hlink, hw⟩ := Option.bind_eq_some_iff.1 hw
  obtain ⟨⟨net₁, c', replies⟩, hwork, hw⟩ := Option.bind_eq_some_iff.1 hw
  obtain ⟨hnetwork, hrest⟩ := Prod.mk.inj (Option.some.inj hw)
  obtain ⟨hn, -⟩ := Prod.mk.inj hrest
  subst hnetwork
  have hq := h.informed.links link (List.mem_of_getElem? hlink)
  obtain ⟨ends', hworked⟩ := (h.couriers k c hk).work? hnet hq hwork
  have hc := Worked.courier h hk hworked
  rw [← hn]
  split
  · exact ⟨ends', hc.servers, hc.clients, hc.network, hc.node.setEngine (hc.node.informed.fail k) rfl⟩
  · exact ⟨ends', hc⟩

end SoundNode

end Fleet
end PeerDiscovery
