import PeerDiscovery.Discovery.Courier
import PeerDiscovery.Proofs.Fleet.Streams

/-! Couriers of a fleet: they greet and write what their node may say, on streams of their own, and
what they hand on answers their node. -/
namespace PeerDiscovery
namespace Fleet

open Discovery (Courier Stage)
open Framing (Reader)
open Net (Network Site)

variable {l l' : Lore} {ends ends' : Ends} {net net' : Network} {i k : Nat} {p : PeerId} {c c' : Courier}

/-- A stream of a courier, and where its reader stands. -/
structure Reads (l : Lore) (ends : Ends) (net : Network) (i k : Nat) (p : PeerId) (s : Nat) (r : Reader) : Prop where
  owner : ends.owner s = p
  client : ends.client s = (i, k)
  made : s < net.streams.length
  tells : Tells (l.Answers (ends.owner s)) none r (net.outgoing s .server)

structure SoundCourier (l : Lore) (ends : Ends) (net : Network) (i k : Nat) (p : PeerId) (c : Courier) : Prop where
  self : c.self = p
  reads : ∀ s r, c.stage = .connected s r → Reads l ends net i k p s r

theorem Reads.still {s : Nat} {r : Reader} (h : Reads l ends net i k p s r)
    (hs : ClientStill l ends net ends' net' s) : Reads l ends' net' i k p s r where
  owner := hs.owner.trans h.owner
  client := hs.client.trans h.client
  made := hs.made
  tells := by rw [hs.owner]; exact hs.tells r h.tells

theorem Reads.mono {s : Nat} {r : Reader} (h : Reads l ends net i k p s r) (hl : l ≤ l') :
    Reads l' ends net i k p s r :=
  ⟨h.owner, h.client, h.made, h.tells.imp fun _ hm => hm.mono hl⟩

namespace SoundCourier

theorem mono (h : SoundCourier l ends net i k p c) (hl : l ≤ l') : SoundCourier l' ends net i k p c :=
  ⟨h.self, fun s r hs => (h.reads s r hs).mono hl⟩

theorem still (h : SoundCourier l ends net i k p c)
    (hs : ∀ s < net.streams.length, ends.client s = (i, k) → ClientStill l ends net ends' net' s) :
    SoundCourier l ends' net' i k p c where
  self := h.self
  reads s r hc :=
    have hr := h.reads s r hc
    hr.still (hs s hr.made hr.client)

theorem close (h : SoundCourier l ends net i k p c) : SoundCourier l ends net i k p c.close :=
  ⟨h.self, h.reads⟩

theorem of_not_connected (hs : c.self = p) (hn : ∀ s r, c.stage ≠ .connected s r) :
    SoundCourier l ends net i k p c := ⟨hs, fun s r hc => absurd hc (hn s r)⟩

end SoundCourier

/-- What a courier has done leaves all servers and the other clients alone, and what it hands on
answers its node. -/
structure CourierWorked (l : Lore) (i k : Nat) (p : PeerId) (ends : Ends) (net : Network) (ends' : Ends)
    (w : Courier.Work) : Prop where
  servers : ∀ s < net.streams.length, ServerStill l ends net ends' w.1 s
  clients : ∀ s < net.streams.length, ends.client s ≠ (i, k) → ClientStill l ends net ends' w.1 s
  network : SoundNetwork l ends' w.1
  courier : SoundCourier l ends' w.1 i k p w.2.1
  replies : ∀ m ∈ w.2.2, l.Answers p m

namespace SoundCourier

/-- The network loses something, and the courier has no stream or the one that it had. -/
theorem worked_of_fades (hnet : SoundNetwork l ends net) (hf : net.Fades net')
    (hx : net'.listeners = net.listeners) (hc : SoundCourier l ends net i k p c') :
    CourierWorked l i k p ends net ends (net', c', []) where
  servers _ hs := serverStill_of_fades ends hf hs
  clients _ hs _ := clientStill_of_fades ends hf hs
  network := hnet.still (fun _ hm => .inl (hx ▸ hm)) fun x hm s hs =>
    serverStill_of_fades ends hf (hnet.waits x hm s hs).made
  courier := hc.still fun _ hs _ => clientStill_of_fades ends hf hs
  replies _ hm := absurd hm List.not_mem_nil

theorem worked_leave (hnet : SoundNetwork l ends net) (hs : c.self = p) (stream : Nat) :
    CourierWorked l i k p ends net ends ((Courier.leave net c stream).1, (Courier.leave net c stream).2, []) :=
  worked_of_fades hnet (net.fades_finish stream .client) rfl (of_not_connected hs nofun)

/-- A stream has been opened. Its client has greeted, or will not write on it. -/
theorem worked_connect {at' : Site} (hnet : SoundNetwork l ends net) (hself : c'.self = p)
    (hlength : net'.streams.length = net.streams.length + 1)
    (hold : ∀ s < net.streams.length, ∀ side, net'.outgoing s side = net.outgoing s side)
    (hx : ∀ x ∈ net'.listeners, ∃ y ∈ net.listeners, x.site = y.site ∧
      (x.backlog = y.backlog ∨ x.site = at' ∧ x.backlog = y.backlog ++ [net.streams.length]))
    (hclient : Tells (l.Says p) (some p.bytes) {} (net'.outgoing net.streams.length .client))
    (hserver : net'.outgoing net.streams.length .server = {})
    (hstage : ∀ s r, c'.stage = .connected s r → s = net.streams.length ∧ r = {}) :
    ∃ ends', CourierWorked l i k p ends net ends' (net', c', []) := by
  have hown : (ends.opened net.streams.length p (i, k) (.backlog at')).owner net.streams.length = p := if_pos rfl
  have hlt : net.streams.length < net'.streams.length := by omega
  have hservers : ∀ s < net.streams.length,
      ServerStill l ends net (ends.opened net.streams.length p (i, k) (.backlog at')) net' s := by
    intro s hs
    have hne : s ≠ net.streams.length := Nat.ne_of_lt hs
    exact ⟨if_neg hne, if_neg hne, Nat.lt_trans hs hlt, fun _ _ ht => by rwa [hold s hs]⟩
  refine ⟨ends.opened net.streams.length p (i, k) (.backlog at'), hservers, fun s hs _ => ?_, ?_, ?_, ?_⟩
  · have hne : s ≠ net.streams.length := Nat.ne_of_lt hs
    exact ⟨if_neg hne, if_neg hne, Nat.lt_trans hs hlt, fun _ ht => by rwa [hold s hs]⟩
  · refine hnet.connect hx hservers ⟨if_pos rfl, hlt, ?_⟩
    rw [hown]
    exact hclient
  · refine ⟨hself, fun s r hs => ?_⟩
    obtain ⟨rfl, rfl⟩ := hstage s r hs
    refine ⟨hown, if_pos rfl, hlt, ?_⟩
    rw [hserver]
    exact Tells.new _
  · exact fun m hm => absurd hm List.not_mem_nil

theorem connectWork (hnet : SoundNetwork l ends net) (hs : c.self = p) :
    ∃ ends', CourierWorked l i k p ends net ends' ((c.connectWork net).1, (c.connectWork net).2, []) := by
  unfold Courier.connectWork
  split
  · exact ⟨ends, worked_of_fades hnet (.refl net) rfl (of_not_connected hs fun _ _ hc => by cases hc)⟩
  · next addr _ =>
    split
    · exact ⟨ends, worked_of_fades hnet (.refl net) rfl (of_not_connected hs fun _ _ hc => by cases hc)⟩
    · next net₁ stream hc =>
      obtain ⟨rfl, hstreams, at', hx⟩ := Network.connect_cases hc
      have hl : net₁.streams.length = net.streams.length + 1 := by rw [hstreams, List.length_append]; rfl
      have hlt : net.streams.length < net₁.streams.length := by omega
      have hnew : ∀ side, net₁.outgoing net.streams.length side = {} := by
        intro side
        rw [Network.outgoing_new hstreams]
        cases side <;> rfl
      have hh : ∀ (c' : Courier) (f : Net.Pipe → Net.Pipe), c'.self = p →
          Tells (l.Says p) (some p.bytes) {} (f {}) →
          (∀ s r, c'.stage = .connected s r → s = net.streams.length ∧ r = {}) → ∀ net',
          net'.listeners = net₁.listeners →
          net'.streams = (net₁.modifyStream net.streams.length fun s => s.modify .client f).streams →
          ∃ ends', CourierWorked l i k p ends net ends' (net', c', []) := by
        intro c' f hself ht hstage net' hlisteners hstreams'
        have hout : ∀ s side, net'.outgoing s side =
            (net₁.modifyStream net.streams.length fun s => s.modify .client f).outgoing s side := by
          intro s side
          rw [Network.outgoing, Network.outgoing, hstreams']
        refine worked_connect hnet hself ?_ (fun s hs side => ?_) (hlisteners ▸ hx) ?_ ?_ hstage
        · rw [hstreams', Network.length_modifyStream, hl]
        · rw [hout, Network.outgoing_modify_of_ne _ _ _ _ (.inl (Nat.ne_of_lt hs)),
            Network.outgoing_of_append hstreams hs]
        · rw [hout, Network.outgoing_modify_self hlt, hnew]
          exact ht
        · have hne : Net.Side.server ≠ Net.Side.client := by decide
          rw [hout, Network.outgoing_modify_of_ne _ _ _ _ (.inr hne), hnew]
      have hleave : ∀ net₂ : Network, net₂.streams = net₁.streams → net₂.listeners = net₁.listeners →
          ∃ ends', CourierWorked l i k p ends net ends' ((Courier.leave net₂ c net.streams.length).1,
            (Courier.leave net₂ c net.streams.length).2, []) := by
        intro net₂ hs₂ hl₂
        have hstreams₂ : (net₂.finish net.streams.length .client).streams =
            (net₁.finish net.streams.length .client).streams := by
          rw [Network.finish, Network.finish, Network.modifyStream, Network.modifyStream, hs₂]
        refine hh { c with stage := .connecting } (fun pipe => { pipe with ended := true }) hs (.ended _ _) ?_
          (net₂.finish net.streams.length .client) hl₂ hstreams₂
        intro s r hstage
        cases hstage
      split
      · exact hleave net₁ rfl rfl
      · next greeting hg =>
        rw [hs] at hg
        rcases net₁.write_cases net.streams.length .client greeting with ⟨faults, hw⟩ | ⟨-, hw⟩
        · rw [hw]
          exact hleave { net₁ with faults } rfl rfl
        · rw [hw]
          refine hh { c with stage := .connected net.streams.length {} }
            (fun pipe => { pipe with waiting := pipe.waiting ++ greeting }) hs (.greet _ hg) ?_ _ rfl rfl
          intro s r hstage
          cases hstage
          exact ⟨rfl, rfl⟩

theorem deliver {s : Nat} {r : Reader} (h : SoundCourier l ends net i k p c) (hnet : SoundNetwork l ends net)
    (hc : c.stage = .connected s r) {m : Envelope} (hm : l.Says p m) :
    CourierWorked l i k p ends net ends ((c.deliver net s m).1, (c.deliver net s m).2, []) := by
  have hr := h.reads s r hc
  unfold Courier.deliver
  dsimp only
  split
  · exact worked_leave (c := { c with taken := c.taken + 1 }) hnet h.self s
  · next bytes hb =>
    rcases net.write_cases s .client bytes with ⟨faults, hw⟩ | ⟨-, hw⟩
    · rw [hw]
      have hf : net.Fades { net with faults } := .of_streams rfl
      exact worked_of_fades hnet (hf.trans (Network.fades_finish _ s .client)) rfl (of_not_connected h.self nofun)
    · have hstill : ∀ t < net.streams.length, _ := fun t ht =>
        still_write_client (l := l) (s := t) ends ht hb (hr.owner ▸ hm) hw
      rw [hw]
      exact ⟨fun t ht => (hstill t ht).1, fun t ht _ => (hstill t ht).2,
        hnet.still (fun _ hx => .inl hx) fun x hx t ht => (hstill t (hnet.waits x hx t ht).made).1,
        ⟨h.self, fun t r' hc' => (h.reads t r' hc').still (hstill t (h.reads t r' hc').made).2⟩,
        fun _ hm => absurd hm List.not_mem_nil⟩

theorem answers_of_reply? {frames : List Bytes} {m : Envelope} (hc : Carries (l.Answers p) frames)
    (h : c.reply? frames = some m) : l.Answers p m := by
  obtain ⟨e, rfl, hl, he⟩ := hc
  simp only [Courier.reply?, Envelope.ofFrames?, Envelope.decode_encode hl] at h
  cases h
  exact he

theorem read {s : Nat} {r : Reader} (h : SoundCourier l ends net i k p c) (hnet : SoundNetwork l ends net)
    (hc : c.stage = .connected s r) : CourierWorked l i k p ends net ends (c.read net s r) := by
  have hr := h.reads s r hc
  have hl := net.length_modifyStream s
  have hservers : ∀ t < net.streams.length, ServerStill l ends net ends (net.read s .client).1 t :=
    fun t ht => serverStill_read_client ends ht s
  have hclients : ∀ t < net.streams.length, ends.client t ≠ (i, k) →
      ClientStill l ends net ends (net.read s .client).1 t := by
    intro t ht hne
    refine clientStill_read_client ends ht ?_
    rintro rfl
    exact hne hr.client
  have hnet' : SoundNetwork l ends (net.read s .client).1 :=
    hnet.still (fun _ hx => .inl hx) fun x hx t ht => hservers t (hnet.waits x hx t ht).made
  have hreplies : ∀ m ∈ (r.feed (net.outgoing s .server).waiting).done.reverse.filterMap c.reply?, l.Answers p m := by
    intro m hm
    obtain ⟨frames, hf, hm⟩ := List.mem_filterMap.1 hm
    exact answers_of_reply? (hr.owner ▸ hr.tells.script frames hf) hm
  have hreads : Reads l ends (net.read s .client).1 i k p s
      { r.feed (net.outgoing s .server).waiting with done := [] } := by
    refine ⟨hr.owner, hr.client, (hl _).symm ▸ hr.made, ?_⟩
    have ho : (net.read s .client).1.outgoing s .server = { net.outgoing s .server with waiting := [] } :=
      Network.outgoing_modify_self hr.made .server _
    rw [ho]
    exact hr.tells.read (.inl rfl)
  unfold Courier.read
  dsimp only
  split
  · refine ⟨hservers, hclients, hnet', ⟨h.self, fun t r' hs => ?_⟩, hreplies⟩
    obtain ⟨rfl, rfl⟩ := Stage.connected.inj hs
    exact hreads
  · have hleave : CourierWorked l i k p ends (net.read s .client).1 ends _ := worked_leave hnet' h.self s
    refine ⟨fun t ht => ?_, fun t ht hne => ?_, hleave.network, hleave.courier, hreplies⟩
    · exact (hservers t ht).trans (hleave.servers t ((hl _).symm ▸ ht))
    · exact (hclients t ht hne).trans (hleave.clients t ((hl _).symm ▸ ht) hne)

/-- Whatever a courier does, with a queue of what its node may say. -/
theorem work? {queue : List Envelope} (h : SoundCourier l ends net i k p c) (hnet : SoundNetwork l ends net)
    (hq : ∀ m ∈ queue, l.Says p m) {w : Courier.Work} (hw : c.work? net queue = some w) :
    ∃ ends', CourierWorked l i k p ends net ends' w := by
  unfold Courier.work? at hw
  split at hw
  · cases hw
  · split at hw
    · cases hw
      exact ⟨ends, worked_of_fades hnet (.refl net) rfl (of_not_connected h.self nofun)⟩
    · cases hw
      exact connectWork hnet h.self
  · split at hw
    · cases hw
      exact ⟨ends, worked_of_fades hnet (.refl net) rfl (of_not_connected h.self nofun)⟩
    · split at hw
      · cases hw
        exact ⟨ends, worked_of_fades hnet (.refl net) rfl (of_not_connected h.self nofun)⟩
      · cases hw
  · next stream reader hc =>
    split at hw
    · cases hw
      exact ⟨ends, worked_of_fades hnet (net.fades_finish stream .client) rfl (of_not_connected h.self nofun)⟩
    · unfold Courier.connectedWork? at hw
      dsimp only at hw
      split at hw
      · cases hw
        exact ⟨ends, h.read hnet hc⟩
      · split at hw
        · cases hw
          exact ⟨ends, worked_leave hnet h.self stream⟩
        · split at hw
          · cases hw
          · next m hm =>
            obtain rfl := Option.some.inj hw
            exact ⟨ends, h.deliver hnet hc (hq m (List.mem_of_getElem? hm))⟩

end SoundCourier

end Fleet
end PeerDiscovery
