import PeerDiscovery.Mailbox.Service
import PeerDiscovery.Proofs.Fleet.Streams
import PeerDiscovery.Proofs.Lists
import PeerDiscovery.Proofs.Mailbox.Script

/-! Mailboxes of a fleet: their connections speak for the peers that opened them, what these say they
may say, and what goes back to them answers them. -/
namespace PeerDiscovery
namespace Fleet

open Mailbox (Connection Hub Notice)
open Net (Network SocketAddr)

variable {l l' : Lore} {ends ends' : Ends} {net net' : Network} {i k : Nat} {c : Connection}

def awaited (p : PeerId) (c : Connection) : Option Bytes :=
  match c.identity with
  | none => some p.bytes
  | some _ => none

structure SoundConnection (l : Lore) (ends : Ends) (net : Network) (i k : Nat) (c : Connection) : Prop where
  place : ends.place c.stream = .connection i k
  made : c.stream < net.streams.length
  identity : ∀ b, c.identity = some b → b = (ends.owner c.stream).bytes
  outbox : ∀ payload ∈ c.outbox, ∃ m : Envelope, payload = m.encode ∧ l.Answers (ends.owner c.stream) m
  tells : c.reading = true → Tells (l.Says (ends.owner c.stream)) (awaited (ends.owner c.stream) c) c.reader
    (net.outgoing c.stream .client)

def Speaks (connections : List Connection) (k : Nat) (identity : Bytes) : Prop :=
  ∃ c, connections[k]? = some c ∧ c.identity = some identity

def Genuine (l : Lore) (connections : List Connection) : Notice → Prop
  | .connected k identity => Speaks connections k identity
  | .message identity frames => ∃ p : PeerId, identity = p.bytes ∧ Carries (l.Says p) frames
  | .disconnected _ _ => True

structure SoundHub (l : Lore) (ends : Ends) (net : Network) (i : Nat) (h : Hub) : Prop where
  connections : ∀ k c, h.connections[k]? = some c → SoundConnection l ends net i k c
  registered : ∀ identity k, (identity, k) ∈ h.registered → Speaks h.connections k identity
  notices : ∀ x ∈ h.notices, Genuine l h.connections x

theorem Genuine.mono {connections connections' : List Connection} {x : Notice} (h : Genuine l connections x)
    (hl : l ≤ l') (hs : ∀ k identity, Speaks connections k identity → Speaks connections' k identity) :
    Genuine l' connections' x := by
  cases x with
  | connected k identity => exact hs k identity h
  | message identity frames =>
    obtain ⟨p, hp, hc⟩ := h
    exact ⟨p, hp, hc.imp fun _ hm => hm.mono hl⟩
  | disconnected k identity => trivial

namespace SoundConnection

theorem mono (h : SoundConnection l ends net i k c) (hl : l ≤ l') : SoundConnection l' ends net i k c where
  place := h.place
  made := h.made
  identity := h.identity
  outbox payload hp := by
    obtain ⟨m, hm, ha⟩ := h.outbox payload hp
    exact ⟨m, hm, ha.mono hl⟩
  tells hr := (h.tells hr).imp fun _ hm => hm.mono hl

theorem still (h : SoundConnection l ends net i k c) (hs : ServerStill l ends net ends' net' c.stream) :
    SoundConnection l ends' net' i k c where
  place := hs.place.trans h.place
  made := hs.made
  identity := by rw [hs.owner]; exact h.identity
  outbox := by rw [hs.owner]; exact h.outbox
  tells hr := by rw [hs.owner]; exact hs.tells _ _ (h.tells hr)

theorem of_reading {c' : Connection} (h : SoundConnection l ends net i k c) (hs : c'.stream = c.stream)
    (hi : c'.identity = c.identity) (hr : c'.reading = c.reading) (hd : c'.reader = c.reader)
    (ho : ∀ payload ∈ c'.outbox, ∃ m : Envelope, payload = m.encode ∧ l.Answers (ends.owner c.stream) m) :
    SoundConnection l ends net i k c' := by
  refine ⟨?_, ?_, ?_, ?_, ?_⟩
  · rw [hs]
    exact h.place
  · rw [hs]
    exact h.made
  · rw [hs, hi]
    exact h.identity
  · rw [hs]
    exact ho
  · rw [hs, hr, hd, awaited, hi]
    exact h.tells

end SoundConnection

/-- What a connection of a peer is after it has taken messages, and what it has told. -/
structure Taken (l : Lore) (p : PeerId) (k : Nat) (c : Connection) (ms : List (List Bytes))
    (r : Connection × List Notice) : Prop where
  stream : r.1.stream = c.stream
  outbox : ∀ payload ∈ r.1.outbox, payload ∈ c.outbox
  keeps : ∀ b, c.identity = some b → r.1.identity = some b
  identity : ∀ b, r.1.identity = some b → b = p.bytes
  reads : r.1.reading = true →
    r.1.reader = c.reader ∧ (awaited p r.1 = none ∨ awaited p r.1 = awaited p c ∧ ms = [])
  notices : ∀ x ∈ r.2, match x with
    | .connected number identity => number = k ∧ r.1.identity = some identity
    | .message identity frames => identity = p.bytes ∧ Carries (l.Says p) frames
    | .disconnected _ _ => True

theorem taken_lose {p : PeerId} (hi : ∀ b, c.identity = some b → b = p.bytes) (k : Nat) (ms : List (List Bytes)) :
    Taken l p k c ms (c.lose k) where
  stream := rfl
  outbox _ hm := absurd hm List.not_mem_nil
  keeps _ hb := hb
  identity := hi
  reads := nofun
  notices x hx := by
    unfold Connection.lose at hx
    split at hx
    · exact absurd hx List.not_mem_nil
    · rw [List.mem_singleton.1 hx]
      trivial

theorem taken_takeMessages {p : PeerId} {ms : List (List Bytes)} (hi : ∀ b, c.identity = some b → b = p.bytes)
    (hs : Script (l.Says p) (awaited p c) ms) : Taken l p k c ms (c.takeMessages k ms) := by
  induction ms generalizing c with
  | nil =>
    unfold Connection.takeMessages
    split
    · exact ⟨rfl, fun _ h => h, fun _ h => h, hi, fun _ => ⟨rfl, .inr ⟨rfl, rfl⟩⟩, fun _ h => absurd h List.not_mem_nil⟩
    · exact taken_lose hi k []
  | cons frames rest ih =>
    cases hc : c.identity with
    | some identity =>
      have ha : awaited p c = none := by rw [awaited, hc]
      rw [ha] at hs
      have hh : Taken l p k c rest (c.takeMessages k rest) :=
        ih hi (ha ▸ fun x hx => hs x (List.mem_cons_of_mem frames hx))
      rw [Connection.takeMessages_cons hc]
      refine ⟨hh.stream, hh.outbox, hh.keeps, hh.identity, fun hr => ⟨(hh.reads hr).1, .inl ?_⟩, fun x hx => ?_⟩
      · rw [awaited, hh.keeps identity hc]
      · rcases List.mem_cons.1 hx with rfl | hx
        · exact ⟨hi identity hc, hs frames List.mem_cons_self⟩
        · exact hh.notices x hx
    | none =>
      have ha : awaited p c = some p.bytes := by rw [awaited, hc]
      rw [ha] at hs
      obtain ⟨rfl, hs⟩ := hs
      have hg : Mailbox.greeter? ([p.bytes] :: rest) = some p.bytes := by
        refine if_neg fun hn => ?_
        exact absurd p.length_eq (by rw [hn]; decide)
      have hh : Taken l p k (c.greet p.bytes) rest ((c.greet p.bytes).takeMessages k rest) :=
        ih (fun b hb => (Option.some.inj hb).symm) hs
      rw [Connection.takeMessages_greeting hc hg, List.tail_cons]
      have hk := hh.keeps p.bytes rfl
      refine ⟨hh.stream, hh.outbox, fun b h => absurd h (by rw [hc]; nofun), hh.identity,
        fun hr => ⟨(hh.reads hr).1, .inl ?_⟩, fun x hx => ?_⟩
      · rw [awaited, hk]
      · rcases List.mem_cons.1 hx with rfl | hx
        · exact ⟨rfl, hk⟩
        · exact hh.notices x hx

theorem receive_eq (hr : c.reading = true) (k : Nat) (bytes : Bytes) :
    c.receive k bytes = { c with reader := { c.reader.feed bytes with done := [] } }.takeMessages k
      (c.reader.feed bytes).done.reverse := by
  rw [Connection.receive, if_pos hr]
  rfl

theorem SoundConnection.receive (h : SoundConnection l ends net i k c) (hr : c.reading = true) :
    SoundConnection l ends (net.read c.stream .server).1 i k (c.receive k (net.incoming c.stream .server).waiting).1 ∧
      (∀ b, c.identity = some b → (c.receive k (net.incoming c.stream .server).waiting).1.identity = some b) ∧
      ∀ connections, connections[k]? = some (c.receive k (net.incoming c.stream .server).waiting).1 →
        ∀ x ∈ (c.receive k (net.incoming c.stream .server).waiting).2, Genuine l connections x := by
  have htells := h.tells hr
  have ht : Taken l (ends.owner c.stream) k
      { c with reader := { c.reader.feed (net.incoming c.stream .server).waiting with done := [] } }
      (c.reader.feed (net.incoming c.stream .server).waiting).done.reverse
      (c.receive k (net.incoming c.stream .server).waiting) := by
    rw [receive_eq hr]
    exact taken_takeMessages h.identity htells.script
  refine ⟨⟨?_, ?_, ?_, ?_, ?_⟩, ht.keeps, fun connections hk x hx => ?_⟩
  · rw [ht.stream]
    exact h.place
  · rw [ht.stream, Network.read, Network.length_modifyStream]
    exact h.made
  · rw [ht.stream]
    exact ht.identity
  · rw [ht.stream]
    exact fun payload hp => h.outbox payload (ht.outbox payload hp)
  · intro hreading
    obtain ⟨hreader, ha⟩ := ht.reads hreading
    have ho : (net.read c.stream .server).1.outgoing c.stream .client =
        { net.outgoing c.stream .client with waiting := [] } :=
      Network.outgoing_modify_self h.made .client _
    rw [ht.stream, hreader, ho]
    exact htells.read (ha.imp_right fun ha => ⟨ha.1, List.reverse_eq_nil_iff.1 ha.2⟩)
  · have hh := ht.notices x hx
    cases x with
    | connected number identity =>
      obtain ⟨rfl, hi⟩ := hh
      exact ⟨_, hk, hi⟩
    | message identity frames => exact ⟨ends.owner c.stream, hh⟩
    | disconnected number identity => trivial

theorem SoundConnection.lose (h : SoundConnection l ends net i k c) :
    SoundConnection l ends net i k (c.lose k).1 where
  place := h.place
  made := h.made
  identity := h.identity
  outbox _ hm := absurd hm List.not_mem_nil
  tells := nofun

theorem SoundConnection.push (h : SoundConnection l ends net i k c) {m : Envelope}
    (hm : l.Answers (ends.owner c.stream) m) : SoundConnection l ends net i k (c.push m.encode).1 := by
  unfold Connection.push
  split
  · refine h.of_reading rfl rfl rfl rfl fun payload hp => ?_
    rcases List.mem_append.1 hp with hp | hp
    · exact h.outbox payload hp
    · exact ⟨m, List.mem_singleton.1 hp, hm⟩
  · exact h

theorem SoundConnection.release (h : SoundConnection l ends net i k c) : SoundConnection l ends net i k c.release := by
  unfold Connection.release
  split
  · exact h.of_reading rfl rfl rfl rfl h.outbox
  · exact h

theorem identity_release (c : Connection) : c.release.identity = c.identity := by
  unfold Connection.release
  split <;> rfl

theorem identity_push (c : Connection) (payload : Bytes) : (c.push payload).1.identity = c.identity := by
  unfold Connection.push
  split <;> rfl

theorem Speaks.set {connections : List Connection} {c' : Connection} (hk : connections[k]? = some c)
    (hi : ∀ b, c.identity = some b → c'.identity = some b) {n : Nat} {identity : Bytes}
    (h : Speaks connections n identity) : Speaks (connections.set k c') n identity := by
  obtain ⟨d, hd, hb⟩ := h
  by_cases hn : k = n
  · subst hn
    obtain rfl := Option.some.inj (hk.symm.trans hd)
    refine ⟨c', ?_, hi identity hb⟩
    rw [List.getElem?_set_self (List.getElem?_eq_some_iff.1 hk).1]
  · exact ⟨d, by rwa [List.getElem?_set_ne hn], hb⟩

theorem Speaks.append {connections : List Connection} {identity : Bytes} (h : Speaks connections k identity)
    (rest : List Connection) : Speaks (connections ++ rest) k identity := by
  obtain ⟨c, hc, hi⟩ := h
  exact ⟨c, getElem?_append_of_some hc rest, hi⟩

namespace SoundHub

variable {h : Hub}

theorem new (l : Lore) (ends : Ends) (net : Network) (i : Nat) : SoundHub l ends net i {} where
  connections _ _ hc := absurd hc (by simp)
  registered _ _ hr := absurd hr List.not_mem_nil
  notices _ hx := absurd hx List.not_mem_nil

theorem mono (hh : SoundHub l ends net i h) (hl : l ≤ l') : SoundHub l' ends net i h where
  connections k c hc := (hh.connections k c hc).mono hl
  registered := hh.registered
  notices x hx := (hh.notices x hx).mono hl fun _ _ hs => hs

theorem still (hh : SoundHub l ends net i h)
    (hs : ∀ s < net.streams.length, ∀ k, ends.place s = .connection i k → ServerStill l ends net ends' net' s) :
    SoundHub l ends' net' i h where
  connections k c hc :=
    have hk := hh.connections k c hc
    hk.still (hs c.stream hk.made k hk.place)
  registered := hh.registered
  notices := hh.notices

theorem set {c' : Connection} (hh : SoundHub l ends net i h) (hk : h.connections[k]? = some c)
    (hc : SoundConnection l ends' net' i k c') (hi : ∀ b, c.identity = some b → c'.identity = some b)
    (hs : ∀ s < net.streams.length, s ≠ c.stream → ServerStill l ends net ends' net' s) :
    SoundHub l ends' net' i { h with connections := h.connections.set k c' } where
  connections n d hd := by
    rcases getElem?_set_cases hd with ⟨rfl, rfl⟩ | ⟨hne, hd⟩
    · exact hc
    · have hsound := hh.connections n d hd
      refine hsound.still (hs d.stream hsound.made fun he => hne ?_)
      have hp := (hh.connections k c hk).place
      rw [← he, hsound.place] at hp
      exact (Place.connection.inj hp).2
  registered identity n hr := (hh.registered identity n hr).set hk hi
  notices x hx := (hh.notices x hx).mono (Lore.le_refl l) fun _ _ hs => hs.set hk hi

theorem put {c' : Connection} (hh : SoundHub l ends net i h) (hk : h.connections[k]? = some c)
    (hc : SoundConnection l ends net i k c') (hi : ∀ b, c.identity = some b → c'.identity = some b) :
    SoundHub l ends net i { h with connections := h.connections.set k c' } :=
  hh.set hk hc hi fun _ hs _ => serverStill_of_eq ends hs rfl

theorem modify (hh : SoundHub l ends net i h) (k : Nat) {f : Connection → Connection}
    (hf : ∀ c, SoundConnection l ends net i k c → SoundConnection l ends net i k (f c))
    (hi : ∀ c, (f c).identity = c.identity) : SoundHub l ends net i (h.modifyConnection k f) := by
  unfold Hub.modifyConnection
  rw [List.modify_eq_set_getElem?]
  cases hk : h.connections[k]? with
  | none => exact hh
  | some c => exact hh.put hk (hf c (hh.connections k c hk)) fun b hb => (hi c).trans hb

theorem tell (hh : SoundHub l ends net i h) {xs : List Notice} (hx : ∀ x ∈ xs, Genuine l h.connections x) :
    SoundHub l ends net i { h with notices := h.notices ++ xs } where
  connections := hh.connections
  registered := hh.registered
  notices x hm := by
    rcases List.mem_append.1 hm with hm | hm
    · exact hh.notices x hm
    · exact hx x hm

theorem others (hh : SoundHub l ends net i h) (identity : Bytes) :
    SoundHub l ends net i { h with registered := h.others identity } where
  connections := hh.connections
  registered b k hr := hh.registered b k (List.mem_filter.1 hr).1
  notices := hh.notices

theorem register (hh : SoundHub l ends net i h) {identity : Bytes} (hs : Speaks h.connections k identity) :
    SoundHub l ends net i (h.register k identity) := by
  have hr : SoundHub l ends net i { h with registered := h.others identity ++ [(identity, k)] } := by
    refine ⟨hh.connections, fun b n hm => ?_, hh.notices⟩
    rcases List.mem_append.1 hm with hm | hm
    · exact (hh.others identity).registered b n hm
    · obtain ⟨rfl, rfl⟩ := Prod.mk.inj (List.mem_singleton.1 hm)
      exact hs
  unfold Hub.register
  split
  · exact hr
  · exact hr.modify _ (fun _ hc => hc.release) identity_release

theorem unregister (hh : SoundHub l ends net i h) (k : Nat) (identity : Bytes) :
    SoundHub l ends net i (h.unregister k identity) := by
  unfold Hub.unregister
  split
  · exact hh.others identity
  · exact hh

theorem accept (hh : SoundHub l ends net i h) {stream : Nat}
    (hc : SoundConnection l ends net i h.connections.length { stream }) : SoundHub l ends net i (h.accept stream) where
  connections k c hk := by
    rcases getElem?_concat_cases hk with hk | ⟨rfl, rfl⟩
    · exact hh.connections k c hk
    · exact hc
  registered b k hr := (hh.registered b k hr).append _
  notices x hx := (hh.notices x hx).mono (Lore.le_refl l) fun _ _ hs => hs.append _

/-- A reply to a peer goes to a connection that the peer opened. -/
theorem reply (hh : SoundHub l ends net i h) {p : PeerId} {m : Envelope} (hm : l.Answers p m) :
    SoundHub l ends net i (h.reply p.bytes m.encode).1 := by
  unfold Hub.reply
  split
  · exact hh
  · next number hl =>
    split
    · exact hh
    · next c hc =>
      obtain ⟨d, hd, hi⟩ := hh.registered p.bytes number (mem_of_lookup hl)
      obtain rfl := Option.some.inj (hc.symm.trans hd)
      have hsound := hh.connections number c hc
      have hp : p = ends.owner c.stream := PeerId.ext (hsound.identity p.bytes hi)
      exact hh.put hc (hsound.push (hp ▸ hm)) fun b hb => (identity_push c _).trans hb

end SoundHub

/-- What a listener is told has been said by the peer that it is said to come from. -/
def SoundEvent (l : Lore) : Mailbox.Event → Prop
  | .received m => ∃ p : PeerId, m.sender = some p.bytes ∧ l.Says p m
  | .sent _ => True

structure SoundMailbox (l : Lore) (ends : Ends) (net : Network) (i : Nat) (m : Mailbox) : Prop where
  hub : SoundHub l ends net i m.hub
  events : ∀ x ∈ m.listeners, ∀ event ∈ x.queue, SoundEvent l event
  tcp : m.requested.transport = .tcp

theorem SoundEvent.mono {event : Mailbox.Event} (h : SoundEvent l event) (hl : l ≤ l') : SoundEvent l' event := by
  cases event with
  | received m =>
    obtain ⟨p, hs, hm⟩ := h
    exact ⟨p, hs, hm.mono hl⟩
  | sent m => trivial

theorem soundEvent_of_envelope? {p : PeerId} {frames : List Bytes} {m : Envelope} (hc : Carries (l.Says p) frames)
    (h : Hub.envelope? p.bytes frames = some m) : SoundEvent l (.received m) := by
  obtain ⟨e, rfl, hl, he⟩ := hc
  simp only [Hub.envelope?, Envelope.ofFrames?, Envelope.decode_encode hl] at h
  cases h
  exact ⟨p, rfl, he⟩

namespace SoundMailbox

variable {m : Mailbox}

theorem mono (h : SoundMailbox l ends net i m) (hl : l ≤ l') : SoundMailbox l' ends net i m :=
  ⟨h.hub.mono hl, fun x hx event he => (h.events x hx event he).mono hl, h.tcp⟩

theorem still (h : SoundMailbox l ends net i m)
    (hs : ∀ s < net.streams.length, ∀ k, ends.place s = .connection i k → ServerStill l ends net ends' net' s) :
    SoundMailbox l ends' net' i m := ⟨h.hub.still hs, h.events, h.tcp⟩

theorem withHub {hub : Hub} (h : SoundMailbox l ends net i m) (hh : SoundHub l ends' net' i hub) :
    SoundMailbox l ends' net' i { m with hub } := ⟨hh, h.events, h.tcp⟩

theorem emit (h : SoundMailbox l ends net i m) {event : Mailbox.Event} (he : SoundEvent l event) :
    SoundMailbox l ends net i (m.emit event) where
  hub := h.hub
  events x hx event' hm := by
    obtain ⟨y, hy, rfl⟩ := List.mem_map.1 hx
    split at hm
    · rcases List.mem_append.1 hm with hm | hm
      · exact h.events y hy event' hm
      · rw [List.mem_singleton.1 hm]
        exact he
    · exact h.events y hy event' hm
  tcp := h.tcp

theorem request (h : SoundMailbox l ends net i m) (envelope : Envelope) :
    SoundMailbox l ends net i (m.send { envelope with sender := none }).1 := h.emit trivial

theorem reply (h : SoundMailbox l ends net i m) {p : PeerId} {envelope : Envelope}
    (hs : envelope.sender = some p.bytes) (ha : l.Answers p envelope) :
    SoundMailbox l ends net i (m.send envelope).1 := by
  unfold Mailbox.send
  rw [hs]
  split
  · next hn => cases hn
  · next identity hi =>
    cases hi
    split
    · exact h.withHub (h.hub.reply (m := { envelope with sender := none }) ha)
    · exact h

theorem takeNotice? {m' : Mailbox} (h : SoundMailbox l ends net i m) (ht : m.takeNotice? = some m') :
    SoundMailbox l ends net i m' := by
  unfold Mailbox.takeNotice? Hub.takeNotice? at ht
  cases hn : m.hub.notices with
  | nil =>
    rw [hn] at ht
    cases ht
  | cons notice rest =>
    rw [hn] at ht
    have hg := h.hub.notices notice (hn ▸ List.mem_cons_self)
    have hh : SoundHub l ends net i { m.hub with notices := rest } :=
      ⟨h.hub.connections, h.hub.registered, fun x hx => h.hub.notices x (hn ▸ List.mem_cons_of_mem notice hx)⟩
    cases notice with
    | connected k identity =>
      cases ht
      exact h.withHub (hh.register hg)
    | disconnected k identity =>
      cases ht
      exact h.withHub (hh.unregister k identity)
    | message identity frames =>
      obtain ⟨p, rfl, hc⟩ := hg
      cases he : Hub.envelope? p.bytes frames with
      | none =>
        simp only [Hub.take, he] at ht
        cases ht
        exact h.withHub hh
      | some e =>
        simp only [Hub.take, he] at ht
        cases ht
        exact (h.withHub hh).emit (soundEvent_of_envelope? hc he)

theorem takeEvent? {m' : Mailbox} {n : Nat} {event : Mailbox.Event} (h : SoundMailbox l ends net i m)
    (ht : m.takeEvent? n = some (m', event)) : SoundMailbox l ends net i m' ∧ SoundEvent l event := by
  unfold Mailbox.takeEvent? at ht
  cases hn : m.listeners[n]? with
  | none =>
    rw [hn] at ht
    cases ht
  | some x =>
    have hx := h.events x (List.mem_of_getElem? hn)
    cases hq : x.queue with
    | nil =>
      simp only [hn, hq] at ht
      cases ht
    | cons first rest =>
      simp only [hn, hq] at ht
      cases ht
      refine ⟨⟨h.hub, fun y hy event' he => ?_, h.tcp⟩, hx event (hq ▸ List.mem_cons_self)⟩
      rcases List.mem_or_eq_of_mem_set hy with hy | rfl
      · exact h.events y hy event' he
      · exact hx event' (hq ▸ List.mem_cons_of_mem event he)

theorem addListener (h : SoundMailbox l ends net i m) : SoundMailbox l ends net i m.addListener.1 where
  hub := h.hub
  events x hx event he := by
    rcases List.mem_append.1 hx with hx | hx
    · exact h.events x hx event he
    · rw [List.mem_singleton.1 hx] at he
      exact absurd he List.not_mem_nil
  tcp := h.tcp

theorem dropListener (h : SoundMailbox l ends net i m) (n : Nat) : SoundMailbox l ends net i (m.dropListener n) where
  hub := h.hub
  events x hx event he := by
    obtain ⟨j, hj, rfl⟩ := List.mem_iff_getElem.1 hx
    simp only [Mailbox.dropListener, List.getElem_modify] at he
    split at he
    · exact absurd he List.not_mem_nil
    · exact h.events _ (List.getElem_mem _) event he
  tcp := h.tcp

theorem tryOpen (h : SoundMailbox l ends net i m) (free : SocketAddr → Bool) :
    SoundMailbox l ends net i (m.tryOpen free).1 := by
  unfold Mailbox.tryOpen
  split
  · split
    · exact h
    · exact ⟨.new l ends net i, h.events, h.tcp⟩
  · exact h

theorem close (h : SoundMailbox l ends net i m) : SoundMailbox l ends net i m.close := by
  unfold Mailbox.close
  split
  · exact ⟨.new l ends net i, h.events, h.tcp⟩
  · exact h

end SoundMailbox

/-- What the mailbox of a node has done leaves the connections of other nodes and all clients alone. -/
structure MailboxWorked (l : Lore) (i : Nat) (ends : Ends) (net : Network) (ends' : Ends) (net' : Network)
    (m' : Mailbox) : Prop where
  servers : ∀ s < net.streams.length, ∀ j k, ends.place s = .connection j k → j ≠ i →
    ServerStill l ends net ends' net' s
  clients : ∀ s < net.streams.length, ClientStill l ends net ends' net' s
  network : SoundNetwork l ends' net'
  mailbox : SoundMailbox l ends' net' i m'

namespace SoundMailbox

variable {m m' : Mailbox}

/-- The network loses something, and connections are as before or gone. -/
theorem worked_of_fades (hnet : SoundNetwork l ends net) (hf : net.Fades net')
    (hx : ∀ x ∈ net'.listeners, x ∈ net.listeners ∨ x.backlog = [])
    (h : SoundMailbox l ends net i m') : MailboxWorked l i ends net ends net' m' where
  servers _ hs _ _ _ _ := serverStill_of_fades ends hf hs
  clients _ hs := clientStill_of_fades ends hf hs
  network := hnet.still hx fun x hm s hs => serverStill_of_fades ends hf (hnet.waits x hm s hs).made
  mailbox := h.still fun _ hs _ _ => serverStill_of_fades ends hf hs

theorem acceptWork? (hnet : SoundNetwork l ends net) (h : SoundMailbox l ends net i m)
    (hw : Mailbox.acceptWork? net m = some (net', m')) : ∃ ends', MailboxWorked l i ends net ends' net' m' := by
  unfold Mailbox.acceptWork? Network.acceptFault? at hw
  split at hw
  · cases hw
  · next addr _ =>
    by_cases hf : net.faults.accept = 0
    · rw [if_pos hf] at hw
      obtain ⟨⟨net'', stream⟩, ha, he⟩ := Option.map_eq_some_iff.1 hw
      obtain ⟨rfl, rfl⟩ := Prod.mk.inj he
      obtain ⟨hstreams, y, hy, haddr, rest, hb, hx⟩ := Network.accept_cases ha
      have hwaits := hnet.waits y hy stream (hb ▸ List.mem_cons_self)
      have hout : ∀ s side, net''.outgoing s side = net.outgoing s side := by
        intro s side
        rw [Network.outgoing, Network.outgoing, hstreams]
      have hserver : ∀ s < net.streams.length, s ≠ stream →
          ServerStill l ends net (ends.seat stream (.connection i m.hub.connections.length)) net'' s := by
        intro s hs hne
        exact ⟨rfl, if_neg hne, hstreams ▸ hs, fun _ _ ht => by rwa [hout]⟩
      have hne : ∀ s j k, ends.place s = .connection j k → s ≠ stream := by
        rintro s j k hp rfl
        rw [hwaits.place] at hp
        cases hp
      refine ⟨ends.seat stream (.connection i m.hub.connections.length), ?_, ?_, ?_, ?_⟩
      · exact fun s hs j k hp _ => hserver s hs (hne s j k hp)
      · exact fun s hs => ⟨rfl, rfl, hstreams ▸ hs, fun _ ht => by rwa [hout]⟩
      · exact hnet.accept hy haddr hb hx hserver
      · refine h.withHub ((h.hub.still fun s hs k hp => hserver s hs (hne s i k hp)).accept ?_)
        refine ⟨if_pos rfl, hstreams ▸ hwaits.made, fun _ hb => ?_, fun _ hm => absurd hm List.not_mem_nil, fun _ => ?_⟩
        · cases hb
        rw [hout]
        exact hwaits.tells
    · rw [if_neg hf] at hw
      cases hw
      exact ⟨ends, worked_of_fades hnet (.of_streams rfl) (fun _ hx => .inl hx) h⟩

theorem readWork? (hnet : SoundNetwork l ends net) (h : SoundMailbox l ends net i m)
    (hk : m.hub.connections[k]? = some c) (hw : Mailbox.readWork? net m k c = some (net', m')) :
    MailboxWorked l i ends net ends net' m' := by
  have hc := h.hub.connections k c hk
  unfold Mailbox.readWork? at hw
  by_cases hr : c.reading = false
  · rw [if_pos hr] at hw
    cases hw
  rw [if_neg hr] at hw
  by_cases hp : (net.incoming c.stream .server).waiting ≠ []
  · rw [if_pos hp] at hw
    cases hw
    obtain ⟨hsound, hkeep, hgenuine⟩ := hc.receive (by simpa using hr)
    have hother : ∀ s < net.streams.length, s ≠ c.stream →
        ServerStill l ends net ends (net.read c.stream .server).1 s :=
      fun _ hs hne => serverStill_read_server ends hs hne
    refine ⟨fun s hs j n hs' hj => hother s hs ?_, fun s hs => clientStill_read_server ends hs c.stream, ?_, ?_⟩
    · rintro rfl
      rw [hc.place] at hs'
      exact hj (Place.connection.inj hs').1.symm
    · refine hnet.still (fun _ hx => .inl hx) fun x hx s hs => ?_
      have hwaits := hnet.waits x hx s hs
      refine hother s hwaits.made ?_
      rintro rfl
      exact absurd (hc.place.symm.trans hwaits.place) nofun
    · have hset := h.hub.set hk hsound hkeep hother
      have he : m.hub.receive k (net.incoming c.stream .server).waiting =
          m.hub.setConnection k (c.receive k (net.incoming c.stream .server).waiting) := by
        rw [Hub.receive, hk]
      rw [he]
      exact h.withHub (hset.tell (hgenuine _ (List.getElem?_set_self (List.getElem?_eq_some_iff.1 hk).1)))
  · rw [if_neg hp] at hw
    by_cases hn : (net.incoming c.stream .server).ended = true
    · rw [if_pos hn] at hw
      cases hw
      have he : m.hub.receiveEnd k = m.hub.setConnection k (c.lose k) := by
        rw [Hub.receiveEnd, hk]
        simp only [Connection.receiveEnd, if_pos (by simpa using hr : c.reading = true)]
      rw [he]
      refine worked_of_fades hnet (.refl _) (fun _ hx => .inl hx) (h.withHub ?_)
      refine (h.hub.put hk hc.lose fun _ hb => hb).tell fun x hx => ?_
      have hh := (taken_lose (l := l) hc.identity k []).notices x hx
      unfold Connection.lose at hx
      split at hx
      · exact absurd hx List.not_mem_nil
      · rw [List.mem_singleton.1 hx]
        trivial
    · rw [if_neg hn] at hw
      cases hw

theorem noticeWork (hnet : SoundNetwork l ends net) (h : SoundMailbox l ends net i m)
    (hw : m.takeNotice? = some m') : MailboxWorked l i ends net ends net m' :=
  worked_of_fades hnet (.refl _) (fun _ hx => .inl hx) (h.takeNotice? hw)

theorem stopWriting (h : SoundMailbox l ends net i m) (k : Nat) :
    SoundMailbox l ends net i { m with hub := m.hub.modifyConnection k Connection.stopWriting } :=
  h.withHub (h.hub.modify k (fun _ hc => hc.of_reading rfl rfl rfl rfl fun _ hm => absurd hm List.not_mem_nil)
    fun _ => rfl)

theorem writeWork? (hnet : SoundNetwork l ends net) (h : SoundMailbox l ends net i m)
    (hk : m.hub.connections[k]? = some c) (hw : Mailbox.writeWork? net m k c = some (net', m')) :
    MailboxWorked l i ends net ends net' m' := by
  have hc := h.hub.connections k c hk
  unfold Mailbox.writeWork? at hw
  dsimp only at hw
  split at hw
  · split at hw
    · cases hw
    · cases hw
      exact worked_of_fades hnet (net.fades_finish c.stream .server) (fun _ hx => .inl hx) h
  · next payload rest ho _ =>
    obtain ⟨e, rfl, he⟩ := hc.outbox payload (ho ▸ List.mem_cons_self)
    split at hw
    · cases hw
      exact worked_of_fades hnet (.refl _) (fun _ hx => .inl hx) (h.stopWriting k)
    · next bytes hb =>
      have hworked : ∀ {ok} {m'' : Mailbox}, net.write c.stream .server bytes = (net', ok) →
          SoundMailbox l ends net i m'' → MailboxWorked l i ends net ends net' m'' := by
        intro ok m'' hwrite hm
        have hstill : ∀ s < net.streams.length, _ := fun s hs =>
          still_write_server (l := l) (s := s) ends hs hb he hwrite
        have hlisteners : net'.listeners = net.listeners := by
          rcases net.write_cases c.stream .server bytes with ⟨faults, hh⟩ | ⟨-, hh⟩
          · rw [hh] at hwrite
            cases hwrite
            rfl
          · rw [hh] at hwrite
            cases hwrite
            rfl
        exact ⟨fun s hs _ _ _ _ => (hstill s hs).1, fun s hs => (hstill s hs).2,
          hnet.still (fun x hx => .inl (hlisteners ▸ hx)) fun x hx s hs => (hstill s (hnet.waits x hx s hs).made).1,
          hm.still fun s hs _ _ => (hstill s hs).1⟩
      split at hw
      · next hwrite =>
        cases hw
        exact hworked hwrite (h.stopWriting k)
      · next hwrite =>
        cases hw
        refine hworked hwrite (h.withHub ?_)
        rw [Hub.modifyConnection, List.modify_eq_set_getElem?, hk]
        refine h.hub.put hk (hc.of_reading rfl rfl rfl rfl fun payload hp => ?_) fun _ hi => hi
        exact hc.outbox payload (ho ▸ List.mem_cons_of_mem e.encode hp)
  · cases hw
    exact worked_of_fades hnet (.refl _) (fun _ hx => .inl hx) (h.stopWriting k)
  · cases hw

theorem openOn (hnet : SoundNetwork l ends net) (h : SoundMailbox l ends net i m) {r : Except Mailbox.Error Endpoint}
    (hw : m.openOn net = (net', m', r)) : MailboxWorked l i ends net ends net' m' := by
  unfold Mailbox.openOn at hw
  have ho := h.tryOpen fun addr => net.CanBind (m.site addr)
  split at hw
  · next he =>
    rw [he] at ho
    cases hw
    refine worked_of_fades hnet (.of_streams rfl) (fun x hx => ?_) ho
    exact (List.mem_append.1 hx).imp_right fun hx => by rw [List.mem_singleton.1 hx]
  · next he =>
    rw [he] at ho
    cases hw
    exact worked_of_fades hnet (.refl _) (fun _ hx => .inl hx) ho

theorem closeOn (hnet : SoundNetwork l ends net) (h : SoundMailbox l ends net i m) :
    MailboxWorked l i ends net ends (m.closeOn net).1 (m.closeOn net).2 := by
  unfold Mailbox.closeOn
  split
  · exact worked_of_fades hnet (.refl _) (fun _ hx => .inl hx) h.close
  · next addr _ =>
    refine worked_of_fades hnet ((net.fades_unbind _).trans (Network.fades_finishAll _ _ _ .server))
      (fun x hx => .inl ?_) h.close
    rw [Network.listeners_finishAll, Network.listeners_unbind] at hx
    exact (List.mem_filter.1 hx).1

end SoundMailbox

end Fleet
end PeerDiscovery
