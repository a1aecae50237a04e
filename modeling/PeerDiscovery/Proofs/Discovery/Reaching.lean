import PeerDiscovery.Proofs.Beacon.Decoding
import PeerDiscovery.Proofs.Courier.Trips
import PeerDiscovery.Proofs.Discovery.Introduction
import PeerDiscovery.Proofs.Endpoint.Wildcards

/-! Endpoints that are taken in can be connected to: `Engine.connections_reach_hosts`.
A hello is checked before its endpoint is registered, a beacon gives the address that it came from, and a wildcard of
one's own is replaced. So the courier of a link always has a socket, and only closing ends it. -/
namespace PeerDiscovery
namespace Discovery
namespace Engine

variable {κ : Type}

theorem isUsable_iff_isConcrete {endpoint : Endpoint} : IsUsable endpoint ↔ endpoint.IsConcrete :=
  Endpoint.isConcrete_iff.symm

/-- A hello comes from another node, by its sender, and tells where that node can be reached. -/
structure Admits (e : Engine κ) (sender : Bytes) (endpoint : Endpoint) (peer : PeerId) : Prop where
  running : e.stopped = false
  sender : peer.bytes = sender
  other : peer ≠ e.self
  concrete : endpoint.IsConcrete

/-- The peer of a hello that is taken in is registered with just the endpoint that it gives. -/
theorem sighting_of_admits {e : Engine κ} {sender : Bytes} {address : String} {port : UInt16} {peer : PeerId}
    (h : e.Admits sender (.tcp address port) peer) (now : Nat) :
    ((e.onHello sender address port now).tracker? peer).map Tracker.sighting =
      some ⟨peer, .tcp address port, now⟩ := by
  rw [← h.sender, onHello_of_usable h.other (isUsable_iff_isConcrete.2 h.concrete)]
  exact ((sight_registry h.running .hello ⟨peer, .tcp address port, now⟩).1 peer).trans (if_pos rfl)

theorem sight_of_stopped {e : Engine κ} (h : e.stopped = true) (origin : Origin) (peer : PeerId) (endpoint : Endpoint)
    (now : Nat) : e.sight origin peer endpoint now = e := by
  rw [sight_eq, register_of_stopped h]

theorem onHello_of_not_admits {e : Engine κ} {sender : Bytes} {address : String} {port : UInt16}
    (h : ∀ peer, ¬e.Admits sender (.tcp address port) peer) (now : Nat) : e.onHello sender address port now = e := by
  unfold onHello
  split
  · rfl
  · next peer hpeer =>
    split
    · rfl
    · next hcheck =>
      obtain ⟨hother, husable⟩ := not_or.1 hcheck
      have hconcrete := isUsable_iff_isConcrete.1 (not_not.1 husable)
      refine sight_of_stopped ?_ ..
      by_contra hr
      exact h peer ⟨by simpa using hr, PeerId.ofBytes?_eq_some hpeer, hother, hconcrete⟩

theorem isConcrete_of_start {m m' : Mailbox} {free : Net.SocketAddr → Bool} {bound own : Endpoint}
    {addr : Net.SocketAddr} {e e' : Engine κ} {found : Option Net.IpAddr} {beacons : Except StartError Unit}
    (hopen : m.tryOpen free = (m', .ok (bound, addr))) (hstart : e.start bound found beacons = (e', .ok own)) :
    own.IsConcrete := by
  obtain ⟨-, hsocket, rfl, -⟩ := Mailbox.tryOpen_eq_ok hopen
  obtain ⟨-, hport, haddr⟩ := Mailbox.socket_eq_ok hsocket
  obtain rfl : own = advertised (m.requested.withPort addr.port) found := by
    cases beacons with
    | ok _ => exact (start_eq_ok hstart).1
    | error fault =>
      unfold start at hstart
      split at hstart <;> cases hstart
  unfold advertised
  split
  · exact ⟨⟨.v4 (ownIp found), addr.port⟩, Endpoint.socketAddr_tcp_text _ _, ownIp_ne_unspecified found, hport⟩
  · next hwild => exact Endpoint.isConcrete_iff.2 ⟨hport, hwild, addr, haddr⟩

theorem connections_closeAll (e : Engine κ) (limit : Nat) (trackers : List Tracker) :
    (e.closeAll limit trackers).connections = e.connections := by
  induction trackers generalizing e with
  | nil => rfl
  | cons t trackers ih => exact (ih (e.closeLink t.link limit)).trans (connections_closeLink e t.link limit)

theorem mem_connections_perform {e : Engine κ} {op : Operation κ} {c : PeerId × Endpoint}
    (h : c ∈ (e.perform op).connections) :
    c ∈ e.connections ∨ ∃ s, op.sighting? e.self = some s ∧ c = (s.peer, s.endpoint) := by
  by_cases hs : ∃ limit, op = .shutdown limit
  · obtain ⟨limit, rfl⟩ := hs
    have hsame : (e.perform (.shutdown limit)).connections = e.connections :=
      connections_closeAll { e with stopped := true, trackers := [] } limit e.trackers
    exact .inl (hsame ▸ h)
  · cases hop : op.sighting? e.self with
    | none =>
      rw [(sameRegistry_perform (fun limit hl => hs ⟨limit, hl⟩) hop).connections] at h
      exact .inl h
    | some s =>
      obtain ⟨origin, hsight⟩ := perform_of_sighting hop
      rw [hsight] at h
      cases hr : e.stopped with
      | true =>
        rw [sight_of_stopped hr] at h
        exact .inl h
      | false =>
        rw [(sight_registry hr origin s).2.1] at h
        rcases List.mem_append.1 h with h | h
        · exact .inl h
        · unfold newConnection at h
          split at h
          · cases h
          · exact .inr ⟨s, rfl, List.mem_singleton.1 h⟩

theorem self_perform (e : Engine κ) (op : Operation κ) : (e.perform op).self = e.self := by
  by_cases hs : ∃ limit, op = .shutdown limit
  · obtain ⟨limit, rfl⟩ := hs
    rw [perform, shutdown_eq]
  · cases hop : op.sighting? e.self with
    | none => exact (sameRegistry_perform (fun limit hl => hs ⟨limit, hl⟩) hop).self
    | some s =>
      obtain ⟨origin, hsight⟩ := perform_of_sighting hop
      rw [hsight, self_sight]

theorem mem_connections_after {e : Engine κ} {ops : List (Operation κ)} {c : PeerId × Endpoint}
    (h : c ∈ (e.after ops).connections) :
    c ∈ e.connections ∨ ∃ op ∈ ops, ∃ s, op.sighting? e.self = some s ∧ c = (s.peer, s.endpoint) := by
  induction ops generalizing e with
  | nil => exact .inl h
  | cons op ops ih =>
    rcases ih (e := e.perform op) h with h | ⟨op', hop', s, hs, hc⟩
    · rcases mem_connections_perform h with h | ⟨s, hs, hc⟩
      · exact .inl h
      · exact .inr ⟨op, List.mem_cons_self, s, hs, hc⟩
    · rw [self_perform] at hs
      exact .inr ⟨op', List.mem_cons_of_mem _ hop', s, hs, hc⟩

/-- The beacons of a run are beacons that were read. -/
def BeaconsRead (ops : List (Operation κ)) : Prop :=
  ∀ b now, Operation.beacon b now ∈ ops → ∃ bytes source, Beacon.decode bytes source = .ok b

/-- A link leads to where a beacon of its peer came from, or to the host that a hello of its peer gives, and in any case
to a socket with a port. -/
theorem socket_of_mem_links {self : PeerId} {closeLimit : Nat} {directory : Directory} {ops : List (Operation κ)}
    (hread : BeaconsRead ops) {l : Link} (h : l ∈ ((new self closeLimit directory).after ops).links) :
    ((∃ b now, .beacon b now ∈ ops ∧ l.peer = b.peer ∧ l.endpoint = b.endpoint) ∨
      ∃ now, .hello l.peer.bytes l.endpoint.address l.endpoint.port now ∈ ops ∧ l.endpoint.IsConcrete) ∧
    ∃ addr, l.endpoint.socketAddr = .ok addr ∧ addr.port ≠ 0 := by
  have hmem : (l.peer, l.endpoint) ∈ ((new self closeLimit directory).after ops).connections :=
    List.mem_map.2 ⟨l, h, rfl⟩
  obtain ⟨op, hop, s, hs, hc⟩ := (mem_connections_after hmem).resolve_left List.not_mem_nil
  obtain ⟨hpeer, hendpoint⟩ := Prod.mk.inj hc
  rw [hpeer, hendpoint]
  rcases (sighting_cases hs).2 with ⟨b, rfl, hb, he⟩ | ⟨address, port, rfl, he, husable⟩
  · obtain ⟨bytes, source, hdecode⟩ := hread b s.time hop
    obtain ⟨port, hport, hsource⟩ := Beacon.endpoint_of_decode hdecode
    refine ⟨.inl ⟨b, s.time, hop, hb, he⟩, ⟨source, port⟩, ?_, hport⟩
    rw [he, hsource]
    exact Endpoint.socketAddr_tcp_text source port
  · have hconcrete := isUsable_iff_isConcrete.1 husable
    have hgiven : .hello s.peer.bytes s.endpoint.address s.endpoint.port s.time ∈ ops := by
      rw [he]
      exact hop
    exact ⟨.inr ⟨s.time, hgiven, hconcrete⟩, hconcrete.imp fun addr h => ⟨h.1, h.2.2⟩⟩

/-- Whether an endpoint is a wildcard is just what its socket says, however the address is spelled: it is one if it has
a socket and that stands for no host. So a hello that is taken in registers its peer at the socket of a host, with a
port, and any other hello changes nothing; what a node that has been started on an open mailbox makes known of itself is
no wildcard; and all links lead to sockets, so that the courier of a link, whatever happens on the way, ends only after
it has been told to. -/
theorem connections_reach_hosts (κ : Type) :
    (∀ endpoint : Endpoint,
      (endpoint.IsWildcard ↔ ∃ addr, endpoint.socketAddr = .ok addr ∧ addr.ip.IsUnspecified) ∧
      ∀ addr, endpoint.socketAddr = .ok addr → (endpoint.IsWildcard ↔
        endpoint.address = Endpoint.anyAddress ∨ ∀ c ∈ endpoint.address.toList, Net.IsIdle c)) ∧
    (∀ (e : Engine κ) sender address port now,
      (∀ peer, e.Admits sender (.tcp address port) peer →
        ((e.onHello sender address port now).tracker? peer).map Tracker.sighting =
          some ⟨peer, .tcp address port, now⟩) ∧
      ((∀ peer, ¬e.Admits sender (.tcp address port) peer) → e.onHello sender address port now = e)) ∧
    (∀ (m m' : Mailbox) free bound addr (e e' : Engine κ) found beacons own,
      m.tryOpen free = (m', .ok (bound, addr)) → e.start bound found beacons = (e', .ok own) →
        own.IsConcrete ∧ ¬own.IsWildcard) ∧
    ∀ self closeLimit directory (ops : List (Operation κ)), BeaconsRead ops →
      ∀ l ∈ ((new self closeLimit directory).after ops).links,
        ((∃ b now, .beacon b now ∈ ops ∧ l.peer = b.peer ∧ l.endpoint = b.endpoint) ∨
          ∃ now, .hello l.peer.bytes l.endpoint.address l.endpoint.port now ∈ ops ∧ l.endpoint.IsConcrete) ∧
        (∃ addr, l.endpoint.socketAddr = .ok addr ∧ addr.port ≠ 0) ∧
        ∀ network ms, let courier := ((Errand.new self l.peer l.endpoint network).after ms).courier
          (∃ addr, courier.endpoint.socketAddr = .ok addr) ∧
          (courier.IsDone → ∃ limit, Errand.Move.close limit ∈ ms) := by
  refine ⟨fun endpoint => ⟨Endpoint.isWildcard_iff, fun addr h => Endpoint.isWildcard_iff_idle h⟩,
    fun e sender address port now => ⟨fun peer h => sighting_of_admits h now, fun h => onHello_of_not_admits h now⟩,
    fun m m' free bound addr e e' found beacons own hopen hstart => ?_,
    fun self closeLimit directory ops hread l hl => ?_⟩
  · have hconcrete := isConcrete_of_start hopen hstart
    exact ⟨hconcrete, hconcrete.not_isWildcard⟩
  · obtain ⟨horigin, addr, haddr, hport⟩ := socket_of_mem_links hread hl
    refine ⟨horigin, ⟨addr, haddr, hport⟩, fun network ms => ?_⟩
    have horderly : ((Errand.new self l.peer l.endpoint network).after ms).Orderly ms :=
      Errand.orderly_after haddr network ms
    exact ⟨horderly.socket, fun hdone => horderly.closed (horderly.ends hdone)⟩

end Engine
end Discovery
end PeerDiscovery
