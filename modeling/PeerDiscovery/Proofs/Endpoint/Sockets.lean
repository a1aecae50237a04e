import PeerDiscovery.Proofs.Beacon.Decoding
import PeerDiscovery.Proofs.Directory
import PeerDiscovery.Proofs.Discovery.Sections
import PeerDiscovery.Proofs.Net.Canonical

/-! The endpoints of sockets: `Endpoint.socket_round_trip`.
A socket can be got back from its endpoint, and the endpoint from its text, so different sockets stay apart wherever
endpoints or their texts are compared. -/
namespace PeerDiscovery
namespace Endpoint

open Discovery (Engine Origin Tracker)

theorem plain_text (ip : Net.IpAddr) : Plain ip.text := plain_of_parse? ip.parse?_text

theorem socketAddr_ofSocketAddr (addr : Net.SocketAddr) : (ofSocketAddr addr).socketAddr = .ok addr :=
  socketAddr_tcp_text addr.ip addr.port

theorem parse_text_ofSocketAddr (addr : Net.SocketAddr) : parse (ofSocketAddr addr).text = .ok (ofSocketAddr addr) :=
  parse_text (plain_text addr.ip)

theorem ofSocketAddr_injective {addr other : Net.SocketAddr} (h : ofSocketAddr other = ofSocketAddr addr) :
    other = addr := by
  have hback := socketAddr_ofSocketAddr other
  rw [h, socketAddr_ofSocketAddr] at hback
  exact (Except.ok.inj hback).symm

theorem ofSocketAddr_inj {addr other : Net.SocketAddr} : ofSocketAddr other = ofSocketAddr addr ↔ other = addr :=
  ⟨ofSocketAddr_injective, fun h => h ▸ rfl⟩

theorem text_ofSocketAddr_inj {addr other : Net.SocketAddr} :
    (ofSocketAddr other).text = (ofSocketAddr addr).text ↔ other = addr :=
  ⟨fun h => ofSocketAddr_injective (text_injective h), fun h => h ▸ rfl⟩

theorem eq_ofSocketAddr_of_beacon {bytes : Bytes} {source : Net.IpAddr} {b : Beacon}
    (h : Beacon.decode bytes source = .ok b) : b.endpoint = ofSocketAddr ⟨source, b.endpoint.port⟩ := by
  obtain ⟨port, -, he⟩ := Beacon.endpoint_of_decode h
  rw [he]
  rfl

theorem get?_add_ofSocketAddr (d : Directory) (addr other : Net.SocketAddr) (facts : FactSet) :
    (d.add (ofSocketAddr other) facts).get? (ofSocketAddr addr) =
      if other = addr then some facts else d.get? (ofSocketAddr addr) := by
  rw [Directory.get?_add]
  simp only [ofSocketAddr_inj, eq_comm]

theorem register_ofSocketAddr {κ : Type} {e : Engine κ} {peer : PeerId} {t : Tracker} {addr : Net.SocketAddr}
    (hs : e.stopped = false) (hp : e.tracker? peer = some t) (ht : t.endpoint = ofSocketAddr addr)
    (other : Net.SocketAddr) (origin : Origin) (now : Nat) :
    (e.register origin peer (ofSocketAddr other) now).2 = if other = addr then none else some t.link := by
  split
  · next h =>
    rw [h, ← ht, Engine.register_of_same hs hp]
  · next h =>
    have hne : t.endpoint ≠ ofSocketAddr other := fun he => h (ofSocketAddr_injective (he.symm.trans ht))
    rw [Engine.register_of_moved hs hp hne]

/-- The endpoint of a socket leads back to it, and so does the text of the endpoint, in which the address has the one
canonical form. No other socket has the same endpoint or the same text; so the directory keeps apart what is noted of
two sockets, and the registry sees that a peer whose beacons come from another one has moved. -/
theorem socket_round_trip (addr : Net.SocketAddr) :
    (∀ text, addr.ip.IsText text ↔ text = (ofSocketAddr addr).address) ∧
    (ofSocketAddr addr).socketAddr = .ok addr ∧
    (∃ e, parse (ofSocketAddr addr).text = .ok e ∧ e = ofSocketAddr addr ∧ e.socketAddr = .ok addr) ∧
    (∀ bytes b, Beacon.decode bytes addr.ip = .ok b → b.endpoint.port = addr.port → b.endpoint = ofSocketAddr addr) ∧
    ∀ other : Net.SocketAddr,
      (ofSocketAddr other = ofSocketAddr addr ↔ other = addr) ∧
      ((ofSocketAddr other).text = (ofSocketAddr addr).text ↔ other = addr) ∧
      (∀ (d : Directory) facts, (d.add (ofSocketAddr other) facts).get? (ofSocketAddr addr) =
        if other = addr then some facts else d.get? (ofSocketAddr addr)) ∧
      ∀ {κ : Type} (e : Engine κ) origin peer t now, e.stopped = false → e.tracker? peer = some t →
        t.endpoint = ofSocketAddr addr →
        (e.register origin peer (ofSocketAddr other) now).2 = if other = addr then none else some t.link := by
  refine ⟨fun text => Net.IpAddr.isText_iff, socketAddr_ofSocketAddr addr,
    ⟨_, parse_text_ofSocketAddr addr, rfl, socketAddr_ofSocketAddr addr⟩, fun bytes b hb hport => ?_, fun other => ?_⟩
  · have he := eq_ofSocketAddr_of_beacon hb
    rwa [hport] at he
  · exact ⟨ofSocketAddr_inj, text_ofSocketAddr_inj, fun d facts => get?_add_ofSocketAddr d addr other facts,
      fun e origin peer t now hs hp ht => register_ofSocketAddr hs hp ht other origin now⟩

end Endpoint
end PeerDiscovery
