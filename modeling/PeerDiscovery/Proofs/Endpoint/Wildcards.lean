import PeerDiscovery.Proofs.Endpoint
import PeerDiscovery.Proofs.Net.Zeros

/-! Wildcards and hosts.
The address of an endpoint is read twice, once to see whether it is a wildcard and once for the socket. Both readings
come to the same: `isWildcard_iff`. -/
namespace PeerDiscovery
namespace Endpoint

/-- The endpoint has a socket to which others can connect, at an address that stands for a host. -/
def IsConcrete (e : Endpoint) : Prop := ∃ addr, e.socketAddr = .ok addr ∧ ¬addr.ip.IsUnspecified ∧ addr.port ≠ 0

theorem socketAddr_eq_ok_iff {e : Endpoint} {addr : Net.SocketAddr} :
    e.socketAddr = .ok addr ↔ ip? e.address = some addr.ip ∧ addr.port = e.port := by
  obtain ⟨ip, port⟩ := addr
  unfold socketAddr
  cases ip? e.address with
  | none => simp
  | some ip' => simp [eq_comm]

theorem ip?_anyAddress : ip? anyAddress = some (.v4 .unspecified) := rfl

theorem ip?_of_ne {address : String} (h : address ≠ anyAddress) : ip? address = Net.IpAddr.parse? address := if_neg h

/-- An endpoint is a wildcard if its socket is at no host in particular. -/
theorem isWildcard_iff {e : Endpoint} : e.IsWildcard ↔ ∃ addr, e.socketAddr = .ok addr ∧ addr.ip.IsUnspecified := by
  have hsocket : (∃ addr, e.socketAddr = .ok addr ∧ addr.ip.IsUnspecified) ↔
      ∃ ip, ip? e.address = some ip ∧ ip.IsUnspecified := by
    constructor
    · rintro ⟨addr, haddr, hip⟩
      exact ⟨addr.ip, (socketAddr_eq_ok_iff.1 haddr).1, hip⟩
    · rintro ⟨ip, hread, hip⟩
      exact ⟨⟨ip, e.port⟩, socketAddr_eq_ok_iff.2 ⟨hread, rfl⟩, hip⟩
  rw [hsocket, IsWildcard]
  by_cases h : e.address = anyAddress
  · rw [h, ip?_anyAddress]
    exact iff_of_true (.inl rfl) ⟨_, rfl, rfl⟩
  · rw [ip?_of_ne h, or_iff_right h]
    rfl

/-- The address of a socket shows whether it is a wildcard: a star, or nothing but zeros and marks. -/
theorem isWildcard_iff_idle {e : Endpoint} {addr : Net.SocketAddr} (h : e.socketAddr = .ok addr) :
    e.IsWildcard ↔ e.address = anyAddress ∨ ∀ c ∈ e.address.toList, Net.IsIdle c := by
  by_cases ha : e.address = anyAddress
  · exact iff_of_true (.inl ha) (.inl ha)
  · have hread := (socketAddr_eq_ok_iff.1 h).1
    rw [ip?_of_ne ha] at hread
    rw [IsWildcard, or_iff_right ha, or_iff_right ha, ← Net.IpAddr.isUnspecified_iff_idle hread, hread]
    simp

/-- Zeros in any spelling of an address, and zeros that are none. -/
example : (tcp "0:0::0.0.0.0" 5).IsWildcard ∧ ¬(tcp "::0.0.0.1" 5).IsWildcard ∧ ¬(tcp "00.0.0.0" 5).IsWildcard := by
  decide +kernel

/-- An endpoint that is no wildcard and has a socket with a port is one of a host. -/
theorem isConcrete_iff {e : Endpoint} :
    e.IsConcrete ↔ e.port ≠ 0 ∧ ¬e.IsWildcard ∧ ∃ addr, e.socketAddr = .ok addr := by
  rw [isWildcard_iff]
  constructor
  · rintro ⟨addr, haddr, hip, hport⟩
    refine ⟨port_of_socketAddr haddr ▸ hport, ?_, addr, haddr⟩
    rintro ⟨addr', haddr', hip'⟩
    obtain rfl := Except.ok.inj (haddr.symm.trans haddr')
    exact hip hip'
  · rintro ⟨hport, hwild, addr, haddr⟩
    exact ⟨addr, haddr, fun hip => hwild ⟨addr, haddr, hip⟩, port_of_socketAddr haddr ▸ hport⟩

theorem IsConcrete.not_isWildcard {e : Endpoint} (h : e.IsConcrete) : ¬e.IsWildcard := (isConcrete_iff.1 h).2.1

end Endpoint
end PeerDiscovery
