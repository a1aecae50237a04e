import PeerDiscovery.Mailbox.Service
import PeerDiscovery.Proofs.Endpoint
import PeerDiscovery.Proofs.Net

/-! Opening a mailbox.
`socket_cases` says which socket is bound, or why none is, and `tryOpen_cases` what that makes of the mailbox. -/
namespace PeerDiscovery
namespace Mailbox

variable {free : Net.SocketAddr → Bool} {requested : Endpoint} {addr : Net.SocketAddr}

theorem ne_zero_of_mem_dynamicPorts {port : UInt16} (h : port ∈ dynamicPorts) : port ≠ 0 := by
  obtain ⟨n, hn, rfl⟩ := List.mem_map.1 h
  obtain ⟨hmin, hmax⟩ := List.mem_range'_1.1 hn
  have hport : (UInt16.ofNat n).toNat = n := by
    rw [UInt16.toNat_ofNat', Nat.mod_eq_of_lt]
    exact Nat.lt_of_lt_of_le hmax (by decide)
  intro hzero
  rw [hzero] at hport
  exact absurd (hport ▸ hmin) (by decide)

/-- The sockets that can be bound for an address: its own, or one for each dynamic port where it names none. -/
def candidates (addr : Net.SocketAddr) : List Net.SocketAddr :=
  if addr.port = 0 then dynamicPorts.map fun port => { addr with port } else [addr]

/-- The error of a mailbox none of whose sockets can be bound. -/
def occupied (addr : Net.SocketAddr) : Error :=
  if addr.port = 0 then .noFreePort else .bind addr "address not available"

theorem of_mem_candidates {bound : Net.SocketAddr} (h : bound ∈ candidates addr) :
    bound = { addr with port := bound.port } ∧ bound.port ≠ 0 ∧ (addr.port ≠ 0 → bound = addr) := by
  unfold candidates at h
  split at h
  · next hzero =>
    obtain ⟨port, hp, rfl⟩ := List.mem_map.1 h
    exact ⟨rfl, ne_zero_of_mem_dynamicPorts hp, fun hne => absurd hzero hne⟩
  · next hne =>
    obtain rfl := List.mem_singleton.1 h
    exact ⟨rfl, hne, fun _ => rfl⟩

/-- A mailbox has an address of which no socket could ever be bound, or none of its sockets is free, or it gets the
first one that is. -/
theorem socket_cases (free : Net.SocketAddr → Bool) (requested : Endpoint) :
    (∃ e, requested.socketAddr = .error e ∧ socket free requested = .error (.endpoint e)) ∨
    ∃ addr, requested.socketAddr = .ok addr ∧
      (((candidates addr).find? free = none ∧ socket free requested = .error (occupied addr)) ∨
        ∃ bound, (candidates addr).find? free = some bound ∧ socket free requested = .ok bound) := by
  unfold socket
  cases hr : requested.socketAddr with
  | error e => exact .inl ⟨e, rfl, rfl⟩
  | ok addr =>
    refine .inr ⟨addr, rfl, ?_⟩
    by_cases hp : addr.port = 0
    · simp only [candidates, occupied, if_pos hp, List.find?_map, Function.comp_def]
      cases dynamicPorts.find? fun port => free { addr with port } with
      | none => exact .inl ⟨rfl, rfl⟩
      | some port => exact .inr ⟨_, rfl, rfl⟩
    · simp only [candidates, occupied, if_neg hp, List.find?_singleton]
      by_cases hf : free addr = true
      · exact .inr ⟨addr, if_pos hf, if_pos hf⟩
      · exact .inl ⟨if_neg hf, if_neg hf⟩

/-- The socket that is bound is the requested one, but that it always has a port. -/
theorem socket_eq_ok (h : socket free requested = .ok addr) :
    free addr = true ∧ addr.port ≠ 0 ∧ (requested.withPort addr.port).socketAddr = .ok addr := by
  rcases socket_cases free requested with ⟨e, -, he⟩ | ⟨own, hown, ⟨-, he⟩ | ⟨bound, hfind, he⟩⟩
  · cases he.symm.trans h
  · cases he.symm.trans h
  · cases he.symm.trans h
    obtain ⟨heq, hport, -⟩ := of_mem_candidates (List.mem_of_find?_eq_some hfind)
    refine ⟨List.find?_some hfind, hport, ?_⟩
    rw [Endpoint.socketAddr_withPort hown, ← heq]

/-- There is a socket to bind if one that can be bound for the address is free. -/
theorem socket_isOk_iff : (∃ bound, socket free requested = .ok bound) ↔
    ∃ addr, requested.socketAddr = .ok addr ∧ ∃ bound ∈ candidates addr, free bound = true := by
  rcases socket_cases free requested with ⟨e, haddr, he⟩ | ⟨addr, haddr, ⟨hnone, he⟩ | ⟨bound, hfind, he⟩⟩
  · rw [he, haddr]
    simp
  · rw [he, haddr]
    simpa using List.find?_eq_none.1 hnone
  · rw [he, haddr]
    simpa using ⟨bound, List.mem_of_find?_eq_some hfind, List.find?_some hfind⟩

/-- A mailbox that has just been opened at a socket. -/
def openedAt (m : Mailbox) (addr : Net.SocketAddr) : Mailbox :=
  { m with state := .open, bound := some (m.requested.withPort addr.port), hub := {} }

/-- An open mailbox, or one for which no socket is found, stays as it is. -/
theorem tryOpen_cases (m : Mailbox) (free : Net.SocketAddr → Bool) :
    (m.state ≠ .closed ∧ m.tryOpen free = (m, .error .alreadyOpen)) ∨
    (m.state = .closed ∧ ∃ e, socket free m.requested = .error e ∧ m.tryOpen free = (m, .error e)) ∨
    (m.state = .closed ∧ ∃ addr, socket free m.requested = .ok addr ∧
      m.tryOpen free = (m.openedAt addr, .ok (m.requested.withPort addr.port, addr))) := by
  unfold tryOpen
  by_cases hs : m.state = .closed
  · rw [if_pos hs]
    cases hsocket : socket free m.requested with
    | error e => exact .inr (.inl ⟨hs, e, rfl, rfl⟩)
    | ok addr => exact .inr (.inr ⟨hs, addr, rfl, rfl⟩)
  · rw [if_neg hs]
    exact .inl ⟨hs, rfl⟩

theorem tryOpen_eq_ok {m m' : Mailbox} {bound : Endpoint} (h : m.tryOpen free = (m', .ok (bound, addr))) :
    m.state = .closed ∧ socket free m.requested = .ok addr ∧ bound = m.requested.withPort addr.port ∧
      m' = { m with state := .open, bound := some bound, hub := {} } := by
  rcases m.tryOpen_cases free with ⟨-, ho⟩ | ⟨-, e, -, ho⟩ | ⟨hs, addr', hsocket, ho⟩
  · cases ho.symm.trans h
  · cases ho.symm.trans h
  · cases ho.symm.trans h
    exact ⟨hs, hsocket, rfl, rfl⟩

variable {net : Net.Network}

theorem openOn_cases (net : Net.Network) (m : Mailbox) :
    (∃ e, m.openOn net = (net, m, .error e) ∧ (e ≠ .alreadyOpen → m.state = .closed)) ∨
    ∃ addr, m.openOn net = (net.bind (m.site addr), m.openedAt addr, .ok (m.requested.withPort addr.port)) ∧
      m.state = .closed ∧ net.CanBind (m.site addr) ∧ (m.requested.withPort addr.port).socketAddr = .ok addr := by
  unfold openOn
  rcases m.tryOpen_cases fun addr => net.CanBind (m.site addr) with ⟨-, h⟩ | ⟨hs, e, -, h⟩ | ⟨hs, addr, hsocket, h⟩
  · rw [h]
    exact .inl ⟨_, rfl, fun hne => absurd rfl hne⟩
  · rw [h]
    exact .inl ⟨e, rfl, fun _ => hs⟩
  · rw [h]
    obtain ⟨hfree, -, haddr⟩ := socket_eq_ok hsocket
    exact .inr ⟨addr, rfl, hs, by simpa using hfree, haddr⟩

/-- To close a mailbox at once is to leave the network as it was. -/
theorem closeOn_openedAt {m : Mailbox} {addr : Net.SocketAddr} (hfree : net.CanBind (m.site addr))
    (haddr : (m.requested.withPort addr.port).socketAddr = .ok addr) :
    (m.openedAt addr).closeOn (net.bind (m.site addr)) = (net, { m.openedAt addr with state := .closed }) := by
  have hlistens : (m.openedAt addr).listening? = some addr := congrArg Except.toOption haddr
  rw [closeOn, hlistens]
  exact Prod.ext (Net.Network.unbind_bind hfree) rfl

end Mailbox
end PeerDiscovery
