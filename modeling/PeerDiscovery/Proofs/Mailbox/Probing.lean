import PeerDiscovery.Proofs.Mailbox.Opening

/-! Which port a mailbox gets.
The sockets for an address are tried one after the other until one can be bound (`probe`, `probe_candidates`). A mailbox
without a port gets the lowest dynamic port that is free, up to the last one, and a mailbox with a port gets that one or
none: `opens_at_first_free`. -/
namespace PeerDiscovery
namespace Mailbox

/-- Tries to bind sockets one after the other. The first part are those that were tried, the second one is the one that was
bound. -/
def probe (free : Net.SocketAddr → Bool) : List Net.SocketAddr → List Net.SocketAddr × Option Net.SocketAddr
  | [] => ([], none)
  | addr :: rest =>
    if free addr then ([addr], some addr)
    else
      let (tried, bound) := probe free rest
      (addr :: tried, bound)

theorem probe_snd (free : Net.SocketAddr → Bool) (addrs : List Net.SocketAddr) :
    (probe free addrs).2 = addrs.find? free := by
  induction addrs with
  | nil => rfl
  | cons addr rest ih =>
    rw [probe]
    split
    · next hf => rw [List.find?_cons_of_pos hf]
    · next hf => rw [List.find?_cons_of_neg hf, ← ih]

theorem mem_of_mem_probe {free : Net.SocketAddr → Bool} {addrs : List Net.SocketAddr} {addr : Net.SocketAddr}
    (h : addr ∈ (probe free addrs).1) : addr ∈ addrs := by
  induction addrs with
  | nil => exact h
  | cons a rest ih =>
    rw [probe] at h
    split at h
    · exact List.mem_singleton.1 h ▸ List.mem_cons_self
    · exact (List.mem_cons.1 h).elim (· ▸ List.mem_cons_self) fun hm => List.mem_cons_of_mem a (ih hm)

/-- The socket for a mailbox is the one that is bound when those for its address are tried. -/
theorem probe_candidates {free : Net.SocketAddr → Bool} {requested : Endpoint} {own : Net.SocketAddr}
    (h : requested.socketAddr = .ok own) :
    (probe free (candidates own)).2 = (socket free requested).toOption := by
  rw [probe_snd]
  rcases socket_cases free requested with ⟨e, he, -⟩ | ⟨addr, haddr, ⟨hnone, hs⟩ | ⟨bound, hfind, hs⟩⟩
  · cases h.symm.trans he
  · obtain rfl := Except.ok.inj (h.symm.trans haddr)
    rw [hs, hnone]
    rfl
  · obtain rfl := Except.ok.inj (h.symm.trans haddr)
    rw [hs, hfind]
    rfl

/-- A dynamic port. -/
def InRange (port : UInt16) : Prop := minDynamicPort ≤ port.toNat ∧ port.toNat ≤ maxDynamicPort

instance (port : UInt16) : Decidable (InRange port) := inferInstanceAs (Decidable (_ ∧ _))

/-- The lowest dynamic port that is free at an address. -/
structure IsFirstFree (free : Net.SocketAddr → Bool) (ip : Net.IpAddr) (port : UInt16) : Prop where
  inRange : InRange port
  isFree : free ⟨ip, port⟩ = true
  first : ∀ p, InRange p → p.toNat < port.toNat → free ⟨ip, p⟩ = false

theorem toNat_ofNat_of_le {n : Nat} (h : n ≤ maxDynamicPort) : (UInt16.ofNat n).toNat = n := by
  rw [UInt16.toNat_ofNat', Nat.mod_eq_of_lt]
  exact Nat.lt_succ_of_le h

theorem mem_dynamicPorts_iff {port : UInt16} : port ∈ dynamicPorts ↔ InRange port := by
  rw [dynamicPorts, List.mem_map]
  constructor
  · rintro ⟨n, hn, rfl⟩
    obtain ⟨hmin, hlt⟩ := List.mem_range'_1.1 hn
    have hmax : n ≤ maxDynamicPort := Nat.le_of_lt_succ hlt
    rw [InRange, toNat_ofNat_of_le hmax]
    exact ⟨hmin, hmax⟩
  · rintro ⟨hmin, hmax⟩
    exact ⟨port.toNat, List.mem_range'_1.2 ⟨hmin, Nat.lt_succ_of_le hmax⟩, UInt16.ofNat_toNat⟩

theorem find?_dynamicPorts_eq_some_iff {free : Net.SocketAddr → Bool} {ip : Net.IpAddr} {port : UInt16} :
    (dynamicPorts.find? fun p => free ⟨ip, p⟩) = some port ↔ IsFirstFree free ip port := by
  rw [dynamicPorts, List.find?_map, Option.map_eq_some_iff]
  constructor
  · rintro ⟨n, hn, rfl⟩
    obtain ⟨hfree, hmem, hfirst⟩ := List.find?_range'_eq_some.1 hn
    obtain ⟨hmin, hlt⟩ := List.mem_range'_1.1 hmem
    have hmax : n ≤ maxDynamicPort := Nat.le_of_lt_succ hlt
    refine ⟨⟨?_, ?_⟩, hfree, fun p hp hlt => ?_⟩
    · rwa [toNat_ofNat_of_le hmax]
    · rwa [toNat_ofNat_of_le hmax]
    · rw [toNat_ofNat_of_le hmax] at hlt
      simpa using hfirst p.toNat hp.1 hlt
  · intro h
    refine ⟨port.toNat, List.find?_range'_eq_some.2 ⟨?_, ?_, fun n hn hlt => ?_⟩, UInt16.ofNat_toNat⟩
    · simpa using h.isFree
    · exact List.mem_range'_1.2 ⟨h.inRange.1, Nat.lt_succ_of_le h.inRange.2⟩
    · have hmax : n ≤ maxDynamicPort := Nat.le_trans (Nat.le_of_lt hlt) h.inRange.2
      have hp := h.first (UInt16.ofNat n)
      rw [InRange, toNat_ofNat_of_le hmax] at hp
      simpa using hp ⟨hn, hmax⟩ hlt

theorem inRange_of_mem_candidates {own addr : Net.SocketAddr} (h : addr ∈ candidates own) :
    addr.ip = own.ip ∧ (own.port = 0 → InRange addr.port) ∧ (own.port ≠ 0 → addr = own) := by
  obtain ⟨heq, -, hown⟩ := of_mem_candidates h
  refine ⟨by rw [heq], fun hp => ?_, hown⟩
  rw [candidates, if_pos hp] at h
  obtain ⟨port, hport, rfl⟩ := List.mem_map.1 h
  exact mem_dynamicPorts_iff.1 hport

/-- What opening a mailbox with the address `own` comes to: the socket that is bound, and the endpoint that is reported, or
why there is none. -/
inductive Outcome (free : Net.SocketAddr → Bool) (requested : Endpoint) (own : Net.SocketAddr) :
    Except Error (Endpoint × Net.SocketAddr) → Prop where
  /-- The lowest dynamic port that is free. -/
  | first {port : UInt16} (hzero : own.port = 0) (h : IsFirstFree free own.ip port) :
      Outcome free requested own (.ok (⟨requested.transport, requested.address, port⟩, ⟨own.ip, port⟩))
  /-- All dynamic ports are taken. -/
  | exhausted (hzero : own.port = 0) (h : ∀ port, InRange port → free ⟨own.ip, port⟩ = false) :
      Outcome free requested own (.error .noFreePort)
  /-- The port that was asked for. -/
  | own (hne : own.port ≠ 0) (h : free own = true) : Outcome free requested own (.ok (requested, own))
  /-- That port is taken. -/
  | taken (hne : own.port ≠ 0) (h : free own = false) (reason : String) :
      Outcome free requested own (.error (.bind own reason))

variable {free : Net.SocketAddr → Bool} {own : Net.SocketAddr} {m : Mailbox}

theorem outcome_tryOpen (hs : m.state = .closed) (ho : m.requested.socketAddr = .ok own) :
    Outcome free m.requested own (m.tryOpen free).2 := by
  have hport : own.port = m.requested.port := Endpoint.port_of_socketAddr ho
  by_cases hzero : own.port = 0
  · simp only [tryOpen, if_pos hs, socket, ho, if_pos hzero]
    cases hfind : dynamicPorts.find? fun port => free { own with port } with
    | some port => exact .first hzero (find?_dynamicPorts_eq_some_iff.1 hfind)
    | none =>
      refine .exhausted hzero fun port hp => ?_
      simpa using List.find?_eq_none.1 hfind port (mem_dynamicPorts_iff.2 hp)
  · simp only [tryOpen, if_pos hs, socket, ho, if_neg hzero]
    cases hf : free own with
    | true =>
      rw [if_pos rfl]
      have hsame : m.requested.withPort own.port = m.requested := by rw [hport]; rfl
      simp only [hsame]
      exact .own hzero hf
    | false => exact .taken hzero hf _

theorem Outcome.eq_noFreePort_iff {requested : Endpoint} {r : Except Error (Endpoint × Net.SocketAddr)}
    (h : Outcome free requested own r) :
    r = .error .noFreePort ↔ own.port = 0 ∧ ∀ port, InRange port → free ⟨own.ip, port⟩ = false := by
  cases h with
  | first hzero h =>
    refine ⟨nofun, fun hnone => ?_⟩
    have hfree := h.isFree
    rw [hnone.2 _ h.inRange] at hfree
    cases hfree
  | exhausted hzero h => exact ⟨fun _ => ⟨hzero, h⟩, fun _ => rfl⟩
  | own hne h => exact ⟨nofun, fun hnone => absurd hnone.1 hne⟩
  | taken hne h reason => exact ⟨nofun, fun hnone => absurd hnone.1 hne⟩

/-- On a network the socket that is found is bound, and where none is found nothing changes. -/
theorem openOn_eq (hs : m.state = .closed) (net : Net.Network) :
    (∃ e addr, (m.tryOpen fun a => net.CanBind (m.site a)).2 = .ok (e, addr) ∧ (m.openedAt addr).bound = some e ∧
      (m.openedAt addr).listening? = some addr ∧ m.openOn net = (net.bind (m.site addr), m.openedAt addr, .ok e)) ∨
    ∃ error, (m.tryOpen fun a => net.CanBind (m.site a)).2 = .error error ∧ m.openOn net = (net, m, .error error) := by
  unfold openOn
  rcases m.tryOpen_cases fun a => net.CanBind (m.site a) with ⟨hne, -⟩ | ⟨-, e, -, h⟩ | ⟨-, addr, hsocket, h⟩
  · exact absurd hs hne
  · rw [h]
    exact .inr ⟨e, rfl, rfl⟩
  · rw [h]
    exact .inl ⟨_, addr, rfl, rfl, congrArg Except.toOption (socket_eq_ok hsocket).2.2, rfl⟩

/-- Whatever sockets are free, a closed mailbox with a usable address that asks for port 0 gets the lowest dynamic port that
is free there, and one that asks for another port gets that port. It reports the transport and the address that it was
given, with the port it got. It fails for want of a dynamic port if and only if there is none, and otherwise names the
socket that is taken. No socket is tried but those of dynamic ports, or the one that was asked for. On a network the socket
that was found is bound and the mailbox listens there; after a failure no socket is bound, and the mailbox is closed as
before. -/
theorem opens_at_first_free (hs : m.state = .closed) (ho : m.requested.socketAddr = .ok own) :
    (∀ free, Outcome free m.requested own (m.tryOpen free).2 ∧
      ((m.tryOpen free).2 = .error .noFreePort ↔
        own.port = 0 ∧ ∀ port, InRange port → free ⟨own.ip, port⟩ = false) ∧
      (probe free (candidates own)).2 = (socket free m.requested).toOption ∧
      ∀ addr ∈ (probe free (candidates own)).1,
        addr.ip = own.ip ∧ (own.port = 0 → InRange addr.port) ∧ (own.port ≠ 0 → addr = own)) ∧
    ∀ net : Net.Network,
      (∃ e addr, (m.tryOpen fun a => net.CanBind (m.site a)).2 = .ok (e, addr) ∧ (m.openedAt addr).bound = some e ∧
        (m.openedAt addr).listening? = some addr ∧ m.openOn net = (net.bind (m.site addr), m.openedAt addr, .ok e)) ∨
      ∃ error, (m.tryOpen fun a => net.CanBind (m.site a)).2 = .error error ∧ m.openOn net = (net, m, .error error) := by
  refine ⟨fun free => ?_, openOn_eq hs⟩
  have houtcome : Outcome free m.requested own (m.tryOpen free).2 := outcome_tryOpen hs ho
  exact ⟨houtcome, houtcome.eq_noFreePort_iff, probe_candidates ho,
    fun addr hm => inRange_of_mem_candidates (mem_of_mem_probe hm)⟩

/-- Every dynamic port but the last one is taken, on every local address. -/
theorem opens_at_last_port :
    let m : Mailbox := { requested := .tcp "*" 0 }
    let free : Net.SocketAddr → Bool := fun addr => addr.port = 65535
    (m.state = .closed ∧ m.requested.socketAddr = .ok ⟨.v4 .unspecified, 0⟩) ∧
      (m.tryOpen free).2 = .ok (.tcp "*" 65535, ⟨.v4 .unspecified, 65535⟩) := by
  intro m free
  have ho : m.requested.socketAddr = .ok ⟨.v4 .unspecified, 0⟩ := rfl
  refine ⟨⟨rfl, ho⟩, ?_⟩
  have houtcome := ((opens_at_first_free rfl ho).1 free).1
  generalize (m.tryOpen free).2 = r at houtcome ⊢
  cases houtcome with
  | first _ h =>
    obtain rfl := of_decide_eq_true h.isFree
    rfl
  | exhausted _ h => exact absurd (h 65535 (by decide)) (by decide)
  | own hne => exact absurd rfl hne
  | taken hne => exact absurd rfl hne

end Mailbox
end PeerDiscovery
