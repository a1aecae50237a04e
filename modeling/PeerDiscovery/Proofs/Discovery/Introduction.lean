import PeerDiscovery.Proofs.Discovery.Exchange
import PeerDiscovery.Proofs.Discovery.Registry
import PeerDiscovery.Proofs.Mailbox.Arrivals
import PeerDiscovery.Proofs.Mailbox.Opening
import PeerDiscovery.Proofs.Net.Literals
import PeerDiscovery.Proofs.Wire.Lengths

/-! What a node gives as its endpoint its peers accept: `introduction_accepted`.
The rule for the endpoint and the check of a hello are apart from each other; they meet at `Engine.IsUsable`, which
every endpoint that is given has (`isUsable_advertised`) and every hello that is taken in needs. -/
namespace PeerDiscovery

open Mailbox (Connection Notice)

namespace Discovery
namespace Engine

variable {κ : Type}

theorem ownIp_ne_unspecified (found : Option Net.IpAddr) : ownIp found ≠ .unspecified := by
  unfold ownIp
  split
  · next ip =>
    split
    · decide
    · next h => exact fun hip => h (.inr hip)
  · decide

/-- A wildcard is replaced by an address that others can use, and every other address stays. -/
theorem isUsable_advertised {bound : Endpoint} {addr : Net.SocketAddr} (ht : bound.transport = .tcp)
    (hp : bound.port ≠ 0) (hs : bound.socketAddr = .ok addr) (found : Option Net.IpAddr) :
    ∃ address, advertised bound found = .tcp address bound.port ∧ IsUsable (.tcp address bound.port) := by
  obtain ⟨transport, address, port⟩ := bound
  obtain rfl := ht
  unfold advertised
  split
  · refine ⟨(Net.IpAddr.v4 (ownIp found)).text, rfl, (isUsable_tcp_iff _ _).2 ⟨hp, _, Net.IpAddr.parse?_text_v4 _, ?_⟩⟩
    exact ownIp_ne_unspecified found
  · next hw => exact ⟨address, rfl, hp, hw, addr, hs⟩

/-- An engine that was started for a mailbox on TCP, and has not stopped since. Which sockets were free, what a look
at the outgoing interface found, and what has happened since is left open. -/
def RunsAt (e : Engine κ) (own : Endpoint) : Prop :=
  ∃ (m m' : Mailbox) (free : Net.SocketAddr → Bool) (bound : Endpoint) (addr : Net.SocketAddr)
    (e₀ e₁ : Engine κ) (found : Option Net.IpAddr) (ops : List (Operation κ)),
    m.requested.transport = .tcp ∧ m.tryOpen free = (m', .ok (bound, addr)) ∧
      e₀.start bound found (.ok ()) = (e₁, .ok own) ∧ e = e₁.after ops ∧ e.stopped = false

theorem RunsAt.endpoint {e : Engine κ} {own : Endpoint} (h : e.RunsAt own) : e.endpoint = some own := by
  obtain ⟨m, m', free, bound, addr, e₀, e₁, found, ops, -, -, hstart, rfl, -⟩ := h
  obtain ⟨-, rfl⟩ := start_eq_ok hstart
  exact (started_after rfl ops).2

theorem RunsAt.usable {e : Engine κ} {own : Endpoint} (h : e.RunsAt own) :
    own = .tcp own.address own.port ∧ IsUsable own := by
  obtain ⟨m, m', free, bound, addr, e₀, e₁, found, ops, htcp, hopen, hstart, rfl, -⟩ := h
  obtain ⟨rfl, -⟩ := start_eq_ok hstart
  obtain ⟨-, hsocket, rfl, -⟩ := Mailbox.tryOpen_eq_ok hopen
  obtain ⟨-, hp, haddr⟩ := Mailbox.socket_eq_ok hsocket
  have hbound : (m.requested.withPort addr.port).transport = .tcp := htcp
  obtain ⟨address, heq, husable⟩ := isUsable_advertised hbound hp haddr found
  rw [heq]
  exact ⟨rfl, husable⟩

theorem RunsAt.running {e : Engine κ} {own : Endpoint} (h : e.RunsAt own) : e.stopped = false := by
  obtain ⟨m, m', free, bound, addr, e₀, e₁, found, ops, -, -, -, -, hr⟩ := h
  exact hr

/-- What has been put on a link; nothing on one that is still to be made. -/
def sentOn (e : Engine κ) (n : Nat) : List Envelope := (e.links[n]?.map Link.sent).getD []

theorem sentOn_closeLink (e : Engine κ) (k limit n : Nat) : (e.closeLink k limit).sentOn n = e.sentOn n := by
  simp only [sentOn, closeLink, modifyLink_links, List.getElem?_modify]
  by_cases hk : k = n
  · simp [hk, Function.comp_def]
  · simp [hk]

theorem sentOn_discover (e : Engine κ) (origin : Origin) (peer : PeerId) (endpoint : Endpoint) (now n : Nat) :
    (e.discover origin peer endpoint now).sentOn n =
      if n = e.links.length then e.greeting origin ++ e.pending else e.sentOn n := by
  rw [discover_eq, sentOn, sentOn, List.getElem?_append]
  by_cases hn : n = e.links.length
  · simp [hn]
  · by_cases hlt : n < e.links.length
    · simp [hn, hlt]
    · simp [hn, hlt, show n - e.links.length ≠ 0 by omega]

/-- A sighting at a new endpoint makes one link, with the greeting and the queries that waited on it, and nothing else
is put on links. -/
theorem sentOn_sight (e : Engine κ) (origin : Origin) (peer : PeerId) (endpoint : Endpoint) (now n : Nat) :
    (e.sight origin peer endpoint now).sentOn n =
      if e.stopped = false ∧ (e.tracker? peer).map (fun t => t.endpoint) ≠ some endpoint ∧ n = e.links.length then
        e.greeting origin ++ e.pending
      else e.sentOn n := by
  rw [sight_eq]
  rcases register_cases e origin peer endpoint now with ⟨hs, h⟩ | ⟨-, he, h⟩ | ⟨hs, he, h⟩
  · rw [h, if_neg fun hh => absurd (hs.symm.trans hh.1) Bool.noConfusion]
  · rw [h, if_neg fun hh => hh.2.1 he]
    rfl
  · have hd : (e.discover origin peer endpoint now).sentOn n =
        if e.stopped = false ∧ (e.tracker? peer).map (fun t => t.endpoint) ≠ some endpoint ∧ n = e.links.length then
          e.greeting origin ++ e.pending
        else e.sentOn n := by
      rw [sentOn_discover]
      simp only [hs, he, ne_eq, not_false_eq_true, true_and]
    rw [h, ← hd]
    cases e.tracker? peer with
    | none => rfl
    | some t => exact sentOn_closeLink ..

def QueriesWait (e : Engine κ) : Prop := ∀ m ∈ e.pending, m.type = .query

theorem pending_sight (e : Engine κ) (origin : Origin) (peer : PeerId) (endpoint : Endpoint) (now : Nat) :
    (e.sight origin peer endpoint now).pending = e.pending ∨ (e.sight origin peer endpoint now).pending = [] := by
  rw [sight_eq]
  rcases register_cases e origin peer endpoint now with ⟨-, h⟩ | ⟨-, -, h⟩ | ⟨-, -, h⟩
  · rw [h]
    exact .inl rfl
  · rw [h]
    exact .inl rfl
  · rw [h, discover_eq]
    cases e.tracker? peer <;> exact .inr rfl

theorem QueriesWait.sight {e : Engine κ} (h : e.QueriesWait) (origin : Origin) (peer : PeerId) (endpoint : Endpoint)
    (now : Nat) : (e.sight origin peer endpoint now).QueriesWait := by
  unfold QueriesWait
  rcases pending_sight e origin peer endpoint now with hp | hp
  · rwa [hp]
  · simp [hp]

theorem QueriesWait.find {e : Engine κ} (h : e.QueriesWait) (facts : FactSet) (k : κ) :
    (e.find facts k).1.QueriesWait := by
  rcases find_cases e facts k with ⟨-, hf⟩ | ⟨-, -, hf⟩ | ⟨-, -, hf⟩
  · rwa [hf]
  · rwa [hf]
  · rw [hf]
    by_cases ht : e.trackers = []
    · rw [submit_of_nil (by exact ht)]
      intro m hm
      rcases List.mem_append.1 hm with hm | hm
      · exact h m hm
      · rw [List.mem_singleton.1 hm]
        rfl
    · rw [submit_of_ne_nil (by exact ht), spread_eq]
      exact h

theorem QueriesWait.perform {e : Engine κ} (h : e.QueriesWait) (op : Operation κ) : (e.perform op).QueriesWait := by
  cases op with
  | beacon beacon now =>
    rw [Engine.perform, onBeacon]
    split
    · exact h
    · exact h.sight .beacon _ _ _
  | hello sender address port now =>
    rw [Engine.perform, onHello_eq]
    split
    · exact h
    · exact h.sight .hello _ _ _
  | find facts k => exact h.find facts k
  | response m =>
    obtain ⟨inFlight, -, hr⟩ := onResponse_eq e m
    rw [Engine.perform, hr]
    exact h
  | announce facts =>
    obtain ⟨n, hn⟩ := announce_eq e facts
    rw [Engine.perform, hn]
    exact h
  | announceTo facts link =>
    rw [Engine.perform, announceTo_eq]
    exact h
  | start bound found beacons =>
    rw [Engine.perform, start_eq]
    exact h
  | subscribe | unsubscribe | takeDiscovered | fill | fail => exact h
  | shutdown limit =>
    rw [Engine.perform, shutdown_eq]
    exact h

theorem QueriesWait.after {e : Engine κ} (h : e.QueriesWait) (ops : List (Operation κ)) : (e.after ops).QueriesWait := by
  induction ops generalizing e with
  | nil => exact h
  | cons op ops ih => exact ih (h.perform op)

theorem queriesWait_after_new (self : PeerId) (closeLimit : Nat) (directory : Directory) (ops : List (Operation κ)) :
    ((new self closeLimit directory : Engine κ).after ops).QueriesWait :=
  QueriesWait.after (fun _ hm => absurd hm List.not_mem_nil) ops

end Engine

/-- The hello in which a node gives its endpoint. -/
def hello (id : CorrelationId) (own : Endpoint) : Envelope := { id, message := .hello own.address own.port }

theorem length_encode_hello_le (id : CorrelationId) {own : Endpoint} (h : Engine.IsUsable (.tcp own.address own.port)) :
    (hello id own).encode.length ≤ Framing.maxFrameSize := by
  obtain ⟨-, ip, hip, -⟩ := (isUsable_tcp_iff _ _).1 h
  have htext : (Bytes.ofText own.address).length ≤ 180 :=
    Nat.le_trans (Bytes.length_ofText_le own.address) (Nat.mul_le_mul_left 4 (Net.IpAddr.length_le_of_parse? hip))
  have hs : UInt64.size = 18446744073709551616 := rfl
  have hshort : (Bytes.ofText own.address).length < UInt64.size := by omega
  have hmessage : (hello id own).message.encode.length ≤ (Bytes.ofText own.address).length + 22 :=
    Wire.HelloRecord.length_encode_le ⟨own.address, Int32.ofNat own.port.toNat⟩ hshort
  have htoken : (Bytes.ofText "").length = 0 := by decide
  have hw : (hello id own).Writable :=
    ⟨by omega, fun _ hsender => absurd hsender (by simp [hello]), by simp [hello, htoken]⟩
  have hl : (hello id own).encode.length ≤ (hello id own).message.encode.length + 0 + (Bytes.ofText "").length + 63 :=
    Envelope.length_encode_le hw
  have hm : Framing.maxFrameSize = 1048576 := rfl
  omega

end Discovery

theorem Mailbox.feed_greeting {identity payload greeting bytes : Bytes} (hg : Framing.encode [identity] = .ok greeting)
    (hb : Framing.encode [payload] = .ok bytes) :
    Framing.Reader.feed {} (greeting ++ bytes) = { done := [[payload], [identity]] } := by
  rw [Framing.Reader.feed_append, Framing.Reader.feed_encode Framing.Reader.atBoundary_new hg,
    Framing.Reader.feed_encode ⟨rfl, rfl⟩ hb]

theorem Mailbox.envelopes_hear {identity greeting bytes : Bytes} {e : Envelope} (hi : identity ≠ [])
    (hg : Framing.encode [identity] = .ok greeting) (hb : Framing.encode [e.encode] = .ok bytes)
    (he : e.encode.length ≤ Framing.maxFrameSize) (n stream : Nat) {pieces : List Bytes}
    (hp : pieces.flatten = greeting ++ bytes) :
    (Connection.hear n stream pieces).2.filterMap Notice.envelope? = [{ e with sender := some identity }] := by
  have hfeed := Mailbox.feed_greeting hg hb
  have hmessages : messages pieces.flatten = [[identity], [e.encode]] := by
    rw [hp]
    exact congrArg (fun r : Framing.Reader => r.take.1) hfeed
  have hgreeter : greeter? [[identity], [e.encode]] = some identity := if_neg hi
  have hgoes : ¬Stops pieces.flatten false := by
    rintro ((h | h) | ⟨-, h⟩)
    · cases h
    · rw [hp, fault?, hfeed] at h
      exact h rfl
    · rw [hmessages, hgreeter] at h
      cases h
  rw [told_hear n stream hgoes, hmessages, filterMap_envelope?_script hgreeter]
  simp only [List.tail_cons, List.filterMap_cons, List.filterMap_nil, Envelope.ofFrames?, Envelope.decode_encode_of_le he]
  rfl

namespace Discovery
namespace Engine

variable {κ ν : Type}

/-- An engine that something has been done to. -/
def Reachable (e : Engine κ) : Prop :=
  ∃ (self : PeerId) (closeLimit : Nat) (directory : Directory) (ops : List (Operation κ)),
    e = (new self closeLimit directory : Engine κ).after ops

theorem Reachable.queriesWait {e : Engine κ} (h : e.Reachable) : e.QueriesWait := by
  obtain ⟨self, closeLimit, directory, ops, rfl⟩ := h
  exact queriesWait_after_new self closeLimit directory ops

theorem onHello_of_usable {e : Engine κ} {peer : PeerId} (hne : peer ≠ e.self) {address : String} {port : UInt16}
    (hu : IsUsable (.tcp address port)) (now : Nat) :
    e.onHello peer.bytes address port now = e.sight .hello peer (.tcp address port) now := by
  simp only [onHello, PeerId.ofBytes?_bytes]
  exact if_neg fun h => h.elim hne fun hn => hn hu

/-- A node that runs introduces itself to every peer whose beacon is news, before the queries that waited. The hello
says where the node is; it can be written, and is read again however the stream is cut. The peer takes it in: it knows
the node under the endpoint of the node from now on, wherever it has seen it before, and nobody else under another one
than before. Nothing goes out through the mailbox of the peer, and nothing but queries on its links, so it does not
introduce itself in turn. -/
theorem introduction_accepted {a : Engine κ} {own : Endpoint} (ha : a.RunsAt own) {h : Host ν}
    (hb : h.engine.Reachable) (hr : h.engine.stopped = false) (hne : h.engine.self ≠ a.self) (place : Endpoint)
    (hnew : (a.tracker? h.engine.self).map (fun t => t.endpoint) ≠ some place) (seen : Nat) :
    let a' := a.onBeacon ⟨h.engine.self, place⟩ seen
    let hello := Discovery.hello a.nextId own
    a.endpoint = some own ∧ a'.connections = a.connections ++ [(h.engine.self, place)] ∧
    a'.sentOn a.links.length = hello :: a.pending ∧
    ∃ greeting bytes, Framing.encode [a.self.bytes] = .ok greeting ∧ Framing.encode [hello.encode] = .ok bytes ∧
    ∀ (n stream now : Nat) (pieces : List Bytes), pieces.flatten = greeting ++ bytes →
      let arrived := (Connection.hear n stream pieces).2.filterMap Notice.envelope?
      let h' := (h.dispatchAll now arrived).1
      arrived = [{ hello with sender := some a.self.bytes }] ∧
      (∀ p, (h'.engine.tracker? p).map Tracker.sighting =
        if a.self = p then some ⟨a.self, own, now⟩ else (h.engine.tracker? p).map Tracker.sighting) ∧
      h'.mailbox = h.mailbox ∧
      ∀ k, ∃ queries, h'.engine.sentOn k = h.engine.sentOn k ++ queries ∧ ∀ m ∈ queries, m.type = .query := by
  intro a' hello
  obtain ⟨htcp, hu⟩ := ha.usable
  rw [htcp] at hu
  have hown := ha.endpoint
  have hsight : a' = a.sight .beacon h.engine.self place seen := if_neg hne
  have hconnections : a'.connections = a.connections ++ a.newConnection ⟨h.engine.self, place, seen⟩ :=
    hsight ▸ (sight_registry ha.running .beacon ⟨h.engine.self, place, seen⟩).2.1
  have hsent : a'.sentOn a.links.length = a.greeting .beacon ++ a.pending := by
    rw [hsight, sentOn_sight, if_pos ⟨ha.running, hnew, rfl⟩]
  rw [newConnection, if_neg hnew] at hconnections
  rw [greeting_of_some hown] at hsent
  have hfits : hello.encode.length ≤ Framing.maxFrameSize := length_encode_hello_le a.nextId hu
  have hgreets : a.self.bytes.length ≤ Framing.maxFrameSize := by
    rw [a.self.length_eq]
    decide
  have hidentity : a.self.bytes ≠ [] := List.ne_nil_of_length_pos (by rw [a.self.length_eq]; decide)
  refine ⟨hown, hconnections, hsent, _, _, Framing.encode_of_le hgreets, Framing.encode_of_le hfits, ?_⟩
  intro n stream now pieces hpieces arrived h'
  have harrived : arrived = [{ hello with sender := some a.self.bytes }] :=
    Mailbox.envelopes_hear hidentity (Framing.encode_of_le hgreets) (Framing.encode_of_le hfits) hfits n stream hpieces
  have hh' : h' = { h with engine := h.engine.sight .hello a.self own now } := by
    have hd : h' = { h with engine := h.engine.onHello a.self.bytes own.address own.port now } := by
      simp only [h', harrived, Host.dispatchAll_singleton]
      rfl
    rw [hd, onHello_of_usable (Ne.symm hne) hu, ← htcp]
  have hregistry := (sight_registry hr .hello ⟨a.self, own, now⟩).1
  refine ⟨harrived, fun p => ?_, by rw [hh'], fun k => ?_⟩
  · rw [hh']
    exact hregistry p
  · rw [hh', sentOn_sight, greeting_hello, List.nil_append]
    split
    · next hk =>
      have hfresh : h.engine.sentOn k = [] := by
        rw [sentOn, List.getElem?_eq_none (Nat.le_of_eq hk.2.2.symm)]
        rfl
      exact ⟨h.engine.pending, by rw [hfresh, List.nil_append], hb.queriesWait⟩
    · exact ⟨[], (List.append_nil _).symm, fun m hm => absurd hm List.not_mem_nil⟩

/-- A node at every IPv6 interface, and a peer that has met it elsewhere. -/
theorem introduction_accepted_wildcard :
    let a : Engine Unit := (new ⟨List.replicate 16 1, rfl⟩ 0 ∅).perform
      (.start (.tcp "::" 49152) (some (.v4 ⟨10, 0, 0, 7⟩)) (.ok ()))
    let h : Host Unit := ⟨(new ⟨List.replicate 16 2, rfl⟩ 0 ∅).after [.beacon ⟨a.self, .tcp "10.0.0.9" 1⟩ 2],
      { requested := .tcp "*" 0 }⟩
    a.RunsAt (.tcp "10.0.0.7" 49152) ∧ h.engine.Reachable ∧ h.engine.stopped = false ∧ h.engine.self ≠ a.self ∧
    (a.tracker? h.engine.self).map (fun t => t.endpoint) ≠ some (.tcp "10.0.0.8" 5) ∧
    ∃ greeting bytes, ∀ n stream now pieces, pieces.flatten = greeting ++ bytes →
      let arrived := (Connection.hear n stream pieces).2.filterMap Notice.envelope?
      ((h.dispatchAll now arrived).1.engine.tracker? a.self).map Tracker.sighting =
        some ⟨a.self, .tcp "10.0.0.7" 49152, now⟩ := by
  intro a h
  have hopen : ({ requested := .tcp "::" 0 } : Mailbox).tryOpen (fun _ => true) =
      (_, .ok (.tcp "::" 49152, ⟨.v6 .unspecified, 49152⟩)) := rfl
  have ha : a.RunsAt (.tcp "10.0.0.7" 49152) :=
    ⟨{ requested := .tcp "::" 0 }, _, fun _ => true, .tcp "::" 49152, ⟨.v6 .unspecified, 49152⟩, new a.self 0 ∅, a,
      some (.v4 ⟨10, 0, 0, 7⟩), [], rfl, hopen, by rfl, rfl, rfl⟩
  have hb : h.engine.Reachable := ⟨_, _, _, _, rfl⟩
  have hr : h.engine.stopped = false := by decide +kernel
  have hne : h.engine.self ≠ a.self := by decide +kernel
  have hnew : (a.tracker? h.engine.self).map (fun t => t.endpoint) ≠ some (.tcp "10.0.0.8" 5) := by decide +kernel
  obtain ⟨-, -, -, greeting, bytes, -, -, haccepted⟩ := introduction_accepted ha hb hr hne _ hnew 3
  refine ⟨ha, hb, hr, hne, hnew, greeting, bytes, fun n stream now pieces hp => ?_⟩
  intro arrived
  obtain ⟨-, hregistry, -⟩ := haccepted n stream now pieces hp
  exact (hregistry a.self).trans (if_pos rfl)

end Engine
end Discovery

end PeerDiscovery
