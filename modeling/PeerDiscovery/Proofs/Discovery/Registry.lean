import Mathlib.Data.List.Induction
import Mathlib.Tactic.Tauto
import PeerDiscovery.Proofs.Discovery.Run

/-! The registry as a record of sightings.
A peer has a tracker when it has been sighted, with the endpoint and the time of the last sighting,
and a link is made whenever the endpoint is a new one: `registry_of_sightings`. -/
namespace PeerDiscovery
namespace Discovery

structure Sighting where
  peer : PeerId
  endpoint : Endpoint
  time : Nat
  deriving DecidableEq, Repr

namespace Tracker

/-- What a tracker says of its peer. -/
def sighting (t : Tracker) : Sighting := ⟨t.peer, t.endpoint, t.lastSeen⟩

end Tracker

/-- The sighting that an operation is for a node: a beacon of another node, or a hello of another node
that names a port and the IP address of a host. `*` is no IP address. -/
def Operation.sighting? {κ : Type} (self : PeerId) : Operation κ → Option Sighting
  | .beacon b now => if b.peer = self then none else some ⟨b.peer, b.endpoint, now⟩
  | .hello sender address port now =>
    match PeerId.ofBytes? sender, Net.IpAddr.parse? address with
    | some peer, some ip =>
      if peer = self ∨ port = 0 ∨ ip.IsUnspecified then none else some ⟨peer, .tcp address port, now⟩
    | _, _ => none
  | _ => none

/-- The sightings of a run, in order. -/
def sightings {κ : Type} (self : PeerId) (ops : List (Operation κ)) : List Sighting :=
  ops.filterMap (Operation.sighting? self)

/-- The last of some sightings that is of a peer. -/
def lastOf (peer : PeerId) (sightings : List Sighting) : Option Sighting :=
  sightings.reverse.find? fun s => s.peer = peer

theorem lastOf_append (peer : PeerId) (ss : List Sighting) (s : Sighting) :
    lastOf peer (ss ++ [s]) = if s.peer = peer then some s else lastOf peer ss := by
  by_cases h : s.peer = peer <;> simp [lastOf, h]

theorem parse?_anyAddress : Net.IpAddr.parse? Endpoint.anyAddress = none := by
  decide +kernel

/-- An endpoint is usable when it names a port and the IP address of a host. -/
theorem isUsable_tcp_iff (address : String) (port : UInt16) :
    Engine.IsUsable (.tcp address port) ↔
      port ≠ 0 ∧ ∃ ip, Net.IpAddr.parse? address = some ip ∧ ¬ip.IsUnspecified := by
  by_cases ha : address = Endpoint.anyAddress
  · subst ha
    simp [Engine.IsUsable, Endpoint.IsWildcard, Endpoint.tcp, parse?_anyAddress]
  · cases hp : Net.IpAddr.parse? address with
    | none => simp [Engine.IsUsable, Endpoint.socketAddr, Endpoint.ip?, Endpoint.tcp, ha, hp]
    | some ip =>
      simp [Engine.IsUsable, Endpoint.IsWildcard, Endpoint.socketAddr, Endpoint.ip?, Endpoint.tcp, ha, hp]

namespace Engine

variable {κ : Type}

theorem onBeacon_eq (e : Engine κ) (beacon : Beacon) (now : Nat) :
    e.onBeacon beacon now =
      match (Operation.beacon beacon now : Operation κ).sighting? e.self with
      | none => e
      | some s => e.sight .beacon s.peer s.endpoint s.time := by
  by_cases h : beacon.peer = e.self <;> simp [onBeacon, Operation.sighting?, h]

theorem onHello_eq (e : Engine κ) (sender : Bytes) (address : String) (port : UInt16) (now : Nat) :
    e.onHello sender address port now =
      match (Operation.hello sender address port now : Operation κ).sighting? e.self with
      | none => e
      | some s => e.sight .hello s.peer s.endpoint s.time := by
  cases hs : PeerId.ofBytes? sender with
  | none => simp [onHello, Operation.sighting?, hs]
  | some peer =>
    cases ha : Net.IpAddr.parse? address with
    | none => simp [onHello, Operation.sighting?, hs, isUsable_tcp_iff, ha]
    | some ip =>
      have hh : (peer = e.self ∨ ¬IsUsable (.tcp address port)) ↔
          (peer = e.self ∨ port = 0 ∨ ip.IsUnspecified) := by
        simp only [isUsable_tcp_iff, ha, Option.some.injEq, exists_eq_left']
        tauto
      simp only [onHello, Operation.sighting?, hs, ha, hh]
      by_cases h : peer = e.self ∨ port = 0 ∨ ip.IsUnspecified
      · simp only [if_pos h]
      · simp only [if_neg h]

/-- Whom the links lead to, in the order in which they were made. -/
def connections (e : Engine κ) : List (PeerId × Endpoint) := e.links.map fun l => (l.peer, l.endpoint)

structure SameRegistry (e e' : Engine κ) : Prop where
  self : e'.self = e.self
  trackers : e'.trackers = e.trackers
  connections : e'.connections = e.connections

theorem SameRegistry.refl (e : Engine κ) : SameRegistry e e := ⟨rfl, rfl, rfl⟩

theorem SameRegistry.trans {e e' e'' : Engine κ} (h : SameRegistry e e') (h' : SameRegistry e' e'') :
    SameRegistry e e'' :=
  ⟨h'.self.trans h.self, h'.trackers.trans h.trackers, h'.connections.trans h.connections⟩

theorem sameRegistry_modifyLink (e : Engine κ) (n : Nat) {f : Link → Link}
    (h : ∀ l, ((f l).peer, (f l).endpoint) = (l.peer, l.endpoint)) : SameRegistry e (e.modifyLink n f) :=
  ⟨rfl, rfl, map_modify_of_same _ f h e.links n⟩

theorem sameRegistry_deliver (e : Engine κ) (n : Nat) (envelope : Envelope) :
    SameRegistry e (e.deliver n envelope).1 := by
  rw [deliver_eq]
  exact sameRegistry_modifyLink e n fun l => by simp

theorem sameRegistry_closeLink (e : Engine κ) (n limit : Nat) : SameRegistry e (e.closeLink n limit) :=
  sameRegistry_modifyLink e n fun _ => rfl

theorem sameRegistry_takeId (e : Engine κ) : SameRegistry e e.takeId.1 := ⟨rfl, rfl, rfl⟩

theorem sameRegistry_await (e : Engine κ) (id : CorrelationId) (k : κ) : SameRegistry e (e.await id k) :=
  ⟨rfl, rfl, rfl⟩

theorem sameRegistry_announceTo (e : Engine κ) (facts : FactSet) (n : Nat) :
    SameRegistry e (e.announceTo facts n).1 :=
  (sameRegistry_takeId e).trans (sameRegistry_deliver e.takeId.1 n _)

theorem sameRegistry_announce (e : Engine κ) (facts : FactSet) : SameRegistry e (e.announce facts).1 := by
  have hh : ∀ (ts : List Tracker) (e : Engine κ), SameRegistry e (e.announceAll facts ts).1 := by
    intro ts
    induction ts with
    | nil => exact SameRegistry.refl
    | cons t rest ih =>
      intro e
      rw [announceAll_cons]
      exact (sameRegistry_announceTo e facts t.link).trans (ih _)
  unfold announce
  split
  · exact .refl e
  · exact hh e.trackers e

theorem sameRegistry_spread (e : Engine κ) (links : List Nat) (envelope : Envelope) :
    SameRegistry e (e.spread links envelope) := by
  induction links generalizing e with
  | nil => exact .refl e
  | cons n links ih =>
    exact (sameRegistry_modifyLink e n fun l => by simp).trans (ih _)

theorem sameRegistry_submit (e : Engine κ) (query : Envelope) : SameRegistry e (e.submit query).1 := by
  by_cases h : e.trackers = []
  · rw [submit_of_nil h]
    exact ⟨rfl, rfl, rfl⟩
  · rw [submit_of_ne_nil h]
    exact sameRegistry_spread e _ query

theorem sameRegistry_find (e : Engine κ) (facts : FactSet) (k : κ) : SameRegistry e (e.find facts k).1 := by
  rcases find_cases e facts k with ⟨-, h⟩ | ⟨-, -, h⟩ | ⟨-, -, h⟩
  · rw [h]
    exact .refl e
  · rw [h]
    exact .refl e
  · rw [h]
    exact ((sameRegistry_takeId e).trans (sameRegistry_await _ _ _)).trans (sameRegistry_submit _ _)

theorem sameRegistry_onResponse (e : Engine κ) (envelope : Envelope) :
    SameRegistry e (e.onResponse envelope).1 := by
  obtain ⟨inFlight, -, h⟩ := onResponse_eq e envelope
  rw [h]
  exact ⟨rfl, rfl, rfl⟩

theorem onResponse_stopped (e : Engine κ) (envelope : Envelope) :
    (e.onResponse envelope).1.stopped = e.stopped := by
  obtain ⟨inFlight, -, h⟩ := onResponse_eq e envelope
  rw [h]

theorem tracker?_touch (e : Engine κ) (peer p : PeerId) (now : Nat) :
    (e.touch peer now).tracker? p =
      (e.tracker? p).map fun t => if t.peer = peer then { t with lastSeen := now } else t := by
  have hh : ∀ t : Tracker, (if t.peer = peer then { t with lastSeen := now } else t).peer = t.peer := by
    intro t
    split <;> rfl
  simp only [touch, tracker?, List.find?_map, Function.comp_def, hh]

theorem tracker?_discover (e : Engine κ) (origin : Origin) (peer p : PeerId) (endpoint : Endpoint)
    (now : Nat) :
    (e.discover origin peer endpoint now).tracker? p =
      if peer = p then some (e.newTracker peer endpoint now) else e.tracker? p := by
  rw [discover_eq]
  by_cases h : peer = p
  · subst h
    have hh : (e.trackers.filter fun u => u.peer ≠ peer).find? (fun u => decide (u.peer = peer)) = none := by
      simp
    simp only [tracker?, List.find?_append, hh]
    simp [newTracker]
  · have hh : (e.trackers.filter fun u => u.peer ≠ peer).find? (fun u => decide (u.peer = p)) =
        e.trackers.find? fun u => decide (u.peer = p) := by
      rw [List.find?_filter]
      congr 1
      funext u
      by_cases hu : u.peer = p
      · simp [hu, Ne.symm h]
      · simp [hu]
    simp only [tracker?, List.find?_append, hh, if_neg h]
    simp [newTracker, h]

theorem peer_of_tracker? {e : Engine κ} {peer : PeerId} {t : Tracker} (h : e.tracker? peer = some t) :
    t.peer = peer := by
  simpa using List.find?_some h

theorem stopped_of_ne_shutdown (e : Engine κ) {op : Operation κ} (hop : ∀ limit, op ≠ .shutdown limit) :
    (e.perform op).stopped = e.stopped := by
  cases op with
  | beacon beacon now => exact (sameQueries_onBeacon e beacon now).stopped
  | hello sender address port now => exact (sameQueries_onHello e sender address port now).stopped
  | find facts k =>
    rw [perform]
    rcases find_cases e facts k with ⟨-, h⟩ | ⟨-, -, h⟩ | ⟨-, -, h⟩
    · rw [h]
    · rw [h]
    · rw [h, submit_eq]
      rfl
  | response envelope => exact onResponse_stopped e envelope
  | announce facts =>
    obtain ⟨n, hn⟩ := announce_eq e facts
    rw [perform, hn]
  | announceTo facts link =>
    rw [perform, announceTo_eq]
    rfl
  | start bound found beacons =>
    rw [perform, start_eq]
  | subscribe | unsubscribe | takeDiscovered | fill | fail => rfl
  | shutdown limit => exact absurd rfl (hop limit)

theorem stopped_perform {e : Engine κ} (h : e.stopped = true) (op : Operation κ) :
    (e.perform op).stopped = true := by
  by_cases hop : ∃ limit, op = .shutdown limit
  · obtain ⟨limit, rfl⟩ := hop
    rw [perform, shutdown_eq]
  · rw [stopped_of_ne_shutdown e fun limit hh => hop ⟨limit, hh⟩]
    exact h

theorem running_of_perform {e : Engine κ} {op : Operation κ} (h : (e.perform op).stopped = false) :
    e.stopped = false := by
  by_contra hh
  rw [Bool.not_eq_false] at hh
  rw [stopped_perform hh op] at h
  exact absurd h (by simp)

/-- An operation that is no sighting leaves the registry alone, unless it shuts the engine down. -/
theorem sameRegistry_perform {e : Engine κ} {op : Operation κ} (hs : ∀ limit, op ≠ .shutdown limit)
    (hop : op.sighting? e.self = none) : SameRegistry e (e.perform op) := by
  cases op with
  | beacon beacon now =>
    rw [perform, onBeacon_eq, hop]
    exact .refl e
  | hello sender address port now =>
    rw [perform, onHello_eq, hop]
    exact .refl e
  | find facts k => exact sameRegistry_find e facts k
  | response envelope => exact sameRegistry_onResponse e envelope
  | announce facts => exact sameRegistry_announce e facts
  | announceTo facts link => exact sameRegistry_announceTo e facts link
  | start bound found beacons =>
    rw [perform, start_eq]
    exact ⟨rfl, rfl, rfl⟩
  | subscribe | unsubscribe | takeDiscovered | fill => exact ⟨rfl, rfl, rfl⟩
  | fail link => exact sameRegistry_modifyLink e link fun _ => rfl
  | shutdown limit => exact absurd rfl (hs limit)

theorem perform_of_sighting {e : Engine κ} {op : Operation κ} {s : Sighting}
    (hop : op.sighting? e.self = some s) :
    ∃ origin, e.perform op = e.sight origin s.peer s.endpoint s.time := by
  cases op with
  | beacon beacon now => exact ⟨.beacon, by rw [perform, onBeacon_eq, hop]⟩
  | hello sender address port now => exact ⟨.hello, by rw [perform, onHello_eq, hop]⟩
  | _ => exact absurd hop (by simp [Operation.sighting?])

/-- A sighting is of another node: the endpoint of its beacon, or the one that it gives in a hello and that is usable. -/
theorem sighting_cases {self : PeerId} {op : Operation κ} {s : Sighting} (h : op.sighting? self = some s) :
    s.peer ≠ self ∧
      ((∃ b, op = .beacon b s.time ∧ s.peer = b.peer ∧ s.endpoint = b.endpoint) ∨
        ∃ address port, op = .hello s.peer.bytes address port s.time ∧ s.endpoint = .tcp address port ∧
          IsUsable s.endpoint) := by
  cases op with
  | beacon beacon now =>
    simp only [Operation.sighting?] at h
    split at h
    · cases h
    · next hne =>
      cases h
      exact ⟨hne, .inl ⟨beacon, rfl, rfl, rfl⟩⟩
  | hello sender address port now =>
    simp only [Operation.sighting?] at h
    split at h
    · next peer ip hpeer hip =>
      split at h
      · cases h
      · next hcheck =>
        cases h
        obtain ⟨hne, hport, hhost⟩ : peer ≠ self ∧ port ≠ 0 ∧ ¬ip.IsUnspecified := by simpa using hcheck
        refine ⟨hne, .inr ⟨address, port, ?_, rfl, (isUsable_tcp_iff address port).2 ⟨hport, ip, hip, hhost⟩⟩⟩
        rw [PeerId.ofBytes?_eq_some hpeer]
    · cases h
  | _ => exact absurd h (by simp [Operation.sighting?])

/-- The link that a sighting makes: none when the peer has a tracker with that endpoint. -/
def newConnection (e : Engine κ) (s : Sighting) : List (PeerId × Endpoint) :=
  if (e.tracker? s.peer).map (fun t => t.endpoint) = some s.endpoint then [] else [(s.peer, s.endpoint)]

theorem connections_closeLink (e : Engine κ) (n limit : Nat) :
    (e.closeLink n limit).connections = e.connections :=
  (sameRegistry_closeLink e n limit).connections

theorem sight_registry {e : Engine κ} (hr : e.stopped = false) (origin : Origin) (s : Sighting) :
    let e' := e.sight origin s.peer s.endpoint s.time
    (∀ p, (e'.tracker? p).map Tracker.sighting =
      if s.peer = p then some s else (e.tracker? p).map Tracker.sighting) ∧
    e'.connections = e.connections ++ e.newConnection s ∧
    (e'.trackers.map (fun t => t.peer) = e.trackers.map (fun t => t.peer) ∨
      e'.trackers.map (fun t => t.peer) =
        (e.trackers.map fun t => t.peer).filter (fun p => p ≠ s.peer) ++ [s.peer]) := by
  have hd : ∀ p, (((e.discover origin s.peer s.endpoint s.time).tracker? p).map Tracker.sighting) =
      if s.peer = p then some s else (e.tracker? p).map Tracker.sighting := by
    intro p
    rw [tracker?_discover]
    split <;> rfl
  have hc : (e.discover origin s.peer s.endpoint s.time).connections =
      e.connections ++ [(s.peer, s.endpoint)] := by
    rw [discover_eq]
    simp [connections, Link.opened]
  have hp : (e.discover origin s.peer s.endpoint s.time).trackers.map (fun t => t.peer) =
      (e.trackers.map fun t => t.peer).filter (fun p => p ≠ s.peer) ++ [s.peer] := by
    rw [discover_eq]
    simp [List.filter_map, Function.comp_def, newTracker]
  rw [sight_eq]
  rcases register_cases e origin s.peer s.endpoint s.time with ⟨h, -⟩ | ⟨-, he, h⟩ | ⟨-, he, h⟩
  · rw [hr] at h
    exact absurd h (by simp)
  · rw [h, newConnection, if_pos he]
    refine ⟨fun p => ?_, (List.append_nil _).symm, .inl ?_⟩
    · rw [tracker?_touch]
      split
      · next hp =>
        obtain ⟨t, ht, hte⟩ := Option.map_eq_some_iff.1 he
        subst hp
        simp [ht, peer_of_tracker? ht, Tracker.sighting, hte]
      · next hp =>
        cases ht : e.tracker? p with
        | none => rfl
        | some t =>
          have hne : t.peer ≠ s.peer := fun hh => hp (hh.symm.trans (peer_of_tracker? ht))
          simp [hne]
    · have hh : ∀ t : Tracker,
          (if t.peer = s.peer then { t with lastSeen := s.time } else t).peer = t.peer := by
        intro t
        split <;> rfl
      simp [touch, Function.comp_def, hh]
  · rw [h, newConnection, if_neg he]
    cases e.tracker? s.peer with
    | none => exact ⟨hd, hc, .inr hp⟩
    | some t => exact ⟨hd, (connections_closeLink _ _ _).trans hc, .inr hp⟩

/-- The registry is what some sightings, taken in one after another, make of it. -/
structure Records (ss : List Sighting) (e : Engine κ) : Prop where
  last : ∀ p, (e.tracker? p).map Tracker.sighting = lastOf p ss
  nodup : (e.trackers.map fun t => t.peer).Nodup
  other : e.self ∉ e.trackers.map fun t => t.peer

theorem records_new (self : PeerId) (closeLimit : Nat) (directory : Directory) :
    Records [] (new self closeLimit directory : Engine κ) :=
  ⟨fun _ => rfl, List.nodup_nil, List.not_mem_nil⟩

theorem self_sight (e : Engine κ) (origin : Origin) (s : Sighting) :
    (e.sight origin s.peer s.endpoint s.time).self = e.self :=
  (sameQueries_sight e origin s.peer s.endpoint s.time).self

theorem Records.sight {ss : List Sighting} {e : Engine κ} (h : Records ss e) (hr : e.stopped = false)
    (origin : Origin) {s : Sighting} (hs : s.peer ≠ e.self) :
    Records (ss ++ [s]) (e.sight origin s.peer s.endpoint s.time) := by
  obtain ⟨h₁, -, h₂⟩ := sight_registry hr origin s
  have hnodup := h.nodup
  have hother := h.other
  refine ⟨fun p => ?_, ?_, ?_⟩
  · rw [h₁, lastOf_append, h.last]
  · rcases h₂ with h₂ | h₂
    · rwa [h₂]
    · rw [h₂]
      exact List.Nodup.append (hnodup.filter _) (List.nodup_singleton _) (by simp)
  · rw [self_sight]
    rcases h₂ with h₂ | h₂
    · rwa [h₂]
    · rw [h₂]
      simp only [List.mem_append, List.mem_filter, List.mem_singleton, not_or]
      exact ⟨fun hh => hother hh.1, Ne.symm hs⟩

theorem Records.same {ss : List Sighting} {e e' : Engine κ} (h : Records ss e) (hh : SameRegistry e e') :
    Records ss e' := by
  obtain ⟨h₁, h₂, h₃⟩ := h
  refine ⟨fun p => ?_, ?_, ?_⟩
  · rw [tracker?, hh.trackers]
    exact h₁ p
  · rwa [hh.trackers]
  · rwa [hh.trackers, hh.self]

/-- One operation, for which the registry is extended by its sighting if it is one. -/
theorem Records.perform {ss : List Sighting} {e : Engine κ} (h : Records ss e) {op : Operation κ}
    (hr : (e.perform op).stopped = false) :
    Records (ss ++ (op.sighting? e.self).toList) (e.perform op) ∧ (e.perform op).self = e.self ∧
      (e.perform op).connections =
        e.connections ++ ((op.sighting? e.self).map e.newConnection).getD [] := by
  cases hop : op.sighting? e.self with
  | none =>
    have hs : ∀ limit, op ≠ .shutdown limit := by
      rintro limit rfl
      rw [Engine.perform, shutdown_eq] at hr
      exact absurd hr (by simp)
    have hh := sameRegistry_perform hs hop
    refine ⟨?_, hh.self, ?_⟩
    · simpa using h.same hh
    · simpa using hh.connections
  | some s =>
    obtain ⟨origin, ho⟩ := perform_of_sighting hop
    rw [ho]
    exact ⟨h.sight (running_of_perform hr) origin (sighting_cases hop).1, self_sight e origin s,
      (sight_registry (running_of_perform hr) origin s).2.1⟩

theorem records_after (self : PeerId) (closeLimit : Nat) (directory : Directory) (ops : List (Operation κ))
    (hr : ((new self closeLimit directory : Engine κ).after ops).stopped = false) :
    Records (sightings self ops) ((new self closeLimit directory : Engine κ).after ops) ∧
      ((new self closeLimit directory : Engine κ).after ops).self = self := by
  induction ops using List.reverseRecOn with
  | nil => exact ⟨records_new self closeLimit directory, rfl⟩
  | append_singleton ops op ih =>
    rw [after_append, after_singleton] at hr ⊢
    obtain ⟨h, hself⟩ := ih (running_of_perform hr)
    obtain ⟨h₁, h₂, -⟩ := h.perform hr
    rw [hself] at h₁
    refine ⟨?_, h₂.trans hself⟩
    have hh : sightings self (ops ++ [op]) = sightings self ops ++ (op.sighting? self).toList := by
      simp only [sightings, List.filterMap_append, List.filterMap_cons, List.filterMap_nil]
      cases op.sighting? self <;> rfl
    rwa [hh]

/-- The registry of an engine that has not stopped holds the last sighting of every peer sighted so far
and nothing else, and the next operation makes a link exactly when it is a sighting at a new endpoint. -/
theorem registry_of_sightings (self : PeerId) (closeLimit : Nat) (directory : Directory)
    (ops : List (Operation κ)) (hr : ((new self closeLimit directory : Engine κ).after ops).stopped = false) :
    let e := (new self closeLimit directory : Engine κ).after ops
    (∀ p, (e.tracker? p).map Tracker.sighting = lastOf p (sightings self ops)) ∧
    (e.trackers.map fun t => t.peer).Nodup ∧
    (∀ t ∈ e.trackers, t.peer ≠ self) ∧
    ∀ op : Operation κ, (e.perform op).stopped = false →
      (e.perform op).connections =
        e.connections ++ ((op.sighting? self).map e.newConnection).getD [] := by
  intro e
  obtain ⟨h, hself⟩ := records_after self closeLimit directory ops hr
  have hother := h.other
  refine ⟨h.last, h.nodup, ?_, ?_⟩
  · intro t ht hp
    have hh : t.peer ∈ e.trackers.map fun t => t.peer := List.mem_map_of_mem ht
    rw [hp] at hh
    rw [hself] at hother
    exact hother hh
  · intro op hop
    obtain ⟨-, -, hc⟩ := h.perform hop
    rw [hself] at hc
    exact hc

/-- A peer that moves and is then seen again at its new endpoint. -/
theorem registry_of_sightings_moved :
    let self : PeerId := ⟨List.replicate 16 0, rfl⟩
    let peer : PeerId := ⟨List.replicate 16 1, rfl⟩
    let ops : List (Operation Unit) :=
      [.beacon ⟨peer, .tcp "10.0.0.1" 1⟩ 5, .hello peer.bytes "10.0.0.2" 7 6,
        .hello peer.bytes "0.0.0.0" 7 7, .beacon ⟨peer, .tcp "10.0.0.2" 7⟩ 9]
    ((new self 0 ∅ : Engine Unit).after ops).stopped = false ∧
      (((new self 0 ∅ : Engine Unit).after ops).tracker? peer).map Tracker.sighting =
        some ⟨peer, .tcp "10.0.0.2" 7, 9⟩ := by
  intro self peer ops
  have hr : ((new self 0 ∅ : Engine Unit).after ops).stopped = false := by decide +kernel
  obtain ⟨hlast, -⟩ := registry_of_sightings self 0 ∅ ops hr
  refine ⟨hr, (hlast peer).trans ?_⟩
  decide +kernel

end Engine
end Discovery
end PeerDiscovery
