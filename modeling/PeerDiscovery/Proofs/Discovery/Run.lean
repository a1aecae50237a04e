import PeerDiscovery.Discovery.Dispatch
import PeerDiscovery.Proofs.Discovery.Sections

/-! Runs of the engine: operations one after another, in any order and of any number.
`issued_le_after` says that ids are only ever given out, so two queries of a run have different ids
until the ids wrap around. -/
namespace PeerDiscovery
namespace Discovery

/-- What is done to an engine from outside. -/
inductive Operation (κ : Type) where
  | beacon (beacon : Beacon) (now : Nat)
  | hello (sender : Bytes) (address : String) (port : UInt16) (now : Nat)
  | find (facts : FactSet) (asker : κ)
  | response (envelope : Envelope)
  | announce (facts : FactSet)
  | announceTo (facts : FactSet) (link : Nat)
  | start (bound : Endpoint) (found : Option Net.IpAddr) (beacons : Except StartError Unit)
  | subscribe
  | unsubscribe (subscriber : Nat)
  | takeDiscovered (subscriber : Nat)
  /-- Somebody writes the directory. -/
  | fill (directory : Directory)
  /-- A link breaks. -/
  | fail (link : Nat)
  | shutdown (limit : Nat)

namespace Engine

variable {κ : Type}

/-- An engine that has done nothing. -/
def new (self : PeerId) (closeLimit : Nat) (directory : Directory) : Engine κ := { self, closeLimit, directory }

def perform (e : Engine κ) : Operation κ → Engine κ
  | .beacon beacon now => e.onBeacon beacon now
  | .hello sender address port now => e.onHello sender address port now
  | .find facts asker => (e.find facts asker).1
  | .response envelope => (e.onResponse envelope).1
  | .announce facts => (e.announce facts).1
  | .announceTo facts link => (e.announceTo facts link).1
  | .start bound found beacons => (e.start bound found beacons).1
  | .subscribe => e.subscribe.1
  | .unsubscribe subscriber => e.unsubscribe subscriber
  | .takeDiscovered subscriber => (e.takeDiscovered subscriber).1
  | .fill directory => { e with directory }
  | .fail link => e.modifyLink link Link.fail
  | .shutdown limit => e.shutdown limit

def after (e : Engine κ) (ops : List (Operation κ)) : Engine κ := ops.foldl perform e

@[simp] theorem after_nil (e : Engine κ) : e.after [] = e := rfl

@[simp] theorem after_append (e : Engine κ) (ops ops' : List (Operation κ)) :
    e.after (ops ++ ops') = (e.after ops).after ops' := by
  simp [after]

@[simp] theorem after_singleton (e : Engine κ) (op : Operation κ) : e.after [op] = e.perform op := rfl

theorem after_cons (e : Engine κ) (op : Operation κ) (ops : List (Operation κ)) :
    e.after (op :: ops) = (e.perform op).after ops := rfl

/-- A sighting leaves the queries in flight, the directory and the rest of the engine's settings alone. -/
structure SameQueries (e e' : Engine κ) : Prop where
  self : e'.self = e.self
  directory : e'.directory = e.directory
  endpoint : e'.endpoint = e.endpoint
  started : e'.started = e.started
  stopped : e'.stopped = e.stopped
  inFlight : e'.inFlight = e.inFlight
  issued : e.issued ≤ e'.issued

theorem SameQueries.refl (e : Engine κ) : SameQueries e e := ⟨rfl, rfl, rfl, rfl, rfl, rfl, Nat.le_refl _⟩

theorem sameQueries_register (e : Engine κ) (origin : Origin) (peer : PeerId) (endpoint : Endpoint)
    (now : Nat) : SameQueries e (e.register origin peer endpoint now).1 := by
  rcases register_cases e origin peer endpoint now with ⟨-, h⟩ | ⟨-, -, h⟩ | ⟨-, -, h⟩
  · rw [h]
    exact .refl e
  · rw [h]
    exact ⟨rfl, rfl, rfl, rfl, rfl, rfl, Nat.le_refl _⟩
  · rw [h, discover_eq]
    exact ⟨rfl, rfl, rfl, rfl, rfl, rfl, Nat.le_add_right _ _⟩

theorem sameQueries_sight (e : Engine κ) (origin : Origin) (peer : PeerId) (endpoint : Endpoint)
    (now : Nat) : SameQueries e (e.sight origin peer endpoint now) := by
  have hh := sameQueries_register e origin peer endpoint now
  rw [sight_eq]
  split
  · exact hh
  · exact ⟨hh.self, hh.directory, hh.endpoint, hh.started, hh.stopped, hh.inFlight, hh.issued⟩

theorem sameQueries_onBeacon (e : Engine κ) (beacon : Beacon) (now : Nat) :
    SameQueries e (e.onBeacon beacon now) := by
  unfold onBeacon
  split
  · exact .refl e
  · exact sameQueries_sight e _ _ _ _

theorem sameQueries_onHello (e : Engine κ) (sender : Bytes) (address : String) (port : UInt16) (now : Nat) :
    SameQueries e (e.onHello sender address port now) := by
  unfold onHello
  split
  · exact .refl e
  · split
    · exact .refl e
    · exact sameQueries_sight e _ _ _ _

theorem onResponse_eq (e : Engine κ) (m : Envelope) :
    ∃ inFlight, inFlight.Sublist e.inFlight ∧ (e.onResponse m).1 = { e with inFlight } := by
  unfold onResponse
  split
  · split
    · split
      · exact ⟨_, .refl _, rfl⟩
      · exact ⟨_, List.filter_sublist, rfl⟩
    · exact ⟨_, .refl _, rfl⟩
  · exact ⟨_, .refl _, rfl⟩

/-- The engine is the same one, with the same endpoint, and waits for these queries at most besides. -/
structure Continues (e e' : Engine κ) (asked : List (CorrelationId × κ)) : Prop where
  self : e'.self = e.self
  endpoint : e'.endpoint = e.endpoint
  started : e'.started = e.started
  issued : e.issued ≤ e'.issued
  inFlight : ∀ q ∈ e'.inFlight, q ∈ e.inFlight ∨ q ∈ asked

namespace Continues

variable {e e' e'' : Engine κ} {asked : List (CorrelationId × κ)}

theorem refl (e : Engine κ) : Continues e e [] := ⟨rfl, rfl, rfl, Nat.le_refl _, fun _ h => .inl h⟩

theorem trans (h : Continues e e' asked) (h' : Continues e' e'' []) : Continues e e'' asked where
  self := h'.self.trans h.self
  endpoint := h'.endpoint.trans h.endpoint
  started := h'.started.trans h.started
  issued := Nat.le_trans h.issued h'.issued
  inFlight q hq := h.inFlight q ((h'.inFlight q hq).resolve_right List.not_mem_nil)

theorem of_sameQueries (h : SameQueries e e') : Continues e e' [] :=
  ⟨h.self, h.endpoint, h.started, h.issued, fun q hq => .inl (by rwa [h.inFlight] at hq)⟩

theorem announceTo (e : Engine κ) (facts : FactSet) (k : Nat) : Continues e (e.announceTo facts k).1 [] := by
  rw [announceTo_eq]
  exact ⟨rfl, rfl, rfl, Nat.le_succ _, fun _ h => .inl h⟩

theorem announce (e : Engine κ) (facts : FactSet) : Continues e (e.announce facts).1 [] := by
  obtain ⟨count, h⟩ := announce_eq e facts
  rw [h]
  exact ⟨rfl, rfl, rfl, Nat.le_add_right _ _, fun _ hq => .inl hq⟩

theorem shutdown (e : Engine κ) (limit : Nat) : Continues e (e.shutdown limit) [] := by
  rw [shutdown_eq]
  exact ⟨rfl, rfl, rfl, Nat.le_refl _, fun _ h => .inl h⟩

theorem onResponse (e : Engine κ) (m : Envelope) : Continues e (e.onResponse m).1 [] := by
  obtain ⟨inFlight, hsub, h⟩ := onResponse_eq e m
  rw [h]
  exact ⟨rfl, rfl, rfl, Nat.le_refl _, fun q hq => .inl (hsub.mem hq)⟩

theorem onAnnounce (e : Engine κ) (sender : Option Bytes) (facts : FactSet) :
    Continues e (e.onAnnounce sender facts) [] := by
  unfold Engine.onAnnounce
  split
  · exact refl e
  · exact ⟨rfl, rfl, rfl, Nat.le_refl _, fun _ h => .inl h⟩

theorem dispatch (e : Engine κ) (m : Envelope) (now : Nat) : Continues e (e.dispatch m now).1 [] := by
  unfold Engine.dispatch
  cases m.message with
  | hello address port =>
    cases m.sender with
    | none => exact refl e
    | some sender => exact of_sameQueries (sameQueries_onHello e sender address port now)
  | announce facts => exact onAnnounce e m.sender facts
  | query facts => exact refl e
  | response texts => exact onResponse e m

theorem submit (e : Engine κ) (m : Envelope) : Continues e (e.submit m).1 [] := by
  by_cases h : e.trackers = []
  · rw [submit_of_nil h]
    exact ⟨rfl, rfl, rfl, Nat.le_refl _, fun _ hq => .inl hq⟩
  · rw [submit_of_ne_nil h, spread_eq]
    exact ⟨rfl, rfl, rfl, Nat.le_refl _, fun _ hq => .inl hq⟩

theorem find (e : Engine κ) (facts : FactSet) (k : κ) :
    Continues e (e.find facts k).1
      (if e.stopped = false ∧ e.directory.query facts = [] then [(e.nextId, k)] else []) := by
  rcases find_cases e facts k with ⟨hs, h⟩ | ⟨-, hq, h⟩ | ⟨hs, hq, h⟩
  · rw [h, if_neg fun hh => absurd (hs.symm.trans hh.1) Bool.noConfusion]
    exact refl e
  · rw [h, if_neg fun hh => hq hh.2]
    exact refl e
  · rw [h, if_pos ⟨hs, hq⟩]
    have hs : Continues e (e.takeId.1.await e.nextId k) [(e.nextId, k)] := by
      refine ⟨rfl, rfl, rfl, Nat.le_succ _, fun q hq => ?_⟩
      exact (List.mem_append.1 hq).imp_left fun hq => (List.mem_filter.1 hq).1
    exact hs.trans (submit _ _)

theorem perform (e : Engine κ) {op : Operation κ} (hop : ∀ bound found beacons, op ≠ .start bound found beacons) :
    ∃ asked, Continues e (e.perform op) asked := by
  cases op with
  | beacon beacon now => exact ⟨_, of_sameQueries (sameQueries_onBeacon e beacon now)⟩
  | hello sender address port now => exact ⟨_, of_sameQueries (sameQueries_onHello e sender address port now)⟩
  | find facts k => exact ⟨_, find e facts k⟩
  | response envelope => exact ⟨_, onResponse e envelope⟩
  | announce facts => exact ⟨_, announce e facts⟩
  | announceTo facts link => exact ⟨_, announceTo e facts link⟩
  | start bound found beacons => exact absurd rfl (hop bound found beacons)
  | subscribe | unsubscribe | takeDiscovered | fill | fail =>
    exact ⟨[], rfl, rfl, rfl, Nat.le_refl _, fun _ hq => .inl hq⟩
  | shutdown limit => exact ⟨_, shutdown e limit⟩

end Continues

/-- An engine starts once, and keeps the endpoint that it has then. -/
theorem started_perform {e : Engine κ} (h : e.started = true) (op : Operation κ) :
    (e.perform op).started = true ∧ (e.perform op).endpoint = e.endpoint := by
  by_cases hop : ∃ bound found beacons, op = .start bound found beacons
  · obtain ⟨bound, found, beacons, rfl⟩ := hop
    rw [Engine.perform, start_eq, if_pos h]
    exact ⟨rfl, rfl⟩
  · obtain ⟨asked, hc⟩ := Continues.perform e fun bound found beacons hh => hop ⟨bound, found, beacons, hh⟩
    exact ⟨hc.started.trans h, hc.endpoint⟩

theorem started_after {e : Engine κ} (h : e.started = true) (ops : List (Operation κ)) :
    (e.after ops).started = true ∧ (e.after ops).endpoint = e.endpoint := by
  induction ops generalizing e with
  | nil => exact ⟨h, rfl⟩
  | cons op ops ih =>
    obtain ⟨hstarted, hendpoint⟩ := started_perform h op
    obtain ⟨h₁, h₂⟩ := ih hstarted
    exact ⟨h₁, h₂.trans hendpoint⟩

theorem issued_le_perform (e : Engine κ) (op : Operation κ) : e.issued ≤ (e.perform op).issued := by
  by_cases hop : ∃ bound found beacons, op = .start bound found beacons
  · obtain ⟨bound, found, beacons, rfl⟩ := hop
    exact Nat.le_of_eq (by rw [perform, start_eq])
  · obtain ⟨asked, hc⟩ := Continues.perform e fun bound found beacons hh => hop ⟨bound, found, beacons, hh⟩
    exact hc.issued

theorem issued_le_after (e : Engine κ) (ops : List (Operation κ)) : e.issued ≤ (e.after ops).issued := by
  induction ops generalizing e with
  | nil => exact Nat.le_refl _
  | cons op ops ih => exact Nat.le_trans (issued_le_perform e op) (ih (e.perform op))

end Engine
end Discovery
end PeerDiscovery
