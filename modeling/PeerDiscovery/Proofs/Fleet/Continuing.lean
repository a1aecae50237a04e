import Mathlib.Data.Option.Basic
import PeerDiscovery.Proofs.Discovery.Run
import PeerDiscovery.Proofs.Fleet.System

/-! What stays of a node whatever it does, but for a start: who it is, where it is, its services, and whether it
was started. -/
namespace PeerDiscovery
namespace Fleet

open Discovery (Engine Courier Tracker Operation)
open Net (Network)
open Node (Asker)

variable {net net' : Network} {n n' : Node}

/-- The node is the same one with the same endpoint, still has its services, and waits for these queries at most
besides. -/
structure Continues (n n' : Node) (asked : List (CorrelationId × Asker)) : Prop where
  engine : Engine.Continues n.engine n'.engine asked
  hosted : ∀ facts ∈ n.hosted, facts ∈ n'.hosted
  used : n'.used = n.used

namespace Continues

variable {n'' : Node} {asked : List (CorrelationId × Asker)}

theorem refl (n : Node) : Continues n n [] := ⟨.refl n.engine, fun _ h => h, rfl⟩

theorem trans (h : Continues n n' asked) (h' : Continues n' n'' []) : Continues n n'' asked :=
  ⟨h.engine.trans h'.engine, fun facts hf => h'.hosted facts (h.hosted facts hf), h'.used.trans h.used⟩

theorem setEngine {e : Engine Asker} (n : Node) (h : Engine.Continues n.engine e asked) :
    Continues n (n.setEngine e) asked := ⟨h, fun _ hf => hf, rfl⟩

theorem setMailbox (n : Node) (mailbox : Mailbox) : Continues n (n.setMailbox mailbox) [] :=
  ⟨.refl n.engine, fun _ h => h, rfl⟩

end Continues

theorem tellAll_eq (n : Node) (calls : List (Asker × Endpoint)) :
    ∃ subscriptions, (n.tellAll calls).1 = { n with subscriptions } := by
  induction calls generalizing n with
  | nil => exact ⟨n.subscriptions, rfl⟩
  | cons call calls ih =>
    obtain ⟨asker, endpoint⟩ := call
    have ht : ∃ subscriptions, (n.tell asker endpoint).1 = { n with subscriptions } := by
      cases asker with
      | caller number => exact ⟨n.subscriptions, rfl⟩
      | request id token => exact ⟨_, rfl⟩
    obtain ⟨subscriptions, ht⟩ := ht
    obtain ⟨subscriptions', h⟩ := ih (n.tell asker endpoint).1
    refine ⟨subscriptions', ?_⟩
    rw [ht] at h
    exact (congrArg (fun m : Node => (m.tellAll calls).1) ht).trans h

theorem Continues.tellAll {asked : List (CorrelationId × Asker)} (h : Continues n n' asked)
    (calls : List (Asker × Endpoint)) : Continues n (n'.tellAll calls).1 asked := by
  obtain ⟨subscriptions, ht⟩ := tellAll_eq n' calls
  rw [ht]
  exact ⟨h.engine, h.hosted, h.used⟩

theorem Continues.dispatch (n : Node) (m : Envelope) (now : Nat) : Continues n (n.dispatch m now).1 [] := by
  have he : (n.host.dispatch m now).1.engine = (n.engine.dispatch m now).1 := by
    unfold Host.dispatch
    dsimp only
    split <;> rfl
  have hh : Continues n (n.setHost (n.host.dispatch m now).1) [] := by
    refine ⟨?_, fun _ hf => hf, rfl⟩
    change n.engine.Continues (n.host.dispatch m now).1.engine []
    rw [he]
    exact .dispatch n.engine m now
  exact hh.tellAll _

theorem Continues.find (n : Node) (facts : FactSet) (asker : Asker) :
    Continues n (n.find facts asker).1 (if GoesOut n facts then [(n.engine.nextId, asker)] else []) :=
  (Continues.setEngine n (Engine.Continues.find n.engine facts asker)).tellAll _

def takeOn (n : Node) (facts : FactSet) : Node :=
  if facts ∈ n.hosted then n else { n with hosted := n.hosted ++ [facts] }

def noteOwn (n : Node) (facts : FactSet) : Node :=
  match n.engine.endpoint with
  | none => n
  | some own => n.note own facts

theorem announceLocal_eq (n : Node) (facts : FactSet) :
    (n.announceLocal facts).1 = (noteOwn (takeOn n facts) facts).setEngine
      ((noteOwn (takeOn n facts) facts).engine.announce facts).1 := rfl

theorem mem_takeOn (n : Node) (facts : FactSet) : facts ∈ (takeOn n facts).hosted := by
  unfold takeOn
  split
  · next h => exact h
  · exact List.mem_append_right _ List.mem_cons_self

theorem hosted_noteOwn (n : Node) (facts : FactSet) : (noteOwn n facts).hosted = n.hosted := by
  unfold noteOwn
  split <;> rfl

theorem mem_announceLocal (n : Node) (facts : FactSet) : facts ∈ (n.announceLocal facts).1.hosted := by
  have hh : (n.announceLocal facts).1.hosted = (noteOwn (takeOn n facts) facts).hosted := rfl
  rw [hh, hosted_noteOwn]
  exact mem_takeOn n facts

theorem continues_note (n : Node) (endpoint : Endpoint) (facts : FactSet) : Continues n (n.note endpoint facts) [] :=
  .setEngine n ⟨rfl, rfl, rfl, Nat.le_refl _, fun _ h => .inl h⟩

theorem continues_takeOn (n : Node) (facts : FactSet) : Continues n (takeOn n facts) [] := by
  unfold takeOn
  split
  · exact .refl n
  · exact ⟨.refl n.engine, fun _ h => List.mem_append_left _ h, rfl⟩

theorem continues_noteOwn (n : Node) (facts : FactSet) : Continues n (noteOwn n facts) [] := by
  unfold noteOwn
  split
  · exact .refl n
  · exact continues_note n _ facts

theorem continues_announceLocal (n : Node) (facts : FactSet) : Continues n (n.announceLocal facts).1 [] := by
  rw [announceLocal_eq]
  exact ((continues_takeOn n facts).trans (continues_noteOwn _ facts)).trans
    (.setEngine _ (Engine.Continues.announce _ facts))

theorem continues_beacon (n : Node) (b : Beacon) (now : Nat) :
    Continues n (n.setEngine (n.engine.onBeacon b now)) [] :=
  .setEngine n (.of_sameQueries (Engine.sameQueries_onBeacon n.engine b now))

theorem continues_closeOn (net : Network) (n : Node) (limit : Nat) :
    Continues n ((n.setEngine (n.engine.shutdown limit)).setMailbox (n.mailbox.closeOn net).2) [] :=
  (Continues.setEngine n (.shutdown n.engine limit)).trans (.setMailbox _ _)

theorem continues_shutdown (net : Network) (n : Node) (limit : Nat) : Continues n (n.shutdown net limit).2 [] := by
  unfold Node.shutdown
  cases n.pumps with
  | none => exact continues_closeOn net n limit
  | some pumps =>
    obtain ⟨listener, subscriber⟩ := pumps
    have hc : Continues n { (n.setEngine (n.engine.unsubscribe subscriber)).setMailbox
        (n.mailbox.dropListener listener) with pumps := none } [] :=
      ⟨⟨rfl, rfl, rfl, Nat.le_refl _, fun _ hq => .inl hq⟩, fun _ hf => hf, rfl⟩
    exact hc.trans (continues_closeOn net _ limit)

theorem continues_release (n : Node) : Continues n n.release [] := by
  unfold Node.release
  split
  · exact .refl n
  · exact ⟨.refl n.engine, fun _ hf => hf, rfl⟩

theorem continues_nextEvent? {event : Mailbox.Event} (h : nextEvent? n = some (n', event)) :
    n'.engine = n.engine ∧ Continues n n' [] := by
  obtain ⟨pumps, -, h⟩ := Option.bind_eq_some_iff.1 h
  obtain ⟨⟨mailbox, event'⟩, -, h⟩ := Option.bind_eq_some_iff.1 h
  obtain ⟨rfl, rfl⟩ := Prod.mk.inj (Option.some.inj h)
  exact ⟨rfl, .setMailbox n mailbox⟩

theorem continues_inboundWork? {now : Nat} {calls : Node.Calls} (h : n.inboundWork? net now = some (net', n', calls)) :
    net' = net ∧ Continues n n' [] := by
  obtain ⟨_, -, h⟩ := Option.bind_eq_some_iff.1 h
  split at h
  · cases h
  · next m rest _ =>
    cases h
    have hc : Continues n { n with inbound := rest } [] := ⟨.refl n.engine, fun _ hf => hf, rfl⟩
    exact ⟨rfl, hc.trans (.dispatch _ m now)⟩

theorem continues_announceHostedTo (n : Node) (t : Tracker) : Continues n (n.announceHostedTo t) [] := by
  have hh : ∀ (hosted : List FactSet) (e : Engine Asker),
      Engine.Continues e (hosted.foldl (fun e facts => (e.announceTo facts t.link).1) e) [] := by
    intro hosted
    induction hosted with
    | nil => exact fun e => .refl e
    | cons facts hosted ih => exact fun e => (Engine.Continues.announceTo e facts t.link).trans (ih _)
  exact .setEngine n (hh n.hosted n.engine)

theorem continues_discoveryWork? {calls : Node.Calls} (h : n.discoveryWork? net = some (net', n', calls)) :
    net' = net ∧ Continues n n' [] := by
  obtain ⟨pumps, -, h⟩ := Option.bind_eq_some_iff.1 h
  obtain ⟨⟨e, t⟩, ht, h⟩ := Option.bind_eq_some_iff.1 h
  obtain ⟨rfl, hn⟩ := Prod.mk.inj (Option.some.inj h)
  obtain ⟨rfl, -⟩ := Prod.mk.inj hn
  have he : Engine.Continues n.engine e [] := by
    unfold Engine.takeNext? at ht
    split at ht
    · cases ht
    · split at ht
      · cases ht
      · obtain ⟨rfl, -⟩ := Prod.mk.inj (Option.some.inj ht)
        exact ⟨rfl, rfl, rfl, Nat.le_refl _, fun _ hq => .inl hq⟩
  exact ⟨rfl, (Continues.setEngine n he).trans (continues_announceHostedTo _ t)⟩

theorem continues_courierWork? {k : Nat} {c : Courier} {calls : Node.Calls}
    (h : n.courierWork? net k c = some (net', n', calls)) : Continues n n' [] := by
  obtain ⟨link, -, h⟩ := Option.bind_eq_some_iff.1 h
  obtain ⟨⟨net₁, c', replies⟩, -, h⟩ := Option.bind_eq_some_iff.1 h
  obtain ⟨-, hn⟩ := Prod.mk.inj (Option.some.inj h)
  obtain ⟨rfl, -⟩ := Prod.mk.inj hn
  have hc : Continues n { n with couriers := n.couriers.set k c', inbound := n.inbound ++ replies } [] :=
    ⟨.refl n.engine, fun _ hf => hf, rfl⟩
  split
  · exact hc.trans (.setEngine _ ⟨rfl, rfl, rfl, Nat.le_refl _, fun _ hq => .inl hq⟩)
  · exact hc

/-- Work on an event is the handling of it by the node without it. -/
theorem eventWork?_eq (net : Network) (n : Node) (now : Nat) :
    n.eventWork? net now = (nextEvent? n).map fun (m, event) =>
      match event with
      | .received envelope => (net, m.dispatch envelope now)
      | .sent envelope => (net, m.onRequest envelope) := by
  unfold Node.eventWork? nextEvent?
  cases n.pumps with
  | none => rfl
  | some pumps =>
    obtain ⟨listener, subscriber⟩ := pumps
    cases ht : n.mailbox.takeEvent? listener with
    | none => simp [ht]
    | some taken =>
      obtain ⟨mailbox, event⟩ := taken
      cases event <;> simp [ht]

theorem continues_onRequest (n : Node) (m : Envelope) : ∃ asked, Continues n (n.onRequest m).1 asked := by
  unfold Node.onRequest
  split
  · exact ⟨_, .find n _ _⟩
  · exact ⟨_, continues_announceLocal n _⟩
  · exact ⟨_, .refl n⟩

theorem continues_eventWork? {now : Nat} {calls : Node.Calls} (h : n.eventWork? net now = some (net', n', calls)) :
    ∃ asked, Continues n n' asked := by
  rw [eventWork?_eq] at h
  obtain ⟨⟨m, event⟩, he, h⟩ := Option.map_eq_some_iff.1 h
  obtain ⟨hengine, hc⟩ := continues_nextEvent? he
  cases event with
  | received e =>
    obtain ⟨-, hn⟩ := Prod.mk.inj h
    obtain rfl : (m.dispatch e now).1 = n' := congrArg Prod.fst hn
    exact ⟨_, hc.trans (.dispatch m e now)⟩
  | sent e =>
    obtain ⟨-, hn⟩ := Prod.mk.inj h
    obtain rfl : (m.onRequest e).1 = n' := congrArg Prod.fst hn
    obtain ⟨asked, hr⟩ := continues_onRequest m e
    refine ⟨asked, ⟨?_, fun facts hf => hr.hosted facts (hc.hosted facts hf), hr.used.trans hc.used⟩⟩
    rw [← hengine]
    exact hr.engine

theorem continues_work? {now : Nat} {calls : Node.Calls} (h : n.work? net now = some (net', n', calls)) :
    ∃ asked, Continues n n' asked := by
  simp only [Node.work?, Option.orElse_eq_some] at h
  rcases h with h | ⟨-, h | ⟨-, h | ⟨-, h | ⟨-, h⟩⟩⟩⟩
  · obtain ⟨⟨net₁, mailbox⟩, -, h⟩ := Option.map_eq_some_iff.1 h
    obtain ⟨-, hn⟩ := Prod.mk.inj h
    obtain rfl : n.setMailbox mailbox = n' := congrArg Prod.fst hn
    exact ⟨_, .setMailbox n mailbox⟩
  · exact continues_eventWork? h
  · exact ⟨_, (continues_inboundWork? h).2⟩
  · exact ⟨_, (continues_discoveryWork? h).2⟩
  · obtain ⟨⟨c, link⟩, -, h⟩ := List.exists_of_findSome?_eq_some h
    exact ⟨_, continues_courierWork? h⟩

end Fleet
end PeerDiscovery
