import Mathlib.Data.List.Forall2
import PeerDiscovery.Proofs.Discovery.Answers
import PeerDiscovery.Proofs.Fleet.Continuing

/-! Whom a node tells of what its engine reports.
An engine never looks at the askers in its table. Two engines that differ only in their askers report the same endpoints,
and their askers go together still (`Tallies.find`, `Tallies.dispatch`). A node tells its subscriber of each endpoint
that is reported to a request, and of nothing else (`Tells`). -/
namespace PeerDiscovery
namespace Discovery

variable {κ κ' : Type}

/-- The tables have the same queries, and their askers go together. -/
def Tallies (R : κ → κ' → Prop) (table : List (CorrelationId × κ)) (table' : List (CorrelationId × κ')) : Prop :=
  List.Forall₂ (fun p q => p.1 = q.1 ∧ R p.2 q.2) table table'

/-- Operations that neither ask nor answer a query, and stop nothing. -/
def Operation.IsQuiet : Operation κ → Bool
  | .find .. | .response _ | .shutdown _ => false
  | _ => true

namespace Engine

def withTable (e : Engine κ) (table : List (CorrelationId × κ')) : Engine κ' where
  self := e.self
  closeLimit := e.closeLimit
  directory := e.directory
  endpoint := e.endpoint
  started := e.started
  stopped := e.stopped
  trackers := e.trackers
  links := e.links
  pending := e.pending
  inFlight := table
  issued := e.issued
  subscribers := e.subscribers

theorem found_find (e : Engine κ) (facts : FactSet) (k : κ) :
    (e.find facts k).2.2 = if e.stopped then [] else e.directory.query facts := by
  rcases find_cases e facts k with ⟨hs, h⟩ | ⟨hs, -, h⟩ | ⟨hs, hq, h⟩
  · rw [h, hs]
    rfl
  · rw [h, hs]
    rfl
  · rw [h, hs, hq]
    rfl

/-- A query that finds nothing in the directory is waited for under the next id. -/
theorem inFlight_find (e : Engine κ) (facts : FactSet) (k : κ) :
    (e.find facts k).1.inFlight =
      if e.stopped = false ∧ e.directory.query facts = [] then e.settled e.nextId ++ [(e.nextId, k)] else e.inFlight := by
  rcases find_cases e facts k with ⟨hs, h⟩ | ⟨-, hq, h⟩ | ⟨hs, hq, h⟩
  · rw [h, if_neg fun hh => absurd (hs.symm.trans hh.1) Bool.noConfusion]
  · rw [h, if_neg fun hh => hq hh.2]
  · rw [h, submit_eq, if_pos ⟨hs, hq⟩]
    rfl

theorem stopped_find (e : Engine κ) (facts : FactSet) (k : κ) : (e.find facts k).1.stopped = e.stopped := by
  rcases find_cases e facts k with ⟨-, h⟩ | ⟨-, -, h⟩ | ⟨-, -, h⟩
  · rw [h]
  · rw [h]
  · rw [h, submit_eq]
    rfl

/-- An envelope that answers a query in flight takes it out of the table, and its endpoints are reported. -/
theorem dispatch_of_answers {e : Engine κ} {m : Envelope} {texts : List String} {k : κ} (h : Answers m m.id texts)
    (hk : e.inFlight.lookup m.id = some k) (now : Nat) :
    e.dispatch m now = ({ e with inFlight := e.settled m.id }, { calls := calls k texts }) := by
  simp only [dispatch, h.message_eq, onResponse_of_answers h hk]

/-- Any other envelope leaves the table alone, and nothing is reported. -/
theorem dispatch_of_not_answers {e : Engine κ} {m : Envelope}
    (h : ∀ texts k, Answers m m.id texts → e.inFlight.lookup m.id ≠ some k) (now : Nat) :
    (e.dispatch m now).1.inFlight = e.inFlight ∧ (e.dispatch m now).2.calls = [] := by
  unfold dispatch
  cases hm : m.message with
  | hello address port =>
    cases m.sender with
    | none => exact ⟨rfl, rfl⟩
    | some sender => exact ⟨(sameQueries_onHello e sender address port now).inFlight, rfl⟩
  | announce facts =>
    refine ⟨?_, rfl⟩
    dsimp only [onAnnounce]
    split <;> rfl
  | query facts => exact ⟨rfl, rfl⟩
  | response texts =>
    have hnone : e.onResponse m = (e, []) := by
      cases hl : e.inFlight.lookup m.id with
      | none => exact onResponse_of_unknown hl
      | some k => exact onResponse_of_not_answers fun texts ha => h texts k ha hl
    rw [hnone]
    exact ⟨rfl, rfl⟩

theorem stopped_dispatch (e : Engine κ) (m : Envelope) (now : Nat) : (e.dispatch m now).1.stopped = e.stopped := by
  unfold dispatch
  cases m.message with
  | hello address port =>
    cases m.sender with
    | none => rfl
    | some sender => exact (sameQueries_onHello e sender address port now).stopped
  | announce facts =>
    dsimp only [onAnnounce]
    split <;> rfl
  | query facts => rfl
  | response texts =>
    obtain ⟨inFlight, -, h⟩ := onResponse_eq e m
    change (e.onResponse m).1.stopped = e.stopped
    rw [h]

theorem stopped_perform_of_isQuiet (e : Engine κ) {op : Operation κ} (h : op.IsQuiet = true) :
    (e.perform op).stopped = e.stopped := by
  cases op with
  | beacon beacon now => exact (sameQueries_onBeacon e beacon now).stopped
  | hello sender address port now => exact (sameQueries_onHello e sender address port now).stopped
  | find | response | shutdown => cases h
  | announce facts =>
    obtain ⟨n, h⟩ := announce_eq e facts
    rw [perform, h]
  | announceTo facts link =>
    rw [perform, announceTo_eq]
    rfl
  | start bound found beacons => rw [perform, start_eq]
  | subscribe | unsubscribe | takeDiscovered | fill | fail => rfl

theorem inFlight_perform_of_isQuiet (e : Engine κ) {op : Operation κ} (h : op.IsQuiet = true) :
    (e.perform op).inFlight = e.inFlight := by
  refine inFlight_perform ?_ ?_
  · rintro facts k rfl
    cases h
  · rintro envelope rfl
    cases h

end Engine

namespace Tallies

variable {R : κ → κ' → Prop} {table : List (CorrelationId × κ)} {table' : List (CorrelationId × κ')}

theorem lookup (h : Tallies R table table') (id : CorrelationId) :
    (table.lookup id = none ∧ table'.lookup id = none) ∨
      ∃ k k', table.lookup id = some k ∧ table'.lookup id = some k' ∧ R k k' := by
  induction h with
  | nil => exact .inl ⟨rfl, rfl⟩
  | @cons p q table table' hpq _ ih =>
    obtain ⟨i, k⟩ := p
    obtain ⟨i', k'⟩ := q
    obtain ⟨rfl, hk⟩ : i = i' ∧ R k k' := hpq
    by_cases hi : id = i
    · subst hi
      exact .inr ⟨k, k', List.lookup_cons_self, List.lookup_cons_self, hk⟩
    · have hne : (id == i) = false := beq_eq_false_iff_ne.2 hi
      simpa only [List.lookup_cons, hne] using ih

theorem filter (h : Tallies R table table') (id : CorrelationId) :
    Tallies R (table.filter fun p => p.1 ≠ id) (table'.filter fun p => p.1 ≠ id) :=
  List.rel_filter (fun p q hpq => by simp [hpq.1]) h

theorem mono {S : κ → κ' → Prop} (h : Tallies R table table') (hRS : ∀ k k', R k k' → S k k') :
    Tallies S table table' :=
  List.Forall₂.imp (fun _ _ hpq => ⟨hpq.1, hRS _ _ hpq.2⟩) h

theorem concat (h : Tallies R table table') (id : CorrelationId) {k : κ} {k' : κ'} (hk : R k k') :
    Tallies R (table ++ [(id, k)]) (table' ++ [(id, k')]) :=
  List.rel_append h (.cons ⟨rfl, hk⟩ .nil)

theorem reported {k : κ} {k' : κ'} (hk : R k k') (endpoints : List Endpoint) :
    List.Forall₂ (fun c c' => R c.1 c'.1 ∧ c.2 = c'.2) (endpoints.map fun endpoint => (k, endpoint))
      (endpoints.map fun endpoint => (k', endpoint)) :=
  List.forall₂_map_left_iff.2 (List.forall₂_map_right_iff.2 (List.forall₂_same.2 fun _ _ => ⟨hk, rfl⟩))

variable {e : Engine κ'}

theorem find (h : Tallies R table e.inFlight) (facts : FactSet) {k : κ} {k' : κ'} (hk : R k k') :
    Tallies R ((e.withTable table).find facts k).1.inFlight (e.find facts k').1.inFlight ∧
      ((e.withTable table).find facts k).2.2 = (e.find facts k').2.2 := by
  rw [Engine.found_find, Engine.found_find, Engine.inFlight_find, Engine.inFlight_find]
  refine ⟨?_, rfl⟩
  by_cases hg : e.stopped = false ∧ e.directory.query facts = []
  · rw [if_pos hg, if_pos (by exact hg)]
    exact (h.filter e.nextId).concat e.nextId hk
  · rw [if_neg hg, if_neg (by exact hg)]
    exact h

theorem dispatch (h : Tallies R table e.inFlight) (m : Envelope) (now : Nat) :
    Tallies R ((e.withTable table).dispatch m now).1.inFlight (e.dispatch m now).1.inFlight ∧
      List.Forall₂ (fun c c' => R c.1 c'.1 ∧ c.2 = c'.2) ((e.withTable table).dispatch m now).2.calls
        (e.dispatch m now).2.calls := by
  by_cases ha : ∃ texts k, Answers m m.id texts ∧ table.lookup m.id = some k
  · obtain ⟨texts, k, ha, hl⟩ := ha
    rcases h.lookup m.id with ⟨hn, -⟩ | ⟨k₁, k', hl₁, hl', hk⟩
    · cases hn.symm.trans hl
    · obtain rfl := Option.some.inj (hl₁.symm.trans hl)
      rw [Engine.dispatch_of_answers (e := e.withTable table) ha hl, Engine.dispatch_of_answers ha hl']
      exact ⟨h.filter m.id, reported hk _⟩
  · have hn : ∀ texts k, Answers m m.id texts → table.lookup m.id ≠ some k :=
      fun texts k hm hl => ha ⟨texts, k, hm, hl⟩
    have hn' : ∀ texts k', Answers m m.id texts → e.inFlight.lookup m.id ≠ some k' := by
      intro texts k' hm hl'
      rcases h.lookup m.id with ⟨-, hnone⟩ | ⟨k, _, hl, -, -⟩
      · cases hnone.symm.trans hl'
      · exact hn texts k hm hl
    obtain ⟨htable, hcalls⟩ := Engine.dispatch_of_not_answers (e := e.withTable table) hn now
    obtain ⟨htable', hcalls'⟩ := Engine.dispatch_of_not_answers hn' now
    rw [htable, hcalls, htable', hcalls']
    exact ⟨h, .nil⟩

end Tallies
end Discovery

namespace Node

open Discovery (Engine Operation Courier)
open Net (Network)

/-- The response that an asker gets to see for an endpoint, if it asked through the mailbox. -/
def Asker.answer? (asker : Asker) (endpoint : Endpoint) : Option Envelope :=
  match asker with
  | .caller _ => none
  | .request id token => some { id, token, message := .response [endpoint.text] }

def responses (calls : List (Asker × Endpoint)) : List Envelope := calls.filterMap fun c => c.1.answer? c.2

/-- A response is added, or takes the place of one that is lost. -/
theorem length_foldl_push (s : Subscription) (answers : List Envelope) :
    (answers.foldl Subscription.push s).queue.length + (answers.foldl Subscription.push s).lost =
      s.queue.length + s.lost + answers.length := by
  induction answers generalizing s with
  | nil => rfl
  | cons answer answers ih =>
    have hpush : (s.push answer).queue.length + (s.push answer).lost = s.queue.length + s.lost + 1 := by
      unfold Subscription.push
      split
      · simp only [List.length_append, List.length_singleton]
        omega
      · next hfull =>
        have hpos : 0 < s.queue.length := Nat.lt_of_lt_of_le (by decide) (Nat.le_of_not_lt hfull)
        simp only [List.length_append, List.length_drop, List.length_singleton]
        omega
    rw [List.foldl_cons, ih, hpush, List.length_cons]
    omega

/-- While there is room for them, responses are kept in their order. -/
theorem foldl_push {s : Subscription} {answers : List Envelope}
    (h : s.queue.length + answers.length ≤ subscriptionCapacity) :
    answers.foldl Subscription.push s = { s with queue := s.queue ++ answers } := by
  induction answers generalizing s with
  | nil => simp
  | cons answer answers ih =>
    rw [List.length_cons] at h
    have hpush : s.push answer = { s with queue := s.queue ++ [answer] } := by
      rw [Subscription.push, if_pos (by omega)]
    rw [List.foldl_cons, hpush, ih]
    · simp only [List.append_assoc, List.singleton_append]
    · simp only [List.length_append, List.length_singleton]
      omega

/-- What was reported has been told, and the pumps and what they listen to are as they were. -/
structure Tells (n n' : Node) (calls : List (Asker × Endpoint)) : Prop where
  stopped : n'.engine.stopped = n.engine.stopped
  pumps : n'.pumps = n.pumps
  listeners : n'.mailbox.listeners = n.mailbox.listeners
  subscriptions : n'.subscriptions = n.subscriptions.map fun s => (responses calls).foldl Subscription.push s

theorem subscriptions_tell (n : Node) (asker : Asker) (endpoint : Endpoint) :
    (n.tell asker endpoint).1.subscriptions =
      n.subscriptions.map fun s => (asker.answer? endpoint).toList.foldl Subscription.push s := by
  cases asker with
  | caller number => simp [tell, Asker.answer?]
  | request id token => rfl

theorem tells_tellAll (n : Node) (calls : List (Asker × Endpoint)) : Tells n (n.tellAll calls).1 calls := by
  obtain ⟨subscriptions, h⟩ := Fleet.tellAll_eq n calls
  refine ⟨by rw [h]; rfl, by rw [h], by rw [h]; rfl, ?_⟩
  clear subscriptions h
  induction calls generalizing n with
  | nil => simp [tellAll, responses]
  | cons call calls ih =>
    obtain ⟨asker, endpoint⟩ := call
    have hcons : responses ((asker, endpoint) :: calls) = (asker.answer? endpoint).toList ++ responses calls := by
      simp only [responses, List.filterMap_cons]
      cases asker.answer? endpoint <;> rfl
    have ht : (n.tellAll ((asker, endpoint) :: calls)).1 = ((n.tell asker endpoint).1.tellAll calls).1 := rfl
    rw [ht, ih, subscriptions_tell, List.map_map, hcons]
    simp only [Function.comp_def, List.foldl_append]

theorem tells_find (n : Node) (facts : FactSet) (asker : Asker) :
    Tells n (n.find facts asker).1 ((n.engine.find facts asker).2.2.map fun endpoint => (asker, endpoint)) := by
  have h := tells_tellAll (n.setEngine (n.engine.find facts asker).1)
    ((n.engine.find facts asker).2.2.map fun endpoint => (asker, endpoint))
  exact ⟨h.stopped.trans (n.engine.stopped_find facts asker), h.pumps, h.listeners, h.subscriptions⟩

theorem engine_tellAll (n : Node) (calls : List (Asker × Endpoint)) : (n.tellAll calls).1.engine = n.engine := by
  obtain ⟨subscriptions, h⟩ := Fleet.tellAll_eq n calls
  rw [h]
  rfl

theorem engine_find (n : Node) (facts : FactSet) (asker : Asker) :
    (n.find facts asker).1.engine = (n.engine.find facts asker).1 := engine_tellAll _ _

/-- A message from a peer changes the engine, and the mailbox may send a reply, which its listeners do not hear. -/
theorem dispatch_host (n : Node) (m : Envelope) (now : Nat) :
    (n.host.dispatch m now).1.engine = (n.engine.dispatch m now).1 ∧
      (n.host.dispatch m now).2 = (n.engine.dispatch m now).2.calls ∧
      (n.host.dispatch m now).1.mailbox.listeners = n.mailbox.listeners := by
  have hreply : ∀ reply, (n.engine.dispatch m now).2.reply = some reply → reply.sender ≠ none := by
    intro reply h
    simp only [Engine.dispatch] at h
    split at h
    · split at h <;> cases h
    · cases h
    · next facts _ =>
      simp only [Engine.replyTo] at h
      split at h
      · cases h
      · split at h
        · cases h
        · obtain rfl := Option.some.inj h
          nofun
    · cases h
  change ∀ reply, (n.host.engine.dispatch m now).2.reply = some reply → _ at hreply
  unfold Host.dispatch
  dsimp only
  split
  · exact ⟨rfl, rfl, rfl⟩
  · next reply hr =>
    refine ⟨rfl, rfl, ?_⟩
    cases hs : reply.sender with
    | none => exact absurd hs (hreply reply hr)
    | some identity =>
      simp only [Mailbox.send, hs]
      split <;> rfl

theorem engine_dispatch (n : Node) (m : Envelope) (now : Nat) :
    (n.dispatch m now).1.engine = (n.engine.dispatch m now).1 :=
  (engine_tellAll _ _).trans (dispatch_host n m now).1

theorem tells_dispatch (n : Node) (m : Envelope) (now : Nat) :
    Tells n (n.dispatch m now).1 (n.engine.dispatch m now).2.calls := by
  obtain ⟨hengine, hcalls, hlisteners⟩ := dispatch_host n m now
  have h := tells_tellAll (n.setHost (n.host.dispatch m now).1) (n.host.dispatch m now).2
  rw [hcalls] at h
  have hstopped : (n.host.dispatch m now).1.engine.stopped = n.engine.stopped := by
    rw [hengine, Engine.stopped_dispatch]
  change Tells n ((n.setHost (n.host.dispatch m now).1).tellAll (n.host.dispatch m now).2).1 _
  rw [hcalls]
  exact ⟨h.stopped.trans hstopped, h.pumps, h.listeners.trans hlisteners, h.subscriptions⟩

/-- Nothing was reported, and the queries in flight are as they were. -/
structure Rests (n n' : Node) : Prop where
  tells : Tells n n' []
  inFlight : n'.engine.inFlight = n.engine.inFlight

namespace Rests

variable {n n' n'' : Node} {net net' : Network}

theorem refl (n : Node) : Rests n n := ⟨⟨rfl, rfl, rfl, by simp [responses]⟩, rfl⟩

theorem trans (h : Rests n n') (h' : Rests n' n'') : Rests n n'' where
  tells :=
    { stopped := h'.tells.stopped.trans h.tells.stopped
      pumps := h'.tells.pumps.trans h.tells.pumps
      listeners := h'.tells.listeners.trans h.tells.listeners
      subscriptions := by
        rw [h'.tells.subscriptions, h.tells.subscriptions]
        simp [responses] }
  inFlight := h'.inFlight.trans h.inFlight

theorem setEngine (n : Node) {e : Engine Asker} (hs : e.stopped = n.engine.stopped)
    (hi : e.inFlight = n.engine.inFlight) : Rests n (n.setEngine e) :=
  ⟨⟨hs, rfl, rfl, by simp [responses, Node.setEngine]⟩, hi⟩

theorem perform (n : Node) {op : Operation Asker} (h : op.IsQuiet = true) : Rests n (n.setEngine (n.engine.perform op)) :=
  setEngine n (n.engine.stopped_perform_of_isQuiet h) (n.engine.inFlight_perform_of_isQuiet h)

theorem takeOn (n : Node) (facts : FactSet) : Rests n (Fleet.takeOn n facts) := by
  unfold Fleet.takeOn
  split
  · exact refl n
  · exact ⟨⟨rfl, rfl, rfl, by simp [responses]⟩, rfl⟩

theorem note (n : Node) (endpoint : Endpoint) (facts : FactSet) : Rests n (n.note endpoint facts) :=
  setEngine n rfl rfl

theorem noteOwn (n : Node) (facts : FactSet) : Rests n (Fleet.noteOwn n facts) := by
  unfold Fleet.noteOwn
  split
  · exact refl n
  · exact note n _ facts

theorem announceLocal (n : Node) (facts : FactSet) : Rests n (n.announceLocal facts).1 := by
  have hannounced : ∀ n : Node, Rests n (n.setEngine (n.engine.announce facts).1) := fun n =>
    perform n (show (Operation.announce facts).IsQuiet = true from rfl)
  rw [Fleet.announceLocal_eq]
  exact ((takeOn n facts).trans (noteOwn _ facts)).trans (hannounced _)

theorem discoveryWork? {calls : Node.Calls} (h : n.discoveryWork? net = some (net', n', calls)) : Rests n n' := by
  obtain ⟨pumps, -, h⟩ := Option.bind_eq_some_iff.1 h
  obtain ⟨⟨e, t⟩, ht, h⟩ := Option.bind_eq_some_iff.1 h
  obtain ⟨rfl, hn⟩ := Prod.mk.inj (Option.some.inj h)
  obtain ⟨rfl, -⟩ := Prod.mk.inj hn
  obtain ⟨s, rest, -, -, rfl⟩ := Engine.takeNext?_eq ht
  have hannounced : ∀ (hosted : List FactSet) (e : Engine Asker),
      (hosted.foldl (fun e facts => (e.announceTo facts t.link).1) e).stopped = e.stopped ∧
        (hosted.foldl (fun e facts => (e.announceTo facts t.link).1) e).inFlight = e.inFlight := by
    intro hosted
    induction hosted with
    | nil => exact fun e => ⟨rfl, rfl⟩
    | cons facts hosted ih =>
      intro e
      obtain ⟨hs, hi⟩ := ih (e.announceTo facts t.link).1
      rw [Engine.announceTo_eq] at hs hi
      rw [List.foldl_cons, Engine.announceTo_eq]
      exact ⟨hs, hi⟩
  obtain ⟨hs, hi⟩ := hannounced n.hosted _
  exact (setEngine n rfl rfl).trans (setEngine _ hs hi)

theorem courierWork? {k : Nat} {c : Courier} {calls : Node.Calls}
    (h : n.courierWork? net k c = some (net', n', calls)) : Rests n n' := by
  obtain ⟨link, -, h⟩ := Option.bind_eq_some_iff.1 h
  obtain ⟨⟨net₁, c', replies⟩, -, h⟩ := Option.bind_eq_some_iff.1 h
  obtain ⟨-, hn⟩ := Prod.mk.inj (Option.some.inj h)
  obtain ⟨rfl, -⟩ := Prod.mk.inj hn
  have hc : Rests n { n with couriers := n.couriers.set k c', inbound := n.inbound ++ replies } :=
    ⟨⟨rfl, rfl, rfl, by simp [responses]⟩, rfl⟩
  split
  · exact hc.trans (setEngine _ rfl rfl)
  · exact hc

end Rests
end Node
end PeerDiscovery
