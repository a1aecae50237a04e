import Mathlib.Data.List.Induction
import PeerDiscovery.Proofs.Mailbox.Listeners
import PeerDiscovery.Proofs.Node.Telling

/-! The queries that are made of a node, by numbers.
A node knows a request by its id and its token, which may be those of others too, and its engine knows a query by an id of
its own. A docket keeps beside the node the table that its engine would have if each query had come from an asker of its
own, with its number for a name, and all that such an engine reports. What is reported of a query is what the directory has
for it, or else what is in the first answer to it (`reportsOf_ask`, `reportsOf_hear`), and nothing after that
(`Settled.after`). -/
namespace PeerDiscovery

namespace Mailbox

/-- An act that neither takes the events of a listener nor sends it away. -/
def Act.Spares (a : Act) (k : Nat) : Prop :=
  match a with
  | .move (.unlisten j) | .move (.next j) | .move (.take j) => j ≠ k
  | _ => True

instance (a : Act) (k : Nat) : Decidable (a.Spares k) := by
  unfold Act.Spares
  split <;> infer_instance

/-- A listener that is spared has in its queue what it had and the event that is raised, if one is. -/
theorem listener_act {m : Mailbox} {a : Act} {k : Nat} {queue : List Event} (ha : a.Spares k)
    (hk : m.listeners[k]? = some { queue }) :
    (m.act a).listeners[k]? = some { queue := queue ++ (m.raises? a).toList } := by
  cases hr : m.raises? a with
  | some event =>
    rw [(listeners_act_of_raises (k := k) hr).1, emit, List.getElem?_map, hk]
    rfl
  | none =>
    rw [Option.toList_none, List.append_nil]
    cases hl : a.listens with
    | true =>
      obtain rfl := (listens_iff a).1 hl
      exact getElem?_append_of_some hk _
    | false =>
      rcases act_cases_of_quiet hr hl with ⟨j, rfl⟩ | ⟨j, rfl⟩ | ⟨j, rfl⟩ | ⟨hsame, -⟩
      · exact (List.getElem?_modify_ne _ _ ha).trans hk
      · simp only [act, Office.go]
        split
        · exact hk
        · next ht =>
          obtain ⟨l, rest, -, -, rfl⟩ := exists_of_takeEvent? ht
          exact (List.getElem?_set_ne ha).trans hk
      · exact (List.getElem?_modify_ne _ _ ha).trans hk
      · rw [hsame, hk]

end Mailbox

namespace Node

open Discovery (Engine Operation Answers Tallies)
open Fleet (nextEvent?)
open Net (Network)

/-- The pumps of the node run, and these events wait for the one that listens to the mailbox. -/
def Waits (n : Node) (queue : List Mailbox.Event) : Prop :=
  ∃ listener subscriber, n.pumps = some (listener, subscriber) ∧ n.mailbox.listeners[listener]? = some { queue }

/-- A node, and the queries that were made of it. -/
structure Docket where
  node : Node
  /-- Who made each query, by its number. -/
  askers : List Asker
  /-- The queries in flight, by their numbers. -/
  table : List (CorrelationId × Nat)
  /-- What was reported of each query, in order. -/
  reports : List (Nat × Endpoint) := []
  /-- The responses that each subscriber has taken. -/
  taken : Nat → List Envelope := fun _ => []
  /-- The events that the mailbox has raised. -/
  raised : List Mailbox.Event := []
  /-- The events that the node has handled. -/
  handled : List Mailbox.Event := []

namespace Docket

/-- What can happen to a node that runs, each on the network as it is by then. -/
inductive Move where
  /-- Something happens to the mailbox, or a request is sent. -/
  | mailbox (a : Mailbox.Act)
  /-- The node handles the next event of its mailbox. -/
  | event (now : Nat)
  /-- It handles the next envelope that its couriers handed on. -/
  | inbound (now : Nat)
  /-- It announces its services to the next tracker. -/
  | discovery (network : Network)
  | courier (network : Network) (link : Nat)
  /-- Something happens to the engine that has to do with no query. -/
  | engine (op : Operation Asker)
  | host (facts : FactSet)
  | find (facts : FactSet) (caller : Nat)
  /-- Somebody subscribes to the responses. -/
  | subscribe
  /-- A subscriber takes some of the responses that it has. -/
  | take (subscriber count : Nat)

/-- A docket for a node, with the queries that it has in flight. -/
def «open» (n : Node) : Docket where
  node := n
  askers := n.engine.inFlight.map Prod.snd
  table := (n.engine.inFlight.map Prod.fst).zipIdx

/-- The engine of the node, had its queries come from askers with their numbers for names. -/
def numbered (d : Docket) (e : Engine Asker) : Engine Nat := e.withTable d.table

/-- A query is made, as the next one. -/
def ask (d : Docket) (e : Engine Asker) (facts : FactSet) (asker : Asker) : Docket :=
  let (e, _, found) := (d.numbered e).find facts d.askers.length
  { d with
    askers := d.askers ++ [asker]
    table := e.inFlight
    reports := d.reports ++ found.map fun endpoint => (d.askers.length, endpoint) }

/-- An envelope comes in that may answer a query. -/
def hear (d : Docket) (e : Engine Asker) (envelope : Envelope) (now : Nat) : Docket :=
  let (e, answer) := (d.numbered e).dispatch envelope now
  { d with table := e.inFlight, reports := d.reports ++ answer.calls }

/-- A request comes in that may be a query. -/
def request (d : Docket) (e : Engine Asker) (envelope : Envelope) : Docket :=
  match envelope.message with
  | .query facts => d.ask e facts (.request envelope.id envelope.token)
  | _ => d

/-- The node has done something that has to do with no query. -/
def rest (d : Docket) (work : Option Node.Work) : Docket :=
  match work with
  | none => d
  | some (_, node, _) => { d with node }

def go (d : Docket) : Move → Docket
  | .mailbox a =>
    match d.node.pumps with
    | none => d
    | some (listener, _) =>
      if a.Spares listener then
        { d with
          node := d.node.setMailbox (d.node.mailbox.act a)
          raised := d.raised ++ (d.node.mailbox.raises? a).toList }
      else d
  | .event now =>
    match nextEvent? d.node with
    | none => d
    | some (n, .received e) =>
      { d.hear n.engine e now with node := (n.dispatch e now).1, handled := d.handled ++ [.received e] }
    | some (n, .sent e) =>
      { d.request n.engine e with node := (n.onRequest e).1, handled := d.handled ++ [.sent e] }
  | .inbound now =>
    match d.node.pumps, d.node.inbound with
    | some _, e :: inbound =>
      { d.hear d.node.engine e now with node := ({ d.node with inbound }.dispatch e now).1 }
    | _, _ => d
  | .discovery network => d.rest (d.node.discoveryWork? network)
  | .courier network link => d.rest (d.node.couriers[link]?.bind (d.node.courierWork? network link))
  | .engine op => if op.IsQuiet then { d with node := d.node.setEngine (d.node.engine.perform op) } else d
  | .host facts => { d with node := (d.node.announceLocal facts).1 }
  | .find facts caller =>
    { d.ask d.node.engine facts (.caller caller) with node := (d.node.find facts (.caller caller)).1 }
  | .subscribe => { d with node := d.node.subscribe.1 }
  | .take k count =>
    match d.node.subscriptions[k]? with
    | none => d
    | some s =>
      let (s, responses) := s.take count
      { d with
        node.subscriptions := d.node.subscriptions.set k s
        taken := fun j => if j = k then d.taken k ++ responses else d.taken j }

def after (d : Docket) (ms : List Move) : Docket := ms.foldl go d

theorem after_append (d : Docket) (ms ms' : List Move) : d.after (ms ++ ms') = (d.after ms).after ms' :=
  List.foldl_append

theorem after_concat (d : Docket) (ms : List Move) (m : Move) : d.after (ms ++ [m]) = (d.after ms).go m :=
  d.after_append ms [m]

theorem after_cons (d : Docket) (m : Move) (ms : List Move) : d.after (m :: ms) = (d.go m).after ms := rfl

/-- The envelope that a move takes in from a peer. -/
def heard? (d : Docket) : Move → Option Envelope
  | .event _ =>
    match nextEvent? d.node with
    | some (_, .received e) => some e
    | _ => none
  | .inbound _ => if d.node.pumps = none then none else d.node.inbound.head?
  | _ => none

/-- What was reported of a query. -/
def reportsOf (d : Docket) (k : Nat) : List Endpoint := d.reports.filterMap fun r => if r.1 = k then some r.2 else none

/-- The response to be published for a report, if its query is a request. -/
def answer? (d : Docket) (r : Nat × Endpoint) : Option Envelope := d.askers[r.1]?.bind fun asker => asker.answer? r.2

/-- The responses to be published. -/
def published (d : Docket) : List Envelope := d.reports.filterMap d.answer?

/-- The node has the queries of the table in flight, each for who made it. -/
def Named (d : Docket) : Prop := Tallies (fun k asker => d.askers[k]? = some asker) d.table d.node.engine.inFlight

/-- What a move does to the queries: nothing, or one is made and reported at once, or one is made and goes out, or one
that is in flight is answered. -/
inductive Change (d d' : Docket) : Prop where
  | quiet (askers : d'.askers = d.askers) (table : d'.table = d.table) (reports : d'.reports = d.reports)
  | found (asker : Asker) (endpoints : List Endpoint) (askers : d'.askers = d.askers ++ [asker])
    (table : d'.table = d.table)
    (reports : d'.reports = d.reports ++ endpoints.map fun endpoint => (d.askers.length, endpoint))
  | asked (asker : Asker) (id : CorrelationId) (askers : d'.askers = d.askers ++ [asker])
    (table : d'.table = (d.table.filter fun p => p.1 ≠ id) ++ [(id, d.askers.length)]) (reports : d'.reports = d.reports)
  | answered (id : CorrelationId) (k : Nat) (texts : List String) (lookup : d.table.lookup id = some k)
    (askers : d'.askers = d.askers) (table : d'.table = d.table.filter fun p => p.1 ≠ id)
    (reports : d'.reports = d.reports ++ Engine.calls k texts)

variable {d d' : Docket}

theorem change_ask (d : Docket) (e : Engine Asker) (facts : FactSet) (asker : Asker) : Change d (d.ask e facts asker) := by
  have htable := (d.numbered e).inFlight_find facts d.askers.length
  by_cases hg : e.stopped = false ∧ e.directory.query facts = []
  · have hfound : ((d.numbered e).find facts d.askers.length).2.2 = [] := by
      rw [Engine.found_find]
      change (if e.stopped then [] else e.directory.query facts) = []
      rw [hg.2, ite_self]
    refine .asked asker e.nextId rfl (htable.trans (if_pos hg)) ?_
    simp only [ask, hfound, List.map_nil, List.append_nil]
  · exact .found asker _ rfl (htable.trans (if_neg hg)) rfl

theorem change_hear (d : Docket) (e : Engine Asker) (m : Envelope) (now : Nat) : Change d (d.hear e m now) := by
  by_cases ha : ∃ texts k, Answers m m.id texts ∧ d.table.lookup m.id = some k
  · obtain ⟨texts, k, ha, hl⟩ := ha
    have h := Engine.dispatch_of_answers (e := d.numbered e) ha hl now
    refine .answered m.id k texts hl rfl ?_ ?_
    · simp only [hear, h]
      rfl
    · simp only [hear, h]
  · obtain ⟨htable, hcalls⟩ := Engine.dispatch_of_not_answers (e := d.numbered e)
      (fun texts k hm hl => ha ⟨texts, k, hm, hl⟩) now
    refine .quiet rfl htable ?_
    simp only [hear, hcalls, List.append_nil]

theorem change_request (d : Docket) (e : Engine Asker) (m : Envelope) : Change d (d.request e m) := by
  unfold request
  split
  · exact change_ask d e _ _
  · exact .quiet rfl rfl rfl

/-- What a move does to the queries does not depend on anything else of the docket. -/
theorem Change.of_eq {d'' : Docket} (h : Change d d') (askers : d''.askers = d'.askers) (table : d''.table = d'.table)
    (reports : d''.reports = d'.reports) : Change d d'' := by
  cases h with
  | quiet ha ht hr => exact .quiet (askers.trans ha) (table.trans ht) (reports.trans hr)
  | found asker endpoints ha ht hr => exact .found asker endpoints (askers.trans ha) (table.trans ht) (reports.trans hr)
  | asked asker id ha ht hr => exact .asked asker id (askers.trans ha) (table.trans ht) (reports.trans hr)
  | answered id k texts hl ha ht hr =>
    exact .answered id k texts hl (askers.trans ha) (table.trans ht) (reports.trans hr)

theorem change_rest (d : Docket) (work : Option Node.Work) : Change d (d.rest work) := by
  unfold rest
  split <;> exact .quiet rfl rfl rfl

theorem change_go (d : Docket) (m : Move) : Change d (d.go m) := by
  cases m with
  | mailbox a =>
    simp only [go]
    split
    · exact .quiet rfl rfl rfl
    · split <;> exact .quiet rfl rfl rfl
  | event now =>
    simp only [go]
    split
    · exact .quiet rfl rfl rfl
    · next n e _ => exact (change_hear d n.engine e now).of_eq rfl rfl rfl
    · next n e _ => exact (change_request d n.engine e).of_eq rfl rfl rfl
  | inbound now =>
    simp only [go]
    split
    · next e inbound _ _ => exact (change_hear d d.node.engine e now).of_eq rfl rfl rfl
    · exact .quiet rfl rfl rfl
  | discovery network => exact change_rest d _
  | courier network link => exact change_rest d _
  | engine op =>
    simp only [go]
    split <;> exact .quiet rfl rfl rfl
  | host facts => exact .quiet rfl rfl rfl
  | find facts caller => exact (change_ask d d.node.engine facts _).of_eq rfl rfl rfl
  | subscribe => exact .quiet rfl rfl rfl
  | take k count =>
    simp only [go]
    split <;> exact .quiet rfl rfl rfl

/-- The numbers of a docket: a query in flight has one of its own, and nothing was reported of it. -/
structure Numbered (d : Docket) : Prop where
  table : ∀ p ∈ d.table, p.2 < d.askers.length
  nodup : (d.table.map Prod.snd).Nodup
  reports : ∀ r ∈ d.reports, r.1 < d.askers.length
  waiting : ∀ p ∈ d.table, ∀ r ∈ d.reports, r.1 ≠ p.2

/-- Where the queries in flight have numbers of their own, one that is looked up has only the one entry. -/
theorem ne_of_mem_filter {table : List (CorrelationId × Nat)} (h : (table.map Prod.snd).Nodup) {id : CorrelationId}
    {k : Nat} (hl : table.lookup id = some k) {p : CorrelationId × Nat} (hp : p ∈ table.filter fun p => p.1 ≠ id) :
    p.2 ≠ k := by
  rintro rfl
  obtain ⟨hp, hne⟩ := List.mem_filter.1 hp
  have heq := List.inj_on_of_nodup_map h hp (mem_of_lookup hl) rfl
  exact of_decide_eq_true hne (congrArg Prod.fst heq)

theorem mem_calls {k : Nat} {texts : List String} {r : Nat × Endpoint} (h : r ∈ Engine.calls k texts) : r.1 = k := by
  obtain ⟨endpoint, -, rfl⟩ := List.mem_map.1 h
  rfl

theorem Numbered.change (h : d.Numbered) (hc : Change d d') : d'.Numbered := by
  obtain ⟨htable, hnodup, hreports, hwaiting⟩ := h
  have hlt : ∀ {k n : Nat}, k < n → k < n + 1 := fun h => Nat.lt_succ_of_lt h
  cases hc with
  | quiet ha ht hr => exact ⟨by rwa [ht, ha], by rwa [ht], by rwa [hr, ha], by rwa [ht, hr]⟩
  | found asker endpoints ha ht hr =>
    have hlen : d'.askers.length = d.askers.length + 1 := by rw [ha, List.length_append, List.length_singleton]
    refine ⟨?_, by rwa [ht], ?_, ?_⟩
    · rw [ht, hlen]
      exact fun p hp => hlt (htable p hp)
    · rw [hr, hlen]
      intro r hr
      rcases List.mem_append.1 hr with hr | hr
      · exact hlt (hreports r hr)
      · obtain ⟨endpoint, -, rfl⟩ := List.mem_map.1 hr
        exact Nat.lt_succ_self _
    · rw [ht, hr]
      intro p hp r hr
      rcases List.mem_append.1 hr with hr | hr
      · exact hwaiting p hp r hr
      · obtain ⟨endpoint, -, rfl⟩ := List.mem_map.1 hr
        exact (Nat.ne_of_lt (htable p hp)).symm
  | asked asker id ha ht hr =>
    have hlen : d'.askers.length = d.askers.length + 1 := by rw [ha, List.length_append, List.length_singleton]
    have hmem : ∀ p ∈ d'.table, p ∈ d.table ∨ p = (id, d.askers.length) := by
      rw [ht]
      intro p hp
      exact (List.mem_append.1 hp).imp (fun hp => (List.mem_filter.1 hp).1) List.mem_singleton.1
    refine ⟨?_, ?_, ?_, ?_⟩
    · rw [hlen]
      intro p hp
      rcases hmem p hp with hp | rfl
      · exact hlt (htable p hp)
      · exact Nat.lt_succ_self _
    · rw [ht, List.map_append, List.nodup_append]
      refine ⟨hnodup.sublist (List.filter_sublist.map _), by simp, fun k hk j hj => ?_⟩
      obtain ⟨p, hp, rfl⟩ := List.mem_map.1 hk
      obtain rfl : j = d.askers.length := by simpa using hj
      exact Nat.ne_of_lt (htable p (List.mem_filter.1 hp).1)
    · rw [hr, hlen]
      exact fun r hr => hlt (hreports r hr)
    · rw [hr]
      intro p hp r hr
      rcases hmem p hp with hp | rfl
      · exact hwaiting p hp r hr
      · exact Nat.ne_of_lt (hreports r hr)
  | answered id k texts hl ha ht hr =>
    refine ⟨?_, ?_, ?_, ?_⟩
    · rw [ht, ha]
      exact fun p hp => htable p (List.mem_filter.1 hp).1
    · rw [ht]
      exact hnodup.sublist (List.filter_sublist.map _)
    · rw [hr, ha]
      intro r hr
      rcases List.mem_append.1 hr with hr | hr
      · exact hreports r hr
      · rw [mem_calls hr]
        exact htable _ (mem_of_lookup hl)
    · rw [ht, hr]
      intro p hp r hr
      rcases List.mem_append.1 hr with hr | hr
      · exact hwaiting p (List.mem_filter.1 hp).1 r hr
      · rw [mem_calls hr]
        exact (ne_of_mem_filter hnodup hl hp).symm

theorem numbered_open (n : Node) : (Docket.open n).Numbered := by
  refine ⟨fun p hp => ?_, ?_, nofun, fun _ _ => nofun⟩
  · have h := (List.mk_mem_zipIdx_iff_getElem?.1 hp)
    simpa [Docket.open] using (List.getElem?_eq_some_iff.1 h).1
  · rw [Docket.open, List.zipIdx_map_snd]
    exact List.nodup_range'

theorem Numbered.after (h : d.Numbered) (ms : List Move) : (d.after ms).Numbered := by
  induction ms generalizing d with
  | nil => exact h
  | cons m ms ih => exact ih (h.change (change_go d m))

structure Settled (d : Docket) (k : Nat) : Prop where
  lt : k < d.askers.length
  absent : ∀ p ∈ d.table, p.2 ≠ k

variable {k : Nat}

theorem reportsOf_append_of_ne {news : List (Nat × Endpoint)} (h : d'.reports = d.reports ++ news)
    (hn : ∀ r ∈ news, r.1 ≠ k) : d'.reportsOf k = d.reportsOf k := by
  have hnil : (news.filterMap fun r => if r.1 = k then some r.2 else none) = [] :=
    List.filterMap_eq_nil_iff.2 fun r hr => if_neg (hn r hr)
  rw [reportsOf, h, List.filterMap_append, hnil, List.append_nil]
  rfl

theorem reportsOf_append_map {endpoints : List Endpoint}
    (h : d'.reports = d.reports ++ endpoints.map fun endpoint => (k, endpoint)) :
    d'.reportsOf k = d.reportsOf k ++ endpoints := by
  rw [reportsOf, h, List.filterMap_append, List.filterMap_map]
  simp [reportsOf]

theorem reportsOf_eq_nil (h : ∀ r ∈ d.reports, r.1 ≠ k) : d.reportsOf k = [] :=
  List.filterMap_eq_nil_iff.2 fun r hr => if_neg (h r hr)

theorem Settled.change (h : d.Settled k) (hc : Change d d') : d'.Settled k ∧ d'.reportsOf k = d.reportsOf k := by
  obtain ⟨hlt, habsent⟩ := h
  cases hc with
  | quiet ha ht hr =>
    refine ⟨⟨by rwa [ha], by rwa [ht]⟩, ?_⟩
    rw [reportsOf, hr]
    rfl
  | found asker endpoints ha ht hr =>
    refine ⟨⟨?_, by rwa [ht]⟩, reportsOf_append_of_ne hr fun r hr => ?_⟩
    · rw [ha, List.length_append]
      exact Nat.lt_add_right _ hlt
    · obtain ⟨endpoint, -, rfl⟩ := List.mem_map.1 hr
      exact (Nat.ne_of_lt hlt).symm
  | asked asker id ha ht hr =>
    refine ⟨⟨?_, ?_⟩, ?_⟩
    · rw [ha, List.length_append]
      exact Nat.lt_add_right _ hlt
    · rw [ht]
      intro p hp
      rcases List.mem_append.1 hp with hp | hp
      · exact habsent p (List.mem_filter.1 hp).1
      · rw [List.mem_singleton.1 hp]
        exact (Nat.ne_of_lt hlt).symm
    · rw [reportsOf, hr]
      rfl
  | answered id j texts hl ha ht hr =>
    refine ⟨⟨by rwa [ha], ?_⟩, reportsOf_append_of_ne hr fun r hr => ?_⟩
    · rw [ht]
      exact fun p hp => habsent p (List.mem_filter.1 hp).1
    · rw [mem_calls hr]
      exact habsent _ (mem_of_lookup hl)

theorem Settled.after (h : d.Settled k) (ms : List Move) : (d.after ms).reportsOf k = d.reportsOf k := by
  induction ms generalizing d with
  | nil => rfl
  | cons m ms ih =>
    obtain ⟨hs, hr⟩ := h.change (change_go d m)
    exact (ih hs).trans hr

theorem askers_after {asker : Asker} (h : d.askers[k]? = some asker) (ms : List Move) :
    (d.after ms).askers[k]? = some asker := by
  induction ms generalizing d with
  | nil => exact h
  | cons m ms ih =>
    refine ih ?_
    cases change_go d m with
    | quiet ha _ _ => rwa [ha]
    | found asker endpoints ha _ _ =>
      rw [ha]
      exact getElem?_append_of_some h _
    | asked asker id ha _ _ =>
      rw [ha]
      exact getElem?_append_of_some h _
    | answered id j texts _ ha _ _ => rwa [ha]

/-- A query that the directory has something for is reported that, at once and for good. -/
theorem reportsOf_ask (h : d.Numbered) {e : Engine Asker} {facts : FactSet} (hs : e.stopped = false)
    (hq : e.directory.query facts ≠ []) (asker : Asker) :
    (d.ask e facts asker).Settled d.askers.length ∧
      (d.ask e facts asker).reportsOf d.askers.length = e.directory.query facts := by
  have htable : (d.ask e facts asker).table = d.table :=
    ((d.numbered e).inFlight_find facts d.askers.length).trans (if_neg fun hh => hq hh.2)
  have hfound : ((d.numbered e).find facts d.askers.length).2.2 = e.directory.query facts := by
    rw [Engine.found_find]
    change (if e.stopped then [] else e.directory.query facts) = _
    rw [hs]
    rfl
  have hreports : (d.ask e facts asker).reports =
      d.reports ++ (e.directory.query facts).map fun endpoint => (d.askers.length, endpoint) := by
    rw [← hfound]
    rfl
  refine ⟨⟨?_, ?_⟩, ?_⟩
  · change d.askers.length < (d.askers ++ [asker]).length
    rw [List.length_append]
    exact Nat.lt_succ_self _
  · rw [htable]
    exact fun p hp => Nat.ne_of_lt (h.table p hp)
  · rw [reportsOf_append_map hreports, reportsOf_eq_nil fun r hr => Nat.ne_of_lt (h.reports r hr), List.nil_append]

/-- Any other query is in flight under the next id of the engine. -/
theorem mem_table_ask {e : Engine Asker} {facts : FactSet} (hs : e.stopped = false) (hq : e.directory.query facts = [])
    (asker : Asker) : (e.nextId, d.askers.length) ∈ (d.ask e facts asker).table := by
  have htable : (d.ask e facts asker).table = (d.numbered e).settled e.nextId ++ [(e.nextId, d.askers.length)] :=
    ((d.numbered e).inFlight_find facts d.askers.length).trans (if_pos ⟨hs, hq⟩)
  rw [htable]
  exact List.mem_append_right _ List.mem_cons_self

/-- A query in flight is reported what is in the first answer to it, and it is in flight no more. -/
theorem reportsOf_hear (h : d.Numbered) {e : Engine Asker} {m : Envelope} {texts : List String}
    (ha : Answers m m.id texts) (hl : d.table.lookup m.id = some k) (now : Nat) :
    (d.hear e m now).Settled k ∧
      (d.hear e m now).reportsOf k = texts.filterMap fun text => (Endpoint.parse text).toOption := by
  have hd := Engine.dispatch_of_answers (e := d.numbered e) ha hl now
  have hreports : (d.hear e m now).reports = d.reports ++ Engine.calls k texts := by simp only [hear, hd]
  have htable : (d.hear e m now).table = d.table.filter fun p => p.1 ≠ m.id := by
    simp only [hear, hd]
    rfl
  refine ⟨⟨h.table _ (mem_of_lookup hl), ?_⟩, ?_⟩
  · rw [htable]
    exact fun p hp => ne_of_mem_filter h.nodup hl hp
  · rw [reportsOf_append_map hreports, reportsOf_eq_nil (h.waiting _ (mem_of_lookup hl)), List.nil_append]

end Docket
end Node
end PeerDiscovery
