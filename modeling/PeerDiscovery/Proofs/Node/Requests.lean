import Mathlib.Data.List.Infix
import PeerDiscovery.Proofs.Fleet.Work
import PeerDiscovery.Proofs.Node.Docket

/-! Requests that a node gets through its own mailbox.
The pumps run after a start (`waits_of_start`), and what a node does by itself from then on are moves
(`exists_move_of_work?`). It handles the events of its mailbox in the order in which they were raised (`Queued`). Its
subscriber gets one response for each endpoint that is reported of a request, with the id and the token of that request,
and nothing else, as long as it does not leave too many of them unread: `requests_answered`. -/
namespace PeerDiscovery
namespace Node
namespace Docket

open Discovery (Engine Answers Tallies)
open Fleet (nextEvent?)
open Net (Network)

variable {d d' : Docket} {n n' : Node} {event : Mailbox.Event}

/-- The events that the node was given and those that were raised are handled in their order, and the rest waits. -/
def Queued (d : Docket) (queue : List Mailbox.Event) : Prop :=
  ∃ rest, d.node.Waits rest ∧ d.handled ++ rest = queue ++ d.raised

theorem waits_of_tells {queue : List Mailbox.Event} {calls : List (Asker × Endpoint)} (h : n.Waits queue)
    (ht : Tells n n' calls) : n'.Waits queue := by
  obtain ⟨listener, subscriber, hpumps, hl⟩ := h
  exact ⟨listener, subscriber, ht.pumps.trans hpumps, by rw [ht.listeners]; exact hl⟩

theorem waits_of_start {net net' : Network} {found : Option Net.IpAddr} {own : Endpoint}
    (h : n.start net found (.ok ()) = (net', n', .ok own)) : n'.Waits [] := by
  have hnoted : ∀ (hosted : List FactSet) (n : Node), n.Waits [] →
      (hosted.foldl (fun n facts => n.note own facts) n).Waits [] := by
    intro hosted
    induction hosted with
    | nil => exact fun n hn => hn
    | cons facts hosted ih => exact fun n hn => ih _ (waits_of_tells hn (Rests.note n own facts).tells)
  obtain ⟨-, mailbox, bound, -, -, rfl⟩ := Fleet.SoundNode.start_cases h
  exact hnoted n.hosted _ ⟨mailbox.listeners.length, n.engine.subscribers.length, rfl, List.getElem?_concat_length⟩

theorem exists_of_nextEvent? (h : nextEvent? n = some (n', event)) :
    ∃ mailbox, n' = n.setMailbox mailbox ∧
      ∀ queue, n.Waits queue → ∃ rest, queue = event :: rest ∧ n'.Waits rest := by
  obtain ⟨⟨listener, subscriber⟩, hpumps, h⟩ := Option.bind_eq_some_iff.1 h
  obtain ⟨⟨mailbox, event'⟩, ht, h⟩ := Option.bind_eq_some_iff.1 h
  obtain ⟨rfl, rfl⟩ := Prod.mk.inj (Option.some.inj h)
  obtain ⟨l, rest, hl, hq, rfl⟩ := Mailbox.exists_of_takeEvent? ht
  refine ⟨_, rfl, ?_⟩
  rintro queue ⟨listener', subscriber', hpumps', hl'⟩
  cases hpumps.symm.trans hpumps'
  obtain rfl := Option.some.inj (hl'.symm.trans hl)
  exact ⟨rest, hq, listener, subscriber, hpumps, List.getElem?_set_self (List.getElem?_eq_some_iff.1 hl).1⟩

theorem onRequest_of_query {e : Envelope} {facts : FactSet} (h : e.message = .query facts) :
    (n.onRequest e).1 = (n.find facts (.request e.id e.token)).1 := by
  simp only [onRequest, h]

theorem onRequest_of_announce {e : Envelope} {facts : FactSet} (h : e.message = .announce facts) :
    n.onRequest e = ((n.announceLocal facts).1, []) := by
  simp only [onRequest, h]

theorem onRequest_of_other {e : Envelope} (hq : ∀ facts, e.message ≠ .query facts)
    (ha : ∀ facts, e.message ≠ .announce facts) : n.onRequest e = (n, []) := by
  unfold onRequest
  split
  · next facts h => exact absurd h (hq facts)
  · next facts h => exact absurd h (ha facts)
  · rfl

theorem request_of_query {e : Envelope} {facts : FactSet} (h : e.message = .query facts) (engine : Engine Asker) :
    d.request engine e = d.ask engine facts (.request e.id e.token) := by
  simp only [request, h]

theorem request_of_not_query {e : Envelope} (h : ∀ facts, e.message ≠ .query facts) (engine : Engine Asker) :
    d.request engine e = d := by
  unfold request
  split
  · next facts hm => exact absurd hm (h facts)
  · rfl

theorem tells_onRequest (n : Node) (e : Envelope) : ∃ calls, Tells n (n.onRequest e).1 calls := by
  unfold onRequest
  split
  · exact ⟨_, tells_find n _ _⟩
  · exact ⟨_, (Rests.announceLocal n _).tells⟩
  · exact ⟨_, (Rests.refl n).tells⟩

theorem Queued.of_tells {queue : List Mailbox.Event} {calls : List (Asker × Endpoint)} (h : d.Queued queue)
    (ht : Tells d.node d'.node calls) (hhandled : d'.handled = d.handled) (hraised : d'.raised = d.raised) :
    d'.Queued queue := by
  obtain ⟨rest, hw, heq⟩ := h
  exact ⟨rest, waits_of_tells hw ht, by rw [hhandled, hraised]; exact heq⟩

theorem Queued.of_event {queue : List Mailbox.Event} {calls : List (Asker × Endpoint)} (h : d.Queued queue)
    (he : nextEvent? d.node = some (n, event)) (ht : Tells n d'.node calls) (hhandled : d'.handled = d.handled ++ [event])
    (hraised : d'.raised = d.raised) : d'.Queued queue := by
  obtain ⟨waiting, hw, heq⟩ := h
  obtain ⟨-, -, hnext⟩ := exists_of_nextEvent? he
  obtain ⟨rest, rfl, hrest⟩ := hnext waiting hw
  refine ⟨rest, waits_of_tells hrest ht, ?_⟩
  rw [hhandled, hraised, List.append_assoc]
  exact heq

theorem rests_rest (d : Docket) {work : Option Node.Work} (h : ∀ w, work = some w → Rests d.node w.2.1) :
    Rests d.node (d.rest work).node := by
  unfold rest
  split
  · exact .refl _
  · next network n calls => exact h (network, n, calls) rfl

theorem rests_discovery (d : Docket) (network : Network) :
    Rests d.node (d.rest (d.node.discoveryWork? network)).node :=
  d.rests_rest fun _ h => .discoveryWork? h

theorem rests_courier (d : Docket) (network : Network) (link : Nat) :
    Rests d.node (d.rest (d.node.couriers[link]?.bind (d.node.courierWork? network link))).node := by
  refine d.rests_rest fun w h => ?_
  obtain ⟨c, -, h⟩ := Option.bind_eq_some_iff.1 h
  exact .courierWork? h

theorem raised_request (d : Docket) (e : Engine Asker) (m : Envelope) : (d.request e m).raised = d.raised := by
  unfold request
  split <;> rfl

theorem queued_rest {queue : List Mailbox.Event} (h : d.Queued queue) {work : Option Node.Work}
    (hr : Rests d.node (d.rest work).node) : (d.rest work).Queued queue := by
  unfold rest at hr ⊢
  split at hr
  · exact h
  · exact h.of_tells hr.tells rfl rfl

/-- Each move but the pump's leaves the events that wait as they are, or adds the one that it raises. -/
theorem queued_go {queue : List Mailbox.Event} (h : d.Queued queue) (m : Move) : (d.go m).Queued queue := by
  cases m with
  | mailbox a =>
    obtain ⟨rest, ⟨listener, subscriber, hpumps, hl⟩, heq⟩ := h
    simp only [go, hpumps]
    split
    · next ha =>
      refine ⟨_, ⟨listener, subscriber, hpumps, Mailbox.listener_act ha hl⟩, ?_⟩
      rw [← List.append_assoc, heq, List.append_assoc]
    · exact ⟨rest, ⟨listener, subscriber, hpumps, hl⟩, heq⟩
  | event now =>
    simp only [go]
    split
    · exact h
    · next n e he => exact h.of_event he (tells_dispatch n e now) rfl rfl
    · next n e he =>
      obtain ⟨calls, ht⟩ := tells_onRequest n e
      exact h.of_event he ht rfl (d.raised_request n.engine e)
  | inbound now =>
    simp only [go]
    split
    · next e inbound _ _ =>
      have ht := tells_dispatch { d.node with inbound } e now
      exact h.of_tells ⟨ht.stopped, ht.pumps, ht.listeners, ht.subscriptions⟩ rfl rfl
    · exact h
  | discovery network => exact queued_rest h (d.rests_discovery network)
  | courier network link => exact queued_rest h (d.rests_courier network link)
  | engine op =>
    simp only [go]
    split
    · next hop => exact h.of_tells (Rests.perform d.node hop).tells rfl rfl
    · exact h
  | host facts => exact h.of_tells (Rests.announceLocal d.node facts).tells rfl rfl
  | find facts caller => exact h.of_tells (tells_find d.node facts _) rfl rfl
  | subscribe => exact h
  | take k count =>
    simp only [go]
    split <;> exact h

/-- The subscribers are told these responses, which are for what was reported meanwhile. -/
structure Adds (d d' : Docket) (answers : List Envelope) : Prop where
  named : d'.Named
  stopped : d'.node.engine.stopped = d.node.engine.stopped
  published : d'.published = d.published ++ answers
  taken : d'.taken = d.taken
  subscriptions : d'.node.subscriptions = d.node.subscriptions.map fun s => answers.foldl Subscription.push s

/-- The queries keep their askers, so what is reported of them later adds to what was to be published. -/
theorem published_append (h : d.Numbered) {more : List Asker} {news : List (Nat × Endpoint)}
    {calls : List (Asker × Endpoint)}
    (hnews : List.Forall₂ (fun r c => d'.askers[r.1]? = some c.1 ∧ r.2 = c.2) news calls)
    (ha : d'.askers = d.askers ++ more) (hr : d'.reports = d.reports ++ news) :
    d'.published = d.published ++ responses calls := by
  have hold : d.reports.filterMap d'.answer? = d.published := by
    refine List.filterMap_congr fun r hr => ?_
    rw [answer?, answer?, ha, List.getElem?_append_left (h.reports r hr)]
  have hnew : news.filterMap d'.answer? = responses calls := by
    clear hr
    induction hnews with
    | nil => rfl
    | @cons r c news calls hrc _ ih =>
      have hanswer : d'.answer? r = c.1.answer? c.2 := by
        rw [answer?, hrc.1, hrc.2]
        rfl
      rw [responses, List.filterMap_cons, List.filterMap_cons, hanswer]
      split
      · exact ih
      · exact congrArg _ ih
  rw [published, hr, List.filterMap_append, hold, hnew]

theorem published_eq (d : Docket) :
    d.published = d.reports.filterMap fun (k, endpoint) =>
      match d.askers[k]? with
      | some (.request id token) => some { id, token, message := .response [endpoint.text] }
      | _ => none := by
  refine List.filterMap_congr ?_
  rintro ⟨k, endpoint⟩ -
  dsimp only [answer?]
  cases d.askers[k]? with
  | none => rfl
  | some asker => cases asker <;> rfl

theorem adds_of_tells {calls : List (Asker × Endpoint)} (hengine : n.engine = d.node.engine)
    (hsubscriptions : n.subscriptions = d.node.subscriptions) (ht : Tells n d'.node calls) (hnamed : d'.Named)
    (hpublished : d'.published = d.published ++ responses calls) (htaken : d'.taken = d.taken) :
    Adds d d' (responses calls) where
  named := hnamed
  stopped := ht.stopped.trans (congrArg Engine.stopped hengine)
  published := hpublished
  taken := htaken
  subscriptions := by rw [ht.subscriptions, hsubscriptions]

theorem adds_of_rests (h : d.Named) (hengine : n.engine = d.node.engine)
    (hsubscriptions : n.subscriptions = d.node.subscriptions) (hr : Rests n d'.node) (hreports : d'.reports = d.reports)
    (haskers : d'.askers = d.askers) (htable : d'.table = d.table) (htaken : d'.taken = d.taken) : Adds d d' [] := by
  refine adds_of_tells hengine hsubscriptions hr.tells ?_ ?_ htaken
  · rw [Named, haskers, htable, hr.inFlight, hengine]
    exact h
  · have hanswer : d'.answer? = d.answer? := by
      funext r
      rw [answer?, answer?, haskers]
    rw [published, published, hreports, hanswer]
    exact (List.append_nil _).symm

theorem adds_hear (h : d.Named) (hnumbered : d.Numbered) (hengine : n.engine = d.node.engine)
    (hsubscriptions : n.subscriptions = d.node.subscriptions) (m : Envelope) (now : Nat) (handled : List Mailbox.Event) :
    ∃ answers, Adds d { d.hear n.engine m now with node := (n.dispatch m now).1, handled } answers := by
  have hn : Tallies (fun k asker => d.askers[k]? = some asker) d.table n.engine.inFlight := by
    rw [hengine]
    exact h
  obtain ⟨hnamed, hcalls⟩ := hn.dispatch m now
  refine ⟨_, adds_of_tells hengine hsubscriptions (tells_dispatch n m now) ?_
    (published_append hnumbered hcalls (List.append_nil _).symm rfl) rfl⟩
  change Tallies _ _ (n.dispatch m now).1.engine.inFlight
  rw [engine_dispatch]
  exact hnamed

theorem adds_ask (h : d.Named) (hnumbered : d.Numbered) (hengine : n.engine = d.node.engine)
    (hsubscriptions : n.subscriptions = d.node.subscriptions) (facts : FactSet) (asker : Asker)
    (handled : List Mailbox.Event) :
    ∃ answers, Adds d { d.ask n.engine facts asker with node := (n.find facts asker).1, handled } answers := by
  have hn : Tallies (fun k a => (d.askers ++ [asker])[k]? = some a) d.table n.engine.inFlight := by
    rw [hengine]
    exact Tallies.mono h fun k a hk => getElem?_append_of_some hk _
  have hk : (d.askers ++ [asker])[d.askers.length]? = some asker := List.getElem?_concat_length
  obtain ⟨hnamed, hfound⟩ := hn.find facts hk
  have hcalls : List.Forall₂ (fun r c => (d.askers ++ [asker])[r.1]? = some c.1 ∧ r.2 = c.2)
      (((d.numbered n.engine).find facts d.askers.length).2.2.map fun endpoint => (d.askers.length, endpoint))
      ((n.engine.find facts asker).2.2.map fun endpoint => (asker, endpoint)) := by
    rw [← hfound]
    exact Tallies.reported (R := fun k a => (d.askers ++ [asker])[k]? = some a) hk _
  refine ⟨_, adds_of_tells hengine hsubscriptions (tells_find n facts asker) ?_
    (published_append hnumbered hcalls rfl rfl) rfl⟩
  change Tallies _ _ (n.find facts asker).1.engine.inFlight
  rw [engine_find]
  exact hnamed

theorem adds_request (h : d.Named) (hnumbered : d.Numbered) (hengine : n.engine = d.node.engine)
    (hsubscriptions : n.subscriptions = d.node.subscriptions) (e : Envelope) (handled : List Mailbox.Event) :
    ∃ answers, Adds d { d.request n.engine e with node := (n.onRequest e).1, handled } answers := by
  cases hm : e.message with
  | query facts =>
    rw [request_of_query hm, onRequest_of_query hm]
    exact adds_ask h hnumbered hengine hsubscriptions facts _ handled
  | announce facts =>
    rw [request_of_not_query (by simp [hm]), onRequest_of_announce hm]
    exact ⟨[], adds_of_rests h hengine hsubscriptions (.announceLocal n facts) rfl rfl rfl rfl⟩
  | hello | response =>
    rw [request_of_not_query (by simp [hm]), onRequest_of_other (by simp [hm]) (by simp [hm])]
    exact ⟨[], adds_of_rests h hengine hsubscriptions (.refl n) rfl rfl rfl rfl⟩

theorem adds_rest (h : d.Named) {work : Option Node.Work} (hr : Rests d.node (d.rest work).node) :
    Adds d (d.rest work) [] := by
  unfold rest at hr ⊢
  split at hr
  · exact adds_of_rests h rfl rfl (.refl _) rfl rfl rfl rfl
  · exact adds_of_rests h rfl rfl hr rfl rfl rfl rfl

/-- What a move does to the subscribers: one comes, or takes some of its responses, or all are told of some. -/
inductive GoCases (d : Docket) : Docket → Prop where
  | subscribe {d' : Docket} (h : d' = { d with node := d.node.subscribe.1 }) : GoCases d d'
  | take {d' : Docket} (k count : Nat) (s : Subscription) (hs : d.node.subscriptions[k]? = some s)
      (h : d' = { d with
        node := { d.node with subscriptions := d.node.subscriptions.set k (s.take count).1 }
        taken := fun j => if j = k then d.taken k ++ (s.take count).2 else d.taken j }) : GoCases d d'
  | adds {d' : Docket} (answers : List Envelope) (h : Adds d d' answers) : GoCases d d'

theorem go_cases (h : d.Named) (hnumbered : d.Numbered) (m : Move) : GoCases d (d.go m) := by
  have hsame : Adds d d [] := adds_of_rests h rfl rfl (.refl _) rfl rfl rfl rfl
  cases m with
  | subscribe => exact .subscribe rfl
  | take k count =>
    simp only [go]
    split
    · exact .adds [] hsame
    · next s hs => exact .take k count s hs rfl
  | mailbox a =>
    simp only [go]
    split
    · exact .adds [] hsame
    · split
      · exact .adds [] ⟨h, rfl, (List.append_nil _).symm, rfl, hsame.subscriptions⟩
      · exact .adds [] hsame
  | event now =>
    simp only [go]
    split
    · exact .adds [] hsame
    · next n e he =>
      obtain ⟨mailbox, rfl, -⟩ := exists_of_nextEvent? he
      obtain ⟨answers, ha⟩ := adds_hear (n := d.node.setMailbox mailbox) h hnumbered rfl rfl e now _
      exact .adds answers ha
    · next n e he =>
      obtain ⟨mailbox, rfl, -⟩ := exists_of_nextEvent? he
      obtain ⟨answers, ha⟩ := adds_request (n := d.node.setMailbox mailbox) h hnumbered rfl rfl e _
      exact .adds answers ha
  | inbound now =>
    simp only [go]
    split
    · next e inbound _ _ =>
      obtain ⟨answers, ha⟩ := adds_hear (n := { d.node with inbound }) h hnumbered rfl rfl e now d.handled
      exact .adds answers ha
    · exact .adds [] hsame
  | discovery network => exact .adds [] (adds_rest h (d.rests_discovery network))
  | courier network link => exact .adds [] (adds_rest h (d.rests_courier network link))
  | engine op =>
    simp only [go]
    split
    · next hop => exact .adds [] (adds_of_rests h rfl rfl (.perform d.node hop) rfl rfl rfl rfl)
    · exact .adds [] hsame
  | host facts => exact .adds [] (adds_of_rests h rfl rfl (.announceLocal d.node facts) rfl rfl rfl rfl)
  | find facts caller =>
    obtain ⟨answers, ha⟩ := adds_ask h hnumbered rfl rfl facts _ d.handled
    exact .adds answers ha

/-- What holds of a docket at all times. -/
structure Sound (d : Docket) (queue : List Mailbox.Event) : Prop where
  named : d.Named
  numbered : d.Numbered
  stopped : d.node.engine.stopped = false
  queued : d.Queued queue

theorem sound_open {queue : List Mailbox.Event} (hwaits : n.Waits queue) (hstopped : n.engine.stopped = false) :
    (Docket.open n).Sound queue where
  named := by
    refine List.forall₂_iff_get.2 ⟨by simp [Docket.open], fun i hi hi' => ⟨by simp [Docket.open], ?_⟩⟩
    have hnumber : ((Docket.open n).table.get ⟨i, hi⟩).2 = i := by simp [Docket.open]
    rw [hnumber]
    exact List.getElem?_map.trans (congrArg (Option.map Prod.snd) (List.getElem?_eq_getElem hi'))
  numbered := numbered_open n
  stopped := hstopped
  queued := ⟨queue, hwaits, (List.append_nil _).symm⟩

theorem Sound.go {queue : List Mailbox.Event} (h : d.Sound queue) (m : Move) : (d.go m).Sound queue := by
  have hnumbered := h.numbered.change (change_go d m)
  have hqueued := queued_go h.queued m
  cases go_cases h.named h.numbered m with
  | subscribe hgo =>
    rw [hgo] at hnumbered hqueued ⊢
    exact ⟨h.named, hnumbered, h.stopped, hqueued⟩
  | take k count s hs hgo =>
    rw [hgo] at hnumbered hqueued ⊢
    exact ⟨h.named, hnumbered, h.stopped, hqueued⟩
  | adds answers ha => exact ⟨ha.named, hnumbered, ha.stopped.trans h.stopped, hqueued⟩

theorem Sound.after {queue : List Mailbox.Event} (h : d.Sound queue) (ms : List Move) : (d.after ms).Sound queue := by
  induction ms generalizing d with
  | nil => exact h
  | cons m ms ih => exact ih (h.go m)

/-- How many of the responses that a subscriber was told of it has not taken. -/
def unread (d : Docket) (k : Nat) : Nat := (d.node.subscriptions[k]?.map fun s => s.queue.length + s.lost).getD 0

/-- With what it took a subscriber has before it the responses of `log`, and after them those that were published since there
were `base` of them. -/
def Kept (d : Docket) (k base : Nat) (log : List Envelope) : Prop :=
  base ≤ d.published.length ∧
    ∃ rest, d.node.subscriptions[k]? = some { queue := rest } ∧ d.taken k ++ rest = log ++ d.published.drop base

variable {k base : Nat} {log : List Envelope}

theorem Kept.adds {answers : List Envelope} (h : d.Kept k base log) (ha : Adds d d' answers)
    (hroom : d'.unread k ≤ subscriptionCapacity) : d'.Kept k base log := by
  obtain ⟨hbase, rest, hs, heq⟩ := h
  have hpushed : d'.node.subscriptions[k]? = some (answers.foldl Subscription.push { queue := rest }) := by
    rw [ha.subscriptions, List.getElem?_map, hs, Option.map_some]
  rw [unread, hpushed, Option.map_some, Option.getD_some] at hroom
  refine ⟨?_, rest ++ answers, ?_, ?_⟩
  · rw [ha.published, List.length_append]
    exact Nat.le_add_right_of_le hbase
  · have hlength : rest.length + answers.length ≤ subscriptionCapacity := by
      rwa [length_foldl_push] at hroom
    rw [hpushed, foldl_push hlength]
  · rw [ha.taken, ha.published, List.drop_append_of_le_length hbase, ← List.append_assoc, heq, List.append_assoc]

theorem Kept.go (h : d.Kept k base log) (hnamed : d.Named) (hnumbered : d.Numbered) {m : Move}
    (hroom : (d.go m).unread k ≤ subscriptionCapacity) : (d.go m).Kept k base log := by
  cases go_cases hnamed hnumbered m with
  | adds answers ha => exact h.adds ha hroom
  | subscribe hgo =>
    obtain ⟨hbase, rest, hs, heq⟩ := h
    rw [hgo]
    exact ⟨hbase, rest, getElem?_append_of_some hs _, heq⟩
  | take j count s hj hgo =>
    obtain ⟨hbase, rest, hs, heq⟩ := h
    rw [hgo]
    by_cases hjk : j = k
    · subst hjk
      obtain rfl := Option.some.inj (hj.symm.trans hs)
      refine ⟨hbase, rest.drop count, List.getElem?_set_self (List.getElem?_eq_some_iff.1 hj).1, ?_⟩
      simp only [if_pos, Subscription.take, List.append_assoc, List.take_append_drop]
      exact heq
    · refine ⟨hbase, rest, (List.getElem?_set_ne hjk).trans hs, ?_⟩
      simp only [if_neg (Ne.symm hjk)]
      exact heq

theorem Kept.after {queue : List Mailbox.Event} (h : d.Kept k base log) (hsound : d.Sound queue) (ms : List Move)
    (hroom : ∀ before, before <+: ms → (d.after before).unread k ≤ subscriptionCapacity) :
    (d.after ms).Kept k base log := by
  induction ms using List.reverseRecOn with
  | nil => exact h
  | append_singleton ms m ih =>
    have hk := ih fun before hb => hroom before (hb.trans (List.prefix_append ms [m]))
    have hs := hsound.after ms
    have hr := hroom (ms ++ [m]) (List.prefix_refl _)
    rw [after_concat] at hr ⊢
    exact hk.go hs.named hs.numbered hr

def Tidy (d : Docket) : Prop := ∀ k, d.node.subscriptions.length ≤ k → d.taken k = []

theorem Tidy.after {queue : List Mailbox.Event} (h : d.Tidy) (hsound : d.Sound queue) (ms : List Move) : (d.after ms).Tidy := by
  induction ms generalizing d with
  | nil => exact h
  | cons m ms ih =>
    refine ih ?_ (hsound.go m)
    cases go_cases hsound.named hsound.numbered m with
    | adds answers ha =>
      intro k hk
      rw [ha.subscriptions, List.length_map] at hk
      rw [ha.taken]
      exact h k hk
    | subscribe hgo =>
      rw [hgo]
      intro k hk
      refine h k (Nat.le_trans (Nat.le_add_right _ 1) ?_)
      simpa [Node.subscribe] using hk
    | take j count s hj hgo =>
      rw [hgo]
      intro k hk
      have hlt : j < d.node.subscriptions.length := (List.getElem?_eq_some_iff.1 hj).1
      have hk : d.node.subscriptions.length ≤ k := by simpa using hk
      simp only [if_neg (show k ≠ j by omega)]
      exact h k hk

theorem go_of_query {e : Envelope} {facts : FactSet} (he : nextEvent? d.node = some (n, .sent e))
    (hm : e.message = .query facts) (now : Nat) :
    d.go (.event now) =
      { d.ask n.engine facts (.request e.id e.token) with
        node := (n.onRequest e).1
        handled := d.handled ++ [.sent e] } := by
  simp only [go, he, request_of_query hm]

theorem go_of_not_query {e : Envelope} (he : nextEvent? d.node = some (n, .sent e))
    (hm : ∀ facts, e.message ≠ .query facts) (now : Nat) :
    d.go (.event now) = { d with node := (n.onRequest e).1, handled := d.handled ++ [.sent e] } := by
  simp only [go, he, request_of_not_query hm]

theorem go_inbound {pumps : Nat × Nat} {e : Envelope} {inbound : List Envelope} (hp : d.node.pumps = some pumps)
    (hi : d.node.inbound = e :: inbound) (now : Nat) :
    d.go (.inbound now) = { d.hear d.node.engine e now with node := ({ d.node with inbound }.dispatch e now).1 } := by
  simp only [go]
  split
  · next hi' =>
    cases hi.symm.trans hi'
    rfl
  · next hno => exact absurd hi (hno pumps e inbound hp)

theorem exists_of_heard? {m : Move} {envelope : Envelope} (h : d.heard? m = some envelope) :
    ∃ e now node handled, d.go m = { d.hear e envelope now with node, handled } := by
  cases m with
  | event now =>
    simp only [heard?] at h
    split at h
    · next n e he =>
      obtain rfl := Option.some.inj h
      exact ⟨n.engine, now, (n.dispatch e now).1, d.handled ++ [.received e], by simp only [go, he]⟩
    · cases h
  | inbound now =>
    simp only [heard?] at h
    split at h
    · cases h
    · next hp =>
      obtain ⟨pumps, hp⟩ := Option.ne_none_iff_exists'.1 hp
      obtain ⟨inbound, hi⟩ : ∃ inbound, d.node.inbound = envelope :: inbound := by
        cases hi : d.node.inbound with
        | nil => simp [hi] at h
        | cons e inbound => exact ⟨inbound, by rw [hi, List.head?_cons] at h; rw [Option.some.inj h]⟩
      exact ⟨d.node.engine, now, _, d.handled, go_inbound hp hi now⟩
  | mailbox | discovery | courier | engine | host | find | subscribe | take => cases h

theorem exists_move_of_work? {net net' : Network} {now : Nat} {calls : Node.Calls}
    (hmailbox : d.node.mailboxWork? net = none) (h : d.node.work? net now = some (net', n', calls)) :
    ∃ m, (d.go m).node = n' := by
  simp only [Node.work?, Option.orElse_eq_some] at h
  rcases h with h | ⟨-, h | ⟨-, h | ⟨-, h | ⟨-, h⟩⟩⟩⟩
  · cases hmailbox.symm.trans h
  · rw [Fleet.eventWork?_eq] at h
    obtain ⟨⟨n, event⟩, he, h⟩ := Option.map_eq_some_iff.1 h
    refine ⟨.event now, ?_⟩
    cases event with
    | received e =>
      simp only [go, he]
      exact congrArg (fun w => w.2.1) h
    | sent e =>
      simp only [go, he]
      exact congrArg (fun w => w.2.1) h
  · obtain ⟨pumps, hp, h⟩ := Option.bind_eq_some_iff.1 h
    refine ⟨.inbound now, ?_⟩
    cases hi : d.node.inbound with
    | nil => simp [hi] at h
    | cons e inbound =>
      rw [hi] at h
      rw [go_inbound hp hi]
      exact congrArg (fun w => w.2.1) (Option.some.inj h)
  · exact ⟨.discovery net, by simp only [go, h, rest]⟩
  · obtain ⟨⟨c, link⟩, hc, h⟩ := List.exists_of_findSome?_eq_some h
    refine ⟨.courier net link, ?_⟩
    simp only [go, List.mk_mem_zipIdx_iff_getElem?.1 hc, Option.bind_some, h, rest]

/-- Of a node that runs, with whatever queries in flight, events that wait and subscribers to its responses. Anything may
happen to it: requests are sent through its mailbox, peers are seen and say what they like, others look for services, or
subscribe. Its events are handled in the order in which they were raised.
A request for services is a query with a number of its own, and has no other trace but that. It is reported what the
directory has, in this order, or else goes out under an id of the engine's own and is reported what is in the first answer
to it. What is published is one response for each endpoint that was reported of a request, in order, with the id and the
token of that request. As long as a subscriber never has more than so many responses before it, it gets all that are
published from any time on, and one that subscribes gets just those. Nothing else is published: an announcement is that of
the node's own services, and any other request does nothing. -/
theorem requests_answered {n : Node} {queue : List Mailbox.Event} (hwaits : n.Waits queue)
    (hstopped : n.engine.stopped = false) (ms : List Move) :
    let d := (Docket.open n).after ms
    (∀ before later k had, ms = before ++ later →
      let c := (Docket.open n).after before
      c.node.subscriptions[k]? = some { queue := had } →
      (∀ between, between <+: later → (c.after between).unread k ≤ subscriptionCapacity) →
      ∃ rest, d.node.subscriptions[k]? = some { queue := rest } ∧
        d.taken k ++ rest = c.taken k ++ had ++ d.published.drop c.published.length) ∧
    (∀ before later, ms = before ++ .subscribe :: later →
      let c := (Docket.open n).after before
      let k := c.node.subscriptions.length
      (∀ between, between <+: later → ((c.go .subscribe).after between).unread k ≤ subscriptionCapacity) →
      ∃ rest, d.node.subscriptions[k]? = some { queue := rest } ∧
        d.taken k ++ rest = d.published.drop c.published.length) ∧
    (d.published = d.reports.filterMap fun (k, endpoint) =>
      match d.askers[k]? with
      | some (.request id token) => some { id, token, message := .response [endpoint.text] }
      | _ => none) ∧
    (∃ rest, d.node.Waits rest ∧ d.handled ++ rest = queue ++ d.raised) ∧
    Tallies (fun k asker => d.askers[k]? = some asker) d.table d.node.engine.inFlight ∧
    (∀ before now later m e, ms = before ++ .event now :: later →
      let c := (Docket.open n).after before
      let k := c.askers.length
      nextEvent? c.node = some (m, .sent e) →
      (∀ facts, e.message = .query facts →
        d.askers[k]? = some (.request e.id e.token) ∧
        (c.go (.event now)).node = (m.find facts (.request e.id e.token)).1 ∧
        (m.engine.directory.query facts ≠ [] → d.reportsOf k = m.engine.directory.query facts) ∧
        (m.engine.directory.query facts = [] → (m.engine.nextId, k) ∈ (c.go (.event now)).table)) ∧
      (∀ facts, e.message = .announce facts →
        c.go (.event now) = { c with node := (m.announceLocal facts).1, handled := c.handled ++ [.sent e] }) ∧
      ((∀ facts, e.message ≠ .query facts) → (∀ facts, e.message ≠ .announce facts) →
        c.go (.event now) = { c with node := m, handled := c.handled ++ [.sent e] })) ∧
    ∀ before move later envelope texts k, ms = before ++ move :: later →
      let c := (Docket.open n).after before
      c.heard? move = some envelope → Answers envelope envelope.id texts → c.table.lookup envelope.id = some k →
      d.reportsOf k = texts.filterMap fun text => (Endpoint.parse text).toOption := by
  intro d
  have hsound := sound_open hwaits hstopped
  have hd : d.Sound queue := hsound.after ms
  refine ⟨?_, ?_, published_eq d, hd.queued, hd.named, ?_, ?_⟩
  · rintro before later k had rfl c hk hroom
    have hkept : c.Kept k c.published.length (c.taken k ++ had) :=
      ⟨Nat.le_refl _, had, hk, by rw [List.drop_length, List.append_nil]⟩
    have hafter : (c.after later).Kept k _ _ := hkept.after (hsound.after before) later hroom
    have hdc : d = c.after later := after_append _ before later
    rw [hdc]
    exact hafter.2
  · rintro before later rfl c k hroom
    have hc : c.Sound queue := hsound.after before
    have hopen : (Docket.open n).Tidy := fun _ _ => rfl
    have htaken : c.taken k = [] := hopen.after hsound before k (Nat.le_refl _)
    have hkept : (c.go .subscribe).Kept k c.published.length [] := by
      refine ⟨Nat.le_refl _, [], List.getElem?_concat_length, ?_⟩
      rw [List.append_nil, List.nil_append]
      exact htaken.trans (List.drop_length (l := c.published)).symm
    have hafter : ((c.go .subscribe).after later).Kept k _ _ := hkept.after (hc.go .subscribe) later hroom
    have hdc : d = (c.go .subscribe).after later := (after_append _ before _).trans (after_cons c _ later)
    rw [hdc]
    exact hafter.2
  · rintro before now later m e rfl c k he
    have hc : c.Sound queue := hsound.after before
    have hdc : d = (c.go (.event now)).after later := (after_append _ before _).trans (after_cons c _ later)
    obtain ⟨mailbox, hm, -⟩ := exists_of_nextEvent? he
    have hengine : m.engine = c.node.engine := by rw [hm]; rfl
    refine ⟨fun facts hq => ?_, fun facts ha => ?_, fun hq ha => ?_⟩
    · have hgo := go_of_query he hq now
      refine ⟨?_, ?_, fun hl => ?_, fun hn => ?_⟩
      · rw [hdc]
        refine askers_after ?_ later
        rw [hgo]
        exact List.getElem?_concat_length
      · rw [hgo]
        exact onRequest_of_query hq
      · obtain ⟨hs, hr⟩ := reportsOf_ask hc.numbered (hengine ▸ hc.stopped) hl (.request e.id e.token)
        rw [hdc, Settled.after (k := k) (by rw [hgo]; exact ⟨hs.lt, hs.absent⟩) later, hgo]
        exact hr
      · rw [hgo]
        exact mem_table_ask (hengine ▸ hc.stopped) hn (.request e.id e.token)
    · rw [go_of_not_query he (by simp [ha]), onRequest_of_announce ha]
    · rw [go_of_not_query he hq, onRequest_of_other hq ha]
  · rintro before move later envelope texts k rfl c hheard ha hl
    have hc : c.Sound queue := hsound.after before
    have hdc : d = (c.go move).after later := (after_append _ before _).trans (after_cons c _ later)
    obtain ⟨e, now, node, handled, hgo⟩ := exists_of_heard? hheard
    obtain ⟨hs, hr⟩ := reportsOf_hear hc.numbered (e := e) ha hl now
    rw [hdc, Settled.after (k := k) (by rw [hgo]; exact ⟨hs.lt, hs.absent⟩) later, hgo]
    exact hr

/-- A node with a clock, while an answer to the first query that goes out comes from a peer. -/
def clockNode : Node :=
  let n := new ⟨List.replicate 16 12, rfl⟩ (.tcp "127.0.0.1" 9300) 0 [.ofRecords [⟨"kind", "clock"⟩]]
  { (n.start { up := true } none (.ok ())).2.1 with
    inbound := [⟨1, Envelope.queryToken, none, .response ["tcp://10.0.0.5:1", "x"]⟩] }

/-- A clock and a bell are asked for, with the same id. Of two subscribers one comes when the clock was found. -/
def clockAndBell : List Move :=
  [.mailbox (.move (.send ⟨5, "a", none, .query (.ofRecords [⟨"kind", "clock"⟩])⟩)),
    .mailbox (.move (.send ⟨5, "b", none, .query (.ofRecords [⟨"kind", "bell"⟩])⟩)),
    .event 0, .event 0, .subscribe, .take 0 1, .inbound 1]

/-- Each of the two requests gets its own response. -/
theorem requests_answered_clockAndBell :
    let d := (Docket.open clockNode).after (.subscribe :: clockAndBell)
    clockNode.Waits [] ∧ clockNode.engine.stopped = false ∧
    (∃ rest, d.node.subscriptions[0]? = some { queue := rest } ∧
      d.taken 0 ++ rest =
        [⟨5, "a", none, .response ["tcp://127.0.0.1:9300"]⟩, ⟨5, "b", none, .response ["tcp://10.0.0.5:1"]⟩]) ∧
    ∃ rest, d.node.subscriptions[1]? = some { queue := rest } ∧
      d.taken 1 ++ rest = [⟨5, "b", none, .response ["tcp://10.0.0.5:1"]⟩] := by
  intro d
  have hwaits : clockNode.Waits [] := ⟨0, 0, by decide +kernel, by decide +kernel⟩
  have hstopped : clockNode.engine.stopped = false := by decide +kernel
  obtain ⟨-, hall, -⟩ := requests_answered hwaits hstopped (.subscribe :: clockAndBell)
  refine ⟨hwaits, hstopped, ?_, ?_⟩
  · have hinits : ∀ between ∈ clockAndBell.inits,
        (((Docket.open clockNode).go .subscribe).after between).unread 0 ≤ subscriptionCapacity := by
      decide +kernel
    obtain ⟨rest, hs, heq⟩ := hall [] clockAndBell rfl fun between hb => hinits between ((List.mem_inits ..).2 hb)
    refine ⟨rest, hs, heq.trans ?_⟩
    decide +kernel
  · let c := (Docket.open clockNode).after (.subscribe :: clockAndBell.take 4)
    have hinits : ∀ between ∈ (clockAndBell.drop 5).inits,
        ((c.go .subscribe).after between).unread 1 ≤ subscriptionCapacity := by
      decide +kernel
    have hnumber : c.node.subscriptions.length = 1 := by decide +kernel
    have hlate := hall (.subscribe :: clockAndBell.take 4) (clockAndBell.drop 5) rfl
    simp only [show (Docket.open clockNode).after (.subscribe :: clockAndBell.take 4) = c from rfl, hnumber] at hlate
    obtain ⟨rest, hs, heq⟩ := hlate fun between hb => hinits between ((List.mem_inits ..).2 hb)
    refine ⟨rest, hs, heq.trans ?_⟩
    decide +kernel

end Docket
end Node
end PeerDiscovery
