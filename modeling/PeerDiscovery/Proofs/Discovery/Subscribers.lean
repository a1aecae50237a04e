import PeerDiscovery.Proofs.Discovery.Contacts

/-! What the subscribers of an engine are told.
An engine is a forum: what it makes known are the trackers of its contacts. Sightings, queries and announcements that want
the registry wait for a tracker that is going round, and so does whoever subscribes; answers, starts and the subscribers
themselves go on. -/
namespace PeerDiscovery
namespace Discovery

instance : Hearer Subscriber Tracker where
  live s := s.live
  queue s := s.queue
  hear s t := { s with queue := s.queue ++ [t] }
  live_hear _ _ := rfl
  queue_hear _ _ := rfl

@[simp] theorem queue_subscriber (s : Subscriber) : Hearer.queue s = s.queue := rfl

/-- What is done with an engine, its subscribers included. -/
inductive Act (κ : Type) where
  | perform (op : Operation κ)
  /-- A subscriber takes the oldest tracker. -/
  | next (subscriber : Nat)

namespace Act

variable {κ : Type}

def subscribes : Act κ → Bool
  | .perform .subscribe => true
  | _ => false

def unsubscribes : Act κ → Nat → Bool
  | .perform (.unsubscribe j), k => j == k
  | _, _ => false

theorem subscribes_iff (a : Act κ) : a.subscribes = true ↔ a = .perform .subscribe := by
  unfold subscribes
  split
  · exact iff_of_true rfl rfl
  · next hne => exact iff_of_false Bool.false_ne_true hne

theorem unsubscribes_iff (a : Act κ) (k : Nat) : a.unsubscribes k = true ↔ a = .perform (.unsubscribe k) := by
  unfold unsubscribes
  split
  · next j => simp
  · next hne => exact iff_of_false Bool.false_ne_true (hne k)

end Act

namespace Engine

variable {κ : Type} {e : Engine κ} {op : Operation κ} {c : Contact} {a : Act κ} {k : Nat}

def act (e : Engine κ) : Act κ → Engine κ
  | .perform op => e.perform op
  | .next k => ((e.takeNext? k).map Prod.fst).getD e

/-- The contacts that an act makes, one at most. -/
def contacts (e : Engine κ) : Act κ → List Contact
  | .perform op => (e.contact? op).toList
  | .next _ => []

def discovers? (e : Engine κ) (a : Act κ) : Option Tracker := (e.contacts a).head?.map Contact.tracker

/-- What a subscriber takes out of its queue by an act. -/
def taking (e : Engine κ) (a : Act κ) (k : Nat) : List Tracker :=
  match a with
  | .perform (.takeDiscovered j) => if j = k then (e.takeDiscovered j).2 else []
  | .next j => if j = k then ((e.takeNext? j).map Prod.snd).toList else []
  | _ => []

/-- The act wants the registry, or the list of subscribers. -/
def waits (e : Engine κ) (a : Act κ) : Bool :=
  match a with
  | .perform op =>
    match op with
    | .beacon .. | .hello .. => (op.sighting? e.self).isSome
    | .find facts _ => !e.stopped && (e.directory.query facts).isEmpty
    | .announce _ => !e.stopped
    | .shutdown _ | .subscribe => true
    | _ => false
  | .next _ => false

theorem exists_contact_of_discovers {t : Tracker} (h : e.discovers? a = some t) :
    ∃ op c, a = .perform op ∧ e.contact? op = some c ∧ c.tracker = t := by
  cases a with
  | next k => cases h
  | perform op =>
    cases hc : e.contact? op with
    | none => simp [discovers?, contacts, hc] at h
    | some c => exact ⟨op, c, rfl, hc, by simpa [discovers?, contacts, hc] using h⟩

theorem subscribers_of_contact (h : e.contact? op = some c) :
    (e.perform op).subscribers = (e.notify c.tracker).subscribers := by
  obtain ⟨s, -, rfl, hp | ⟨n, limit, hp⟩⟩ := exists_discover_of_contact h <;> rw [hp, discover_eq] <;> rfl

theorem subscribers_perform (hc : e.contact? op = none) (hjoins : op ≠ .subscribe) (hleaves : ∀ j, op ≠ .unsubscribe j)
    (htakes : ∀ j, op ≠ .takeDiscovered j) : (e.perform op).subscribers = e.subscribers := by
  cases op with
  | beacon b now =>
    cases hs : (Operation.beacon b now : Operation κ).sighting? e.self with
    | none => rw [perform, onBeacon_eq, hs]
    | some s => rcases perform_of_no_contact hc hs with h | h <;> simp only [h, touch]
  | hello sender address port now =>
    cases hs : (Operation.hello sender address port now : Operation κ).sighting? e.self with
    | none => rw [perform, onHello_eq, hs]
    | some s => rcases perform_of_no_contact hc hs with h | h <;> simp only [h, touch]
  | find facts k =>
    rw [perform]
    rcases find_cases e facts k with ⟨-, h⟩ | ⟨-, -, h⟩ | ⟨-, -, h⟩
    · rw [h]
    · rw [h]
    · rw [h, submit_eq]
      rfl
  | response m =>
    obtain ⟨inFlight, -, h⟩ := onResponse_eq e m
    rw [perform, h]
  | announce facts =>
    obtain ⟨n, h⟩ := announce_eq e facts
    rw [perform, h]
  | announceTo facts n => rw [perform, announceTo_eq, modifyLink_subscribers]
  | start bound found beacons => rw [perform, start_eq]
  | subscribe => exact absurd rfl hjoins
  | unsubscribe j => exact absurd rfl (hleaves j)
  | takeDiscovered j => exact absurd rfl (htakes j)
  | fill | fail => rfl
  | shutdown limit => rw [perform, shutdown_eq]

/-- An act that makes nothing known concerns at most one subscriber. -/
theorem quiet_act (hnews : e.discovers? a = none) (hjoins : a.subscribes = false) :
    Forum.Quiet e.subscribers a.unsubscribes (e.taking a) (e.act a).subscribers := by
  cases a with
  | next j =>
    cases hm : e.takeNext? j with
    | none =>
      simp only [act, hm, Option.map_none, Option.getD_none]
      exact .hush (fun _ => rfl) fun k => by simp [taking, hm]
    | some next =>
      obtain ⟨e', t⟩ := next
      obtain ⟨s, rest, hs, hq, rfl⟩ := takeNext?_eq hm
      simp only [act, hm, Option.map_some, Option.getD_some]
      exact .take j s { s with queue := rest } hs rfl (by simpa [taking, hm] using hq) (fun _ => rfl)
        fun k hk => by simp [taking, hk]
  | perform op =>
    by_cases hleaves : ∃ j, op = .unsubscribe j
    · obtain ⟨j, rfl⟩ := hleaves
      exact .leave j _ (fun _ => rfl) (fun _ => rfl) fun _ => rfl
    by_cases htakes : ∃ j, op = .takeDiscovered j
    · obtain ⟨j, rfl⟩ := htakes
      refine .modify j (fun s : Subscriber => { s with queue := [] }) (fun _ => rfl) (fun s hj => ?_) (fun _ => rfl) fun k hk => ?_
      · simp [taking, takeDiscovered, hj]
      · by_cases hjk : j = k
        · subst hjk
          simp [taking, takeDiscovered, hk.resolve_left (not_not.2 rfl)]
        · simp [taking, hjk]
    have hc : e.contact? op = none := by
      cases hc : e.contact? op with
      | none => rfl
      | some c => simp [discovers?, contacts, hc] at hnews
    have hsame : (e.act (.perform op)).subscribers = e.subscribers := by
      refine subscribers_perform hc ?_ (fun j hj => hleaves ⟨j, hj⟩) fun j hj => htakes ⟨j, hj⟩
      rintro rfl
      cases hjoins
    rw [hsame]
    cases op with
    | unsubscribe j => exact absurd ⟨j, rfl⟩ hleaves
    | takeDiscovered j => exact absurd ⟨j, rfl⟩ htakes
    | _ => exact .hush (fun _ => rfl) fun _ => rfl

theorem waits_of_discovers {t : Tracker} (h : e.discovers? a = some t) : e.waits a = true ∧ ∀ k, e.taking a k = [] := by
  obtain ⟨op, c, rfl, hc, -⟩ := exists_contact_of_discovers h
  obtain ⟨s, hs, -⟩ := exists_discover_of_contact hc
  cases op with
  | beacon | hello => exact ⟨by simp [waits, hs], fun _ => rfl⟩
  | _ => exact absurd hs (by simp [Operation.sighting?])

/-- An engine and its subscribers. -/
def forum : Forum (Engine κ) (Act κ) Subscriber where
  hearers e := e.subscribers
  withHearers e subscribers := { e with subscribers }
  act := act
  news? := discovers?
  waits := waits
  joins := Act.subscribes
  leaves := Act.unsubscribes
  join := .perform .subscribe
  leave k := .perform (.unsubscribe k)
  hands := taking
  newcomer := {}
  hearers_withHearers _ _ := rfl
  withHearers_hearers _ := rfl
  withHearers_withHearers _ _ _ := rfl
  waits_of_news h := (waits_of_discovers h).1
  hands_of_news h := (waits_of_discovers h).2
  hearers_of_news h := by
    obtain ⟨op, c, rfl, hc, rfl⟩ := exists_contact_of_discovers h
    exact subscribers_of_contact hc
  live_newcomer := rfl
  queue_newcomer := rfl
  waits_of_joins h e := by rw [(Act.subscribes_iff _).1 h]; rfl
  news_of_joins h e := by rw [(Act.subscribes_iff _).1 h]; rfl
  hands_of_joins h e k := by rw [(Act.subscribes_iff _).1 h]; rfl
  hearers_of_joins h e := by rw [(Act.subscribes_iff _).1 h]; rfl
  waits_of_leaves h e := by rw [(Act.unsubscribes_iff _ _).1 h]; rfl
  joins_iff := Act.subscribes_iff
  leaves_iff := Act.unsubscribes_iff
  quiet := quiet_act

/-- The links are those of the contacts, in the order in which they were made. -/
structure Met (cs : List Contact) (e : Engine κ) : Prop where
  accounts : e.links.map Link.account = cs.map Contact.account
  numbers : cs.map (fun c => c.tracker.link) = List.range cs.length
  waiting : e.QueriesWait

variable {cs : List Contact}

theorem Met.length (h : Met cs e) : e.links.length = cs.length := by
  simpa only [List.length_map] using congrArg List.length h.accounts

theorem Met.withSubscribers (h : Met cs e) (subscribers : List Subscriber) : Met cs { e with subscribers } :=
  ⟨h.accounts, h.numbers, h.waiting⟩

theorem Met.perform (h : Met cs e) (op : Operation κ) : Met (cs ++ (e.contact? op).toList) (e.perform op) where
  accounts := by rw [links_account_perform h.waiting, h.accounts, List.map_append]
  numbers := by
    cases hc : e.contact? op with
    | none =>
      rw [Option.toList_none, List.append_nil]
      exact h.numbers
    | some c =>
      obtain ⟨s, -, rfl, -⟩ := exists_discover_of_contact hc
      rw [Option.toList_some, List.map_append, h.numbers, List.length_append, List.length_singleton, List.range_succ,
        ← h.length]
      rfl
  waiting := h.waiting.perform op

theorem Met.act (h : Met cs e) (a : Act κ) : Met (cs ++ e.contacts a) (e.act a) := by
  cases a with
  | perform op => exact h.perform op
  | next k =>
    rw [contacts, List.append_nil, Engine.act]
    cases hm : e.takeNext? k with
    | none => exact h
    | some next =>
      obtain ⟨e', t⟩ := next
      obtain ⟨s, rest, -, -, rfl⟩ := takeNext?_eq hm
      exact h.withSubscribers _

theorem Met.go {s : Forum.State (Engine κ) Tracker} (h : Met cs s.system) (x : Forum.Step (Act κ)) :
    Met (cs ++ forum.note contacts s x) (forum.go s x).system := by
  cases x with
  | turn =>
    rw [Forum.note, List.append_nil]
    exact h.withSubscribers _
  | act a =>
    rw [Forum.note, Forum.go]
    split
    · next hcan =>
      have hact : Met (cs ++ s.system.contacts a) (s.system.act a) := h.act a
      rcases Forum.perform_cases hcan with ⟨t, -, -, hp⟩ | ⟨-, -, -, hp⟩ | ⟨-, -, hp⟩ <;> rw [hp]
      · exact hact.withSubscribers _
      · exact hact
      · exact hact
    · rwa [List.append_nil]

theorem Met.after {s : Forum.State (Engine κ) Tracker} (h : Met cs s.system) (steps : List (Forum.Step (Act κ))) :
    Met (cs ++ forum.noted contacts s steps) (forum.after s steps).system := by
  induction steps generalizing s cs with
  | nil => rwa [Forum.noted, List.append_nil]
  | cons x steps ih =>
    rw [Forum.noted, ← List.append_assoc]
    exact ih (h.go x)

theorem met_new (self : PeerId) (closeLimit : Nat) (directory : Directory) :
    Met [] (new self closeLimit directory : Engine κ) :=
  ⟨rfl, rfl, fun _ hm => absurd hm List.not_mem_nil⟩

theorem told_eq_noted (s : Forum.State (Engine κ) Tracker) (steps : List (Forum.Step (Act κ))) :
    forum.told s steps = (forum.noted contacts s steps).map Contact.tracker := by
  have hone : ∀ (e : Engine κ) (a : Act κ), (e.discovers? a).toList = (e.contacts a).map Contact.tracker := by
    intro e a
    cases a with
    | next k => rfl
    | perform op => cases hc : e.contact? op <;> simp [discovers?, contacts, hc]
  induction steps generalizing s with
  | nil => rfl
  | cons x steps ih =>
    rw [Forum.noted, List.map_append, ← ih, Forum.told, Forum.noted]
    congr 1
    cases x with
    | turn => rfl
    | act a =>
      rw [Forum.note, Forum.note]
      split
      · exact hone s.system a
      · rfl

/-- Of any run of an engine, with subscribers that come and go at any time and are told of one tracker after another. The
links are those of the contacts, in order. The first envelope on a link is a hello with the endpoint of the node, if the
contact was made for a beacon when the node had an endpoint, and no other envelope is one. So there are no more hellos than
contacts for beacons; nothing but a beacon makes the engine say hello, and no envelope of a peer is answered with one. A
subscriber that is there subscribed at some time and has not left; with what it took it has in its queue, or is owed, the
trackers of exactly the contacts that were made since, each once and in order. Who subscribed is there until it leaves. A
tracker that goes round comes to its end; with nothing in between the engine does what its acts do. -/
theorem contacts_exact (self : PeerId) (closeLimit : Nat) (directory : Directory) (steps : List (Forum.Step (Act κ))) :
    let start : Forum.State (Engine κ) Tracker := ⟨new self closeLimit directory, {}⟩
    let s := forum.after start steps
    let made := forum.noted contacts start steps
    (s.system.links.length = made.length ∧
      ∀ (n : Nat) (l : Link) (c : Contact), s.system.links[n]? = some l → made[n]? = some c →
        l.peer = c.tracker.peer ∧ l.endpoint = c.tracker.endpoint ∧ c.tracker.link = n ∧
        (∀ address port, l.sent.head?.bind Envelope.hello? = some (address, port) ↔
          c.origin = .beacon ∧ ∃ own, c.own = some own ∧ own.address = address ∧ own.port = port) ∧
        ∀ m ∈ l.sent.tail, m.hello? = none) ∧
    (hellos s.system.links).length ≤ (made.filter fun c => c.origin = .beacon).length ∧
    (∀ a, (∀ b now, a ≠ .perform (.beacon b now)) → hellos (s.system.act a).links = hellos s.system.links) ∧
    (∀ m now, hellos (s.system.dispatch m now).1.links = hellos s.system.links ∧
      (s.system.dispatch m now).2.reply.bind Envelope.hello? = none) ∧
    (∀ (k : Nat) (r : Subscriber), s.system.subscribers[k]? = some r → r.live = true →
      ∃ before later, steps = before ++ .act (.perform .subscribe) :: later ∧ (forum.after start before).roster.IsFree ∧
        k = (forum.after start before).system.subscribers.length ∧ .act (.perform (.unsubscribe k)) ∉ later ∧
        let joined := forum.after start (before ++ [.act (.perform .subscribe)])
        forum.handed k joined later ++ r.queue ++ s.roster.owed k =
          (forum.noted contacts joined later).map Contact.tracker) ∧
    (∀ before later, steps = before ++ .act (.perform .subscribe) :: later → (forum.after start before).roster.IsFree →
      let k := (forum.after start before).system.subscribers.length
      .act (.perform (.unsubscribe k)) ∉ later → ∃ r, s.system.subscribers[k]? = some r ∧ r.live = true) ∧
    (forum.after s (List.replicate s.roster.left .turn)).roster.IsFree ∧
    ∀ acts, ∃ steps, steps.filterMap Forum.Step.act? = acts ∧
      (forum.after start steps).system = acts.foldl act (new self closeLimit directory) ∧
      (forum.after start steps).roster.IsFree := by
  intro start s made
  have hmet : Met made s.system := by
    have hnew : Met [] start.system := met_new self closeLimit directory
    exact hnew.after steps
  have hstart : forum.Complete start := (Roster.complete_nil : ({} : Roster Tracker).Complete ([] : List Subscriber))
  obtain ⟨hears, hthere⟩ := forum.hearers_hear hstart rfl steps
  refine ⟨⟨hmet.length, fun n l c hl hc => ?_⟩, ?_, fun a ha => ?_, hellos_dispatch hmet.waiting, fun k r hk hr => ?_, hthere,
    Forum.isFree_after_turns s, Forum.exists_steps hstart rfl⟩
  · have haccount : l.account = c.account := by
      have hat : (s.system.links.map Link.account)[n]? = (made.map Contact.account)[n]? := by rw [hmet.accounts]
      simpa [hl, hc] using hat
    have hnumber : c.tracker.link = n := by
      have hat : (made.map fun c => c.tracker.link)[n]? = (List.range made.length)[n]? := by rw [hmet.numbers]
      rw [List.getElem?_map, hc, Option.map_some, List.getElem?_range (List.getElem?_eq_some_iff.1 hc).1] at hat
      exact Option.some.inj hat
    obtain ⟨hpeer, hendpoint, hfirst, hlater⟩ := Account.mk.inj haccount
    refine ⟨hpeer, hendpoint, hnumber, fun address port => ?_, List.filterMap_eq_nil_iff.1 hlater⟩
    rw [hfirst]
    exact c.greeting_eq_some_iff address port
  · rw [hellos_eq_of_account hmet.accounts]
    exact Contact.length_filterMap_greeting_le made
  · cases a with
    | perform op => exact hellos_perform hmet.waiting op fun b now hop => ha b now (hop ▸ rfl)
    | next k =>
      rw [act]
      cases hm : s.system.takeNext? k with
      | none => rfl
      | some next =>
        obtain ⟨e', t⟩ := next
        obtain ⟨r, rest, -, -, rfl⟩ := takeNext?_eq hm
        rfl
  · obtain ⟨before, later, hsteps, hfree, hnumber, hlater, hlog⟩ := hears k r hk hr
    exact ⟨before, later, hsteps, hfree, hnumber, hlater, hlog.trans (told_eq_noted _ later)⟩

end Engine
end Discovery
end PeerDiscovery
