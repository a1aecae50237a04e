import PeerDiscovery.Discovery.Engine
import PeerDiscovery.Proofs.Lists

/-! What each section of the engine does, as one equation on its state.
Sending changes links only, so a section that sends is written with `modifyLink`; `discover_eq` and
`submit_eq` give the whole state after a sighting of a new peer and after a query. -/
namespace PeerDiscovery
namespace Discovery

namespace Link

def takeAll (l : Link) (envelopes : List Envelope) : Link :=
  if l.accepting then { l with sent := l.sent ++ envelopes } else l

@[simp] theorem peer_send (l : Link) (e : Envelope) : (l.send e).1.peer = l.peer := by
  unfold send; split <;> rfl

@[simp] theorem endpoint_send (l : Link) (e : Envelope) : (l.send e).1.endpoint = l.endpoint := by
  unfold send; split <;> rfl

@[simp] theorem accepting_send (l : Link) (e : Envelope) : (l.send e).1.accepting = l.accepting := by
  unfold send; split <;> simp_all

@[simp] theorem peer_takeAll (l : Link) (es : List Envelope) : (l.takeAll es).peer = l.peer := by
  unfold takeAll; split <;> rfl

@[simp] theorem endpoint_takeAll (l : Link) (es : List Envelope) : (l.takeAll es).endpoint = l.endpoint := by
  unfold takeAll; split <;> rfl

@[simp] theorem accepting_takeAll (l : Link) (es : List Envelope) :
    (l.takeAll es).accepting = l.accepting := by
  unfold takeAll; split <;> simp_all

@[simp] theorem takeAll_nil (l : Link) : l.takeAll [] = l := by
  unfold takeAll; split <;> simp

theorem takeAll_of_accepting {l : Link} (h : l.accepting = true) (es : List Envelope) :
    l.takeAll es = { l with sent := l.sent ++ es } := by
  simp [takeAll, h]

theorem send_eq_takeAll (l : Link) (e : Envelope) : (l.send e).1 = l.takeAll [e] := by
  unfold send takeAll; split <;> rfl

theorem takeAll_takeAll (l : Link) (es fs : List Envelope) :
    (l.takeAll es).takeAll fs = l.takeAll (es ++ fs) := by
  by_cases h : l.accepting = true
  · rw [takeAll_of_accepting h, takeAll_of_accepting (by exact h), takeAll_of_accepting h]
    simp [List.append_assoc]
  · simp [takeAll, h]

end Link

namespace Engine

variable {κ : Type}

@[simp] theorem modifyLink_self (e : Engine κ) (n : Nat) (f : Link → Link) :
    (e.modifyLink n f).self = e.self := rfl
@[simp] theorem modifyLink_closeLimit (e : Engine κ) (n : Nat) (f : Link → Link) :
    (e.modifyLink n f).closeLimit = e.closeLimit := rfl
@[simp] theorem modifyLink_directory (e : Engine κ) (n : Nat) (f : Link → Link) :
    (e.modifyLink n f).directory = e.directory := rfl
@[simp] theorem modifyLink_endpoint (e : Engine κ) (n : Nat) (f : Link → Link) :
    (e.modifyLink n f).endpoint = e.endpoint := rfl
@[simp] theorem modifyLink_stopped (e : Engine κ) (n : Nat) (f : Link → Link) :
    (e.modifyLink n f).stopped = e.stopped := rfl
@[simp] theorem modifyLink_trackers (e : Engine κ) (n : Nat) (f : Link → Link) :
    (e.modifyLink n f).trackers = e.trackers := rfl
@[simp] theorem modifyLink_links (e : Engine κ) (n : Nat) (f : Link → Link) :
    (e.modifyLink n f).links = e.links.modify n f := rfl
@[simp] theorem modifyLink_pending (e : Engine κ) (n : Nat) (f : Link → Link) :
    (e.modifyLink n f).pending = e.pending := rfl
@[simp] theorem modifyLink_inFlight (e : Engine κ) (n : Nat) (f : Link → Link) :
    (e.modifyLink n f).inFlight = e.inFlight := rfl
@[simp] theorem modifyLink_issued (e : Engine κ) (n : Nat) (f : Link → Link) :
    (e.modifyLink n f).issued = e.issued := rfl
@[simp] theorem modifyLink_subscribers (e : Engine κ) (n : Nat) (f : Link → Link) :
    (e.modifyLink n f).subscribers = e.subscribers := rfl

theorem modifyLink_modifyLink (e : Engine κ) (n : Nat) (f g : Link → Link) :
    (e.modifyLink n f).modifyLink n g = e.modifyLink n (g ∘ f) := by
  simp [modifyLink, List.modify_modify_eq]

theorem modifyLink_id (e : Engine κ) (n : Nat) : (e.modifyLink n fun l => l) = e := by
  change ({ e with links := e.links.modify n id } : Engine κ) = e
  rw [List.modify_id]

theorem deliver_eq (e : Engine κ) (n : Nat) (envelope : Envelope) :
    (e.deliver n envelope).1 = e.modifyLink n fun l => l.takeAll [envelope] := by
  unfold deliver
  split
  · next h => rw [modifyLink, List.modify_eq_self (List.getElem?_eq_none_iff.1 h)]
  · next l h =>
    have hh : e.links.set n (l.takeAll [envelope]) = e.links.modify n fun l => l.takeAll [envelope] := by
      apply List.ext_getElem?
      intro i
      by_cases hi : n = i
      · subst hi
        obtain ⟨hn, rfl⟩ := List.getElem?_eq_some_iff.1 h
        simp [hn]
      · simp [List.getElem?_set_ne hi, List.getElem?_modify_ne _ _ hi]
    simp only [Link.send_eq_takeAll, hh, modifyLink]

theorem stopped_deliver (e : Engine κ) (n : Nat) (envelope : Envelope) :
    (e.deliver n envelope).1.stopped = e.stopped := by
  rw [deliver_eq]
  rfl

theorem sendAll_eq (e : Engine κ) (n : Nat) (envelopes : List Envelope) :
    e.sendAll n envelopes = e.modifyLink n fun l => l.takeAll envelopes := by
  induction envelopes generalizing e with
  | nil => simp [sendAll, modifyLink_id]
  | cons envelope rest ih =>
    have hh : e.sendAll n (envelope :: rest) = (e.deliver n envelope).1.sendAll n rest := rfl
    rw [hh, ih, deliver_eq, modifyLink_modifyLink]
    congr 1
    funext l
    simp [Link.takeAll_takeAll]

/-- The hello with which a new link to a peer starts: one for a beacon, once the node has an endpoint. -/
def greeting (e : Engine κ) (origin : Origin) : List Envelope :=
  if origin = .beacon then
    match e.endpoint with
    | none => []
    | some own => [{ id := e.nextId, message := .hello own.address own.port }]
  else []

theorem greeting_hello (e : Engine κ) : e.greeting .hello = [] := rfl

theorem greeting_of_none {e : Engine κ} (h : e.endpoint = none) (origin : Origin) :
    e.greeting origin = [] := by
  simp [greeting, h]

theorem greeting_of_some {e : Engine κ} {own : Endpoint} (h : e.endpoint = some own) :
    e.greeting .beacon = [{ id := e.nextId, message := .hello own.address own.port }] := by
  simp [greeting, h]

theorem sayHello_eq (e : Engine κ) (n : Nat) :
    e.sayHello n = { e with issued := e.issued + (e.greeting .beacon).length }.modifyLink n fun l =>
      l.takeAll (e.greeting .beacon) := by
  unfold sayHello
  split
  · next h =>
    rw [greeting_of_none h]
    simp only [Link.takeAll_nil]
    exact (modifyLink_id e n).symm
  · next own h =>
    rw [greeting_of_some h, deliver_eq]
    rfl

/-- The tracker of a peer on a link that is still to be made. -/
def newTracker (e : Engine κ) (peer : PeerId) (endpoint : Endpoint) (now : Nat) : Tracker :=
  ⟨peer, endpoint, e.links.length, now⟩

theorem drainPending_eq (e : Engine κ) (n : Nat) :
    e.drainPending n = { e.modifyLink n fun l => l.takeAll e.pending with pending := [] } := by
  rw [drainPending, sendAll_eq]
  rfl

/-- A new peer has a new link, on which the greeting and the queries that waited stand. -/
theorem discover_eq (e : Engine κ) (origin : Origin) (peer : PeerId) (endpoint : Endpoint) (now : Nat) :
    e.discover origin peer endpoint now =
      { e with
        issued := e.issued + (e.greeting origin).length
        links := e.links ++ [{ Link.opened peer endpoint with sent := e.greeting origin ++ e.pending }]
        trackers := e.trackers.filter (fun u => u.peer ≠ peer) ++ [e.newTracker peer endpoint now]
        pending := []
        subscribers := e.subscribers.map fun s =>
          if s.live then { s with queue := s.queue ++ [e.newTracker peer endpoint now] } else s } := by
  cases origin with
  | beacon =>
    have hg : ∀ links trackers, { e with links, trackers }.greeting .beacon = e.greeting .beacon :=
      fun _ _ => rfl
    simp only [discover, newTracker, putTracker, sayHello_eq, drainPending_eq, notify, if_true, modifyLink,
      hg, modify_length_append]
    simp [Link.takeAll, Link.opened]
  | hello =>
    simp only [discover, newTracker, putTracker, drainPending_eq, notify, modifyLink, greeting_hello, reduceCtorEq,
      if_false, modify_length_append]
    simp [Link.takeAll, Link.opened]

theorem register_of_stopped {e : Engine κ} (h : e.stopped = true) (origin : Origin) (peer : PeerId)
    (endpoint : Endpoint) (now : Nat) : e.register origin peer endpoint now = (e, none) := by
  simp [register, h]

theorem register_of_unknown {e : Engine κ} {peer : PeerId} (h : e.stopped = false) (hp : e.tracker? peer = none)
    (origin : Origin) (endpoint : Endpoint) (now : Nat) :
    e.register origin peer endpoint now = (e.discover origin peer endpoint now, none) := by
  simp [register, h, hp]

theorem register_of_same {e : Engine κ} {peer : PeerId} {t : Tracker} (h : e.stopped = false)
    (hp : e.tracker? peer = some t) (origin : Origin) (now : Nat) :
    e.register origin peer t.endpoint now = (e.touch peer now, none) := by
  simp [register, h, hp]

theorem register_of_moved {e : Engine κ} {peer : PeerId} {t : Tracker} {endpoint : Endpoint}
    (h : e.stopped = false) (hp : e.tracker? peer = some t) (hne : t.endpoint ≠ endpoint) (origin : Origin)
    (now : Nat) :
    e.register origin peer endpoint now = (e.discover origin peer endpoint now, some t.link) := by
  simp [register, h, hp, hne]

/-- The three things that a sighting can do: nothing, a touch, or a discovery. -/
theorem register_cases (e : Engine κ) (origin : Origin) (peer : PeerId) (endpoint : Endpoint) (now : Nat) :
    (e.stopped = true ∧ e.register origin peer endpoint now = (e, none)) ∨
    (e.stopped = false ∧ (e.tracker? peer).map (fun t => t.endpoint) = some endpoint ∧
      e.register origin peer endpoint now = (e.touch peer now, none)) ∨
    (e.stopped = false ∧ (e.tracker? peer).map (fun t => t.endpoint) ≠ some endpoint ∧
      e.register origin peer endpoint now =
        (e.discover origin peer endpoint now, (e.tracker? peer).map fun t => t.link)) := by
  cases hs : e.stopped with
  | true => exact .inl ⟨rfl, register_of_stopped hs origin peer endpoint now⟩
  | false =>
    right
    cases hp : e.tracker? peer with
    | none => exact .inr ⟨rfl, by simp, register_of_unknown hs hp origin endpoint now⟩
    | some t =>
      by_cases hh : t.endpoint = endpoint
      · subst hh
        exact .inl ⟨rfl, rfl, register_of_same hs hp origin now⟩
      · exact .inr ⟨rfl, by simpa using hh, register_of_moved hs hp hh origin now⟩

theorem sight_eq (e : Engine κ) (origin : Origin) (peer : PeerId) (endpoint : Endpoint) (now : Nat) :
    e.sight origin peer endpoint now =
      match (e.register origin peer endpoint now).2 with
      | none => (e.register origin peer endpoint now).1
      | some n => (e.register origin peer endpoint now).1.closeLink n
          (e.register origin peer endpoint now).1.closeLimit := rfl

def spread (e : Engine κ) (links : List Nat) (envelope : Envelope) : Engine κ :=
  links.foldl (fun e n => e.modifyLink n fun l => l.takeAll [envelope]) e

theorem submit_of_nil {e : Engine κ} (h : e.trackers = []) (query : Envelope) :
    e.submit query = ({ e with pending := e.pending ++ [query] }, .queued query.id) := by
  simp [submit, h]

theorem submit_of_ne_nil {e : Engine κ} (h : e.trackers ≠ []) (query : Envelope) :
    e.submit query = (e.spread (e.trackers.map fun t => t.link) query, .dispatched query.id) := by
  simp [submit, h, spread, List.foldl_map, deliver_eq]

theorem spread_eq (e : Engine κ) (links : List Nat) (envelope : Envelope) :
    e.spread links envelope =
      { e with links := links.foldl (fun ls n => ls.modify n fun l => l.takeAll [envelope]) e.links } := by
  induction links generalizing e with
  | nil => rfl
  | cons n links ih => exact ih (e.modifyLink n fun l => l.takeAll [envelope])

theorem submit_eq (e : Engine κ) (query : Envelope) :
    (e.submit query).1 = { e with links := (e.submit query).1.links, pending := (e.submit query).1.pending } := by
  by_cases h : e.trackers = []
  · rw [submit_of_nil h]
  · rw [submit_of_ne_nil h, spread_eq]

def nextQuery (e : Engine κ) (facts : FactSet) : Envelope :=
  { id := e.nextId, token := Envelope.queryToken, message := .query facts }

/-- What becomes of a query: it is refused, answered from the directory, or goes out under a new id. -/
theorem find_cases (e : Engine κ) (facts : FactSet) (k : κ) :
    (e.stopped = true ∧ e.find facts k = (e, .stopped, [])) ∨
    (e.stopped = false ∧ e.directory.query facts ≠ [] ∧
      e.find facts k = (e, .local (e.directory.query facts).length, e.directory.query facts)) ∨
    (e.stopped = false ∧ e.directory.query facts = [] ∧
      e.find facts k =
        (((e.takeId.1.await e.nextId k).submit (e.nextQuery facts)).1,
          ((e.takeId.1.await e.nextId k).submit (e.nextQuery facts)).2, [])) := by
  cases hs : e.stopped with
  | true => exact .inl ⟨rfl, by simp [find, hs]⟩
  | false =>
    right
    cases hq : e.directory.query facts with
    | nil => exact .inr ⟨rfl, rfl, by simp [find, hs, hq, takeId, nextQuery]⟩
    | cons found rest => exact .inl ⟨rfl, by simp, by simp [find, hs, hq]⟩

theorem announceAll_cons (e : Engine κ) (facts : FactSet) (t : Tracker) (rest : List Tracker) :
    (e.announceAll facts (t :: rest)).1 = ((e.announceTo facts t.link).1.announceAll facts rest).1 := rfl

theorem announceTo_eq (e : Engine κ) (facts : FactSet) (n : Nat) :
    (e.announceTo facts n).1 = { e with issued := e.issued + 1 }.modifyLink n fun l =>
      l.takeAll [{ id := e.nextId, message := .announce facts }] := by
  rw [announceTo, deliver_eq]
  rfl

theorem announceAll_eq (e : Engine κ) (facts : FactSet) (ts : List Tracker) :
    (e.announceAll facts ts).1 =
      { e with issued := e.issued + ts.length, links := (e.announceAll facts ts).1.links } := by
  induction ts generalizing e with
  | nil => rfl
  | cons t rest ih =>
    rw [announceAll_cons, ih, announceTo_eq]
    simp only [modifyLink, List.length_cons, Engine.mk.injEq, true_and, and_true]
    omega

theorem announce_eq (e : Engine κ) (facts : FactSet) :
    ∃ n, (e.announce facts).1 = { e with issued := e.issued + n, links := (e.announce facts).1.links } := by
  unfold announce
  split
  · exact ⟨0, rfl⟩
  · exact ⟨e.trackers.length, announceAll_eq e facts e.trackers⟩

theorem takeNext?_eq {e e' : Engine κ} {subscriber : Nat} {t : Tracker}
    (h : e.takeNext? subscriber = some (e', t)) :
    ∃ s rest, e.subscribers[subscriber]? = some s ∧ s.queue = t :: rest ∧
      e' = { e with subscribers := e.subscribers.set subscriber { s with queue := rest } } := by
  unfold takeNext? at h
  split at h
  · cases h
  · next s hs =>
    split at h
    · cases h
    · next u rest hq =>
      cases h
      exact ⟨s, rest, hs, hq, rfl⟩

theorem start_eq (e : Engine κ) (bound : Endpoint) (found : Option Net.IpAddr)
    (beacons : Except StartError Unit) :
    (e.start bound found beacons).1 =
      { e with
        started := true
        endpoint := if e.started then e.endpoint else some (advertised bound found) } := by
  unfold start
  split
  · next h =>
    obtain ⟨⟩ := e
    simp_all
  · next h => simp

theorem start_of_started {e : Engine κ} (h : e.started = true) (bound : Endpoint) (found : Option Net.IpAddr)
    (beacons : Except StartError Unit) : e.start bound found beacons = (e, .error .alreadyStarted) := if_pos h

theorem start_eq_ok {e e' : Engine κ} {bound own : Endpoint} {found : Option Net.IpAddr}
    (h : e.start bound found (.ok ()) = (e', .ok own)) :
    own = advertised bound found ∧ e' = { e with started := true, endpoint := some own } := by
  unfold start at h
  split at h
  · cases h
  · cases h
    exact ⟨rfl, rfl⟩

theorem closeAll_eq (e : Engine κ) (limit : Nat) (ts : List Tracker) :
    e.closeAll limit ts =
      { e with links := ts.foldl (fun ls t => ls.modify t.link fun l => l.close limit) e.links } := by
  induction ts generalizing e with
  | nil => rfl
  | cons t rest ih => exact ih (e.closeLink t.link limit)

theorem shutdown_eq (e : Engine κ) (limit : Nat) :
    e.shutdown limit =
      { e with
        stopped := true
        trackers := []
        links := e.trackers.foldl (fun ls t => ls.modify t.link fun l => l.close limit) e.links } :=
  closeAll_eq { e with stopped := true, trackers := [] } limit e.trackers

end Engine
end Discovery
end PeerDiscovery
