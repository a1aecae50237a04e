import PeerDiscovery.Beacon
import PeerDiscovery.Directory
import PeerDiscovery.Discovery.Link
import PeerDiscovery.Text.Quoted

/-! The discovery engine: who the peers are and which queries wait for an answer.
Sightings of peers become trackers, one for a peer, each with a link. A query is answered from the
directory, or goes to every tracker, or waits for the first one. The functions under `Sections` are
the parts of an operation that nothing else can come between; the operations below are made of them.
`κ` is what a caller gives to be told of the answers to a query. -/
namespace PeerDiscovery
namespace Discovery

/-- A peer that has been seen. -/
structure Tracker where
  peer : PeerId
  endpoint : Endpoint
  /-- The number of its link. -/
  link : Nat
  /-- The time of the last sighting. -/
  lastSeen : Nat
  deriving DecidableEq, Repr

namespace Tracker

def debugText (t : Tracker) : String :=
  let transport := match t.endpoint.transport with
    | .tcp => "Tcp"
    | .ipc => "Ipc"
    | .inproc => "Inproc"
  "Tracker \x7b peer_id: " ++ t.peer.debugText ++ ", endpoint: Endpoint \x7b transport: " ++ transport
    ++ ", address: " ++ Text.quote t.endpoint.address ++ ", port: " ++ toString t.endpoint.port.toNat ++ " \x7d \x7d"

end Tracker

/-- Someone who is told of every tracker discovered. -/
structure Subscriber where
  live : Bool := true
  queue : List Tracker := []
  deriving DecidableEq, Repr

inductive Origin where
  | beacon
  | hello
  deriving DecidableEq, Repr

inductive StartError where
  | alreadyStarted
  /-- Listening for beacons failed. -/
  | listen (reason : String)
  /-- Sending beacons failed. -/
  | broadcast (reason : String)
  deriving DecidableEq, Repr

namespace StartError

/-- The name of the kind of error. -/
def kind : StartError → String
  | alreadyStarted => "AlreadyStarted"
  | listen _ => "Listen"
  | broadcast _ => "Broadcast"

def message : StartError → String
  | alreadyStarted => "discovery engine already started"
  | listen reason => "failed to listen for beacons: " ++ reason
  | broadcast reason => "failed to start beacon broadcast: " ++ reason

end StartError

/-- What became of a query. -/
inductive FindOutcome where
  /-- It was answered from the directory, with so many endpoints. -/
  | local (count : Nat)
  /-- It was sent to every tracker. -/
  | dispatched (id : CorrelationId)
  /-- It waits for the first tracker. -/
  | queued (id : CorrelationId)
  /-- It was dropped, for the engine has stopped. -/
  | stopped
  deriving DecidableEq, Repr

structure Engine (κ : Type) where
  self : PeerId
  /-- The time limit, in milliseconds, for closing a link that is replaced. -/
  closeLimit : Nat
  directory : Directory := ∅
  /-- The endpoint under which this node is known. -/
  endpoint : Option Endpoint := none
  started : Bool := false
  stopped : Bool := false
  trackers : List Tracker := []
  /-- Every link ever made, by its number. -/
  links : List Link := []
  /-- Queries that wait for a tracker, the oldest one in front. -/
  pending : List Envelope := []
  inFlight : List (CorrelationId × κ) := []
  /-- How many correlation ids have been given out. -/
  issued : Nat := 0
  subscribers : List Subscriber := []
  deriving Repr

namespace Engine

variable {κ : Type}

def tracker? (e : Engine κ) (peer : PeerId) : Option Tracker := e.trackers.find? fun t => t.peer = peer

/-- The correlation id to be given out next. Ids start at 1 and wrap around. -/
def nextId (e : Engine κ) : CorrelationId := UInt64.ofNat (e.issued + 1)

def takeId (e : Engine κ) : Engine κ × CorrelationId := ({ e with issued := e.issued + 1 }, e.nextId)

/-- Puts an envelope on a link, if the link takes it. -/
def deliver (e : Engine κ) (link : Nat) (envelope : Envelope) : Engine κ × Bool :=
  match e.links[link]? with
  | none => (e, false)
  | some l => ({ e with links := e.links.set link (l.send envelope).1 }, (l.send envelope).2)

def modifyLink (e : Engine κ) (link : Nat) (f : Link → Link) : Engine κ :=
  { e with links := e.links.modify link f }

def closings (e : Engine κ) : Nat := e.links.foldl (fun n l => n + l.closes.length) 0

def closeLink (e : Engine κ) (link : Nat) (limit : Nat) : Engine κ :=
  e.modifyLink link fun l => l.close limit

/-- A tracker in place of the one that its peer had. -/
def putTracker (e : Engine κ) (t : Tracker) : Engine κ :=
  { e with trackers := e.trackers.filter (fun u => u.peer ≠ t.peer) ++ [t] }

/-- Notes a sighting of a peer that has a tracker. -/
def touch (e : Engine κ) (peer : PeerId) (now : Nat) : Engine κ :=
  { e with trackers := e.trackers.map fun t => if t.peer = peer then { t with lastSeen := now } else t }

/-- Introduces this node on a link, once it has an endpoint. -/
def sayHello (e : Engine κ) (link : Nat) : Engine κ :=
  match e.endpoint with
  | none => e
  | some own => (e.takeId.1.deliver link { id := e.takeId.2, message := .hello own.address own.port }).1

def sendAll (e : Engine κ) (link : Nat) (envelopes : List Envelope) : Engine κ :=
  envelopes.foldl (fun e envelope => (e.deliver link envelope).1) e

def drainPending (e : Engine κ) (link : Nat) : Engine κ :=
  { e with pending := [] }.sendAll link e.pending

def notify (e : Engine κ) (t : Tracker) : Engine κ :=
  { e with
    subscribers := e.subscribers.map fun s => if s.live then { s with queue := s.queue ++ [t] } else s }

/-- Makes a link to a peer and its tracker, and tells the peer and the subscribers. -/
def discover (e : Engine κ) (origin : Origin) (peer : PeerId) (endpoint : Endpoint) (now : Nat) : Engine κ :=
  let t : Tracker := ⟨peer, endpoint, e.links.length, now⟩
  let e := { e with links := e.links ++ [Link.opened peer endpoint] }.putTracker t
  let e := if origin = .beacon then e.sayHello t.link else e
  (e.drainPending t.link).notify t

/-- Takes in a sighting. A link that is replaced is the second part of the result. -/
def register (e : Engine κ) (origin : Origin) (peer : PeerId) (endpoint : Endpoint) (now : Nat) :
    Engine κ × Option Nat :=
  if e.stopped then (e, none)
  else
    match e.tracker? peer with
    | none => (e.discover origin peer endpoint now, none)
    | some t =>
      if t.endpoint = endpoint then (e.touch peer now, none)
      else (e.discover origin peer endpoint now, some t.link)

/-- The queries in flight but for one. -/
def settled (e : Engine κ) (id : CorrelationId) : List (CorrelationId × κ) :=
  e.inFlight.filter fun p => p.1 ≠ id

/-- Remembers whom to tell of the answers to a query. -/
def await (e : Engine κ) (id : CorrelationId) (k : κ) : Engine κ :=
  { e with inFlight := e.settled id ++ [(id, k)] }

/-- Sends a query to every tracker, or lets it wait when there is none. -/
def submit (e : Engine κ) (query : Envelope) : Engine κ × FindOutcome :=
  if e.trackers = [] then ({ e with pending := e.pending ++ [query] }, .queued query.id)
  else (e.trackers.foldl (fun e t => (e.deliver t.link query).1) e, .dispatched query.id)

def drain (e : Engine κ) : Engine κ × List Tracker := ({ e with trackers := [] }, e.trackers)

/-- A sighting, and the closing of the link that it replaces. -/
def sight (e : Engine κ) (origin : Origin) (peer : PeerId) (endpoint : Endpoint) (now : Nat) : Engine κ :=
  let (e, replaced) := e.register origin peer endpoint now
  match replaced with
  | none => e
  | some link => e.closeLink link e.closeLimit

/-- A beacon of one's own is no sighting. -/
def onBeacon (e : Engine κ) (beacon : Beacon) (now : Nat) : Engine κ :=
  if beacon.peer = e.self then e else e.sight .beacon beacon.peer beacon.endpoint now

/-- An endpoint that a peer can give as its own: a socket that can be connected to. -/
def IsUsable (endpoint : Endpoint) : Prop :=
  endpoint.port ≠ 0 ∧ ¬endpoint.IsWildcard ∧ ∃ addr, endpoint.socketAddr = .ok addr

instance (endpoint : Endpoint) : Decidable (IsUsable endpoint) :=
  have : Decidable (∃ addr, endpoint.socketAddr = .ok addr) :=
    match endpoint.socketAddr with
    | .ok addr => isTrue ⟨addr, rfl⟩
    | .error _ => isFalse (by simp)
  inferInstanceAs (Decidable (_ ∧ _ ∧ _))

/-- A peer introduces itself; the sender is the identity of its connection. -/
def onHello (e : Engine κ) (sender : Bytes) (address : String) (port : UInt16) (now : Nat) : Engine κ :=
  match PeerId.ofBytes? sender with
  | none => e
  | some peer =>
    if peer = e.self ∨ ¬IsUsable (.tcp address port) then e
    else e.sight .hello peer (.tcp address port) now

/-- Looks for services. The endpoints are those to report at once. -/
def find (e : Engine κ) (facts : FactSet) (k : κ) : Engine κ × FindOutcome × List Endpoint :=
  if e.stopped then (e, .stopped, [])
  else
    match e.directory.query facts with
    | [] =>
      let (e, id) := e.takeId
      let (e, outcome) := (e.await id k).submit { id, token := Envelope.queryToken, message := .query facts }
      (e, outcome, [])
    | found => (e, .local found.length, found)

/-- Takes in an answer. The result names whom to tell, and of which endpoints; texts that are no
endpoints are passed over. -/
def onResponse (e : Engine κ) (envelope : Envelope) : Engine κ × List (κ × Endpoint) :=
  if envelope.token = Envelope.queryToken then
    match envelope.message with
    | .response endpoints =>
      match e.inFlight.lookup envelope.id with
      | none => (e, [])
      | some k =>
        ({ e with inFlight := e.settled envelope.id },
          endpoints.filterMap fun text => (Endpoint.parse text).toOption.map fun endpoint => (k, endpoint))
    | _ => (e, [])
  else (e, [])

/-- Announces a service on a link. -/
def announceTo (e : Engine κ) (facts : FactSet) (link : Nat) : Engine κ × Bool :=
  e.takeId.1.deliver link { id := e.takeId.2, message := .announce facts }

/-- Announces a service to some trackers and counts those that accept. -/
def announceAll (e : Engine κ) (facts : FactSet) : List Tracker → Engine κ × Nat
  | [] => (e, 0)
  | t :: rest =>
    let (e, accepted) := e.announceTo facts t.link
    let (e, count) := e.announceAll facts rest
    (e, if accepted then count + 1 else count)

/-- Announces a service to every tracker. -/
def announce (e : Engine κ) (facts : FactSet) : Engine κ × Nat :=
  if e.stopped then (e, 0) else e.announceAll facts e.trackers

def subscribe (e : Engine κ) : Engine κ × Nat :=
  ({ e with subscribers := e.subscribers ++ [{}] }, e.subscribers.length)

def unsubscribe (e : Engine κ) (subscriber : Nat) : Engine κ :=
  { e with subscribers := e.subscribers.modify subscriber fun _ => { live := false } }

/-- The trackers that a subscriber has not been told of yet. -/
def takeDiscovered (e : Engine κ) (subscriber : Nat) : Engine κ × List Tracker :=
  ({ e with subscribers := e.subscribers.modify subscriber fun s => { s with queue := [] } },
    (e.subscribers[subscriber]?.map fun s => s.queue).getD [])

/-- The oldest tracker that a subscriber has not been told of. -/
def takeNext? (e : Engine κ) (subscriber : Nat) : Option (Engine κ × Tracker) :=
  match e.subscribers[subscriber]? with
  | none => none
  | some s =>
    match s.queue with
    | [] => none
    | t :: rest => some ({ e with subscribers := e.subscribers.set subscriber { s with queue := rest } }, t)

/-- The address to give for a wildcard: what a look at the outgoing interface found, unless that is
no IPv4 address or one that others cannot use. -/
def ownIp (found : Option Net.IpAddr) : Net.Ipv4 :=
  match found with
  | some (.v4 ip) => if ip.a = 127 ∨ ip = .unspecified then ⟨127, 0, 0, 1⟩ else ip
  | _ => ⟨127, 0, 0, 1⟩

/-- The endpoint under which a mailbox is made known. -/
def advertised (bound : Endpoint) (found : Option Net.IpAddr) : Endpoint :=
  if bound.IsWildcard then bound.withAddress (Net.IpAddr.v4 (ownIp found)).text else bound

/-- Starts the engine for a mailbox; `beacons` says whether listening for beacons and sending them
works. -/
def start (e : Engine κ) (bound : Endpoint) (found : Option Net.IpAddr) (beacons : Except StartError Unit) :
    Engine κ × Except StartError Endpoint :=
  if e.started then (e, .error .alreadyStarted)
  else
    let endpoint := advertised bound found
    ({ e with started := true, endpoint := some endpoint }, beacons.map fun _ => endpoint)

def stop (e : Engine κ) : Engine κ := { e with stopped := true }

def closeAll (e : Engine κ) (limit : Nat) (trackers : List Tracker) : Engine κ :=
  trackers.foldl (fun e t => e.closeLink t.link limit) e

/-- Stops the engine for good, empties the registry and closes every link. -/
def shutdown (e : Engine κ) (limit : Nat) : Engine κ :=
  let (e, trackers) := e.stop.drain
  e.closeAll limit trackers

end Engine
end Discovery
end PeerDiscovery
