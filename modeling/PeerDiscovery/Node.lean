import PeerDiscovery.Discovery.Courier
import PeerDiscovery.Discovery.Options
import PeerDiscovery.Host
import PeerDiscovery.Mailbox.Service

/-! Nodes: a host with couriers for its links, the services that it has itself, and pumps that carry
what arrives to where it is handled.
A node has three pumps: for the events of its mailbox, for the envelopes that its couriers hand on, and
for the trackers that its engine discovers. To a new tracker every service of the node is announced. -/
namespace PeerDiscovery

open Discovery (Engine Courier Tracker StartError FindOutcome)
open Net (Network)

/-- Who asked a query. -/
inductive Node.Asker where
  /-- A caller of `find`, by number. -/
  | caller (number : Nat)
  /-- A request through the mailbox. -/
  | request (id : CorrelationId) (token : String)
  deriving DecidableEq, Repr

/-- Someone who is told of the answers to requests. Only the newest answers are kept for it. -/
structure Node.Subscription where
  queue : List Envelope := []
  /-- How many answers were dropped since it last took some. -/
  lost : Nat := 0
  deriving Repr

inductive Node.Error where
  | alreadyStarted
  | endpoint (error : EndpointError)
  | mailbox (error : Mailbox.Error)
  | discovery (error : StartError)
  deriving DecidableEq, Repr

structure Node where
  host : Host Node.Asker
  /-- The services of this node. -/
  hosted : List FactSet
  /-- The couriers of the links, by their numbers. -/
  couriers : List Courier := []
  /-- What the couriers have handed on and no pump has taken. -/
  inbound : List Envelope := []
  /-- It has been started, with or without success. -/
  used : Bool := false
  /-- What the pumps listen to: the mailbox and the engine. -/
  pumps : Option (Nat × Nat) := none
  /-- Everyone who ever subscribed, in order. -/
  subscriptions : List Node.Subscription := []
  deriving Repr

namespace Node

/-- The name of the kind of error. -/
def Error.kind : Error → String
  | alreadyStarted => "AlreadyStarted"
  | endpoint _ => "Endpoint"
  | mailbox _ => "Channel"
  | discovery _ => "Discovery"

def Error.message : Error → String
  | alreadyStarted => "node already started"
  | endpoint error => error.message
  | mailbox error => error.message
  | discovery error => error.message

/-- How many answers are kept for a subscription. -/
def subscriptionCapacity : Nat := 256

namespace Subscription

/-- Adds an answer, in place of the oldest one when there are too many. -/
def push (s : Subscription) (e : Envelope) : Subscription :=
  if s.queue.length < subscriptionCapacity then { s with queue := s.queue ++ [e] }
  else { queue := s.queue.drop 1 ++ [e], lost := s.lost + 1 }

/-- Takes the oldest answers, so many at most. -/
def take (s : Subscription) (count : Nat) : Subscription × List Envelope :=
  ({ queue := s.queue.drop count }, s.queue.take count)

end Subscription

def new (self : PeerId) (mailbox : Endpoint) (closeLimit : Nat) (hosted : List FactSet) : Node where
  host := { engine := { self, closeLimit }, mailbox := { requested := mailbox } }
  hosted := hosted

def ofConfig (self : PeerId) (config : Config) : Except Error Node :=
  match config.network.mailboxEndpoint with
  | .error e => .error (.endpoint e)
  | .ok mailbox => .ok (new self mailbox (Discovery.Options.ofSettings config.network).closeLimit config.services)

def engine (n : Node) : Engine Asker := n.host.engine

def mailbox (n : Node) : Mailbox := n.host.mailbox

/-- Puts a node on a machine. -/
def place (n : Node) (machine : Nat) : Node :=
  { n with host := { n.host with mailbox := { n.host.mailbox with machine } } }

/-- Sets the engine. New links get their couriers, and couriers of closed links are told to end. -/
def setEngine (n : Node) (engine : Engine Asker) : Node :=
  let couriers := n.couriers ++ (engine.links.drop n.couriers.length).map fun l =>
    { machine := n.host.mailbox.machine, self := engine.self, peer := l.peer, endpoint := l.endpoint : Courier }
  { n with
    host := { n.host with engine }
    couriers := couriers.zipWith (fun c l => if l.closes = [] then c else c.close) engine.links }

def setMailbox (n : Node) (mailbox : Mailbox) : Node := { n with host := { n.host with mailbox } }

def setHost (n : Node) (host : Host Asker) : Node := { n with host }.setEngine host.engine

/-- Tells an asker of an endpoint. What a caller is told is the second part. -/
def tell (n : Node) (asker : Asker) (endpoint : Endpoint) : Node × Option (Nat × Endpoint) :=
  match asker with
  | .caller number => (n, some (number, endpoint))
  | .request id token =>
    let answer : Envelope := { id, token, message := .response [endpoint.text] }
    ({ n with subscriptions := n.subscriptions.map fun s => s.push answer }, none)

/-- Subscribes to the answers to requests. The subscriber is told those that come from now on. -/
def subscribe (n : Node) : Node × Nat := ({ n with subscriptions := n.subscriptions ++ [{}] }, n.subscriptions.length)

abbrev Calls := List (Nat × Endpoint)

def tellAll (n : Node) : List (Asker × Endpoint) → Node × Calls
  | [] => (n, [])
  | (asker, endpoint) :: rest =>
    let (n, call) := n.tell asker endpoint
    let (n, calls) := n.tellAll rest
    (n, call.toList ++ calls)

def dispatch (n : Node) (envelope : Envelope) (now : Nat) : Node × Calls :=
  let (host, calls) := n.host.dispatch envelope now
  (n.setHost host).tellAll calls

def find (n : Node) (facts : FactSet) (asker : Asker) : Node × FindOutcome × Calls :=
  let (engine, outcome, found) := n.engine.find facts asker
  let (n, calls) := (n.setEngine engine).tellAll (found.map fun e => (asker, e))
  (n, outcome, calls)

/-- Notes a service at an endpoint in the directory. -/
def note (n : Node) (endpoint : Endpoint) (facts : FactSet) : Node :=
  n.setEngine { n.engine with directory := n.engine.directory.add endpoint facts }

/-- Takes on a service and announces it to every tracker. The result counts those that accept. -/
def announceLocal (n : Node) (facts : FactSet) : Node × Nat :=
  let n := if facts ∈ n.hosted then n else { n with hosted := n.hosted ++ [facts] }
  let n := match n.engine.endpoint with
    | none => n
    | some own => n.note own facts
  let (engine, count) := n.engine.announce facts
  (n.setEngine engine, count)

/-- Announces every service of this node to a tracker. -/
def announceHostedTo (n : Node) (t : Tracker) : Node :=
  n.setEngine (n.hosted.foldl (fun e facts => (e.announceTo facts t.link).1) n.engine)

/-- Handles a request that this node issued through its mailbox. -/
def onRequest (n : Node) (envelope : Envelope) : Node × Calls :=
  match envelope.message with
  | .query facts =>
    let (n, _, calls) := n.find facts (.request envelope.id envelope.token)
    (n, calls)
  | .announce facts => ((n.announceLocal facts).1, [])
  | _ => (n, [])

/-- Starts a node: opens its mailbox, starts its engine, notes its services and sets its pumps going.
`found` is the host's own address and `beacons` says whether beacons work. -/
def start (network : Network) (n : Node) (found : Option Net.IpAddr) (beacons : Except StartError Unit) :
    Network × Node × Except Error Endpoint :=
  if n.used then (network, n, .error .alreadyStarted)
  else
    let n := { n with used := true }
    match n.mailbox.openOn network with
    | (network, mailbox, .error e) => (network, n.setMailbox mailbox, .error (.mailbox e))
    | (network, mailbox, .ok bound) =>
      let n := n.setMailbox mailbox
      match n.engine.start bound found beacons with
      | (engine, .error e) =>
        let (network, mailbox) := n.mailbox.closeOn network
        (network, (n.setEngine engine).setMailbox mailbox, .error (.discovery e))
      | (engine, .ok advertised) =>
        let (engine, subscriber) := engine.subscribe
        let (mailbox, listener) := n.mailbox.addListener
        let n := { (n.setEngine engine).setMailbox mailbox with pumps := some (listener, subscriber) }
        (network, n.hosted.foldl (fun n facts => n.note advertised facts) n, .ok advertised)

/-- Stops the pumps, the engine and the mailbox. -/
def shutdown (network : Network) (n : Node) (limit : Nat) : Network × Node :=
  let n := match n.pumps with
    | none => n
    | some (listener, subscriber) =>
      { (n.setEngine (n.engine.unsubscribe subscriber)).setMailbox (n.mailbox.dropListener listener) with
        pumps := none }
  let n := n.setEngine (n.engine.shutdown limit)
  let (network, mailbox) := n.mailbox.closeOn network
  (network, n.setMailbox mailbox)

/-- Lets go of a node. One that runs goes on by itself; the couriers of any other one end. -/
def release (n : Node) : Node :=
  match n.pumps with
  | some _ => n
  | none => { n with couriers := n.couriers.map Courier.close }

/-- What a node has done: the network and the node after it, and what callers were told. -/
abbrev Work := Network × Node × Calls

def mailboxWork? (network : Network) (n : Node) : Option Work :=
  (n.mailbox.work? network).map fun (network, mailbox) => (network, n.setMailbox mailbox, [])

/-- The work of one courier. A link whose courier has ended takes no more envelopes. -/
def courierWork? (network : Network) (n : Node) (link : Nat) (c : Courier) : Option Work := do
  let l ← n.engine.links[link]?
  let (network, c, replies) ← c.work? network l.sent
  let n := { n with couriers := n.couriers.set link c, inbound := n.inbound ++ replies }
  let n := if c.IsDone then n.setEngine (n.engine.modifyLink link Discovery.Link.fail) else n
  return (network, n, [])

def couriersWork? (network : Network) (n : Node) : Option Work :=
  n.couriers.zipIdx.findSome? fun (c, link) => n.courierWork? network link c

def eventWork? (network : Network) (n : Node) (now : Nat) : Option Work := do
  let (listener, _) ← n.pumps
  let (mailbox, event) ← n.mailbox.takeEvent? listener
  let n := n.setMailbox mailbox
  let (n, calls) := match event with
    | .received envelope => n.dispatch envelope now
    | .sent envelope => n.onRequest envelope
  return (network, n, calls)

/-- Handles the next envelope that the couriers handed on. -/
def inboundWork? (network : Network) (n : Node) (now : Nat) : Option Work := do
  let _ ← n.pumps
  match n.inbound with
  | [] => none
  | envelope :: rest =>
    let (n, calls) := { n with inbound := rest }.dispatch envelope now
    return (network, n, calls)

/-- Announces the services of this node to the next tracker that was discovered. -/
def discoveryWork? (network : Network) (n : Node) : Option Work := do
  let (_, subscriber) ← n.pumps
  let (engine, t) ← n.engine.takeNext? subscriber
  return (network, (n.setEngine engine).announceHostedTo t, [])

/-- One thing that a node does by itself, if there is one. -/
def work? (network : Network) (n : Node) (now : Nat) : Option Work :=
  n.mailboxWork? network
    <|> n.eventWork? network now
    <|> n.inboundWork? network now
    <|> n.discoveryWork? network
    <|> n.couriersWork? network

end Node
end PeerDiscovery
