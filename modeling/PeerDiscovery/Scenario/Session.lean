import PeerDiscovery.Discovery.Snapshot
import PeerDiscovery.Host
import PeerDiscovery.Mailbox.Service
import PeerDiscovery.Scenario.World

/-! Sessions: one host on a network in memory, step by step.
Callers of `find` are numbered from 0. After each step the host settles: everything it does by itself
is done before the next step. -/
namespace PeerDiscovery
namespace Scenario

open Discovery (Engine FindOutcome StartError)
open Net (Network)

inductive BeaconPort where
  | free
  /-- Free, but no datagram of others comes to it. -/
  | hidden
  /-- Something else listens there. -/
  | busy
  deriving DecidableEq, Repr

structure Session extends World where
  host : Host Nat
  /-- How many callers of `find` there have been. -/
  finds : Nat := 0
  /-- The endpoints that callers were told of, the latest one in front. -/
  calls : List (Nat × Endpoint) := []
  /-- The listener whose received envelopes are dispatched. -/
  pump : Option Nat := none
  /-- The listeners that steps have added. -/
  listeners : List Nat := []
  beaconPort : BeaconPort
  /-- Beacons are listened for. -/
  listening : Bool := false
  /-- The links whose closing never ends. -/
  hung : List Nat := []
  /-- The loop that takes beacons in waits for such a link, and so takes none any more. -/
  beaconsHeld : Bool := false
  /-- The loop that dispatches what the mailbox received waits for such a link. -/
  dispatchHeld : Bool := false
  /-- A clock in nanoseconds, which goes on by one with each step. -/
  clock : Nat := 0

namespace Session

structure Options where
  self : PeerId
  mailbox : Endpoint
  beaconPort : BeaconPort
  closeLimit : Nat
  pump : Bool
  up : Bool

def begin (o : Options) : Session :=
  let mailbox : Mailbox := { requested := o.mailbox }
  let s : Session := {
    network := { up := o.up }
    host := { engine := { self := o.self, closeLimit := o.closeLimit }, mailbox }
    beaconPort := o.beaconPort }
  if o.pump then
    let (mailbox, listener) := mailbox.addListener
    { s with host := { s.host with mailbox }, pump := some listener }
  else s

def engine (s : Session) : Engine Nat := s.host.engine

def mailbox (s : Session) : Mailbox := s.host.mailbox

def setEngine (s : Session) (engine : Engine Nat) : Session := { s with host := { s.host with engine } }

def setMailbox (s : Session) (mailbox : Mailbox) : Session := { s with host := { s.host with mailbox } }

def mailboxWork? (s : Session) : Option Session :=
  (s.mailbox.work? s.network).map fun (network, mailbox) => { s with network }.setMailbox mailbox

def closings (s : Session) (link : Nat) : Nat := (s.engine.links[link]?.map fun l => l.closes.length).getD 0

/-- On the way from one state to a later one a link was closed whose closing never ends. Who closed it
waits for good. -/
def Hangs (s t : Session) : Prop := ∃ link ∈ s.hung, s.closings link < t.closings link

instance (s t : Session) : Decidable (Hangs s t) := inferInstanceAs (Decidable (∃ link ∈ s.hung, _))

def setWorld (s : Session) (w : World) : Session := { s with toWorld := w }

def dispatch (s : Session) (envelope : Envelope) : Session :=
  let (host, calls) := s.host.dispatch envelope s.clock
  { s with host, calls := calls.reverse ++ s.calls }

/-- Dispatches the next envelope that the mailbox received. -/
def pumpWork? (s : Session) : Option Session := do
  let pump ← if s.dispatchHeld then none else s.pump
  let (mailbox, event) ← s.mailbox.takeEvent? pump
  let s := s.setMailbox mailbox
  match event with
  | .received envelope =>
    let t := s.dispatch envelope
    some { t with dispatchHeld := Hangs s t }
  | .sent _ => some s

/-- A listener for beacons passes over a failure to receive. -/
def receiveWork? (s : Session) : Option Session :=
  if s.listening then s.network.receiveFault?.map fun network => { s with network } else none

def work? (s : Session) : Option Session :=
  s.mailboxWork? <|> s.peerWork?.map s.setWorld <|> s.receiveWork? <|> s.pumpWork?

def settleWithin : Nat → Session → Session
  | 0, s => s
  | fuel + 1, s =>
    match s.work? with
    | none => s
    | some s' => settleWithin fuel s'

def settleLimit : Nat := 1000000

def settle (s : Session) : Session := settleWithin settleLimit s

def tick (s : Session) : Session := { s with clock := s.clock + 1 }

def beacons (s : Session) : Except StartError Unit :=
  if s.beaconPort = .busy then .error (.listen "address in use") else .ok ()

def start (s : Session) (bound : Endpoint) : Session × Except StartError Endpoint :=
  let (engine, result) := s.engine.start bound none s.beacons
  match result with
  | .ok endpoint => ({ s.setEngine engine with listening := ¬engine.stopped }, .ok endpoint)
  | .error e => (s.setEngine engine, .error e)

def beacon (s : Session) (beacon : Beacon) : Session := s.setEngine (s.engine.onBeacon beacon s.clock)

def hello (s : Session) (sender : Bytes) (address : String) (port : UInt16) : Session :=
  s.setEngine (s.engine.onHello sender address port s.clock)

def datagram (s : Session) (bytes : Bytes) (source : Net.IpAddr) : Session :=
  if s.network.up ∧ s.beaconPort = .free ∧ s.listening ∧ ¬s.beaconsHeld then
    match Beacon.ofDatagram bytes source with
    | .ok beacon =>
      let t := s.beacon beacon
      { t with beaconsHeld := Hangs s t }
    | .error _ => s
  else s

def find (s : Session) (facts : FactSet) : Session × FindOutcome :=
  let (engine, outcome, found) := s.engine.find facts s.finds
  ({ s.setEngine engine with
      finds := s.finds + 1
      calls := (found.map fun e => (s.finds, e)).reverse ++ s.calls }, outcome)

def response (s : Session) (envelope : Envelope) : Session :=
  let (engine, calls) := s.engine.onResponse envelope
  { s.setEngine engine with calls := calls.reverse ++ s.calls }

def announce (s : Session) (facts : FactSet) : Session × Nat :=
  let (engine, count) := s.engine.announce facts
  (s.setEngine engine, count)

def announceTo (s : Session) (link : Nat) (facts : FactSet) : Session × Bool :=
  let (engine, accepted) := s.engine.announceTo facts link
  (s.setEngine engine, accepted)

def breakLink (s : Session) (link : Nat) : Session :=
  s.setEngine (s.engine.modifyLink link Discovery.Link.fail)

def hangLink (s : Session) (link : Nat) : Session :=
  if link < s.engine.links.length then { s with hung := link :: s.hung } else s

def setDirectory (s : Session) (directory : Directory) : Session :=
  s.setEngine { s.engine with directory }

def subscribe (s : Session) : Session × Nat :=
  let (engine, subscriber) := s.engine.subscribe
  (s.setEngine engine, subscriber)

def unsubscribe (s : Session) (subscriber : Nat) : Session := s.setEngine (s.engine.unsubscribe subscriber)

def takeDiscovered (s : Session) (subscriber : Nat) : Session × List Discovery.Tracker :=
  let (engine, trackers) := s.engine.takeDiscovered subscriber
  (s.setEngine engine, trackers)

def shutdown (s : Session) (limit : Nat) : Session :=
  { s.setEngine (s.engine.shutdown limit) with listening := false }

def snapshot (s : Session) : Discovery.Snapshot := .of s.engine s.clock

def openMailbox (s : Session) : Session × Except Mailbox.Error Endpoint :=
  let (network, mailbox, result) := s.mailbox.openOn s.network
  ({ s with network }.setMailbox mailbox, result)

def closeMailbox (s : Session) : Session :=
  let (network, mailbox) := s.mailbox.closeOn s.network
  { s with network }.setMailbox mailbox

def listen (s : Session) : Session × Nat :=
  let (mailbox, listener) := s.mailbox.addListener
  ({ s with listeners := s.listeners ++ [listener] }.setMailbox mailbox, s.listeners.length)

def unlisten (s : Session) (listener : Nat) : Session :=
  match s.listeners[listener]? with
  | none => s
  | some l => s.setMailbox (s.mailbox.dropListener l)

def takeEvents (s : Session) (listener : Nat) : Session × List Mailbox.Event :=
  match s.listeners[listener]? with
  | none => (s, [])
  | some l =>
    let (mailbox, events) := s.mailbox.takeEvents l
    (s.setMailbox mailbox, events)

def send (s : Session) (envelope : Envelope) : Session × Except Mailbox.Error Bool :=
  let (mailbox, result) := s.mailbox.send envelope
  (s.setMailbox mailbox, result)

/-- Sends an envelope so many times without a pause. The results say how often it found its way and how
often not. -/
def sendBurst (s : Session) (envelope : Envelope) : Nat → Session × Nat × Nat
  | 0 => (s, 0, 0)
  | n + 1 =>
    let (s, result) := s.send envelope
    let (s, routed, lost) := s.sendBurst envelope n
    match result with
    | .ok true => (s, routed + 1, lost)
    | .ok false => (s, routed, lost + 1)
    | .error _ => (s, routed, lost)

/-- How many sends the mailbox takes in before its connections write. -/
def burst : Nat := 128

def sendMany (s : Session) (envelope : Envelope) (n : Nat) : Session × Nat × Nat :=
  (List.replicate (n / burst) burst ++ [n % burst]).foldl (fun (s, routed, lost) k =>
    let (s, routed', lost') := s.sendBurst envelope k
    (s.settle, routed + routed', lost + lost')) (s, 0, 0)

def address? (s : Session) : Option Net.SocketAddr := s.mailbox.bound.bind fun e => e.socketAddr.toOption

/-- What happened on the links between two states of a session. -/
structure Report where
  connected : List (Nat × Discovery.Link)
  touched : List PeerId
  sent : List (Nat × Envelope)
  closed : List (Nat × Nat)
  calls : List (Nat × Endpoint)

/-- What happened on the way from one state to a later one. -/
def report (s t : Session) : Report where
  connected := (t.engine.links.zipIdx.drop s.engine.links.length).map fun (l, i) => (i, l)
  touched :=
    (t.engine.trackers.filterMap fun u =>
      match s.engine.tracker? u.peer with
      | some old => if old.link = u.link ∧ old.lastSeen ≠ u.lastSeen then some u.peer else none
      | none => none).mergeSort fun p q => ¬q < p
  sent := t.engine.links.zipIdx.flatMap fun (l, i) =>
    (l.sent.drop ((s.engine.links[i]?.map fun l => l.sent.length).getD 0)).map fun e => (i, e)
  closed := t.engine.links.zipIdx.flatMap fun (l, i) =>
    (l.closes.drop (s.closings i)).map fun limit => (i, limit)
  calls := (t.calls.take (t.calls.length - s.calls.length)).reverse

end Session
end Scenario
end PeerDiscovery
