import PeerDiscovery.Discovery.Courier
import PeerDiscovery.Scenario.World

/-! One link and its courier on a network in memory, step by step, where scripted peers take the part
of the remote mailbox. -/
namespace PeerDiscovery
namespace Scenario

open Discovery (Courier Link)
open Net (Network)

structure Delivery extends World where
  /-- The link, until it is forgotten. -/
  link : Option Link
  /-- What the link has taken. -/
  queue : List Envelope := []
  courier : Courier
  /-- Where the remote mailbox listens. -/
  address : Net.Site
  listening : Bool := false
  /-- What the courier handed on and no step has taken, unless nobody takes it. -/
  inbound : Option (List Envelope) := some []

namespace Delivery

structure Options where
  self : PeerId
  remote : PeerId
  /-- The endpoint of the link, if it is not where the remote mailbox listens. -/
  endpoint : Option Endpoint
  listening : Bool
  up : Bool

def home : Net.Site := ⟨0, .v4 ⟨127, 0, 0, 1⟩, 40000⟩

def listen (d : Delivery) : Delivery :=
  if d.listening ∨ ¬d.network.CanBind d.address then d
  else { d with network := d.network.bind d.address, listening := true }

def unlisten (d : Delivery) : Delivery :=
  if d.listening then { d with network := d.network.unbind d.address, listening := false } else d

def begin (o : Options) : Delivery :=
  let endpoint := o.endpoint.getD (.ofSocketAddr home.addr)
  let d : Delivery := {
    network := { up := o.up }
    link := some (.opened o.remote endpoint)
    courier := { self := o.self, peer := o.remote, endpoint }
    address := home }
  if o.listening then d.listen else d

/-- A link whose courier has ended takes no more envelopes. -/
def courierWork? (d : Delivery) : Option Delivery :=
  (d.courier.work? d.network d.queue).map fun (network, courier, replies) =>
    { d with
      network
      courier
      link := if courier.IsDone then d.link.map Link.fail else d.link
      inbound := d.inbound.map (· ++ replies) }

def setWorld (d : Delivery) (w : World) : Delivery := { d with toWorld := w }

def work? (d : Delivery) : Option Delivery := d.courierWork? <|> d.peerWork?.map d.setWorld

def settleWithin : Nat → Delivery → Delivery
  | 0, d => d
  | fuel + 1, d =>
    match d.work? with
    | none => d
    | some d' => settleWithin fuel d'

def settleLimit : Nat := 1000000

def settle (d : Delivery) : Delivery := settleWithin settleLimit d

def setNow (d : Delivery) (time : Nat) : Delivery := { d with network := { d.network with now := time } }

/-- Lets time pass at a stroke. What comes due meanwhile is done when the delivery settles, at the later time. -/
def advance (d : Delivery) (millis : Nat) : Delivery := d.setNow (d.network.now + millis)

/-- Sends an envelope on the link; nothing when the link was forgotten. -/
def send (d : Delivery) (envelope : Envelope) : Delivery × Option Bool :=
  match d.link with
  | none => (d, none)
  | some l =>
    let (l, accepted) := l.send envelope
    ({ d with link := some l, queue := l.sent }, some accepted)

inductive Accepting where
  | connected
  | nobody
  | notListening
  deriving DecidableEq, Repr

def patience : Nat := 60

def takeConnection? (d : Delivery) (name : String) : Option Delivery :=
  match d.network.acceptFault? with
  | some _ => none
  | none =>
    (d.network.accept d.address).map fun (network, stream) =>
      d.setWorld ({ d.toWorld with network }.enrol name { stream, side := .server })

/-- Waits for a connection until `stop`, and no longer at `stop` itself. The courier wakes at most once
meanwhile, for it waits longer than patience lasts. -/
def awaitConnection (d : Delivery) (name : String) (stop : Nat) : Delivery × Accepting :=
  match d.courier.wakeTime?.filter (· < stop) with
  | none => (d.setNow stop, .nobody)
  | some time =>
    let d := (d.setNow time).settle
    match d.takeConnection? name with
    | some d => (d, .connected)
    | none => (d.setNow stop, .nobody)

/-- Accepts a connection. If none is there, time passes until one comes or patience ends. -/
def accept (d : Delivery) (name : String) : Delivery × Accepting :=
  if ¬d.listening then (d, .notListening)
  else
    match d.network.acceptFault? with
    | some network => ({ d with network }, .nobody)
    | none =>
      match d.takeConnection? name with
      | some d => (d, .connected)
      | none => d.awaitConnection name (d.network.now + patience)

def takeInbound (d : Delivery) : Delivery × Option (List Envelope) :=
  ({ d with inbound := d.inbound.map fun _ => [] }, d.inbound)

def dropInbound (d : Delivery) : Delivery := { d with inbound := none }

def close (d : Delivery) (limit : Nat) : Delivery :=
  { d with link := d.link.map fun l => l.close limit, courier := if d.link.isSome then d.courier.close else d.courier }

def forget (d : Delivery) : Delivery := { d with link := none, courier := d.courier.close }

end Delivery
end Scenario
end PeerDiscovery
