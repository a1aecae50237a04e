import PeerDiscovery.Mailbox.Hub
import PeerDiscovery.Mailbox.Port

/-! The mailbox of a node: where peers connect, and what arrives from them.
An envelope with a sender is a reply and goes to that peer's connection; one without is a request of
this node and is told to the listeners, as is every envelope that arrives. -/
namespace PeerDiscovery

inductive Mailbox.State where
  | closed
  | open
  | closing
  deriving DecidableEq, Repr

def Mailbox.State.name : Mailbox.State → String
  | .closed => "Closed"
  | .open => "Open"
  | .closing => "Closing"

/-- What a listener is told. -/
inductive Mailbox.Event where
  /-- An envelope arrived from a peer. -/
  | received (envelope : Envelope)
  /-- This node issued a request. -/
  | sent (envelope : Envelope)
  deriving DecidableEq, Repr

structure Mailbox.Listener where
  live : Bool := true
  /-- What it has been told and not taken. -/
  queue : List Mailbox.Event := []
  deriving DecidableEq, Repr

/-- A mailbox between two calls. `Channel` has its cells apart, and what a call does to them one after another. -/
structure Mailbox where
  requested : Endpoint
  /-- The machine that it is on. -/
  machine : Nat := 0
  /-- The endpoint that was bound last. -/
  bound : Option Endpoint := none
  state : Mailbox.State := .closed
  hub : Mailbox.Hub := {}
  listeners : List Mailbox.Listener := []
  deriving Repr

namespace Mailbox

def IsOpen (m : Mailbox) : Prop := m.state = .open

instance (m : Mailbox) : Decidable m.IsOpen := inferInstanceAs (Decidable (_ = _))

/-- The socket at which an open mailbox listens. -/
def listening? (m : Mailbox) : Option Net.SocketAddr :=
  if m.state = .open then m.bound.bind fun e => e.socketAddr.toOption else none

def emit (m : Mailbox) (event : Event) : Mailbox :=
  { m with
    listeners := m.listeners.map fun l => if l.live then { l with queue := l.queue ++ [event] } else l }

def addListener (m : Mailbox) : Mailbox × Nat :=
  ({ m with listeners := m.listeners ++ [{}] }, m.listeners.length)

def dropListener (m : Mailbox) (listener : Nat) : Mailbox :=
  { m with listeners := m.listeners.modify listener fun _ => { live := false } }

/-- All that a listener has been told and not taken. -/
def takeEvents (m : Mailbox) (listener : Nat) : Mailbox × List Event :=
  ({ m with listeners := m.listeners.modify listener fun l => { l with queue := [] } },
    (m.listeners[listener]?.map fun l => l.queue).getD [])

def takeEvent? (m : Mailbox) (listener : Nat) : Option (Mailbox × Event) :=
  match m.listeners[listener]? with
  | none => none
  | some l =>
    match l.queue with
    | [] => none
    | event :: rest =>
      some ({ m with listeners := m.listeners.set listener { l with queue := rest } }, event)

/-- Opens a closed mailbox, where `free` tells the sockets that can be bound. The socket to bind is
part of a good result. -/
def tryOpen (m : Mailbox) (free : Net.SocketAddr → Bool) : Mailbox × Except Error (Endpoint × Net.SocketAddr) :=
  if m.state = .closed then
    match socket free m.requested with
    | .error e => (m, .error e)
    | .ok addr =>
      let bound := m.requested.withPort addr.port
      ({ m with state := .open, bound := some bound, hub := {} }, .ok (bound, addr))
  else (m, .error .alreadyOpen)

/-- Closes an open mailbox and lets go of its connections. -/
def close (m : Mailbox) : Mailbox :=
  if m.state = .open then { m with state := .closed, hub := {} } else m

/-- The payload that goes out for a reply: its envelope without the sender. -/
def payload (envelope : Envelope) : Bytes := { envelope with sender := none }.encode

/-- Sends an envelope. The result says whether a reply found a connection. -/
def send (m : Mailbox) (envelope : Envelope) : Mailbox × Except Error Bool :=
  match envelope.sender with
  | none => (m.emit (.sent envelope), .ok true)
  | some identity =>
    if m.state = .open then
      let (hub, routed) := m.hub.reply identity (payload envelope)
      ({ m with hub }, .ok routed)
    else (m, .error .closed)

/-- Lets the hub take in a notice, and tells the listeners of the envelope that came with it. -/
def takeNotice? (m : Mailbox) : Option Mailbox :=
  match m.hub.takeNotice? with
  | none => none
  | some (hub, none) => some { m with hub }
  | some (hub, some envelope) => some ({ m with hub }.emit (.received envelope))

end Mailbox
end PeerDiscovery
