import PeerDiscovery.Bytes
import PeerDiscovery.Net.IpAddr

/-! A network of machines: listeners, and streams between clients and servers.
Which sockets a machine can bind and which listener a connection comes to is the terrain of the network, and can be anything.
What is written on a stream arrives whole, in order and at once. An operation can be made to fail once. Time is a number of
milliseconds. -/
namespace PeerDiscovery
namespace Net

/-- One direction of a stream. -/
structure Pipe where
  /-- What has been written and not read. -/
  waiting : Bytes := []
  /-- Nothing more will be written. -/
  ended : Bool := false
  deriving Repr

inductive Side where
  | client
  | server
  deriving DecidableEq, Repr

namespace Side

def other : Side → Side
  | client => server
  | server => client

end Side

structure Stream where
  fromClient : Pipe := {}
  fromServer : Pipe := {}
  deriving Repr

namespace Stream

/-- What a side writes. -/
def pipe (s : Stream) : Side → Pipe
  | .client => s.fromClient
  | .server => s.fromServer

def modify (s : Stream) (side : Side) (f : Pipe → Pipe) : Stream :=
  match side with
  | .client => { s with fromClient := f s.fromClient }
  | .server => { s with fromServer := f s.fromServer }

end Stream

/-- A socket of a machine. -/
structure Site where
  machine : Nat
  addr : SocketAddr
  deriving DecidableEq, Repr

structure Listener where
  site : Site
  /-- The streams that wait to be accepted, the oldest one in front. -/
  backlog : List Nat := []
  deriving Repr

/-- How often the next operations of a kind are to fail. -/
structure Faults where
  accept : Nat := 0
  receive : Nat := 0
  send : Nat := 0
  write : Nat := 0
  deriving Repr

/-- Two sockets that one machine cannot bind together. -/
def Overlap (a b : SocketAddr) : Prop :=
  a.port = b.port ∧ (a.ip = b.ip ∨ a.ip.IsUnspecified ∨ b.ip.IsUnspecified)

instance (a b : SocketAddr) : Decidable (Overlap a b) := inferInstanceAs (Decidable (_ ∧ _))

/-- Where listeners can be, and where connections go. -/
structure Terrain where
  /-- A listener can be at a site while others are at some sites. -/
  admits : List Site → Site → Bool
  /-- A connection from a machine to an address can come to a listener at a site. -/
  leads : Nat → SocketAddr → Site → Bool

namespace Terrain

/-- Machines that reach each other at the addresses that are their own. A listener at an unspecified address takes connections
to any of these, and an address that every machine calls its own leads back to the machine that asks for it. -/
def ofMachines (owns : Nat → IpAddr → Bool) : Terrain where
  admits bound s := owns s.machine s.addr.ip ∧ ∀ b ∈ bound, b.machine = s.machine → ¬Overlap b.addr s.addr
  leads machine target s :=
    s.addr.port = target.port ∧ owns s.machine target.ip ∧ (s.addr.ip = target.ip ∨ s.addr.ip.IsUnspecified) ∧
      (target.ip.IsHome → s.machine = machine)

/-- Machines that have nothing but themselves, and no IPv6. -/
def loopback : Terrain := ofMachines fun
  | _, .v4 ip => (IpAddr.v4 ip).IsHome
  | _, .v6 _ => false

/-- Nothing gets anywhere, though listeners can be at any address. -/
def cut : Terrain where
  admits bound s := ∀ b ∈ bound, b.machine = s.machine → ¬Overlap b.addr s.addr
  leads _ _ _ := false

end Terrain

structure Network where
  /-- Whether datagrams get anywhere. -/
  up : Bool
  terrain : Terrain := if up then .loopback else .cut
  now : Nat := 0
  listeners : List Listener := []
  /-- Every stream ever made, by its number. -/
  streams : List Stream := []
  faults : Faults := {}

namespace Network

def sites (n : Network) : List Site := n.listeners.map Listener.site

/-- A site that a listener can be bound to now. No site has two of them. -/
def CanBind (n : Network) (site : Site) : Prop := n.terrain.admits n.sites site = true ∧ site ∉ n.sites

instance (n : Network) (site : Site) : Decidable (n.CanBind site) := inferInstanceAs (Decidable (_ ∧ _))

def bind (n : Network) (site : Site) : Network :=
  { n with listeners := n.listeners ++ [{ site }] }

def modifyStream (n : Network) (stream : Nat) (f : Stream → Stream) : Network :=
  { n with streams := n.streams.modify stream f }

/-- Ends what a side writes. -/
def finish (n : Network) (stream : Nat) (side : Side) : Network :=
  n.modifyStream stream fun s => s.modify side fun p => { p with ended := true }

/-- Stops listening. Streams that were not accepted end. -/
def unbind (n : Network) (site : Site) : Network :=
  let gone := (n.listeners.filter fun l => l.site = site).flatMap fun l => l.backlog
  gone.foldl (fun n stream => n.finish stream .server)
    { n with listeners := n.listeners.filter fun l => l.site ≠ site }

/-- Opens a stream from a machine to an address, if that leads to a listener. -/
def connect (n : Network) (machine : Nat) (addr : SocketAddr) : Option (Network × Nat) :=
  match n.listeners.find? fun l => n.terrain.leads machine addr l.site with
  | none => none
  | some l =>
    some ({ n with
      streams := n.streams ++ [{}]
      listeners := n.listeners.map fun m =>
        if m.site = l.site then { m with backlog := m.backlog ++ [n.streams.length] } else m },
      n.streams.length)

/-- The oldest stream that waits at a listener. -/
def accept (n : Network) (site : Site) : Option (Network × Nat) :=
  match n.listeners.find? fun l => l.site = site with
  | none => none
  | some l =>
    match l.backlog with
    | [] => none
    | stream :: rest =>
      some ({ n with
        listeners := n.listeners.map fun m => if m.site = site then { m with backlog := rest } else m },
        stream)

def acceptFault? (n : Network) : Option Network :=
  if n.faults.accept = 0 then none
  else some { n with faults := { n.faults with accept := n.faults.accept - 1 } }

def receiveFault? (n : Network) : Option Network :=
  if n.faults.receive = 0 then none
  else some { n with faults := { n.faults with receive := n.faults.receive - 1 } }

def sendFault? (n : Network) : Option Network :=
  if n.faults.send = 0 then none
  else some { n with faults := { n.faults with send := n.faults.send - 1 } }

/-- Makes operations of a kind fail once more. -/
def fault (n : Network) (f : Faults → Faults) : Network := { n with faults := f n.faults }

def outgoing (n : Network) (stream : Nat) (side : Side) : Pipe :=
  match n.streams[stream]? with
  | none => { ended := true }
  | some s => s.pipe side

/-- What a side can read: the pipe that the other side writes. -/
def incoming (n : Network) (stream : Nat) (side : Side) : Pipe := n.outgoing stream side.other

def writeFault? (n : Network) : Option Network :=
  if n.faults.write = 0 then none
  else some { n with faults := { n.faults with write := n.faults.write - 1 } }

/-- Writes on a stream. The result says whether that worked. Where a side has ended nothing is written,
and no fault is used up. -/
def write (n : Network) (stream : Nat) (side : Side) (bytes : Bytes) : Network × Bool :=
  if (n.outgoing stream side).ended then (n, false)
  else
    match n.writeFault? with
    | some n => (n, false)
    | none =>
      (n.modifyStream stream fun s => s.modify side fun p => { p with waiting := p.waiting ++ bytes }, true)

/-- Reads all that waits for a side. -/
def read (n : Network) (stream : Nat) (side : Side) : Network × Bytes :=
  (n.modifyStream stream fun s => s.modify side.other fun p => { p with waiting := [] },
    (n.incoming stream side).waiting)

end Network
end Net
end PeerDiscovery
