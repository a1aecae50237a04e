import PeerDiscovery.Envelope
import PeerDiscovery.Framing.Reader
import PeerDiscovery.Net.Network

/-! A network in memory with scripted peers on it, all on one machine.
A peer has one side of a stream: it writes what a script says and keeps what it reads. -/
namespace PeerDiscovery
namespace Scenario

open Net (Network Side)

structure Peer where
  stream : Nat
  side : Side
  reader : Framing.Reader := {}
  /-- The messages read since they were last asked for, the latest one in front. -/
  unread : List (List Bytes) := []
  deriving Repr

/-- What a peer writes: a message of frames, then an envelope, then bytes as they are. -/
structure Script where
  frames : Option (List Bytes) := none
  envelope : Option Envelope := none
  raw : Option Bytes := none

structure Reading where
  count : Nat
  /-- The first messages. -/
  messages : List (List Bytes)
  /-- The other side has ended the stream. -/
  closed : Bool

namespace Peer

def work? (n : Network) (p : Peer) : Option (Network × Peer) :=
  if (n.incoming p.stream p.side).waiting = [] then none
  else
    let (n, bytes) := n.read p.stream p.side
    let (messages, reader) := (p.reader.feed bytes).take
    some (n, { p with reader, unread := messages.reverse ++ p.unread })

def writeMessage (n : Network) (p : Peer) (frames : List Bytes) : Network :=
  match Framing.encode frames with
  | .error _ => n
  | .ok bytes => (n.write p.stream p.side bytes).1

def write (n : Network) (p : Peer) (script : Script) : Network :=
  let n := match script.frames with
    | none => n
    | some frames => p.writeMessage n frames
  let n := match script.envelope with
    | none => n
    | some envelope => p.writeMessage n [envelope.encode]
  match script.raw with
  | none => n
  | some bytes => (n.write p.stream p.side bytes).1

def finish (n : Network) (p : Peer) : Network := n.finish p.stream p.side

def maxShown : Nat := 5

def takeReading (n : Network) (p : Peer) : Peer × Reading :=
  ({ p with unread := [] },
    { count := p.unread.length
      messages := p.unread.reverse.take maxShown
      closed := (n.incoming p.stream p.side).ended })

end Peer

inductive Connecting where
  | connected
  | refused
  | noAddress
  deriving DecidableEq, Repr

structure World where
  network : Network
  /-- The peers by their names. -/
  peers : List (String × Peer) := []

namespace World

def put (w : World) (name : String) (p : Peer) : World :=
  { w with peers := (name, p) :: w.peers.filter fun q => q.1 ≠ name }

def peer? (w : World) (name : String) : Option Peer := w.peers.lookup name

def finish (w : World) (p : Peer) : World := { w with network := p.finish w.network }

def drop (w : World) (name : String) (p : Peer) : World :=
  { w.finish p with peers := w.peers.filter fun q => q.1 ≠ name }

/-- Gives a name to a peer. One that had the name is dropped. -/
def enrol (w : World) (name : String) (p : Peer) : World :=
  match w.peer? name with
  | none => w.put name p
  | some old => (w.drop name old).put name p

def peerWork? (w : World) : Option World :=
  w.peers.findSome? fun (name, p) =>
    (p.work? w.network).map fun (network, p) => { w with network }.put name p

/-- Connects a peer to an address, if there is one, and lets it write. -/
def connect (w : World) (addr : Option Net.SocketAddr) (name : String) (script : Script) : World × Connecting :=
  match addr with
  | none => (w, .noAddress)
  | some addr =>
    match w.network.connect 0 addr with
    | none => (w, .refused)
    | some (network, stream) =>
      let p : Peer := { stream, side := .client }
      ({ w with network := p.write network script }.enrol name p, .connected)

def write (w : World) (p : Peer) (script : Script) : World := { w with network := p.write w.network script }

def read (w : World) (name : String) (p : Peer) : World × Reading :=
  let (p, reading) := p.takeReading w.network
  (w.put name p, reading)

def fault (w : World) (f : Net.Faults → Net.Faults) : World :=
  { w with network := w.network.fault f }

/-- Lets something else listen at an address, if that is free. -/
def occupy (w : World) (addr : Net.SocketAddr) : World × Bool :=
  if w.network.CanBind ⟨0, addr⟩ then ({ w with network := w.network.bind ⟨0, addr⟩ }, true) else (w, false)

end World
end Scenario
end PeerDiscovery
