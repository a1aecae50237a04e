import PeerDiscovery.Mailbox.Basic
import PeerDiscovery.Net.Network

/-! What a mailbox does on its network by itself: accept, read, take notices in and write.
`work?` does one thing that is ready, and there is nothing left to do when it gives `none`. -/
namespace PeerDiscovery
namespace Mailbox

open Net (Network)

/-- A socket of the machine that the mailbox is on. -/
def site (m : Mailbox) (addr : Net.SocketAddr) : Net.Site := ⟨m.machine, addr⟩

/-- Accepts a stream that waits. A failure to accept one is passed over. -/
def acceptWork? (n : Network) (m : Mailbox) : Option (Network × Mailbox) :=
  match m.listening? with
  | none => none
  | some addr =>
    match n.acceptFault? with
    | some n => some (n, m)
    | none => (n.accept (m.site addr)).map fun (n, stream) => (n, { m with hub := m.hub.accept stream })

def readWork? (n : Network) (m : Mailbox) (number : Nat) (c : Connection) : Option (Network × Mailbox) :=
  let pipe := n.incoming c.stream .server
  if c.reading = false then none
  else if pipe.waiting ≠ [] then
    let (n, bytes) := n.read c.stream .server
    some (n, { m with hub := m.hub.receive number bytes })
  else if pipe.ended then some (n, { m with hub := m.hub.receiveEnd number })
  else none

/-- Writes the oldest payload of a connection, or ends its writing half. A payload that cannot be
written ends it too. -/
def writeWork? (n : Network) (m : Mailbox) (number : Nat) (c : Connection) : Option (Network × Mailbox) :=
  let stop (n : Network) : Network × Mailbox :=
    (n, { m with hub := m.hub.modifyConnection number Connection.stopWriting })
  match c.writer, c.outbox with
  | .ended, _ => if (n.incoming c.stream .client).ended then none else some (n.finish c.stream .server, m)
  | _, payload :: rest =>
    match Framing.encode [payload] with
    | .error _ => some (stop n)
    | .ok bytes =>
      match n.write c.stream .server bytes with
      | (n, false) => some (stop n)
      | (n, true) => some (n, { m with hub := m.hub.modifyConnection number fun c => { c with outbox := rest } })
  | .released, [] => some (stop n)
  | _, [] => none

def connectionWork? (m : Mailbox) (ready : Nat → Connection → Option (Network × Mailbox)) :
    Option (Network × Mailbox) :=
  m.hub.connections.zipIdx.findSome? fun (c, number) => ready number c

def work? (n : Network) (m : Mailbox) : Option (Network × Mailbox) :=
  acceptWork? n m
    <|> m.connectionWork? (readWork? n m)
    <|> m.takeNotice?.map (n, ·)
    <|> m.connectionWork? (writeWork? n m)

/-- Opens a mailbox on its network. -/
def openOn (n : Network) (m : Mailbox) : Network × Mailbox × Except Error Endpoint :=
  match m.tryOpen fun addr => n.CanBind (m.site addr) with
  | (m, .ok (bound, addr)) => (n.bind (m.site addr), m, .ok bound)
  | (m, .error e) => (n, m, .error e)

/-- Closes a mailbox on its network, with all its connections. -/
def closeOn (n : Network) (m : Mailbox) : Network × Mailbox :=
  match m.listening? with
  | none => (n, m.close)
  | some addr =>
    (m.hub.connections.foldl (fun n c => n.finish c.stream .server) (n.unbind (m.site addr)), m.close)

end Mailbox
end PeerDiscovery
