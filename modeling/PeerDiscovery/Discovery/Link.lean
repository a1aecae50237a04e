import PeerDiscovery.Endpoint
import PeerDiscovery.Envelope
import PeerDiscovery.PeerId

/-! Links: the outgoing paths to peers, as the discovery engine sees them.
A link takes envelopes, in order, until it is closed or breaks. What it has taken stays in its
record, so the record of a link only grows. -/
namespace PeerDiscovery
namespace Discovery

structure Link where
  peer : PeerId
  endpoint : Endpoint
  /-- Takes envelopes. -/
  accepting : Bool := true
  /-- The envelopes taken, in order. -/
  sent : List Envelope := []
  /-- The time limits, in milliseconds, with which the link was closed. -/
  closes : List Nat := []
  deriving DecidableEq, Repr

namespace Link

/-- A new link. -/
def opened (peer : PeerId) (endpoint : Endpoint) : Link := { peer, endpoint }

/-- Whether the link takes the envelope. -/
def send (l : Link) (e : Envelope) : Link × Bool :=
  if l.accepting then ({ l with sent := l.sent ++ [e] }, true) else (l, false)

/-- Stops taking envelopes without being closed. -/
def fail (l : Link) : Link := { l with accepting := false }

def close (l : Link) (limit : Nat) : Link :=
  { l with accepting := false, closes := l.closes ++ [limit] }

theorem send_of_accepting {l : Link} (h : l.accepting = true) (e : Envelope) :
    l.send e = ({ l with sent := l.sent ++ [e] }, true) := by simp [send, h]

theorem send_of_not_accepting {l : Link} (h : l.accepting = false) (e : Envelope) :
    l.send e = (l, false) := by simp [send, h]

@[simp] theorem accepting_close (l : Link) (limit : Nat) : (l.close limit).accepting = false := rfl

@[simp] theorem sent_close (l : Link) (limit : Nat) : (l.close limit).sent = l.sent := rfl

end Link
end Discovery
end PeerDiscovery
