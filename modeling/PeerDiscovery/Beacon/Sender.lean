import PeerDiscovery.Beacon

/-! The loop that sends a beacon at once and then after every interval.
When the next beacon is due depends on the first one only, not on what became of those before it. -/
namespace PeerDiscovery
namespace Beacon

structure Sender where
  datagram : Bytes
  /-- The time in milliseconds at which the next beacon is due. -/
  next : Nat
  active : Bool := true
  deriving DecidableEq, Repr

namespace Sender

/-- A loop for a beacon. There is no loop for an interval of zero. -/
def begin (interval now : Nat) (peer : PeerId) (port : UInt16) : Sender where
  datagram := encode peer port
  next := now
  active := interval ≠ 0

def finish (s : Sender) : Sender := { s with active := false }

/-- One round of the loop, if it need not wait. The second part is what it tries to send. -/
def step? (stopped : Bool) (interval now : Nat) (s : Sender) : Option (Sender × Option Bytes) :=
  if ¬s.active then none
  else if stopped then some (s.finish, none)
  else if s.next ≤ now then some ({ s with next := s.next + interval }, some s.datagram)
  else none

end Sender
end Beacon
end PeerDiscovery
