import PeerDiscovery.Beacon
import PeerDiscovery.FactSet

/-! The configuration of a node: how it meets others, and the services that it has.
What a configuration does not say is as in the default one. -/
namespace PeerDiscovery

structure NetworkSettings where
  /-- The endpoint of the mailbox, as a text. -/
  mailbox : String := "tcp://*:0"
  /-- The port that beacons are sent to and received on. -/
  broadcastPort : UInt16 := Beacon.defaultPort
  broadcastIntervalSecs : UInt64 := Beacon.defaultIntervalSecs
  /-- Beacons are sent, not only listened for. -/
  activeBroadcast : Bool := true
  /-- The time limit for each part of a shutdown. -/
  shutdownTimeoutSecs : UInt64 := 5
  deriving DecidableEq, Repr

structure Config where
  network : NetworkSettings := {}
  /-- The facts of each service of this node. -/
  services : List FactSet := []
  deriving DecidableEq, Repr

namespace NetworkSettings

def mailboxEndpoint (s : NetworkSettings) : Except EndpointError Endpoint := Endpoint.parse s.mailbox

/-- The seconds from one beacon to the next: at least one. -/
def intervalSecs (s : NetworkSettings) : UInt64 :=
  if s.broadcastIntervalSecs = 0 then 1 else s.broadcastIntervalSecs

end NetworkSettings
end PeerDiscovery
