import PeerDiscovery.Config

/-! Options of discovery: how beacons are sent, and how long links may take to close. -/
namespace PeerDiscovery
namespace Discovery

structure Options where
  broadcastPort : UInt16 := Beacon.defaultPort
  intervalSecs : UInt64 := Beacon.defaultIntervalSecs
  /-- Beacons are sent, not only listened for. -/
  active : Bool := true
  /-- Where beacons are sent to. -/
  destination : Net.IpAddr := .v4 ⟨255, 255, 255, 255⟩
  /-- The time limit for closing a link that is replaced. -/
  closeSecs : UInt64 := 5
  deriving DecidableEq, Repr

namespace Options

def ofSettings (s : NetworkSettings) : Options where
  broadcastPort := s.broadcastPort
  intervalSecs := s.intervalSecs
  active := s.activeBroadcast
  closeSecs := s.shutdownTimeoutSecs

/-- The time limit for closing a link, in milliseconds. -/
def closeLimit (o : Options) : Nat := o.closeSecs.toNat * 1000

end Options
end Discovery
end PeerDiscovery
