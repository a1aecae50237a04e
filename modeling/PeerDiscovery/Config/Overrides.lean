import PeerDiscovery.Config

/-! Environment variables that stand above a configuration. -/
namespace PeerDiscovery

/-- The values of the variables that are set. -/
abbrev Environment := String → Option String

namespace NetworkSettings

def mailboxVariable : String := "TRELLIS_NETWORK__MAILBOX"

def broadcastPortVariable : String := "TRELLIS_NETWORK__BROADCAST_PORT"

def broadcastIntervalVariable : String := "TRELLIS_NETWORK__BROADCAST_INTERVAL_SECS"

def activeBroadcastVariable : String := "TRELLIS_NETWORK__ACTIVE_BROADCAST"

/-- Settings in which variables count instead, as far as they are set. A numeric one that is no number
or out of range counts as not set. -/
def override (s : NetworkSettings) (env : Environment) : NetworkSettings :=
  let number (name : String) (max : Nat) : Option Nat :=
    (env name).bind fun text => Decimal.parse? max text.toList
  { s with
    mailbox := (env mailboxVariable).getD s.mailbox
    broadcastPort := ((number broadcastPortVariable (UInt16.size - 1)).map UInt16.ofNat).getD s.broadcastPort
    broadcastIntervalSecs :=
      ((number broadcastIntervalVariable (UInt64.size - 1)).map UInt64.ofNat).getD s.broadcastIntervalSecs
    activeBroadcast :=
      ((env activeBroadcastVariable).map fun text => decide (text = "true" ∨ text = "1")).getD s.activeBroadcast }

end NetworkSettings

namespace Config

def override (c : Config) (env : Environment) : Config := { c with network := c.network.override env }

end Config
end PeerDiscovery
