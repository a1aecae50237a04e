import PeerDiscovery.Discovery.Engine

/-! Snapshots of the registry, for the log. -/
namespace PeerDiscovery
namespace Discovery

structure Snapshot where
  trackers : List (Tracker × Nat)
  pending : Nat
  inFlight : Nat
  services : Nat
  deriving Repr

namespace Snapshot

def nanosPerSecond : Nat := 1000000000

/-- The registry by peer, with the whole seconds since each peer was seen. Times are nanoseconds. -/
def of {κ : Type} (e : Engine κ) (now : Nat) : Snapshot where
  trackers := (e.trackers.mergeSort fun t u => ¬u.peer < t.peer).map fun t =>
    (t, (now - t.lastSeen) / nanosPerSecond)
  pending := e.pending.length
  inFlight := e.inFlight.length
  services := e.directory.size

/-- The log lines of a snapshot, each as its fields and their values. -/
def lines (s : Snapshot) : List (List (String × String)) :=
  [("message", "tracker table snapshot"), ("trackers", toString s.trackers.length),
    ("pending", toString s.pending), ("in_flight", toString s.inFlight), ("services", toString s.services)]
  :: s.trackers.map fun (t, secs) =>
    [("message", "  tracker"), ("peer", t.peer.text), ("endpoint", t.endpoint.text),
      ("last_seen_secs", toString secs)]

/-- Snapshots that have been taken when so many intervals have passed, where one is taken just after
each interval but the first. -/
def countDuring (intervals : Nat) : Nat := intervals - 1

end Snapshot
end Discovery
end PeerDiscovery
