import PeerDiscovery.Discovery.Snapshot
import PeerDiscovery.Node.Turn
import PeerDiscovery.Scenario.World

/-! Several nodes on one network in memory, step by step. -/
namespace PeerDiscovery
namespace Scenario

open Discovery (FindOutcome StartError)
open Net (Network)

structure Member where
  name : String
  node : Node
  /-- Something else listens on its port for beacons. -/
  busy : Bool

structure Cluster extends World where
  members : List Member := []
  /-- Nodes whose names were given to others. -/
  retired : List Node := []
  /-- How many callers of `find` there have been. -/
  finds : Nat := 0
  /-- What callers were told, the latest in front. -/
  calls : Node.Calls := []
  /-- A clock in nanoseconds, which goes on by one with each step. -/
  clock : Nat := 0

namespace Cluster

def node? (c : Cluster) (name : String) : Option Node :=
  (c.members.find? fun m => m.name = name).map fun m => m.node

def setNode (c : Cluster) (name : String) (node : Node) : Cluster :=
  { c with members := c.members.map fun m => if m.name = name then { m with node } else m }

def setWorld (c : Cluster) (w : World) : Cluster := { c with toWorld := w }

def nodes (c : Cluster) : List Node := c.members.map (fun m => m.node) ++ c.retired

def IsBusy (c : Cluster) : Prop :=
  (∃ n ∈ c.nodes, (n.work? c.network c.clock).isSome) ∨ c.peerWork?.isSome

instance (c : Cluster) : Decidable c.IsBusy := inferInstanceAs (Decidable ((∃ n ∈ c.nodes, _) ∨ _))

def record (c : Cluster) (network : Network) (calls : Node.Calls) : Cluster :=
  { c with network, calls := calls.reverse ++ c.calls }

def memberTurn (c : Cluster) (name : String) : Cluster :=
  match c.node? name with
  | none => c
  | some node =>
    let (network, node, calls) := node.turn c.network c.clock
    (c.record network calls).setNode name node

def retiredTurn (c : Cluster) (i : Nat) : Cluster :=
  match c.retired[i]? with
  | none => c
  | some node =>
    let (network, node, calls) := node.turn c.network c.clock
    { c.record network calls with retired := c.retired.set i node }

/-- Lets every peer read what it can, at most so many times. -/
def peerTurns : Nat → Cluster → Cluster
  | 0, c => c
  | fuel + 1, c =>
    match c.peerWork? with
    | none => c
    | some w => peerTurns fuel (c.setWorld w)

def round (c : Cluster) : Cluster :=
  let c := (c.members.map fun m => m.name).foldl memberTurn c
  let c := (List.range c.retired.length).foldl retiredTurn c
  peerTurns c.peers.length c

/-- Goes on until nothing is ready, at most so many rounds. -/
def settleWithin : Nat → Cluster → Cluster
  | 0, c => c
  | fuel + 1, c => if c.IsBusy then settleWithin fuel c.round else c

/-- More rounds than a step needs that comes to rest. Two couriers of a node to one mailbox never do. -/
def settleLimit : Nat := 100

def settle (c : Cluster) : Cluster := settleWithin settleLimit c

def tick (c : Cluster) : Cluster := { c with clock := c.clock + 1 }

def add (c : Cluster) (name : String) (node : Node) (busy : Bool) : Cluster :=
  { c with
    members := c.members.filter (fun m => m.name ≠ name) ++ [⟨name, node, busy⟩]
    retired := c.retired ++ (c.node? name).toList.map Node.release }

def start (c : Cluster) (name : String) (node : Node) : Cluster × Except Node.Error Endpoint :=
  let busy := c.members.any fun m => m.name = name ∧ m.busy
  let beacons := if busy then .error (.listen "address in use") else .ok ()
  let (network, node, result) := node.start c.network none beacons
  ({ c with network }.setNode name node, result)

def shutdown (c : Cluster) (name : String) (node : Node) (limit : Nat) : Cluster :=
  let (network, node) := node.shutdown c.network limit
  { c with network }.setNode name node

def host (c : Cluster) (name : String) (node : Node) (facts : FactSet) : Cluster × Nat :=
  let (node, count) := node.announceLocal facts
  (c.setNode name node, count)

def beacon (c : Cluster) (name : String) (node : Node) (beacon : Beacon) : Cluster :=
  c.setNode name (node.setEngine (node.engine.onBeacon beacon c.clock))

def beaconOf? (node : Node) : Option Beacon :=
  node.engine.endpoint.map fun endpoint => ⟨node.engine.self, endpoint⟩

def find (c : Cluster) (name : String) (node : Node) (facts : FactSet) : Cluster × FindOutcome :=
  let (node, outcome, calls) := node.find facts (.caller c.finds)
  ({ c with finds := c.finds + 1, calls := calls.reverse ++ c.calls }.setNode name node, outcome)

def request (c : Cluster) (name : String) (node : Node) (envelope : Envelope) :
    Cluster × Except Mailbox.Error Bool :=
  let (mailbox, result) := node.mailbox.send envelope
  (c.setNode name (node.setMailbox mailbox), result)

def note (c : Cluster) (name : String) (node : Node) (endpoint : Endpoint) (facts : FactSet) : Cluster :=
  c.setNode name (node.note endpoint facts)

def fillEndpoint (i : Nat) : Endpoint :=
  .tcp ("10.0." ++ toString (i / 256) ++ "." ++ toString (i % 256)) 1

def fill (c : Cluster) (name : String) (node : Node) (n : Nat) (facts : FactSet) : Cluster :=
  c.setNode name ((List.range n).foldl (fun node i => node.note (fillEndpoint i) facts) node)

def subscribe (c : Cluster) (name : String) (node : Node) : Cluster :=
  c.setNode name node.subscribe.1

/-- What the latest subscriber has been told, all of which it takes. -/
def takeResponses (c : Cluster) (name : String) (node : Node) : Cluster × Option Node.Subscription :=
  let latest := node.subscriptions.length - 1
  (c.setNode name { node with subscriptions := node.subscriptions.modify latest fun s => (s.take s.queue.length).1 },
    node.subscriptions[latest]?)

def addressOf? (node : Node) : Option Net.SocketAddr :=
  node.mailbox.bound.bind fun e => e.socketAddr.toOption

/-- What callers were told between two states, in the order in which they were. -/
def callsSince (c d : Cluster) : Node.Calls := (d.calls.take (d.calls.length - c.calls.length)).reverse

end Cluster
end Scenario
end PeerDiscovery
