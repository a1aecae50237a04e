import PeerDiscovery.Node

/-! Fleets: nodes on one network, and all that can happen to them, in any order.
An action is a call from outside, one thing that a node does by itself, a beacon of one node that
reaches another, or something that befalls the network. An action that cannot happen changes nothing,
and a start that fails does not happen. -/
namespace PeerDiscovery

open Discovery (Engine)
open Net (Network Faults Side Site Terrain)

namespace Fleet

structure Query where
  node : Nat
  /-- How many ids the node had given out before it. -/
  serial : Nat
  facts : FactSet
  asker : Node.Asker
  deriving DecidableEq

/-- The id under which a query goes out. -/
def Query.id (q : Query) : CorrelationId := UInt64.ofNat (q.serial + 1)

inductive Action where
  | start (node : Nat) (found : Option Net.IpAddr)
  /-- The node takes on a service. -/
  | host (node : Nat) (facts : FactSet)
  | find (node : Nat) (facts : FactSet) (caller : Nat)
  /-- Something is asked of the node through its own mailbox. -/
  | request (node : Nat) (envelope : Envelope)
  | shutdown (node : Nat) (limit : Nat)
  /-- The node is let go of. -/
  | release (node : Nat)
  /-- The beacon of one node reaches another. -/
  | beacon (node source : Nat) (now : Nat)
  | accept (node : Nat)
  | read (node connection : Nat)
  | notice (node : Nat)
  | write (node connection : Nat)
  | event (node : Nat) (now : Nat)
  | inbound (node : Nat) (now : Nat)
  | discovery (node : Nat)
  | courier (node link : Nat)
  /-- Time passes. -/
  | pass (time : Nat)
  | fault (faults : Faults)
  /-- Machines get addresses or lose them, and ways of the network open or close. -/
  | reroute (terrain : Terrain)
  /-- A side of a stream breaks off, and only so many of the bytes that wait arrive. -/
  | sever (stream : Nat) (side : Side) (kept : Nat)

end Fleet

structure Fleet where
  network : Network
  nodes : List Node
  /-- The queries that went out, the latest one at the end. -/
  queries : List Fleet.Query := []

namespace Fleet

/-- What a node is made from. -/
structure Spec where
  machine : Nat
  self : PeerId
  mailbox : Endpoint
  closeLimit : Nat
  hosted : List FactSet

def Spec.node (s : Spec) : Node := (Node.new s.self s.mailbox s.closeLimit s.hosted).place s.machine

/-- Nodes that have not been started, on a network where others may listen already. -/
def new (terrain : Terrain) (taken : List Site) (specs : List Spec) : Fleet where
  network := { up := true, terrain, listeners := taken.map fun site => { site } }
  nodes := specs.map Spec.node

def setNode (f : Fleet) (i : Nat) (n : Node) : Fleet := { f with nodes := f.nodes.set i n }

def setWork (f : Fleet) (i : Nat) (network : Network) (n : Node) : Fleet := { f.setNode i n with network }

/-- Does something with a node, if there is one with that number. -/
def withNode (f : Fleet) (i : Nat) (act : Node → Fleet) : Fleet :=
  match f.nodes[i]? with
  | none => f
  | some n => act n

def takeWork (f : Fleet) (i : Nat) : Option (Network × Node) → Fleet
  | none => f
  | some (network, n) => f.setWork i network n

/-- The call of a query at a node as it stands. -/
def call (i : Nat) (n : Node) (facts : FactSet) (asker : Node.Asker) : Query := ⟨i, n.engine.issued, facts, asker⟩

/-- The query is neither refused nor answered at once. -/
def GoesOut (n : Node) (facts : FactSet) : Prop :=
  n.engine.stopped = false ∧ n.engine.directory.query facts = []

instance (n : Node) (facts : FactSet) : Decidable (GoesOut n facts) := inferInstanceAs (Decidable (_ ∧ _))

/-- Notes the call of a query, if it goes out. -/
def ask (f : Fleet) (i : Nat) (n : Node) (facts : FactSet) (asker : Node.Asker) : Fleet :=
  if GoesOut n facts then { f with queries := f.queries ++ [call i n facts asker] } else f

/-- The next event that the pump of a node handles, and the node without it. -/
def nextEvent? (n : Node) : Option (Node × Mailbox.Event) := do
  let (listener, _) ← n.pumps
  let (mailbox, event) ← n.mailbox.takeEvent? listener
  return (n.setMailbox mailbox, event)

/-- Notes the call of a query that an event brings about. -/
def askEvent (f : Fleet) (i : Nat) (n : Node) : Fleet :=
  match nextEvent? n with
  | some (m, .sent envelope) =>
    match envelope.message with
    | .query facts => f.ask i m facts (.request envelope.id envelope.token)
    | _ => f
  | _ => f

def mailboxWork (f : Fleet) (i : Nat) (n : Node) (work : Option (Network × Mailbox)) : Fleet :=
  f.takeWork i (work.map fun (network, mailbox) => (network, n.setMailbox mailbox))

def nodeWork (f : Fleet) (i : Nat) (work : Option Node.Work) : Fleet :=
  f.takeWork i (work.map fun (network, n, _) => (network, n))

def step (f : Fleet) : Action → Fleet
  | .start i found => f.withNode i fun n =>
    match n.start f.network found (.ok ()) with
    | (network, n, .ok _) => f.setWork i network n
    | _ => f
  | .host i facts => f.withNode i fun n => f.setNode i (n.announceLocal facts).1
  | .find i facts caller => f.withNode i fun n =>
    (f.ask i n facts (.caller caller)).setNode i (n.find facts (.caller caller)).1
  | .request i envelope => f.withNode i fun n =>
    f.setNode i (n.setMailbox (n.mailbox.send { envelope with sender := none }).1)
  | .shutdown i limit => f.withNode i fun n =>
    let (network, n) := n.shutdown f.network limit
    f.setWork i network n
  | .release i => f.withNode i fun n => f.setNode i n.release
  | .beacon i source now => f.withNode i fun n => f.withNode source fun m =>
    match m.engine.endpoint with
    | none => f
    | some endpoint => f.setNode i (n.setEngine (n.engine.onBeacon ⟨m.engine.self, endpoint⟩ now))
  | .accept i => f.withNode i fun n => f.mailboxWork i n (n.mailbox.acceptWork? f.network)
  | .read i number => f.withNode i fun n =>
    f.mailboxWork i n (n.mailbox.hub.connections[number]?.bind (n.mailbox.readWork? f.network number))
  | .notice i => f.withNode i fun n =>
    f.mailboxWork i n (n.mailbox.takeNotice?.map fun mailbox => (f.network, mailbox))
  | .write i number => f.withNode i fun n =>
    f.mailboxWork i n (n.mailbox.hub.connections[number]?.bind (n.mailbox.writeWork? f.network number))
  | .event i now => f.withNode i fun n => (f.askEvent i n).nodeWork i (n.eventWork? f.network now)
  | .inbound i now => f.withNode i fun n => f.nodeWork i (n.inboundWork? f.network now)
  | .discovery i => f.withNode i fun n => f.nodeWork i (n.discoveryWork? f.network)
  | .courier i link => f.withNode i fun n =>
    f.nodeWork i (n.couriers[link]?.bind (n.courierWork? f.network link))
  | .pass time => { f with network := { f.network with now := f.network.now + time } }
  | .fault faults => { f with network := { f.network with faults } }
  | .reroute terrain => { f with network := { f.network with terrain } }
  | .sever stream side kept =>
    { f with
      network := f.network.modifyStream stream fun s =>
        s.modify side fun p => { waiting := p.waiting.take kept, ended := true } }

def run (f : Fleet) (actions : List Action) : Fleet := actions.foldl step f

/-- The envelope that an action takes in from a peer, with the number of the node. -/
def arrival? (f : Fleet) : Action → Option (Nat × Node × Envelope × Nat)
  | .event i now => do
    let n ← f.nodes[i]?
    match ← nextEvent? n with
    | (m, .received envelope) => some (i, m, envelope, now)
    | _ => none
  | .inbound i now => do
    let n ← f.nodes[i]?
    let _ ← n.pumps
    match n.inbound with
    | [] => none
    | envelope :: rest => some (i, { n with inbound := rest }, envelope, now)
  | _ => none

/-- The call of a query that an action makes, with the node at which it does. -/
def call? (f : Fleet) : Action → Option (Query × Node)
  | .find i facts caller => f.nodes[i]?.map fun n => (call i n facts (.caller caller), n)
  | .event i _ => do
    let n ← f.nodes[i]?
    match ← nextEvent? n with
    | (m, .sent envelope) =>
      match envelope.message with
      | .query facts => some (call i m facts (.request envelope.id envelope.token), m)
      | _ => none
    | _ => none
  | _ => none

/-- The callbacks that an action runs: the node, who asked, and the endpoint that it is told of. -/
def callbacks (f : Fleet) (a : Action) : List (Nat × Node.Asker × Endpoint) :=
  (match f.call? a with
    | none => []
    | some (q, n) => (n.engine.find q.facts q.asker).2.2.map fun endpoint => (q.node, q.asker, endpoint))
  ++ match f.arrival? a with
    | none => []
    | some (i, n, envelope, now) => (n.host.dispatch envelope now).2.map fun (asker, endpoint) => (i, asker, endpoint)

def workCalls (work : Option Node.Work) : Node.Calls := (work.map fun w => w.2.2).getD []

/-- What an action tells the callers of `find`, as the work of the node has it. -/
def told (f : Fleet) : Action → Node.Calls
  | .find i facts caller => (f.nodes[i]?.map fun n => (n.find facts (.caller caller)).2.2).getD []
  | .event i now => workCalls (f.nodes[i]?.bind fun n => n.eventWork? f.network now)
  | .inbound i now => workCalls (f.nodes[i]?.bind fun n => n.inboundWork? f.network now)
  | .discovery i => workCalls (f.nodes[i]?.bind fun n => n.discoveryWork? f.network)
  | .courier i link =>
    workCalls (f.nodes[i]?.bind fun n => n.couriers[link]?.bind (n.courierWork? f.network link))
  | _ => []

/-- The queries whose callbacks an action may run: the one that it makes, or those that went out under
the id of the envelope which it takes in. -/
def answered (f : Fleet) (a : Action) : List Query :=
  (f.call? a).toList.map Prod.fst
  ++ match f.arrival? a with
    | none => []
    | some (i, _, envelope, _) => f.queries.filter fun q => q.node = i ∧ q.id = envelope.id

end Fleet
end PeerDiscovery
