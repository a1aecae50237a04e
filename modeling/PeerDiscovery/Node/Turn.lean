import PeerDiscovery.Node

/-! How the parts of a node share its time: they take turns.
In its turn a part does all that it can, up to a limit, and a pump goes no further than a message for
which it has to wait. So a link that is replaced by a message of the same turn never connects. -/
namespace PeerDiscovery
namespace Node

open Net (Network)

/-- How many things a pump or a courier does in one turn. -/
def turnLimit : Nat := 128

/-- More things than a mailbox ever has to do in one turn. -/
def mailboxLimit : Nat := 100000

/-- Work of one part, as often as there is some and no pause after it, at most so many times. -/
def exhaust (work? : Network → Node → Option Work) (pauses : Node → Bool) : Nat → Work → Work
  | 0, w => w
  | fuel + 1, (network, n, calls) =>
    match work? network n with
    | none => (network, n, calls)
    | some (network, m, more) =>
      if pauses n then (network, m, calls ++ more)
      else exhaust work? pauses fuel (network, m, calls ++ more)

def never (_ : Node) : Bool := false

/-- The next event of the mailbox makes its pump wait. -/
def eventPauses (now : Nat) (n : Node) : Bool :=
  match n.pumps.bind fun (listener, _) => n.mailbox.takeEvent? listener with
  | some (_, .received envelope) => n.host.Suspends envelope now
  | _ => false

/-- The next envelope that the couriers handed on makes its pump wait. -/
def inboundPauses (now : Nat) (n : Node) : Bool :=
  match n.inbound with
  | [] => false
  | envelope :: _ => n.host.Suspends envelope now

def courierTurn (w : Work) (link : Nat) : Work :=
  let work? (network : Network) (n : Node) : Option Work := n.couriers[link]?.bind (n.courierWork? network link)
  exhaust work? never turnLimit w

/-- A turn of each part of a node: its mailbox, its pumps and then its couriers. -/
def turn (network : Network) (n : Node) (now : Nat) : Work :=
  let w := exhaust mailboxWork? never mailboxLimit (network, n, [])
  let w := exhaust (fun network n => n.eventWork? network now) (eventPauses now) turnLimit w
  let w := exhaust (fun network n => n.inboundWork? network now) (inboundPauses now) turnLimit w
  let w := exhaust discoveryWork? never turnLimit w
  (List.range w.2.1.couriers.length).foldl courierTurn w

end Node
end PeerDiscovery
