import PeerDiscovery.Mailbox.Basic

/-! The channel of a mailbox, cell by cell.
Whether a mailbox is open stands in five cells: its state, whether it runs, the loop to which replies go, the loop that can
be told to stop and the loop that is waited for. The calls set and clear them one after another. Each opening that goes well
begins a loop of its own, which has the connections. -/
namespace PeerDiscovery
namespace Mailbox

/-- What accepts connections, takes in what they tell and hands replies to them. -/
structure Loop where
  hub : Hub := {}
  /-- It has been told to stop. -/
  told : Bool := false
  ended : Bool := false
  deriving Repr

structure Channel where
  requested : Endpoint
  machine : Nat := 0
  bound : Option Endpoint := none
  state : State := .closed
  running : Bool := false
  listeners : List Listener := []
  /-- The loop to which replies go. -/
  loopback : Option Nat := none
  /-- The loop that can be told to stop. -/
  shutdown : Option Nat := none
  /-- The loop that is waited for when the channel closes. -/
  task : Option Nat := none
  /-- Every loop ever begun, by its number. -/
  loops : List Loop := []
  deriving Repr

namespace Channel

def addListener (c : Channel) : Channel × Nat :=
  ({ c with listeners := c.listeners ++ [{}] }, c.listeners.length)

def emit (c : Channel) (event : Event) : Channel :=
  { c with
    listeners := c.listeners.map fun l => if l.live then { l with queue := l.queue ++ [event] } else l }

def modifyLoop (c : Channel) (n : Nat) (f : Loop → Loop) : Channel := { c with loops := c.loops.modify n f }

/-- A new loop begins, and the cells are set for it. -/
def begin (c : Channel) (port : UInt16) : Channel × Endpoint :=
  let bound := c.requested.withPort port
  let n := c.loops.length
  let c := { c with running := true }
  let c := { c with bound := some bound }
  let c := { c with loopback := some n }
  let c := { c with shutdown := some n }
  let c := { c with loops := c.loops ++ [({} : Loop)] }
  ({ c with task := some n }, bound)

def giveUp (c : Channel) (e : Error) : Channel × Except Error Endpoint := ({ c with state := .closed }, .error e)

/-- Opens a closed channel, where `free` tells the sockets that can be bound. `unnamed` is why the socket that was bound does
not tell its port, if it does not. -/
def tryOpen (c : Channel) (free : Net.SocketAddr → Bool) (unnamed : Option String) : Channel × Except Error Endpoint :=
  if c.state = .closed then
    let c := { c with state := .open }
    match socket free c.requested, unnamed with
    | .error e, _ => c.giveUp e
    | .ok _, some reason =>
      match c.requested.socketAddr with
      | .error e => c.giveUp (.endpoint e)
      | .ok addr => c.giveUp (.bind addr reason)
    | .ok addr, none =>
      let (c, bound) := c.begin addr.port
      (c, .ok bound)
  else (c, .error .alreadyOpen)

/-- Sends an envelope. A reply goes to a loop that takes replies; the result says whether that found a connection. -/
def send (c : Channel) (envelope : Envelope) : Channel × Except Error Bool :=
  match envelope.sender with
  | none => (c.emit (.sent envelope), .ok true)
  | some identity =>
    if c.running then
      match c.loopback.bind fun n => c.loops[n]?.map fun l => (n, l) with
      | none => (c, .error .closed)
      | some (n, l) =>
        if l.ended then (c, .error .closed)
        else
          let (hub, routed) := l.hub.reply identity (payload envelope)
          (c.modifyLoop n fun l => { l with hub }, .ok routed)
    else (c, .error .closed)

/-- A loop ends that has been told to, or to which nobody can send any more. -/
def stop (c : Channel) (n : Nat) : Channel :=
  c.modifyLoop n fun l => if l.told ∨ c.loopback ≠ some n then { l with ended := true } else l

def tellShutdown (c : Channel) : Channel :=
  match c.shutdown with
  | none => c
  | some n => { c with shutdown := none }.modifyLoop n fun l => { l with told := true }

/-- What a closing does before it waits, and the loop that it waits for. -/
def shut (c : Channel) : Channel × Option Nat :=
  let c := { c with state := .closing }
  let c := { c with running := false }
  let c := c.tellShutdown
  let c := { c with loopback := none }
  ({ c with task := none }, c.task)

/-- What a closing does when it has waited. A loop that has not ended by itself is ended. -/
def finish (c : Channel) (task : Option Nat) : Channel :=
  match task with
  | none => { c with state := .closed }
  | some n => { c.modifyLoop n fun l => { l with ended := true } with state := .closed }

/-- Closes an open channel. `meanwhile` is what happens to it while the closing waits. -/
def close (c : Channel) (meanwhile : Channel → Channel) : Channel :=
  if c.state = .open then (meanwhile c.shut.1).finish c.shut.2 else c

end Channel
end Mailbox
end PeerDiscovery
