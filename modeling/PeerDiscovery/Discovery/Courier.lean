import PeerDiscovery.Discovery.Link
import PeerDiscovery.Framing.Reader
import PeerDiscovery.Net.Network

/-! Couriers: what carries the envelopes of a link to the mailbox of its peer.
A courier connects, greets with the identity of its own node and writes the envelopes that the link
has taken, one after another, each once. When a connection cannot be made it tries again a second
later; when one is lost it connects again at once. Envelopes that the peer sends back are handed on as
coming from the peer. -/
namespace PeerDiscovery
namespace Discovery

open Net (Network Side)

/-- What a courier is doing. -/
inductive Stage where
  | connecting
  /-- Waits for a time at which to connect. -/
  | waiting (time : Nat)
  | connected (stream : Nat) (reader : Framing.Reader)
  | done
  deriving Repr

structure Courier where
  /-- The machine that it is on. -/
  machine : Nat := 0
  self : PeerId
  peer : PeerId
  endpoint : Endpoint
  /-- How many envelopes of its link it has taken. -/
  taken : Nat := 0
  /-- It has been told to end. -/
  closing : Bool := false
  stage : Stage := .connecting
  deriving Repr

namespace Courier

/-- The milliseconds between two attempts to connect. -/
def retryDelay : Nat := 1000

/-- The envelope that a message from the peer holds, as coming from the peer. -/
def reply? (c : Courier) (frames : List Bytes) : Option Envelope :=
  (Envelope.ofFrames? frames).map ({ · with sender := some c.peer.bytes })

/-- What a courier has done: the network and the courier after it, and the envelopes handed on. -/
abbrev Work := Network × Courier × List Envelope

/-- Gives up a stream, to connect again. -/
def leave (n : Network) (c : Courier) (stream : Nat) : Network × Courier :=
  (n.finish stream .client, { c with stage := .connecting })

def connectWork (n : Network) (c : Courier) : Network × Courier :=
  match c.endpoint.socketAddr with
  | .error _ => (n, { c with stage := .done })
  | .ok addr =>
    match n.connect c.machine addr with
    | none => (n, { c with stage := .waiting (n.now + retryDelay) })
    | some (n, stream) =>
      match Framing.encode [c.self.bytes] with
      | .error _ => leave n c stream
      | .ok greeting =>
        match n.write stream .client greeting with
        | (n, true) => (n, { c with stage := .connected stream {} })
        | (n, false) => leave n c stream

/-- Writes an envelope. One that cannot be written is lost, and its stream is given up. -/
def deliver (n : Network) (c : Courier) (stream : Nat) (envelope : Envelope) : Network × Courier :=
  let c := { c with taken := c.taken + 1 }
  match Framing.encode [envelope.encode] with
  | .error _ => leave n c stream
  | .ok bytes =>
    match n.write stream .client bytes with
    | (n, true) => (n, c)
    | (n, false) => leave n c stream

/-- Reads what waits. Of a stream that is at fault the messages before the fault count. -/
def read (n : Network) (c : Courier) (stream : Nat) (reader : Framing.Reader) : Work :=
  let (n, bytes) := n.read stream .client
  let (messages, reader) := (reader.feed bytes).take
  let replies := messages.filterMap c.reply?
  match reader.failure? with
  | none => (n, { c with stage := .connected stream reader }, replies)
  | some _ =>
    let (n, c) := leave n c stream
    (n, c, replies)

def connectedWork? (n : Network) (c : Courier) (queue : List Envelope) (stream : Nat)
    (reader : Framing.Reader) : Option Work :=
  let pipe := n.incoming stream .client
  if pipe.waiting ≠ [] then some (c.read n stream reader)
  else if pipe.ended then
    let (n, c) := leave n c stream
    some (n, c, [])
  else
    match queue[c.taken]? with
    | none => none
    | some envelope =>
      let (n, c) := c.deliver n stream envelope
      some (n, c, [])

/-- One thing that a courier does by itself, if there is one, where `queue` holds the envelopes that
its link has taken. -/
def work? (n : Network) (c : Courier) (queue : List Envelope) : Option Work :=
  match c.stage with
  | .done => none
  | .connecting =>
    if c.closing then some (n, { c with stage := .done }, [])
    else
      let (n, c) := c.connectWork n
      some (n, c, [])
  | .waiting time =>
    if c.closing then some (n, { c with stage := .done }, [])
    else if time ≤ n.now then some (n, { c with stage := .connecting }, [])
    else none
  | .connected stream reader =>
    if c.closing then some (n.finish stream .client, { c with stage := .done }, [])
    else c.connectedWork? n queue stream reader

/-- Tells a courier to end. -/
def close (c : Courier) : Courier := { c with closing := true }

def wakeTime? (c : Courier) : Option Nat :=
  match c.stage with
  | .waiting time => some time
  | _ => none

/-- The courier has ended. -/
def IsDone (c : Courier) : Prop := match c.stage with
  | .done => True
  | _ => False

instance (c : Courier) : Decidable c.IsDone := by
  unfold IsDone
  cases c.stage
  · exact isFalse id
  · exact isFalse id
  · exact isFalse id
  · exact isTrue trivial

end Courier
end Discovery
end PeerDiscovery
