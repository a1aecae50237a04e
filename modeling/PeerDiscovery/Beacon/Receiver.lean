import PeerDiscovery.Beacon

/-! The loop that receives beacons and puts them into a queue of limited size.
While the queue is full the loop waits with one beacon in hand and takes nothing else from its socket. -/
namespace PeerDiscovery
namespace Beacon

/-- What an attempt to receive gives. -/
inductive Arrival where
  | datagram (bytes : Bytes) (source : Net.IpAddr)
  /-- Nothing could be received. -/
  | failure
  deriving DecidableEq, Repr

namespace Arrival

/-- The beacon in an arrival. Anything else is passed over. -/
def beacon? : Arrival → Option Beacon
  | datagram bytes source => (ofDatagram bytes source).toOption
  | failure => none

end Arrival

structure Receiver where
  /-- The most beacons that the queue holds. -/
  capacity : Nat
  /-- What has come to the socket and was not received. -/
  arrivals : List Arrival := []
  /-- The beacon that waits for room in the queue. -/
  held : Option Beacon := none
  queue : List Beacon := []
  /-- Someone takes beacons from the queue. -/
  consumed : Bool := true
  active : Bool := true
  deriving Repr

namespace Receiver

/-- Ends the loop. Nothing but the queue is kept. -/
def finish (r : Receiver) : Receiver := { r with active := false, arrivals := [], held := none }

/-- One round of the loop, if it need not wait. `stopped` is looked at before each attempt to receive. -/
def step? (stopped : Bool) (r : Receiver) : Option Receiver :=
  if ¬r.active then none
  else
    match r.held with
    | some beacon =>
      if ¬r.consumed then some r.finish
      else if r.queue.length < r.capacity then some { r with held := none, queue := r.queue ++ [beacon] }
      else none
    | none =>
      if stopped then some r.finish
      else
        match r.arrivals with
        | [] => none
        | arrival :: rest => some { r with arrivals := rest, held := arrival.beacon? }

/-- Something comes to the socket, which is there as long as the loop is. -/
def arrive (r : Receiver) (arrival : Arrival) : Receiver :=
  if r.active then { r with arrivals := r.arrivals ++ [arrival] } else r

def takeQueue (r : Receiver) : Receiver × List Beacon := ({ r with queue := [] }, r.queue)

def forget (r : Receiver) : Receiver := { r with queue := [], consumed := false }

/-- No more beacons will be put into the queue. -/
def Closed (r : Receiver) : Prop := r.active = false

instance (r : Receiver) : Decidable r.Closed := inferInstanceAs (Decidable (_ = _))

end Receiver
end Beacon
end PeerDiscovery
