import PeerDiscovery.Beacon.Station
import PeerDiscovery.Net.Network

/-! A station whose beacons go to its own host, step by step.
They reach an observer who holds the beacon port, or else the station itself. -/
namespace PeerDiscovery
namespace Scenario

open Beacon (Station Receiver)

structure Airing where
  network : Net.Network
  station : Station
  /-- What has come to an observer, if one holds the port. -/
  observer : Option (List Bytes) := none
  /-- The loops whose queues someone holds, the one that is read in front. -/
  readings : List Nat := []
  /-- What the station tried to send, each with its time. -/
  attempts : List (Nat × Bytes) := []

namespace Airing

def home : Net.IpAddr := .v4 ⟨127, 0, 0, 1⟩

def datagram (a : Airing) (bytes : Bytes) (source : Net.IpAddr) : Airing :=
  if ¬a.network.up then a
  else
    match a.observer with
    | some seen => { a with observer := some (seen ++ [bytes]) }
    | none => { a with station := a.station.arrive (.datagram bytes source) }

/-- The station sends a beacon, which a fault of sending cuts short. -/
def emit (a : Airing) (bytes : Bytes) : Airing :=
  let a := { a with attempts := a.attempts ++ [(a.network.now, bytes)] }
  match a.network.sendFault? with
  | some network => { a with network }
  | none => a.datagram bytes home

def fault (a : Airing) (f : Net.Faults → Net.Faults) : Airing := { a with network := a.network.fault f }

def stationWork? (a : Airing) : Option Airing :=
  (a.station.step? a.network.now).map fun (station, sent) =>
    match sent with
    | none => { a with station }
    | some bytes => { a with station }.emit bytes

def faultWork? (a : Airing) : Option Airing :=
  if a.station.listener?.isSome then
    a.network.receiveFault?.map fun network => { a with network, station := a.station.arrive .failure }
  else none

def work? (a : Airing) : Option Airing := a.stationWork? <|> a.faultWork?

def settleWithin : Nat → Airing → Airing
  | 0, a => a
  | fuel + 1, a =>
    match a.work? with
    | none => a
    | some a' => settleWithin fuel a'

def settleLimit : Nat := 1000000

def settle (a : Airing) : Airing := settleWithin settleLimit a

def setNow (a : Airing) (time : Nat) : Airing := { a with network := { a.network with now := time } }

/-- Lets time pass until `stop`, or until something is done, at most so many times until a beacon is due.
Beacons that are due at `stop` are left for later. -/
def passUntil (done : Airing → Bool) (stop : Nat) : Nat → Airing → Airing
  | 0, a => a
  | fuel + 1, a =>
    if done a then a
    else
      match a.station.wakeTime?.filter (· < stop) with
      | some time => passUntil done stop fuel (a.setNow time).settle
      | none => a.setNow stop

/-- Lets time pass, until something is done or the time is over. -/
def await (a : Airing) (done : Airing → Bool) (millis : Nat) : Airing :=
  passUntil done (a.network.now + millis) (millis + 1) a

/-- Begins to listen, unless an observer holds the beacon port. -/
def listen (a : Airing) (capacity : Nat) : Airing × Bool :=
  if a.observer.isSome then (a, false)
  else ({ a with station := a.station.listen capacity, readings := a.station.loops.length :: a.readings }, true)

def broadcast (a : Airing) (peer : PeerId) (port : UInt16) : Airing :=
  { a with station := a.station.broadcast a.network.now peer port }

def stop (a : Airing) : Airing := { a with station := a.station.stop }

/-- What was read from a queue, and whether the queue was closed. -/
structure Reading where
  beacons : List Beacon
  closed : Bool

def receiver? (a : Airing) : Option (Nat × Receiver) := do
  let i ← a.readings.head?
  match ← a.station.loops[i]? with
  | .receiver r => some (i, r)
  | .sender _ => none

def setReceiver (a : Airing) (i : Nat) (r : Receiver) : Airing :=
  { a with station := { a.station with loops := a.station.loops.set i (.receiver r) } }

def takeBeacons (a : Airing) : Airing × Option Reading :=
  match a.receiver? with
  | none => (a, none)
  | some (i, r) =>
    let (r, beacons) := r.takeQueue
    (a.setReceiver i r, some ⟨beacons, decide r.Closed⟩)

/-- Lets go of the queue that is read. The one held before it is read then. -/
def forget (a : Airing) : Airing :=
  match a.receiver? with
  | none => a
  | some (i, r) => { a.setReceiver i r.forget with readings := a.readings.drop 1 }

def hasEnded (loop : Nat) (a : Airing) : Bool := a.station.loops[loop]?.all fun l => ¬l.IsActive

/-- Waits for a loop for some time and ends it if it has not ended by then. -/
def joinLoop (a : Airing) (millis : Nat) (loop : Nat) : Airing :=
  let a := a.await (hasEnded loop) millis
  if hasEnded loop a then a else { a with station := a.station.abort loop }

/-- Waits for the loops that nobody has waited for, one after another. -/
def join (a : Airing) (millis : Nat) : Airing :=
  let count := a.station.loops.length
  let a := (List.range' a.station.joined (count - a.station.joined)).foldl (fun a i => a.joinLoop millis i) a
  { a with station := { a.station with joined := count } }

/-- For how many milliseconds an observer waits for a datagram. -/
def patience : Nat := 1000

def hasSeen (a : Airing) : Bool := a.observer.any fun seen => ¬seen.isEmpty

/-- The next datagram that comes to the observer within some time, unless receiving fails. Where there is
no observer nobody waits. -/
def nextSeen? (a : Airing) (millis : Nat) : Airing × Option Bytes :=
  if a.observer.isNone then (a, none)
  else
    match a.network.receiveFault? with
    | some network => ({ a with network }, none)
    | none =>
      let a := a.await hasSeen millis
      match a.observer with
      | some (bytes :: rest) => ({ a with observer := some rest }, some bytes)
      | _ => (a, none)

/-- The next datagrams, up to a number, as long as each one comes in time. -/
def receive (a : Airing) : Nat → Airing × List Bytes
  | 0 => (a, [])
  | n + 1 =>
    match a.nextSeen? patience with
    | (a, none) => (a, [])
    | (a, some bytes) =>
      let (a, rest) := a.receive n
      (a, bytes :: rest)

/-- What has come to the observer is passed over, and so are failures to receive. -/
def discard (a : Airing) : Airing :=
  { a.fault fun f => { f with receive := 0 } with observer := a.observer.map fun _ => [] }

/-- Nothing comes to the observer for some time, after all that has come before. -/
def silence (a : Airing) (millis : Nat) : Airing × Bool :=
  let (a, bytes) := a.discard.nextSeen? millis
  (a, bytes.isNone)

def pass (a : Airing) (millis : Nat) : Airing := a.await (fun _ => false) millis

end Airing
end Scenario
end PeerDiscovery
