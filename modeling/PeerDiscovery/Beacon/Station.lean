import PeerDiscovery.Beacon.Receiver
import PeerDiscovery.Beacon.Sender

/-! A station sends beacons and listens for them, each in a loop of its own.
Of several loops that listen the one begun last hears what comes to the beacon port. Once the station was
stopped every loop ends, also those that are begun later. -/
namespace PeerDiscovery
namespace Beacon

inductive Loop where
  | receiver (r : Receiver)
  | sender (s : Sender)
  deriving Repr

namespace Loop

def IsActive : Loop → Prop
  | receiver r => r.active = true
  | sender s => s.active = true

instance (l : Loop) : Decidable l.IsActive := by
  cases l <;> exact inferInstanceAs (Decidable (_ = _))

def IsListening : Loop → Prop
  | receiver r => r.active = true
  | sender _ => False

instance (l : Loop) : Decidable l.IsListening :=
  match l with
  | receiver r => inferInstanceAs (Decidable (r.active = true))
  | sender _ => isFalse id

/-- Something comes to the beacon port. -/
def arrive (arrival : Arrival) : Loop → Loop
  | receiver r => receiver (r.arrive arrival)
  | sender s => sender s

def wakeTime? : Loop → Option Nat
  | receiver _ => none
  | sender s => if s.active then some s.next else none

/-- Ends a loop where it stands. -/
def finish : Loop → Loop
  | receiver r => receiver r.finish
  | sender s => sender s.finish

def step? (stopped : Bool) (interval now : Nat) : Loop → Option (Loop × Option Bytes)
  | receiver r => (r.step? stopped).map fun r => (receiver r, none)
  | sender s => (s.step? stopped interval now).map fun (s, sent) => (sender s, sent)

end Loop

structure Station where
  /-- The time from one beacon to the next, in milliseconds. -/
  interval : Nat
  running : Bool := false
  /-- It was stopped once. -/
  stopped : Bool := false
  /-- Every loop ever begun, in order. -/
  loops : List Loop := []
  /-- How many loops have been waited for. -/
  joined : Nat := 0
  deriving Repr

namespace Station

/-- Begins a loop that listens. -/
def listen (s : Station) (capacity : Nat) : Station :=
  { s with running := true, loops := s.loops ++ [.receiver { capacity }] }

/-- Begins a loop that sends. -/
def broadcast (s : Station) (now : Nat) (peer : PeerId) (port : UInt16) : Station :=
  { s with running := true, loops := s.loops ++ [.sender (.begin s.interval now peer port)] }

def stop (s : Station) : Station := { s with running := false, stopped := true }

def abort (s : Station) (loop : Nat) : Station := { s with loops := s.loops.modify loop Loop.finish }

/-- The first of some loops that need not wait does a round. -/
def stepFirst? (stopped : Bool) (interval now : Nat) : List Loop → Option (List Loop × Option Bytes)
  | [] => none
  | l :: rest =>
    match l.step? stopped interval now with
    | some (l, sent) => some (l :: rest, sent)
    | none => (stepFirst? stopped interval now rest).map fun (rest, sent) => (l :: rest, sent)

/-- One round of a loop that need not wait. The second part is what it tries to send. -/
def step? (s : Station) (now : Nat) : Option (Station × Option Bytes) :=
  (stepFirst? s.stopped s.interval now s.loops).map fun (loops, sent) => ({ s with loops }, sent)

/-- The loop that hears what comes to the beacon port: the last one that listens. -/
def listener? (s : Station) : Option Nat :=
  (s.loops.zipIdx.filter fun (l, _) => l.IsListening).getLast?.map fun (_, i) => i

def arrive (s : Station) (arrival : Arrival) : Station :=
  match s.listener? with
  | none => s
  | some i => { s with loops := s.loops.modify i (Loop.arrive arrival) }

/-- When the next beacon is due, if one is to be sent. -/
def wakeTime? (s : Station) : Option Nat := (s.loops.filterMap Loop.wakeTime?).min?

end Station
end Beacon
end PeerDiscovery
