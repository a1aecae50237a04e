import PeerDiscovery.Discovery.Courier
import PeerDiscovery.Proofs.Net

/-! Errands: a link, its courier and all that can come in between, in any order.
A courier takes up whatever is ready first, which is one `Arm` of several; the order in which `Courier.work?` does things
is one of the orders possible (`exists_arm_of_work?`). A write may break off in the middle. A send looks whether the link
is open and puts its envelope later, when the courier may have ended. Between any two moves the network may become any
other one. -/
namespace PeerDiscovery
namespace Discovery

open Net (Network)

namespace Courier

structure Cut where
  /-- How many bytes of the message are written, if it has more. -/
  kept : Nat
  /-- The time limit for closing has passed, and the courier ends with the write. -/
  final : Bool := false

inductive Arm where
  | quit
  | connect
  /-- Connects, and the greeting breaks off. -/
  | connectCut (cut : Cut)
  | wake
  | read
  /-- Finds the stream ended or broken. -/
  | leave
  | deliver
  /-- Writes an envelope, and the write breaks off. -/
  | deliverCut (cut : Cut)

def stream? (c : Courier) : Option Nat :=
  match c.stage with
  | .connected stream _ => some stream
  | _ => none

/-- Puts a part of a message on a stream, never the whole of it. -/
def tear (n : Network) (stream : Nat) (bytes : Bytes) (kept : Nat) : Network :=
  n.modifyStream stream fun s => s.modify .client fun p => { p with waiting := p.waiting ++ bytes.dropLast.take kept }

def breakOff (n : Network) (c : Courier) (stream : Nat) (bytes : Bytes) (cut : Cut) : Network × Courier :=
  let n := tear n stream bytes cut.kept
  if cut.final then (n.finish stream .client, { c with stage := .done }) else leave n c stream

def connectCut (n : Network) (c : Courier) (cut : Cut) : Option (Network × Courier) :=
  match c.endpoint.socketAddr with
  | .error _ => none
  | .ok addr =>
    match n.connect c.machine addr, Framing.encode [c.self.bytes] with
    | some (n, stream), .ok greeting => some (c.breakOff n stream greeting cut)
    | _, _ => none

def deliverCut (n : Network) (c : Courier) (stream : Nat) (envelope : Envelope) (cut : Cut) :
    Option (Network × Courier) :=
  match Framing.encode [envelope.encode] with
  | .error _ => none
  | .ok bytes => some ({ c with taken := c.taken + 1 }.breakOff n stream bytes cut)

/-- The time limit passes only for a courier that has been told to end. -/
def Allows (c : Courier) (cut : Cut) : Prop := cut.final = true → c.closing = true

instance (c : Courier) (cut : Cut) : Decidable (c.Allows cut) := inferInstanceAs (Decidable (_ → _))

def quit? (n : Network) (c : Courier) : Option (Network × Courier) :=
  if c.closing then
    match c.stage with
    | .done => none
    | .connected stream _ => some (n.finish stream .client, { c with stage := .done })
    | _ => some (n, { c with stage := .done })
  else none

/-- What a courier does when it takes up one thing, if that can be. -/
def step? (n : Network) (c : Courier) (queue : List Envelope) (arm : Arm) : Option Work :=
  match arm, c.stage with
  | .quit, _ => (c.quit? n).map fun (n, c) => (n, c, [])
  | .connect, .connecting =>
    let (n, c) := c.connectWork n
    some (n, c, [])
  | .connectCut cut, .connecting =>
    if c.Allows cut then (c.connectCut n cut).map fun (n, c) => (n, c, []) else none
  | .wake, .waiting time => if time ≤ n.now then some (n, { c with stage := .connecting }, []) else none
  | .read, .connected stream reader => some (c.read n stream reader)
  | .leave, .connected stream _ =>
    let (n, c) := c.leave n stream
    some (n, c, [])
  | .deliver, .connected stream _ =>
    queue[c.taken]?.map fun envelope =>
      let (n, c) := c.deliver n stream envelope
      (n, c, [])
  | .deliverCut cut, .connected stream _ =>
    if c.Allows cut then
      queue[c.taken]?.bind fun envelope => (c.deliverCut n stream envelope cut).map fun (n, c) => (n, c, [])
    else none
  | _, _ => none

theorem exists_arm_of_work? {n : Network} {c : Courier} {queue : List Envelope} {w : Work}
    (h : c.work? n queue = some w) : ∃ arm, c.step? n queue arm = some w := by
  unfold work? at h
  split at h
  · cases h
  · next hs =>
    split at h
    · next hc => exact ⟨.quit, by simpa [step?, quit?, hc, hs] using h⟩
    · exact ⟨.connect, by simpa [step?, hs] using h⟩
  · next time hs =>
    split at h
    · next hc => exact ⟨.quit, by simpa [step?, quit?, hc, hs] using h⟩
    · split at h
      · next ht => exact ⟨.wake, by simpa [step?, hs, ht] using h⟩
      · cases h
  · next stream reader hs =>
    split at h
    · next hc => exact ⟨.quit, by simpa [step?, quit?, hc, hs] using h⟩
    · dsimp only [connectedWork?] at h
      split at h
      · exact ⟨.read, by simpa only [step?, hs] using h⟩
      · split at h
        · exact ⟨.leave, by simpa only [step?, hs] using h⟩
        · split at h
          · cases h
          · next envelope he =>
            exact ⟨.deliver, by simpa only [step?, hs, he, Option.map_some] using h⟩

theorem step?_of_done {c : Courier} (h : c.IsDone) (n : Network) (queue : List Envelope) (arm : Arm) :
    c.step? n queue arm = none := by
  unfold IsDone at h
  split at h
  · next hs => cases arm <;> simp [step?, quit?, hs]
  · exact h.elim

end Courier

structure Errand where
  network : Network
  link : Link
  courier : Courier
  /-- The sends that found the link open and have not put their envelope. -/
  entered : List Envelope := []
  /-- The sends that have returned, and what they returned. -/
  answered : List (Envelope × Bool) := []
  /-- What the courier has written on each connection that it made, the latest one at the end. -/
  wires : List Bytes := []

namespace Errand

inductive Move where
  /-- Anything happens to the network. -/
  | turn (network : Network)
  /-- A send looks whether the link is open. -/
  | enter (envelope : Envelope)
  /-- A send puts its envelope and returns. -/
  | put (send : Nat)
  | close (limit : Nat)
  | work (arm : Courier.Arm)

def new (self peer : PeerId) (endpoint : Endpoint) (network : Network) : Errand :=
  { network, link := .opened peer endpoint, courier := { self, peer, endpoint } }

def added (n n' : Network) (stream : Nat) : Bytes :=
  (n'.outgoing stream .client).waiting.drop (n.outgoing stream .client).waiting.length

/-- The wires after a courier has worked: a stream that is new has one of its own. -/
def extend (wires : List Bytes) (n n' : Network) (c : Courier) : List Bytes :=
  if n.streams.length < n'.streams.length then wires ++ [added n n' n.streams.length]
  else
    match c.stream? with
    | none => wires
    | some stream => wires.modify (wires.length - 1) (· ++ added n n' stream)

def answer (s : Errand) (envelope : Envelope) (accepted : Bool) : Errand :=
  { s with answered := s.answered ++ [(envelope, accepted)] }

/-- An envelope is accepted as long as somebody could take it. -/
def putEnvelope (s : Errand) (envelope : Envelope) : Errand :=
  if s.courier.IsDone then s.answer envelope false
  else { s with link.sent := s.link.sent ++ [envelope] }.answer envelope true

def takeWork (s : Errand) (w : Courier.Work) : Errand :=
  { s with
    network := w.1
    courier := w.2.1
    link := if w.2.1.IsDone then s.link.fail else s.link
    wires := extend s.wires s.network w.1 s.courier }

def go (s : Errand) : Move → Errand
  | .turn network => { s with network }
  | .enter envelope =>
    if s.link.accepting then { s with entered := s.entered ++ [envelope] } else s.answer envelope false
  | .put send =>
    match s.entered[send]? with
    | none => s
    | some envelope => { s with entered := s.entered.eraseIdx send }.putEnvelope envelope
  | .close limit => { s with link := s.link.close limit, courier := s.courier.close }
  | .work arm =>
    match s.courier.step? s.network s.link.sent arm with
    | none => s
    | some w => s.takeWork w

def after (s : Errand) (ms : List Move) : Errand := ms.foldl go s

theorem after_append (s : Errand) (ms ms' : List Move) : s.after (ms ++ ms') = (s.after ms).after ms' :=
  List.foldl_append

theorem after_concat (s : Errand) (ms : List Move) (m : Move) : s.after (ms ++ [m]) = (s.after ms).go m :=
  s.after_append ms [m]

/-- The envelopes whose sends returned true, in order. -/
def accepted (s : Errand) : List Envelope := (s.answered.filter Prod.snd).map Prod.fst

theorem send_eq {s : Errand} (hs : s.entered = []) (hd : s.courier.IsDone → s.link.accepting = false)
    (e : Envelope) : (s.go (.enter e)).go (.put 0) = { s with link := (s.link.send e).1 }.answer e (s.link.send e).2 := by
  by_cases ha : s.link.accepting = true
  · have hn : ¬s.courier.IsDone := fun h => by rw [hd h] at ha; cases ha
    simp [go, ha, hs, putEnvelope, hn, Link.send_of_accepting ha, answer]
  · have ha' : s.link.accepting = false := by simpa using ha
    simp [go, ha', hs, Link.send_of_not_accepting ha', answer]

end Errand
end Discovery
end PeerDiscovery
