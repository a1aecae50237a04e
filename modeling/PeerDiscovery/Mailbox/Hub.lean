import PeerDiscovery.Envelope
import PeerDiscovery.Framing.Reader

/-! The connections of a mailbox, and which of them speaks for which identity.
A connection starts with a greeting, a message of one frame that names its identity. Of two
connections with one identity the later one is written to. What a connection's messages say of their
sender does not count: the sender is the identity of the connection. -/
namespace PeerDiscovery
namespace Mailbox

/-- The writing half of a connection. -/
inductive Writer where
  /-- Before the greeting. -/
  | unused
  | open
  /-- Ends as soon as nothing is left to be written. -/
  | released
  | ended
  deriving DecidableEq, Repr

structure Connection where
  /-- The number of its stream. -/
  stream : Nat
  reader : Framing.Reader := {}
  /-- Still read from. -/
  reading : Bool := true
  identity : Option Bytes := none
  writer : Writer := .unused
  /-- What is to be written, the oldest payload in front. -/
  outbox : List Bytes := []
  deriving Repr

/-- What a connection tells the hub. -/
inductive Notice where
  | connected (connection : Nat) (identity : Bytes)
  | message (identity : Bytes) (frames : List Bytes)
  | disconnected (connection : Nat) (identity : Bytes)
  deriving DecidableEq, Repr

namespace Connection

/-- Ends a connection that can no longer be read. What it has not written is lost. -/
def lose (c : Connection) (number : Nat) : Connection × List Notice :=
  ({ c with reading := false, writer := .ended, outbox := [] },
    match c.identity with
    | none => []
    | some identity => [.disconnected number identity])

/-- Takes the messages of a connection whose reader has come so far. -/
def takeMessages (c : Connection) (number : Nat) : List (List Bytes) → Connection × List Notice
  | [] =>
    match c.reader.failure? with
    | none => (c, [])
    | some _ => c.lose number
  | frames :: rest =>
    match c.identity with
    | some identity =>
      let (c, notices) := c.takeMessages number rest
      (c, .message identity frames :: notices)
    | none =>
      match frames with
      | [[]] => c.lose number
      | [identity] =>
        let (c, notices) := { c with identity := some identity, writer := .open }.takeMessages number rest
        (c, .connected number identity :: notices)
      | _ => c.lose number

def receive (c : Connection) (number : Nat) (bytes : Bytes) : Connection × List Notice :=
  if c.reading then
    let (messages, reader) := (c.reader.feed bytes).take
    { c with reader }.takeMessages number messages
  else (c, [])

def receiveEnd (c : Connection) (number : Nat) : Connection × List Notice :=
  if c.reading then c.lose number else (c, [])

def push (c : Connection) (payload : Bytes) : Connection × Bool :=
  match c.writer with
  | .open => ({ c with outbox := c.outbox ++ [payload] }, true)
  | _ => (c, false)

def release (c : Connection) : Connection :=
  match c.writer with
  | .open => { c with writer := .released }
  | _ => c

def stopWriting (c : Connection) : Connection := { c with writer := .ended, outbox := [] }

end Connection

structure Hub where
  /-- Every connection, by its number. -/
  connections : List Connection := []
  /-- The connection that speaks for an identity. -/
  registered : List (Bytes × Nat) := []
  /-- What connections have told and the hub has not taken in. -/
  notices : List Notice := []
  deriving Repr

namespace Hub

def accept (h : Hub) (stream : Nat) : Hub :=
  { h with connections := h.connections ++ [{ stream }] }

def setConnection (h : Hub) (number : Nat) (r : Connection × List Notice) : Hub :=
  { h with connections := h.connections.set number r.1, notices := h.notices ++ r.2 }

def receive (h : Hub) (number : Nat) (bytes : Bytes) : Hub :=
  match h.connections[number]? with
  | none => h
  | some c => h.setConnection number (c.receive number bytes)

def receiveEnd (h : Hub) (number : Nat) : Hub :=
  match h.connections[number]? with
  | none => h
  | some c => h.setConnection number (c.receiveEnd number)

def modifyConnection (h : Hub) (number : Nat) (f : Connection → Connection) : Hub :=
  { h with connections := h.connections.modify number f }

def speaker? (h : Hub) (identity : Bytes) : Option Nat := h.registered.lookup identity

def others (h : Hub) (identity : Bytes) : List (Bytes × Nat) :=
  h.registered.filter fun r => r.1 ≠ identity

/-- Lets a connection speak for an identity. The one that did so is let go. -/
def register (h : Hub) (number : Nat) (identity : Bytes) : Hub :=
  let registered := h.others identity ++ [(identity, number)]
  match h.speaker? identity with
  | none => { h with registered }
  | some old => { h with registered }.modifyConnection old Connection.release

/-- A connection ends. If it spoke for its identity, nobody does now. -/
def unregister (h : Hub) (number : Nat) (identity : Bytes) : Hub :=
  if h.speaker? identity = some number then { h with registered := h.others identity } else h

/-- The envelope that a message of a connection holds, sent by the connection's identity. -/
def envelope? (identity : Bytes) (frames : List Bytes) : Option Envelope :=
  (Envelope.ofFrames? frames).map ({ · with sender := some identity })

/-- Takes in what a connection told. The second part is the envelope that arrived with it. -/
def take (h : Hub) : Notice → Hub × Option Envelope
  | .connected number identity => (h.register number identity, none)
  | .disconnected number identity => (h.unregister number identity, none)
  | .message identity frames => (h, envelope? identity frames)

def takeNotice? (h : Hub) : Option (Hub × Option Envelope) :=
  match h.notices with
  | [] => none
  | notice :: rest => some ({ h with notices := rest }.take notice)

/-- Hands a payload to the connection that speaks for an identity. The result says whether there is
one that can be written to. -/
def reply (h : Hub) (identity : Bytes) (payload : Bytes) : Hub × Bool :=
  match h.speaker? identity with
  | none => (h, false)
  | some number =>
    match h.connections[number]? with
    | none => (h, false)
    | some c => ({ h with connections := h.connections.set number (c.push payload).1 }, (c.push payload).2)

end Hub
end Mailbox
end PeerDiscovery
