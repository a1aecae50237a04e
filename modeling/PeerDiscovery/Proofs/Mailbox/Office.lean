import Mathlib.Data.Option.Basic
import PeerDiscovery.Mailbox.Service
import PeerDiscovery.Proofs.Lists

/-! Offices: an open mailbox and all that can happen to it, in any order.
Connections send any bytes, in any pieces, and end at any time. A connection that has ended may linger: its notice is out
before its writing half stops. What a mailbox does by itself on a network is made of these moves (`exists_moves_of_work?`).
An office remembers what came in on each connection and which of them each notice is from. -/
namespace PeerDiscovery
namespace Mailbox

open Net (Network)

structure Office where
  mailbox : Mailbox
  /-- All that was read on each connection. -/
  input : Nat → Bytes := fun _ => []
  /-- The connections that were read to the end of their streams. -/
  finished : Nat → Bool := fun _ => false
  /-- The notices that the mailbox has not taken in, each with the connection that it is from. -/
  waiting : List (Nat × Notice) := []
  /-- The notices that it has taken in, the latest one at the end. -/
  taken : List (Nat × Notice) := []
  /-- The payloads that were written whole on each connection. -/
  written : Nat → List Bytes := fun _ => []
  /-- What each listener has taken. -/
  got : Nat → List Event := fun _ => []

namespace Connection

/-- A connection that was `before` and has been read, with its writing half going on. -/
def linger (before after : Connection) : Connection :=
  match after.writer with
  | .ended =>
    match before.writer, after.identity with
    | .unused, none => after
    | .unused, some _ => { after with writer := .open }
    | _, _ => { after with writer := before.writer, outbox := before.outbox }
  | _ => after

/-- Writes the oldest payload, or ends when there is nothing left to be written. The payload is the second part of the
result if it was written whole. -/
def put (c : Connection) (whole : Bool) : Connection × Option Bytes :=
  if c.writer = .ended then (c, none)
  else
    match c.outbox with
    | payload :: rest =>
      match whole, Framing.encode [payload] with
      | true, .ok _ => ({ c with outbox := rest }, some payload)
      | _, _ => (c.stopWriting, none)
    | [] => if c.writer = .released then (c.stopWriting, none) else (c, none)

end Connection

namespace Office

inductive Move where
  | accept (stream : Nat)
  /-- Bytes are read on a connection. -/
  | read (connection : Nat) (bytes : Bytes) (lingers : Bool)
  /-- The end of a connection's stream is read, or the stream fails. -/
  | finish (connection : Nat) (lingers : Bool)
  /-- The writing half of a connection stops that has ended. -/
  | abort (connection : Nat)
  /-- The mailbox takes the oldest notice in. -/
  | notice
  /-- A connection writes; the write may fail. -/
  | write (connection : Nat) (whole : Bool)
  | send (envelope : Envelope)
  | listen
  | unlisten (listener : Nat)
  /-- A listener takes the oldest event. -/
  | next (listener : Nat)
  /-- A listener takes all events. -/
  | take (listener : Nat)

/-- Something happens to one connection, if there is one with that number. -/
def withConnection (s : Office) (n : Nat) (act : Connection → Office) : Office :=
  match s.mailbox.hub.connections[n]? with
  | none => s
  | some c => act c

/-- A connection has been read, and `r` is what became of it. -/
def heard (s : Office) (n : Nat) (c : Connection) (r : Connection × List Notice) (lingers : Bool) : Office :=
  { s with
    mailbox.hub := s.mailbox.hub.setConnection n (if lingers then c.linger r.1 else r.1, r.2)
    waiting := s.waiting ++ r.2.map (n, ·) }

def modify (s : Office) (n : Nat) (f : Connection → Connection) : Office :=
  { s with mailbox.hub := s.mailbox.hub.modifyConnection n f }

def give (s : Office) (listener : Nat) (events : List Event) : Office :=
  { s with got := fun k => if k = listener then s.got k ++ events else s.got k }

def go (s : Office) : Move → Office
  | .accept stream => { s with mailbox.hub := s.mailbox.hub.accept stream }
  | .read n bytes lingers => s.withConnection n fun c =>
    if c.reading then
      { s.heard n c (c.receive n bytes) lingers with input := fun k => if k = n then s.input k ++ bytes else s.input k }
    else s
  | .finish n lingers => s.withConnection n fun c =>
    if c.reading then
      { s.heard n c (c.receiveEnd n) lingers with finished := fun k => if k = n then true else s.finished k }
    else s
  | .abort n => s.withConnection n fun c => if c.reading then s else s.modify n Connection.stopWriting
  | .notice =>
    match s.mailbox.takeNotice? with
    | none => s
    | some mailbox => { s with mailbox, waiting := s.waiting.drop 1, taken := s.taken ++ s.waiting.take 1 }
  | .write n whole => s.withConnection n fun c =>
    { s.modify n fun c => (c.put whole).1 with
      written := fun k => if k = n then s.written k ++ (c.put whole).2.toList else s.written k }
  | .send envelope => { s with mailbox := (s.mailbox.send envelope).1 }
  | .listen => { s with mailbox := s.mailbox.addListener.1 }
  | .unlisten k => { s with mailbox := s.mailbox.dropListener k }
  | .next k =>
    match s.mailbox.takeEvent? k with
    | none => s
    | some (mailbox, event) => { s with mailbox }.give k [event]
  | .take k => { s with mailbox := (s.mailbox.takeEvents k).1 }.give k (s.mailbox.takeEvents k).2

theorem withConnection_of {P : Office → Prop} {s : Office} {n : Nat} {act : Connection → Office} (hs : P s)
    (hact : ∀ c, s.mailbox.hub.connections[n]? = some c → P (act c)) : P (s.withConnection n act) := by
  unfold withConnection
  split
  · exact hs
  · next c hc => exact hact c hc

def after (s : Office) (ms : List Move) : Office := ms.foldl go s

theorem after_append (s : Office) (ms ms' : List Move) : s.after (ms ++ ms') = (s.after ms).after ms' :=
  List.foldl_append

theorem after_concat (s : Office) (ms : List Move) (m : Move) : s.after (ms ++ [m]) = (s.after ms).go m :=
  s.after_append ms [m]

theorem exists_of_connectionWork? {m : Mailbox} {ready : Nat → Connection → Option (Network × Mailbox)}
    {r : Network × Mailbox} (h : m.connectionWork? ready = some r) :
    ∃ n c, m.hub.connections[n]? = some c ∧ ready n c = some r := by
  obtain ⟨⟨c, n⟩, hm, hr⟩ := List.exists_of_findSome?_eq_some h
  exact ⟨n, c, List.mk_mem_zipIdx_iff_getElem?.1 hm, hr⟩

theorem exists_moves_of_acceptWork? {net net' : Network} {s : Office} {m : Mailbox}
    (h : acceptWork? net s.mailbox = some (net', m)) : ∃ ms, (s.after ms).mailbox = m := by
  unfold acceptWork? at h
  split at h
  · cases h
  · split at h
    · cases h
      exact ⟨[], rfl⟩
    · obtain ⟨⟨_, stream⟩, -, h⟩ := Option.map_eq_some_iff.1 h
      cases h
      exact ⟨[.accept stream], rfl⟩

theorem exists_moves_of_readWork? {net net' : Network} {s : Office} {n : Nat} {c : Connection} {m : Mailbox}
    (hc : s.mailbox.hub.connections[n]? = some c) (h : readWork? net s.mailbox n c = some (net', m)) :
    ∃ ms, (s.after ms).mailbox = m := by
  unfold readWork? at h
  dsimp only at h
  split at h
  · cases h
  · next hr =>
    have hreading : c.reading = true := by simpa using hr
    split at h
    · cases h
      refine ⟨[.read n (net.read c.stream .server).2 false], ?_⟩
      simp only [after, List.foldl_cons, List.foldl_nil, go, withConnection, hc, if_pos hreading, heard, Hub.receive]
      rfl
    · split at h
      · cases h
        refine ⟨[.finish n false], ?_⟩
        simp only [after, List.foldl_cons, List.foldl_nil, go, withConnection, hc, if_pos hreading, heard, Hub.receiveEnd]
        rfl
      · cases h

theorem modifyConnection_congr {h : Hub} {n : Nat} {c : Connection} (hc : h.connections[n]? = some c)
    {f g : Connection → Connection} (hfg : f c = g c) : h.modifyConnection n f = h.modifyConnection n g := by
  have hset : ∀ f : Connection → Connection, h.connections.modify n f = h.connections.set n (f c) := by
    intro f
    rw [List.modify_eq_set_getElem?, hc]
    rfl
  rw [Hub.modifyConnection, Hub.modifyConnection, hset, hset, hfg]

theorem exists_moves_of_put {s : Office} {n : Nat} {c : Connection} (hc : s.mailbox.hub.connections[n]? = some c)
    (whole : Bool) {f : Connection → Connection} (hf : (c.put whole).1 = f c) :
    ∃ ms, (s.after ms).mailbox = { s.mailbox with hub := s.mailbox.hub.modifyConnection n f } := by
  refine ⟨[.write n whole], ?_⟩
  simp only [after, List.foldl_cons, List.foldl_nil, go, withConnection, hc, modify]
  rw [modifyConnection_congr (g := f) hc hf]

theorem exists_moves_of_writeWork? {net net' : Network} {s : Office} {n : Nat} {c : Connection} {m : Mailbox}
    (hc : s.mailbox.hub.connections[n]? = some c) (h : writeWork? net s.mailbox n c = some (net', m)) :
    ∃ ms, (s.after ms).mailbox = m := by
  unfold writeWork? at h
  dsimp only at h
  split at h
  · split at h
    · cases h
    · cases h
      exact ⟨[], rfl⟩
  · next payload rest ho hw =>
    have hput : ∀ whole, c.put whole =
        match whole, Framing.encode [payload] with
        | true, .ok _ => ({ c with outbox := rest }, some payload)
        | _, _ => (c.stopWriting, none) := by
      intro whole
      rw [Connection.put, if_neg fun hended => hw hended, ho]
    split at h
    · next hb =>
      cases h
      exact exists_moves_of_put hc true (by rw [hput, hb])
    · next hb =>
      split at h
      · cases h
        exact exists_moves_of_put hc false (by rw [hput])
      · cases h
        exact exists_moves_of_put hc true (by rw [hput, hb])
  · next hw ho =>
    cases h
    exact exists_moves_of_put hc true (by rw [Connection.put, hw, ho]; rfl)
  · cases h

/-- What a mailbox does by itself on a network is made of moves. -/
theorem exists_moves_of_work? {net net' : Network} {s : Office} {m : Mailbox}
    (h : work? net s.mailbox = some (net', m)) : ∃ ms, (s.after ms).mailbox = m := by
  simp only [work?, Option.orElse_eq_some] at h
  rcases h with h | ⟨-, h | ⟨-, h | ⟨-, h⟩⟩⟩
  · exact exists_moves_of_acceptWork? h
  · obtain ⟨n, c, hc, h⟩ := exists_of_connectionWork? h
    exact exists_moves_of_readWork? hc h
  · obtain ⟨m', hm, h⟩ := Option.map_eq_some_iff.1 h
    cases h
    exact ⟨[.notice], by simp only [after, List.foldl_cons, List.foldl_nil, go, hm]⟩
  · obtain ⟨n, c, hc, h⟩ := exists_of_connectionWork? h
    exact exists_moves_of_writeWork? hc h

end Office
end Mailbox
end PeerDiscovery
