import PeerDiscovery.Discovery.Courier
import PeerDiscovery.Host
import PeerDiscovery.Proofs.Discovery.Answers
import PeerDiscovery.Proofs.Endpoint
import PeerDiscovery.Proofs.Envelope
import PeerDiscovery.Proofs.Framing
import PeerDiscovery.Proofs.Framing.Writing
import PeerDiscovery.Proofs.Mailbox.Speakers

/-! A query on its way to a peer, and the answer on its way back: `ask_answered`.
The courier of the asker carries the query to a connection of the other mailbox. The answer goes out on the
connection that speaks for the asker, and the courier hands it on. Every part of the way is taken as it stands when
the query or the answer comes by, so whatever else goes on in between is allowed for. -/
namespace PeerDiscovery

open Discovery (Courier)
open Mailbox (Connection Notice Hub)

/-- Hands control messages in, one after another. -/
def Host.dispatchAll {κ : Type} (h : Host κ) (now : Nat) : List Envelope → Host κ × List (κ × Endpoint)
  | [] => (h, [])
  | envelope :: rest =>
    let (h, calls) := h.dispatch envelope now
    let (h, others) := h.dispatchAll now rest
    (h, calls ++ others)

/-- What waits to be written on a connection. -/
def Mailbox.Hub.outbox (h : Hub) (number : Nat) : List Bytes :=
  (h.connections[number]?.map Connection.outbox).getD []

/-- What a courier hands on of bytes that it reads, where `reader` says how far it has come. -/
def Discovery.Courier.replies (c : Courier) (reader : Framing.Reader) (bytes : Bytes) : List Envelope :=
  (reader.feed bytes).take.1.filterMap c.reply?

theorem Discovery.Courier.replies_read (c : Courier) (n : Net.Network) (stream : Nat) (reader : Framing.Reader) :
    (c.read n stream reader).2.2 = c.replies reader (n.incoming stream .client).waiting := by
  simp only [read, replies, Net.Network.read]
  split <;> rfl

structure Exchange (κ ν : Type) where
  courier : Courier
  /-- Where the query arrives. -/
  connection : Connection
  number : Nat
  /-- The peer, when the query is handed to it. -/
  peer : Host ν
  /-- The connection of the peer whose stream the courier reads. -/
  speaker : Nat
  /-- How far the courier has read that stream. -/
  reader : Framing.Reader
  /-- The asker, when the answer is handed to it. -/
  asker : Host κ

/-- What comes of a query. -/
structure Exchange.Outcome (κ ν : Type) where
  peer : Host ν
  /-- What the peer sent back. -/
  payloads : List Bytes
  asker : Host κ
  /-- Whom the asker tells, and of which endpoints. -/
  calls : List (κ × Endpoint)

namespace Exchange

variable {κ ν : Type}

/-- The envelopes that reach the peer with bytes that its connection reads. -/
def arrivals (x : Exchange κ ν) (bytes : Bytes) : List Envelope :=
  (x.connection.receive x.number bytes).2.filterMap fun notice => (x.peer.mailbox.hub.take notice).2

/-- The whole way of a query, and of what is sent back for it. -/
def ask (x : Exchange κ ν) (query : Envelope) (now later : Nat) : Except Framing.Error (Outcome κ ν) := do
  let bytes ← Framing.encode [query.encode]
  let (peer, _) := x.peer.dispatchAll now (x.arrivals bytes)
  let payloads := (peer.mailbox.hub.outbox x.speaker).drop (x.peer.mailbox.hub.outbox x.speaker).length
  let written ← payloads.mapM fun payload => Framing.encode [payload]
  let (asker, calls) := x.asker.dispatchAll later (x.courier.replies x.reader written.flatten)
  return { peer, payloads, asker, calls }

/-- The way is open: the courier has greeted the peer, and both ends stand between two messages. -/
structure Open (x : Exchange κ ν) : Prop where
  reading : x.connection.reading = true
  arriving : x.connection.reader = {}
  identity : x.connection.identity = some x.courier.self.bytes
  isOpen : x.peer.mailbox.IsOpen
  speaks : x.peer.mailbox.hub.speaker? x.courier.self.bytes = some x.speaker
  writer : x.peer.mailbox.hub.connections[x.speaker]?.map Connection.writer = some .open
  hearing : x.reader = {}

end Exchange

theorem Framing.encode_of_le {payload : Bytes} (h : payload.length ≤ maxFrameSize) :
    encode [payload] = .ok (encodeFrames [payload]) :=
  encode_of_sendable (.of_le h)

theorem Framing.Reader.take_feed_encode {payload bytes : Bytes} (h : encode [payload] = .ok bytes) :
    (feed {} bytes).take = ([[payload]], {}) := by
  rw [feed_encode atBoundary_new h]
  rfl

theorem Mailbox.Connection.receive_encode {c : Connection} {identity payload bytes : Bytes} (number : Nat)
    (hc : c.reading = true) (hr : c.reader = {}) (hi : c.identity = some identity)
    (h : Framing.encode [payload] = .ok bytes) :
    c.receive number bytes = (c, [.message identity [payload]]) := by
  obtain ⟨stream, reader, reading, own, writer, outbox⟩ := c
  obtain rfl := hr
  obtain rfl := hi
  simp only [receive, if_pos hc, Framing.Reader.take_feed_encode h]
  rfl

theorem Envelope.decode_encode_of_le {e : Envelope} (h : e.encode.length ≤ Framing.maxFrameSize) :
    decode e.encode = .ok e := decode_encode (Nat.lt_of_le_of_lt h (by decide))

theorem Mailbox.Hub.envelope?_encode {e : Envelope} (h : e.encode.length ≤ Framing.maxFrameSize) (identity : Bytes) :
    envelope? identity [e.encode] = some { e with sender := some identity } := by
  rw [envelope?, Envelope.ofFrames?, Envelope.decode_encode_of_le h]
  rfl

theorem Discovery.Courier.reply?_payload {e : Envelope} (h : (Mailbox.payload e).length ≤ Framing.maxFrameSize)
    (c : Courier) : c.reply? [Mailbox.payload e] = some { e with sender := some c.peer.bytes } := by
  have hd : Envelope.decode (Mailbox.payload e) = .ok { e with sender := none } := Envelope.decode_encode_of_le h
  rw [reply?, Envelope.ofFrames?, hd]
  rfl

namespace Discovery
namespace Engine

variable {κ : Type} {e : Engine κ} {id : CorrelationId} {sender : Bytes} {facts : FactSet}

theorem replyTo_of_nil {query : Envelope} (h : e.directory.query facts = []) : e.replyTo query facts = none := by
  unfold replyTo
  split
  · rfl
  · rw [h]

theorem replyTo_of_ne_nil {query : Envelope} (hs : query.sender = some sender) (h : e.directory.query facts ≠ []) :
    e.replyTo query facts = some
      ⟨query.id, query.token, some sender, .response ((e.directory.query facts).map Endpoint.text)⟩ := by
  simp only [replyTo, hs]

theorem calls_text {k : κ} {found : List Endpoint} (h : ∀ endpoint ∈ found, Endpoint.Readable endpoint.address) :
    calls k (found.map Endpoint.text) = found.map (k, ·) := by
  rw [calls, List.filterMap_map]
  congr 1
  refine (List.filterMap_congr fun endpoint he => ?_).trans List.filterMap_some
  exact congrArg Except.toOption (Endpoint.parse_text_of_readable (h endpoint he))

theorem lookup_settled (e : Engine κ) (id : CorrelationId) : (e.settled id).lookup id = none :=
  lookup_filter_self e.inFlight id

end Engine
end Discovery

theorem Directory.mem_entries_of_mem_query {d : Directory} {facts : FactSet} {endpoint : Endpoint}
    (h : endpoint ∈ d.query facts) : endpoint ∈ d.entries.map Prod.fst := by
  obtain ⟨entry, he, rfl⟩ := List.mem_map.1 (List.mem_mergeSort.1 h)
  exact List.mem_map_of_mem (List.mem_filter.1 he).1

namespace Host

variable {κ : Type}

theorem dispatchAll_singleton (h : Host κ) (now : Nat) (envelope : Envelope) :
    h.dispatchAll now [envelope] = h.dispatch envelope now := by
  simp only [dispatchAll, List.append_nil]

theorem dispatch_of_no_reply {h : Host κ} {envelope : Envelope} {now : Nat}
    (hd : h.engine.dispatch envelope now = (h.engine, {})) : h.dispatch envelope now = (h, []) := by
  rw [dispatch, hd]

theorem dispatch_of_reply {h : Host κ} {envelope reply : Envelope} {now : Nat}
    (hd : h.engine.dispatch envelope now = (h.engine, { reply := some reply })) :
    h.dispatch envelope now = ({ h with mailbox := (h.mailbox.send reply).1 }, []) := by
  rw [dispatch, hd]

end Host

namespace Exchange

variable {κ ν : Type}

/-- The query for facts under an id. -/
def query (id : CorrelationId) (facts : FactSet) : Envelope :=
  { id, token := Envelope.queryToken, message := .query facts }

/-- What the peer knows of services with some facts. -/
def found (x : Exchange κ ν) (facts : FactSet) : List Endpoint := x.peer.engine.directory.query facts

/-- The answer of the peer to the query for facts under an id. -/
def answer (x : Exchange κ ν) (id : CorrelationId) (facts : FactSet) : Envelope :=
  ⟨id, Envelope.queryToken, some x.courier.self.bytes, .response ((x.found facts).map Endpoint.text)⟩

variable {x : Exchange κ ν} {id : CorrelationId} {facts : FactSet} {k : κ}

theorem Open.arrivals_eq (ho : x.Open) {e : Envelope} (he : e.encode.length ≤ Framing.maxFrameSize) :
    x.arrivals (Framing.encodeFrames [e.encode]) = [{ e with sender := some x.courier.self.bytes }] := by
  rw [arrivals, Connection.receive_encode x.number ho.reading ho.arriving ho.identity (Framing.encode_of_le he)]
  simp only [List.filterMap_cons, List.filterMap_nil, Hub.take, Hub.envelope?_encode he]

theorem Open.replies_eq (ho : x.Open) {e : Envelope} (he : (Mailbox.payload e).length ≤ Framing.maxFrameSize) :
    x.courier.replies x.reader (Framing.encodeFrames [Mailbox.payload e]) =
      [{ e with sender := some x.courier.peer.bytes }] := by
  rw [Courier.replies, ho.hearing, Framing.Reader.take_feed_encode (Framing.encode_of_le he)]
  simp only [List.filterMap_cons, List.filterMap_nil, Courier.reply?_payload he]

theorem Open.replies_nil (ho : x.Open) : x.courier.replies x.reader [] = [] := by
  rw [Courier.replies, ho.hearing]
  rfl

theorem Open.send_answer (ho : x.Open) {e : Envelope} (he : e.sender = some x.courier.self.bytes) :
    (x.peer.mailbox.send e).2 = .ok true ∧
    ((x.peer.mailbox.send e).1.hub.outbox x.speaker).drop (x.peer.mailbox.hub.outbox x.speaker).length =
      [Mailbox.payload e] := by
  obtain ⟨c, hc, hw⟩ := Option.map_eq_some_iff.1 ho.writer
  have hlt : x.speaker < x.peer.mailbox.hub.connections.length := (List.getElem?_eq_some_iff.1 hc).1
  rw [Mailbox.send_of_speaker ho.isOpen he ho.speaks hc hw]
  refine ⟨rfl, ?_⟩
  simp only [Hub.outbox, List.getElem?_set_self hlt, hc, Option.map_some, Option.getD_some, List.drop_left]

theorem Open.peer_of_nil (ho : x.Open) (hq : (query id facts).encode.length ≤ Framing.maxFrameSize)
    (hn : x.found facts = []) (now : Nat) :
    x.peer.dispatchAll now (x.arrivals (Framing.encodeFrames [(query id facts).encode])) = (x.peer, []) := by
  rw [ho.arrivals_eq hq, Host.dispatchAll_singleton]
  refine Host.dispatch_of_no_reply ?_
  simp only [Discovery.Engine.dispatch, query, Discovery.Engine.replyTo_of_nil (show _ = [] from hn)]

theorem Open.peer_of_ne_nil (ho : x.Open) (hq : (query id facts).encode.length ≤ Framing.maxFrameSize)
    (hn : x.found facts ≠ []) (now : Nat) :
    x.peer.dispatchAll now (x.arrivals (Framing.encodeFrames [(query id facts).encode])) =
      ({ x.peer with mailbox := (x.peer.mailbox.send (x.answer id facts)).1 }, []) := by
  rw [ho.arrivals_eq hq, Host.dispatchAll_singleton]
  have hr : x.peer.engine.replyTo { query id facts with sender := some x.courier.self.bytes } facts =
      some (x.answer id facts) := Discovery.Engine.replyTo_of_ne_nil rfl hn
  refine Host.dispatch_of_reply ?_
  simp only [Discovery.Engine.dispatch, query] at hr ⊢
  rw [hr]

theorem found_readable (hd : ∀ entry ∈ x.peer.engine.directory.entries, Endpoint.Readable entry.1.address) :
    ∀ endpoint ∈ x.found facts, Endpoint.Readable endpoint.address := by
  intro endpoint he
  obtain ⟨entry, hm, rfl⟩ := List.mem_map.1 (Directory.mem_entries_of_mem_query he)
  exact hd entry hm

theorem Open.asker_of_answer (ho : x.Open) (hk : x.asker.engine.inFlight.lookup id = some k)
    (hd : ∀ entry ∈ x.peer.engine.directory.entries, Endpoint.Readable entry.1.address)
    (ha : (Mailbox.payload (x.answer id facts)).length ≤ Framing.maxFrameSize) (later : Nat) :
    x.asker.dispatchAll later
        (x.courier.replies x.reader (Framing.encodeFrames [Mailbox.payload (x.answer id facts)])) =
      ({ x.asker with engine.inFlight := x.asker.engine.settled id }, (x.found facts).map (k, ·)) := by
  have hanswers : Discovery.Answers { x.answer id facts with sender := some x.courier.peer.bytes } id
      ((x.found facts).map Endpoint.text) := ⟨rfl, rfl, rfl⟩
  have hr := Discovery.Engine.onResponse_of_answers hanswers hk
  rw [Discovery.Engine.calls_text (found_readable hd)] at hr
  rw [ho.replies_eq ha, Host.dispatchAll_singleton]
  simp only [Host.dispatch, Discovery.Engine.dispatch, answer] at hr ⊢
  rw [hr]

/-- A query to a peer that knows services with its facts is answered by these services, in their order: whoever asked
is told of each, once, and the query is in flight no more. A peer that knows none sends nothing, and the query stays
in flight. -/
theorem ask_answered (x : Exchange κ ν) (id : CorrelationId) (facts : FactSet) (ho : x.Open)
    (hk : x.asker.engine.inFlight.lookup id = some k)
    (hd : ∀ entry ∈ x.peer.engine.directory.entries, Endpoint.Readable entry.1.address)
    (hquery : (query id facts).encode.length ≤ Framing.maxFrameSize)
    (hanswer : (Mailbox.payload (x.answer id facts)).length ≤ Framing.maxFrameSize) (now later : Nat) :
    ∃ o, x.ask (query id facts) now later = .ok o ∧
      o.calls = (x.found facts).map (k, ·) ∧
      (x.found facts ≠ [] →
        o.peer = { x.peer with mailbox := (x.peer.mailbox.send (x.answer id facts)).1 } ∧
        (x.peer.mailbox.send (x.answer id facts)).2 = .ok true ∧
        o.payloads = [Mailbox.payload (x.answer id facts)] ∧
        o.asker = { x.asker with engine.inFlight := x.asker.engine.settled id } ∧
        o.asker.engine.inFlight.lookup id = none) ∧
      (x.found facts = [] →
        o.peer = x.peer ∧ o.payloads = [] ∧ o.asker = x.asker ∧ o.asker.engine.inFlight.lookup id = some k) := by
  have hbytes := Framing.encode_of_le hquery
  by_cases hn : x.found facts = []
  · have hask : x.ask (query id facts) now later = .ok ⟨x.peer, [], x.asker, []⟩ := by
      simp only [ask, hbytes, bind, Except.bind, ho.peer_of_nil hquery hn, List.drop_length, List.mapM_nil, pure,
        Except.pure, List.flatten_nil, ho.replies_nil, Host.dispatchAll]
    exact ⟨_, hask, by rw [hn]; rfl, fun h => absurd hn h, fun _ => ⟨rfl, rfl, rfl, hk⟩⟩
  · obtain ⟨hsent, hadded⟩ := ho.send_answer (e := x.answer id facts) rfl
    have hask : x.ask (query id facts) now later = .ok
        ⟨{ x.peer with mailbox := (x.peer.mailbox.send (x.answer id facts)).1 },
          [Mailbox.payload (x.answer id facts)],
          { x.asker with engine.inFlight := x.asker.engine.settled id }, (x.found facts).map (k, ·)⟩ := by
      simp only [ask, hbytes, bind, Except.bind, ho.peer_of_ne_nil hquery hn, hadded, List.mapM_cons,
        Framing.encode_of_le hanswer, List.mapM_nil, pure, Except.pure, List.flatten_cons, List.flatten_nil,
        List.append_nil, ho.asker_of_answer hk hd hanswer later]
    refine ⟨_, hask, rfl, fun _ => ⟨rfl, hsent, rfl, rfl, ?_⟩, fun h => absurd h hn⟩
    exact Discovery.Engine.lookup_settled x.asker.engine id

/-- Of three services two match. One of their endpoints is written with brackets on its way. -/
theorem ask_answered_echo :
    let self : PeerId := ⟨List.replicate 16 1, rfl⟩
    let other : PeerId := ⟨List.replicate 16 2, rfl⟩
    let echo : FactSet := .ofPairs [("name", "echo")]
    let directory := ((Directory.empty.add (.tcp "10.0.0.2" 1) echo).add (.tcp "10.0.0.2" 3) ∅).add (.tcp "::1" 2) echo
    let connection : Connection := { stream := 0, identity := some self.bytes, writer := .open, outbox := [[5]] }
    let mailbox : Mailbox := { requested := .tcp "*" 0, state := .open,
                               hub := { connections := [connection], registered := [(self.bytes, 0)] } }
    let x : Exchange Nat Nat :=
      { courier := { self, peer := other, endpoint := .tcp "10.0.0.2" 7 }, connection, number := 0,
        peer := ⟨{ self := other, closeLimit := 0, directory }, mailbox⟩, speaker := 0, reader := {},
        asker := ⟨{ self, closeLimit := 0, inFlight := [(4, 9)] }, { requested := .tcp "*" 0 }⟩ }
    ∃ o, x.ask (query 4 echo) 10 20 = .ok o ∧ o.calls = [(9, .tcp "10.0.0.2" 1), (9, .tcp "::1" 2)] ∧
      o.payloads.length = 1 ∧ o.asker.engine.inFlight = [] := by
  intro self other echo directory connection mailbox x
  have ho : x.Open := ⟨rfl, rfl, rfl, rfl, by decide, by decide, rfl⟩
  have hmatch : (directory.entries.filter fun entry => entry.2.ContainsAll echo).map Prod.fst =
      [.tcp "10.0.0.2" 1, .tcp "::1" 2] := by decide +kernel
  have hfound : x.found echo = [.tcp "10.0.0.2" 1, .tcp "::1" 2] :=
    (congrArg (List.mergeSort · Directory.textLE) hmatch).trans (List.mergeSort_of_pairwise (by decide +kernel))
  have hanswer : x.answer 4 echo =
      ⟨4, Envelope.queryToken, some self.bytes, .response ["tcp://10.0.0.2:1", "tcp://[::1]:2"]⟩ := by
    rw [answer, hfound]
    decide +kernel
  obtain ⟨o, hask, hcalls, hsome, -⟩ := ask_answered x 4 echo ho (show _ = some 9 by decide)
    (by decide +kernel) (by decide +kernel) (by rw [hanswer]; decide +kernel) 10 20
  obtain ⟨-, -, hpayloads, hasker, -⟩ := hsome (by rw [hfound]; exact List.cons_ne_nil _ _)
  exact ⟨o, hask, by rw [hcalls, hfound]; rfl, by rw [hpayloads]; rfl, by rw [hasker]; decide⟩

end Exchange
end PeerDiscovery
