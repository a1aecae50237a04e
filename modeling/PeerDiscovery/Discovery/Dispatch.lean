import PeerDiscovery.Discovery.Engine

/-! What the engine does with a control message from a peer. -/
namespace PeerDiscovery
namespace Discovery
namespace Engine

variable {κ : Type}

/-- What is left to do for a control message. -/
structure Answer (κ : Type) where
  /-- Whom to tell, and of which endpoints. -/
  calls : List (κ × Endpoint) := []
  /-- What to send back through the mailbox. -/
  reply : Option Envelope := none
  deriving Repr

/-- Notes a service at the endpoint of the tracker that its sender has; other announcements are
dropped. -/
def onAnnounce (e : Engine κ) (sender : Option Bytes) (facts : FactSet) : Engine κ :=
  match (sender.bind PeerId.ofBytes?).bind e.tracker? with
  | none => e
  | some t => { e with directory := e.directory.add t.endpoint facts }

/-- The answer to a query, for its sender; none when nothing matches. -/
def replyTo (e : Engine κ) (query : Envelope) (facts : FactSet) : Option Envelope :=
  match query.sender with
  | none => none
  | some sender =>
    match e.directory.query facts with
    | [] => none
    | found =>
      some { id := query.id, token := query.token, sender := some sender,
             message := .response (found.map Endpoint.text) }

def dispatch (e : Engine κ) (envelope : Envelope) (now : Nat) : Engine κ × Answer κ :=
  match envelope.message with
  | .hello address port =>
    match envelope.sender with
    | none => (e, {})
    | some sender => (e.onHello sender address port now, {})
  | .announce facts => (e.onAnnounce envelope.sender facts, {})
  | .query facts => (e, { reply := e.replyTo envelope facts })
  | .response _ =>
    let (e, calls) := e.onResponse envelope
    (e, { calls })

end Engine
end Discovery
end PeerDiscovery
