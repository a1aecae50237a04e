import PeerDiscovery.Discovery.Dispatch
import PeerDiscovery.Mailbox.Basic

/-! The discovery engine and the mailbox of a node together.
What peers send is handed to the engine, and what the engine answers goes out through the mailbox. -/
namespace PeerDiscovery

structure Host (κ : Type) where
  engine : Discovery.Engine κ
  mailbox : Mailbox
  deriving Repr

namespace Host

variable {κ : Type}

/-- Takes in a control message. The second part is whom to tell, and of which endpoints. -/
def dispatch (h : Host κ) (envelope : Envelope) (now : Nat) : Host κ × List (κ × Endpoint) :=
  let (engine, answer) := h.engine.dispatch envelope now
  match answer.reply with
  | none => ({ h with engine }, answer.calls)
  | some reply => (⟨engine, (h.mailbox.send reply).1⟩, answer.calls)

/-- Whoever hands this message in has to wait for others: a link that is replaced has to end, or the
mailbox has to take a reply in. -/
def Suspends (h : Host κ) (envelope : Envelope) (now : Nat) : Prop :=
  let (engine, answer) := h.engine.dispatch envelope now
  answer.reply.isSome ∨ h.engine.closings < engine.closings

instance (h : Host κ) (envelope : Envelope) (now : Nat) : Decidable (h.Suspends envelope now) :=
  inferInstanceAs (Decidable (_ ∨ _))

end Host
end PeerDiscovery
