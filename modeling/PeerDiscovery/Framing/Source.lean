import PeerDiscovery.Framing.Reader

/-! Streams that are read from.
A stream arrives in pieces of one size. A piece of no bytes is how a stream says that it has ended, so
of a stream in such pieces nothing is read. -/
namespace PeerDiscovery
namespace Framing

structure Source where
  bytes : Bytes
  /-- How many bytes arrive at a time; none when all arrive at once. -/
  size : Option Nat := none
  /-- What the failure says in which the stream ends, if it ends in one. -/
  failure : Option String := none

namespace Source

/-- The pieces that arrive. -/
def pieces (s : Source) : List Bytes :=
  match s.size with
  | none => [s.bytes]
  | some size => s.bytes.chunks size

def Stalls (s : Source) : Prop := s.size = some 0 ∧ s.bytes ≠ []

instance (s : Source) : Decidable s.Stalls := inferInstanceAs (Decidable (_ ∧ _))

/-- The messages of the stream, and what its reader says last. -/
def read (s : Source) : List (List Bytes) × Option Error :=
  Framing.read s.pieces (if s.Stalls then none else s.failure)

end Source
end Framing
end PeerDiscovery
