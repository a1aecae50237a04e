import PeerDiscovery.Wire.Layout

/-! Why bytes from another node are refused. -/
namespace PeerDiscovery

inductive WireError where
  | badMagic
  | malformed (fault : Wire.Fault)
  | badPeerId (length : Nat)
  | badPort (port : Int32)
  | unknownMessageType (code : Int32)
  | badCorrelationId (length : Nat)
  deriving DecidableEq, Repr

namespace WireError

/-- The name of the kind of error. -/
def kind : WireError → String
  | badMagic => "BadMagic"
  | malformed _ => "Malformed"
  | badPeerId _ => "BadPeerId"
  | badPort _ => "BadPort"
  | unknownMessageType _ => "UnknownMessageType"
  | badCorrelationId _ => "BadCorrelationId"

def message : WireError → String
  | badMagic => "datagram does not start with the beacon magic"
  | malformed fault => "malformed payload: " ++ fault.message
  | badPeerId length => "peer id must be 16 bytes, got " ++ toString length
  | badPort port => "invalid mailbox port: " ++ toString port.toInt
  | unknownMessageType code => "unknown control message type: " ++ toString code.toInt
  | badCorrelationId length => "correlation id longer than 8 bytes: " ++ toString length

/-- Decodes by a layout. -/
def decode {α : Type} (layout : Wire.Layout α) (bytes : Bytes) : Except WireError α :=
  (layout.decode bytes).mapError malformed

end WireError
end PeerDiscovery
