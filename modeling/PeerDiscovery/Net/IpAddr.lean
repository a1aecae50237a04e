import PeerDiscovery.Net.Ipv6

/-! IP addresses of both kinds, and sockets: an address with a port.
The address of an IPv6 socket stands in brackets and may name a scope, which is passed over. -/
namespace PeerDiscovery
namespace Net

inductive IpAddr where
  | v4 (ip : Ipv4)
  | v6 (ip : Ipv6)
  deriving DecidableEq, Repr

namespace IpAddr

def IsUnspecified : IpAddr → Prop
  | v4 ip => ip = .unspecified
  | v6 ip => ip = .unspecified

instance (ip : IpAddr) : Decidable ip.IsUnspecified := by
  cases ip <;> exact inferInstanceAs (Decidable (_ = _))

/-- An address that every machine calls its own: a loopback one or the unspecified one. -/
def IsHome : IpAddr → Prop
  | v4 ip => ip.a = 127 ∨ ip = .unspecified
  | v6 ip => ip = .loopback ∨ ip = .unspecified

instance (ip : IpAddr) : Decidable ip.IsHome := by
  cases ip <;> exact inferInstanceAs (Decidable (_ ∨ _))

def text : IpAddr → String
  | v4 ip => String.ofList ip.print
  | v6 ip => String.ofList ip.print

def parseChars? (text : List Char) : Option IpAddr :=
  match Ipv4.parse? text with
  | some ip => some (v4 ip)
  | none => (Ipv6.parse? text).map v6

def parse? (text : String) : Option IpAddr := parseChars? text.toList

end IpAddr

structure SocketAddr where
  ip : IpAddr
  port : UInt16
  deriving DecidableEq, Repr

namespace SocketAddr

def text (addr : SocketAddr) : String :=
  match addr.ip with
  | .v4 _ => addr.ip.text ++ ":" ++ toString addr.port.toNat
  | .v6 _ => "[" ++ addr.ip.text ++ "]:" ++ toString addr.port.toNat

def port? (digits : List Char) : Option UInt16 :=
  (Decimal.digits? 65535 digits).map UInt16.ofNat

def scoped? (text : List Char) : Option Ipv6 :=
  match Text.cut? ['%'] text with
  | none => Ipv6.parse? text
  | some (ip, scope) => do
    discard (Decimal.digits? (UInt32.size - 1) scope)
    Ipv6.parse? ip

def parse? (text : String) : Option SocketAddr :=
  match text.toList with
  | '[' :: rest =>
    match Text.cut? [']', ':'] rest with
    | none => none
    | some (ip, port) => do return ⟨.v6 (← scoped? ip), ← port? port⟩
  | chars =>
    match Text.cutLast? ':' chars with
    | none => none
    | some (ip, port) => do return ⟨.v4 (← Ipv4.parse? ip), ← port? port⟩

end SocketAddr
end Net
end PeerDiscovery
