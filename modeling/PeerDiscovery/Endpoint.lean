import PeerDiscovery.Net.IpAddr

/-! Endpoints: where a node can be reached.
The text of an endpoint is `transport://address:port`, with brackets around an address that holds a
colon. An address is an IP literal or `*`; other text is kept as it is and has no socket. -/
namespace PeerDiscovery

inductive Transport where
  | tcp
  | ipc
  | inproc
  deriving DecidableEq, Repr

namespace Transport

def name : Transport → String
  | tcp => "tcp"
  | ipc => "ipc"
  | inproc => "inproc"

def ofName? : String → Option Transport
  | "tcp" => some tcp
  | "ipc" => some ipc
  | "inproc" => some inproc
  | _ => none

@[simp] theorem ofName?_name (t : Transport) : ofName? t.name = some t := by
  cases t <;> rfl

end Transport

/-- Why a text is no endpoint, or an endpoint no socket. -/
inductive EndpointError where
  | missingScheme (text : String)
  | unknownTransport (scheme : String)
  | missingPort (text : String)
  | invalidPort (text : String)
  | invalidAddress (text : String)
  deriving DecidableEq, Repr

namespace EndpointError

/-- The name of the kind of error. -/
def kind : EndpointError → String
  | missingScheme _ => "MissingScheme"
  | unknownTransport _ => "UnknownTransport"
  | missingPort _ => "MissingPort"
  | invalidPort _ => "InvalidPort"
  | invalidAddress _ => "InvalidAddress"

def message : EndpointError → String
  | missingScheme text => "endpoint has no transport scheme: " ++ text
  | unknownTransport scheme => "unknown transport: " ++ scheme
  | missingPort text => "endpoint has no port: " ++ text
  | invalidPort text => "invalid port in endpoint: " ++ text
  | invalidAddress text => "invalid address: " ++ text

end EndpointError

/-- The transport that a scheme names. -/
def Transport.parse (scheme : String) : Except EndpointError Transport :=
  match Transport.ofName? scheme with
  | some t => .ok t
  | none => .error (.unknownTransport scheme)

structure Endpoint where
  transport : Transport
  /-- An IP literal without brackets, or `*`. -/
  address : String
  port : UInt16
  deriving DecidableEq, Repr

namespace Endpoint

def tcp (address : String) (port : UInt16) : Endpoint := ⟨.tcp, address, port⟩

def ofSocketAddr (addr : Net.SocketAddr) : Endpoint := tcp addr.ip.text addr.port

/-- The address that stands for every local interface. -/
def anyAddress : String := "*"

/-- The IP address behind an address text; every interface of IPv4 for `*`. -/
def ip? (address : String) : Option Net.IpAddr :=
  if address = anyAddress then some (.v4 .unspecified) else Net.IpAddr.parse? address

def socketAddr (e : Endpoint) : Except EndpointError Net.SocketAddr :=
  match ip? e.address with
  | some ip => .ok ⟨ip, e.port⟩
  | none => .error (.invalidAddress e.address)

/-- The address stands for every local interface. -/
def IsWildcard (e : Endpoint) : Prop :=
  e.address = anyAddress ∨ ∃ ip ∈ Net.IpAddr.parse? e.address, ip.IsUnspecified

instance (e : Endpoint) : Decidable e.IsWildcard :=
  have : Decidable (∃ ip ∈ Net.IpAddr.parse? e.address, ip.IsUnspecified) :=
    match Net.IpAddr.parse? e.address with
    | none => isFalse (by simp)
    | some ip => decidable_of_iff ip.IsUnspecified (by simp)
  inferInstanceAs (Decidable (_ ∨ _))

def withAddress (e : Endpoint) (address : String) : Endpoint := { e with address }

def withPort (e : Endpoint) (port : UInt16) : Endpoint := { e with port }

def text (e : Endpoint) : String :=
  if ':' ∈ e.address.toList then
    e.transport.name ++ "://[" ++ e.address ++ "]:" ++ toString e.port.toNat
  else e.transport.name ++ "://" ++ e.address ++ ":" ++ toString e.port.toNat

/-- Leaves out all opening brackets in front and then all closing brackets at the end. -/
def stripBrackets (address : List Char) : List Char :=
  ((address.dropWhile (· = '[')).reverse.dropWhile (· = ']')).reverse

def parse (text : String) : Except EndpointError Endpoint :=
  match Text.cut? [':', '/', '/'] text.toList with
  | none => .error (.missingScheme text)
  | some (scheme, rest) =>
    match Transport.parse (String.ofList scheme) with
    | .error e => .error e
    | .ok transport =>
      match Text.cutLast? ':' rest with
      | none => .error (.missingPort text)
      | some (address, port) =>
        match Decimal.parse? 65535 port with
        | none => .error (.invalidPort text)
        | some port =>
          if stripBrackets address = [] then .error (.invalidAddress text)
          else .ok ⟨transport, String.ofList (stripBrackets address), UInt16.ofNat port⟩

end Endpoint
end PeerDiscovery
