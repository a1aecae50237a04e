import PeerDiscovery.Endpoint

/-! Where a mailbox is bound.
A mailbox with a port is bound there or nowhere. Port 0 stands for the first port in the dynamic
range that is free. -/
namespace PeerDiscovery
namespace Mailbox

def minDynamicPort : Nat := 49152

def maxDynamicPort : Nat := 65535

/-- The dynamic ports in the order in which they are tried. -/
def dynamicPorts : List UInt16 :=
  (List.range' minDynamicPort (maxDynamicPort + 1 - minDynamicPort)).map UInt16.ofNat

inductive Error where
  | alreadyOpen
  | closed
  | endpoint (error : EndpointError)
  | bind (addr : Net.SocketAddr) (reason : String)
  | noFreePort
  deriving DecidableEq, Repr

namespace Error

/-- The name of the kind of error. -/
def kind : Error → String
  | alreadyOpen => "AlreadyOpen"
  | closed => "Closed"
  | endpoint _ => "Endpoint"
  | bind _ _ => "Bind"
  | noFreePort => "NoFreePort"

def message : Error → String
  | alreadyOpen => "channel is already open"
  | closed => "channel is closed"
  | endpoint error => "invalid mailbox endpoint: " ++ error.message
  | bind addr reason => "failed to bind " ++ addr.text ++ ": " ++ reason
  | noFreePort => "no free port in 49152..=65535"

end Error

/-- The socket for a mailbox, where `free` tells the sockets that can be bound. -/
def socket (free : Net.SocketAddr → Bool) (requested : Endpoint) : Except Error Net.SocketAddr :=
  match requested.socketAddr with
  | .error e => .error (.endpoint e)
  | .ok addr =>
    if addr.port = 0 then
      match dynamicPorts.find? fun port => free { addr with port } with
      | some port => .ok { addr with port }
      | none => .error .noFreePort
    else if free addr then .ok addr
    else .error (.bind addr "address not available")

end Mailbox
end PeerDiscovery
