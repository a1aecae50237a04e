import PeerDiscovery.Endpoint
import PeerDiscovery.PeerId
import PeerDiscovery.WireError
import PeerDiscovery.Wire.Record

/-! Beacons: the datagrams by which a node makes itself known.
A beacon names its node and the mailbox port. The address comes from the datagram's source,
so no beacon can speak for another host. -/
namespace PeerDiscovery

/-- Who is there, and where its mailbox is. -/
structure Beacon where
  peer : PeerId
  endpoint : Endpoint
  deriving DecidableEq, Repr

namespace Beacon

/-- The three bytes that every beacon starts with. -/
def magic : Bytes := [0x52, 0x42, 0x59]

/-- The most bytes of a datagram that are looked at. -/
def maxSize : Nat := 1024

def defaultPort : UInt16 := 8520

def defaultIntervalSecs : UInt64 := 30

def encode (peer : PeerId) (port : UInt16) : Bytes :=
  magic ++ Wire.BeaconRecord.layout.encode ⟨peer.bytes, Int32.ofNat port.toNat⟩

def port? (port : Int32) : Option UInt16 :=
  if 0 < port.toInt ∧ port.toInt ≤ 65535 then some (UInt16.ofNat port.toInt.toNat) else none

def decode (bytes : Bytes) (source : Net.IpAddr) : Except WireError Beacon :=
  if bytes.length ≤ 3 ∨ bytes.take 3 ≠ magic then .error .badMagic
  else do
    let record ← WireError.decode Wire.BeaconRecord.layout (bytes.drop 3)
    match PeerId.ofBytes? record.peerId with
    | none => .error (.badPeerId record.peerId.length)
    | some peer =>
      match port? record.mailboxPort with
      | none => .error (.badPort record.mailboxPort)
      | some port => .ok ⟨peer, .tcp source.text port⟩

/-- Decodes the part of a datagram that is looked at. -/
def ofDatagram (bytes : Bytes) (source : Net.IpAddr) : Except WireError Beacon :=
  decode (bytes.take maxSize) source

end Beacon
end PeerDiscovery
