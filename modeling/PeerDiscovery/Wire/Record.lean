import PeerDiscovery.Wire.Layout

/-! The seven records that travel between nodes, with the tags of their fields.
A field with its default value is not written. The sender of an envelope has no default: it is
written whenever there is one, even an empty one. -/
namespace PeerDiscovery
namespace Wire

structure PairRecord where
  key : String
  value : String
  deriving DecidableEq, Repr

namespace PairRecord

def layout : Layout PairRecord where
  name := "KeyValuePair"
  blank := ⟨"", ""⟩
  field?
    | 1 => some (.text "key" fun key r => { r with key })
    | 2 => some (.text "value" fun value r => { r with value })
    | _ => none
  encode r := encodeText 1 r.key ++ encodeText 2 r.value

end PairRecord

structure HelloRecord where
  address : String
  port : Int32
  deriving DecidableEq, Repr

namespace HelloRecord

def layout : Layout HelloRecord where
  name := "HelloMessage"
  blank := ⟨"", 0⟩
  field?
    | 1 => some (.text "address" fun address r => { r with address })
    | 2 => some (.int32 "port" fun port r => { r with port })
    | _ => none
  encode r := encodeText 1 r.address ++ encodeInt32 2 r.port

end HelloRecord

/-- A record whose only field is a repeated pair under tag 1. -/
def pairsLayout (name field : String) : Layout (List PairRecord) where
  name := name
  blank := []
  field?
    | 1 => some (.repeated field PairRecord.layout)
    | _ => none
  encode pairs := pairs.flatMap fun pair => encodeBlock 1 (PairRecord.layout.encode pair)

def announceLayout : Layout (List PairRecord) := pairsLayout "AnnounceMessage" "facts"

def queryLayout : Layout (List PairRecord) := pairsLayout "QueryMessage" "facts"

def responseLayout : Layout (List PairRecord) := pairsLayout "ResponseMessage" "responses"

structure BeaconRecord where
  peerId : Bytes
  mailboxPort : Int32
  deriving DecidableEq, Repr

namespace BeaconRecord

def layout : Layout BeaconRecord where
  name := "BeaconMessage"
  blank := ⟨[], 0⟩
  field?
    | 1 => some (.bytes "peer_id" fun peerId r => { r with peerId })
    | 2 => some (.int32 "peer_mailbox_port" fun mailboxPort r => { r with mailboxPort })
    | _ => none
  encode r := encodeBytes 1 r.peerId ++ encodeInt32 2 r.mailboxPort

end BeaconRecord

structure EnvelopeRecord where
  id : Bytes
  type : Int32
  message : Bytes
  sender : Option Bytes
  token : String
  deriving DecidableEq, Repr

namespace EnvelopeRecord

def layout : Layout EnvelopeRecord where
  name := "RawEnvelope"
  blank := ⟨[], 0, [], none, ""⟩
  field?
    | 1 => some (.bytes "id" fun id r => { r with id })
    | 2 => some (.int32 "r#type" fun type r => { r with type })
    | 3 => some (.bytes "message" fun message r => { r with message })
    | 4 => some (.bytes "sender" fun sender r => { r with sender := some sender })
    | 5 => some (.text "token" fun token r => { r with token })
    | _ => none
  encode r :=
    encodeBytes 1 r.id ++ encodeInt32 2 r.type ++ encodeBytes 3 r.message
      ++ (match r.sender with
        | none => []
        | some sender => encodeBlock 4 sender)
      ++ encodeText 5 r.token

end EnvelopeRecord
end Wire
end PeerDiscovery
