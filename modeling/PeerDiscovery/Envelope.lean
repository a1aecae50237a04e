import PeerDiscovery.FactSet
import PeerDiscovery.WireError

/-! Control messages, and the envelopes in which they travel.
An envelope has a correlation id that links a query with its answers, a token that routes answers,
and, when it is a reply, the identity of the peer it is for. -/
namespace PeerDiscovery

inductive MessageType where
  | hello
  | announce
  | query
  | response
  deriving DecidableEq, Repr

namespace MessageType

def name : MessageType → String
  | hello => "hello"
  | announce => "announce"
  | query => "query"
  | response => "response"

def code : MessageType → Int32
  | hello => 1
  | announce => 2
  | query => 3
  | response => 4

def ofCode? : Int32 → Option MessageType
  | 1 => some hello
  | 2 => some announce
  | 3 => some query
  | 4 => some response
  | _ => none

@[simp] theorem ofCode?_code (t : MessageType) : ofCode? t.code = some t := by
  cases t <;> rfl

def ofCode (code : Int32) : Except WireError MessageType :=
  match ofCode? code with
  | some t => .ok t
  | none => .error (.unknownMessageType code)

end MessageType

inductive Message where
  /-- The sender's mailbox is at this address and port. -/
  | hello (address : String) (port : UInt16)
  /-- A service with these facts is at the sender's endpoint. -/
  | announce (facts : FactSet)
  /-- Asks who has services with these facts. -/
  | query (facts : FactSet)
  /-- Endpoints that answer a query, as texts. -/
  | response (endpoints : List String)
  deriving DecidableEq, Repr

namespace Message

/-- The key under which an endpoint stands in a response. -/
def endpointKey : String := "service-endpoint"

def type : Message → MessageType
  | hello .. => .hello
  | announce _ => .announce
  | query _ => .query
  | response _ => .response

def encode : Message → Bytes
  | hello address port => Wire.HelloRecord.layout.encode ⟨address, Int32.ofNat port.toNat⟩
  | announce facts => Wire.announceLayout.encode facts.records
  | query facts => Wire.queryLayout.encode facts.records
  | response endpoints => Wire.responseLayout.encode (endpoints.map fun e => ⟨endpointKey, e⟩)

def helloPort (port : Int32) : Except WireError UInt16 :=
  if 0 ≤ port.toInt ∧ port.toInt ≤ 65535 then .ok (UInt16.ofNat port.toInt.toNat)
  else .error (.badPort port)

def decode (type : MessageType) (bytes : Bytes) : Except WireError Message :=
  match type with
  | .hello => do
    let record ← WireError.decode Wire.HelloRecord.layout bytes
    return hello record.address (← helloPort record.port)
  | .announce => do return announce (.ofRecords (← WireError.decode Wire.announceLayout bytes))
  | .query => do return query (.ofRecords (← WireError.decode Wire.queryLayout bytes))
  | .response => do
    return response ((← WireError.decode Wire.responseLayout bytes).map fun r => r.value)

end Message

abbrev CorrelationId := UInt64

namespace CorrelationId

def encode (id : CorrelationId) : Bytes := Bytes.toBigEndian 8 id.toNat

/-- Up to eight bytes, the most significant first. -/
def decode (bytes : Bytes) : Except WireError CorrelationId :=
  if 8 < bytes.length then .error (.badCorrelationId bytes.length)
  else .ok (UInt64.ofNat (Bytes.ofBigEndian bytes))

end CorrelationId

structure Envelope where
  id : CorrelationId
  token : String := ""
  /-- Whom a reply is for; none for a request. -/
  sender : Option Bytes := none
  message : Message
  deriving DecidableEq, Repr

namespace Envelope

/-- The token of queries and of their answers. -/
def queryToken : String := "query-service-token"

def type (e : Envelope) : MessageType := e.message.type

def encode (e : Envelope) : Bytes :=
  Wire.EnvelopeRecord.layout.encode
    ⟨CorrelationId.encode e.id, e.type.code, e.message.encode, e.sender, e.token⟩

def decode (bytes : Bytes) : Except WireError Envelope := do
  let record ← WireError.decode Wire.EnvelopeRecord.layout bytes
  let type ← MessageType.ofCode record.type
  let id ← CorrelationId.decode record.id
  let message ← Message.decode type record.message
  return { id, token := record.token, sender := record.sender, message }

/-- The envelope in a message of one frame. Other messages hold none. -/
def ofFrames? : List Bytes → Option Envelope
  | [payload] => (decode payload).toOption
  | _ => none

end Envelope
end PeerDiscovery
