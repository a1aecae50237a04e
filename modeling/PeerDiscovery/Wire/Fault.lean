/-! What can be wrong with an encoded record, and where.
A fault is a reason together with the fields that enclose it, and `Fault.message` words both. -/
namespace PeerDiscovery
namespace Wire

/-- How a value is laid out after its key. -/
inductive WireType where
  | varint
  | sixtyFourBit
  | lengthDelimited
  | startGroup
  | endGroup
  | thirtyTwoBit
  deriving DecidableEq, Repr

namespace WireType

/-- The number that stands for a wire type in a key. -/
def code : WireType → Nat
  | varint => 0
  | sixtyFourBit => 1
  | lengthDelimited => 2
  | startGroup => 3
  | endGroup => 4
  | thirtyTwoBit => 5

def ofCode? : Nat → Option WireType
  | 0 => some varint
  | 1 => some sixtyFourBit
  | 2 => some lengthDelimited
  | 3 => some startGroup
  | 4 => some endGroup
  | 5 => some thirtyTwoBit
  | _ => none

@[simp] theorem ofCode?_code (t : WireType) : ofCode? t.code = some t := by
  cases t <;> rfl

theorem code_lt (t : WireType) : t.code < 8 := by
  cases t <;> decide

def name : WireType → String
  | varint => "Varint"
  | sixtyFourBit => "SixtyFourBit"
  | lengthDelimited => "LengthDelimited"
  | startGroup => "StartGroup"
  | endGroup => "EndGroup"
  | thirtyTwoBit => "ThirtyTwoBit"

end WireType

inductive Reason where
  | invalidVarint
  | invalidKey (value : Nat)
  | invalidWireType (value : Nat)
  | zeroTag
  | wrongWireType (found expected : WireType)
  | underflow
  | lengthExceeded
  | unexpectedEndGroup
  | recursionLimit
  | notText
  deriving DecidableEq, Repr

namespace Reason

def message : Reason → String
  | invalidVarint => "invalid varint"
  | invalidKey value => "invalid key value: " ++ toString value
  | invalidWireType value => "invalid wire type value: " ++ toString value
  | zeroTag => "invalid tag value: 0"
  | wrongWireType found expected =>
    "invalid wire type: " ++ found.name ++ " (expected " ++ expected.name ++ ")"
  | underflow => "buffer underflow"
  | lengthExceeded => "delimited length exceeded"
  | unexpectedEndGroup => "unexpected end group tag"
  | recursionLimit => "recursion limit reached"
  | notText => "invalid string value: data is not UTF-8 encoded"

end Reason

/-- A field by the name of its record and its own. -/
structure FieldName where
  record : String
  field : String
  deriving DecidableEq, Repr

structure Fault where
  /-- The fields around the faulty place, innermost first. -/
  path : List FieldName
  reason : Reason
  deriving DecidableEq, Repr

namespace Fault

/-- The same fault, seen from outside a field that encloses it. -/
def within (name : FieldName) (fault : Fault) : Fault :=
  { fault with path := fault.path ++ [name] }

def message (fault : Fault) : String :=
  "failed to decode Protobuf message: "
    ++ String.join (fault.path.map fun name => name.record ++ "." ++ name.field ++ ": ")
    ++ fault.reason.message

end Fault
end Wire
end PeerDiscovery
