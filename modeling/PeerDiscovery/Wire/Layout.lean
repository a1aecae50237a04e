import PeerDiscovery.Wire.Skip

/-! Records as lists of tagged fields.
A layout names the fields of a record by tag, says how each is read into it and how the whole is
written. Fields may come in any order; of a field that comes twice the last one counts, unless it
is repeated; a field that the layout does not have is passed over. -/
namespace PeerDiscovery
namespace Wire

namespace Reader

def expect (found expected : WireType) : Reader Unit :=
  require (found = expected) (.wrongWireType found expected)

/-- A signed number: the low 32 bits of what is written. -/
def int32 (found : WireType) : Reader Int32 := do
  expect found .varint
  return Int32.ofNat (← varint)

def bytes (found : WireType) : Reader Bytes := do
  expect found .lengthDelimited
  block (← varint)

def text (found : WireType) : Reader String := do
  match (← bytes found).toText? with
  | some t => pure t
  | none => fail .notText

end Reader

structure Field (α : Type) where
  name : String
  /-- Reads a value into a record, where so many levels of nesting are left. -/
  merge : Nat → WireType → α → Reader α

namespace Field

variable {α : Type}

def int32 (name : String) (set : Int32 → α → α) : Field α :=
  ⟨name, fun _ found record => do return set (← Reader.int32 found) record⟩

def bytes (name : String) (set : Bytes → α → α) : Field α :=
  ⟨name, fun _ found record => do return set (← Reader.bytes found) record⟩

def text (name : String) (set : String → α → α) : Field α :=
  ⟨name, fun _ found record => do return set (← Reader.text found) record⟩

end Field

structure Layout (α : Type) where
  name : String
  /-- The record without any field. -/
  blank : α
  field? : Nat → Option (Field α)
  encode : α → Bytes

namespace Layout

variable {α : Type}

def levels : Nat := 100

/-- Reads what a key announces into a record. -/
def value (layout : Layout α) (levels : Nat) (k : Key) (record : α) : Reader α :=
  match layout.field? k.tag with
  | some field => (field.merge levels k.wireType record).inField ⟨layout.name, field.name⟩
  | none => do
    Reader.skip levels k
    pure record

/-- Reads fields until only `stop` bytes are left or fewer. -/
def reader (layout : Layout α) (levels stop : Nat) : Reader α :=
  Reader.fields Reader.key Reader.size_of_key (layout.value levels) stop layout.blank

def decode (layout : Layout α) (bytes : Bytes) : Except Fault α :=
  match (layout.reader levels 0).run (.of bytes) with
  | .ok (record, _) => .ok record
  | .error fault => .error fault

/-- Reads a record that stands inside another one. Its fields must end where its length says. -/
def nested (layout : Layout α) (levels : Nat) (found : WireType) : Reader α := do
  Reader.expect found .lengthDelimited
  Reader.require (levels ≠ 0) .recursionLimit
  let length ← Reader.varint
  let size ← Reader.remaining
  Reader.require (length ≤ size) .underflow
  let record ← layout.reader (levels - 1) (size - length)
  let left ← Reader.remaining
  Reader.require (left = size - length) .lengthExceeded
  return record

end Layout

def Field.repeated {α : Type} (name : String) (layout : Layout α) : Field (List α) :=
  ⟨name, fun levels found records => do return records ++ [← layout.nested levels found]⟩

def encodeBlock (tag : Nat) (bytes : Bytes) : Bytes :=
  Key.encode ⟨tag, .lengthDelimited⟩ ++ Varint.encode bytes.length ++ bytes

def encodeBytes (tag : Nat) (bytes : Bytes) : Bytes :=
  if bytes = [] then [] else encodeBlock tag bytes

def encodeText (tag : Nat) (text : String) : Bytes := encodeBytes tag (.ofText text)

/-- Nothing for 0; a negative number is written with 64 bits. -/
def encodeInt32 (tag : Nat) (n : Int32) : Bytes :=
  if n = 0 then []
  else Key.encode ⟨tag, .varint⟩ ++ Varint.encode (n.toInt % UInt64.size).toNat

end Wire
end PeerDiscovery
