import Mathlib.Data.List.Forall2
import Mathlib.Data.Nat.Digits.Defs
import Mathlib.Tactic.MkIffOfInductiveProp
import PeerDiscovery.Wire.Record

/-! The form of encoded records, without a word about how they are read.
A record is written as its fields, one behind the other in any order. A field is a key and a value; the key has the
tag and says how the value is laid out. What a record says follows from the values under each of its tags: the last
one counts, or all of them where the field is repeated, and the default where there is none. Under a tag that the
record does not have any value may stand. -/
namespace PeerDiscovery
namespace Wire

/-- Every byte but the last is marked by its high bit. -/
def Marked (digits : Bytes) : Prop :=
  ∃ init last, digits = init ++ [last] ∧ (∀ b ∈ init, 128 ≤ b.toNat) ∧ last.toNat < 128

/-- What bytes denote in base 128, the least significant one first, without their high bits. -/
def base128 (digits : Bytes) : Nat := Nat.ofDigits 128 (digits.map fun b => b.toNat % 128)

/-- The digits of a number of 64 bits. There may be needless zeros at their end, up to ten digits in all. -/
structure IsVarint (digits : Bytes) (n : Nat) : Prop where
  marked : Marked digits
  value : base128 digits = n
  length_le : digits.length ≤ 10
  lt : n < UInt64.size

structure IsKey (digits : Bytes) (k : Key) : Prop where
  varint : IsVarint digits (8 * k.tag + k.wireType.code)
  pos : 0 < k.tag
  lt : 8 * k.tag + k.wireType.code < UInt32.size

/-- What stands behind a key. Of a group nothing is kept, for no record has one. -/
inductive Value where
  | varint (n : Nat)
  | fixed (bytes : Bytes)
  | block (bytes : Bytes)
  | group
  deriving DecidableEq, Repr

/-- How a value that is no group is laid out. -/
inductive IsScalar : WireType → Value → Bytes → Prop
  | varint {digits : Bytes} {n : Nat} : IsVarint digits n → IsScalar .varint (.varint n) digits
  | sixtyFourBit {bytes : Bytes} : bytes.length = 8 → IsScalar .sixtyFourBit (.fixed bytes) bytes
  | thirtyTwoBit {bytes : Bytes} : bytes.length = 4 → IsScalar .thirtyTwoBit (.fixed bytes) bytes
  | block {digits bytes : Bytes} : IsVarint digits bytes.length →
    IsScalar .lengthDelimited (.block bytes) (digits ++ bytes)

structure Item where
  tag : Nat
  value : Value
  deriving DecidableEq, Repr

/-- Fields one behind the other, each value laid out as `Laid` says. -/
inductive Sequence (Laid : Key → Value → Bytes → Prop) : List Item → Bytes → Prop
  | nil : Sequence Laid [] []
  | cons {head part rest : Bytes} {k : Key} {v : Value} {items : List Item} : IsKey head k → Laid k v part →
    Sequence Laid items rest → Sequence Laid (⟨k.tag, v⟩ :: items) (head ++ part ++ rest)

/-- How a value is laid out where so many levels of nesting are left. A group is a sequence of fields with one level
less, and ends with a key of its own tag. -/
def IsValue : Nat → Key → Value → Bytes → Prop
  | 0, _, _, _ => False
  | levels + 1, k, v, part =>
    IsScalar k.wireType v part ∨
    k.wireType = .startGroup ∧ v = .group ∧ ∃ items body close, part = body ++ close ∧
      Sequence (IsValue levels) items body ∧ IsKey close ⟨k.tag, .endGroup⟩

def IsFields (levels : Nat) (items : List Item) (bytes : Bytes) : Prop := Sequence (IsValue levels) items bytes

def valuesOf (tag : Nat) (items : List Item) : List Value :=
  (items.filter fun i => i.tag = tag).map fun i => i.value

namespace Value

def IsInt32 (v : Value) (n : Int32) : Prop := ∃ m, v = .varint m ∧ n = Int32.ofNat m

def IsBytes (v : Value) (bytes : Bytes) : Prop := v = .block bytes

/-- A text stands as UTF-8. -/
def IsText (v : Value) (text : String) : Prop := v = .block (.ofText text)

def IsSome (v : Value) (bytes? : Option Bytes) : Prop := ∃ bytes, v = .block bytes ∧ bytes? = some bytes

end Value

/-- The last of the values counts, and `default` where there is none. All of them have to be of the kind `R`. -/
def Last {τ : Type} (R : Value → τ → Prop) (values : List Value) (default x : τ) : Prop :=
  ∃ xs, List.Forall₂ R values xs ∧ xs.getLastD default = x

@[mk_iff] structure PairRecord.Updates (a : PairRecord) (items : List Item) (r : PairRecord) : Prop where
  key : Last Value.IsText (valuesOf 1 items) a.key r.key
  value : Last Value.IsText (valuesOf 2 items) a.value r.value

/-- The bytes are the fields of a pair. -/
def PairRecord.Denotes (levels : Nat) (bytes : Bytes) (r : PairRecord) : Prop :=
  ∃ items, IsFields levels items bytes ∧ Updates ⟨"", ""⟩ items r

@[mk_iff] structure HelloRecord.Updates (a : HelloRecord) (items : List Item) (r : HelloRecord) : Prop where
  address : Last Value.IsText (valuesOf 1 items) a.address r.address
  port : Last Value.IsInt32 (valuesOf 2 items) a.port r.port

def HelloRecord.Denotes (bytes : Bytes) (r : HelloRecord) : Prop :=
  ∃ items, IsFields Layout.levels items bytes ∧ Updates ⟨"", 0⟩ items r

def Value.IsPair (levels : Nat) (v : Value) (r : PairRecord) : Prop :=
  ∃ bytes, v = .block bytes ∧ PairRecord.Denotes levels bytes r

def Pairs.Updates (a : List PairRecord) (items : List Item) (pairs : List PairRecord) : Prop :=
  ∃ added, List.Forall₂ (Value.IsPair (Layout.levels - 1)) (valuesOf 1 items) added ∧ a ++ added = pairs

/-- The bytes are the fields of a record with repeated pairs. -/
def Pairs.Denotes (bytes : Bytes) (pairs : List PairRecord) : Prop :=
  ∃ items, IsFields Layout.levels items bytes ∧ Updates [] items pairs

@[mk_iff] structure BeaconRecord.Updates (a : BeaconRecord) (items : List Item) (r : BeaconRecord) : Prop where
  peerId : Last Value.IsBytes (valuesOf 1 items) a.peerId r.peerId
  mailboxPort : Last Value.IsInt32 (valuesOf 2 items) a.mailboxPort r.mailboxPort

def BeaconRecord.Denotes (bytes : Bytes) (r : BeaconRecord) : Prop :=
  ∃ items, IsFields Layout.levels items bytes ∧ Updates ⟨[], 0⟩ items r

@[mk_iff] structure EnvelopeRecord.Updates (a : EnvelopeRecord) (items : List Item) (r : EnvelopeRecord) : Prop where
  id : Last Value.IsBytes (valuesOf 1 items) a.id r.id
  type : Last Value.IsInt32 (valuesOf 2 items) a.type r.type
  message : Last Value.IsBytes (valuesOf 3 items) a.message r.message
  sender : Last Value.IsSome (valuesOf 4 items) a.sender r.sender
  token : Last Value.IsText (valuesOf 5 items) a.token r.token

def EnvelopeRecord.Denotes (bytes : Bytes) (r : EnvelopeRecord) : Prop :=
  ∃ items, IsFields Layout.levels items bytes ∧ Updates ⟨[], 0, [], none, ""⟩ items r

@[simp] theorem valuesOf_nil (tag : Nat) : valuesOf tag [] = [] := rfl

theorem valuesOf_cons (tag : Nat) (i : Item) (items : List Item) :
    valuesOf tag (i :: items) = if i.tag = tag then i.value :: valuesOf tag items else valuesOf tag items := by
  by_cases h : i.tag = tag <;> simp [valuesOf, h]

variable {τ : Type} {R : Value → τ → Prop} {values : List Value} {default x : τ}

@[simp] theorem last_nil : Last R [] default x ↔ x = default := by
  constructor
  · rintro ⟨xs, hx, rfl⟩
    rw [List.forall₂_nil_left_iff.1 hx]
    rfl
  · rintro rfl
    exact ⟨[], .nil, rfl⟩

theorem last_cons {v : Value} : Last R (v :: values) default x ↔ ∃ y, R v y ∧ Last R values y x := by
  constructor
  · rintro ⟨xs, hx, rfl⟩
    obtain ⟨y, ys, hy, hys, rfl⟩ := List.forall₂_cons_left_iff.1 hx
    exact ⟨y, hy, ys, hys, List.getLastD_cons.symm⟩
  · rintro ⟨y, hy, ys, hys, rfl⟩
    exact ⟨y :: ys, .cons hy hys, List.getLastD_cons⟩

@[simp] theorem last_singleton {v : Value} : Last R [v] default x ↔ R v x := by
  simp [last_cons]

/-- What the fields say under a tag can be said by one field after the other. -/
theorem last_valuesOf_cons {tag : Nat} {i : Item} {items : List Item} :
    Last R (valuesOf tag (i :: items)) default x ↔
      ∃ y, Last R (valuesOf tag [i]) default y ∧ Last R (valuesOf tag items) y x := by
  simp only [valuesOf_cons, valuesOf_nil]
  split
  · rw [last_cons]
    simp only [last_singleton]
  · simp only [last_nil, exists_eq_left]

theorem Marked.ne_nil {digits : Bytes} (h : Marked digits) : digits ≠ [] := by
  obtain ⟨init, last, rfl, -⟩ := h
  exact List.append_ne_nil_of_right_ne_nil _ (List.cons_ne_nil last [])

theorem IsKey.ne_nil {digits : Bytes} {k : Key} (h : IsKey digits k) : digits ≠ [] :=
  h.varint.marked.ne_nil

end Wire
end PeerDiscovery
