import PeerDiscovery.Bytes

/-! Identities of nodes: 16 bytes, ordered as byte strings. -/
namespace PeerDiscovery

structure PeerId where
  bytes : Bytes
  length_eq : bytes.length = 16
  deriving DecidableEq

namespace PeerId

@[ext] theorem ext {p q : PeerId} (h : p.bytes = q.bytes) : p = q := by
  cases p
  cases q
  simpa using h

def ofBytes? (bytes : Bytes) : Option PeerId :=
  if h : bytes.length = 16 then some ⟨bytes, h⟩ else none

@[simp] theorem ofBytes?_bytes (p : PeerId) : ofBytes? p.bytes = some p := by
  simp [ofBytes?, p.length_eq]

theorem ofBytes?_eq_some {bytes : Bytes} {p : PeerId} (h : ofBytes? bytes = some p) : p.bytes = bytes := by
  simp only [ofBytes?] at h
  split at h
  · simp only [Option.some.injEq] at h
    rw [← h]
  · cases h

theorem ofBytes?_eq_none_iff {bytes : Bytes} : ofBytes? bytes = none ↔ bytes.length ≠ 16 := by
  simp [ofBytes?]

/-- The identity that 16 random bytes make: a UUID of version 4 and of the usual variant. -/
def ofRandom? (random : Bytes) : Option PeerId :=
  ofBytes? ((random.modify 6 fun b => b &&& 0x0f ||| 0x40).modify 8 fun b => b &&& 0x3f ||| 0x80)

def text (p : PeerId) : String := Bytes.hex p.bytes

def shortText (p : PeerId) : String := Bytes.hex (p.bytes.take 4)

instance : Repr PeerId := ⟨fun p _ => "PeerId(" ++ p.text ++ ")"⟩

/-- The text that tells an identity from other values. -/
def debugText (p : PeerId) : String := "PeerId(" ++ p.text ++ ")"

instance : LT PeerId := ⟨fun p q => p.bytes < q.bytes⟩

instance (p q : PeerId) : Decidable (p < q) := inferInstanceAs (Decidable (p.bytes < q.bytes))

end PeerId
end PeerDiscovery
