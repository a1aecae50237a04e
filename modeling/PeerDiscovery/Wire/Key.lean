import PeerDiscovery.Wire.Varint

/-! The key in front of every field: its tag and the wire type of its value.
A key is the number `8 * tag + code`, and `run_key_encode` says that it reads back. -/
namespace PeerDiscovery
namespace Wire

structure Key where
  tag : Nat
  wireType : WireType
  deriving DecidableEq, Repr

namespace Key

def encode (key : Key) : Bytes := Varint.encode (8 * key.tag + key.wireType.code)

/-- The key that a number stands for. Tags have 29 bits and start at 1. -/
def ofNat (n : Nat) : Except Reason Key :=
  if UInt32.size ≤ n then .error (.invalidKey n)
  else
    match WireType.ofCode? (n % 8) with
    | none => .error (.invalidWireType (n % 8))
    | some wireType => if n / 8 = 0 then .error .zeroTag else .ok ⟨n / 8, wireType⟩

theorem ofNat_eq_ok {tag : Nat} (h : 0 < tag) (h' : 8 * tag < UInt32.size) (wireType : WireType) :
    ofNat (8 * tag + wireType.code) = .ok ⟨tag, wireType⟩ := by
  have hc := wireType.code_lt
  have hs : UInt32.size = 4294967296 := rfl
  have hm : (8 * tag + wireType.code) % 8 = wireType.code := by omega
  have hd : (8 * tag + wireType.code) / 8 = tag := by omega
  rw [ofNat, if_neg (by omega), hm, WireType.ofCode?_code, hd]
  simp only
  rw [if_neg (by omega)]

end Key

namespace Reader

def key : Reader Key := do
  let n ← varint
  match Key.ofNat n with
  | .ok k => pure k
  | .error reason => fail reason

theorem size_of_key {i j : Input} {k : Key} (h : key.run i = .ok (k, j)) : j.size < i.size := by
  cases hv : varint.run i with
  | error e =>
    rw [key, run_bind_error hv] at h
    cases h
  | ok p =>
    rw [key, run_bind_ok hv] at h
    have := size_of_varint hv
    split at h
    · simp only [run_pure, Except.ok.injEq, Prod.mk.injEq] at h
      obtain ⟨-, rfl⟩ := h
      exact this
    · simp at h

theorem run_key_encode {k : Key} (h : 0 < k.tag) (h' : 8 * k.tag < UInt32.size) (rest : Bytes) :
    key.run (.of (k.encode ++ rest)) = .ok (k, .of rest) := by
  have hc := k.wireType.code_lt
  have hs : UInt32.size = 4294967296 := rfl
  have hs' : UInt64.size = 18446744073709551616 := rfl
  rw [key, Key.encode, run_bind_ok (run_varint_encode (by omega) rest), Key.ofNat_eq_ok h h']
  rfl

end Reader
end Wire
end PeerDiscovery
