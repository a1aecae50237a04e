import PeerDiscovery.Wire.Reader

/-! Numbers below 2⁶⁴ in base 128, least significant digit first.
Every byte but the last has its high bit set. A number takes at most ten bytes, the tenth of which
is 0 or 1. `run_varint_encode` says that a written number reads back and that nothing after it is
touched. -/
namespace PeerDiscovery
namespace Wire
namespace Varint

/-- The base-128 digits of a number. -/
def encode (n : Nat) : Bytes :=
  if n < 128 then [UInt8.ofNat n] else UInt8.ofNat (n % 128 + 128) :: encode (n / 128)
termination_by n

theorem encode_of_lt {n : Nat} (h : n < 128) : encode n = [UInt8.ofNat n] := by
  rw [encode, if_pos h]

theorem encode_of_le {n : Nat} (h : 128 ≤ n) :
    encode n = UInt8.ofNat (n % 128 + 128) :: encode (n / 128) := by
  rw [encode, if_neg (by omega)]

/-- Reads a number of at most `room` bytes; the last byte that there is room for is 0 or 1. -/
def read? : Nat → Input → Option (Nat × Input)
  | 0, _ => none
  | room + 1, i =>
    match i.next? with
    | none => none
    | some (b, j) =>
      if b.toNat < 128 then if room = 0 ∧ 2 ≤ b.toNat then none else some (b.toNat, j)
      else (read? room j).map fun (n, k) => (b.toNat - 128 + 128 * n, k)

theorem size_of_read? {room n : Nat} {i j : Input} (h : read? room i = some (n, j)) :
    j.size < i.size := by
  induction room generalizing n i with
  | zero => simp [read?] at h
  | succ room ih =>
    rw [read?] at h
    split at h
    · simp at h
    · rename_i b k hk
      have hs := Input.size_of_next? hk
      split at h
      · split at h
        · simp at h
        · simp only [Option.some.injEq, Prod.mk.injEq] at h
          obtain ⟨-, rfl⟩ := h
          omega
      · obtain ⟨⟨m, l⟩, hm, he⟩ := Option.map_eq_some_iff.1 h
        simp only [Prod.mk.injEq] at he
        obtain ⟨-, rfl⟩ := he
        have := ih hm
        omega

/-- A number of `room` base-128 digits, the topmost of them 0 or 1, reads back. -/
theorem read?_encode {room n : Nat} (h : n < 2 * Nat.pow 128 room) (rest : Bytes) :
    read? (room + 1) (.of (encode n ++ rest)) = some (n, .of rest) := by
  induction room generalizing n with
  | zero =>
    replace h : n < 2 := h
    have hn : (UInt8.ofNat n).toNat = n := by simp [UInt8.toNat_ofNat']; omega
    rw [encode_of_lt (by omega), List.singleton_append, read?, Input.next?_cons]
    simp only [hn]
    rw [if_pos (by omega), if_neg (by omega)]
  | succ room ih =>
    by_cases hn : n < 128
    · have hb : (UInt8.ofNat n).toNat = n := by simp [UInt8.toNat_ofNat']; omega
      rw [encode_of_lt hn, List.singleton_append, read?, Input.next?_cons]
      simp only [hb]
      rw [if_pos hn, if_neg (by omega)]
    · have hb : (UInt8.ofNat (n % 128 + 128)).toNat = n % 128 + 128 := by
        simp [UInt8.toNat_ofNat']; omega
      have hd : n / 128 < 2 * Nat.pow 128 room := by
        rw [Nat.div_lt_iff_lt_mul (by decide), Nat.mul_assoc]
        exact h
      rw [encode_of_le (by omega), List.cons_append, read?, Input.next?_cons]
      simp only [hb]
      rw [if_neg (by omega), ih hd]
      simp only [Option.map_some, Option.some.injEq, Prod.mk.injEq, and_true]
      omega

end Varint

namespace Reader

def varint : Reader Nat where
  run i :=
    match Varint.read? 10 i with
    | some (n, j) => .ok (n, j)
    | none => .error ⟨[], .invalidVarint⟩
  size_le {i j n} h := by
    cases hi : Varint.read? 10 i with
    | none => simp [hi] at h
    | some p =>
      obtain ⟨m, k⟩ := p
      have := Varint.size_of_read? hi
      simp only [hi, Except.ok.injEq, Prod.mk.injEq] at h
      obtain ⟨-, rfl⟩ := h
      omega

theorem size_of_varint {i j : Input} {n : Nat} (h : varint.run i = .ok (n, j)) : j.size < i.size := by
  cases hi : Varint.read? 10 i with
  | none => simp [varint, hi] at h
  | some p =>
    obtain ⟨m, k⟩ := p
    have := Varint.size_of_read? hi
    simp only [varint, hi, Except.ok.injEq, Prod.mk.injEq] at h
    obtain ⟨-, rfl⟩ := h
    omega

theorem run_varint_encode {n : Nat} (h : n < UInt64.size) (rest : Bytes) :
    varint.run (.of (Varint.encode n ++ rest)) = .ok (n, .of rest) := by
  have hr : Varint.read? 10 (.of (Varint.encode n ++ rest)) = some (n, .of rest) :=
    Varint.read?_encode (show n < 2 * Nat.pow 128 9 from h) rest
  simp only [varint, hr]

end Reader
end Wire
end PeerDiscovery
