import PeerDiscovery.Proofs.Envelope

/-! How long what is written can be.
What stands around a value takes at most eleven bytes, so an envelope is not much longer than its parts
(`Envelope.length_encode_le`). -/
namespace PeerDiscovery

theorem Bytes.length_ofText_le (text : String) : (ofText text).length ≤ 4 * text.toList.length := by
  have h : ∀ chars : List Char, chars.utf8Encode.size ≤ 4 * chars.length := by
    intro chars
    induction chars with
    | nil => exact Nat.le_refl 0
    | cons c chars ih =>
      have hc := Char.utf8Size_le_four c
      rw [List.utf8Encode_cons, ByteArray.size_append, List.utf8Encode_singleton, List.size_toByteArray,
        String.length_utf8EncodeChar, List.length_cons]
      omega
  have htext := h text.toList
  rwa [String.utf8Encode_toList] at htext

namespace Wire

theorem Varint.length_encode_le {room n : Nat} (h : n < Nat.pow 128 (room + 1)) : (encode n).length ≤ room + 1 := by
  induction room generalizing n with
  | zero => exact Nat.le_of_eq (congrArg List.length (encode_of_lt h))
  | succ room ih =>
    by_cases hn : n < 128
    · rw [encode_of_lt hn, List.length_singleton]
      omega
    · have hd : n / 128 < Nat.pow 128 (room + 1) := Nat.div_lt_of_lt_mul (Nat.mul_comm .. ▸ h)
      rw [encode_of_le (Nat.le_of_not_lt hn), List.length_cons]
      exact Nat.succ_le_succ (ih hd)

theorem Varint.length_encode_le_ten {n : Nat} (h : n < UInt64.size) : (encode n).length ≤ 10 :=
  length_encode_le (Nat.lt_of_lt_of_le h (by decide))

theorem Key.length_encode {k : Key} (h : k.tag < 16) : k.encode.length = 1 := by
  have hc := k.wireType.code_lt
  rw [encode, Varint.encode_of_lt (by omega), List.length_singleton]

variable {tag : Nat}

theorem length_encodeBlock_le (ht : tag < 16) {bytes : Bytes} (h : bytes.length < UInt64.size) :
    (encodeBlock tag bytes).length ≤ bytes.length + 11 := by
  have hk := Key.length_encode (k := ⟨tag, .lengthDelimited⟩) ht
  have hv := Varint.length_encode_le_ten h
  rw [encodeBlock, List.length_append, List.length_append]
  omega

theorem length_encodeBytes_le (ht : tag < 16) {bytes : Bytes} (h : bytes.length < UInt64.size) :
    (encodeBytes tag bytes).length ≤ bytes.length + 11 := by
  unfold encodeBytes
  split
  · exact Nat.zero_le _
  · exact length_encodeBlock_le ht h

theorem length_encodeInt32_le (ht : tag < 16) (n : Int32) : (encodeInt32 tag n).length ≤ 11 := by
  have hs : (UInt64.size : Int) = 18446744073709551616 := rfl
  have hlt : n.toInt % UInt64.size < UInt64.size := Int.emod_lt_of_pos _ (by omega)
  have hk := Key.length_encode (k := ⟨tag, .varint⟩) ht
  have hv := Varint.length_encode_le_ten (n := (n.toInt % UInt64.size).toNat) (by omega)
  unfold encodeInt32
  split
  · exact Nat.zero_le _
  · rw [List.length_append]
    omega

theorem HelloRecord.length_encode_le (r : HelloRecord) (h : (Bytes.ofText r.address).length < UInt64.size) :
    (layout.encode r).length ≤ (Bytes.ofText r.address).length + 22 := by
  have ha : (encodeText 1 r.address).length ≤ (Bytes.ofText r.address).length + 11 :=
    length_encodeBytes_le (by decide) h
  have hp : (encodeInt32 2 r.port).length ≤ 11 := length_encodeInt32_le (by decide) r.port
  rw [layout, List.length_append]
  omega

theorem EnvelopeRecord.length_encode_le {r : EnvelopeRecord} (h : r.Writable) :
    (layout.encode r).length ≤
      r.id.length + r.message.length + (r.sender.getD []).length + (Bytes.ofText r.token).length + 55 := by
  have hid : (encodeBytes 1 r.id).length ≤ r.id.length + 11 := length_encodeBytes_le (by decide) h.id
  have htype : (encodeInt32 2 r.type).length ≤ 11 := length_encodeInt32_le (by decide) r.type
  have hmessage : (encodeBytes 3 r.message).length ≤ r.message.length + 11 := length_encodeBytes_le (by decide) h.message
  have hsender : (encodeSender r.sender).length ≤ (r.sender.getD []).length + 11 := by
    cases hs : r.sender with
    | none => exact Nat.zero_le _
    | some sender => exact length_encodeBlock_le (by decide) (h.sender sender hs)
  have htoken : (encodeText 5 r.token).length ≤ (Bytes.ofText r.token).length + 11 :=
    length_encodeBytes_le (by decide) h.token
  rw [encode_eq]
  simp only [List.length_append]
  omega

end Wire

theorem Envelope.length_encode_le {e : Envelope} (h : e.Writable) :
    e.encode.length ≤
      e.message.encode.length + (e.sender.getD []).length + (Bytes.ofText e.token).length + 63 := by
  have hl := Wire.EnvelopeRecord.length_encode_le ((writable_record_iff e).2 h)
  have hid : e.record.id.length = 8 := Bytes.length_toBigEndian 8 _
  rw [hid] at hl
  exact Nat.le_trans hl (by simp only [record]; omega)

end PeerDiscovery
