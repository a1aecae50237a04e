import PeerDiscovery.Proofs.Wire.Denotation

/-! What is written, as fields.
A part of an encoded record is a field, or nothing where the value is the default, and bytes have one reading as fields
(`IsFields.unique`). A part is no field if its length cannot be written with 64 bits (`not_isFields_block`), and then
nothing around it helps (`IsFields.of_append`). -/
namespace PeerDiscovery
namespace Wire

variable {levels tag : Nat}

theorem length_le_encodeBlock (tag : Nat) (bytes : Bytes) : bytes.length ≤ (encodeBlock tag bytes).length := by
  simp only [encodeBlock, List.length_append]
  omega

theorem length_le_encodeBytes (tag : Nat) (bytes : Bytes) : bytes.length ≤ (encodeBytes tag bytes).length := by
  unfold encodeBytes
  split
  · next h => simp [h]
  · exact length_le_encodeBlock tag bytes

theorem encodeBytes_of_le {tag : Nat} {bytes : Bytes} (h : UInt64.size ≤ bytes.length) :
    encodeBytes tag bytes = encodeBlock tag bytes := by
  unfold encodeBytes
  rw [if_neg]
  rintro rfl
  cases h

theorem length_le_encodeText (tag : Nat) (text : String) :
    (Bytes.ofText text).length ≤ (encodeText tag text).length := length_le_encodeBytes tag _

theorem Varint.read?_encode_of_le {room n : Nat} (h : 2 * Nat.pow 128 room ≤ n) (rest : Bytes) :
    read? (room + 1) (.of (encode n ++ rest)) = none := by
  induction room generalizing n with
  | zero =>
    replace h : 2 ≤ n := h
    by_cases hn : n < 128
    · have hb : (UInt8.ofNat n).toNat = n := by simp [UInt8.toNat_ofNat']; omega
      rw [encode_of_lt hn, List.singleton_append, read?, Input.next?_cons]
      simp only [hb]
      rw [if_pos hn, if_pos ⟨trivial, h⟩]
    · have hb : (UInt8.ofNat (n % 128 + 128)).toNat = n % 128 + 128 := by
        simp [UInt8.toNat_ofNat']; omega
      rw [encode_of_le (by omega), List.cons_append, read?, Input.next?_cons]
      simp only [hb]
      rw [if_neg (by omega), read?, Option.map_none]
  | succ room ih =>
    have hpow : 128 * (2 * Nat.pow 128 room) ≤ n := by
      have hp : Nat.pow 128 (room + 1) = Nat.pow 128 room * 128 := rfl
      omega
    have hpos : 0 < Nat.pow 128 room := Nat.pow_pos (by decide)
    have hb : (UInt8.ofNat (n % 128 + 128)).toNat = n % 128 + 128 := by
      simp [UInt8.toNat_ofNat']; omega
    rw [encode_of_le (by omega), List.cons_append, read?, Input.next?_cons]
    simp only [hb]
    rw [if_neg (by omega), ih (by omega), Option.map_none]

namespace Reader

theorem run_varint_encode_of_le {n : Nat} (h : UInt64.size ≤ n) (rest : Bytes) :
    varint.run (.of (Varint.encode n ++ rest)) = .error ⟨[], .invalidVarint⟩ := by
  have hr : Varint.read? 10 (.of (Varint.encode n ++ rest)) = none :=
    Varint.read?_encode_of_le (show 2 * Nat.pow 128 9 ≤ n from h) rest
  simp only [varint, hr]

theorem ofNat_toNat_emod (n : Int32) : Int32.ofNat (n.toInt % UInt64.size).toNat = n := by
  have hs : (UInt64.size : Int) = 18446744073709551616 := rfl
  have hl := n.le_toInt
  have hu := n.toInt_lt
  apply Int32.toInt.inj
  have hnn : 0 ≤ n.toInt % UInt64.size := Int.emod_nonneg _ (by omega)
  have hs' : (Int32.size : Int) = 4294967296 := rfl
  rw [← Int32.ofInt_eq_ofNat, Int32.toInt_ofInt, Int.toNat_of_nonneg hnn, Int.bmod_def, hs, hs']
  omega

end Reader

theorem isVarint_encode {n : Nat} (h : n < UInt64.size) : IsVarint (Varint.encode n) n := by
  obtain ⟨digits, hd, hn⟩ := (Reader.reads_varint _ _ _).1 (Reader.run_varint_encode h [])
  rwa [List.append_cancel_right hd]

theorem isKey_encode {k : Key} (h : 0 < k.tag) (h' : 8 * k.tag < UInt32.size) : IsKey k.encode k := by
  obtain ⟨digits, hd, hk⟩ := (Reader.reads_key _ _ _).1 (Reader.run_key_encode h h' [])
  rwa [List.append_cancel_right hd]

theorem Sequence.append {Laid : Key → Value → Bytes → Prop} {items items' : List Item} {bytes bytes' : Bytes}
    (h : Sequence Laid items bytes) (h' : Sequence Laid items' bytes') :
    Sequence Laid (items ++ items') (bytes ++ bytes') := by
  induction h with
  | nil => exact h'
  | cons hk hv _ ih =>
    rw [List.cons_append, List.append_assoc]
    exact .cons hk hv ih

theorem IsFields.append {items items' : List Item} {bytes bytes' : Bytes} (h : IsFields levels items bytes)
    (h' : IsFields levels items' bytes') : IsFields levels (items ++ items') (bytes ++ bytes') :=
  Sequence.append h h'

theorem isFields_field {k : Key} {v : Value} {part : Bytes} (ht : 0 < k.tag) (ht' : 8 * k.tag < UInt32.size)
    (hv : IsScalar k.wireType v part) : IsFields (levels + 1) [⟨k.tag, v⟩] (k.encode ++ part) := by
  have hvalue : IsValue (levels + 1) k v part := .inl hv
  have hfield := Sequence.cons (isKey_encode ht ht') hvalue .nil
  rwa [List.append_nil] at hfield

def bytesFields (tag : Nat) (bytes : Bytes) : List Item :=
  if bytes = [] then [] else [⟨tag, .block bytes⟩]

def textFields (tag : Nat) (text : String) : List Item := bytesFields tag (.ofText text)

def int32Fields (tag : Nat) (n : Int32) : List Item :=
  if n = 0 then [] else [⟨tag, .varint (n.toInt % UInt64.size).toNat⟩]

theorem isFields_block (ht : 0 < tag) (ht' : 8 * tag < UInt32.size) {bytes : Bytes} (h : bytes.length < UInt64.size) :
    IsFields (levels + 1) [⟨tag, .block bytes⟩] (encodeBlock tag bytes) := by
  rw [encodeBlock, List.append_assoc]
  exact isFields_field (k := ⟨tag, .lengthDelimited⟩) ht ht' (.block (isVarint_encode h))

theorem isFields_bytes (ht : 0 < tag) (ht' : 8 * tag < UInt32.size) {bytes : Bytes} (h : bytes.length < UInt64.size) :
    IsFields (levels + 1) (bytesFields tag bytes) (encodeBytes tag bytes) := by
  unfold bytesFields encodeBytes
  split
  · exact .nil
  · exact isFields_block ht ht' h

theorem isFields_text (ht : 0 < tag) (ht' : 8 * tag < UInt32.size) {text : String}
    (h : (Bytes.ofText text).length < UInt64.size) :
    IsFields (levels + 1) (textFields tag text) (encodeText tag text) :=
  isFields_bytes ht ht' h

theorem isFields_int32 (ht : 0 < tag) (ht' : 8 * tag < UInt32.size) (n : Int32) :
    IsFields (levels + 1) (int32Fields tag n) (encodeInt32 tag n) := by
  have hs : (UInt64.size : Int) = 18446744073709551616 := rfl
  have hlt : (n.toInt % UInt64.size).toNat < UInt64.size := by
    have hh : n.toInt % UInt64.size < UInt64.size := Int.emod_lt_of_pos _ (by omega)
    omega
  unfold int32Fields encodeInt32
  split
  · exact .nil
  · exact isFields_field (k := ⟨tag, .varint⟩) ht ht' (.varint (isVarint_encode hlt))

theorem IsScalar.unique {wireType : WireType} {v v' : Value} {part : Bytes} (h : IsScalar wireType v part)
    (h' : IsScalar wireType v' part) : v = v' := by
  cases h with
  | varint hn =>
    cases h' with
    | varint hn' => rw [← hn.value, ← hn'.value]
  | sixtyFourBit | thirtyTwoBit =>
    cases h'
    rfl
  | @block digits bytes hn =>
    generalize hp : digits ++ bytes = part at h'
    cases h' with
    | block hn' =>
      obtain ⟨-, rfl, -⟩ := Reader.reads_varint.unambiguous hp hn hn'
      rfl

theorem IsValue.unique {k : Key} {v v' : Value} {part : Bytes} (h : IsValue levels k v part)
    (h' : IsValue levels k v' part) : v = v' := by
  cases levels with
  | zero => exact h.elim
  | succ levels =>
    rcases h with h | ⟨hstart, rfl, -⟩
    · rcases h' with h' | ⟨hstart, -⟩
      · exact h.unique h'
      · rw [hstart] at h
        cases h
    · rcases h' with h' | ⟨-, rfl, -⟩
      · rw [hstart] at h'
        cases h'
      · rfl

/-- Bytes that begin with fields are read as these fields and those that stand behind them. -/
theorem IsFields.of_append {items items' : List Item} {bytes rest : Bytes} (h : IsFields levels items bytes)
    (h' : IsFields levels items' (bytes ++ rest)) : ∃ items'', items' = items ++ items'' ∧ IsFields levels items'' rest := by
  unfold IsFields at h
  induction h generalizing items' with
  | nil => exact ⟨items', rfl, h'⟩
  | @cons head part bytes k v items hk hv _ ih =>
    unfold IsFields at h'
    generalize hb : head ++ part ++ bytes ++ rest = all at h'
    cases h' with
    | nil => exact absurd (by simpa using hb) (fun h : head = [] ∧ _ => hk.ne_nil h.1)
    | @cons head' part' bytes' k' v' items' hk' hv' hs' =>
      simp only [List.append_assoc] at hb
      obtain ⟨-, hb, rfl⟩ := Reader.reads_key.unambiguous hb hk hk'
      obtain ⟨rfl, hb, -⟩ := (Reader.reads_skip levels k).unambiguous (b := ()) (c := ()) hb ⟨v, hv⟩ ⟨v', hv'⟩
      subst hb
      obtain ⟨items'', rfl, hf⟩ := ih hs'
      exact ⟨items'', by rw [hv.unique hv', List.cons_append], hf⟩

theorem IsFields.eq_nil {items : List Item} (h : IsFields levels items []) : items = [] := by
  unfold IsFields at h
  generalize hb : ([] : Bytes) = bytes at h
  cases h with
  | nil => rfl
  | @cons head _ _ _ _ _ hk => exact absurd (by simpa using hb) (fun h : head = [] ∧ _ => hk.ne_nil h.1)

theorem IsFields.unique {items items' : List Item} {bytes : Bytes} (h : IsFields levels items bytes)
    (h' : IsFields levels items' bytes) : items = items' := by
  rw [← List.append_nil bytes] at h'
  obtain ⟨items'', rfl, hf⟩ := h.of_append h'
  rw [hf.eq_nil, List.append_nil]

/-- A value whose length is too great cannot be read, whatever its tag. -/
theorem not_isFields_block (ht : 0 < tag) (ht' : 8 * tag < UInt32.size) {bytes : Bytes} (h : UInt64.size ≤ bytes.length)
    (rest : Bytes) (items : List Item) : ¬IsFields levels items (encodeBlock tag bytes ++ rest) := by
  intro hf
  have hkey : IsKey (Key.encode ⟨tag, .lengthDelimited⟩) ⟨tag, .lengthDelimited⟩ := isKey_encode ht ht'
  unfold IsFields at hf
  generalize hb : encodeBlock tag bytes ++ rest = all at hf
  simp only [encodeBlock, List.append_assoc] at hb
  cases hf with
  | nil => exact hkey.ne_nil (List.append_eq_nil_iff.1 hb).1
  | @cons head part bytes' k v items hk hv _ =>
    rw [List.append_assoc] at hb
    obtain ⟨-, hb, rfl⟩ := Reader.reads_key.unambiguous hb hkey hk
    have hread := Reader.run_varint_encode_of_le h (bytes ++ rest)
    cases levels with
    | zero => exact hv
    | succ levels =>
      rcases hv with hv | ⟨hstart, -⟩
      · cases hv with
        | block hn =>
          rw [List.append_assoc] at hb
          exact Reader.reads_varint.not_form_of_error hread hb hn
      · cases hstart

theorem not_isFields_bytes (ht : 0 < tag) (ht' : 8 * tag < UInt32.size) {bytes : Bytes} (h : UInt64.size ≤ bytes.length)
    (rest : Bytes) (items : List Item) : ¬IsFields levels items (encodeBytes tag bytes ++ rest) := by
  rw [encodeBytes_of_le h]
  exact not_isFields_block ht ht' h rest items

theorem valuesOf_append (tag : Nat) (items items' : List Item) :
    valuesOf tag (items ++ items') = valuesOf tag items ++ valuesOf tag items' := by
  simp [valuesOf]

section

variable {tag' : Nat} (h : tag' ≠ tag)
include h

@[simp] theorem valuesOf_bytesFields_of_ne (bytes : Bytes) : valuesOf tag (bytesFields tag' bytes) = [] := by
  unfold bytesFields
  split <;> simp [valuesOf_cons, h]

@[simp] theorem valuesOf_textFields_of_ne (text : String) : valuesOf tag (textFields tag' text) = [] :=
  valuesOf_bytesFields_of_ne h _

@[simp] theorem valuesOf_int32Fields_of_ne (n : Int32) : valuesOf tag (int32Fields tag' n) = [] := by
  unfold int32Fields
  split <;> simp [valuesOf_cons, h]

end

theorem last_bytesFields (tag : Nat) (bytes : Bytes) :
    Last Value.IsBytes (valuesOf tag (bytesFields tag bytes)) [] bytes := by
  unfold bytesFields
  split <;> simp [valuesOf_cons, Value.IsBytes, *]

theorem last_textFields (tag : Nat) (text : String) :
    Last Value.IsText (valuesOf tag (textFields tag text)) "" text := by
  unfold textFields bytesFields
  split
  · next h =>
    have ht : text = "" := Bytes.ofText_injective h
    simp [ht]
  · simp [valuesOf_cons, Value.IsText]

theorem last_int32Fields (tag : Nat) (n : Int32) : Last Value.IsInt32 (valuesOf tag (int32Fields tag n)) 0 n := by
  unfold int32Fields
  split
  · next h => simp [h]
  · simpa [valuesOf_cons, Value.IsInt32] using (Reader.ofNat_toNat_emod n).symm

end Wire
end PeerDiscovery
