import PeerDiscovery.Proofs.Wire.Writing

/-! Each of the seven records is written as its fields and reads back: `records_faithful`.
A field stands under its tag where its value is not the default, and the fields stand in the order of their tags. The
only condition is that the lengths in a record can be written with 64 bits, as all can that a machine holds. -/
namespace PeerDiscovery
namespace Wire

namespace Layout

variable {α : Type}

/-- Records of a layout that are writable read back, and all others are refused. No other record is written as a
writable one is, and it stands as its fields. What is written with fewer bytes than 64 bits can count is writable. -/
structure Faithful (layout : Layout α) (Writable : α → Prop) (fields : α → List Item) : Prop where
  writable : ∀ r, (layout.encode r).length < UInt64.size → Writable r
  reads_back : ∀ r, Writable r → layout.decode (layout.encode r) = .ok r
  refused : ∀ r, ¬Writable r → ∃ fault, layout.decode (layout.encode r) = .error fault
  unique : ∀ r, Writable r → ∀ r', layout.encode r' = layout.encode r → r' = r
  laid_out : ∀ r, Writable r → IsFields levels (fields r) (layout.encode r)

variable {layout : Layout α} {Updates : α → List Item → α → Prop} {Writable : α → Prop} {fields : α → List Item}

theorem Follows.faithful (hl : layout.Follows levels Updates)
    (writable : ∀ r, (layout.encode r).length < UInt64.size → Writable r)
    (laid_out : ∀ r, Writable r → IsFields levels (fields r) (layout.encode r))
    (updates : ∀ r, Writable r → Updates layout.blank (fields r) r)
    (not_fields : ∀ r, ¬Writable r → ∀ items, ¬IsFields levels items (layout.encode r)) :
    layout.Faithful Writable fields := by
  have hback : ∀ r, Writable r → layout.decode (layout.encode r) = .ok r := fun r hw =>
    hl.decode_eq_ok_iff.2 ⟨fields r, laid_out r hw, updates r hw⟩
  have hrefused : ∀ r, ¬Writable r → ∃ fault, layout.decode (layout.encode r) = .error fault := by
    intro r hw
    refine (exists_fault_iff fun _ => hl.decode_eq_ok_iff).2 ?_
    rintro ⟨_, items, hf, -⟩
    exact not_fields r hw items hf
  refine ⟨writable, hback, hrefused, fun r hw r' he => ?_, laid_out⟩
  have hread : layout.decode (layout.encode r') = .ok r := by rw [he, hback r hw]
  by_cases hw' : Writable r'
  · exact Except.ok.inj ((hback r' hw').symm.trans hread)
  · obtain ⟨fault, hf⟩ := hrefused r' hw'
    rw [hf] at hread
    cases hread

end Layout

namespace PairRecord

/-- Lengths of 64 bits, as for all that a machine of 64 bits can hold. -/
structure Writable (r : PairRecord) : Prop where
  key : (Bytes.ofText r.key).length < UInt64.size
  value : (Bytes.ofText r.value).length < UInt64.size

def fields (r : PairRecord) : List Item := textFields 1 r.key ++ textFields 2 r.value

theorem isFields_encode {r : PairRecord} (h : r.Writable) (levels : Nat) :
    IsFields (levels + 1) r.fields (layout.encode r) :=
  (isFields_text (by decide) (by decide) h.key).append (isFields_text (by decide) (by decide) h.value)

theorem updates_fields (r : PairRecord) : Updates ⟨"", ""⟩ r.fields r where
  key := by simpa [fields, valuesOf_append] using last_textFields 1 r.key
  value := by simpa [fields, valuesOf_append] using last_textFields 2 r.value

theorem not_isFields_encode {r : PairRecord} (h : ¬r.Writable) (items : List Item) :
    ¬IsFields Layout.levels items (layout.encode r) := by
  have he : layout.encode r = encodeText 1 r.key ++ (encodeText 2 r.value ++ []) := by
    rw [List.append_nil]
    rfl
  rw [he]
  by_cases hkey : (Bytes.ofText r.key).length < UInt64.size
  · have hvalue : UInt64.size ≤ (Bytes.ofText r.value).length := Nat.le_of_not_lt fun hvalue => h ⟨hkey, hvalue⟩
    intro hf
    have hk : IsFields Layout.levels (textFields 1 r.key) (encodeText 1 r.key) :=
      isFields_text (by decide) (by decide) hkey
    obtain ⟨items', -, hf⟩ := hk.of_append hf
    exact not_isFields_bytes (by decide) (by decide) hvalue [] items' hf
  · exact not_isFields_bytes (by decide) (by decide) (Nat.le_of_not_lt hkey) _ items

theorem writable_of_length_lt {r : PairRecord} (h : (layout.encode r).length < UInt64.size) : r.Writable := by
  have hk := length_le_encodeText 1 r.key
  have hv := length_le_encodeText 2 r.value
  have hlen : (encodeText 1 r.key).length + (encodeText 2 r.value).length < UInt64.size := by
    rwa [← List.length_append]
  exact ⟨by omega, by omega⟩

theorem faithful : layout.Faithful Writable fields :=
  (follows_layout 99).faithful (fun _ => writable_of_length_lt) (fun _ h => isFields_encode h 99)
    (fun r _ => r.updates_fields) fun _ => not_isFields_encode

end PairRecord

namespace HelloRecord

def Writable (r : HelloRecord) : Prop := (Bytes.ofText r.address).length < UInt64.size

def fields (r : HelloRecord) : List Item := textFields 1 r.address ++ int32Fields 2 r.port

theorem isFields_encode {r : HelloRecord} (h : r.Writable) (levels : Nat) :
    IsFields (levels + 1) r.fields (layout.encode r) :=
  (isFields_text (by decide) (by decide) h).append (isFields_int32 (by decide) (by decide) r.port)

theorem updates_fields (r : HelloRecord) : Updates ⟨"", 0⟩ r.fields r where
  address := by simpa [fields, valuesOf_append] using last_textFields 1 r.address
  port := by simpa [fields, valuesOf_append] using last_int32Fields 2 r.port

theorem not_isFields_encode {r : HelloRecord} (h : ¬r.Writable) (items : List Item) :
    ¬IsFields Layout.levels items (layout.encode r) :=
  not_isFields_bytes (by decide) (by decide) (Nat.le_of_not_lt h) _ items

theorem writable_of_length_lt {r : HelloRecord} (h : (layout.encode r).length < UInt64.size) : r.Writable := by
  have hlen : (encodeText 1 r.address).length + (encodeInt32 2 r.port).length < UInt64.size := by
    rwa [← List.length_append]
  exact Nat.lt_of_le_of_lt (length_le_encodeText 1 r.address) (Nat.lt_of_le_of_lt (Nat.le_add_right _ _) hlen)

theorem faithful : layout.Faithful Writable fields :=
  (follows_layout 99).faithful (fun _ => writable_of_length_lt) (fun _ h => isFields_encode h 99)
    (fun r _ => r.updates_fields) fun _ => not_isFields_encode

end HelloRecord

namespace Pairs

def Writable (pairs : List PairRecord) : Prop := ∀ r ∈ pairs, (PairRecord.layout.encode r).length < UInt64.size

/-- Every pair has a field, even one that has none itself. -/
def fields (pairs : List PairRecord) : List Item := pairs.map fun r => ⟨1, .block (PairRecord.layout.encode r)⟩

variable {name field : String} {pairs : List PairRecord}

theorem isFields_encode (h : Writable pairs) (levels : Nat) :
    IsFields (levels + 1) (fields pairs) ((pairsLayout name field).encode pairs) := by
  induction pairs with
  | nil => exact .nil
  | cons r pairs ih =>
    have hr : IsFields (levels + 1) [⟨1, .block (PairRecord.layout.encode r)⟩]
        (encodeBlock 1 (PairRecord.layout.encode r)) :=
      isFields_block (by decide) (by decide) (h r List.mem_cons_self)
    exact hr.append (ih fun r' hr' => h r' (List.mem_cons_of_mem r hr'))

theorem updates_fields (h : Writable pairs) : Updates [] (fields pairs) pairs := by
  refine ⟨pairs, ?_, rfl⟩
  induction pairs with
  | nil => exact .nil
  | cons r pairs ih =>
    have hr := h r List.mem_cons_self
    have hpair : Value.IsPair (Layout.levels - 1) (.block (PairRecord.layout.encode r)) r :=
      ⟨_, rfl, r.fields, PairRecord.isFields_encode (PairRecord.writable_of_length_lt hr) 98, r.updates_fields⟩
    rw [fields, List.map_cons, valuesOf_cons, if_pos rfl]
    exact .cons hpair (ih fun r' hr' => h r' (List.mem_cons_of_mem r hr'))

theorem not_isFields_encode (h : ¬Writable pairs) (items : List Item) :
    ¬IsFields Layout.levels items ((pairsLayout name field).encode pairs) := by
  induction pairs generalizing items with
  | nil => exact absurd (fun r hr => absurd hr List.not_mem_nil) h
  | cons r pairs ih =>
    have he : (pairsLayout name field).encode (r :: pairs) =
        encodeBlock 1 (PairRecord.layout.encode r) ++ (pairsLayout name field).encode pairs := rfl
    rw [he]
    by_cases hr : (PairRecord.layout.encode r).length < UInt64.size
    · intro hf
      have hpairs : ¬Writable pairs := fun hpairs => h fun r' hr' =>
        (List.mem_cons.1 hr').elim (fun heq => heq ▸ hr) (hpairs r')
      have hblock : IsFields Layout.levels [⟨1, .block (PairRecord.layout.encode r)⟩]
          (encodeBlock 1 (PairRecord.layout.encode r)) := isFields_block (by decide) (by decide) hr
      obtain ⟨items', -, hf⟩ := hblock.of_append hf
      exact ih hpairs items' hf
    · exact not_isFields_block (by decide) (by decide) (Nat.le_of_not_lt hr) _ items

theorem writable_of_length_lt (h : ((pairsLayout name field).encode pairs).length < UInt64.size) : Writable pairs := by
  intro r hr
  obtain ⟨before, after, rfl⟩ := List.append_of_mem hr
  have hblock := length_le_encodeBlock 1 (PairRecord.layout.encode r)
  simp only [pairsLayout, List.flatMap_append, List.flatMap_cons, List.length_append] at h
  omega

theorem faithful (name field : String) : (pairsLayout name field).Faithful Writable fields :=
  (follows_layout name field).faithful (fun _ => writable_of_length_lt) (fun _ h => isFields_encode h 99)
    (fun _ h => updates_fields h) fun _ => not_isFields_encode

end Pairs

namespace BeaconRecord

def Writable (r : BeaconRecord) : Prop := r.peerId.length < UInt64.size

def fields (r : BeaconRecord) : List Item := bytesFields 1 r.peerId ++ int32Fields 2 r.mailboxPort

theorem isFields_encode {r : BeaconRecord} (h : r.Writable) (levels : Nat) :
    IsFields (levels + 1) r.fields (layout.encode r) :=
  (isFields_bytes (by decide) (by decide) h).append (isFields_int32 (by decide) (by decide) r.mailboxPort)

theorem updates_fields (r : BeaconRecord) : Updates ⟨[], 0⟩ r.fields r where
  peerId := by simpa [fields, valuesOf_append] using last_bytesFields 1 r.peerId
  mailboxPort := by simpa [fields, valuesOf_append] using last_int32Fields 2 r.mailboxPort

theorem not_isFields_encode {r : BeaconRecord} (h : ¬r.Writable) (items : List Item) :
    ¬IsFields Layout.levels items (layout.encode r) :=
  not_isFields_bytes (by decide) (by decide) (Nat.le_of_not_lt h) _ items

theorem writable_of_length_lt {r : BeaconRecord} (h : (layout.encode r).length < UInt64.size) : r.Writable := by
  have hlen : (encodeBytes 1 r.peerId).length + (encodeInt32 2 r.mailboxPort).length < UInt64.size := by
    rwa [← List.length_append]
  exact Nat.lt_of_le_of_lt (length_le_encodeBytes 1 r.peerId) (Nat.lt_of_le_of_lt (Nat.le_add_right _ _) hlen)

theorem faithful : layout.Faithful Writable fields :=
  (follows_layout 99).faithful (fun _ => writable_of_length_lt) (fun _ h => isFields_encode h 99)
    (fun r _ => r.updates_fields) fun _ => not_isFields_encode

end BeaconRecord

namespace EnvelopeRecord

/-- How the sender of an envelope is written, if there is one. -/
def encodeSender : Option Bytes → Bytes
  | none => []
  | some sender => encodeBlock 4 sender

theorem encode_eq (r : EnvelopeRecord) :
    layout.encode r = encodeBytes 1 r.id ++ encodeInt32 2 r.type ++ encodeBytes 3 r.message
      ++ encodeSender r.sender ++ encodeText 5 r.token := by
  obtain ⟨id, type, message, sender, token⟩ := r
  cases sender <;> rfl

/-- The parts that stand behind their length are short enough for it to be read back. -/
structure Writable (r : EnvelopeRecord) : Prop where
  id : r.id.length < UInt64.size
  message : r.message.length < UInt64.size
  sender : ∀ sender, r.sender = some sender → sender.length < UInt64.size
  token : (Bytes.ofText r.token).length < UInt64.size

def senderFields : Option Bytes → List Item
  | none => []
  | some sender => [⟨4, .block sender⟩]

def fields (r : EnvelopeRecord) : List Item :=
  bytesFields 1 r.id ++ int32Fields 2 r.type ++ bytesFields 3 r.message ++ senderFields r.sender ++ textFields 5 r.token

theorem isFields_sender {sender : Option Bytes} (h : ∀ s, sender = some s → s.length < UInt64.size) (levels : Nat) :
    IsFields (levels + 1) (senderFields sender) (encodeSender sender) := by
  cases sender with
  | none => exact .nil
  | some s => exact isFields_block (by decide) (by decide) (h s rfl)

theorem isFields_encode {r : EnvelopeRecord} (h : r.Writable) (levels : Nat) :
    IsFields (levels + 1) r.fields (layout.encode r) := by
  have hid : IsFields (levels + 1) (bytesFields 1 r.id) (encodeBytes 1 r.id) :=
    isFields_bytes (by decide) (by decide) h.id
  have htype : IsFields (levels + 1) (int32Fields 2 r.type) (encodeInt32 2 r.type) :=
    isFields_int32 (by decide) (by decide) r.type
  have hmessage : IsFields (levels + 1) (bytesFields 3 r.message) (encodeBytes 3 r.message) :=
    isFields_bytes (by decide) (by decide) h.message
  have htoken : IsFields (levels + 1) (textFields 5 r.token) (encodeText 5 r.token) :=
    isFields_text (by decide) (by decide) h.token
  rw [encode_eq]
  exact (((hid.append htype).append hmessage).append (isFields_sender h.sender levels)).append htoken

theorem valuesOf_senderFields_of_ne {tag : Nat} (h : 4 ≠ tag) (sender : Option Bytes) :
    valuesOf tag (senderFields sender) = [] := by
  cases sender <;> simp [senderFields, valuesOf_cons, h]

theorem last_senderFields (sender : Option Bytes) : Last Value.IsSome (valuesOf 4 (senderFields sender)) none sender := by
  cases sender <;> simp [senderFields, valuesOf_cons, Value.IsSome]

theorem updates_fields (r : EnvelopeRecord) : Updates ⟨[], 0, [], none, ""⟩ r.fields r where
  id := by simpa [fields, valuesOf_append, valuesOf_senderFields_of_ne] using last_bytesFields 1 r.id
  type := by simpa [fields, valuesOf_append, valuesOf_senderFields_of_ne] using last_int32Fields 2 r.type
  message := by simpa [fields, valuesOf_append, valuesOf_senderFields_of_ne] using last_bytesFields 3 r.message
  sender := by simpa [fields, valuesOf_append] using last_senderFields r.sender
  token := by simpa [fields, valuesOf_append, valuesOf_senderFields_of_ne] using last_textFields 5 r.token

theorem not_isFields_encode {r : EnvelopeRecord} (h : ¬r.Writable) (items : List Item) :
    ¬IsFields Layout.levels items (layout.encode r) := by
  rw [encode_eq]
  simp only [List.append_assoc]
  by_cases hid : r.id.length < UInt64.size
  · have hbefore : IsFields Layout.levels (bytesFields 1 r.id ++ int32Fields 2 r.type)
        (encodeBytes 1 r.id ++ encodeInt32 2 r.type) :=
      (isFields_bytes (by decide) (by decide) hid).append (isFields_int32 (by decide) (by decide) r.type)
    intro hf
    rw [← List.append_assoc] at hf
    obtain ⟨items₁, -, hf⟩ := hbefore.of_append hf
    by_cases hmessage : r.message.length < UInt64.size
    · have hm : IsFields Layout.levels (bytesFields 3 r.message) (encodeBytes 3 r.message) :=
        isFields_bytes (by decide) (by decide) hmessage
      obtain ⟨items₂, -, hf⟩ := hm.of_append hf
      by_cases hsender : ∀ s, r.sender = some s → s.length < UInt64.size
      · have htoken : UInt64.size ≤ (Bytes.ofText r.token).length :=
          Nat.le_of_not_lt fun htoken => h ⟨hid, hmessage, hsender, htoken⟩
        obtain ⟨items₃, -, hf⟩ := (isFields_sender hsender 99).of_append hf
        rw [← List.append_nil (encodeText 5 r.token)] at hf
        exact not_isFields_bytes (by decide) (by decide) htoken [] items₃ hf
      · obtain ⟨s, hs, hl⟩ : ∃ s, r.sender = some s ∧ UInt64.size ≤ s.length := by
          simpa only [Classical.not_forall, Nat.not_lt, exists_prop] using hsender
        rw [hs, encodeSender] at hf
        exact not_isFields_block (by decide) (by decide) hl _ items₂ hf
    · exact not_isFields_bytes (by decide) (by decide) (Nat.le_of_not_lt hmessage) _ items₁ hf
  · exact not_isFields_bytes (by decide) (by decide) (Nat.le_of_not_lt hid) _ items

theorem writable_of_length_lt {r : EnvelopeRecord} (h : (layout.encode r).length < UInt64.size) : r.Writable := by
  simp only [encode_eq, List.length_append] at h
  have hid := length_le_encodeBytes 1 r.id
  have hmessage := length_le_encodeBytes 3 r.message
  have htoken := length_le_encodeText 5 r.token
  refine ⟨by omega, by omega, fun s hs => ?_, by omega⟩
  have hsender := length_le_encodeBlock 4 s
  rw [hs, encodeSender] at h
  omega

theorem faithful : layout.Faithful Writable fields :=
  (follows_layout 99).faithful (fun _ => writable_of_length_lt) (fun _ h => isFields_encode h 99)
    (fun r _ => r.updates_fields) fun _ => not_isFields_encode

end EnvelopeRecord

/-- Every one of the seven records reads back as it was, however negative its numbers, however often a pair comes in it
and whatever is absent or empty, if only the lengths in it can be written; no other record of its kind is then written
in the same way. -/
theorem records_faithful :
    PairRecord.layout.Faithful PairRecord.Writable PairRecord.fields ∧
    HelloRecord.layout.Faithful HelloRecord.Writable HelloRecord.fields ∧
    announceLayout.Faithful Pairs.Writable Pairs.fields ∧
    queryLayout.Faithful Pairs.Writable Pairs.fields ∧
    responseLayout.Faithful Pairs.Writable Pairs.fields ∧
    BeaconRecord.layout.Faithful BeaconRecord.Writable BeaconRecord.fields ∧
    EnvelopeRecord.layout.Faithful EnvelopeRecord.Writable EnvelopeRecord.fields :=
  ⟨PairRecord.faithful, HelloRecord.faithful, Pairs.faithful _ _, Pairs.faithful _ _, Pairs.faithful _ _,
    BeaconRecord.faithful, EnvelopeRecord.faithful⟩

end Wire
end PeerDiscovery
