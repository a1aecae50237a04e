import PeerDiscovery.Envelope
import PeerDiscovery.Proofs.Wire.Records

/-! Envelopes read back: `Envelope.decode_encode`, and `Envelope.survives_wire` for the exact condition. -/
namespace PeerDiscovery

namespace FactSet

theorem insertPair_of_before {key value : String} {pairs : List (String × String)}
    (h : ∀ p ∈ pairs, Text.Before p.1 key) : insertPair key value pairs = pairs ++ [(key, value)] := by
  induction pairs with
  | nil => rfl
  | cons p rest ih =>
    have hp := h p List.mem_cons_self
    have hr := ih fun q hq => h q (List.mem_cons_of_mem p hq)
    rw [insertPair, if_pos hp, hr, List.cons_append]

theorem pairs_foldl_insert {pairs : List (String × String)} {f : FactSet}
    (h : (f.pairs ++ pairs).Pairwise fun p q => Text.Before p.1 q.1) :
    (pairs.foldl (fun f p => f.insert p.1 p.2) f).pairs = f.pairs ++ pairs := by
  induction pairs generalizing f with
  | nil => exact (List.append_nil _).symm
  | cons p rest ih =>
    have hp : (f.insert p.1 p.2).pairs = f.pairs ++ [p] :=
      insertPair_of_before fun q hq => (List.pairwise_append.1 h).2.2 q hq p List.mem_cons_self
    rw [List.foldl_cons, ih (by rw [hp, List.append_assoc]; exact h), hp, List.append_assoc]
    rfl

theorem ofPairs_pairs (f : FactSet) : ofPairs f.pairs = f := by
  apply FactSet.ext
  have hs : ((∅ : FactSet).pairs ++ f.pairs).Pairwise fun p q => Text.Before p.1 q.1 := f.sorted
  have hh := pairs_foldl_insert hs
  exact hh

theorem ofRecords_records (f : FactSet) : ofRecords f.records = f := by
  have hh : f.records.map (fun r => (r.key, r.value)) = f.pairs := by
    simp [records, Function.comp_def]
  rw [ofRecords, hh, ofPairs_pairs]

end FactSet

theorem WireError.decode_of_ok {α : Type} {layout : Wire.Layout α} {bytes : Bytes} {r : α}
    (h : layout.decode bytes = .ok r) : WireError.decode layout bytes = .ok r := by
  rw [WireError.decode, h]
  rfl

theorem WireError.decode_of_error {α : Type} {layout : Wire.Layout α} {bytes : Bytes} {fault : Wire.Fault}
    (h : layout.decode bytes = .error fault) : WireError.decode layout bytes = .error (.malformed fault) := by
  rw [WireError.decode, h]
  rfl

namespace Message

theorem helloPort_ofNat (port : UInt16) : helloPort (Int32.ofNat port.toNat) = .ok port := by
  have hlt := port.toNat_lt
  have hi : (Int32.ofNat port.toNat).toInt = port.toNat := by
    rw [← Int32.ofInt_eq_ofNat, Int32.toInt_ofInt, Int.bmod_def]
    have hs : (Int32.size : Int) = 4294967296 := rfl
    rw [hs]
    omega
  rw [helloPort, if_pos (by rw [hi]; omega), hi]
  simp

theorem decode_encode {m : Message} (h : m.encode.length < UInt64.size) : decode m.type m.encode = .ok m := by
  cases m with
  | hello address port =>
    have hw := Wire.HelloRecord.writable_of_length_lt h
    have hd := WireError.decode_of_ok (Wire.HelloRecord.faithful.reads_back _ hw)
    simp only [type, encode, decode, hd, bind, Except.bind, helloPort_ofNat]
    rfl
  | announce facts =>
    have hw := Wire.Pairs.writable_of_length_lt h
    have hd := WireError.decode_of_ok ((Wire.Pairs.faithful "AnnounceMessage" "facts").reads_back _ hw)
    have hh : decode .announce (announce facts).encode = .ok (.announce (.ofRecords facts.records)) := by
      simp only [encode, decode, Wire.announceLayout, hd]
      rfl
    rw [type, hh, FactSet.ofRecords_records]
  | query facts =>
    have hw := Wire.Pairs.writable_of_length_lt h
    have hd := WireError.decode_of_ok ((Wire.Pairs.faithful "QueryMessage" "facts").reads_back _ hw)
    have hh : decode .query (query facts).encode = .ok (.query (.ofRecords facts.records)) := by
      simp only [encode, decode, Wire.queryLayout, hd]
      rfl
    rw [type, hh, FactSet.ofRecords_records]
  | response endpoints =>
    have hw := Wire.Pairs.writable_of_length_lt h
    have hd := WireError.decode_of_ok ((Wire.Pairs.faithful "ResponseMessage" "responses").reads_back _ hw)
    simp only [type, encode, decode, Wire.responseLayout, hd, bind, Except.bind, pure, Except.pure]
    simp [Function.comp_def]

end Message

theorem CorrelationId.decode_encode (id : CorrelationId) : decode (encode id) = .ok id := by
  have hl : (encode id).length = 8 := Bytes.length_toBigEndian 8 _
  rw [decode, if_neg (by omega), encode, Bytes.ofBigEndian_toBigEndian id.toNat_lt]
  simp

theorem MessageType.ofCode_code (t : MessageType) : ofCode t.code = .ok t := by
  rw [ofCode, ofCode?_code]

namespace Envelope

/-- The record by which an envelope is written. -/
def record (e : Envelope) : Wire.EnvelopeRecord :=
  ⟨CorrelationId.encode e.id, e.type.code, e.message.encode, e.sender, e.token⟩

/-- Its message, its sender and its token have lengths of 64 bits, as all that a machine of 64 bits can hold. -/
structure Writable (e : Envelope) : Prop where
  message : e.message.encode.length < UInt64.size
  sender : ∀ sender, e.sender = some sender → sender.length < UInt64.size
  token : (Bytes.ofText e.token).length < UInt64.size

theorem writable_record_iff (e : Envelope) : e.record.Writable ↔ e.Writable := by
  have hid : (CorrelationId.encode e.id).length < UInt64.size := by
    rw [CorrelationId.encode, Bytes.length_toBigEndian]
    decide
  exact ⟨fun h => ⟨h.message, h.sender, h.token⟩, fun h => ⟨hid, h.message, h.sender, h.token⟩⟩

/-- The record of an envelope is enough to read it, whatever the bytes. -/
theorem decode_of_record {e : Envelope} {bytes : Bytes} (h : Wire.EnvelopeRecord.layout.decode bytes = .ok e.record)
    (hm : e.message.encode.length < UInt64.size) : decode bytes = .ok e := by
  have hd := WireError.decode_of_ok h
  have hmessage : Message.decode e.type e.message.encode = .ok e.message := Message.decode_encode hm
  rw [record] at hd
  rw [decode, hd]
  simp only [bind, Except.bind, MessageType.ofCode_code, CorrelationId.decode_encode, hmessage]
  rfl

theorem decode_encode_of_writable {e : Envelope} (h : e.Writable) : decode e.encode = .ok e :=
  decode_of_record (Wire.EnvelopeRecord.faithful.reads_back _ (e.writable_record_iff.2 h)) h.message

theorem decode_encode_of_not_writable {e : Envelope} (h : ¬e.Writable) : ∃ fault, decode e.encode = .error fault := by
  obtain ⟨fault, hf⟩ := Wire.EnvelopeRecord.faithful.refused _ (mt e.writable_record_iff.1 h)
  have hd := WireError.decode_of_error hf
  rw [record] at hd
  refine ⟨.malformed fault, ?_⟩
  rw [decode, encode, hd]
  rfl

theorem eq_of_encode_eq {e e' : Envelope} (h : e.Writable) (he : e'.encode = e.encode) : e' = e := by
  have hr : e'.record = e.record := Wire.EnvelopeRecord.faithful.unique _ (e.writable_record_iff.2 h) _ he
  have h' : e'.Writable := e'.writable_record_iff.1 (by rw [hr]; exact e.writable_record_iff.2 h)
  have hread : decode e'.encode = .ok e := by rw [he, decode_encode_of_writable h]
  rw [decode_encode_of_writable h'] at hread
  exact Except.ok.inj hread

/-- An envelope reads back, with its id, its token, its sender and its message. -/
theorem decode_encode {e : Envelope} (h : e.encode.length < UInt64.size) : decode e.encode = .ok e :=
  decode_encode_of_writable (e.writable_record_iff.1 (Wire.EnvelopeRecord.writable_of_length_lt h))

/-- An envelope reads back if and only if its parts can be written; then no other envelope is written in the same way,
and whatever bytes it was read from, those by which it is written are read alike. -/
theorem survives_wire (e : Envelope) :
    (decode e.encode = .ok e ↔ e.Writable) ∧
    (e.Writable → ∀ e' : Envelope, e'.encode = e.encode → e' = e) ∧
    (e.Writable → ∀ bytes, decode bytes = .ok e → decode e.encode = decode bytes) := by
  have hback : decode e.encode = .ok e ↔ e.Writable := by
    refine ⟨fun h => Classical.byContradiction fun hw => ?_, decode_encode_of_writable⟩
    obtain ⟨fault, hf⟩ := decode_encode_of_not_writable hw
    rw [hf] at h
    cases h
  refine ⟨hback, fun hw e' he => ?_, fun hw bytes hb => (hback.2 hw).trans hb.symm⟩
  have hread : decode e'.encode = .ok e := by rw [he, hback.2 hw]
  by_cases hw' : e'.Writable
  · exact Except.ok.inj ((decode_encode_of_writable hw').symm.trans hread)
  · obtain ⟨fault, hf⟩ := decode_encode_of_not_writable hw'
    rw [hf] at hread
    cases hread

end Envelope
end PeerDiscovery
