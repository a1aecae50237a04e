import PeerDiscovery.Proofs.Discovery.Exchange
import PeerDiscovery.Proofs.Envelope.Decoding

/-! Correlation ids in fewer than eight bytes: `CorrelationId.denotes_number`.
An id is the number that its bytes stand for, so the zeros in front of it may be left out. The byte strings of an id are
just those that come of its eight bytes in this way, and a response is for the same query with each of them. -/
namespace PeerDiscovery

open Discovery (Answers Engine)

theorem Bytes.ofBigEndian_zeros_append (n : Nat) (bytes : Bytes) :
    ofBigEndian (List.replicate n 0 ++ bytes) = ofBigEndian bytes := by
  induction n with
  | zero => rfl
  | succ n ih =>
    have hcons : ofBigEndian (0 :: (List.replicate n 0 ++ bytes)) = ofBigEndian (List.replicate n 0 ++ bytes) := rfl
    rw [List.replicate_succ, List.cons_append, hcons, ih]

theorem Bytes.ofBigEndian_injective {a b : Bytes} (hl : a.length = b.length) (h : ofBigEndian a = ofBigEndian b) :
    a = b := by
  rw [← toBigEndian_ofBigEndian hl, h, toBigEndian_ofBigEndian rfl]

namespace CorrelationId

variable {bytes : Bytes} {id : CorrelationId}

theorem length_encode (id : CorrelationId) : (encode id).length = 8 := Bytes.length_toBigEndian 8 _

theorem decode_eq_ok_iff_ofBigEndian :
    decode bytes = .ok id ↔ bytes.length ≤ 8 ∧ id.toNat = Bytes.ofBigEndian bytes := by
  rw [decode_eq_ok_iff, Bytes.ofBigEndian_eq_ofDigits]

theorem decode_zeros_append {n : Nat} (h : n + bytes.length ≤ 8) :
    decode (List.replicate n 0 ++ bytes) = decode bytes := by
  obtain ⟨id, hid⟩ := exists_decode_iff.2 (Nat.le_of_add_left_le h)
  obtain ⟨-, hvalue⟩ := decode_eq_ok_iff_ofBigEndian.1 hid
  rw [hid, decode_eq_ok_iff_ofBigEndian, Bytes.ofBigEndian_zeros_append, List.length_append, List.length_replicate]
  exact ⟨h, hvalue⟩

theorem decode_injective {other : Bytes} (hl : other.length = bytes.length) (hle : bytes.length ≤ 8)
    (h : decode other = decode bytes) : other = bytes := by
  obtain ⟨id, hid⟩ := exists_decode_iff.2 hle
  obtain ⟨-, hvalue⟩ := decode_eq_ok_iff_ofBigEndian.1 hid
  obtain ⟨-, hother⟩ := decode_eq_ok_iff_ofBigEndian.1 (h.trans hid)
  exact Bytes.ofBigEndian_injective hl (hother.symm.trans hvalue)

/-- The byte strings of an id are its eight bytes without some of the zeros in front. -/
theorem decode_eq_ok_iff_encode : decode bytes = .ok id ↔ ∃ n, encode id = List.replicate n 0 ++ bytes := by
  constructor
  · intro h
    have hle := (decode_eq_ok_iff.1 h).1
    refine ⟨8 - bytes.length, decode_injective ?_ ?_ ?_⟩
    · rw [length_encode, List.length_append, List.length_replicate]
      omega
    · rw [List.length_append, List.length_replicate]
      omega
    · rw [decode_encode, decode_zeros_append (by omega), h]
  · rintro ⟨n, h⟩
    have hlength := congrArg List.length h
    rw [length_encode, List.length_append, List.length_replicate] at hlength
    rw [← decode_zeros_append (Nat.le_of_eq hlength.symm), ← h, decode_encode]

end CorrelationId

namespace Envelope

variable {wire wire' : Bytes} {r r' : Wire.EnvelopeRecord}

theorem decode_of_denotes (h : Wire.EnvelopeRecord.Denotes wire r) :
    decode wire = (do
      let type ← MessageType.ofCode r.type
      let id ← CorrelationId.decode r.id
      let message ← Message.decode type r.message
      return { id, token := r.token, sender := r.sender, message }) := by
  rw [decode, WireError.decode_of_ok (Wire.EnvelopeRecord.decode_eq_ok_iff.2 h)]
  rfl

theorem decode_congr_id {bytes bytes' : Bytes} (h : Wire.EnvelopeRecord.Denotes wire { r with id := bytes })
    (h' : Wire.EnvelopeRecord.Denotes wire' { r with id := bytes' })
    (hid : CorrelationId.decode bytes = CorrelationId.decode bytes') : decode wire = decode wire' := by
  rw [decode_of_denotes h, decode_of_denotes h', hid]

/-- A record of a response that goes back to whoever asked. -/
structure Responds (r : Wire.EnvelopeRecord) (texts : List String) : Prop where
  type : r.type = MessageType.response.code
  token : r.token = queryToken
  message : (Message.response texts).IsIn r.message

theorem Responds.exists_decode {texts : List String} {bytes : Bytes} {id : CorrelationId} (hr : Responds r texts)
    (h : Wire.EnvelopeRecord.Denotes wire { r with id := bytes }) (hid : CorrelationId.decode bytes = .ok id) :
    ∃ answer, decode wire = .ok answer ∧ Answers answer id texts := by
  obtain ⟨hle, hvalue⟩ := CorrelationId.decode_eq_ok_iff.1 hid
  refine ⟨⟨id, queryToken, r.sender, .response texts⟩, decode_eq_ok_iff.2 ?_, rfl, rfl, rfl⟩
  exact ⟨_, h, hr.type, hle, hvalue, hr.token.symm, rfl, hr.message⟩

end Envelope

theorem Discovery.Engine.lookup_find {κ : Type} {e : Engine κ} {facts : FactSet} {k : κ} {id : CorrelationId}
    (h : (e.find facts k).2.1.id? = some id) : (e.find facts k).1.inFlight.lookup id = some k := by
  obtain ⟨-, -, hflight⟩ := find_of_id h
  rw [hflight, List.lookup_append, lookup_settled, Option.none_or, List.lookup_cons_self]

/-- An answer is handed to whoever waits under its id, and to nobody else, whoever it is from. -/
theorem Host.dispatch_of_answers {κ : Type} {h : Host κ} {answer : Envelope} {id : CorrelationId}
    {texts : List String} {k : κ} (ha : Answers answer id texts) (hk : h.engine.inFlight.lookup id = some k)
    (sender : Option Bytes) (now : Nat) :
    h.dispatch { answer with sender } now =
      ({ h with engine.inFlight := h.engine.settled id }, Engine.calls k texts) := by
  have hr : h.engine.onResponse { answer with sender } = _ :=
    Engine.onResponse_of_answers ⟨ha.id_eq, ha.token_eq, ha.message_eq⟩ hk
  simp only [dispatch, Engine.dispatch, ha.message_eq] at hr ⊢
  rw [hr]

/-- Up to eight bytes stand for their number in base 256, with any zeros in front; of one length no two stand for the
same number, and more bytes are refused with their length. The eight bytes of an id are read as this id, and what else is
read as it are these bytes without some of the zeros in front. With such an id an envelope is read as with the eight
bytes; and a response is handed, endpoint by endpoint, to whoever asked the query with the id, which is in flight no
more, while all others are. -/
theorem CorrelationId.denotes_number (bytes : Bytes) :
    (bytes.length ≤ 8 →
      ∃ id, decode bytes = .ok id ∧ id.toNat = Nat.ofDigits 256 (bytes.reverse.map UInt8.toNat)) ∧
    (8 < bytes.length → decode bytes = .error (.badCorrelationId bytes.length)) ∧
    (∀ n, n + bytes.length ≤ 8 → decode (List.replicate n 0 ++ bytes) = decode bytes) ∧
    (∀ id, (encode id).length = 8 ∧ decode (encode id) = .ok id ∧
      (decode bytes = .ok id ↔ ∃ n, encode id = List.replicate n 0 ++ bytes)) ∧
    (∀ other : Bytes, other.length = bytes.length → bytes.length ≤ 8 → decode other = decode bytes → other = bytes) ∧
    ∀ id n, encode id = List.replicate n 0 ++ bytes → ∀ r short full,
      Wire.EnvelopeRecord.Denotes short { r with id := bytes } →
      Wire.EnvelopeRecord.Denotes full { r with id := encode id } →
      Envelope.decode short = Envelope.decode full ∧
      ∀ texts, Envelope.Responds r texts → ∃ answer, Envelope.decode short = .ok answer ∧
        ∀ (κ : Type) (e : Engine κ) (k : κ),
          (∀ facts, (e.find facts k).2.1.id? = some id → (e.find facts k).1.inFlight.lookup id = some k) ∧
          (e.inFlight.lookup id = some k → ∀ mailbox sender now,
            Host.dispatch ⟨e, mailbox⟩ { answer with sender } now =
              (⟨{ e with inFlight := e.inFlight.filter fun p => p.1 ≠ id }, mailbox⟩, Engine.calls k texts)) := by
  refine ⟨fun hle => ?_, fun hlt => decode_eq_error_iff.2 ⟨rfl, hlt⟩, fun n => decode_zeros_append, fun id => ?_,
    fun other => decode_injective, fun id n hid r short full hshort hfull => ?_⟩
  · obtain ⟨id, hid⟩ := exists_decode_iff.2 hle
    exact ⟨id, hid, (decode_eq_ok_iff.1 hid).2⟩
  · exact ⟨length_encode id, decode_encode id, decode_eq_ok_iff_encode⟩
  · have hread : decode bytes = .ok id := decode_eq_ok_iff_encode.2 ⟨n, hid⟩
    refine ⟨Envelope.decode_congr_id hshort hfull (hread.trans (decode_encode id).symm), fun texts hr => ?_⟩
    obtain ⟨answer, hanswer, ha⟩ := hr.exists_decode hshort hread
    refine ⟨answer, hanswer, fun κ e k => ⟨fun facts => Engine.lookup_find, fun hk mailbox sender now => ?_⟩⟩
    exact Host.dispatch_of_answers (h := ⟨e, mailbox⟩) ha hk sender now

/-- Nine zeros are no id, though their number would be one. -/
example : CorrelationId.decode [1, 0] = .ok 256 ∧ CorrelationId.decode [0, 0, 1, 0] = .ok 256 ∧
    CorrelationId.decode (List.replicate 9 0) = .error (.badCorrelationId 9) := by
  decide

end PeerDiscovery
