import Mathlib.Data.List.Induction
import Mathlib.Data.Nat.Digits.Lemmas
import PeerDiscovery.Proofs.Envelope
import PeerDiscovery.Proofs.FactSet
import PeerDiscovery.Proofs.Wire.Denotation

/-! Which bytes are envelopes, and what they say: `Envelope.decodes_in_order`.
Record, type, correlation id, payload and port are looked at in this order, and the first of them that is at fault
is what is told. -/
namespace PeerDiscovery

theorem bind_eq_ok_iff {ε α β : Type} {x : Except ε α} {f : α → Except ε β} {b : β} :
    x >>= f = .ok b ↔ ∃ a, x = .ok a ∧ f a = .ok b := by
  cases x <;> simp [bind, Except.bind]

theorem bind_eq_error_iff {ε α β : Type} {x : Except ε α} {f : α → Except ε β} {e : ε} :
    x >>= f = .error e ↔ x = .error e ∨ ∃ a, x = .ok a ∧ f a = .error e := by
  cases x <;> simp [bind, Except.bind]

namespace WireError

variable {α : Type} {layout : Wire.Layout α} {bytes : Bytes}

theorem decode_eq_ok_iff {r : α} : decode layout bytes = .ok r ↔ layout.decode bytes = .ok r := by
  rw [decode]
  cases layout.decode bytes <;> simp [Except.mapError]

theorem decode_eq_error_iff {e : WireError} :
    decode layout bytes = .error e ↔ ∃ fault, layout.decode bytes = .error fault ∧ e = .malformed fault := by
  rw [decode]
  cases layout.decode bytes <;> simp [Except.mapError, eq_comm]

end WireError

/-- The number that bytes denote, the most significant one first. -/
theorem Bytes.ofBigEndian_eq_ofDigits (bytes : Bytes) :
    ofBigEndian bytes = Nat.ofDigits 256 (bytes.reverse.map UInt8.toNat) := by
  induction bytes using List.reverseRecOn with
  | nil => rfl
  | append_singleton bytes b ih =>
    rw [ofBigEndian_concat, ih, List.reverse_concat, List.map_cons, Nat.ofDigits_cons, Nat.add_comm]

theorem Bytes.ofBigEndian_lt (bytes : Bytes) : ofBigEndian bytes < 256 ^ bytes.length := by
  rw [ofBigEndian_eq_ofDigits]
  have hlt := Nat.ofDigits_lt_base_pow_length (b := 256) (l := bytes.reverse.map UInt8.toNat) (by decide) (by
    intro n hn
    obtain ⟨b, -, rfl⟩ := List.mem_map.1 hn
    exact b.toNat_lt)
  rwa [List.length_map, List.length_reverse] at hlt

namespace MessageType

theorem ofCode?_eq_some_iff {code : Int32} {t : MessageType} : ofCode? code = some t ↔ code = t.code := by
  constructor
  · intro h
    unfold ofCode? at h
    split at h <;> cases h <;> rfl
  · rintro rfl
    exact ofCode?_code t

theorem exists_code_iff {code : Int32} : (∃ t : MessageType, code = t.code) ↔ 1 ≤ code.toInt ∧ code.toInt ≤ 4 := by
  constructor
  · rintro ⟨t, rfl⟩
    cases t <;> decide
  · rintro ⟨h, h'⟩
    have hcases : code.toInt = 1 ∨ code.toInt = 2 ∨ code.toInt = 3 ∨ code.toInt = 4 := by omega
    rcases hcases with h | h | h | h
    · exact ⟨.hello, Int32.toInt_inj.1 h⟩
    · exact ⟨.announce, Int32.toInt_inj.1 h⟩
    · exact ⟨.query, Int32.toInt_inj.1 h⟩
    · exact ⟨.response, Int32.toInt_inj.1 h⟩

theorem ofCode_eq_ok_iff {code : Int32} {t : MessageType} : ofCode code = .ok t ↔ code = t.code := by
  rw [ofCode, ← ofCode?_eq_some_iff]
  cases ofCode? code <;> simp

theorem ofCode_eq_error_iff {code : Int32} {e : WireError} :
    ofCode code = .error e ↔ e = .unknownMessageType code ∧ ¬(1 ≤ code.toInt ∧ code.toInt ≤ 4) := by
  rw [← exists_code_iff, ofCode]
  simp only [← ofCode?_eq_some_iff]
  cases ofCode? code <;> simp [eq_comm]

end MessageType

namespace CorrelationId

theorem decode_eq_ok_iff {bytes : Bytes} {id : CorrelationId} :
    decode bytes = .ok id ↔ bytes.length ≤ 8 ∧ id.toNat = Nat.ofDigits 256 (bytes.reverse.map UInt8.toNat) := by
  rw [decode, ← Bytes.ofBigEndian_eq_ofDigits]
  split
  · next h => simp [Nat.not_le_of_lt h]
  · next h =>
    have hl := Nat.le_of_not_lt h
    have hlt : Bytes.ofBigEndian bytes < UInt64.size :=
      Nat.lt_of_lt_of_le bytes.ofBigEndian_lt (Nat.pow_le_pow_right (by decide) hl)
    rw [Except.ok.injEq, ← UInt64.toNat_inj, UInt64.toNat_ofNat_of_lt' hlt]
    exact ⟨fun h => ⟨hl, h.symm⟩, fun h => h.2.symm⟩

theorem decode_eq_error_iff {bytes : Bytes} {e : WireError} :
    decode bytes = .error e ↔ e = .badCorrelationId bytes.length ∧ 8 < bytes.length := by
  rw [decode]
  split
  · next h => simp [h, eq_comm]
  · next h => simp [h]

theorem exists_decode_iff {bytes : Bytes} : (∃ id, decode bytes = .ok id) ↔ bytes.length ≤ 8 := by
  rw [decode]
  split <;> simp <;> omega

end CorrelationId

namespace Message

theorem helloPort_eq_ok_iff {n : Int32} {port : UInt16} : helloPort n = .ok port ↔ (port.toNat : Int) = n.toInt := by
  have hlt := port.toNat_lt
  have hs : UInt16.size = 65536 := rfl
  rw [helloPort]
  split
  · next h =>
    have hn : (UInt16.ofNat n.toInt.toNat).toNat = n.toInt.toNat := UInt16.toNat_ofNat_of_lt' (by omega)
    rw [Except.ok.injEq, ← UInt16.toNat_inj, hn]
    omega
  · next h => exact ⟨fun he => (by cases he), fun hp => absurd (by omega) h⟩

theorem helloPort_eq_error_iff {n : Int32} {e : WireError} :
    helloPort n = .error e ↔ e = .badPort n ∧ ¬(0 ≤ n.toInt ∧ n.toInt ≤ 65535) := by
  rw [helloPort]
  split
  · next h => simp [h]
  · next h => simp [h, eq_comm]

/-- The bytes are a record for the payload of a type. -/
def IsPayload : MessageType → Bytes → Prop
  | .hello, bytes => ∃ r, Wire.HelloRecord.Denotes bytes r
  | .announce, bytes | .query, bytes | .response, bytes => ∃ pairs, Wire.Pairs.Denotes bytes pairs

/-- What the payload says is the message. Of facts with one key the last one counts, and of answers each value. -/
def IsIn : Message → Bytes → Prop
  | hello address port, bytes =>
    ∃ r, Wire.HelloRecord.Denotes bytes r ∧ r.address = address ∧ (port.toNat : Int) = r.port.toInt
  | announce facts, bytes | query facts, bytes =>
    ∃ pairs, Wire.Pairs.Denotes bytes pairs ∧ ∀ key, facts.get? key = (FactSet.valuesIn pairs key).getLast?
  | response endpoints, bytes => ∃ pairs, Wire.Pairs.Denotes bytes pairs ∧ endpoints = pairs.map fun r => r.value

theorem decode_eq_ok_iff {t : MessageType} {bytes : Bytes} {m : Message} :
    decode t bytes = .ok m ↔ m.type = t ∧ m.IsIn bytes := by
  have hfacts : ∀ kind : FactSet → Message, (∃ pairs, Wire.Pairs.Denotes bytes pairs ∧ kind (.ofRecords pairs) = m) ↔
      ∃ facts, kind facts = m ∧ ∃ pairs, Wire.Pairs.Denotes bytes pairs ∧
        ∀ key, facts.get? key = (FactSet.valuesIn pairs key).getLast? := by
    intro kind
    simp only [← FactSet.eq_ofRecords_iff]
    constructor
    · rintro ⟨pairs, hp, rfl⟩
      exact ⟨_, rfl, pairs, hp, rfl⟩
    · rintro ⟨_, rfl, pairs, hp, rfl⟩
      exact ⟨pairs, hp, rfl⟩
  cases t with
  | hello =>
    simp only [decode, bind_eq_ok_iff, WireError.decode_eq_ok_iff, Wire.HelloRecord.decode_eq_ok_iff, helloPort_eq_ok_iff,
      pure, Except.pure, Except.ok.injEq]
    constructor
    · rintro ⟨r, hr, port, hp, rfl⟩
      exact ⟨rfl, r, hr, rfl, hp⟩
    · rintro ⟨ht, hm⟩
      cases m with
      | hello address port =>
        obtain ⟨r, hr, rfl, hp⟩ := hm
        exact ⟨r, hr, port, hp, rfl⟩
      | announce | query | response => cases ht
  | announce =>
    simp only [decode, bind_eq_ok_iff, WireError.decode_eq_ok_iff, Wire.announceLayout, Wire.Pairs.decode_eq_ok_iff,
      pure, Except.pure, Except.ok.injEq, hfacts]
    cases m <;> simp [IsIn, type]
  | query =>
    simp only [decode, bind_eq_ok_iff, WireError.decode_eq_ok_iff, Wire.queryLayout, Wire.Pairs.decode_eq_ok_iff,
      pure, Except.pure, Except.ok.injEq, hfacts]
    cases m <;> simp [IsIn, type]
  | response =>
    simp only [decode, bind_eq_ok_iff, WireError.decode_eq_ok_iff, Wire.responseLayout, Wire.Pairs.decode_eq_ok_iff,
      pure, Except.pure, Except.ok.injEq]
    cases m <;> simp [IsIn, type, eq_comm]

def Faults : MessageType → Bytes → Wire.Fault → Prop
  | .hello, bytes, fault => Wire.HelloRecord.layout.decode bytes = .error fault
  | .announce, bytes, fault => Wire.announceLayout.decode bytes = .error fault
  | .query, bytes, fault => Wire.queryLayout.decode bytes = .error fault
  | .response, bytes, fault => Wire.responseLayout.decode bytes = .error fault

theorem exists_faults_iff {t : MessageType} {bytes : Bytes} : (∃ fault, Faults t bytes fault) ↔ ¬IsPayload t bytes := by
  cases t with
  | hello => exact Wire.Layout.exists_fault_iff fun _ => Wire.HelloRecord.decode_eq_ok_iff
  | announce | query | response => exact Wire.Layout.exists_fault_iff fun _ => Wire.Pairs.decode_eq_ok_iff

theorem decode_eq_error_iff {t : MessageType} {bytes : Bytes} {e : WireError} :
    decode t bytes = .error e ↔ (∃ fault, Faults t bytes fault ∧ e = .malformed fault) ∨
      t = .hello ∧ ∃ r, Wire.HelloRecord.Denotes bytes r ∧ e = .badPort r.port ∧
        ¬(0 ≤ r.port.toInt ∧ r.port.toInt ≤ 65535) := by
  cases t with
  | hello =>
    simp only [decode, Faults, bind_eq_error_iff, WireError.decode_eq_ok_iff, WireError.decode_eq_error_iff,
      Wire.HelloRecord.decode_eq_ok_iff, helloPort_eq_error_iff, pure, Except.pure, reduceCtorEq, and_false, exists_false,
      or_false, true_and]
  | announce | query | response =>
    simp only [decode, Faults, bind_eq_error_iff, WireError.decode_eq_error_iff, pure, Except.pure, reduceCtorEq,
      and_false, exists_false, or_false, false_and]

end Message

namespace Envelope

theorem decode_eq_error_iff {bytes : Bytes} {e : WireError} :
    decode bytes = .error e ↔
      (∃ fault, Wire.EnvelopeRecord.layout.decode bytes = .error fault ∧ e = .malformed fault) ∨
      ∃ r, Wire.EnvelopeRecord.Denotes bytes r ∧
        ((e = .unknownMessageType r.type ∧ ¬(1 ≤ r.type.toInt ∧ r.type.toInt ≤ 4)) ∨
        ∃ t : MessageType, r.type = t.code ∧
          ((e = .badCorrelationId r.id.length ∧ 8 < r.id.length) ∨
          r.id.length ≤ 8 ∧ Message.decode t r.message = .error e)) := by
  have hid : ∀ (id : Bytes) (P : Prop), (∃ a, CorrelationId.decode id = .ok a ∧ P) ↔ id.length ≤ 8 ∧ P := by
    intro id P
    rw [← CorrelationId.exists_decode_iff, exists_and_right]
  simp only [decode, bind_eq_error_iff, WireError.decode_eq_ok_iff, WireError.decode_eq_error_iff,
    Wire.EnvelopeRecord.decode_eq_ok_iff, MessageType.ofCode_eq_ok_iff, MessageType.ofCode_eq_error_iff,
    CorrelationId.decode_eq_error_iff, hid, pure, Except.pure, reduceCtorEq, and_false, exists_false, or_false]

theorem decode_eq_ok_iff {bytes : Bytes} {e : Envelope} :
    decode bytes = .ok e ↔ ∃ r, Wire.EnvelopeRecord.Denotes bytes r ∧ r.type = e.type.code ∧ r.id.length ≤ 8 ∧
      e.id.toNat = Nat.ofDigits 256 (r.id.reverse.map UInt8.toNat) ∧ e.token = r.token ∧ e.sender = r.sender ∧
      e.message.IsIn r.message := by
  simp only [decode, bind_eq_ok_iff, WireError.decode_eq_ok_iff, Wire.EnvelopeRecord.decode_eq_ok_iff,
    MessageType.ofCode_eq_ok_iff, CorrelationId.decode_eq_ok_iff, Message.decode_eq_ok_iff, pure, Except.pure,
    Except.ok.injEq]
  constructor
  · rintro ⟨r, hr, _, ht, id, ⟨hl, hid⟩, message, ⟨rfl, hm⟩, rfl⟩
    exact ⟨r, hr, ht, hl, hid, rfl, rfl, hm⟩
  · rintro ⟨r, hr, ht, hl, hid, htoken, hsender, hm⟩
    obtain ⟨id, token, sender, message⟩ := e
    simp only at hid htoken hsender
    exact ⟨r, hr, _, ht, id, ⟨hl, hid⟩, message, ⟨rfl, hm⟩, by rw [htoken, hsender]⟩

variable {bytes : Bytes}

theorem decode_malformed_iff :
    (∃ fault, decode bytes = .error (.malformed fault)) ↔
      (¬∃ r, Wire.EnvelopeRecord.Denotes bytes r) ∨
      ∃ r, Wire.EnvelopeRecord.Denotes bytes r ∧ ∃ t : MessageType, r.type = t.code ∧ r.id.length ≤ 8 ∧
        ¬Message.IsPayload t r.message := by
  rw [← Wire.Layout.exists_fault_iff fun _ => Wire.EnvelopeRecord.decode_eq_ok_iff]
  simp only [← Message.exists_faults_iff, decode_eq_error_iff, Message.decode_eq_error_iff, WireError.malformed.injEq,
    reduceCtorEq, false_and, and_false, exists_false, false_or, or_false]
  constructor
  · rintro ⟨_, ⟨fault, h, -⟩ | ⟨r, hr, t, ht, hl, fault, hf, -⟩⟩
    · exact .inl ⟨fault, h⟩
    · exact .inr ⟨r, hr, t, ht, hl, fault, hf⟩
  · rintro (⟨fault, h⟩ | ⟨r, hr, t, ht, hl, fault, hf⟩)
    · exact ⟨fault, .inl ⟨fault, h, rfl⟩⟩
    · exact ⟨fault, .inr ⟨r, hr, t, ht, hl, fault, hf, rfl⟩⟩

theorem decode_eq_unknownMessageType_iff {n : Int32} :
    decode bytes = .error (.unknownMessageType n) ↔
      ∃ r, Wire.EnvelopeRecord.Denotes bytes r ∧ r.type = n ∧ ¬(1 ≤ n.toInt ∧ n.toInt ≤ 4) := by
  simp only [decode_eq_error_iff, Message.decode_eq_error_iff, WireError.unknownMessageType.injEq, reduceCtorEq,
    false_and, and_false, exists_false, false_or, or_false]
  constructor
  · rintro ⟨r, hr, rfl, hn⟩
    exact ⟨r, hr, rfl, hn⟩
  · rintro ⟨r, hr, rfl, hn⟩
    exact ⟨r, hr, rfl, hn⟩

theorem decode_eq_badCorrelationId_iff {n : Nat} :
    decode bytes = .error (.badCorrelationId n) ↔
      ∃ r, Wire.EnvelopeRecord.Denotes bytes r ∧ (1 ≤ r.type.toInt ∧ r.type.toInt ≤ 4) ∧ r.id.length = n ∧ 8 < n := by
  simp only [decode_eq_error_iff, Message.decode_eq_error_iff, WireError.badCorrelationId.injEq, reduceCtorEq,
    false_and, and_false, exists_false, false_or, or_false, ← MessageType.exists_code_iff]
  constructor
  · rintro ⟨r, hr, t, ht, rfl, hl⟩
    exact ⟨r, hr, ⟨t, ht⟩, rfl, hl⟩
  · rintro ⟨r, hr, ⟨t, ht⟩, rfl, hl⟩
    exact ⟨r, hr, t, ht, rfl, hl⟩

theorem decode_eq_badPort_iff {n : Int32} :
    decode bytes = .error (.badPort n) ↔
      ∃ r, Wire.EnvelopeRecord.Denotes bytes r ∧ r.type = MessageType.hello.code ∧ r.id.length ≤ 8 ∧
        ∃ hello, Wire.HelloRecord.Denotes r.message hello ∧ hello.port = n ∧ ¬(0 ≤ n.toInt ∧ n.toInt ≤ 65535) := by
  simp only [decode_eq_error_iff, Message.decode_eq_error_iff, WireError.badPort.injEq, reduceCtorEq, false_and,
    and_false, exists_false, false_or]
  constructor
  · rintro ⟨r, hr, _, ht, hl, rfl, hello, hh, rfl, hn⟩
    exact ⟨r, hr, ht, hl, hello, hh, rfl, hn⟩
  · rintro ⟨r, hr, ht, hl, hello, hh, rfl, hn⟩
    exact ⟨r, hr, _, ht, hl, rfl, hello, hh, rfl, hn⟩

/-- Bytes are refused for not being a record, for its type, for the length of its id, for a payload that is no record
of the type or for the port in it, in this order; else they are read, and what comes out is what they say. -/
theorem decodes_in_order (bytes : Bytes) :
    ((∃ fault, decode bytes = .error (.malformed fault)) ↔
      (¬∃ r, Wire.EnvelopeRecord.Denotes bytes r) ∨
      ∃ r, Wire.EnvelopeRecord.Denotes bytes r ∧ ∃ t : MessageType, r.type = t.code ∧ r.id.length ≤ 8 ∧
        ¬Message.IsPayload t r.message) ∧
    (∀ n, decode bytes = .error (.unknownMessageType n) ↔
      ∃ r, Wire.EnvelopeRecord.Denotes bytes r ∧ r.type = n ∧ ¬(1 ≤ n.toInt ∧ n.toInt ≤ 4)) ∧
    (∀ n, decode bytes = .error (.badCorrelationId n) ↔
      ∃ r, Wire.EnvelopeRecord.Denotes bytes r ∧ (1 ≤ r.type.toInt ∧ r.type.toInt ≤ 4) ∧ r.id.length = n ∧ 8 < n) ∧
    (∀ n, decode bytes = .error (.badPort n) ↔
      ∃ r, Wire.EnvelopeRecord.Denotes bytes r ∧ r.type = MessageType.hello.code ∧ r.id.length ≤ 8 ∧
        ∃ hello, Wire.HelloRecord.Denotes r.message hello ∧ hello.port = n ∧ ¬(0 ≤ n.toInt ∧ n.toInt ≤ 65535)) ∧
    ∀ e : Envelope, decode bytes = .ok e ↔
      ∃ r, Wire.EnvelopeRecord.Denotes bytes r ∧ r.type = e.type.code ∧ r.id.length ≤ 8 ∧
        e.id.toNat = Nat.ofDigits 256 (r.id.reverse.map UInt8.toNat) ∧ e.token = r.token ∧ e.sender = r.sender ∧
        e.message.IsIn r.message :=
  ⟨decode_malformed_iff, fun _ => decode_eq_unknownMessageType_iff, fun _ => decode_eq_badCorrelationId_iff,
    fun _ => decode_eq_badPort_iff, fun _ => decode_eq_ok_iff⟩

end Envelope
end PeerDiscovery
