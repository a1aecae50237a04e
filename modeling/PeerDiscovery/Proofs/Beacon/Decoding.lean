import PeerDiscovery.Beacon
import PeerDiscovery.Proofs.Net.Ipv6
import PeerDiscovery.Proofs.Wire.Records

/-! Which datagrams are beacons, and of whom: `Beacon.decodes_exactly`.
The causes of refusal are looked at one after the other, so each of them has those before it in its condition. -/
namespace PeerDiscovery

/-- The endpoint of an address that a machine gives has just this address for its socket. -/
theorem Endpoint.socketAddr_tcp_text (ip : Net.IpAddr) (port : UInt16) :
    (Endpoint.tcp ip.text port).socketAddr = .ok ⟨ip, port⟩ := by
  have hany : ip.text ≠ anyAddress := by
    intro h
    have hp := ip.parse?_text
    rw [h] at hp
    cases hp
  have hip : ip? ip.text = some ip := by
    rw [ip?, if_neg hany, ip.parse?_text]
  simp only [socketAddr, tcp, hip]

namespace Beacon

/-- The bytes behind the magic are those of a record. -/
structure Carries (bytes : Bytes) (r : Wire.BeaconRecord) : Prop where
  long : 3 < bytes.length
  magic : magic <+: bytes
  record : Wire.BeaconRecord.Denotes (bytes.drop 3) r

/-- What a record says to a node that has it from a source. -/
def ofRecord (r : Wire.BeaconRecord) (source : Net.IpAddr) : Except WireError Beacon :=
  match PeerId.ofBytes? r.peerId with
  | none => .error (.badPeerId r.peerId.length)
  | some peer =>
    match port? r.mailboxPort with
    | none => .error (.badPort r.mailboxPort)
    | some port => .ok ⟨peer, .tcp source.text port⟩

theorem port?_eq_some_iff {n : Int32} {port : UInt16} : port? n = some port ↔ port ≠ 0 ∧ (port.toNat : Int) = n.toInt := by
  have hzero : port ≠ 0 ↔ port.toNat ≠ 0 := by simp [← UInt16.toNat_inj]
  have hlt := port.toNat_lt
  have hs : UInt16.size = 65536 := rfl
  rw [hzero]
  constructor
  · intro h
    simp only [port?] at h
    split at h
    · next hn =>
      obtain rfl := Option.some.inj h
      have hp : (UInt16.ofNat n.toInt.toNat).toNat = n.toInt.toNat := UInt16.toNat_ofNat_of_lt' (by omega)
      omega
    · cases h
  · rintro ⟨hp, hn⟩
    rw [port?, if_pos (by omega), ← hn, Int.toNat_natCast, UInt16.ofNat_toNat]

theorem port?_eq_none_iff {n : Int32} : port? n = none ↔ ¬(1 ≤ n.toInt ∧ n.toInt ≤ 65535) := by
  simp only [port?, ite_eq_right_iff, reduceCtorEq, imp_false]
  exact Iff.rfl

theorem ofRecord_eq_badPeerId_iff {r : Wire.BeaconRecord} {source : Net.IpAddr} {n : Nat} :
    ofRecord r source = .error (.badPeerId n) ↔ r.peerId.length = n ∧ n ≠ 16 := by
  unfold ofRecord
  cases hp : PeerId.ofBytes? r.peerId with
  | none =>
    have hl := PeerId.ofBytes?_eq_none_iff.1 hp
    simp only [Except.error.injEq, WireError.badPeerId.injEq]
    exact ⟨fun h => ⟨h, h ▸ hl⟩, fun h => h.1⟩
  | some peer =>
    have hl : r.peerId.length = 16 := PeerId.ofBytes?_eq_some hp ▸ peer.length_eq
    cases port? r.mailboxPort <;> exact ⟨nofun, fun h => absurd (h.1.symm.trans hl) h.2⟩

theorem ofRecord_eq_badPort_iff {r : Wire.BeaconRecord} {source : Net.IpAddr} {n : Int32} :
    ofRecord r source = .error (.badPort n) ↔
      r.peerId.length = 16 ∧ r.mailboxPort = n ∧ ¬(1 ≤ n.toInt ∧ n.toInt ≤ 65535) := by
  unfold ofRecord
  cases hp : PeerId.ofBytes? r.peerId with
  | none => simp [PeerId.ofBytes?_eq_none_iff.1 hp]
  | some peer =>
    have hl : r.peerId.length = 16 := PeerId.ofBytes?_eq_some hp ▸ peer.length_eq
    cases hport : port? r.mailboxPort with
    | none =>
      have hn := port?_eq_none_iff.1 hport
      simp only [Except.error.injEq, WireError.badPort.injEq]
      exact ⟨fun h => ⟨hl, h, h ▸ hn⟩, fun h => h.2.1⟩
    | some port =>
      have hsome : port? r.mailboxPort ≠ none := by simp [hport]
      refine ⟨nofun, ?_⟩
      rintro ⟨-, rfl, hn⟩
      exact absurd (port?_eq_none_iff.2 hn) hsome

theorem ofRecord_eq_ok_iff {r : Wire.BeaconRecord} {source : Net.IpAddr} {b : Beacon} :
    ofRecord r source = .ok b ↔ r.peerId = b.peer.bytes ∧
      ∃ port : UInt16, port ≠ 0 ∧ (port.toNat : Int) = r.mailboxPort.toInt ∧ b.endpoint = .tcp source.text port := by
  constructor
  · intro h
    unfold ofRecord at h
    split at h
    · cases h
    · next peer hp =>
      split at h
      · cases h
      · next port hport =>
        obtain rfl := Except.ok.inj h
        obtain ⟨hne, hn⟩ := port?_eq_some_iff.1 hport
        exact ⟨(PeerId.ofBytes?_eq_some hp).symm, port, hne, hn, rfl⟩
  · rintro ⟨hp, port, hne, hn, he⟩
    obtain ⟨peer, endpoint⟩ := b
    simp only at hp he
    simp only [ofRecord, hp, PeerId.ofBytes?_bytes, port?_eq_some_iff.2 ⟨hne, hn⟩, he]

theorem ofRecord_ne_badMagic (r : Wire.BeaconRecord) (source : Net.IpAddr) : ofRecord r source ≠ .error .badMagic := by
  unfold ofRecord
  split
  · nofun
  · split <;> nofun

theorem ofRecord_ne_malformed (r : Wire.BeaconRecord) (source : Net.IpAddr) (fault : Wire.Fault) :
    ofRecord r source ≠ .error (.malformed fault) := by
  unfold ofRecord
  split
  · nofun
  · split <;> nofun

variable {bytes : Bytes} {source : Net.IpAddr}

theorem decode_of_not_magic (h : bytes.length ≤ 3 ∨ ¬magic <+: bytes) (source : Net.IpAddr) :
    decode bytes source = .error .badMagic := by
  have htake : bytes.length ≤ 3 ∨ bytes.take 3 ≠ magic :=
    h.imp_right fun h ht => h (ht ▸ List.take_prefix 3 bytes)
  rw [decode, if_pos htake]

theorem decode_of_magic (hl : 3 < bytes.length) (hm : magic <+: bytes) (source : Net.IpAddr) :
    decode bytes source =
      match Wire.BeaconRecord.layout.decode (bytes.drop 3) with
      | .error fault => .error (.malformed fault)
      | .ok r => ofRecord r source := by
  have htake : ¬(bytes.length ≤ 3 ∨ bytes.take 3 ≠ magic) := by
    rintro (h | h)
    · exact absurd hl (Nat.not_lt_of_le h)
    · exact h (List.prefix_iff_eq_take.1 hm).symm
  rw [decode, if_neg htake, WireError.decode]
  cases Wire.BeaconRecord.layout.decode (bytes.drop 3) <;> rfl

theorem decode_of_carries {r : Wire.BeaconRecord} (h : Carries bytes r) (source : Net.IpAddr) :
    decode bytes source = ofRecord r source := by
  rw [decode_of_magic h.long h.magic, Wire.BeaconRecord.decode_eq_ok_iff.2 h.record]

theorem decode_cases (bytes : Bytes) (source : Net.IpAddr) :
    ((bytes.length ≤ 3 ∨ ¬magic <+: bytes) ∧ decode bytes source = .error .badMagic) ∨
    ((3 < bytes.length ∧ magic <+: bytes ∧ ¬∃ r, Wire.BeaconRecord.Denotes (bytes.drop 3) r) ∧
      ∃ fault, decode bytes source = .error (.malformed fault)) ∨
    ∃ r, Carries bytes r ∧ decode bytes source = ofRecord r source := by
  by_cases hmagic : bytes.length ≤ 3 ∨ ¬magic <+: bytes
  · exact .inl ⟨hmagic, decode_of_not_magic hmagic source⟩
  · obtain ⟨hl, hm⟩ : 3 < bytes.length ∧ magic <+: bytes := by simpa using hmagic
    have hd := decode_of_magic hl hm source
    cases hrecord : Wire.BeaconRecord.layout.decode (bytes.drop 3) with
    | error fault =>
      have hn := (Wire.Layout.exists_fault_iff fun _ => Wire.BeaconRecord.decode_eq_ok_iff).1 ⟨fault, hrecord⟩
      rw [hrecord] at hd
      exact .inr (.inl ⟨⟨hl, hm, hn⟩, fault, hd⟩)
    | ok r => exact .inr (.inr ⟨r, ⟨hl, hm, Wire.BeaconRecord.decode_eq_ok_iff.1 hrecord⟩, by rw [hd, hrecord]⟩)

theorem decode_eq_badMagic_iff : decode bytes source = .error .badMagic ↔ bytes.length ≤ 3 ∨ ¬magic <+: bytes := by
  refine ⟨fun h => ?_, fun h => decode_of_not_magic h source⟩
  rcases decode_cases bytes source with ⟨hm, -⟩ | ⟨-, fault, hd⟩ | ⟨r, -, hd⟩
  · exact hm
  · rw [hd] at h
    cases h
  · exact absurd (hd.symm.trans h) (ofRecord_ne_badMagic r source)

theorem decode_malformed_iff :
    (∃ fault, decode bytes source = .error (.malformed fault)) ↔
      3 < bytes.length ∧ magic <+: bytes ∧ ¬∃ r, Wire.BeaconRecord.Denotes (bytes.drop 3) r := by
  constructor
  · rintro ⟨fault, h⟩
    rcases decode_cases bytes source with ⟨-, hd⟩ | ⟨hn, -⟩ | ⟨r, -, hd⟩
    · rw [hd] at h
      cases h
    · exact hn
    · exact absurd (hd.symm.trans h) (ofRecord_ne_malformed r source fault)
  · rintro ⟨hl, hm, hn⟩
    rcases decode_cases bytes source with ⟨hmagic, -⟩ | ⟨-, hd⟩ | ⟨r, hr, -⟩
    · rcases hmagic with h | h
      · exact absurd hl (Nat.not_lt_of_le h)
      · exact absurd hm h
    · exact hd
    · exact absurd ⟨r, hr.record⟩ hn

theorem decode_eq_iff_of_record {result : Except WireError Beacon} (hmagic : result ≠ .error .badMagic)
    (hmalformed : ∀ fault, result ≠ .error (.malformed fault)) :
    decode bytes source = result ↔ ∃ r, Carries bytes r ∧ ofRecord r source = result := by
  constructor
  · rintro rfl
    rcases decode_cases bytes source with ⟨-, hd⟩ | ⟨-, fault, hd⟩ | ⟨r, hr, hd⟩
    · exact absurd hd hmagic
    · exact absurd hd (hmalformed fault)
    · exact ⟨r, hr, hd.symm⟩
  · rintro ⟨r, hr, rfl⟩
    exact decode_of_carries hr source

theorem carries_encode (peer : PeerId) (port : UInt16) :
    Carries (encode peer port) ⟨peer.bytes, Int32.ofNat port.toNat⟩ := by
  have hwritable : Wire.BeaconRecord.Writable ⟨peer.bytes, Int32.ofNat port.toNat⟩ := by
    rw [Wire.BeaconRecord.Writable, peer.length_eq]
    decide
  have hlong : 16 ≤ (Wire.BeaconRecord.layout.encode ⟨peer.bytes, Int32.ofNat port.toNat⟩).length := by
    have hl := Wire.length_le_encodeBytes 1 peer.bytes
    rw [peer.length_eq] at hl
    exact Nat.le_trans hl (by simp [Wire.BeaconRecord.layout])
  refine ⟨?_, List.prefix_append _ _, ?_⟩
  · rw [encode, List.length_append]
    omega
  · have hdrop : (encode peer port).drop 3 = Wire.BeaconRecord.layout.encode ⟨peer.bytes, Int32.ofNat port.toNat⟩ := rfl
    rw [hdrop]
    exact Wire.BeaconRecord.decode_eq_ok_iff.1 (Wire.BeaconRecord.faithful.reads_back _ hwritable)

theorem decode_encode (peer : PeerId) {port : UInt16} (h : port ≠ 0) (source : Net.IpAddr) :
    decode (encode peer port) source = .ok ⟨peer, .tcp source.text port⟩ := by
  have hlt := port.toNat_lt
  have hport : (Int32.ofNat port.toNat).toInt = port.toNat := Int32.toInt_ofNat_of_lt (by omega)
  rw [decode_of_carries (carries_encode peer port), ofRecord_eq_ok_iff]
  exact ⟨rfl, port, h, hport.symm, rfl⟩

theorem endpoint_of_decode {b : Beacon} (h : decode bytes source = .ok b) :
    ∃ port : UInt16, port ≠ 0 ∧ b.endpoint = .tcp source.text port := by
  obtain ⟨r, -, hr⟩ := (decode_eq_iff_of_record (by simp) (by simp)).1 h
  obtain ⟨-, port, hport, -, he⟩ := ofRecord_eq_ok_iff.1 hr
  exact ⟨port, hport, he⟩

/-- A beacon of one's own is read as such and leads back to its source. Other bytes are refused for the want of the
magic, of a record, of an identity of 16 bytes or of a port, in this order; and else they say just what their record
does, at the source, so that neither port 0 nor another address comes out of them. -/
theorem decodes_exactly (source : Net.IpAddr) :
    (∀ (peer : PeerId) (port : UInt16), port ≠ 0 → ∃ b, decode (encode peer port) source = .ok b ∧ b.peer = peer ∧
      b.endpoint.transport = .tcp ∧ b.endpoint.socketAddr = .ok ⟨source, port⟩) ∧
    ∀ bytes,
      (decode bytes source = .error .badMagic ↔ bytes.length ≤ 3 ∨ ¬magic <+: bytes) ∧
      ((∃ fault, decode bytes source = .error (.malformed fault)) ↔
        3 < bytes.length ∧ magic <+: bytes ∧ ¬∃ r, Wire.BeaconRecord.Denotes (bytes.drop 3) r) ∧
      (∀ n, decode bytes source = .error (.badPeerId n) ↔ ∃ r, Carries bytes r ∧ r.peerId.length = n ∧ n ≠ 16) ∧
      (∀ n, decode bytes source = .error (.badPort n) ↔
        ∃ r, Carries bytes r ∧ r.peerId.length = 16 ∧ r.mailboxPort = n ∧ ¬(1 ≤ n.toInt ∧ n.toInt ≤ 65535)) ∧
      (∀ b, decode bytes source = .ok b ↔ ∃ r, Carries bytes r ∧ r.peerId = b.peer.bytes ∧
        ∃ port : UInt16, port ≠ 0 ∧ (port.toNat : Int) = r.mailboxPort.toInt ∧ b.endpoint = .tcp source.text port) ∧
      ∀ b, decode bytes source = .ok b →
        b.endpoint.port ≠ 0 ∧ b.endpoint.socketAddr = .ok ⟨source, b.endpoint.port⟩ := by
  refine ⟨fun peer port h => ⟨_, decode_encode peer h source, rfl, rfl, Endpoint.socketAddr_tcp_text source port⟩,
    fun bytes => ?_⟩
  have hok : ∀ b, decode bytes source = .ok b ↔ ∃ r, Carries bytes r ∧ r.peerId = b.peer.bytes ∧
      ∃ port : UInt16, port ≠ 0 ∧ (port.toNat : Int) = r.mailboxPort.toInt ∧ b.endpoint = .tcp source.text port := by
    intro b
    rw [decode_eq_iff_of_record (by simp) (by simp)]
    simp only [ofRecord_eq_ok_iff]
  refine ⟨decode_eq_badMagic_iff, decode_malformed_iff, fun n => ?_, fun n => ?_, hok, fun b hb => ?_⟩
  · rw [decode_eq_iff_of_record (by simp) (by simp)]
    simp only [ofRecord_eq_badPeerId_iff]
  · rw [decode_eq_iff_of_record (by simp) (by simp)]
    simp only [ofRecord_eq_badPort_iff]
  · obtain ⟨r, -, -, port, hport, -, he⟩ := (hok b).1 hb
    rw [he]
    exact ⟨hport, Endpoint.socketAddr_tcp_text source port⟩

end Beacon
end PeerDiscovery
