import PeerDiscovery.Proofs.Wire.Grammar

/-! Readers and what they read.
`Reader.Reads` says that a reader takes off the front of its input exactly what has a form. -/
namespace PeerDiscovery

theorem Bytes.toText?_eq_some_iff {bytes : Bytes} {text : String} : bytes.toText? = some text ↔ bytes = ofText text := by
  constructor
  · intro h
    rw [toText?, String.fromUTF8?] at h
    split at h
    · obtain rfl := Option.some.inj h
      simp [ofText, String.fromUTF8]
    · cases h
  · rintro rfl
    exact toText?_ofText text

namespace Wire

variable {α β : Type}

namespace Reader

/-- A reader takes a part off the front of its input just if the part has a form, and gives what the part denotes. -/
def Reads (r : Reader β) (Form : Bytes → β → Prop) : Prop :=
  ∀ bytes rest b, r.run (.of bytes) = .ok (b, .of rest) ↔ ∃ part, bytes = part ++ rest ∧ Form part b

theorem Reads.congr {r : Reader β} {F G : Bytes → β → Prop} (h : r.Reads F) (hFG : ∀ part b, F part b ↔ G part b) :
    r.Reads G := by
  intro bytes rest b
  simp only [h bytes rest b, hFG]

theorem Reads.run_eq_ok_iff {r : Reader β} {F : Bytes → β → Prop} (h : r.Reads F) {i j : Input} {b : β} :
    r.run i = .ok (b, j) ↔ ∃ part, i.bytes = part ++ j.bytes ∧ F part b := by
  rw [← h i.bytes j.bytes b, i.of_bytes, j.of_bytes]

theorem Reads.not_form_of_error {r : Reader β} {F : Bytes → β → Prop} (h : r.Reads F) {i : Input} {e : Fault}
    (he : r.run i = .error e) {part rest : Bytes} {b : β} (hi : i.bytes = part ++ rest) : ¬F part b := by
  intro hF
  have hrun : r.run i = .ok (b, .of rest) := h.run_eq_ok_iff.2 ⟨part, hi, hF⟩
  rw [he] at hrun
  cases hrun

theorem Reads.unambiguous {r : Reader β} {F : Bytes → β → Prop} (h : r.Reads F) {part part' rest rest' : Bytes} {b c : β}
    (hb : part ++ rest = part' ++ rest') (hF : F part b) (hF' : F part' c) : part = part' ∧ rest = rest' ∧ b = c := by
  have hrun := (h (part ++ rest) rest b).2 ⟨part, rfl, hF⟩
  have hrun' := (h (part ++ rest) rest' c).2 ⟨part', hb, hF'⟩
  rw [hrun] at hrun'
  obtain ⟨rfl, hi⟩ := Prod.mk.inj (Except.ok.inj hrun')
  obtain rfl : rest = rest' := congrArg Input.bytes hi
  exact ⟨List.append_cancel_right hb, rfl, rfl⟩

theorem run_bind_eq_ok_iff {r : Reader α} {f : α → Reader β} {i j : Input} {b : β} :
    (r >>= f).run i = .ok (b, j) ↔ ∃ a m, r.run i = .ok (a, m) ∧ (f a).run m = .ok (b, j) := by
  cases h : r.run i with
  | error e =>
    rw [run_bind_error h]
    simp
  | ok p =>
    rw [run_bind_ok h]
    simp [Prod.ext_iff]

theorem Reads.bind {r : Reader α} {f : α → Reader β} {F : Bytes → α → Prop} {G : α → Bytes → β → Prop}
    (hr : r.Reads F) (hf : ∀ a, (f a).Reads (G a)) :
    (r >>= f).Reads fun part b => ∃ first second a, part = first ++ second ∧ F first a ∧ G a second b := by
  intro bytes rest b
  rw [run_bind_eq_ok_iff]
  constructor
  · rintro ⟨a, m, ha, hb⟩
    obtain ⟨first, hbytes, hF⟩ := hr.run_eq_ok_iff.1 ha
    obtain ⟨second, hm, hG⟩ := (hf a).run_eq_ok_iff.1 hb
    rw [hm, ← List.append_assoc] at hbytes
    exact ⟨first ++ second, hbytes, first, second, a, rfl, hF, hG⟩
  · rintro ⟨_, rfl, first, second, a, rfl, hF, hG⟩
    exact ⟨a, .of (second ++ rest), (hr _ _ a).2 ⟨first, List.append_assoc .., hF⟩, (hf a _ rest b).2 ⟨second, rfl, hG⟩⟩

theorem reads_pure (a : α) : (pure a : Reader α).Reads fun part b => part = [] ∧ b = a := by
  intro bytes rest b
  rw [run_pure]
  constructor
  · intro h
    obtain ⟨rfl, hi⟩ := Prod.mk.inj (Except.ok.inj h)
    have hbytes : bytes = rest := congrArg Input.bytes hi
    exact ⟨[], hbytes, rfl, rfl⟩
  · rintro ⟨part, rfl, rfl, rfl⟩
    rfl

theorem reads_fail (reason : Reason) : (fail reason : Reader α).Reads fun _ _ => False := by
  intro bytes rest b
  simp

theorem reads_choice {r : Reader β} {P : β → Prop}
    (h : (∃ b, (∀ c, P c ↔ c = b) ∧ r = pure b) ∨ (∀ c, ¬P c) ∧ ∃ reason, r = fail reason) :
    r.Reads fun part b => part = [] ∧ P b := by
  rcases h with ⟨b, hP, rfl⟩ | ⟨hP, reason, rfl⟩
  · exact (reads_pure b).congr fun part c => by rw [hP]
  · exact (reads_fail reason).congr fun part c => by simp [hP]

theorem reads_require (holds : Bool) (reason : Reason) :
    (require holds reason).Reads fun part _ => part = [] ∧ holds = true := by
  cases holds with
  | false => exact (reads_fail reason).congr fun part _ => by simp
  | true => exact (reads_pure ()).congr fun part _ => by simp

theorem reads_block (n : Nat) : (block n).Reads fun part b => part = b ∧ b.length = n := by
  intro bytes rest b
  constructor
  · intro h
    by_cases hn : n ≤ bytes.length
    · have hsplit : bytes.take n ++ bytes.drop n = bytes := List.take_append_drop n bytes
      have hlen : (bytes.take n).length = n := List.length_take_of_le hn
      have hrun := run_block_append (bytes.take n) (bytes.drop n)
      rw [hlen, hsplit, h] at hrun
      obtain ⟨rfl, hi⟩ := Prod.mk.inj (Except.ok.inj hrun)
      have hrest : rest = bytes.drop n := congrArg Input.bytes hi
      exact ⟨bytes.take n, by rw [hrest, hsplit], rfl, hlen⟩
    · have hnone : (Input.of bytes).take? n = none := if_neg hn
      simp only [block, hnone] at h
      cases h
  · rintro ⟨part, rfl, rfl, rfl⟩
    exact run_block_append part rest

theorem Reads.inField {r : Reader β} {F : Bytes → β → Prop} (h : r.Reads F) (name : FieldName) :
    (r.inField name).Reads F := by
  intro bytes rest b
  rw [← h bytes rest b]
  constructor
  · intro hrun
    cases hr : r.run (.of bytes) with
    | error e =>
      simp only [Reader.inField, hr] at hrun
      cases hrun
    | ok p => rwa [run_inField_ok hr] at hrun
  · exact run_inField_ok

end Reader

theorem marked_cons {b : UInt8} {digits : Bytes} :
    Marked (b :: digits) ↔ b.toNat < 128 ∧ digits = [] ∨ 128 ≤ b.toNat ∧ Marked digits := by
  constructor
  · rintro ⟨init, last, hd, hinit, hlast⟩
    cases init with
    | nil =>
      obtain ⟨rfl, rfl⟩ := List.cons.inj hd
      exact .inl ⟨hlast, rfl⟩
    | cons c init =>
      obtain ⟨rfl, rfl⟩ := List.cons.inj hd
      exact .inr ⟨hinit b List.mem_cons_self, init, last, rfl, fun d hd => hinit d (List.mem_cons_of_mem b hd), hlast⟩
  · rintro (⟨hb, rfl⟩ | ⟨hb, init, last, rfl, hinit, hlast⟩)
    · exact ⟨[], b, rfl, fun d hd => absurd hd List.not_mem_nil, hb⟩
    · refine ⟨b :: init, last, rfl, fun d hd => ?_, hlast⟩
      rcases List.mem_cons.1 hd with rfl | hd
      · exact hb
      · exact hinit d hd

theorem base128_cons (b : UInt8) (digits : Bytes) : base128 (b :: digits) = b.toNat % 128 + 128 * base128 digits := by
  simp [base128, Nat.ofDigits_cons]

namespace Varint

theorem read?_cons_of_lt {b : UInt8} (h : b.toNat < 128) (room : Nat) (bytes : Bytes) :
    read? (room + 1) (.of (b :: bytes)) = if room = 0 ∧ 2 ≤ b.toNat then none else some (b.toNat, .of bytes) := by
  rw [read?, Input.next?_cons]
  simp only
  rw [if_pos h]

theorem read?_cons_of_le {b : UInt8} (h : 128 ≤ b.toNat) (room : Nat) (bytes : Bytes) :
    read? (room + 1) (.of (b :: bytes)) =
      (read? room (.of bytes)).map fun (n, k) => (b.toNat - 128 + 128 * n, k) := by
  rw [read?, Input.next?_cons]
  simp only
  rw [if_neg (Nat.not_lt_of_le h)]

theorem exists_marked_of_read? {room n : Nat} {bytes rest : Bytes}
    (h : read? (room + 1) (.of bytes) = some (n, .of rest)) :
    ∃ digits, bytes = digits ++ rest ∧ Marked digits ∧ base128 digits = n ∧ digits.length ≤ room + 1 ∧
      n < 2 * Nat.pow 128 room := by
  have hpow : 0 < Nat.pow 128 room := Nat.pow_pos (by decide)
  induction room generalizing n bytes with
  | zero =>
    cases bytes with
    | nil => cases h
    | cons b bytes =>
      by_cases hb : b.toNat < 128
      · rw [read?_cons_of_lt hb] at h
        split at h
        · cases h
        · next hsmall =>
          obtain ⟨rfl, hi⟩ := Prod.mk.inj (Option.some.inj h)
          obtain rfl : bytes = rest := congrArg Input.bytes hi
          refine ⟨[b], rfl, marked_cons.2 (.inl ⟨hb, rfl⟩), ?_, Nat.le_refl 1, ?_⟩
          · rw [base128_cons, Nat.mod_eq_of_lt hb]
            rfl
          · have hsmall : b.toNat < 2 := by omega
            exact hsmall
      · rw [read?_cons_of_le (Nat.le_of_not_lt hb)] at h
        cases h
  | succ room ih =>
    have hp : Nat.pow 128 (room + 1) = Nat.pow 128 room * 128 := rfl
    cases bytes with
    | nil => cases h
    | cons b bytes =>
      by_cases hb : b.toNat < 128
      · rw [read?_cons_of_lt hb, if_neg (by omega)] at h
        obtain ⟨rfl, hi⟩ := Prod.mk.inj (Option.some.inj h)
        obtain rfl : bytes = rest := congrArg Input.bytes hi
        refine ⟨[b], rfl, marked_cons.2 (.inl ⟨hb, rfl⟩), ?_, by simp, by omega⟩
        rw [base128_cons, Nat.mod_eq_of_lt hb]
        rfl
      · have hb' := Nat.le_of_not_lt hb
        rw [read?_cons_of_le hb'] at h
        obtain ⟨⟨m, i⟩, hm, he⟩ := Option.map_eq_some_iff.1 h
        obtain ⟨rfl, rfl⟩ := Prod.mk.inj he
        obtain ⟨digits, rfl, hmarked, rfl, hlen, hlt⟩ := ih hm (Nat.pow_pos (by decide))
        have hbyte := b.toNat_lt
        refine ⟨b :: digits, rfl, marked_cons.2 (.inr ⟨hb', hmarked⟩), ?_, by simpa using hlen, by omega⟩
        rw [base128_cons]
        omega

theorem read?_of_marked {room : Nat} {digits : Bytes} (h : Marked digits) (hl : digits.length ≤ room + 1)
    (hlt : base128 digits < 2 * Nat.pow 128 room) (rest : Bytes) :
    read? (room + 1) (.of (digits ++ rest)) = some (base128 digits, .of rest) := by
  induction digits generalizing room with
  | nil => exact absurd rfl h.ne_nil
  | cons b digits ih =>
    rw [base128_cons] at hlt ⊢
    rcases marked_cons.1 h with ⟨hb, rfl⟩ | ⟨hb, hm⟩
    · have hzero : base128 [] = 0 := rfl
      rw [hzero, Nat.mod_eq_of_lt hb] at hlt ⊢
      rw [List.singleton_append, read?_cons_of_lt hb, if_neg]
      · rfl
      · rintro ⟨rfl, hlarge⟩
        have hone : Nat.pow 128 0 = 1 := rfl
        omega
    · have hpos := List.length_pos_iff.2 hm.ne_nil
      have hbyte := b.toNat_lt
      rw [List.length_cons] at hl
      obtain ⟨room, rfl⟩ : ∃ room', room = room' + 1 := ⟨room - 1, by omega⟩
      have hp : Nat.pow 128 (room + 1) = Nat.pow 128 room * 128 := rfl
      rw [List.cons_append, read?_cons_of_le hb, ih hm (by omega) (by omega)]
      simp only [Option.map_some, Option.some.injEq, Prod.mk.injEq, and_true]
      omega

end Varint

namespace Reader

theorem reads_varint : varint.Reads IsVarint := by
  intro bytes rest n
  have hsize : 2 * Nat.pow 128 9 = UInt64.size := rfl
  constructor
  · intro h
    cases hr : Varint.read? 10 (.of bytes) with
    | none =>
      simp only [varint, hr] at h
      cases h
    | some p =>
      obtain ⟨m, i⟩ := p
      simp only [varint, hr] at h
      obtain ⟨rfl, rfl⟩ := Prod.mk.inj (Except.ok.inj h)
      obtain ⟨digits, hb, hm, hn, hl, hlt⟩ := Varint.exists_marked_of_read? hr
      exact ⟨digits, hb, hm, hn, hl, hsize ▸ hlt⟩
  · rintro ⟨digits, rfl, hm, rfl, hl, hlt⟩
    have hr := Varint.read?_of_marked hm hl (hsize ▸ hlt) rest
    simp only [varint, hr]

end Reader

theorem WireType.code_of_ofCode? {n : Nat} {t : WireType} (h : ofCode? n = some t) : t.code = n := by
  unfold ofCode? at h
  split at h <;> cases h <;> rfl

theorem Key.ofNat_eq_ok_iff {n : Nat} {k : Key} :
    ofNat n = .ok k ↔ n = 8 * k.tag + k.wireType.code ∧ 0 < k.tag ∧ n < UInt32.size := by
  constructor
  · intro h
    unfold ofNat at h
    split at h
    · cases h
    · next hlt =>
      split at h
      · cases h
      · next t ht =>
        split at h
        · cases h
        · next hpos =>
          obtain rfl := Except.ok.inj h
          have hc := WireType.code_of_ofCode? ht
          refine ⟨?_, Nat.pos_of_ne_zero hpos, Nat.lt_of_not_le hlt⟩
          simp only [hc]
          exact (Nat.div_add_mod n 8).symm
  · rintro ⟨rfl, hpos, hlt⟩
    exact ofNat_eq_ok hpos (Nat.lt_of_le_of_lt (Nat.le_add_right _ _) hlt) k.wireType

namespace Reader

theorem reads_key : key.Reads IsKey := by
  refine (reads_varint.bind fun n => reads_choice (P := fun k => Key.ofNat n = .ok k) ?_).congr fun part k => ?_
  · cases Key.ofNat n with
    | ok k => exact .inl ⟨k, fun k' => by simp [eq_comm], rfl⟩
    | error reason => exact .inr ⟨fun k' => by simp, reason, rfl⟩
  constructor
  · rintro ⟨digits, _, n, rfl, hn, rfl, hk⟩
    obtain ⟨rfl, hpos, hlt⟩ := Key.ofNat_eq_ok_iff.1 hk
    exact ⟨by rwa [List.append_nil], hpos, hlt⟩
  · intro h
    exact ⟨part, [], _, (List.append_nil part).symm, h.varint, rfl, Key.ofNat_eq_ok_iff.2 ⟨rfl, h.pos, h.lt⟩⟩

theorem reads_expect (found expected : WireType) :
    (expect found expected).Reads fun part _ => part = [] ∧ found = expected :=
  (reads_require _ _).congr fun part _ => by simp

theorem reads_int32 (found : WireType) :
    (Reader.int32 found).Reads fun part n => ∃ v : Value, IsScalar found v part ∧ v.IsInt32 n := by
  refine ((reads_expect found .varint).bind fun _ => reads_varint.bind fun n => reads_pure (Int32.ofNat n)).congr
    fun part n => ?_
  constructor
  · rintro ⟨_, _, _, rfl, ⟨rfl, rfl⟩, digits, _, m, rfl, hm, rfl, rfl⟩
    rw [List.nil_append, List.append_nil]
    exact ⟨.varint m, .varint hm, m, rfl, rfl⟩
  · rintro ⟨_, hv, m, rfl, rfl⟩
    cases hv with
    | varint hm => exact ⟨[], part, (), rfl, ⟨rfl, rfl⟩, part, [], m, (List.append_nil part).symm, hm, rfl, rfl⟩

theorem reads_bytes (found : WireType) :
    (Reader.bytes found).Reads fun part bytes => ∃ v : Value, IsScalar found v part ∧ v.IsBytes bytes := by
  refine ((reads_expect found .lengthDelimited).bind fun _ => reads_varint.bind fun n => reads_block n).congr
    fun part bytes => ?_
  constructor
  · rintro ⟨_, _, _, rfl, ⟨rfl, rfl⟩, digits, _, n, rfl, hn, rfl, rfl⟩
    rw [List.nil_append]
    exact ⟨.block _, .block hn, rfl⟩
  · rintro ⟨_, hv, rfl⟩
    cases hv with
    | block hn => exact ⟨[], _, (), rfl, ⟨rfl, rfl⟩, _, bytes, _, rfl, hn, rfl, rfl⟩

theorem reads_text (found : WireType) :
    (Reader.text found).Reads fun part text => ∃ v : Value, IsScalar found v part ∧ v.IsText text := by
  refine ((reads_bytes found).bind fun bytes => reads_choice (P := fun t => bytes.toText? = some t) ?_).congr
    fun part text => ?_
  · cases bytes.toText? with
    | some t => exact .inl ⟨t, fun t' => by simp [eq_comm], rfl⟩
    | none => exact .inr ⟨fun t' => by simp, .notText, rfl⟩
  constructor
  · rintro ⟨first, _, bytes, rfl, ⟨v, hv, rfl⟩, rfl, ht⟩
    rw [List.append_nil]
    exact ⟨_, hv, congrArg Value.block (Bytes.toText?_eq_some_iff.1 ht)⟩
  · rintro ⟨v, hv, rfl⟩
    exact ⟨part, [], _, (List.append_nil part).symm, ⟨_, hv, rfl⟩, rfl, Bytes.toText?_ofText text⟩

theorem reads_skipScalar (found : WireType) :
    (skipScalar found).Reads fun part _ => ∃ v, IsScalar found v part := by
  have hnot : ∀ t : WireType, t = .startGroup ∨ t = .endGroup → ∀ v part, ¬IsScalar t v part := by
    rintro t (rfl | rfl) v part ⟨⟩
  cases found with
  | varint =>
    refine (reads_varint.bind fun _ => reads_pure ()).congr fun part _ => ?_
    constructor
    · rintro ⟨digits, _, n, rfl, hn, rfl, -⟩
      rw [List.append_nil]
      exact ⟨.varint n, .varint hn⟩
    · rintro ⟨_, ⟨hn⟩⟩
      exact ⟨part, [], _, (List.append_nil part).symm, hn, rfl, rfl⟩
  | sixtyFourBit =>
    refine ((reads_block 8).bind fun _ => reads_pure ()).congr fun part _ => ?_
    constructor
    · rintro ⟨bytes, _, _, rfl, ⟨rfl, hn⟩, rfl, -⟩
      rw [List.append_nil]
      exact ⟨.fixed bytes, .sixtyFourBit hn⟩
    · rintro ⟨_, ⟨⟩⟩
      exact ⟨part, [], part, (List.append_nil part).symm, ⟨rfl, ‹_›⟩, rfl, rfl⟩
  | thirtyTwoBit =>
    refine ((reads_block 4).bind fun _ => reads_pure ()).congr fun part _ => ?_
    constructor
    · rintro ⟨bytes, _, _, rfl, ⟨rfl, hn⟩, rfl, -⟩
      rw [List.append_nil]
      exact ⟨.fixed bytes, .thirtyTwoBit hn⟩
    · rintro ⟨_, ⟨⟩⟩
      exact ⟨part, [], part, (List.append_nil part).symm, ⟨rfl, ‹_›⟩, rfl, rfl⟩
  | lengthDelimited =>
    refine (reads_varint.bind fun n => (reads_block n).bind fun _ => reads_pure ()).congr fun part _ => ?_
    constructor
    · rintro ⟨digits, _, _, rfl, hn, bytes, _, _, rfl, ⟨rfl, rfl⟩, rfl, -⟩
      rw [List.append_nil]
      exact ⟨.block bytes, .block hn⟩
    · rintro ⟨_, ⟨⟩⟩
      exact ⟨_, _, _, rfl, ‹_›, _, [], _, (List.append_nil _).symm, ⟨rfl, rfl⟩, rfl, rfl⟩
  | startGroup => exact (reads_fail _).congr fun part _ => by simp [hnot]
  | endGroup => exact (reads_fail _).congr fun part _ => by simp [hnot]

end Reader

/-- The rest of the open groups, innermost first: what is left of a group, its closing key and the rest of those
around it. -/
def Unwinds (levels : Nat) : List Nat → Bytes → Prop
  | [], bytes => bytes = []
  | tag :: outer, bytes => ∃ items body close rest, bytes = body ++ close ++ rest ∧
    Sequence (IsValue (levels - (outer.length + 1))) items body ∧ IsKey close ⟨tag, .endGroup⟩ ∧ Unwinds levels outer rest

/-- What can stand behind a key inside of open groups. -/
inductive Continues (levels tag : Nat) (outer : List Nat) (k : Key) (bytes : Bytes) : Prop
  | closed (hk : k = ⟨tag, .endGroup⟩) (h : Unwinds levels outer bytes)
  | opened (hl : outer.length + 1 < levels) (hk : k.wireType = .startGroup)
    (h : Unwinds levels (k.tag :: tag :: outer) bytes)
  | scalar (hl : outer.length + 1 < levels) (h : ∃ part rest, bytes = part ++ rest ∧ (∃ v, IsScalar k.wireType v part) ∧
      Unwinds levels (tag :: outer) rest)

theorem unwinds_cons {levels tag : Nat} {outer : List Nat} {bytes : Bytes} :
    Unwinds levels (tag :: outer) bytes ↔
      ∃ head rest k, bytes = head ++ rest ∧ IsKey head k ∧ Continues levels tag outer k rest := by
  constructor
  · rintro ⟨_, _, close, rest, rfl, hbody, hclose, hrest⟩
    cases hbody with
    | nil => exact ⟨close, rest, _, rfl, hclose, .closed rfl hrest⟩
    | @cons head part body k v items hk hv hbody =>
      refine ⟨head, part ++ (body ++ close ++ rest), k, by simp, hk, ?_⟩
      have hl : outer.length + 1 < levels := by
        refine Nat.lt_of_sub_pos (Nat.pos_of_ne_zero fun hz => ?_)
        rwa [hz] at hv
      have hlevels : levels - (outer.length + 1) = levels - (outer.length + 1 + 1) + 1 := by omega
      rw [hlevels, IsValue] at hv
      rcases hv with hv | ⟨hstart, -, inner, content, close', rfl, hcontent, hclose'⟩
      · exact .scalar hl ⟨part, _, rfl, ⟨v, hv⟩, items, body, close, rest, rfl, hbody, hclose, hrest⟩
      · exact .opened hl hstart
          ⟨inner, content, close', _, rfl, hcontent, hclose', items, body, close, rest, rfl, hbody, hclose, hrest⟩
  · rintro ⟨head, _, k, rfl, hk, hcont⟩
    cases hcont with
    | closed hkey h =>
      subst hkey
      exact ⟨[], [], head, _, rfl, .nil, hk, h⟩
    | opened hl hstart h =>
      obtain ⟨inner, content, close', _, rfl, hcontent, hclose', items, body, close, rest, rfl, hbody, hclose, hrest⟩ := h
      have hlevels : levels - (outer.length + 1) = levels - (outer.length + 1 + 1) + 1 := by omega
      have hv : IsValue (levels - (outer.length + 1)) k .group (content ++ close') := by
        rw [hlevels, IsValue]
        exact .inr ⟨hstart, rfl, inner, content, close', rfl, hcontent, hclose'⟩
      exact ⟨_, _, close, rest, by simp, .cons hk hv hbody, hclose, hrest⟩
    | scalar hl h =>
      obtain ⟨part, _, rfl, ⟨v, hv⟩, items, body, close, rest, rfl, hbody, hclose, hrest⟩ := h
      have hlevels : levels - (outer.length + 1) = levels - (outer.length + 1 + 1) + 1 := by omega
      have hv' : IsValue (levels - (outer.length + 1)) k v part := by
        rw [hlevels, IsValue]
        exact .inl hv
      exact ⟨_, _, close, rest, by simp, .cons hk hv' hbody, hclose, hrest⟩

section

variable {levels tag : Nat} {outer : List Nat} {k : Key} {bytes : Bytes}

theorem continues_of_endGroup (h : k.wireType = .endGroup) :
    Continues levels tag outer k bytes ↔ k.tag = tag ∧ Unwinds levels outer bytes := by
  constructor
  · rintro (⟨rfl, hu⟩ | ⟨-, hstart, -⟩ | ⟨-, _, _, -, ⟨v, hv⟩, -⟩)
    · exact ⟨rfl, hu⟩
    · rw [h] at hstart
      cases hstart
    · rw [h] at hv
      cases hv
  · rintro ⟨rfl, hu⟩
    exact .closed (by rw [← h]) hu

theorem not_continues_of_le (h : k.wireType ≠ .endGroup) (hl : levels ≤ outer.length + 1) :
    ¬Continues levels tag outer k bytes := by
  rintro (⟨rfl, -⟩ | ⟨hl', -, -⟩ | ⟨hl', -⟩)
  · exact h rfl
  · exact absurd hl' (Nat.not_lt_of_le hl)
  · exact absurd hl' (Nat.not_lt_of_le hl)

theorem continues_of_startGroup (hl : outer.length + 1 < levels) (h : k.wireType = .startGroup) :
    Continues levels tag outer k bytes ↔ Unwinds levels (k.tag :: tag :: outer) bytes := by
  refine ⟨?_, .opened hl h⟩
  rintro (⟨rfl, -⟩ | ⟨-, -, hu⟩ | ⟨-, _, _, -, ⟨v, hv⟩, -⟩)
  · cases h
  · exact hu
  · rw [h] at hv
    cases hv

theorem continues_of_scalar (hl : outer.length + 1 < levels) (h : k.wireType ≠ .endGroup) (h' : k.wireType ≠ .startGroup) :
    Continues levels tag outer k bytes ↔
      ∃ part rest, bytes = part ++ rest ∧ (∃ v, IsScalar k.wireType v part) ∧ Unwinds levels (tag :: outer) rest := by
  refine ⟨?_, .scalar hl⟩
  rintro (⟨rfl, -⟩ | ⟨-, hstart, -⟩ | ⟨-, hscalar⟩)
  · exact absurd rfl h
  · exact absurd hstart h'
  · exact hscalar

end

namespace Reader

variable {levels tag : Nat} {outer : List Nat}

theorem unwinds_of_key {i j m : Input} {k : Key} (h : key.run i = .ok (k, m)) :
    (∃ part, i.bytes = part ++ j.bytes ∧ Unwinds levels (tag :: outer) part) ↔
      ∃ part, m.bytes = part ++ j.bytes ∧ Continues levels tag outer k part := by
  obtain ⟨head, hi, hk⟩ := reads_key.run_eq_ok_iff.1 h
  rw [hi]
  constructor
  · rintro ⟨part, hpart, hu⟩
    obtain ⟨head', after, k', rfl, hk', hc⟩ := unwinds_cons.1 hu
    rw [List.append_assoc] at hpart
    obtain ⟨rfl, hm, rfl⟩ := reads_key.unambiguous hpart hk hk'
    exact ⟨after, hm, hc⟩
  · rintro ⟨part, hm, hc⟩
    exact ⟨head ++ part, by rw [hm, List.append_assoc], unwinds_cons.2 ⟨head, part, k, rfl, hk, hc⟩⟩

theorem skipOpen_eq_ok_iff {opened : List Nat} {i j : Input} :
    skipOpen levels opened i = .ok ((), j) ↔ ∃ part, i.bytes = part ++ j.bytes ∧ Unwinds levels opened part := by
  fun_induction skipOpen levels opened i with
  | case1 i =>
    constructor
    · intro h
      exact ⟨[], congrArg (fun p => p.2.bytes) (Except.ok.inj h), rfl⟩
    · rintro ⟨_, hi, rfl⟩
      rw [Input.ext hi]
  | case2 tag outer i e hkey =>
    refine ⟨fun h => (by cases h), ?_⟩
    rintro ⟨_, hi, hu⟩
    obtain ⟨head, after, k, rfl, hk, -⟩ := unwinds_cons.1 hu
    rw [List.append_assoc] at hi
    exact absurd hk (reads_key.not_form_of_error hkey hi)
  | case3 outer i k m hkey hend ih =>
    rw [ih, unwinds_of_key hkey]
    simp only [continues_of_endGroup hend, true_and]
  | case4 tag outer i k m hkey hend htag =>
    rw [unwinds_of_key hkey]
    simp only [continues_of_endGroup hend, htag, false_and, and_false, exists_false, reduceCtorEq]
  | case5 tag outer i k m hkey hl hend =>
    rw [unwinds_of_key hkey]
    simp only [not_continues_of_le hend hl, and_false, exists_false, reduceCtorEq]
  | case6 tag outer i k m hkey hl _ hstart ih =>
    rw [ih, unwinds_of_key hkey]
    simp only [continues_of_startGroup (Nat.lt_of_not_le hl) hstart]
  | case7 tag outer i k m hkey hl e hend hstart hscalar =>
    rw [unwinds_of_key hkey]
    simp only [continues_of_scalar (Nat.lt_of_not_le hl) hend hstart]
    refine ⟨fun h => (by cases h), ?_⟩
    rintro ⟨_, hm, part, after, rfl, hv, -⟩
    rw [List.append_assoc] at hm
    exact absurd hv ((reads_skipScalar _).not_form_of_error (b := ()) hscalar hm)
  | case8 tag outer i k m hkey hl _ m' hend hstart hscalar ih =>
    obtain ⟨part, hm, hv⟩ := (reads_skipScalar _).run_eq_ok_iff.1 hscalar
    rw [ih, unwinds_of_key hkey, hm]
    simp only [continues_of_scalar (Nat.lt_of_not_le hl) hend hstart]
    constructor
    · rintro ⟨after, hm', hu⟩
      exact ⟨part ++ after, by rw [hm', List.append_assoc], part, after, rfl, hv, hu⟩
    · rintro ⟨_, hpart, part', after, rfl, hv', hu⟩
      rw [List.append_assoc] at hpart
      obtain ⟨-, hm', -⟩ := (reads_skipScalar _).unambiguous (b := ()) (c := ()) hpart hv hv'
      exact ⟨after, hm', hu⟩

/-- What is passed over is the value of a field, whatever its tag. -/
theorem reads_skip (levels : Nat) (k : Key) : (skip levels k).Reads fun part _ => ∃ v, IsValue levels k v part := by
  cases levels with
  | zero => exact (reads_fail _).congr fun part _ => by simp [IsValue]
  | succ levels =>
    by_cases hstart : k.wireType = .startGroup
    · intro bytes rest u
      have hrun : (skip (levels + 1) k).run (.of bytes) = skipOpen (levels + 1) [k.tag] (.of bytes) := by
        rw [skip, if_neg (Nat.succ_ne_zero levels), if_pos hstart]
      rw [hrun, skipOpen_eq_ok_iff]
      refine exists_congr fun part => and_congr_right fun _ => ?_
      simp only [IsValue, hstart]
      constructor
      · rintro ⟨items, body, close, _, rfl, hbody, hclose, rfl⟩
        exact ⟨.group, .inr ⟨trivial, rfl, items, body, close, List.append_nil _, hbody, hclose⟩⟩
      · rintro ⟨v, hv | ⟨-, -, items, body, close, rfl, hbody, hclose⟩⟩
        · cases hv
        · exact ⟨items, body, close, [], (List.append_nil _).symm, hbody, hclose, rfl⟩
    · have hskip : skip (levels + 1) k = skipScalar k.wireType := by
        rw [skip, if_neg (Nat.succ_ne_zero levels), if_neg hstart]
      rw [hskip]
      refine (reads_skipScalar k.wireType).congr fun part _ => exists_congr fun v => ?_
      simp only [IsValue, hstart, false_and, or_false]

end Reader
end Wire
end PeerDiscovery
