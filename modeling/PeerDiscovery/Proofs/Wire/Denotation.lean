import PeerDiscovery.Proofs.Wire.Parsing

/-! The bytes that decode to a record are just those whose fields say so, one `decode_eq_ok_iff` a record.
`Layout.Follows` is what a layout has to do with each single field. -/
namespace PeerDiscovery
namespace Wire

namespace Reader

variable {α : Type}

theorem run_require_eq_ok_iff {holds : Bool} {reason : Reason} {i j : Input} {u : Unit} :
    (require holds reason).run i = .ok (u, j) ↔ holds = true ∧ i = j := by
  cases holds <;> simp [require]

variable {κ : Type} {head : Reader κ} {head_lt : ∀ {i j : Input} {k : κ}, head.run i = .ok (k, j) → j.size < i.size}
  {value : κ → α → Reader α} {stop : Nat} {acc acc' : α} {i j j' : Input} {k : κ}

theorem fieldsFrom_stop (h : i.size ≤ stop) : fieldsFrom head head_lt value stop acc i = .ok (acc, i) := by
  rw [fieldsFrom, if_pos h]

theorem fieldsFrom_next (h : stop < i.size) (hk : head.run i = .ok (k, j))
    (hv : (value k acc).run j = .ok (acc', j')) :
    fieldsFrom head head_lt value stop acc i = fieldsFrom head head_lt value stop acc' j' := by
  rw [fieldsFrom, if_neg (Nat.not_le_of_lt h)]
  split
  · next e he =>
    rw [hk] at he
    cases he
  · next k₁ j₁ he =>
    rw [hk] at he
    cases he
    split
    · next e he' =>
      rw [hv] at he'
      cases he'
    · next a₂ j₂ he' =>
      rw [hv] at he'
      cases he'
      rfl

end Reader

variable {α : Type}

namespace Layout

/-- What the layout makes of one field agrees with `Updates`, which takes one field after the other. -/
structure Follows (layout : Layout α) (levels : Nat) (Updates : α → List Item → α → Prop) : Prop where
  nil : ∀ {a b}, Updates a [] b ↔ b = a
  cons : ∀ {a i items c}, Updates a (i :: items) c ↔ ∃ b, Updates a [i] b ∧ Updates b items c
  value : ∀ k a, (layout.value levels k a).Reads fun part b => ∃ v, IsValue levels k v part ∧ Updates a [⟨k.tag, v⟩] b

variable {layout : Layout α} {levels stop : Nat} {Updates : α → List Item → α → Prop} {a b : α}

theorem size_le_stop {i j : Input}
    (h : Reader.fieldsFrom Reader.key Reader.size_of_key (layout.value levels) stop a i = .ok (b, j)) : j.size ≤ stop := by
  fun_induction Reader.fieldsFrom Reader.key Reader.size_of_key (layout.value levels) stop a i with
  | case1 a i hs =>
    cases h
    exact hs
  | case2 => cases h
  | case3 => cases h
  | case4 a i _ k i₁ _ a' i₂ _ ih => exact ih h

theorem Follows.of_fieldsFrom (hl : layout.Follows levels Updates) {i j : Input}
    (h : Reader.fieldsFrom Reader.key Reader.size_of_key (layout.value levels) stop a i = .ok (b, j)) :
    ∃ items part, i.bytes = part ++ j.bytes ∧ IsFields levels items part ∧ Updates a items b := by
  fun_induction Reader.fieldsFrom Reader.key Reader.size_of_key (layout.value levels) stop a i with
  | case1 a i _ =>
    cases h
    exact ⟨[], [], rfl, .nil, hl.nil.2 rfl⟩
  | case2 => cases h
  | case3 => cases h
  | case4 a i _ k i₁ hkey a' i₂ hvalue ih =>
    obtain ⟨head, hi, hk⟩ := Reader.reads_key.run_eq_ok_iff.1 hkey
    obtain ⟨part, hi₁, v, hv, hu⟩ := (hl.value k a).run_eq_ok_iff.1 hvalue
    obtain ⟨items, rest, hi₂, hrest, hus⟩ := ih h
    refine ⟨⟨k.tag, v⟩ :: items, head ++ part ++ rest, ?_, .cons hk hv hrest, hl.cons.2 ⟨a', hu, hus⟩⟩
    rw [hi, hi₁, hi₂]
    simp only [List.append_assoc]

theorem Follows.fieldsFrom_of_fields (hl : layout.Follows levels Updates) {items : List Item} {part : Bytes}
    (h : IsFields levels items part) (hu : Updates a items b) (rest : Bytes) :
    Reader.fieldsFrom Reader.key Reader.size_of_key (layout.value levels) rest.length a (.of (part ++ rest)) =
      .ok (b, .of rest) := by
  unfold IsFields at h
  induction h generalizing a with
  | nil =>
    rw [hl.nil.1 hu]
    exact Reader.fieldsFrom_stop (Nat.le_refl _)
  | @cons head part bytes k v items hk hv _ ih =>
    obtain ⟨a', hu, hus⟩ := hl.cons.1 hu
    have hlong : rest.length < (Input.of (head ++ part ++ bytes ++ rest)).size := by
      have := List.length_pos_iff.2 hk.ne_nil
      simp only [Input.size_of, List.length_append]
      omega
    have hkey : Reader.key.run (.of (head ++ part ++ bytes ++ rest)) = .ok (k, .of (part ++ (bytes ++ rest))) :=
      (Reader.reads_key _ _ _).2 ⟨head, by simp only [List.append_assoc], hk⟩
    have hvalue : (layout.value levels k a).run (.of (part ++ (bytes ++ rest))) = .ok (a', .of (bytes ++ rest)) :=
      (hl.value k a _ _ _).2 ⟨part, rfl, v, hv, hu⟩
    rw [Reader.fieldsFrom_next hlong hkey hvalue, ih hus]

theorem Follows.decode_eq_ok_iff (hl : layout.Follows Layout.levels Updates) {bytes : Bytes} {r : α} :
    layout.decode bytes = .ok r ↔ ∃ items, IsFields Layout.levels items bytes ∧ Updates layout.blank items r := by
  constructor
  · intro h
    cases hrun : (layout.reader Layout.levels 0).run (.of bytes) with
    | error e =>
      simp only [decode, hrun] at h
      cases h
    | ok p =>
      simp only [decode, hrun] at h
      obtain rfl := Except.ok.inj h
      obtain ⟨items, part, hbytes, hf, hu⟩ := hl.of_fieldsFrom hrun
      have hsize : p.2.size ≤ 0 := size_le_stop hrun
      have hend : p.2.bytes = [] := List.length_eq_zero_iff.1 (Nat.le_zero.1 (p.2.size_eq ▸ hsize))
      rw [hend, List.append_nil, Input.bytes_of] at hbytes
      exact ⟨items, hbytes ▸ hf, hu⟩
  · rintro ⟨items, hf, hu⟩
    have hrun := hl.fieldsFrom_of_fields hf hu []
    rw [List.append_nil] at hrun
    have hread : (layout.reader Layout.levels 0).run (.of bytes) = .ok (r, .of []) := hrun
    simp only [decode, hread]

theorem exists_fault_iff {bytes : Bytes} {Denotes : α → Prop} (h : ∀ r, layout.decode bytes = .ok r ↔ Denotes r) :
    (∃ fault, layout.decode bytes = .error fault) ↔ ¬∃ r, Denotes r := by
  simp only [← h]
  cases layout.decode bytes <;> simp

/-- The part of a record inside another one that stands behind its length. -/
def sized (layout : Layout α) (levels length : Nat) : Reader α := do
  let size ← Reader.remaining
  Reader.require (length ≤ size) .underflow
  let record ← layout.reader levels (size - length)
  let left ← Reader.remaining
  Reader.require (left = size - length) .lengthExceeded
  return record

theorem Follows.reads_sized (hl : layout.Follows levels Updates) (length : Nat) :
    (layout.sized levels length).Reads fun part b =>
      part.length = length ∧ ∃ items, IsFields levels items part ∧ Updates layout.blank items b := by
  intro bytes rest b
  simp only [sized, Reader.run_bind_eq_ok_iff, Reader.run_remaining, Reader.run_require_eq_ok_iff]
  constructor
  · rintro ⟨_, _, hsize, _, _, ⟨hlength, rfl⟩, record, i, hrun, _, _, hleft, _, _, ⟨hend, rfl⟩, hpure⟩
    cases hsize
    cases hleft
    cases hpure
    obtain ⟨items, part, hbytes, hfields⟩ := hl.of_fieldsFrom hrun
    refine ⟨part, hbytes, ?_, items, hfields⟩
    have hlong := congrArg List.length hbytes
    replace hlength := of_decide_eq_true hlength
    replace hend := of_decide_eq_true hend
    simp only [Input.size_of, Input.bytes_of, List.length_append] at hlength hend hlong
    omega
  · rintro ⟨part, rfl, rfl, items, hf, hu⟩
    have hrun := hl.fieldsFrom_of_fields hf hu rest
    have hsize : (Input.of (part ++ rest)).size - part.length = rest.length := by
      rw [Input.size_of, List.length_append, Nat.add_sub_cancel_left]
    refine ⟨_, _, rfl, (), _, ⟨by simp, rfl⟩, b, .of rest, ?_, _, _, rfl, (), _, ⟨by simp, rfl⟩, rfl⟩
    rw [hsize]
    exact hrun

theorem nested_eq (layout : Layout α) (levels : Nat) (found : WireType) :
    layout.nested levels found = (do
      Reader.expect found .lengthDelimited
      Reader.require (levels ≠ 0) .recursionLimit
      layout.sized (levels - 1) (← Reader.varint)) := rfl

theorem Follows.reads_nested (hl : layout.Follows levels Updates) (found : WireType) :
    (layout.nested (levels + 1) found).Reads fun part b => ∃ v, IsScalar found v part ∧
      ∃ bytes, v = .block bytes ∧ ∃ items, IsFields levels items bytes ∧ Updates layout.blank items b := by
  rw [nested_eq]
  refine ((Reader.reads_expect found .lengthDelimited).bind fun _ =>
    (Reader.reads_require (levels + 1 ≠ 0) .recursionLimit).bind fun _ =>
      Reader.reads_varint.bind fun n => hl.reads_sized n).congr fun part b => ?_
  constructor
  · rintro ⟨_, _, _, rfl, ⟨rfl, rfl⟩, _, _, _, rfl, ⟨rfl, -⟩, digits, bytes, _, rfl, hn, rfl, hfields⟩
    exact ⟨.block bytes, .block hn, bytes, rfl, hfields⟩
  · rintro ⟨_, hv, bytes, rfl, hfields⟩
    cases hv with
    | block hn =>
      exact ⟨[], _, (), rfl, ⟨rfl, rfl⟩, [], _, (), rfl, ⟨rfl, by simp⟩, _, bytes, _, rfl, hn, rfl, hfields⟩

section

variable {k : Key} {name : String} {P : Value → α → Prop}

theorem reads_value_congr {r : Reader α} {Q : Value → α → Prop}
    (h : r.Reads fun part b => ∃ v, IsValue levels k v part ∧ P v b) (hPQ : ∀ v b, P v b ↔ Q v b) :
    r.Reads fun part b => ∃ v, IsValue levels k v part ∧ Q v b :=
  h.congr fun _ b => exists_congr fun v => and_congr_right fun _ => hPQ v b

theorem reads_value_of_none (hf : layout.field? k.tag = none) (a : α) :
    (layout.value levels k a).Reads fun part b => ∃ v, IsValue levels k v part ∧ b = a := by
  have hvalue : layout.value levels k a = Reader.skip levels k >>= fun _ => pure a := by
    rw [value, hf]
  rw [hvalue]
  refine ((Reader.reads_skip levels k).bind fun _ => Reader.reads_pure a).congr fun part b => ?_
  constructor
  · rintro ⟨_, _, _, rfl, ⟨v, hv⟩, rfl, rfl⟩
    rw [List.append_nil]
    exact ⟨v, hv, rfl⟩
  · rintro ⟨v, hv, rfl⟩
    exact ⟨part, [], (), (List.append_nil part).symm, ⟨v, hv⟩, rfl, rfl⟩

theorem reads_value_of_field {field : Field α} (hf : layout.field? k.tag = some field)
    (hm : (field.merge (levels + 1) k.wireType a).Reads fun part b => ∃ v, IsScalar k.wireType v part ∧ P v b)
    (hg : ∀ b, ¬P .group b) :
    (layout.value (levels + 1) k a).Reads fun part b => ∃ v, IsValue (levels + 1) k v part ∧ P v b := by
  have hvalue : layout.value (levels + 1) k a =
      (field.merge (levels + 1) k.wireType a).inField ⟨layout.name, field.name⟩ := by
    rw [value, hf]
  rw [hvalue]
  refine (hm.inField _).congr fun part b => exists_congr fun v => and_congr_left fun hP => ?_
  rw [IsValue]
  refine ⟨.inl, ?_⟩
  rintro (hv | ⟨-, rfl, -⟩)
  · exact hv
  · exact absurd hP (hg b)

theorem reads_put {τ : Type} {r : Reader τ} {R : Value → τ → Prop} {found : WireType} (put : τ → α)
    (hr : r.Reads fun part x => ∃ v, IsScalar found v part ∧ R v x) :
    (do return put (← r) : Reader α).Reads fun part b => ∃ v, IsScalar found v part ∧ ∃ x, R v x ∧ b = put x := by
  refine (hr.bind fun x => Reader.reads_pure (put x)).congr fun part b => ?_
  constructor
  · rintro ⟨_, _, x, rfl, ⟨v, hv, hx⟩, rfl, rfl⟩
    rw [List.append_nil]
    exact ⟨v, hv, x, hx, rfl⟩
  · rintro ⟨v, hv, x, hx, rfl⟩
    exact ⟨part, [], x, (List.append_nil part).symm, ⟨v, hv, hx⟩, rfl, rfl⟩

theorem reads_value_int32 {set : Int32 → α → α} (hf : layout.field? k.tag = some (.int32 name set)) (a : α) :
    (layout.value (levels + 1) k a).Reads fun part b =>
      ∃ v, IsValue (levels + 1) k v part ∧ ∃ n, v.IsInt32 n ∧ b = set n a :=
  reads_value_of_field hf (reads_put (fun n => set n a) (Reader.reads_int32 k.wireType)) nofun

theorem reads_value_bytes {set : Bytes → α → α} (hf : layout.field? k.tag = some (.bytes name set)) (a : α) :
    (layout.value (levels + 1) k a).Reads fun part b =>
      ∃ v, IsValue (levels + 1) k v part ∧ ∃ bytes, v.IsBytes bytes ∧ b = set bytes a :=
  reads_value_of_field hf (reads_put (fun bytes => set bytes a) (Reader.reads_bytes k.wireType)) nofun

theorem reads_value_text {set : String → α → α} (hf : layout.field? k.tag = some (.text name set)) (a : α) :
    (layout.value (levels + 1) k a).Reads fun part b =>
      ∃ v, IsValue (levels + 1) k v part ∧ ∃ text, v.IsText text ∧ b = set text a :=
  reads_value_of_field hf (reads_put (fun text => set text a) (Reader.reads_text k.wireType)) nofun

end

theorem Follows.of_two {σ τ : Type} {R : Value → σ → Prop} {S : Value → τ → Prop} (fst : α → σ) (snd : α → τ)
    (make : σ → τ → α) (hfst : ∀ x y, fst (make x y) = x) (hsnd : ∀ x y, snd (make x y) = y)
    (hmake : ∀ a, make (fst a) (snd a) = a)
    (hupdates : ∀ a items b, Updates a items b ↔
      Last R (valuesOf 1 items) (fst a) (fst b) ∧ Last S (valuesOf 2 items) (snd a) (snd b))
    (hone : ∀ wireType a, (layout.value levels ⟨1, wireType⟩ a).Reads fun part b =>
      ∃ v, IsValue levels ⟨1, wireType⟩ v part ∧ ∃ x, R v x ∧ b = make x (snd a))
    (htwo : ∀ wireType a, (layout.value levels ⟨2, wireType⟩ a).Reads fun part b =>
      ∃ v, IsValue levels ⟨2, wireType⟩ v part ∧ ∃ y, S v y ∧ b = make (fst a) y)
    (hnone : ∀ tag, tag ≠ 1 → tag ≠ 2 → layout.field? tag = none) : layout.Follows levels Updates := by
  have heq : ∀ {a : α} {x : σ} {y : τ}, a = make x y ↔ fst a = x ∧ snd a = y := by
    rintro a x y
    constructor
    · rintro rfl
      exact ⟨hfst x y, hsnd x y⟩
    · rintro ⟨rfl, rfl⟩
      exact (hmake a).symm
  have hself : ∀ {a b : α}, b = a ↔ fst b = fst a ∧ snd b = snd a := by
    intro a b
    rw [← heq, hmake]
  refine ⟨fun {a b} => ?_, fun {a i items c} => ?_, fun k a => ?_⟩
  · rw [hupdates, valuesOf_nil, valuesOf_nil, last_nil, last_nil, hself]
  · rw [hupdates]
    constructor
    · rintro ⟨hx, hy⟩
      obtain ⟨x, hx, hxs⟩ := last_valuesOf_cons.1 hx
      obtain ⟨y, hy, hys⟩ := last_valuesOf_cons.1 hy
      refine ⟨make x y, (hupdates ..).2 ?_, (hupdates ..).2 ?_⟩ <;> rw [hfst, hsnd]
      · exact ⟨hx, hy⟩
      · exact ⟨hxs, hys⟩
    · rintro ⟨b, hb, hbs⟩
      obtain ⟨hx, hy⟩ := (hupdates ..).1 hb
      obtain ⟨hxs, hys⟩ := (hupdates ..).1 hbs
      exact ⟨last_valuesOf_cons.2 ⟨fst b, hx, hxs⟩, last_valuesOf_cons.2 ⟨snd b, hy, hys⟩⟩
  · obtain ⟨tag, wireType⟩ := k
    by_cases h1 : tag = 1
    · subst h1
      refine reads_value_congr (hone wireType a) fun v b => ?_
      simp [hupdates, valuesOf_cons, heq]
    by_cases h2 : tag = 2
    · subst h2
      refine reads_value_congr (htwo wireType a) fun v b => ?_
      simp [hupdates, valuesOf_cons, heq, and_comm]
    · refine reads_value_congr (reads_value_of_none (hnone tag h1 h2) a) fun v b => ?_
      simp [hupdates, valuesOf_cons, h1, h2, hself]

end Layout

namespace PairRecord

theorem follows_layout (levels : Nat) : layout.Follows (levels + 1) Updates :=
  .of_two key value mk (fun _ _ => rfl) (fun _ _ => rfl) (fun _ => rfl) updates_iff
    (fun _ => Layout.reads_value_text rfl) (fun _ => Layout.reads_value_text rfl) fun
    | 0, _, _ | _ + 3, _, _ => rfl

theorem decode_eq_ok_iff {bytes : Bytes} {r : PairRecord} :
    layout.decode bytes = .ok r ↔ Denotes Layout.levels bytes r :=
  (follows_layout 99).decode_eq_ok_iff

end PairRecord

namespace HelloRecord

theorem follows_layout (levels : Nat) : layout.Follows (levels + 1) Updates :=
  .of_two address port mk (fun _ _ => rfl) (fun _ _ => rfl) (fun _ => rfl) updates_iff
    (fun _ => Layout.reads_value_text rfl) (fun _ => Layout.reads_value_int32 rfl) fun
    | 0, _, _ | _ + 3, _, _ => rfl

theorem decode_eq_ok_iff {bytes : Bytes} {r : HelloRecord} : layout.decode bytes = .ok r ↔ Denotes bytes r :=
  (follows_layout 99).decode_eq_ok_iff

end HelloRecord

namespace BeaconRecord

theorem follows_layout (levels : Nat) : layout.Follows (levels + 1) Updates :=
  .of_two peerId mailboxPort mk (fun _ _ => rfl) (fun _ _ => rfl) (fun _ => rfl) updates_iff
    (fun _ => Layout.reads_value_bytes rfl) (fun _ => Layout.reads_value_int32 rfl) fun
    | 0, _, _ | _ + 3, _, _ => rfl

theorem decode_eq_ok_iff {bytes : Bytes} {r : BeaconRecord} : layout.decode bytes = .ok r ↔ Denotes bytes r :=
  (follows_layout 99).decode_eq_ok_iff

end BeaconRecord

namespace Pairs

variable {name field : String}

theorem updates_singleton_iff {a b : List PairRecord} {i : Item} :
    Updates a [i] b ↔ if i.tag = 1 then ∃ r, i.value.IsPair (Layout.levels - 1) r ∧ b = a ++ [r] else b = a := by
  unfold Updates
  rw [valuesOf_cons, valuesOf_nil]
  split
  · constructor
    · rintro ⟨_, h, rfl⟩
      obtain ⟨r, _, hr, hnil, rfl⟩ := List.forall₂_cons_left_iff.1 h
      obtain rfl := List.forall₂_nil_left_iff.1 hnil
      exact ⟨r, hr, rfl⟩
    · rintro ⟨r, hr, rfl⟩
      exact ⟨[r], .cons hr .nil, rfl⟩
  · simp [eq_comm]

theorem updates_cons {a c : List PairRecord} {i : Item} {items : List Item} :
    Updates a (i :: items) c ↔ ∃ b, Updates a [i] b ∧ Updates b items c := by
  simp only [updates_singleton_iff]
  unfold Updates
  rw [valuesOf_cons]
  split
  · constructor
    · rintro ⟨_, h, rfl⟩
      obtain ⟨r, added, hr, hadded, rfl⟩ := List.forall₂_cons_left_iff.1 h
      exact ⟨a ++ [r], ⟨r, hr, rfl⟩, added, hadded, by simp⟩
    · rintro ⟨_, ⟨r, hr, rfl⟩, added, hadded, rfl⟩
      exact ⟨r :: added, .cons hr hadded, by simp⟩
  · simp only [exists_eq_left]

theorem follows_layout (name field : String) : (pairsLayout name field).Follows Layout.levels Updates where
  nil := by simp [Updates, eq_comm]
  cons := updates_cons
  value k a := by
    obtain ⟨tag, wireType⟩ := k
    match tag with
    | 0 | n + 2 =>
      exact Layout.reads_value_congr (Layout.reads_value_of_none rfl a) fun v b => by simp [updates_singleton_iff]
    | 1 =>
      have hpair : (PairRecord.layout.nested Layout.levels wireType).Reads fun part r =>
          ∃ v : Value, IsScalar wireType v part ∧ v.IsPair (Layout.levels - 1) r :=
        (PairRecord.follows_layout 98).reads_nested wireType
      have hvalue : ((pairsLayout name field).value Layout.levels ⟨1, wireType⟩ a).Reads fun part b =>
          ∃ v : Value, IsValue Layout.levels ⟨1, wireType⟩ v part ∧ ∃ r, v.IsPair (Layout.levels - 1) r ∧ b = a ++ [r] :=
        Layout.reads_value_of_field rfl (Layout.reads_put (fun r => a ++ [r]) hpair) fun b ⟨_, ⟨_, h, _⟩, _⟩ => nomatch h
      exact Layout.reads_value_congr hvalue fun v b => by simp [updates_singleton_iff]

theorem decode_eq_ok_iff {bytes : Bytes} {pairs : List PairRecord} :
    (pairsLayout name field).decode bytes = .ok pairs ↔ Denotes bytes pairs :=
  (follows_layout name field).decode_eq_ok_iff

end Pairs

namespace EnvelopeRecord

theorem follows_layout (levels : Nat) : layout.Follows (levels + 1) Updates where
  nil {a b} := by
    cases a
    cases b
    simp [updates_iff]
  cons {a i items c} := by
    constructor
    · rintro ⟨hi, hy, hm, hs, ht⟩
      obtain ⟨id, hi, his⟩ := last_valuesOf_cons.1 hi
      obtain ⟨type, hy, hys⟩ := last_valuesOf_cons.1 hy
      obtain ⟨message, hm, hms⟩ := last_valuesOf_cons.1 hm
      obtain ⟨sender, hs, hss⟩ := last_valuesOf_cons.1 hs
      obtain ⟨token, ht, hts⟩ := last_valuesOf_cons.1 ht
      exact ⟨⟨id, type, message, sender, token⟩, ⟨hi, hy, hm, hs, ht⟩, his, hys, hms, hss, hts⟩
    · rintro ⟨b, ⟨hi, hy, hm, hs, ht⟩, his, hys, hms, hss, hts⟩
      exact ⟨last_valuesOf_cons.2 ⟨b.id, hi, his⟩, last_valuesOf_cons.2 ⟨b.type, hy, hys⟩,
        last_valuesOf_cons.2 ⟨b.message, hm, hms⟩, last_valuesOf_cons.2 ⟨b.sender, hs, hss⟩,
        last_valuesOf_cons.2 ⟨b.token, ht, hts⟩⟩
  value k a := by
    obtain ⟨tag, wireType⟩ := k
    match tag with
    | 0 | n + 6 =>
      refine Layout.reads_value_congr (Layout.reads_value_of_none rfl a) fun v b => ?_
      cases a
      cases b
      simp [updates_iff, valuesOf_cons]
    | 1 =>
      refine Layout.reads_value_congr (Layout.reads_value_bytes rfl a) fun v b => ?_
      cases b
      simp [updates_iff, valuesOf_cons]
    | 2 =>
      refine Layout.reads_value_congr (Layout.reads_value_int32 rfl a) fun v b => ?_
      cases b
      simp [updates_iff, valuesOf_cons, and_left_comm]
    | 3 =>
      refine Layout.reads_value_congr (Layout.reads_value_bytes rfl a) fun v b => ?_
      cases b
      simp [updates_iff, valuesOf_cons, and_left_comm]
    | 4 =>
      refine Layout.reads_value_congr (Layout.reads_value_bytes rfl a) fun v b => ?_
      cases b
      simp [updates_iff, valuesOf_cons, Value.IsSome, Value.IsBytes, and_assoc, and_left_comm, and_comm]
    | 5 =>
      refine Layout.reads_value_congr (Layout.reads_value_text rfl a) fun v b => ?_
      cases b
      simp [updates_iff, valuesOf_cons, and_assoc, and_left_comm, and_comm]

theorem decode_eq_ok_iff {bytes : Bytes} {r : EnvelopeRecord} : layout.decode bytes = .ok r ↔ Denotes bytes r :=
  (follows_layout 99).decode_eq_ok_iff

end EnvelopeRecord
end Wire
end PeerDiscovery
