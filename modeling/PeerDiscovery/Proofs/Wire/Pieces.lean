import PeerDiscovery.Proofs.Wire.Writing

/-! The bytes of a record cut into pieces, one for each field, and the pieces that may come in between.
`Grown` puts in fields that a record does not have, and earlier values of those that it has. Neither changes what counts
in the end: `Grown.last`. -/
namespace PeerDiscovery
namespace Wire

/-- A field and the bytes by which it is written. -/
structure Piece where
  item : Item
  bytes : Bytes
  isField : IsFields Layout.levels [item] bytes

namespace Piece

def join (pieces : List Piece) : Bytes := pieces.flatMap Piece.bytes

theorem isFields_join (pieces : List Piece) : IsFields Layout.levels (pieces.map Piece.item) (join pieces) := by
  induction pieces with
  | nil => exact .nil
  | cons p pieces ih => exact p.isField.append ih

theorem exists_join_eq {items : List Item} {bytes : Bytes} (h : IsFields Layout.levels items bytes) :
    ∃ pieces, join pieces = bytes ∧ pieces.map Piece.item = items := by
  unfold IsFields at h
  induction h with
  | nil => exact ⟨[], rfl, rfl⟩
  | @cons head part rest k v items hk hv _ ih =>
    obtain ⟨pieces, rfl, rfl⟩ := ih
    have hfield : IsFields Layout.levels [⟨k.tag, v⟩] (head ++ part) := by
      have hone := Sequence.cons hk hv .nil
      rwa [List.append_nil] at hone
    exact ⟨⟨_, _, hfield⟩ :: pieces, rfl, rfl⟩

/-- A value of each layout, under each tag of 29 bits, makes a piece. -/
theorem exists_of_scalar {k : Key} {v : Value} {part : Bytes} (ht : 0 < k.tag) (ht' : k.tag < 2 ^ 29)
    (hv : IsScalar k.wireType v part) : ∃ p : Piece, p.item = ⟨k.tag, v⟩ ∧ p.bytes = k.encode ++ part := by
  have hlt : 8 * k.tag < UInt32.size := by
    have hs : UInt32.size = 4294967296 := rfl
    omega
  exact ⟨⟨_, _, isFields_field ht hlt hv⟩, rfl, rfl⟩

end Piece

/-- Where no tag comes twice the order of the fields says nothing. -/
theorem valuesOf_of_perm {items items' : List Item} (h : items.Perm items') (hn : (items.map Item.tag).Nodup)
    (tag : Nat) : valuesOf tag items = valuesOf tag items' := by
  induction h with
  | nil => rfl
  | cons i _ ih => rw [valuesOf_cons, valuesOf_cons, ih (List.nodup_cons.1 hn).2]
  | swap i j items =>
    have hne : j.tag ≠ i.tag := fun he => (List.nodup_cons.1 hn).1 (he ▸ List.mem_cons_self)
    by_cases hj : j.tag = tag
    · have hi : i.tag ≠ tag := fun hi => hne (hj.trans hi.symm)
      simp only [valuesOf_cons, if_neg hi]
    · simp only [valuesOf_cons, if_neg hj]
  | trans h _ ih ih' => rw [ih hn, ih' ((h.map Item.tag).nodup_iff.1 hn)]

/-- Pieces with others put in between: under tags greater than those that a record has, and, before a piece that is
there, under the tag of that piece, with values that its field takes. -/
inductive Grown (greatest : Nat) (Takes : Item → Prop) : List Piece → List Piece → Prop
  | nil : Grown greatest Takes [] []
  | own {own grown : List Piece} (p : Piece) : Grown greatest Takes own grown →
    Grown greatest Takes (p :: own) (p :: grown)
  | unknown {own grown : List Piece} (p : Piece) : greatest < p.item.tag → Grown greatest Takes own grown →
    Grown greatest Takes own (p :: grown)
  | earlier {own grown : List Piece} {later : Piece} (p : Piece) : later ∈ own → p.item.tag = later.item.tag →
    Takes p.item → Grown greatest Takes own grown → Grown greatest Takes own (p :: grown)

theorem last_of_ne_nil {τ : Type} {R : Value → τ → Prop} {values : List Value} (h : values ≠ []) {a b x : τ} :
    Last R values a x ↔ Last R values b x := by
  cases values with
  | nil => exact absurd rfl h
  | cons v values => rw [last_cons, last_cons]

variable {greatest : Nat} {Takes : Item → Prop} {own grown : List Piece}

/-- The last value of a field is still the last one. Of those before it, it matters only that they are of its kind. -/
theorem Grown.last {τ : Type} {R : Value → τ → Prop} {tag : Nat} {a x : τ} (h : Grown greatest Takes own grown)
    (ht : tag ≤ greatest) (hTakes : ∀ i : Item, i.tag = tag → Takes i → ∃ y, R i.value y)
    (hl : Last R (valuesOf tag (own.map Piece.item)) a x) : Last R (valuesOf tag (grown.map Piece.item)) a x := by
  induction h generalizing a with
  | nil => exact hl
  | own p _ ih =>
    rw [List.map_cons] at hl ⊢
    obtain ⟨y, hy, hl⟩ := last_valuesOf_cons.1 hl
    exact last_valuesOf_cons.2 ⟨y, hy, ih hl⟩
  | unknown p hp _ ih =>
    have hne : p.item.tag ≠ tag := by omega
    rw [List.map_cons, valuesOf_cons, if_neg hne]
    exact ih hl
  | @earlier own grown later p hlater htag hp _ ih =>
    rw [List.map_cons, valuesOf_cons]
    split
    · next he =>
      obtain ⟨y, hy⟩ := hTakes p.item he hp
      have hne : valuesOf tag (own.map Piece.item) ≠ [] := by
        have hmem : later.item.value ∈ valuesOf tag (own.map Piece.item) :=
          List.mem_map.2 ⟨later.item, List.mem_filter.2 ⟨List.mem_map_of_mem hlater, by simp [← htag, he]⟩, rfl⟩
        exact List.ne_nil_of_mem hmem
      exact last_cons.2 ⟨y, hy, ih ((last_of_ne_nil hne).1 hl)⟩
    · exact ih hl

end Wire
end PeerDiscovery
