import PeerDiscovery.Proofs.Envelope
import PeerDiscovery.Proofs.Wire.Pieces

/-! Envelopes whose fields stand in another order or among others: `Envelope.tolerates_change`.
An envelope has each of its fields once, so their order does not count, and what a node of another version puts in
between is passed over or replaced by what comes behind it. -/
namespace PeerDiscovery

namespace Wire
namespace EnvelopeRecord

/-- The greatest tag of the record. -/
def greatestTag : Nat := 5

/-- The values that the field under a tag can be read from. -/
def Takes (i : Item) : Prop :=
  match i.tag with
  | 1 | 3 | 4 => ∃ bytes, i.value.IsBytes bytes
  | 2 => ∃ n, i.value.IsInt32 n
  | 5 => ∃ text, i.value.IsText text
  | _ => False

theorem nodup_tags (r : EnvelopeRecord) : (r.fields.map Item.tag).Nodup := by
  have hbytes : ∀ tag bytes, ((bytesFields tag bytes).map Item.tag).Sublist [tag] := by
    intro tag bytes
    unfold bytesFields
    split <;> simp
  have hnumber : ∀ tag n, ((int32Fields tag n).map Item.tag).Sublist [tag] := by
    intro tag n
    unfold int32Fields
    split <;> simp
  have hsender : ((senderFields r.sender).map Item.tag).Sublist [4] := by
    cases r.sender <;> simp [senderFields]
  have htags : (r.fields.map Item.tag).Sublist [1, 2, 3, 4, 5] := by
    simp only [fields, List.map_append]
    exact ((((hbytes 1 r.id).append (hnumber 2 r.type)).append (hbytes 3 r.message)).append hsender).append
      (hbytes 5 (.ofText r.token))
  exact List.Nodup.sublist htags (by decide)

variable {a r : EnvelopeRecord}

theorem updates_of_perm {items items' : List Item} (h : items.Perm items') (hn : (items.map Item.tag).Nodup)
    (hu : Updates a items r) : Updates a items' r := by
  rw [updates_iff] at hu ⊢
  simpa only [← valuesOf_of_perm h hn] using hu

theorem updates_of_grown {own grown : List Piece} (h : Grown greatestTag Takes own grown)
    (hu : Updates a (own.map Piece.item) r) : Updates a (grown.map Piece.item) r where
  id := h.last (by decide) (fun i ht hi => by simpa [Takes, ht] using hi) hu.id
  type := h.last (by decide) (fun i ht hi => by simpa [Takes, ht] using hi) hu.type
  message := h.last (by decide) (fun i ht hi => by simpa [Takes, ht] using hi) hu.message
  sender := by
    refine h.last (by decide) (fun i ht hi => ?_) hu.sender
    obtain ⟨bytes, hb⟩ : ∃ bytes, i.value.IsBytes bytes := by simpa [Takes, ht] using hi
    exact ⟨some bytes, bytes, hb, rfl⟩
  token := h.last (by decide) (fun i ht hi => by simpa [Takes, ht] using hi) hu.token

theorem decode_of_grown {own order grown : List Piece} (hown : own.map Piece.item = r.fields) (horder : order.Perm own)
    (hgrown : Grown greatestTag Takes order grown) : layout.decode (Piece.join grown) = .ok r := by
  have hperm : r.fields.Perm (order.map Piece.item) := hown ▸ (horder.map Piece.item).symm
  have hu : Updates ⟨[], 0, [], none, ""⟩ (order.map Piece.item) r :=
    updates_of_perm hperm r.nodup_tags r.updates_fields
  exact decode_eq_ok_iff.2 ⟨_, Piece.isFields_join grown, updates_of_grown hgrown hu⟩

end EnvelopeRecord
end Wire

namespace Envelope

open Wire (Piece Grown EnvelopeRecord)

theorem exists_join_iff (e : Envelope) : (∃ own, Piece.join own = e.encode) ↔ e.Writable := by
  rw [← writable_record_iff]
  constructor
  · rintro ⟨own, hown⟩
    have hfields := Piece.isFields_join own
    rw [hown] at hfields
    exact Classical.byContradiction fun hw => EnvelopeRecord.not_isFields_encode hw _ hfields
  · intro hw
    obtain ⟨own, hown, -⟩ := Piece.exists_join_eq (EnvelopeRecord.isFields_encode hw 99)
    exact ⟨own, hown⟩

theorem items_of_join_eq {e : Envelope} {own : List Piece} (h : Piece.join own = e.encode) :
    own.map Piece.item = e.record.fields := by
  have hfields := Piece.isFields_join own
  rw [h] at hfields
  have hw := e.writable_record_iff.2 (e.exists_join_iff.1 ⟨own, h⟩)
  exact hfields.unique (EnvelopeRecord.isFields_encode hw 99)

/-- The bytes of an envelope that can be written are pieces, one for each of its fields that has not the default value.
In every order of the pieces, with any number of fields under greater tags put in anywhere, and with any number of
readable values of a field put in before its own one, the bytes are read as the same envelope. All values of the four
layouts are there to be put in, under all tags of 29 bits. -/
theorem tolerates_change (e : Envelope) :
    ((∃ own, Piece.join own = e.encode) ↔ e.Writable) ∧
    (∀ own, Piece.join own = e.encode → own.map Piece.item = e.record.fields ∧
      ∀ order : List Piece, order.Perm own → ∀ grown, Grown EnvelopeRecord.greatestTag EnvelopeRecord.Takes order grown →
        decode (Piece.join grown) = .ok e) ∧
    ∀ (k : Wire.Key) v part, 0 < k.tag → k.tag < 2 ^ 29 → Wire.IsScalar k.wireType v part →
      ∃ p : Piece, p.item = ⟨k.tag, v⟩ ∧ p.bytes = k.encode ++ part := by
  refine ⟨e.exists_join_iff, fun own hown => ⟨items_of_join_eq hown, fun order horder grown hgrown => ?_⟩,
    fun k v part => Piece.exists_of_scalar⟩
  have hw := e.exists_join_iff.1 ⟨own, hown⟩
  exact decode_of_record (EnvelopeRecord.decode_of_grown (items_of_join_eq hown) horder hgrown) hw.message

end Envelope
end PeerDiscovery
