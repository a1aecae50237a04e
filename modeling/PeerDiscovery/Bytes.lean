/-! Byte strings, their numbers and their texts.
Numbers stand most significant byte first, and `ofBigEndian_toBigEndian` says that a number which
fits its width reads back. Texts are UTF-8, and `toText?_ofText` says that a text reads back. -/
namespace PeerDiscovery

abbrev Bytes := List UInt8

namespace Bytes

/-- The number that bytes denote in base 256, most significant byte first. -/
def ofBigEndian (bytes : Bytes) : Nat :=
  bytes.foldl (fun n b => 256 * n + b.toNat) 0

/-- The lowest `width` base-256 digits of a number, most significant first. -/
def toBigEndian : Nat → Nat → Bytes
  | 0, _ => []
  | width + 1, n => toBigEndian width (n / 256) ++ [UInt8.ofNat (n % 256)]

@[simp] theorem ofBigEndian_nil : ofBigEndian [] = 0 := rfl

@[simp] theorem ofBigEndian_concat (bytes : Bytes) (b : UInt8) :
    ofBigEndian (bytes ++ [b]) = 256 * ofBigEndian bytes + b.toNat := by
  simp [ofBigEndian]

@[simp] theorem length_toBigEndian (width n : Nat) : (toBigEndian width n).length = width := by
  induction width generalizing n with
  | zero => rfl
  | succ width ih => simp [toBigEndian, ih]

theorem ofBigEndian_toBigEndian {width n : Nat} (h : n < Nat.pow 256 width) :
    ofBigEndian (toBigEndian width n) = n := by
  induction width generalizing n with
  | zero => simp at h; simp [toBigEndian, h]
  | succ width ih =>
    have hd : n / 256 < Nat.pow 256 width := by
      rw [Nat.div_lt_iff_lt_mul (by decide)]
      exact h
    have hb : (UInt8.ofNat (n % 256)).toNat = n % 256 := by
      simp [UInt8.toNat_ofNat']
    rw [toBigEndian, ofBigEndian_concat, ih hd, hb]
    omega

theorem toBigEndian_ofBigEndian {width : Nat} {bytes : Bytes} (h : bytes.length = width) :
    toBigEndian width (ofBigEndian bytes) = bytes := by
  induction width generalizing bytes with
  | zero => exact (List.length_eq_zero_iff.1 h).symm
  | succ width ih =>
    rcases List.eq_nil_or_concat bytes with rfl | ⟨digits, b, rfl⟩
    · cases h
    · have hl : digits.length = width := by simpa using h
      have hb := b.toNat_lt
      have hd : (256 * ofBigEndian digits + b.toNat) / 256 = ofBigEndian digits := by omega
      have hm : (256 * ofBigEndian digits + b.toNat) % 256 = b.toNat := by omega
      rw [List.concat_eq_append, ofBigEndian_concat, toBigEndian, hd, hm, ih hl, UInt8.ofNat_toNat]

/-- The UTF-8 form of a text. -/
def ofText (text : String) : Bytes := text.toByteArray.data.toList

def toText? (bytes : Bytes) : Option String := String.fromUTF8? ⟨bytes.toArray⟩

@[simp] theorem toText?_ofText (text : String) : toText? (ofText text) = some text := by
  have h : (⟨(ofText text).toArray⟩ : ByteArray) = text.toByteArray := by
    simp [ofText]
  rw [toText?, h, String.fromUTF8?, dif_pos text.isValidUTF8]
  rfl

theorem ofText_injective {s t : String} (h : ofText s = ofText t) : s = t :=
  Option.some.inj (by rw [← toText?_ofText s, ← toText?_ofText t, h])

/-- Cuts off pieces of a size, at most so many, and puts them in front of others. -/
def chunksOnto (pieces : List Bytes) (size : Nat) : Nat → Bytes → List Bytes
  | 0, _ => pieces
  | fuel + 1, bytes =>
    if bytes.isEmpty then pieces else chunksOnto (bytes.take size :: pieces) size fuel (bytes.drop size)

/-- The bytes in pieces of a size, of which the last one may be shorter. There are no pieces of no bytes. -/
def chunks (bytes : Bytes) (size : Nat) : List Bytes :=
  if size = 0 then [] else (chunksOnto [] size bytes.length bytes).reverse

def hexDigit (n : Nat) : Char :=
  if n < 10 then Char.ofNat (48 + n) else Char.ofNat (87 + n)

def hex (bytes : Bytes) : String :=
  String.ofList (bytes.flatMap fun b => [hexDigit (b.toNat / 16), hexDigit (b.toNat % 16)])

def hexValue? (c : Char) : Option Nat :=
  if c.isDigit then some (c.toNat - 48)
  else if 'a' ≤ c ∧ c ≤ 'f' then some (c.toNat - 87)
  else none

/-- Reads pairs of digits; `done` has been read and stands in reverse. -/
def ofHexOnto (done : Bytes) : List Char → Option Bytes
  | [] => some done.reverse
  | [_] => none
  | a :: b :: rest =>
    match hexValue? a, hexValue? b with
    | some x, some y => ofHexOnto (UInt8.ofNat (16 * x + y) :: done) rest
    | _, _ => none

/-- The bytes that pairs of lowercase hexadecimal digits denote. -/
def ofHex? (text : String) : Option Bytes := ofHexOnto [] text.toList

theorem hexValue?_hexDigit {n : Nat} (h : n < 16) : hexValue? (hexDigit n) = some n := by
  have : ∀ m : Fin 16, hexValue? (hexDigit m) = some m.val := by decide
  exact this ⟨n, h⟩

theorem ofHexOnto_hex (done bytes : Bytes) :
    ofHexOnto done (bytes.flatMap fun b => [hexDigit (b.toNat / 16), hexDigit (b.toNat % 16)]) =
      some (done.reverse ++ bytes) := by
  induction bytes generalizing done with
  | nil => simp [ofHexOnto]
  | cons b rest ih =>
    have hb := b.toNat_lt
    have hv : UInt8.ofNat (16 * (b.toNat / 16) + b.toNat % 16) = b := by
      rw [Nat.div_add_mod]
      exact UInt8.ofNat_toNat
    simp only [List.flatMap_cons, List.cons_append, List.nil_append, ofHexOnto,
      hexValue?_hexDigit (show b.toNat / 16 < 16 by omega), hexValue?_hexDigit (show b.toNat % 16 < 16 by omega),
      hv, ih]
    simp

theorem ofHex?_hex (bytes : Bytes) : ofHex? (hex bytes) = some bytes := by
  simpa [ofHex?, hex] using ofHexOnto_hex [] bytes

end Bytes
end PeerDiscovery
