import Mathlib.Data.List.Forall2
import Mathlib.Data.Nat.Digits.Lemmas
import PeerDiscovery.Proofs.Net.Ipv6

/-! The form that the text of an IP address has: `IpAddr.isText_iff`.
The form is said by the parts of the text and not by how they are printed: numbers without needless zeros between
marks, a dotted tail for an IPv6 address that stands for an IPv4 one, and a double colon in the place of the first of
the longest runs of zeros, where that has two groups or more. -/
namespace PeerDiscovery
namespace Net

/-- The digits of a number, in lower case. The first one is 0 only where there is no other. -/
def IsNumeral (base : Nat) (text : List Char) (n : Nat) : Prop :=
  ∃ digits : List Nat, text = digits.map Nat.digitChar ∧ digits ≠ [] ∧ (∀ d ∈ digits, d < base) ∧
    (digits.head? = some 0 → digits = [0]) ∧ Nat.ofDigits base digits.reverse = n

def IsRow (base : Nat) (mark : Char) (text : List Char) (numbers : List Nat) : Prop :=
  ∃ parts, text = [mark].intercalate parts ∧ List.Forall₂ (IsNumeral base) parts numbers

variable {base : Nat}

theorem isNumeral_toDigits (h : 1 < base) (n : Nat) : IsNumeral base (Nat.toDigits base n) n := by
  induction n using Nat.strongRecOn with
  | ind n ih =>
    by_cases hn : n < base
    · rw [Nat.toDigits_of_lt_base hn]
      exact ⟨[n], rfl, List.cons_ne_nil n [], by simpa using hn, by simp, by simp⟩
    · have hge := Nat.le_of_not_lt hn
      have hpos : 0 < n / base := Nat.div_pos hge (by omega)
      obtain ⟨digits, htext, hne, hlt, hhead, hvalue⟩ := ih (n / base) (Nat.div_lt_self (by omega) h)
      refine ⟨digits ++ [n % base], ?_, by simp, ?_, ?_, ?_⟩
      · rw [Nat.toDigits_of_base_le h hge, htext, List.map_append, List.map_singleton]
      · intro d hd
        rcases List.mem_append.1 hd with hd | hd
        · exact hlt d hd
        · exact List.mem_singleton.1 hd ▸ Nat.mod_lt n (by omega)
      · rw [List.head?_append_of_ne_nil digits hne]
        intro hzero
        rw [hhead hzero] at hvalue
        simp at hvalue
        omega
      · rw [List.reverse_concat, Nat.ofDigits_cons, hvalue, Nat.mod_add_div]

theorem IsNumeral.eq_map {text : List Char} {n : Nat} (h : IsNumeral base text n) (hb : 1 < base) :
    text = (if n = 0 then [0] else (Nat.digits base n).reverse).map Nat.digitChar := by
  obtain ⟨digits, rfl, hne, hlt, hhead, rfl⟩ := h
  by_cases hzero : digits = [0]
  · simp [hzero]
  · have hlast : ∀ hne : digits.reverse ≠ [], digits.reverse.getLast hne ≠ 0 := by
      intro hne hl
      rw [List.getLast_reverse] at hl
      exact hzero (hhead (hl ▸ List.head?_eq_some_head _))
    have hdigits := Nat.digits_ofDigits base hb digits.reverse (fun d hd => hlt d (List.mem_reverse.1 hd)) hlast
    have hn : Nat.ofDigits base digits.reverse ≠ 0 := by
      intro hn
      rw [hn, Nat.digits_zero] at hdigits
      exact hne (List.reverse_eq_nil_iff.1 hdigits.symm)
    rw [if_neg hn, hdigits, List.reverse_reverse]

theorem isNumeral_iff (hb : 1 < base) {text : List Char} {n : Nat} :
    IsNumeral base text n ↔ text = Nat.toDigits base n := by
  constructor
  · intro h
    rw [h.eq_map hb, (isNumeral_toDigits hb n).eq_map hb]
  · rintro rfl
    exact isNumeral_toDigits hb n

theorem isRow_iff (hb : 1 < base) {mark : Char} {text : List Char} {numbers : List Nat} :
    IsRow base mark text numbers ↔ text = [mark].intercalate (numbers.map (Nat.toDigits base)) := by
  have hparts : ∀ parts, List.Forall₂ (IsNumeral base) parts numbers ↔ parts = numbers.map (Nat.toDigits base) := by
    intro parts
    have hrel : IsNumeral base = fun text n => text = Nat.toDigits base n := by
      funext text n
      exact propext (isNumeral_iff hb)
    rw [hrel, ← List.forall₂_map_right_iff, List.forall₂_eq_eq_eq]
  simp only [IsRow, hparts, exists_eq_right]

namespace Ipv4

def IsText (ip : Ipv4) (text : List Char) : Prop := IsRow 10 '.' text (ip.octets.map UInt8.toNat)

theorem isText_iff {ip : Ipv4} {text : List Char} : ip.IsText text ↔ text = ip.print := by
  rw [IsText, isRow_iff (by decide), List.map_map]
  rfl

end Ipv4

namespace Ipv6

def IsMapped (ip : Ipv6) (tail : Ipv4) : Prop := ip.groups = List.replicate 5 0 ++ 0xffff :: ofIpv4 tail

def IsRowOf (groups : List UInt16) (text : List Char) : Prop := IsRow 16 ':' text (groups.map UInt16.toNat)

inductive IsText (ip : Ipv6) : List Char → Prop
  | mapped {tail : Ipv4} {dotted : List Char} (h : ip.IsMapped tail) (ht : tail.IsText dotted) :
    IsText ip ("::ffff:".toList ++ dotted)
  | shortened {zeros : Run} {front back : List Char} (h : ∀ tail, ¬ip.IsMapped tail)
      (hzeros : zeros.IsFirstLongest ip.groups) (hlong : 2 ≤ zeros.length)
      (hfront : IsRowOf (ip.groups.take zeros.start) front)
      (hback : IsRowOf (ip.groups.drop (zeros.start + zeros.length)) back) : IsText ip (front ++ [':', ':'] ++ back)
  | full {text : List Char} (h : ∀ tail, ¬ip.IsMapped tail)
      (hshort : ∀ zeros : Run, zeros.Zeros ip.groups → zeros.length < 2) (hrow : IsRowOf ip.groups text) : IsText ip text

theorem isRowOf_iff {groups : List UInt16} {text : List Char} : IsRowOf groups text ↔ text = printGroups groups := by
  rw [IsRowOf, isRow_iff (by decide), List.map_map]
  rfl

theorem toUInt8_shiftLeft_or (a b : UInt8) :
    ((a.toUInt16 <<< 8 ||| b.toUInt16) >>> 8).toUInt8 = a ∧ (a.toUInt16 <<< 8 ||| b.toUInt16).toUInt8 = b := by
  have ha := a.toNat_lt
  have hb := b.toNat_lt
  have hhigh : (a.toUInt16 <<< 8).toNat = a.toNat <<< 8 := by
    rw [UInt16.toNat_shiftLeft, UInt8.toNat_toUInt16]
    simp [Nat.shiftLeft_eq]
    omega
  have hvalue : (a.toUInt16 <<< 8 ||| b.toUInt16).toNat = 256 * a.toNat + b.toNat := by
    rw [UInt16.toNat_or, hhigh, UInt8.toNat_toUInt16, ← Nat.shiftLeft_add_eq_or_of_lt hb, Nat.shiftLeft_eq]
    omega
  constructor
  · apply UInt8.toNat_inj.1
    rw [UInt16.toNat_toUInt8, UInt16.toNat_shiftRight, hvalue]
    simp [Nat.shiftRight_eq_div_pow]
    omega
  · apply UInt8.toNat_inj.1
    rw [UInt16.toNat_toUInt8, hvalue]
    omega

theorem mapped?_eq_some_iff {ip : Ipv6} {tail : Ipv4} : ip.mapped? = some tail ↔ ip.IsMapped tail := by
  refine ⟨groups_of_mapped?, fun h => ?_⟩
  obtain ⟨ha, hb⟩ := toUInt8_shiftLeft_or tail.a tail.b
  obtain ⟨hc, hd⟩ := toUInt8_shiftLeft_or tail.c tail.d
  rw [IsMapped, ofIpv4] at h
  simp only [mapped?, h, List.replicate, List.cons_append, List.nil_append, ha, hb, hc, hd]

theorem mapped?_eq_none_iff {ip : Ipv6} : ip.mapped? = none ↔ ∀ tail, ¬ip.IsMapped tail := by
  simp only [Option.eq_none_iff_forall_ne_some, ne_eq, mapped?_eq_some_iff]

theorem Run.IsFirstLongest.unique {run run' : Run} {groups : List UInt16} (h : run.IsFirstLongest groups)
    (h' : run'.IsFirstLongest groups) : run = run' := by
  have hlength : run.length = run'.length := Nat.le_antisymm (h'.length_le run h.zeros) (h.length_le run' h'.zeros)
  have hstart : run.start = run'.start :=
    Nat.le_antisymm (h.start_le run' h'.zeros hlength.symm) (h'.start_le run h.zeros hlength)
  cases run
  cases run'
  exact congr (congrArg Run.mk hstart) hlength

theorem isText_print (ip : Ipv6) : ip.IsText ip.print := by
  have hfirst := isFirstLongest_longestZeros ip.groups
  unfold print
  split
  · next tail htail => exact .mapped (mapped?_eq_some_iff.1 htail) (Ipv4.isText_iff.2 rfl)
  · next hnone =>
    have hn := mapped?_eq_none_iff.1 hnone
    by_cases hlong : 1 < (longestZeros ip.groups).length
    · rw [if_pos hlong]
      exact .shortened hn hfirst hlong (isRowOf_iff.2 rfl) (isRowOf_iff.2 rfl)
    · rw [if_neg hlong]
      exact .full hn (fun zeros hz => Nat.lt_of_le_of_lt (hfirst.length_le zeros hz) (by omega)) (isRowOf_iff.2 rfl)

theorem IsText.eq_print {ip : Ipv6} {text : List Char} (h : ip.IsText text) : text = ip.print := by
  have hfirst := isFirstLongest_longestZeros ip.groups
  cases h with
  | mapped h ht =>
    rw [Ipv4.isText_iff.1 ht]
    simp only [print, mapped?_eq_some_iff.2 h]
  | shortened h hzeros hlong hfront hback =>
    obtain rfl := hzeros.unique hfirst
    rw [isRowOf_iff.1 hfront, isRowOf_iff.1 hback]
    simp only [print, mapped?_eq_none_iff.2 h]
    exact (if_pos hlong).symm
  | full h hshort hrow =>
    have hlt := hshort _ hfirst.zeros
    rw [isRowOf_iff.1 hrow]
    simp only [print, mapped?_eq_none_iff.2 h]
    rw [if_neg (by omega)]

theorem isText_iff {ip : Ipv6} {text : List Char} : ip.IsText text ↔ text = ip.print :=
  ⟨IsText.eq_print, fun h => h ▸ ip.isText_print⟩

end Ipv6

namespace IpAddr

def IsText : IpAddr → String → Prop
  | v4 ip, text => ip.IsText text.toList
  | v6 ip, text => ip.IsText text.toList

theorem isText_iff {ip : IpAddr} {text : String} : ip.IsText text ↔ text = ip.text := by
  cases ip with
  | v4 ip => rw [IsText, Ipv4.isText_iff, IpAddr.text, String.ext_iff, String.toList_ofList]
  | v6 ip => rw [IsText, Ipv6.isText_iff, IpAddr.text, String.ext_iff, String.toList_ofList]

end IpAddr
end Net
end PeerDiscovery
