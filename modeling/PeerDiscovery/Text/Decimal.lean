/-! Decimal numerals with an upper bound.
Reading stops counting above the bound, so a numeral of any length costs no more than its digits.
`digits?_eq_some_iff` says which numerals are read and as what, and `digits?_print` that a printed
number reads back. -/
namespace PeerDiscovery
namespace Decimal

def value (digits : List Char) : Nat := Nat.ofDigitChars 10 digits 0

/-- The value of the digits, or `cap` if it is larger. -/
def valueUpTo (cap : Nat) (digits : List Char) : Nat :=
  digits.foldl (fun n d => min cap (10 * n + (d.toNat - '0'.toNat))) 0

theorem foldl_min_eq (cap : Nat) (digits : List Char) (n : Nat) :
    digits.foldl (fun n d => min cap (10 * n + (d.toNat - '0'.toNat))) (min cap n) =
      min cap (Nat.ofDigitChars 10 digits n) := by
  induction digits generalizing n with
  | nil => rfl
  | cons d rest ih =>
    have h : min cap (10 * min cap n + (d.toNat - '0'.toNat)) =
        min cap (10 * n + (d.toNat - '0'.toNat)) := by omega
    rw [List.foldl_cons, h, ih]
    rfl

theorem valueUpTo_eq (cap : Nat) (digits : List Char) : valueUpTo cap digits = min cap (value digits) := by
  have h := foldl_min_eq cap digits 0
  rw [Nat.min_zero] at h
  exact h

/-- The value of one or more digits, if it is at most `max`. -/
def digits? (max : Nat) (text : List Char) : Option Nat :=
  let n := valueUpTo (max + 1) text
  if text ≠ [] ∧ text.all Char.isDigit ∧ n ≤ max then some n else none

theorem digits?_eq_some_iff {max n : Nat} {text : List Char} :
    digits? max text = some n ↔ text ≠ [] ∧ text.all Char.isDigit ∧ value text = n ∧ n ≤ max := by
  simp only [digits?, valueUpTo_eq, Option.ite_none_right_eq_some, Option.some.injEq]
  constructor
  · rintro ⟨⟨hne, hd, hle⟩, rfl⟩
    exact ⟨hne, hd, by omega, hle⟩
  · rintro ⟨hne, hd, rfl, hle⟩
    exact ⟨⟨hne, hd, by omega⟩, by omega⟩

def parse? (max : Nat) : List Char → Option Nat
  | '+' :: digits => digits? max digits
  | digits => digits? max digits

def print (n : Nat) : List Char := Nat.toDigits 10 n

theorem print_ne_nil (n : Nat) : print n ≠ [] := Nat.toDigits_ne_nil

theorem isDigit_of_mem_print {n : Nat} {c : Char} (h : c ∈ print n) : c.isDigit :=
  Nat.isDigit_of_mem_toDigits (by decide) (by decide) h

theorem value_print (n : Nat) : value (print n) = n := Nat.ofDigitChars_ten_toDigits

theorem digits?_print {max n : Nat} (h : n ≤ max) : digits? max (print n) = some n :=
  digits?_eq_some_iff.2
    ⟨print_ne_nil n, List.all_eq_true.2 fun _ hc => isDigit_of_mem_print hc, value_print n, h⟩

end Decimal
end PeerDiscovery
