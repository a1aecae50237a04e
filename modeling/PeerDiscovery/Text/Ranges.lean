/-! Sets of characters given by ranges of their numbers.
A range is its first and its last number. In a list of ranges that ascends, a look-up stops at the first
range that lies behind: `contains_iff`. -/
namespace PeerDiscovery
namespace Text

abbrev Ranges := List (Nat × Nat)

namespace Ranges

/-- No range begins before a number, and none before the one in front of it ends. -/
def ascendingFrom : Nat → Ranges → Bool
  | _, [] => true
  | n, (first, last) :: rest => n ≤ first && first ≤ last && ascendingFrom (last + 1) rest

def Ascending (rs : Ranges) : Prop := rs.ascendingFrom 0 = true

instance (rs : Ranges) : Decidable rs.Ascending := inferInstanceAs (Decidable (_ = _))

def contains : Ranges → Nat → Bool
  | [], _ => false
  | (first, last) :: rest, n => first ≤ n && (n ≤ last || contains rest n)

theorem le_of_ascendingFrom {n : Nat} {rs : Ranges} (h : rs.ascendingFrom n = true) :
    ∀ r ∈ rs, n ≤ r.1 := by
  induction rs generalizing n with
  | nil => simp
  | cons r rest ih =>
    simp only [ascendingFrom, Bool.and_eq_true, decide_eq_true_eq] at h
    intro s hs
    rcases List.mem_cons.1 hs with rfl | hs
    · exact h.1.1
    · have := ih h.2 s hs
      omega

theorem contains_iff_of_ascendingFrom {k : Nat} {rs : Ranges} (h : rs.ascendingFrom k = true) (n : Nat) :
    rs.contains n = true ↔ ∃ r ∈ rs, r.1 ≤ n ∧ n ≤ r.2 := by
  induction rs generalizing k with
  | nil => simp [contains]
  | cons r rest ih =>
    simp only [ascendingFrom, Bool.and_eq_true, decide_eq_true_eq] at h
    simp only [contains, Bool.and_eq_true, Bool.or_eq_true, decide_eq_true_eq, ih h.2,
      List.mem_cons, exists_eq_or_imp]
    constructor
    · rintro ⟨hf, hl | hr⟩
      · exact .inl ⟨hf, hl⟩
      · exact .inr hr
    · rintro (⟨hf, hl⟩ | hr)
      · exact ⟨hf, .inl hl⟩
      · obtain ⟨s, hs, hsf, hsl⟩ := hr
        have := le_of_ascendingFrom h.2 s hs
        exact ⟨by omega, .inr ⟨s, hs, hsf, hsl⟩⟩

theorem contains_iff {rs : Ranges} (h : rs.Ascending) (n : Nat) :
    rs.contains n = true ↔ ∃ r ∈ rs, r.1 ≤ n ∧ n ≤ r.2 :=
  contains_iff_of_ascendingFrom h n

end Ranges
end Text
end PeerDiscovery
