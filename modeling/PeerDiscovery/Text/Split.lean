/-! Cutting a text in two at a mark.
`cut?_eq_some` and `cutLast?_eq_some` say that the parts and the mark make up the text. -/
namespace PeerDiscovery
namespace Text

/-- Looks for a mark in `text`, where `before` has been passed over and stands in reverse. -/
def cutFrom (mark before : List Char) (text : List Char) : Option (List Char × List Char) :=
  if mark.isPrefixOf text then some (before.reverse, text.drop mark.length)
  else
    match text with
    | [] => none
    | c :: rest => cutFrom mark (c :: before) rest

/-- What stands before and after the first occurrence of a mark. -/
def cut? (mark text : List Char) : Option (List Char × List Char) := cutFrom mark [] text

theorem cutFrom_eq_some {mark before text a b : List Char} (h : cutFrom mark before text = some (a, b)) :
    before.reverse ++ text = a ++ mark ++ b := by
  fun_induction cutFrom mark before text with
  | case1 before text hp =>
    obtain ⟨rest, rfl⟩ := List.isPrefixOf_iff_prefix.1 hp
    simp only [List.drop_left, Option.some.injEq, Prod.mk.injEq] at h
    obtain ⟨rfl, rfl⟩ := h
    simp
  | case2 => cases h
  | case3 before c rest _ ih => simpa using ih h

theorem cut?_eq_some {mark text a b : List Char} (h : cut? mark text = some (a, b)) :
    text = a ++ mark ++ b := cutFrom_eq_some h

/-- What stands before and after the last occurrence of a character. -/
def cutLast? (c : Char) (text : List Char) : Option (List Char × List Char) :=
  let backward := text.reverse
  match backward.dropWhile (· != c) with
  | [] => none
  | _ :: before => some (before.reverse, (backward.takeWhile (· != c)).reverse)

theorem head_dropWhile_bne {c d : Char} {text rest : List Char}
    (h : text.dropWhile (· != c) = d :: rest) : d = c := by
  have h' := List.head?_dropWhile_not (p := (· != c)) (l := text)
  rw [h] at h'
  simpa using h'

theorem cutLast?_eq_some {c : Char} {text a b : List Char} (h : cutLast? c text = some (a, b)) :
    text = a ++ c :: b ∧ c ∉ b := by
  unfold cutLast? at h
  generalize hb : text.reverse = backward at h
  simp only at h
  split at h
  · cases h
  · next d before hd =>
    obtain rfl := head_dropWhile_bne hd
    simp only [Option.some.injEq, Prod.mk.injEq] at h
    obtain ⟨rfl, rfl⟩ := h
    have hr : backward.takeWhile (· != d) ++ d :: before = backward := by
      rw [← hd, List.takeWhile_append_dropWhile]
    refine ⟨?_, fun hm => ?_⟩
    · have ht := congrArg List.reverse (hb.trans hr.symm)
      simpa using ht
    · have ha := List.all_takeWhile (p := (· != d)) (l := backward)
      simpa using List.all_eq_true.1 ha d (List.mem_reverse.1 hm)

end Text
end PeerDiscovery
