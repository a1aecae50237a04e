import PeerDiscovery.Proofs.Endpoint.Text

/-! Which texts are endpoints, and what is wrong with the others: `Endpoint.parse_exact`.
The grammar (`IsText`) and the faults (`Fault`) speak of parts of the text only, not of how these are found. A text is
cut at its first mark and what follows at its last colon, so the parts are unique. -/
namespace PeerDiscovery

namespace Text

/-- A text has a mark between two parts, and nowhere before. -/
structure IsFirstCut (mark text a b : List Char) : Prop where
  eq : text = a ++ mark ++ b
  first : ∀ a' b', text = a' ++ mark ++ b' → a.length ≤ a'.length

theorem IsFirstCut.unique {mark text a b a' b' : List Char} (h : IsFirstCut mark text a b)
    (h' : IsFirstCut mark text a' b') : a = a' ∧ b = b' := by
  have hlength : a.length = a'.length := Nat.le_antisymm (h.first _ _ h'.eq) (h'.first _ _ h.eq)
  have heq : a ++ (mark ++ b) = a' ++ (mark ++ b') := by
    rw [← List.append_assoc, ← List.append_assoc, ← h.eq, ← h'.eq]
  obtain ⟨ha, hb⟩ := List.append_inj heq hlength
  exact ⟨ha, List.append_cancel_left hb⟩

theorem cutFrom_eq_none {mark before text : List Char} (h : cutFrom mark before text = none) : ¬mark <:+: text := by
  fun_induction cutFrom mark before text with
  | case1 => cases h
  | case2 before hp =>
    intro hi
    rw [List.infix_nil.1 hi] at hp
    exact hp rfl
  | case3 before c rest hp ih =>
    intro hi
    rcases List.infix_cons_iff.1 hi with hi | hi
    · exact hp (List.isPrefixOf_iff_prefix.2 hi)
    · exact ih h hi

theorem length_le_of_cutFrom {mark before text a b : List Char} (h : cutFrom mark before text = some (a, b)) :
    ∀ a' b', text = a' ++ mark ++ b' → a.length ≤ before.length + a'.length := by
  fun_induction cutFrom mark before text with
  | case1 before text hp =>
    intro a' b' _
    cases h
    rw [List.length_reverse]
    exact Nat.le_add_right _ _
  | case2 => cases h
  | case3 before c rest hp ih =>
    intro a' b' heq
    cases a' with
    | nil =>
      rw [heq] at hp
      exact absurd (List.isPrefixOf_iff_prefix.2 (List.prefix_append mark b')) hp
    | cons d a' =>
      have hle := ih h a' b' (List.cons.inj heq).2
      rw [List.length_cons] at hle ⊢
      omega

theorem isFirstCut_of_cut? {mark text a b : List Char} (h : cut? mark text = some (a, b)) :
    IsFirstCut mark text a b := by
  refine ⟨cut?_eq_some h, fun a' b' heq => ?_⟩
  have hle := length_le_of_cutFrom h a' b' heq
  rwa [List.length_nil, Nat.zero_add] at hle

theorem cut?_eq_none_iff {mark text : List Char} : cut? mark text = none ↔ ¬mark <:+: text := by
  refine ⟨cutFrom_eq_none, fun h => ?_⟩
  cases hc : cut? mark text with
  | none => rfl
  | some p => exact absurd ⟨p.1, p.2, (cut?_eq_some hc).symm⟩ h

theorem cut?_eq_some_iff {mark text a b : List Char} : cut? mark text = some (a, b) ↔ IsFirstCut mark text a b := by
  refine ⟨isFirstCut_of_cut?, fun h => ?_⟩
  cases hc : cut? mark text with
  | none => exact absurd ⟨a, b, h.eq.symm⟩ (cut?_eq_none_iff.1 hc)
  | some p =>
    obtain ⟨ha, hb⟩ := h.unique (isFirstCut_of_cut? hc)
    rw [ha, hb]

theorem cutLast?_eq_some_iff {c : Char} {text a b : List Char} :
    cutLast? c text = some (a, b) ↔ text = a ++ c :: b ∧ c ∉ b := by
  refine ⟨cutLast?_eq_some, ?_⟩
  rintro ⟨rfl, hb⟩
  exact cutLast?_append hb a

theorem cutLast?_eq_none_iff {c : Char} {text : List Char} : cutLast? c text = none ↔ c ∉ text := by
  constructor
  · intro h hc
    unfold cutLast? at h
    simp only at h
    split at h
    · next hd =>
      have hall := List.takeWhile_append_dropWhile (p := (· != c)) (l := text.reverse)
      rw [hd, List.append_nil] at hall
      have hne := List.all_eq_true.1 (List.all_takeWhile (p := (· != c)) (l := text.reverse)) c
      rw [hall] at hne
      simpa using hne (List.mem_reverse.2 hc)
    · cases h
  · intro h
    cases hc : cutLast? c text with
    | none => rfl
    | some p =>
      rw [(cutLast?_eq_some hc).1] at h
      exact absurd (List.mem_append_right _ List.mem_cons_self) h

end Text

namespace Decimal

/-- Digits that stand for a number, with or without a plus sign in front. -/
def IsNumeral (text : List Char) (n : Nat) : Prop :=
  ∃ digits, (text = digits ∨ text = '+' :: digits) ∧ digits ≠ [] ∧ (∀ c ∈ digits, c.isDigit = true) ∧ value digits = n

theorem parse?_eq_some_iff {max n : Nat} {text : List Char} :
    parse? max text = some n ↔ IsNumeral text n ∧ n ≤ max := by
  have hdigits : ∀ digits, digits? max digits = some n ↔
      digits ≠ [] ∧ (∀ c ∈ digits, c.isDigit = true) ∧ value digits = n ∧ n ≤ max := by
    intro digits
    rw [digits?_eq_some_iff, List.all_eq_true]
  constructor
  · intro h
    unfold parse? at h
    split at h
    · next digits =>
      obtain ⟨hne, hall, hvalue, hle⟩ := (hdigits _).1 h
      exact ⟨⟨digits, .inr rfl, hne, hall, hvalue⟩, hle⟩
    · obtain ⟨hne, hall, hvalue, hle⟩ := (hdigits _).1 h
      exact ⟨⟨text, .inl rfl, hne, hall, hvalue⟩, hle⟩
  · rintro ⟨⟨digits, rfl | rfl, hne, hall, hvalue⟩, hle⟩
    · have hread := (hdigits _).2 ⟨hne, hall, hvalue, hle⟩
      unfold parse?
      split
      · exact absurd (hall '+' List.mem_cons_self) (by decide)
      · exact hread
    · exact (hdigits _).2 ⟨hne, hall, hvalue, hle⟩

end Decimal

namespace Endpoint

/-- An address without all opening brackets in front, and then without all closing ones at the end. -/
def IsBare (quoted address : List Char) : Prop :=
  ∃ m n, quoted = List.replicate m '[' ++ address ++ List.replicate n ']' ∧
    address.head? ≠ some '[' ∧ address.getLast? ≠ some ']'

theorem exists_replicate_dropWhile (c : Char) (text : List Char) :
    ∃ n, text = List.replicate n c ++ text.dropWhile fun d => decide (d = c) := by
  refine ⟨(text.takeWhile fun d => decide (d = c)).length, ?_⟩
  have hfront : text.takeWhile (fun d => decide (d = c)) =
      List.replicate (text.takeWhile fun d => decide (d = c)).length c := by
    refine List.eq_replicate_iff.2 ⟨rfl, fun d hd => ?_⟩
    simpa using List.all_eq_true.1 (List.all_takeWhile (p := fun d => decide (d = c)) (l := text)) d hd
  rw [← hfront, List.takeWhile_append_dropWhile]

theorem dropWhile_replicate_append {c : Char} {text : List Char} (n : Nat) (h : text.head? ≠ some c) :
    (List.replicate n c ++ text).dropWhile (fun d => decide (d = c)) = text := by
  induction n with
  | zero => exact dropWhile_of_head h
  | succ n ih =>
    rw [List.replicate_succ, List.cons_append, List.dropWhile_cons_of_pos (by simp)]
    exact ih

/-- Closing brackets are no opening ones, so that what is left in front of them is left out first. -/
theorem head?_append_replicate {address : List Char} (h : address.head? ≠ some '[') (n : Nat) :
    (address ++ List.replicate n ']').head? ≠ some '[' := by
  cases address with
  | nil => cases n <;> simp [List.replicate_succ]
  | cons c address => exact h

theorem isBare_iff {quoted address : List Char} : IsBare quoted address ↔ stripBrackets quoted = address := by
  constructor
  · rintro ⟨m, n, rfl, hhead, hlast⟩
    rw [stripBrackets, List.append_assoc, dropWhile_replicate_append m (head?_append_replicate hhead n),
      List.reverse_append, List.reverse_replicate,
      dropWhile_replicate_append n (by rwa [List.head?_reverse]), List.reverse_reverse]
  · rintro rfl
    obtain ⟨hhead, hlast⟩ := ends_stripBrackets quoted
    obtain ⟨m, hm⟩ := exists_replicate_dropWhile '[' quoted
    obtain ⟨n, hn⟩ := exists_replicate_dropWhile ']' (quoted.dropWhile fun d => decide (d = '[')).reverse
    refine ⟨m, n, ?_, hhead, hlast⟩
    have hback := congrArg List.reverse hn
    rw [List.reverse_reverse, List.reverse_append, List.reverse_replicate] at hback
    rw [List.append_assoc, stripBrackets, ← hback]
    exact hm

abbrev mark : List Char := [':', '/', '/']

/-- A text that stands for an endpoint. -/
def IsText (text : String) (e : Endpoint) : Prop :=
  ∃ quoted port, text.toList = e.transport.name.toList ++ mark ++ (quoted ++ ':' :: port) ∧
    Decimal.IsNumeral port e.port.toNat ∧ IsBare quoted e.address.toList ∧ e.address.toList ≠ []

/-- The first thing that is wrong with a text. -/
inductive Fault (text : String) : EndpointError → Prop where
  | missingScheme (h : ¬mark <:+: text.toList) : Fault text (.missingScheme text)
  | unknownTransport {scheme rest : List Char} (h : Text.IsFirstCut mark text.toList scheme rest)
      (hscheme : ∀ t : Transport, t.name.toList ≠ scheme) : Fault text (.unknownTransport (String.ofList scheme))
  | missingPort {t : Transport} {rest : List Char} (h : text.toList = t.name.toList ++ mark ++ rest)
      (hrest : ':' ∉ rest) : Fault text (.missingPort text)
  | invalidPort {t : Transport} {quoted port : List Char}
      (h : text.toList = t.name.toList ++ mark ++ (quoted ++ ':' :: port)) (hlast : ':' ∉ port)
      (hport : ¬∃ n, Decimal.IsNumeral port n ∧ n ≤ 65535) : Fault text (.invalidPort text)
  | invalidAddress {t : Transport} {quoted port : List Char} {n : Nat}
      (h : text.toList = t.name.toList ++ mark ++ (quoted ++ ':' :: port)) (hport : Decimal.IsNumeral port n)
      (hle : n ≤ 65535) (hquoted : IsBare quoted []) : Fault text (.invalidAddress text)

theorem colon_not_mem_numeral {port : List Char} {n : Nat} (h : Decimal.IsNumeral port n) : ':' ∉ port := by
  obtain ⟨digits, rfl | rfl, -, hall, -⟩ := h
  · exact fun hm => absurd (hall _ hm) (by decide)
  · intro hm
    rcases List.mem_cons.1 hm with hm | hm
    · exact absurd hm (by decide)
    · exact absurd (hall _ hm) (by decide)

theorem transport_parse_name (t : Transport) : Transport.parse (String.ofList t.name.toList) = .ok t := by
  rw [String.ofList_toList, Transport.parse, Transport.ofName?_name]

theorem transport_parse_eq_ok {scheme : List Char} {t : Transport}
    (h : Transport.parse (String.ofList scheme) = .ok t) : scheme = t.name.toList := by
  have hname : t.name = String.ofList scheme := by
    unfold Transport.parse Transport.ofName? at h
    split at h
    · next hs =>
      cases h
      split at hs
      · cases hs
        exact Eq.symm ‹_›
      · cases hs
        exact Eq.symm ‹_›
      · cases hs
        exact Eq.symm ‹_›
      · cases hs
    · cases h
  rw [hname, String.toList_ofList]

theorem transport_parse_eq_error {scheme : List Char} {fault : EndpointError}
    (h : Transport.parse (String.ofList scheme) = .error fault) :
    fault = .unknownTransport (String.ofList scheme) ∧ ∀ t : Transport, t.name.toList ≠ scheme := by
  refine ⟨?_, fun t ht => ?_⟩
  · unfold Transport.parse at h
    split at h
    · cases h
    · exact (Except.error.inj h).symm
  · rw [← ht, transport_parse_name] at h
    cases h

theorem cut?_of_transport {text : String} {t : Transport} {rest : List Char}
    (h : text.toList = t.name.toList ++ mark ++ rest) : Text.cut? mark text.toList = some (t.name.toList, rest) := by
  rw [h, mark, Text.cut?_append (colon_not_mem_name t)]

theorem parse_of_isText {text : String} {e : Endpoint} (h : IsText text e) : parse text = .ok e := by
  obtain ⟨quoted, port, htext, hport, hquoted, hne⟩ := h
  have hread : Decimal.parse? 65535 port = some e.port.toNat :=
    Decimal.parse?_eq_some_iff.2 ⟨hport, Nat.le_of_lt_succ e.port.toNat_lt⟩
  have hlast := Text.cutLast?_append (colon_not_mem_numeral hport) quoted
  simp only [parse, cut?_of_transport htext, transport_parse_name, hlast, hread, isBare_iff.1 hquoted]
  rw [if_neg hne, String.ofList_toList, UInt16.ofNat_toNat]

theorem parse_of_fault {text : String} {fault : EndpointError} (h : Fault text fault) : parse text = .error fault := by
  cases h with
  | missingScheme h => simp only [parse, Text.cut?_eq_none_iff.2 h]
  | @unknownTransport scheme rest h hscheme =>
    cases hparse : Transport.parse (String.ofList scheme) with
    | ok t => exact absurd (transport_parse_eq_ok hparse).symm (hscheme t)
    | error fault =>
      simp only [parse, Text.cut?_eq_some_iff.2 h, hparse]
      rw [(transport_parse_eq_error hparse).1]
  | missingPort h hrest =>
    simp only [parse, cut?_of_transport h, transport_parse_name, Text.cutLast?_eq_none_iff.2 hrest]
  | @invalidPort t quoted port h hlast hport =>
    cases hread : Decimal.parse? 65535 port with
    | none => simp only [parse, cut?_of_transport h, transport_parse_name, Text.cutLast?_append hlast, hread]
    | some n => exact absurd ⟨n, Decimal.parse?_eq_some_iff.1 hread⟩ hport
  | @invalidAddress t quoted port n h hport hle hquoted =>
    have hlast := Text.cutLast?_append (colon_not_mem_numeral hport) quoted
    have hread := Decimal.parse?_eq_some_iff.2 ⟨hport, hle⟩
    simp only [parse, cut?_of_transport h, transport_parse_name, hlast, hread, isBare_iff.1 hquoted, if_true]

theorem isText_or_fault (text : String) : (∃ e, IsText text e) ∨ ∃ fault, Fault text fault := by
  cases hcut : Text.cut? mark text.toList with
  | none => exact .inr ⟨_, .missingScheme (Text.cut?_eq_none_iff.1 hcut)⟩
  | some p =>
    obtain ⟨scheme, rest⟩ := p
    have hfirst := Text.cut?_eq_some_iff.1 hcut
    cases hparse : Transport.parse (String.ofList scheme) with
    | error fault => exact .inr ⟨_, .unknownTransport hfirst (transport_parse_eq_error hparse).2⟩
    | ok t =>
      have htext := hfirst.eq
      rw [transport_parse_eq_ok hparse] at htext
      cases hlast : Text.cutLast? ':' rest with
      | none => exact .inr ⟨_, .missingPort htext (Text.cutLast?_eq_none_iff.1 hlast)⟩
      | some p =>
        obtain ⟨quoted, port⟩ := p
        obtain ⟨rfl, hcolon⟩ := Text.cutLast?_eq_some_iff.1 hlast
        by_cases hport : ∃ n, Decimal.IsNumeral port n ∧ n ≤ 65535
        · obtain ⟨n, hnumeral, hle⟩ := hport
          by_cases hempty : stripBrackets quoted = []
          · exact .inr ⟨_, .invalidAddress htext hnumeral hle (isBare_iff.2 hempty)⟩
          · have hn : (UInt16.ofNat n).toNat = n := by
              rw [UInt16.toNat_ofNat', Nat.mod_eq_of_lt]
              exact Nat.lt_succ_of_le hle
            refine .inl ⟨⟨t, String.ofList (stripBrackets quoted), UInt16.ofNat n⟩, quoted, port, htext, ?_, ?_, ?_⟩
            · rwa [hn]
            · rw [isBare_iff, String.toList_ofList]
            · rwa [String.toList_ofList]
        · exact .inr ⟨_, .invalidPort htext hcolon hport⟩

/-- Reading accepts the texts of the grammar, as the endpoints that they stand for, and nothing else. Of any other text
it tells the first fault. -/
theorem parse_exact (text : String) :
    (∀ e, parse text = .ok e ↔ IsText text e) ∧ ∀ fault, parse text = .error fault ↔ Fault text fault := by
  refine ⟨fun e => ⟨fun h => ?_, parse_of_isText⟩, fun fault => ⟨fun h => ?_, parse_of_fault⟩⟩
  · rcases isText_or_fault text with ⟨e', he⟩ | ⟨fault, hf⟩
    · obtain rfl := Except.ok.inj ((parse_of_isText he).symm.trans h)
      exact he
    · cases (parse_of_fault hf).symm.trans h
  · rcases isText_or_fault text with ⟨e, he⟩ | ⟨fault', hf⟩
    · cases (parse_of_isText he).symm.trans h
    · obtain rfl := Except.error.inj ((parse_of_fault hf).symm.trans h)
      exact hf

end Endpoint
end PeerDiscovery
