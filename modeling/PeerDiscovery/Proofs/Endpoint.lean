import PeerDiscovery.Endpoint

/-! The text of an endpoint reads back: `Endpoint.parse_text_of_readable`.
The address has to be there, and to have no bracket where one would be left out; an IP literal has none at all
(`plain_of_parse?`). -/
namespace PeerDiscovery

def NoBracket (c : Char) : Prop := c ≠ '[' ∧ c ≠ ']'

instance (c : Char) : Decidable (NoBracket c) := inferInstanceAs (Decidable (_ ∧ _))

theorem noBracket_of_isDigit {c : Char} (h : c.isDigit = true) : NoBracket c := by
  constructor <;>
  · rintro rfl
    revert h
    decide

theorem mem_splitOn {c d : Char} {text : List Char} (h : c ∈ text) :
    c = d ∨ ∃ piece ∈ List.splitOn d text, c ∈ piece := by
  have hs : [d].intercalate (List.splitOn d text) = text := List.intercalate_splitOn d
  rw [← hs, List.intercalate] at h
  obtain ⟨piece, hp, hc⟩ := List.mem_flatten.1 h
  have hh : ∀ pieces : List (List Char), piece ∈ pieces.intersperse [d] → piece = [d] ∨ piece ∈ pieces := by
    intro pieces
    induction pieces with
    | nil => exact fun h => .inr h
    | cons a rest ih =>
      cases rest with
      | nil => exact fun h => .inr h
      | cons b rest =>
        intro h
        rw [List.intersperse_cons_cons, List.mem_cons, List.mem_cons] at h
        rcases h with rfl | rfl | h
        · exact .inr List.mem_cons_self
        · exact .inl rfl
        · exact (ih h).imp_right (List.mem_cons_of_mem a)
  rcases hh _ hp with rfl | hp
  · exact .inl (List.mem_singleton.1 hc)
  · exact .inr ⟨piece, hp, hc⟩

theorem exists_of_mapM {α β : Type} {f : α → Option β} {xs : List α} {ys : List β} (h : xs.mapM f = some ys) :
    ∀ x ∈ xs, ∃ y, f x = some y := by
  induction xs generalizing ys with
  | nil => exact fun _ hx => absurd hx List.not_mem_nil
  | cons a xs ih =>
    rw [List.mapM_cons] at h
    obtain ⟨y, hy, h⟩ := Option.bind_eq_some_iff.1 h
    obtain ⟨zs, hz, -⟩ := Option.bind_eq_some_iff.1 h
    intro x hx
    rcases List.mem_cons.1 hx with rfl | hx
    · exact ⟨y, hy⟩
    · exact ih hz x hx

theorem exists_of_foldlM {α β : Type} {f : α → Option β} {g : β → β → β} {xs : List α} {b b' : β}
    (h : xs.foldlM (fun b a => (f a).map (g b)) b = some b') : ∀ x ∈ xs, ∃ y, f x = some y := by
  induction xs generalizing b with
  | nil => exact fun _ hx => absurd hx List.not_mem_nil
  | cons a xs ih =>
    rw [List.foldlM_cons] at h
    obtain ⟨c, hc, h⟩ := Option.bind_eq_some_iff.1 h
    obtain ⟨y, hy, -⟩ := Option.map_eq_some_iff.1 hc
    intro x hx
    rcases List.mem_cons.1 hx with rfl | hx
    · exact ⟨y, hy⟩
    · exact ih h x hx

namespace Net

theorem Ipv4.isDigit_of_octet? {digits : List Char} {octet : UInt8} (h : octet? digits = some octet) :
    ∀ c ∈ digits, c.isDigit = true := by
  unfold octet? at h
  split at h
  · obtain ⟨n, hn, -⟩ := Option.map_eq_some_iff.1 h
    exact List.all_eq_true.1 (Decimal.digits?_eq_some_iff.1 hn).2.1
  · cases h

/-- The text of an address of four octets has digits and dots only. -/
theorem Ipv4.isDigit_or_dot_of_parse? {text : List Char} {ip : Ipv4} (h : parse? text = some ip) :
    ∀ c ∈ text, c.isDigit = true ∨ c = '.' := by
  intro c hc
  unfold parse? at h
  split at h
  · next a b c' d hs =>
    obtain ⟨_, ha, h⟩ := Option.bind_eq_some_iff.1 h
    obtain ⟨_, hb, h⟩ := Option.bind_eq_some_iff.1 h
    obtain ⟨_, hc', h⟩ := Option.bind_eq_some_iff.1 h
    obtain ⟨_, hd, -⟩ := Option.bind_eq_some_iff.1 h
    rcases mem_splitOn (d := '.') hc with rfl | ⟨piece, hp, hm⟩
    · exact .inr rfl
    · rw [hs] at hp
      simp only [List.mem_cons, List.not_mem_nil, or_false] at hp
      rcases hp with rfl | rfl | rfl | rfl
      · exact .inl (isDigit_of_octet? ha c hm)
      · exact .inl (isDigit_of_octet? hb c hm)
      · exact .inl (isDigit_of_octet? hc' c hm)
      · exact .inl (isDigit_of_octet? hd c hm)
  · cases h

theorem Ipv4.noBracket_of_parse? {text : List Char} {ip : Ipv4} (h : parse? text = some ip) :
    ∀ c ∈ text, NoBracket c := by
  intro c hc
  rcases isDigit_or_dot_of_parse? h c hc with hd | rfl
  · exact noBracket_of_isDigit hd
  · decide

theorem Ipv4.noBracket_print (ip : Ipv4) : ∀ c ∈ ip.print, NoBracket c := by
  intro c hc
  simp only [print, octets, List.map_cons, List.map_nil, List.intercalate, List.intersperse_cons_cons,
    List.intersperse_singleton, List.flatten_cons, List.flatten_nil, List.append_nil, List.mem_append,
    List.mem_singleton] at hc
  have hh : ∀ n, c ∈ Decimal.print n → NoBracket c := fun n h => noBracket_of_isDigit (Decimal.isDigit_of_mem_print h)
  rcases hc with hc | rfl | hc | rfl | hc | rfl | hc
  · exact hh _ hc
  · decide
  · exact hh _ hc
  · decide
  · exact hh _ hc
  · decide
  · exact hh _ hc

namespace Ipv6

theorem noBracket_of_hexDigit? {c : Char} {n : Nat} (h : hexDigit? c = some n) : NoBracket c := by
  have hopen : hexDigit? '[' = none := by decide
  have hclose : hexDigit? ']' = none := by decide
  constructor
  · rintro rfl
    rw [hopen] at h
    cases h
  · rintro rfl
    rw [hclose] at h
    cases h

theorem noBracket_of_group? {text : List Char} {group : UInt16} (h : group? text = some group) :
    ∀ c ∈ text, NoBracket c := by
  intro c hc
  unfold group? at h
  split at h
  · obtain ⟨n, hn, -⟩ := Option.map_eq_some_iff.1 h
    obtain ⟨y, hy⟩ := exists_of_foldlM hn c hc
    exact noBracket_of_hexDigit? hy
  · cases h

theorem noBracket_of_mapM {text : List Char} {groups : List UInt16}
    (h : (List.splitOn ':' text).mapM group? = some groups) : ∀ c ∈ text, NoBracket c := by
  intro c hc
  rcases mem_splitOn (d := ':') hc with rfl | ⟨piece, hp, hm⟩
  · decide
  · obtain ⟨group, hg⟩ := exists_of_mapM h piece hp
    exact noBracket_of_group? hg c hm

theorem noBracket_of_hexGroups? {text : List Char} {groups : List UInt16} (h : hexGroups? text = some groups) :
    ∀ c ∈ text, NoBracket c := by
  unfold hexGroups? at h
  split at h
  · next hn => exact fun c hc => absurd hc (by simp [hn])
  · exact noBracket_of_mapM h

theorem noBracket_of_groups? {text : List Char} {groups : List UInt16} (h : groups? text = some groups) :
    ∀ c ∈ text, NoBracket c := by
  unfold groups? at h
  split at h
  · split at h
    · next tail ht => exact Ipv4.noBracket_of_parse? ht
    · exact noBracket_of_hexGroups? h
  · next front back hf =>
    split at h
    · next tail ht =>
      obtain ⟨groups, hg, -⟩ := Option.bind_eq_some_iff.1 h
      obtain ⟨rfl, -⟩ := Text.cutLast?_eq_some hf
      intro c hc
      rcases List.mem_append.1 hc with hc | hc
      · exact noBracket_of_mapM hg c hc
      · rcases List.mem_cons.1 hc with rfl | hc
        · decide
        · exact Ipv4.noBracket_of_parse? ht c hc
    · exact noBracket_of_hexGroups? h

theorem noBracket_of_parse? {text : List Char} {ip : Ipv6} (h : parse? text = some ip) :
    ∀ c ∈ text, NoBracket c := by
  unfold parse? at h
  split at h
  · obtain ⟨groups, hg, -⟩ := Option.bind_eq_some_iff.1 h
    exact noBracket_of_groups? hg
  · next front back hc =>
    obtain ⟨groups, hg, h⟩ := Option.bind_eq_some_iff.1 h
    obtain ⟨groups', hg', -⟩ := Option.bind_eq_some_iff.1 h
    obtain rfl := Text.cut?_eq_some hc
    intro c hc
    rcases List.mem_append.1 hc with hc | hc
    · rcases List.mem_append.1 hc with hc | hc
      · exact noBracket_of_hexGroups? hg c hc
      · simp only [List.mem_cons, List.not_mem_nil, or_false, or_self] at hc
        subst hc
        decide
    · exact noBracket_of_groups? hg' c hc

end Ipv6
end Net

namespace Text

theorem cutFrom_append {c : Char} {mark before front rest : List Char} (h : c ∉ front) :
    cutFrom (c :: mark) before (front ++ (c :: mark) ++ rest) = some (before.reverse ++ front, rest) := by
  induction front generalizing before with
  | nil =>
    have hp : (c :: mark).isPrefixOf (c :: mark ++ rest) = true :=
      List.isPrefixOf_iff_prefix.2 (List.prefix_append _ _)
    rw [List.nil_append, cutFrom.eq_def, if_pos hp]
    simp
  | cons d front ih =>
    rw [List.mem_cons, not_or] at h
    have hp : ¬(c :: mark).isPrefixOf (d :: front ++ (c :: mark) ++ rest) = true := by
      intro hh
      exact h.1 (List.cons_prefix_cons.1 (List.isPrefixOf_iff_prefix.1 hh)).1
    rw [cutFrom.eq_def, if_neg hp]
    exact (ih h.2).trans (by simp)

/-- The first mark is the one after a text without its first character. -/
theorem cut?_append {c : Char} {mark front : List Char} (h : c ∉ front) (rest : List Char) :
    cut? (c :: mark) (front ++ (c :: mark) ++ rest) = some (front, rest) := cutFrom_append h

theorem dropWhile_of_not_mem {c : Char} {text : List Char} (h : c ∉ text) (rest : List Char) :
    (text ++ c :: rest).dropWhile (· != c) = c :: rest ∧ (text ++ c :: rest).takeWhile (· != c) = text := by
  induction text with
  | nil => simp
  | cons d text ih =>
    rw [List.mem_cons, not_or] at h
    obtain ⟨h₁, h₂⟩ := ih h.2
    have hd : (d != c) = true := by simpa using Ne.symm h.1
    exact ⟨by simp [hd, h₁], by simp [hd, h₂]⟩

theorem cutLast?_append {c : Char} {back : List Char} (h : c ∉ back) (front : List Char) :
    cutLast? c (front ++ c :: back) = some (front, back) := by
  have hr : (front ++ c :: back).reverse = back.reverse ++ c :: front.reverse := by simp
  have hb : c ∉ back.reverse := by simpa using h
  obtain ⟨h₁, h₂⟩ := dropWhile_of_not_mem hb front.reverse
  simp only [cutLast?, hr, h₁, h₂, List.reverse_reverse]

end Text

theorem Decimal.parse?_print {max n : Nat} (h : n ≤ max) : parse? max (print n) = some n := by
  have hd := digits?_print h
  unfold parse?
  split
  · next digits hp =>
    have hplus : ('+' : Char).isDigit = true := isDigit_of_mem_print (n := n) (by rw [hp]; exact List.mem_cons_self)
    exact absurd hplus (by decide)
  · exact hd

namespace Endpoint

/-- An address that can be told from what stands around it. -/
structure Plain (address : String) : Prop where
  ne_nil : address.toList ≠ []
  noBracket : ∀ c ∈ address.toList, NoBracket c

theorem plain_of_parse? {address : String} {ip : Net.IpAddr} (h : Net.IpAddr.parse? address = some ip) :
    Plain address := by
  refine ⟨fun hn => ?_, ?_⟩
  · have hh : Net.IpAddr.parseChars? [] = none := by decide +kernel
    rw [Net.IpAddr.parse?, hn, hh] at h
    cases h
  · unfold Net.IpAddr.parse? Net.IpAddr.parseChars? at h
    split at h
    · next ip hp => exact Net.Ipv4.noBracket_of_parse? hp
    · obtain ⟨ip, hp, -⟩ := Option.map_eq_some_iff.1 h
      exact Net.Ipv6.noBracket_of_parse? hp

theorem plain_text_v4 (ip : Net.Ipv4) : Plain (Net.IpAddr.v4 ip).text := by
  have hl : (Net.IpAddr.v4 ip).text.toList = ip.print := String.toList_ofList
  refine ⟨?_, ?_⟩
  · rw [hl]
    have hne := Decimal.print_ne_nil ip.a.toNat
    simp [Net.Ipv4.print, Net.Ipv4.octets, List.intercalate, hne]
  · rw [hl]
    exact Net.Ipv4.noBracket_print ip

/-- An address that begins with no opening bracket and ends with no closing one. -/
structure Readable (address : String) : Prop where
  ne_nil : address.toList ≠ []
  head : address.toList.head? ≠ some '['
  last : address.toList.getLast? ≠ some ']'

instance (address : String) : Decidable (Readable address) :=
  decidable_of_iff (address.toList ≠ [] ∧ address.toList.head? ≠ some '[' ∧ address.toList.getLast? ≠ some ']')
    ⟨fun h => ⟨h.1, h.2.1, h.2.2⟩, fun h => ⟨h.ne_nil, h.head, h.last⟩⟩

theorem Plain.readable {address : String} (h : Plain address) : Readable address where
  ne_nil := h.ne_nil
  head hh := (h.noBracket _ (List.mem_of_head? hh)).1 rfl
  last hh := (h.noBracket _ (List.mem_of_getLast? hh)).2 rfl

theorem dropWhile_of_head {c : Char} {text : List Char} (h : text.head? ≠ some c) :
    text.dropWhile (fun d => decide (d = c)) = text := by
  cases text with
  | nil => rfl
  | cons d text => exact List.dropWhile_cons_of_neg (by simpa using h)

theorem stripBrackets_of_ends {text : List Char} (hh : text.head? ≠ some '[') (hl : text.getLast? ≠ some ']') :
    stripBrackets text = text := by
  rw [stripBrackets, dropWhile_of_head hh, dropWhile_of_head (by rwa [List.head?_reverse]), List.reverse_reverse]

theorem stripBrackets_bracketed {text : List Char} (hne : text ≠ []) (hh : text.head? ≠ some '[')
    (hl : text.getLast? ≠ some ']') : stripBrackets ('[' :: text ++ [']']) = text := by
  have h₁ : ('[' :: text ++ [']']).dropWhile (fun c => decide (c = '[')) = text ++ [']'] := by
    rw [List.cons_append, List.dropWhile_cons_of_pos (by decide)]
    refine dropWhile_of_head ?_
    rwa [List.head?_append, Option.or_of_isSome (List.isSome_head?.2 hne)]
  have h₂ : (text ++ [']']).reverse.dropWhile (fun c => decide (c = ']')) = text.reverse := by
    rw [List.reverse_append, List.reverse_singleton, List.singleton_append, List.dropWhile_cons_of_pos (by decide)]
    exact dropWhile_of_head (by rwa [List.head?_reverse])
  rw [stripBrackets, h₁, h₂, List.reverse_reverse]

def quoted (e : Endpoint) : List Char :=
  if ':' ∈ e.address.toList then '[' :: e.address.toList ++ [']'] else e.address.toList

theorem toList_text (e : Endpoint) :
    e.text.toList = e.transport.name.toList ++ [':', '/', '/'] ++
      (e.quoted ++ ':' :: Decimal.print e.port.toNat) := by
  have hp : (toString e.port.toNat).toList = Decimal.print e.port.toNat := String.toList_ofList
  have h₁ : "://[".toList = [':', '/', '/', '['] := by decide
  have h₂ : "]:".toList = [']', ':'] := by decide
  have h₃ : "://".toList = [':', '/', '/'] := by decide
  have h₄ : ":".toList = [':'] := by decide
  unfold text quoted
  split
  · simp only [String.toList_append, hp, h₁, h₂]
    simp
  · simp only [String.toList_append, hp, h₃, h₄]
    simp

theorem stripBrackets_quoted {e : Endpoint} (h : Readable e.address) : stripBrackets e.quoted = e.address.toList := by
  unfold quoted
  split
  · exact stripBrackets_bracketed h.ne_nil h.head h.last
  · exact stripBrackets_of_ends h.head h.last

/-- The text of an endpoint reads back, unless its address is empty or has a bracket at an end where one is left out. -/
theorem parse_text_of_readable {e : Endpoint} (h : Readable e.address) : parse e.text = .ok e := by
  have hname : ':' ∉ e.transport.name.toList := by
    cases e.transport <;> decide
  have hport : ':' ∉ Decimal.print e.port.toNat := fun hc => absurd (Decimal.isDigit_of_mem_print hc) (by decide)
  have htransport : Transport.parse (String.ofList e.transport.name.toList) = .ok e.transport := by
    rw [String.ofList_toList, Transport.parse, Transport.ofName?_name]
  have hle : e.port.toNat ≤ 65535 := Nat.le_of_lt_succ e.port.toNat_lt
  rw [parse, toList_text, Text.cut?_append hname]
  simp only [htransport, Text.cutLast?_append hport, Decimal.parse?_print hle, stripBrackets_quoted h]
  rw [if_neg h.ne_nil, String.ofList_toList, UInt16.ofNat_toNat]

theorem parse_text {e : Endpoint} (h : Plain e.address) : parse e.text = .ok e := parse_text_of_readable h.readable

theorem socketAddr_withPort {e : Endpoint} {addr : Net.SocketAddr} (h : e.socketAddr = .ok addr) (port : UInt16) :
    (e.withPort port).socketAddr = .ok { addr with port } := by
  unfold socketAddr at h ⊢
  dsimp only [withPort]
  cases hi : ip? e.address with
  | none =>
    rw [hi] at h
    cases h
  | some ip =>
    rw [hi] at h
    cases h
    rfl

theorem port_of_socketAddr {e : Endpoint} {addr : Net.SocketAddr} (h : e.socketAddr = .ok addr) :
    addr.port = e.port := by
  unfold socketAddr at h
  split at h
  · exact congrArg Net.SocketAddr.port (Except.ok.inj h).symm
  · cases h

theorem plain_of_socketAddr {e : Endpoint} {addr : Net.SocketAddr} (h : e.socketAddr = .ok addr)
    (hw : ¬e.IsWildcard) : Plain e.address := by
  unfold socketAddr ip? at h
  rw [if_neg fun ha => hw (.inl ha)] at h
  cases hp : Net.IpAddr.parse? e.address with
  | none =>
    rw [hp] at h
    cases h
  | some ip => exact plain_of_parse? hp

end Endpoint
end PeerDiscovery
