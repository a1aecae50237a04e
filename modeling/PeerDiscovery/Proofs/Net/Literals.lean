import PeerDiscovery.Net.IpAddr

/-! IP literals: the text of an IPv4 address is one (`parse?_text_v4`), and none is long (`length_le_of_parse?`). -/
namespace PeerDiscovery

/-- The parts of a text between marks make it up, each with its mark. -/
theorem flatMap_splitOn (d : Char) (text : List Char) :
    ((List.splitOn d text).flatMap fun part => part ++ [d]) = text ++ [d] := by
  induction text with
  | nil => rfl
  | cons c text ih =>
    rw [List.splitOn_cons_eq_if_modifyHead]
    split
    · next hc =>
      rw [List.flatMap_cons, ih, eq_of_beq hc]
      rfl
    · obtain ⟨part, parts, hp⟩ := List.exists_cons_of_ne_nil (List.splitOn_ne_nil d text)
      rw [hp, List.flatMap_cons] at ih
      rw [hp, List.modifyHead_cons, List.flatMap_cons, List.cons_append, List.cons_append, ih, List.cons_append]

namespace Net

namespace Ipv4

theorem octet?_print (octet : UInt8) : octet? (Decimal.print octet.toNat) = some octet := by
  have h : ∀ n : Fin 256, octet? (Decimal.print n) = some (UInt8.ofNat n) := by decide +kernel
  simpa using h ⟨octet.toNat, octet.toNat_lt⟩

theorem splitOn_print (ip : Ipv4) :
    List.splitOn '.' ip.print = ip.octets.map fun octet => Decimal.print octet.toNat := by
  refine List.splitOn_intercalate '.' (fun digits hd hdot => ?_) (by simp [octets])
  obtain ⟨octet, -, rfl⟩ := List.mem_map.1 hd
  exact absurd (Decimal.isDigit_of_mem_print hdot) (by decide)

theorem parse?_print (ip : Ipv4) : parse? ip.print = some ip := by
  simp only [parse?, splitOn_print, octets, List.map_cons, List.map_nil, octet?_print]
  rfl

theorem length_le_of_octet? {digits : List Char} {octet : UInt8} (h : octet? digits = some octet) :
    digits.length ≤ 3 := by
  unfold octet? at h
  split at h
  · next hd => exact hd.1
  · cases h

theorem length_le_of_parse? {text : List Char} {ip : Ipv4} (h : parse? text = some ip) : text.length ≤ 15 := by
  have hl := congrArg List.length (flatMap_splitOn '.' text)
  unfold parse? at h
  split at h
  · next a b c d hs =>
    obtain ⟨_, ha, h⟩ := Option.bind_eq_some_iff.1 h
    obtain ⟨_, hb, h⟩ := Option.bind_eq_some_iff.1 h
    obtain ⟨_, hc, h⟩ := Option.bind_eq_some_iff.1 h
    obtain ⟨_, hd, -⟩ := Option.bind_eq_some_iff.1 h
    have ha := length_le_of_octet? ha
    have hb := length_le_of_octet? hb
    have hc := length_le_of_octet? hc
    have hd := length_le_of_octet? hd
    simp [hs] at hl
    omega
  · cases h

end Ipv4

namespace Ipv6

variable {text : List Char} {groups : List UInt16}

theorem length_le_of_group? {group : UInt16} (h : group? text = some group) : text.length ≤ 4 := by
  unfold group? at h
  split at h
  · next ht => exact ht.2
  · cases h

theorem length_le_of_mapM {parts : List (List Char)} (h : parts.mapM group? = some groups) (d : Char) :
    (parts.flatMap fun part => part ++ [d]).length ≤ 5 * groups.length := by
  induction parts generalizing groups with
  | nil => exact Nat.zero_le _
  | cons part parts ih =>
    rw [List.mapM_cons] at h
    obtain ⟨group, hg, h⟩ := Option.bind_eq_some_iff.1 h
    obtain ⟨rest, hr, h⟩ := Option.bind_eq_some_iff.1 h
    obtain rfl : group :: rest = groups := Option.some.inj h
    have hg := length_le_of_group? hg
    have hr := ih hr
    simp only [List.flatMap_cons, List.length_append, List.length_cons, List.length_nil]
    omega

theorem length_lt_of_mapM (h : (List.splitOn ':' text).mapM group? = some groups) : text.length < 5 * groups.length := by
  have hl := length_le_of_mapM h ':'
  rw [flatMap_splitOn, List.length_append] at hl
  exact hl

theorem length_le_of_hexGroups? (h : hexGroups? text = some groups) : text.length ≤ 5 * groups.length := by
  unfold hexGroups? at h
  split at h
  · next hn => simp [hn]
  · exact Nat.le_of_lt (length_lt_of_mapM h)

/-- The dotted tail takes five characters more than the two groups that it stands for. -/
theorem length_le_of_groups? (h : groups? text = some groups) : text.length ≤ 5 * groups.length + 5 := by
  unfold groups? at h
  split at h
  · split at h
    · next tail ht =>
      obtain rfl := Option.some.inj h
      exact Ipv4.length_le_of_parse? ht
    · exact Nat.le_add_right_of_le (length_le_of_hexGroups? h)
  · next front back hf =>
    obtain ⟨rfl, -⟩ := Text.cutLast?_eq_some hf
    split at h
    · next tail ht =>
      obtain ⟨first, hg, h⟩ := Option.bind_eq_some_iff.1 h
      obtain rfl : first ++ ofIpv4 tail = groups := Option.some.inj h
      have ht := Ipv4.length_le_of_parse? ht
      have hg := length_lt_of_mapM hg
      simp only [List.length_append, List.length_cons, ofIpv4, List.length_nil]
      omega
    · exact Nat.le_add_right_of_le (length_le_of_hexGroups? h)

theorem length_of_ofGroups? {ip : Ipv6} (h : ofGroups? groups = some ip) : groups.length = 8 := by
  unfold ofGroups? at h
  split at h
  · assumption
  · cases h

theorem length_le_of_parse? {ip : Ipv6} (h : parse? text = some ip) : text.length ≤ 45 := by
  unfold parse? at h
  split at h
  · obtain ⟨groups, hg, h⟩ := Option.bind_eq_some_iff.1 h
    have hl := length_le_of_groups? hg
    have h := length_of_ofGroups? h
    omega
  · next front back hc =>
    obtain rfl := Text.cut?_eq_some hc
    obtain ⟨groups, hg, h⟩ := Option.bind_eq_some_iff.1 h
    obtain ⟨groups', hg', h⟩ := Option.bind_eq_some_iff.1 h
    have hl := length_le_of_hexGroups? hg
    have hl' := length_le_of_groups? hg'
    simp only at h
    split at h
    · cases h
    · simp only [List.length_append, List.length_cons, List.length_nil]
      omega

end Ipv6

namespace IpAddr

theorem parse?_text_v4 (ip : Ipv4) : parse? (v4 ip).text = some (v4 ip) := by
  rw [parse?, text, String.toList_ofList, parseChars?, Ipv4.parse?_print]

theorem length_le_of_parse? {text : String} {ip : IpAddr} (h : parse? text = some ip) : text.toList.length ≤ 45 := by
  unfold parse? parseChars? at h
  split at h
  · next ip hp => exact Nat.le_trans (Ipv4.length_le_of_parse? hp) (by decide)
  · obtain ⟨ip, hp, -⟩ := Option.map_eq_some_iff.1 h
    exact Ipv6.length_le_of_parse? hp

end IpAddr
end Net
end PeerDiscovery
