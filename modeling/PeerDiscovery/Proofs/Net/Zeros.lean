import PeerDiscovery.Proofs.Lists
import PeerDiscovery.Proofs.Net.Canonical

/-! Which IP literals stand for no machine in particular: those written with zeros and marks only, in whatever
spelling (`IpAddr.isUnspecified_iff_idle`). -/
namespace PeerDiscovery
namespace Net

/-- A zero, or a mark between numbers. -/
def IsIdle (c : Char) : Prop := c = '0' ∨ c = '.' ∨ c = ':'

theorem isIdle_iff_of_ne {c : Char} (hdot : c ≠ '.') (hcolon : c ≠ ':') : IsIdle c ↔ c = '0' := by
  simp [IsIdle, hdot, hcolon]

theorem isIdle_iff_of_isDigit {c : Char} (h : c.isDigit = true) : IsIdle c ↔ c.toNat - '0'.toNat = 0 := by
  have hle := (Char.isDigit_iff_toNat.1 h).1
  have hne : ∀ d : Char, d.isDigit = false → c ≠ d := by
    rintro d hd rfl
    rw [hd] at h
    cases h
  rw [isIdle_iff_of_ne (hne _ (by decide)) (hne _ (by decide)), ← Char.toNat_inj]
  omega

theorem Ipv6.hexDigit?_lt {c : Char} {d : Nat} (h : hexDigit? c = some d) : d < 16 := by
  have hnine : '9'.toNat = '0'.toNat + 9 := rfl
  have hle : ∀ last : Char, c ≤ last → c.toNat ≤ last.toNat := fun last hc => hc
  unfold hexDigit? at h
  split at h
  · next hd =>
    have hc := (Char.isDigit_iff_toNat.1 hd).2
    obtain rfl := Option.some.inj h
    omega
  · split at h
    · next hc =>
      have hc : c.toNat ≤ 'a'.toNat + 5 := hle 'f' hc.2
      obtain rfl := Option.some.inj h
      omega
    · split at h
      · next hc =>
        have hc : c.toNat ≤ 'A'.toNat + 5 := hle 'F' hc.2
        obtain rfl := Option.some.inj h
        omega
      · cases h

theorem Ipv6.isIdle_iff_of_hexDigit? {c : Char} {d : Nat} (h : hexDigit? c = some d) : IsIdle c ↔ d = 0 := by
  have hne : ∀ mark : Char, hexDigit? mark = none → c ≠ mark := by
    rintro mark hm rfl
    rw [hm] at h
    cases h
  have hmark := isIdle_iff_of_ne (hne '.' (by decide)) (hne ':' (by decide))
  unfold hexDigit? at h
  split at h
  · next hd =>
    obtain rfl := Option.some.inj h
    exact isIdle_iff_of_isDigit hd
  · next hd =>
    have hpos : d ≠ 0 := by
      split at h
      · obtain rfl := Option.some.inj h
        exact Nat.succ_ne_zero _
      · split at h
        · obtain rfl := Option.some.inj h
          exact Nat.succ_ne_zero _
        · cases h
    rw [hmark]
    refine iff_of_false ?_ hpos
    rintro rfl
    exact hd (by decide)

theorem ofDigitChars_eq_zero_iff {digits : List Char} (h : ∀ c ∈ digits, c.isDigit = true) (n : Nat) :
    Nat.ofDigitChars 10 digits n = 0 ↔ n = 0 ∧ ∀ c ∈ digits, IsIdle c := by
  induction digits generalizing n with
  | nil => simp [Nat.ofDigitChars]
  | cons c digits ih =>
    obtain ⟨hc, hrest⟩ := List.forall_mem_cons.1 h
    rw [Nat.ofDigitChars_cons, ih hrest, List.forall_mem_cons, isIdle_iff_of_isDigit hc, ← and_assoc,
      Nat.add_eq_zero_iff, Nat.mul_eq_zero, or_iff_right (by decide)]

theorem Ipv6.foldlM_hexDigit?_eq_zero_iff {digits : List Char} {n value : Nat}
    (h : digits.foldlM (fun n c => (hexDigit? c).map (16 * n + ·)) n = some value) :
    value = 0 ↔ n = 0 ∧ ∀ c ∈ digits, IsIdle c := by
  induction digits generalizing n with
  | nil =>
    obtain rfl := Option.some.inj h
    simp
  | cons c digits ih =>
    rw [List.foldlM_cons] at h
    obtain ⟨m, hm, hrest⟩ := Option.bind_eq_some_iff.1 h
    obtain ⟨d, hd, rfl⟩ := Option.map_eq_some_iff.1 hm
    rw [ih hrest, List.forall_mem_cons, isIdle_iff_of_hexDigit? hd, ← and_assoc, Nat.add_eq_zero_iff, Nat.mul_eq_zero,
      or_iff_right (by decide)]

theorem Ipv6.foldlM_hexDigit?_lt {digits : List Char} {n value : Nat}
    (h : digits.foldlM (fun n c => (hexDigit? c).map (16 * n + ·)) n = some value) :
    value < (n + 1) * 16 ^ digits.length := by
  induction digits generalizing n with
  | nil =>
    obtain rfl := Option.some.inj h
    simp
  | cons c digits ih =>
    rw [List.foldlM_cons] at h
    obtain ⟨m, hm, hrest⟩ := Option.bind_eq_some_iff.1 h
    obtain ⟨d, hd, rfl⟩ := Option.map_eq_some_iff.1 hm
    have hstep : 16 * n + d + 1 ≤ (n + 1) * 16 := by
      have := hexDigit?_lt hd
      omega
    calc value < (16 * n + d + 1) * 16 ^ digits.length := ih hrest
      _ ≤ (n + 1) * 16 * 16 ^ digits.length := Nat.mul_le_mul_right _ hstep
      _ = (n + 1) * 16 ^ (c :: digits).length := by rw [List.length_cons, Nat.pow_succ, Nat.mul_assoc, Nat.mul_comm 16]

theorem forall_mem_iff_splitOn {P : Char → Prop} {mark : Char} (hmark : P mark) (text : List Char) :
    (∀ c ∈ text, P c) ↔ ∀ part ∈ List.splitOn mark text, ∀ c ∈ part, P c := by
  constructor
  · intro h part hp c hc
    have hm : c ∈ (List.splitOn mark text).flatMap fun part => part ++ [mark] :=
      List.mem_flatMap.2 ⟨part, hp, List.mem_append_left _ hc⟩
    rw [flatMap_splitOn] at hm
    rcases List.mem_append.1 hm with hm | hm
    · exact h c hm
    · exact List.mem_singleton.1 hm ▸ hmark
  · intro h c hc
    rcases mem_splitOn (d := mark) hc with rfl | ⟨part, hp, hm⟩
    · exact hmark
    · exact h part hp c hm

namespace Ipv4

theorem octet_eq_zero_iff {digits : List Char} {octet : UInt8} (h : octet? digits = some octet) :
    octet = 0 ↔ ∀ c ∈ digits, IsIdle c := by
  have hdigits := isDigit_of_octet? h
  unfold octet? at h
  split at h
  · obtain ⟨n, hn, rfl⟩ := Option.map_eq_some_iff.1 h
    obtain ⟨-, -, rfl, hle⟩ := Decimal.digits?_eq_some_iff.1 hn
    have hvalue : UInt8.ofNat (Decimal.value digits) = 0 ↔ Decimal.value digits = 0 := by
      rw [← UInt8.toNat_inj, UInt8.toNat_ofNat_of_lt' (Nat.lt_succ_of_le hle)]
      rfl
    rw [hvalue, Decimal.value, ofDigitChars_eq_zero_iff hdigits, eq_self_iff_true, true_and]
  · cases h

theorem eq_unspecified_iff {text : List Char} {ip : Ipv4} (h : parse? text = some ip) :
    ip = .unspecified ↔ ∀ c ∈ text, IsIdle c := by
  have hdot : IsIdle '.' := .inr (.inl rfl)
  rw [forall_mem_iff_splitOn hdot]
  unfold parse? at h
  split at h
  · next a b c d hs =>
    obtain ⟨a', ha, h⟩ := Option.bind_eq_some_iff.1 h
    obtain ⟨b', hb, h⟩ := Option.bind_eq_some_iff.1 h
    obtain ⟨c', hc, h⟩ := Option.bind_eq_some_iff.1 h
    obtain ⟨d', hd, h⟩ := Option.bind_eq_some_iff.1 h
    obtain rfl : (⟨a', b', c', d'⟩ : Ipv4) = ip := Option.some.inj h
    simp only [hs, List.forall_mem_cons, List.not_mem_nil, false_implies, implies_true, and_true, unspecified,
      Ipv4.mk.injEq, octet_eq_zero_iff ha, octet_eq_zero_iff hb, octet_eq_zero_iff hc, octet_eq_zero_iff hd]
  · cases h

end Ipv4

namespace Ipv6

variable {text : List Char} {groups : List UInt16}

theorem group_eq_zero_iff {group : UInt16} (h : group? text = some group) : group = 0 ↔ ∀ c ∈ text, IsIdle c := by
  unfold group? at h
  split at h
  · next ht =>
    obtain ⟨n, hn, rfl⟩ := Option.map_eq_some_iff.1 h
    have hlt : n < 2 ^ 16 := by
      calc n < (0 + 1) * 16 ^ text.length := foldlM_hexDigit?_lt hn
        _ ≤ (0 + 1) * 16 ^ 4 := Nat.mul_le_mul_left _ (Nat.pow_le_pow_right (by decide) ht.2)
        _ = 2 ^ 16 := rfl
    have hvalue : UInt16.ofNat n = 0 ↔ n = 0 := by
      rw [← UInt16.toNat_inj, UInt16.toNat_ofNat_of_lt' hlt]
      rfl
    rw [hvalue, foldlM_hexDigit?_eq_zero_iff hn, eq_self_iff_true, true_and]
  · cases h

theorem zeros_iff_of_mapM (h : (List.splitOn ':' text).mapM group? = some groups) :
    (∀ group ∈ groups, group = 0) ↔ ∀ c ∈ text, IsIdle c := by
  have hcolon : IsIdle ':' := .inr (.inr rfl)
  rw [forall_mem_iff_splitOn hcolon]
  exact (forall_mem_iff_of_forall₂ ((mapM_eq_some_iff.1 h).imp fun _ _ hg => (group_eq_zero_iff hg).symm)).symm

theorem zeros_iff_of_hexGroups? (h : hexGroups? text = some groups) :
    (∀ group ∈ groups, group = 0) ↔ ∀ c ∈ text, IsIdle c := by
  unfold hexGroups? at h
  split at h
  · next hn =>
    obtain rfl := Option.some.inj h
    exact iff_of_true nofun (hn ▸ nofun)
  · exact zeros_iff_of_mapM h

theorem zeros_ofIpv4_iff (tail : Ipv4) : (∀ group ∈ ofIpv4 tail, group = 0) ↔ tail = .unspecified := by
  obtain ⟨a, b, c, d⟩ := tail
  have hbytes : ∀ high low : UInt8, high.toUInt16 <<< 8 ||| low.toUInt16 = 0 ↔ high = 0 ∧ low = 0 := by
    intro high low
    constructor
    · intro h
      obtain ⟨hhigh, hlow⟩ := toUInt8_shiftLeft_or high low
      rw [h] at hhigh hlow
      exact ⟨hhigh.symm, hlow.symm⟩
    · rintro ⟨rfl, rfl⟩
      rfl
  simp only [ofIpv4, List.forall_mem_cons, List.not_mem_nil, false_implies, implies_true, and_true, hbytes,
    Ipv4.unspecified, Ipv4.mk.injEq, and_assoc]

theorem zeros_iff_of_groups? (h : groups? text = some groups) :
    (∀ group ∈ groups, group = 0) ↔ ∀ c ∈ text, IsIdle c := by
  unfold groups? at h
  split at h
  · split at h
    · next tail ht =>
      obtain rfl := Option.some.inj h
      rw [zeros_ofIpv4_iff, Ipv4.eq_unspecified_iff ht]
    · exact zeros_iff_of_hexGroups? h
  · next front back hf =>
    obtain ⟨rfl, -⟩ := Text.cutLast?_eq_some hf
    split at h
    · next tail ht =>
      obtain ⟨first, hg, h⟩ := Option.bind_eq_some_iff.1 h
      obtain rfl : first ++ ofIpv4 tail = groups := Option.some.inj h
      have hcolon : IsIdle ':' := .inr (.inr rfl)
      rw [List.forall_mem_append, zeros_iff_of_mapM hg, zeros_ofIpv4_iff, Ipv4.eq_unspecified_iff ht,
        List.forall_mem_append, List.forall_mem_cons, and_iff_right hcolon]
    · exact zeros_iff_of_hexGroups? h

theorem eq_unspecified_iff_of_ofGroups? {ip : Ipv6} (h : ofGroups? groups = some ip) :
    ip = .unspecified ↔ ∀ group ∈ groups, group = 0 := by
  unfold ofGroups? at h
  split at h
  · next hl =>
    obtain rfl := Option.some.inj h
    have hgroups : (⟨groups, hl⟩ : Ipv6) = unspecified ↔ groups = List.replicate 8 0 := by
      simp [unspecified]
    rw [hgroups, List.eq_replicate_iff, and_iff_right hl]
  · cases h

theorem eq_unspecified_iff {ip : Ipv6} (h : parse? text = some ip) : ip = .unspecified ↔ ∀ c ∈ text, IsIdle c := by
  unfold parse? at h
  split at h
  · obtain ⟨groups, hg, h⟩ := Option.bind_eq_some_iff.1 h
    rw [eq_unspecified_iff_of_ofGroups? h, zeros_iff_of_groups? hg]
  · next front back hc =>
    obtain rfl := Text.cut?_eq_some hc
    obtain ⟨first, hg, h⟩ := Option.bind_eq_some_iff.1 h
    obtain ⟨second, hg', h⟩ := Option.bind_eq_some_iff.1 h
    simp only at h
    split at h
    · cases h
    · have hmark : ∀ c ∈ [':', ':'], IsIdle c := by
        simp [IsIdle]
      have hzeros : ∀ n, ∀ group ∈ List.replicate n (0 : UInt16), group = 0 :=
        fun n group hm => List.eq_of_mem_replicate hm
      rw [eq_unspecified_iff_of_ofGroups? h, List.forall_mem_append, List.forall_mem_append, zeros_iff_of_hexGroups? hg,
        zeros_iff_of_groups? hg', List.forall_mem_append, List.forall_mem_append, and_iff_left (hzeros _),
        and_iff_left hmark]

end Ipv6

/-- A literal stands for no machine in particular if nothing but zeros and marks is in it. -/
theorem IpAddr.isUnspecified_iff_idle {text : String} {ip : IpAddr} (h : parse? text = some ip) :
    ip.IsUnspecified ↔ ∀ c ∈ text.toList, IsIdle c := by
  unfold parse? parseChars? at h
  split at h
  · next ip hp =>
    obtain rfl := Option.some.inj h
    exact Ipv4.eq_unspecified_iff hp
  · obtain ⟨ip, hp, rfl⟩ := Option.map_eq_some_iff.1 h
    exact Ipv6.eq_unspecified_iff hp

end Net
end PeerDiscovery
