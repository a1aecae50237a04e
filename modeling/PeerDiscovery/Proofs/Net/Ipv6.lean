import PeerDiscovery.Proofs.Endpoint
import PeerDiscovery.Proofs.Net.Literals

/-! The text of an IP address reads back, of either kind: `IpAddr.parse?_text`.
For an IPv6 address this takes that no double colon stands inside a row of groups (`cutFrom_printGroups`), and that
the groups which are left out are zeros (`Run.Zeros.split`). -/
namespace PeerDiscovery
namespace Net

theorem Ipv4.colon_not_mem_of_parse? {text : List Char} {ip : Ipv4} (h : parse? text = some ip) : ':' ∉ text := by
  intro hc
  rcases isDigit_or_dot_of_parse? h ':' hc with hd | hd
  · exact absurd hd (by decide)
  · exact absurd hd (by decide)

namespace Ipv6

theorem hexDigit?_digitChar {n : Nat} (h : n < 16) : hexDigit? n.digitChar = some n := by
  have : ∀ m : Fin 16, hexDigit? (Nat.digitChar m) = some m.val := by decide
  exact this ⟨n, h⟩

theorem foldlM_toDigits (n : Nat) :
    (Nat.toDigits 16 n).foldlM (fun n c => (hexDigit? c).map (16 * n + ·)) 0 = some n := by
  induction n using Nat.strongRecOn with
  | ind n ih =>
    by_cases h : n < 16
    · rw [Nat.toDigits_of_lt_base h, List.foldlM_cons, hexDigit?_digitChar h]
      simp
    · have hlast : hexDigit? (n % 16).digitChar = some (n % 16) := hexDigit?_digitChar (Nat.mod_lt _ (by decide))
      rw [Nat.toDigits_of_base_le (by decide) (Nat.le_of_not_lt h), List.foldlM_append, ih (n / 16) (by omega)]
      simp only [Option.bind_eq_bind, Option.bind_some, List.foldlM_cons, List.foldlM_nil, hlast, Option.map_some]
      exact congrArg some (Nat.div_add_mod n 16)

theorem group?_toDigits (group : UInt16) : group? (Nat.toDigits 16 group.toNat) = some group := by
  have hlen : (Nat.toDigits 16 group.toNat).length ≤ 4 :=
    (Nat.length_toDigits_le_iff (by decide) (by decide)).2 group.toNat_lt
  rw [group?, if_pos ⟨Nat.toDigits_ne_nil, hlen⟩, foldlM_toDigits, Option.map_some, UInt16.ofNat_toNat]

theorem not_mem_toDigits {c : Char} (h : hexDigit? c = none) (n : Nat) : c ∉ Nat.toDigits 16 n := by
  intro hc
  obtain ⟨m, hm⟩ := exists_of_foldlM (foldlM_toDigits n) c hc
  rw [h] at hm
  cases hm

theorem printGroups_cons_cons (g g' : UInt16) (groups : List UInt16) :
    printGroups (g :: g' :: groups) = Nat.toDigits 16 g.toNat ++ ':' :: printGroups (g' :: groups) := by
  simp [printGroups, List.intercalate]

theorem printGroups_singleton (g : UInt16) : printGroups [g] = Nat.toDigits 16 g.toNat := by
  simp [printGroups, List.intercalate]

theorem exists_printGroups_cons (g : UInt16) (groups : List UInt16) :
    ∃ c rest, c ≠ ':' ∧ printGroups (g :: groups) = c :: rest := by
  obtain ⟨c, digits, hd⟩ := List.exists_cons_of_ne_nil (Nat.toDigits_ne_nil (b := 16) (n := g.toNat))
  have hc : c ≠ ':' := by
    rintro rfl
    exact not_mem_toDigits (by decide) g.toNat (hd ▸ List.mem_cons_self)
  cases groups with
  | nil => exact ⟨c, digits, hc, by rw [printGroups_singleton, hd]⟩
  | cons g' groups => exact ⟨c, digits ++ ':' :: printGroups (g' :: groups), hc, by rw [printGroups_cons_cons, hd]; rfl⟩

theorem dot_not_mem_printGroups (groups : List UInt16) : '.' ∉ printGroups groups := by
  induction groups with
  | nil => exact List.not_mem_nil
  | cons g groups ih =>
    have hg : '.' ∉ Nat.toDigits 16 g.toNat := not_mem_toDigits (by decide) _
    cases groups with
    | nil => rwa [printGroups_singleton]
    | cons g' groups =>
      rw [printGroups_cons_cons, List.mem_append, List.mem_cons]
      rintro (h | h | h)
      · exact hg h
      · exact absurd h (by decide)
      · exact ih h

theorem mapM_group?_map (groups : List UInt16) :
    (groups.map fun group => Nat.toDigits 16 group.toNat).mapM group? = some groups := by
  induction groups with
  | nil => rfl
  | cons g groups ih =>
    rw [List.map_cons, List.mapM_cons, group?_toDigits, ih]
    rfl

theorem hexGroups?_printGroups (groups : List UInt16) : hexGroups? (printGroups groups) = some groups := by
  cases groups with
  | nil => rfl
  | cons g groups =>
    have hsplit : List.splitOn ':' (printGroups (g :: groups)) =
        (g :: groups).map fun group => Nat.toDigits 16 group.toNat := by
      refine List.splitOn_intercalate ':' (fun digits hd => ?_) (by simp)
      obtain ⟨group, -, rfl⟩ := List.mem_map.1 hd
      exact not_mem_toDigits (by decide) _
    obtain ⟨c, rest, -, hp⟩ := exists_printGroups_cons g groups
    rw [hexGroups?, if_neg (by rw [hp]; exact List.cons_ne_nil c rest), hsplit, mapM_group?_map]

theorem parse?_eq_none_of_dot {text : List Char} (h : '.' ∉ text) : Ipv4.parse? text = none := by
  rw [Ipv4.parse?, List.splitOn_eq_singleton h]

theorem groups?_printGroups (groups : List UInt16) : groups? (printGroups groups) = some groups := by
  have hdot := dot_not_mem_printGroups groups
  unfold groups?
  split
  · rw [parse?_eq_none_of_dot hdot]
    exact hexGroups?_printGroups groups
  · next front back hcut =>
    have hback : '.' ∉ back := by
      rw [(Text.cutLast?_eq_some hcut).1] at hdot
      exact fun h => hdot (List.mem_append_right _ (List.mem_cons_of_mem _ h))
    rw [parse?_eq_none_of_dot hback]
    exact hexGroups?_printGroups groups

theorem cutFrom_append_of_not_mem {c : Char} {mark front : List Char} (h : c ∉ front) (before text : List Char) :
    Text.cutFrom (c :: mark) before (front ++ text) = Text.cutFrom (c :: mark) (front.reverse ++ before) text := by
  induction front generalizing before with
  | nil => rfl
  | cons d front ih =>
    rw [List.mem_cons, not_or] at h
    have hp : ¬(c :: mark).isPrefixOf (d :: front ++ text) = true := fun hh =>
      h.1 (List.cons_prefix_cons.1 (List.isPrefixOf_iff_prefix.1 hh)).1
    rw [Text.cutFrom.eq_def, if_neg hp]
    exact (ih h.2 (d :: before)).trans (by simp)

theorem cutFrom_printGroups (groups : List UInt16) (before text : List Char) :
    Text.cutFrom [':', ':'] before (printGroups groups ++ text) =
      Text.cutFrom [':', ':'] ((printGroups groups).reverse ++ before) text := by
  induction groups generalizing before with
  | nil => rfl
  | cons g groups ih =>
    have hg : ':' ∉ Nat.toDigits 16 g.toNat := not_mem_toDigits (by decide) _
    cases groups with
    | nil =>
      rw [printGroups_singleton]
      exact cutFrom_append_of_not_mem hg before text
    | cons g' groups =>
      obtain ⟨c, rest, hc, hp⟩ := exists_printGroups_cons g' groups
      have hcolon : ¬[':', ':'].isPrefixOf (':' :: (printGroups (g' :: groups) ++ text)) = true := by
        rw [hp]
        intro hh
        have hh := (List.cons_prefix_cons.1 (List.isPrefixOf_iff_prefix.1 hh)).2
        exact hc (List.cons_prefix_cons.1 hh).1.symm
      rw [printGroups_cons_cons, List.append_assoc, cutFrom_append_of_not_mem hg, List.cons_append,
        Text.cutFrom.eq_def, if_neg hcolon]
      exact (ih _).trans (by simp)

theorem cut?_printGroups (groups : List UInt16) : Text.cut? [':', ':'] (printGroups groups) = none := by
  have h := cutFrom_printGroups groups [] []
  rw [List.append_nil] at h
  exact h

theorem cut?_printGroups_append (groups : List UInt16) (text : List Char) :
    Text.cut? [':', ':'] (printGroups groups ++ [':', ':'] ++ text) = some (printGroups groups, text) := by
  rw [List.append_assoc, Text.cut?, cutFrom_printGroups, List.append_nil, Text.cutFrom.eq_def]
  simp

def Run.Zeros (run : Run) (groups : List UInt16) : Prop :=
  ∀ j, run.start ≤ j → j < run.start + run.length → groups[j]? = some 0

def Run.grow (i : Nat) (run : Run) : Run :=
  if run.length = 0 then ⟨i, 1⟩ else ⟨run.start, run.length + 1⟩

theorem longestZerosFrom_zero (i : Nat) (current longest : Run) (rest : List UInt16) :
    longestZerosFrom i current longest (0 :: rest) =
      longestZerosFrom (i + 1) (current.grow i)
        (if longest.length < (current.grow i).length then current.grow i else longest) rest := by
  rw [longestZerosFrom, if_pos rfl]
  rfl

theorem longestZerosFrom_of_ne {g : UInt16} (h : g ≠ 0) (i : Nat) (current longest : Run) (rest : List UInt16) :
    longestZerosFrom i current longest (g :: rest) = longestZerosFrom (i + 1) ⟨0, 0⟩ longest rest := by
  rw [longestZerosFrom, if_neg h]

@[simp] theorem Run.length_grow (i : Nat) (run : Run) : (run.grow i).length = run.length + 1 := by
  unfold Run.grow
  split <;> simp [*]

/-- One of the longest runs of zeros, and the first of these. -/
structure Run.IsFirstLongest (run : Run) (groups : List UInt16) : Prop where
  zeros : run.Zeros groups
  length_le : ∀ other : Run, other.Zeros groups → other.length ≤ run.length
  start_le : ∀ other : Run, other.Zeros groups → other.length = run.length → run.start ≤ other.start

structure Run.IsTrailing (run : Run) (groups : List UInt16) : Prop where
  zeros : run.Zeros groups
  ends : run.length = 0 ∨ run.start + run.length = groups.length
  length_le : ∀ other : Run, other.Zeros groups → other.start + other.length = groups.length → other.length ≤ run.length

theorem Run.zeros_of_length {run : Run} (h : run.length = 0) (groups : List UInt16) : run.Zeros groups :=
  fun j hj hj' => absurd hj' (by omega)

theorem Run.Zeros.end_le {run : Run} {groups : List UInt16} (h : run.Zeros groups) (hpos : 0 < run.length) :
    run.start + run.length ≤ groups.length := by
  have hlast := h (run.start + run.length - 1) (by omega) (by omega)
  have := (List.getElem?_eq_some_iff.1 hlast).1
  omega

theorem Run.Zeros.concat {run : Run} {groups : List UInt16} (h : run.Zeros groups) (g : UInt16) :
    run.Zeros (groups ++ [g]) := by
  intro j hj hj'
  have hz := h j hj hj'
  rw [List.getElem?_append_left (List.getElem?_eq_some_iff.1 hz).1, hz]

theorem Run.Zeros.concat_cases {run : Run} {groups : List UInt16} {g : UInt16} (h : run.Zeros (groups ++ [g])) :
    run.Zeros groups ∨ 0 < run.length ∧ run.start + run.length = groups.length + 1 ∧ g = 0 := by
  by_cases hend : 0 < run.length ∧ run.start + run.length = groups.length + 1
  · have hlast := h groups.length (by omega) (by omega)
    rw [List.getElem?_concat_length] at hlast
    exact .inr ⟨hend.1, hend.2, Option.some.inj hlast⟩
  · refine .inl fun j hj hj' => ?_
    have hle := h.end_le (by omega)
    rw [List.length_append, List.length_singleton] at hle
    rw [← h j hj hj', List.getElem?_append_left (by omega)]

theorem Run.IsTrailing.grow {run : Run} {groups : List UInt16} (h : run.IsTrailing groups) :
    (run.grow groups.length).IsTrailing (groups ++ [0]) := by
  have hstart : (run.grow groups.length).start + (run.length + 1) = groups.length + 1 := by
    unfold Run.grow
    split
    · next hzero => simp only [hzero]
    · next hpos => exact congrArg Nat.succ (h.ends.resolve_left hpos)
  refine ⟨fun j hj hj' => ?_, .inr (by simpa using hstart), fun other hz hend => ?_⟩
  · rw [length_grow, hstart] at hj'
    by_cases hlast : j = groups.length
    · rw [hlast, List.getElem?_concat_length]
    · refine h.zeros.concat 0 j ?_ ?_
      · unfold Run.grow at hj
        split at hj
        · exact absurd (Nat.le_antisymm (Nat.le_of_lt_succ hj') hj) hlast
        · exact hj
      · rcases h.ends with hzero | hend
        · rw [hzero] at hstart
          omega
        · omega
  · rw [length_grow]
    rw [List.length_append, List.length_singleton] at hend
    have hshort : Run.Zeros ⟨other.start, other.length - 1⟩ groups := by
      intro j hj hj'
      simp only at hj hj'
      rw [← hz j hj (by omega), List.getElem?_append_left (by omega)]
    by_cases hpos : other.length = 0
    · omega
    · have hle := h.length_le _ hshort (by simp only; omega)
      simp only at hle
      omega

theorem Run.isTrailing_of_ne {g : UInt16} (h : g ≠ 0) (groups : List UInt16) :
    Run.IsTrailing ⟨0, 0⟩ (groups ++ [g]) := by
  refine ⟨zeros_of_length rfl _, .inl rfl, fun other hz hend => ?_⟩
  rcases hz.concat_cases with hz | ⟨-, -, hg⟩
  · refine Nat.le_of_not_lt fun hpos => ?_
    have hle := hz.end_le hpos
    rw [List.length_append, List.length_singleton] at hend
    omega
  · exact absurd hg h

/-- Of the longest run before and the one at the end the longer one counts, and the first one if they are as long. -/
theorem Run.IsFirstLongest.concat {longest current : Run} {groups : List UInt16} {g : UInt16}
    (h : longest.IsFirstLongest groups) (hc : current.IsTrailing (groups ++ [g])) :
    (if longest.length < current.length then current else longest).IsFirstLongest (groups ++ [g]) := by
  have hend : ∀ other : Run, other.start + other.length = groups.length + 1 →
      other.start + other.length = (groups ++ [g]).length := by
    intro other ho
    rw [ho, List.length_append, List.length_singleton]
  split
  · next hlt =>
    have hat := hc.ends.resolve_left (by omega)
    refine ⟨hc.zeros, fun other hz => ?_, fun other hz hlen => ?_⟩
    · rcases hz.concat_cases with hz | ⟨-, ho, -⟩
      · exact Nat.le_of_lt (Nat.lt_of_le_of_lt (h.length_le other hz) hlt)
      · exact hc.length_le other hz (hend other ho)
    · rcases hz.concat_cases with hz | ⟨-, ho, -⟩
      · have hle := h.length_le other hz
        omega
      · have ho := hend other ho
        omega
  · next hge =>
    refine ⟨h.zeros.concat g, fun other hz => ?_, fun other hz hlen => ?_⟩
    · rcases hz.concat_cases with hz | ⟨-, ho, -⟩
      · exact h.length_le other hz
      · exact Nat.le_trans (hc.length_le other hz (hend other ho)) (Nat.le_of_not_lt hge)
    · rcases hz.concat_cases with hz | ⟨hpos, ho, -⟩
      · exact h.start_le other hz hlen
      · have hle := h.zeros.end_le (hlen ▸ hpos)
        omega

/-- What is kept between two groups: the zeros at the end of those before, and the first longest run in them. -/
theorem isFirstLongest_longestZerosFrom {before rest : List UInt16} {current longest : Run}
    (hc : current.IsTrailing before) (hl : longest.IsFirstLongest before) :
    (longestZerosFrom before.length current longest rest).IsFirstLongest (before ++ rest) := by
  induction rest generalizing before current longest with
  | nil =>
    rw [List.append_nil]
    exact hl
  | cons g rest ih =>
    have hall : before ++ g :: rest = (before ++ [g]) ++ rest := by simp
    have hlen : before.length + 1 = (before ++ [g]).length := by simp
    by_cases hg : g = 0
    · subst hg
      rw [longestZerosFrom_zero, hall, hlen]
      exact ih hc.grow (hl.concat hc.grow)
    · rw [longestZerosFrom_of_ne hg, hall, hlen]
      have hnone := Run.isTrailing_of_ne hg before
      exact ih hnone (hl.concat hnone)

theorem isFirstLongest_longestZeros (groups : List UInt16) : (longestZeros groups).IsFirstLongest groups := by
  have hle : ∀ other : Run, other.Zeros [] → other.length ≤ 0 := by
    intro other hz
    refine Nat.le_of_not_lt fun hpos => ?_
    have hend := hz.end_le hpos
    rw [List.length_nil] at hend
    omega
  have hzeros : Run.Zeros ⟨0, 0⟩ [] := Run.zeros_of_length rfl []
  have hnone : Run.IsTrailing ⟨0, 0⟩ [] := ⟨hzeros, .inl rfl, fun other hz _ => hle other hz⟩
  exact isFirstLongest_longestZerosFrom hnone ⟨hzeros, hle, fun other _ _ => Nat.zero_le _⟩

/-- What a run of zeros leaves of the groups, with the zeros put back. -/
theorem Run.Zeros.split {run : Run} {groups : List UInt16} (h : run.Zeros groups) (hpos : 0 < run.length) :
    run.start + run.length ≤ groups.length ∧
      groups.take run.start ++ List.replicate run.length 0 ++ groups.drop (run.start + run.length) = groups := by
  have hle := h.end_le hpos
  have hzeros : (groups.drop run.start).take run.length = List.replicate run.length 0 := by
    refine List.ext_getElem? fun j => ?_
    by_cases hj : j < run.length
    · rw [List.getElem?_take_of_lt hj, List.getElem?_drop, h (run.start + j) (by omega) (by omega),
        List.getElem?_replicate_of_lt hj]
    · rw [List.getElem?_eq_none (by simp; omega), List.getElem?_eq_none (by simp; omega)]
  refine ⟨hle, ?_⟩
  rw [← hzeros, ← List.drop_drop, List.append_assoc, List.take_append_drop, List.take_append_drop]

theorem ofGroups?_groups (ip : Ipv6) : ofGroups? ip.groups = some ip := by
  rw [ofGroups?, dif_pos ip.length_eq]

theorem shiftLeft_or_toUInt8 (n : UInt16) : (n >>> 8).toUInt8.toUInt16 <<< 8 ||| n.toUInt8.toUInt16 = n := by
  have hn := n.toNat_lt
  apply UInt16.toNat_inj.1
  have hhigh : (n >>> 8).toUInt8.toNat = n.toNat / 256 := by
    rw [UInt16.toNat_toUInt8, UInt16.toNat_shiftRight]
    simp [Nat.shiftRight_eq_div_pow]
    omega
  have hshift : ((n >>> 8).toUInt8.toUInt16 <<< 8).toNat = (n.toNat / 256) <<< 8 := by
    rw [UInt16.toNat_shiftLeft, UInt8.toNat_toUInt16, hhigh]
    simp [Nat.shiftLeft_eq]
    omega
  rw [UInt16.toNat_or, hshift, UInt8.toNat_toUInt16, UInt16.toNat_toUInt8,
    ← Nat.shiftLeft_add_eq_or_of_lt (Nat.mod_lt _ (by decide)), Nat.shiftLeft_eq]
  omega

theorem groups_of_mapped? {ip : Ipv6} {tail : Ipv4} (h : ip.mapped? = some tail) :
    ip.groups = List.replicate 5 0 ++ 0xffff :: ofIpv4 tail := by
  unfold mapped? at h
  split at h
  · next high low hg =>
    obtain rfl := Option.some.inj h
    rw [hg, ofIpv4, shiftLeft_or_toUInt8, shiftLeft_or_toUInt8]
    rfl
  · cases h

/-- The group of an address that stands for one of four octets, and the dotted tail behind it. -/
theorem groups?_mapped (tail : Ipv4) :
    groups? (['f', 'f', 'f', 'f'] ++ ':' :: tail.print) = some (0xffff :: ofIpv4 tail) := by
  have hcolon : ':' ∉ tail.print := Ipv4.colon_not_mem_of_parse? (Ipv4.parse?_print tail)
  have hgroup : (List.splitOn ':' ['f', 'f', 'f', 'f']).mapM group? = some [0xffff] := by decide
  rw [groups?, Text.cutLast?_append hcolon]
  simp only [Ipv4.parse?_print, hgroup]
  rfl

theorem print_cases (ip : Ipv6) :
    (∃ tail, ip.groups = List.replicate 5 0 ++ 0xffff :: ofIpv4 tail ∧
      ip.print = printGroups [] ++ [':', ':'] ++ (['f', 'f', 'f', 'f'] ++ ':' :: tail.print)) ∨
    (∃ zeros : Run, zeros.Zeros ip.groups ∧ 0 < zeros.length ∧
      ip.print = printGroups (ip.groups.take zeros.start) ++ [':', ':'] ++
        printGroups (ip.groups.drop (zeros.start + zeros.length))) ∨
    ip.print = printGroups ip.groups := by
  unfold print
  split
  · next tail htail => exact .inl ⟨tail, groups_of_mapped? htail, rfl⟩
  · by_cases hlong : 1 < (longestZeros ip.groups).length
    · refine .inr (.inl ⟨longestZeros ip.groups, (isFirstLongest_longestZeros ip.groups).zeros, Nat.lt_of_succ_lt hlong, ?_⟩)
      exact if_pos hlong
    · exact .inr (.inr (if_neg hlong))

theorem parse?_print (ip : Ipv6) : parse? ip.print = some ip := by
  rcases ip.print_cases with ⟨tail, hgroups, hp⟩ | ⟨zeros, hzeros, hpos, hp⟩ | hp
  · have hfront : hexGroups? (printGroups []) = some [] := rfl
    rw [hp, parse?, cut?_printGroups_append]
    simp only [hfront, groups?_mapped, Option.bind_eq_bind, Option.bind_some]
    rw [if_neg (by simp [ofIpv4]), ← ofGroups?_groups ip, hgroups]
    rfl
  · obtain ⟨hle, hsplit⟩ := hzeros.split hpos
    have hlen := ip.length_eq
    have hleft : 8 - ((ip.groups.take zeros.start).length + (ip.groups.drop (zeros.start + zeros.length)).length) =
        zeros.length := by
      rw [List.length_take, List.length_drop]
      omega
    rw [hp, parse?, cut?_printGroups_append]
    simp only [hexGroups?_printGroups, groups?_printGroups, Option.bind_eq_bind, Option.bind_some, hleft]
    rw [if_neg (Nat.ne_of_gt hpos), hsplit, ofGroups?_groups]
  · rw [hp, parse?, cut?_printGroups]
    simp only [groups?_printGroups, Option.bind_eq_bind, Option.bind_some, ofGroups?_groups]

theorem colon_mem_print (ip : Ipv6) : ':' ∈ ip.print := by
  rcases ip.print_cases with ⟨tail, -, hp⟩ | ⟨zeros, -, -, hp⟩ | hp
  · exact hp ▸ List.mem_append_left _ (List.mem_append_right _ List.mem_cons_self)
  · exact hp ▸ List.mem_append_left _ (List.mem_append_right _ List.mem_cons_self)
  · have hlen := ip.length_eq
    obtain ⟨g, groups, hg⟩ := List.exists_cons_of_length_eq_add_one hlen
    obtain ⟨g', groups', hg'⟩ := List.exists_cons_of_length_eq_add_one (n := 6) (by simpa [hg] using hlen)
    rw [hp, hg, hg', printGroups_cons_cons]
    exact List.mem_append_right _ List.mem_cons_self

end Ipv6

namespace IpAddr

theorem parse?_text (ip : IpAddr) : parse? ip.text = some ip := by
  cases ip with
  | v4 ip => exact parse?_text_v4 ip
  | v6 ip =>
    have hv4 : Ipv4.parse? ip.print = none := by
      cases hp : Ipv4.parse? ip.print with
      | none => rfl
      | some ip' => exact absurd ip.colon_mem_print (Ipv4.colon_not_mem_of_parse? hp)
    rw [parse?, text, String.toList_ofList, parseChars?, hv4]
    exact congrArg (Option.map v6) ip.parse?_print

end IpAddr
end Net
end PeerDiscovery
