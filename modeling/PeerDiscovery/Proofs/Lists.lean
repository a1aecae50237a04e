import Mathlib.Data.List.Forall2
import Mathlib.Data.List.Nodup

/-! Changes at one place of a list, lists member by member, and lists of pairs as tables. -/
namespace PeerDiscovery

theorem modify_length_append {α : Type} (ls : List α) (l : α) (f : α → α) :
    (ls ++ [l]).modify ls.length f = ls ++ [f l] := by
  induction ls with
  | nil => rfl
  | cons m ls ih => simp [ih]

theorem modify_const_self {α : Type} {l : List α} {i : Nat} {a : α} (h : l[i]? = some a) : (l.modify i fun _ => a) = l := by
  refine List.ext_getElem? fun j => ?_
  rw [List.getElem?_modify]
  by_cases hij : i = j
  · simp [← hij, h]
  · simp [hij]

theorem map_modify_of_same {α β : Type} (f : α → β) (g : α → α) (h : ∀ a, f (g a) = f a) (l : List α) (n : Nat) :
    (l.modify n g).map f = l.map f := by
  induction l generalizing n with
  | nil => cases n <;> rfl
  | cons a l ih => cases n <;> simp [h, ih]

theorem map_set_of_same {α β : Type} (f : α → β) {l : List α} {i : Nat} {a b : α} (h : l[i]? = some a) (hb : f b = f a) :
    (l.set i b).map f = l.map f := by
  obtain ⟨hi, rfl⟩ := List.getElem?_eq_some_iff.1 h
  rw [List.map_set, hb, ← List.getElem_map f (h := by simpa using hi), List.set_getElem_self]

theorem getElem?_set_cases {α : Type} {l : List α} {i j : Nat} {a b : α} (h : (l.set i a)[j]? = some b) :
    (j = i ∧ b = a) ∨ (j ≠ i ∧ l[j]? = some b) := by
  rw [List.getElem?_set] at h
  split at h
  · next hij =>
    split at h
    · exact .inl ⟨hij.symm, (Option.some.inj h).symm⟩
    · cases h
  · next hij => exact .inr ⟨Ne.symm hij, h⟩

theorem forall_mem_set {α : Type} {P : α → Prop} {l : List α} (h : ∀ a ∈ l, P a) (i : Nat) {b : α} (hb : P b) :
    ∀ a ∈ l.set i b, P a := by
  intro a ha
  rcases List.mem_or_eq_of_mem_set ha with ha | rfl
  · exact h a ha
  · exact hb

theorem forall_mem_concat {α : Type} {P : α → Prop} {l : List α} (h : ∀ a ∈ l, P a) {b : α} (hb : P b) :
    ∀ a ∈ l ++ [b], P a :=
  List.forall_mem_append.2 ⟨h, List.forall_mem_singleton.2 hb⟩

theorem getElem?_modify_cases {α : Type} {l : List α} {i j : Nat} {f : α → α} {b : α}
    (h : (l.modify i f)[j]? = some b) : (j = i ∧ ∃ a, l[i]? = some a ∧ b = f a) ∨ (j ≠ i ∧ l[j]? = some b) := by
  rw [List.getElem?_modify] at h
  obtain ⟨a, ha, hb⟩ := Option.map_eq_some_iff.1 h
  by_cases hij : i = j
  · subst hij
    exact .inl ⟨rfl, a, ha, by simpa using hb.symm⟩
  · refine .inr ⟨Ne.symm hij, ?_⟩
    rw [if_neg hij] at hb
    exact hb ▸ ha

theorem getElem?_append_of_some {α : Type} {l : List α} {i : Nat} {a : α} (h : l[i]? = some a) (l' : List α) :
    (l ++ l')[i]? = some a := by
  rw [List.getElem?_append_left (List.getElem?_eq_some_iff.1 h).1]
  exact h

theorem getElem?_concat_cases {α : Type} {l : List α} {i : Nat} {a b : α} (h : (l ++ [a])[i]? = some b) :
    l[i]? = some b ∨ i = l.length ∧ b = a := by
  rw [List.getElem?_append] at h
  split at h
  · exact .inl h
  · rw [List.getElem?_singleton] at h
    split at h
    · exact .inr ⟨by omega, (Option.some.inj h).symm⟩
    · cases h

theorem exists_split_of_lt {α : Type} {l : List α} {i : Nat} (h : i < l.length) :
    ∃ before a after, l = before ++ a :: after ∧ before.length = i :=
  ⟨l.take i, l[i], l.drop (i + 1), by simp, List.length_take_of_le (Nat.le_of_lt h)⟩

/-- A member of a list with one more is the last one, or has the last one behind it. -/
theorem concat_eq_append_cons {α : Type} {l before later : List α} {a b : α} (h : l ++ [a] = before ++ b :: later) :
    (before = l ∧ b = a ∧ later = []) ∨ ∃ init, later = init ++ [a] ∧ l = before ++ b :: init := by
  rcases List.eq_nil_or_concat later with rfl | ⟨init, c, rfl⟩
  · obtain ⟨rfl, hab⟩ := List.append_inj' h rfl
    exact .inl ⟨rfl, (List.singleton_inj.1 hab).symm, rfl⟩
  · have hsplit : l ++ [a] = (before ++ b :: init) ++ [c] := by simpa using h
    obtain ⟨rfl, hac⟩ := List.append_inj' hsplit rfl
    obtain rfl := List.singleton_inj.1 hac
    exact .inr ⟨init, List.concat_eq_append .., rfl⟩

theorem flatMap_set_perm {α β : Type} (f : α → List β) {l : List α} {i : Nat} {a : α} (h : l[i]? = some a) :
    ∃ rest, (l.flatMap f).Perm (f a ++ rest) ∧ ∀ b, ((l.set i b).flatMap f).Perm (f b ++ rest) := by
  induction l generalizing i with
  | nil => cases h
  | cons c l ih =>
    cases i with
    | zero =>
      obtain rfl : c = a := Option.some.inj h
      exact ⟨l.flatMap f, .refl _, fun b => .refl _⟩
    | succ i =>
      obtain ⟨rest, hl, hset⟩ := ih h
      refine ⟨f c ++ rest, (hl.append_left (f c)).trans ?_, fun b => ((hset b).append_left (f c)).trans ?_⟩
      · exact List.perm_append_comm_assoc ..
      · exact List.perm_append_comm_assoc ..

theorem mapM_eq_some_iff {α β : Type} {f : α → Option β} {xs : List α} {ys : List β} :
    xs.mapM f = some ys ↔ List.Forall₂ (fun x y => f x = some y) xs ys := by
  induction xs generalizing ys with
  | nil => simp [eq_comm]
  | cons x xs ih =>
    rw [List.mapM_cons, List.forall₂_cons_left_iff]
    simp only [Option.bind_eq_bind, Option.bind_eq_some_iff, ih, Option.pure_def, Option.some.injEq]
    constructor
    · rintro ⟨y, hy, ys, hys, rfl⟩
      exact ⟨y, ys, hy, hys, rfl⟩
    · rintro ⟨y, ys, hy, hys, rfl⟩
      exact ⟨y, hy, ys, hys, rfl⟩

theorem forall_mem_iff_of_forall₂ {α β : Type} {P : α → Prop} {Q : β → Prop} {xs : List α} {ys : List β}
    (h : List.Forall₂ (fun x y => P x ↔ Q y) xs ys) : (∀ x ∈ xs, P x) ↔ ∀ y ∈ ys, Q y := by
  induction h with
  | nil => exact iff_of_true nofun nofun
  | cons hxy _ ih => rw [List.forall_mem_cons, List.forall_mem_cons, hxy, ih]

theorem mem_of_lookup {α β : Type} [BEq α] [LawfulBEq α] {l : List (α × β)} {a : α} {b : β}
    (h : l.lookup a = some b) : (a, b) ∈ l := by
  obtain ⟨l₁, l₂, rfl, -⟩ := List.lookup_eq_some_iff.1 h
  exact List.mem_append_right l₁ List.mem_cons_self

/-- In a table with distinct keys the look-up finds whatever is there. -/
theorem lookup_eq_some_iff_mem {α β : Type} [BEq α] [LawfulBEq α] {l : List (α × β)} {a : α} {b : β}
    (h : (l.map Prod.fst).Nodup) : l.lookup a = some b ↔ (a, b) ∈ l := by
  induction l with
  | nil => simp
  | cons p l ih =>
    obtain ⟨x, y⟩ := p
    obtain ⟨hx, hl⟩ := List.nodup_cons.1 h
    by_cases ha : a = x
    · subst ha
      have hh : (a, b) ∉ l := fun hm => hx (List.mem_map.2 ⟨_, hm, rfl⟩)
      simp [hh, eq_comm]
    · have hb : (a == x) = false := by simpa using ha
      simp [List.lookup_cons, hb, ih hl, ha]

theorem lookup_eq_none_iff_mem {α β : Type} [BEq α] [LawfulBEq α] {l : List (α × β)} {a : α}
    (h : (l.map Prod.fst).Nodup) : l.lookup a = none ↔ ∀ b, (a, b) ∉ l := by
  constructor
  · intro hn b hb
    rw [(lookup_eq_some_iff_mem h).2 hb] at hn
    cases hn
  · intro hn
    cases hh : l.lookup a with
    | none => rfl
    | some b => exact absurd ((lookup_eq_some_iff_mem h).1 hh) (hn b)

theorem lookup_filter_self {α β : Type} [DecidableEq α] [BEq α] [LawfulBEq α] (l : List (α × β)) (a : α) :
    (l.filter fun p => p.1 ≠ a).lookup a = none := by
  rw [List.lookup_eq_none_iff]
  intro p hp
  have hne : p.1 ≠ a := by simpa using (List.mem_filter.1 hp).2
  simpa using hne.symm

theorem lookup_filter_of_ne {α β : Type} [DecidableEq α] [BEq α] [LawfulBEq α] (l : List (α × β)) {a b : α}
    (h : b ≠ a) : (l.filter fun p => p.1 ≠ a).lookup b = l.lookup b := by
  induction l with
  | nil => rfl
  | cons p l ih =>
    obtain ⟨x, y⟩ := p
    by_cases hx : x = a
    · have hb : (b == x) = false := by simpa [hx] using h
      rw [List.filter_cons_of_neg (by simpa using hx), ih, List.lookup_cons, hb]
    · rw [List.filter_cons_of_pos (by simpa using hx), List.lookup_cons, List.lookup_cons, ih]

end PeerDiscovery
