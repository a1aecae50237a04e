import Mathlib.Data.List.Nodup
import PeerDiscovery.Proofs.Lists

/-! Telling everybody on a list, one after another.
The list has a lock. Who has left is found out when it would be told, and is off the list afterwards. While
one piece of news goes round nobody joins and no other news is begun, but all can take what they were told, and leave.
What is still to be told to somebody is `owed`: news reaches everybody on the list at the moment when it is begun, and turns
only move it from `owed` to a queue. -/
namespace PeerDiscovery

/-- Somebody who is told things and takes them out of a queue, as long as it is there. -/
class Hearer (R : Type) (α : outParam Type) where
  live : R → Bool
  queue : R → List α
  hear : R → α → R
  live_hear (r : R) (a : α) : live (hear r a) = live r
  queue_hear (r : R) (a : α) : queue (hear r a) = queue r ++ [a]

structure Telling (α : Type) where
  news : α
  /-- Those who have been told, and are kept. -/
  told : List Nat := []
  /-- Those whose turn is still to come. -/
  rest : List Nat

/-- The list of those to be told, each by its number. -/
structure Roster (α : Type) where
  members : List Nat := []
  telling : Option (Telling α) := none

namespace Roster

variable {R α : Type} [Hearer R α]

open Hearer (live queue hear live_hear queue_hear)

/-- Nobody holds the lock. -/
def IsFree (r : Roster α) : Prop := r.telling = none

instance (r : Roster α) : Decidable r.IsFree := inferInstanceAs (Decidable (r.telling = none))

def join (r : Roster α) (k : Nat) : Roster α := { r with members := r.members ++ [k] }

/-- News begins to go round. -/
def begin (r : Roster α) (news : α) : Roster α := { r with telling := some { news, rest := r.members } }

/-- The next one is told, or left out if it is no longer there. When there is no next one the lock is let go of. -/
def turn (r : Roster α) (hearers : List R) : Roster α × List R :=
  match r.telling with
  | none => (r, hearers)
  | some ⟨_, told, []⟩ => ({ members := told }, hearers)
  | some ⟨news, told, k :: rest⟩ =>
    if hearers[k]?.any live then
      ({ r with telling := some ⟨news, told ++ [k], rest⟩ }, hearers.modify k (hear · news))
    else ({ r with telling := some ⟨news, told, rest⟩ }, hearers)

/-- So many turns. -/
def turns : Nat → Roster α → List R → Roster α × List R
  | 0, r, hearers => (r, hearers)
  | n + 1, r, hearers => turns n (r.turn hearers).1 (r.turn hearers).2

def everyone (r : Roster α) : List Nat :=
  match r.telling with
  | none => r.members
  | some t => t.told ++ t.rest

/-- The news that is going round and has not come to `k`. -/
def owed (r : Roster α) (k : Nat) : List α :=
  match r.telling with
  | none => []
  | some t => if k ∈ t.rest then [t.news] else []

theorem everyone_of_isFree {r : Roster α} (h : r.IsFree) : r.everyone = r.members := by
  rw [everyone, h]

theorem owed_of_isFree {r : Roster α} (h : r.IsFree) (k : Nat) : r.owed k = [] := by
  rw [owed, h]

theorem owed_begin (r : Roster α) (news : α) {k : Nat} (h : k ∈ r.members) : (r.begin news).owed k = [news] := if_pos h

/-- All who are there are on the list, each once. -/
structure Complete (r : Roster α) (hearers : List R) : Prop where
  nodup : r.everyone.Nodup
  lt_length : ∀ k ∈ r.everyone, k < hearers.length
  mem_everyone : ∀ k h, hearers[k]? = some h → live h = true → k ∈ r.everyone

variable {r : Roster α} {hearers hearers' : List R}

theorem complete_nil : ({} : Roster α).Complete ([] : List R) := ⟨List.nodup_nil, nofun, nofun⟩

theorem Complete.of_live (h : r.Complete hearers) (hlength : hearers'.length = hearers.length)
    (hlive : ∀ (k : Nat) (b : R), hearers'[k]? = some b → live b = true →
      ∃ a, hearers[k]? = some a ∧ live a = true) : r.Complete hearers' where
  nodup := h.nodup
  lt_length k hk := hlength ▸ h.lt_length k hk
  mem_everyone k b hb hl := by
    obtain ⟨a, ha, hla⟩ := hlive k b hb hl
    exact h.mem_everyone k a ha hla

theorem Complete.of_everyone {r' : Roster α} (h : r.Complete hearers) (hr : r'.everyone = r.everyone) :
    r'.Complete hearers where
  nodup := hr ▸ h.nodup
  lt_length := hr ▸ h.lt_length
  mem_everyone := hr ▸ h.mem_everyone

theorem Complete.begin (h : r.Complete hearers) (hr : r.IsFree) (news : α) : (r.begin news).Complete hearers :=
  h.of_everyone (everyone_of_isFree hr).symm

theorem Complete.join (h : r.Complete hearers) (hr : r.IsFree) (b : R) :
    (r.join hearers.length).Complete (hearers ++ [b]) := by
  have hfree : (r.join hearers.length).IsFree := hr
  have heveryone : (r.join hearers.length).everyone = r.everyone ++ [hearers.length] := by
    rw [everyone_of_isFree hfree, everyone_of_isFree hr, Roster.join]
  refine ⟨?_, fun k hk => ?_, fun k a ha hl => ?_⟩
  · rw [heveryone, ← List.concat_eq_append]
    exact h.nodup.concat fun hm => Nat.lt_irrefl _ (h.lt_length _ hm)
  · rw [List.length_append, List.length_singleton, Nat.lt_succ_iff]
    rw [heveryone] at hk
    rcases List.mem_append.1 hk with hk | hk
    · exact Nat.le_of_lt (h.lt_length k hk)
    · exact Nat.le_of_eq (List.mem_singleton.1 hk)
  · rw [heveryone]
    rcases getElem?_concat_cases ha with ha | ⟨rfl, -⟩
    · exact List.mem_append_left _ (h.mem_everyone k a ha hl)
    · exact List.mem_append_right _ List.mem_cons_self

theorem turn_cases (r : Roster α) (hearers : List R) :
    (r.IsFree ∧ r.turn hearers = (r, hearers)) ∨
    (∃ news told, r.telling = some ⟨news, told, []⟩ ∧ r.turn hearers = ({ members := told }, hearers)) ∨
    (∃ news told k rest h, r.telling = some ⟨news, told, k :: rest⟩ ∧ hearers[k]? = some h ∧ live h = true ∧
      r.turn hearers = ({ r with telling := some ⟨news, told ++ [k], rest⟩ }, hearers.set k (hear h news))) ∨
    (∃ news told k rest, r.telling = some ⟨news, told, k :: rest⟩ ∧ (∀ h, hearers[k]? = some h → live h ≠ true) ∧
      r.turn hearers = ({ r with telling := some ⟨news, told, rest⟩ }, hearers)) := by
  obtain ⟨members, telling⟩ := r
  rcases telling with - | ⟨news, told, - | ⟨k, rest⟩⟩
  · exact .inl ⟨rfl, rfl⟩
  · exact .inr (.inl ⟨news, told, rfl, rfl⟩)
  · cases hk : hearers[k]? with
    | none => exact .inr (.inr (.inr ⟨news, told, k, rest, rfl, by simp [hk], by simp [turn, hk]⟩))
    | some h =>
      by_cases hl : live h = true
      · refine .inr (.inr (.inl ⟨news, told, k, rest, h, rfl, hk, hl, ?_⟩))
        simp [turn, hk, hl, List.modify_eq_set_getElem?]
      · exact .inr (.inr (.inr ⟨news, told, k, rest, rfl, by simp [hk, hl], by simp [turn, hk, hl]⟩))

theorem live_of_turn {k : Nat} {b : R} (hk : (r.turn hearers).2[k]? = some b) (hb : live b = true) :
    ∃ a, hearers[k]? = some a ∧ live a = true := by
  rcases r.turn_cases hearers with ⟨-, ht⟩ | ⟨_, _, -, ht⟩ | ⟨_, _, j, _, a, -, hj, ha, ht⟩ | ⟨_, _, _, _, -, -, ht⟩ <;>
    rw [ht] at hk
  · exact ⟨b, hk, hb⟩
  · exact ⟨b, hk, hb⟩
  · rcases getElem?_set_cases hk with ⟨rfl, -⟩ | ⟨-, hk⟩
    · exact ⟨a, hj, ha⟩
    · exact ⟨b, hk, hb⟩
  · exact ⟨b, hk, hb⟩

theorem length_turn (r : Roster α) (hearers : List R) : (r.turn hearers).2.length = hearers.length := by
  rcases r.turn_cases hearers with ⟨-, ht⟩ | ⟨_, _, -, ht⟩ | ⟨_, _, _, _, _, -, -, -, ht⟩ | ⟨_, _, _, _, -, -, ht⟩ <;>
    simp only [ht, List.length_set]

theorem Complete.turn (h : r.Complete hearers) : (r.turn hearers).1.Complete (r.turn hearers).2 := by
  have hkept : (r.turn hearers).1.Complete hearers := by
    rcases r.turn_cases hearers with ⟨-, ht⟩ | ⟨news, told, hr, ht⟩ | ⟨news, told, k, rest, b, hr, -, -, ht⟩ |
      ⟨news, told, k, rest, hr, hk, ht⟩
    · rwa [ht]
    · exact h.of_everyone (by simp [ht, everyone, hr])
    · exact h.of_everyone (by simp [ht, everyone, hr])
    · have heveryone : r.everyone = told ++ k :: rest := by simp only [everyone, hr]
      have hsub : List.Sublist (told ++ rest) r.everyone :=
        heveryone ▸ List.Sublist.append_left (List.sublist_cons_self k rest) told
      rw [ht]
      refine ⟨h.nodup.sublist hsub, fun j hj => h.lt_length j (hsub.subset hj), fun j a ha hla => ?_⟩
      have hm := h.mem_everyone j a ha hla
      rw [heveryone] at hm
      rcases List.mem_append.1 hm with hm | hm
      · exact List.mem_append_left _ hm
      · rcases List.mem_cons.1 hm with rfl | hm
        · exact absurd hla (hk a ha)
        · exact List.mem_append_right _ hm
  exact hkept.of_live (length_turn r hearers) fun k b => live_of_turn

/-- `k` is there. With what it has taken, what it has been told and what it is still owed make up `log`. -/
def Hears (r : Roster α) (hearers : List R) (k : Nat) (taken log : List α) : Prop :=
  ∃ h, hearers[k]? = some h ∧ live h = true ∧ taken ++ queue h ++ r.owed k = log

variable {k : Nat} {taken log : List α}

theorem Hears.mem_everyone (h : r.Hears hearers k taken log) (hr : r.Complete hearers) : k ∈ r.everyone := by
  obtain ⟨a, hk, hl, -⟩ := h
  exact hr.mem_everyone k a hk hl

theorem Hears.begin (h : r.Hears hearers k taken log) (hr : r.Complete hearers) (hfree : r.IsFree) (news : α) :
    (r.begin news).Hears hearers k taken (log ++ [news]) := by
  have hm : k ∈ r.members := everyone_of_isFree hfree ▸ h.mem_everyone hr
  obtain ⟨a, hk, hl, rfl⟩ := h
  exact ⟨a, hk, hl, by rw [owed_begin r news hm, owed_of_isFree hfree, List.append_nil]⟩

theorem Hears.join (h : r.Hears hearers k taken log) (b : R) :
    (r.join hearers.length).Hears (hearers ++ [b]) k taken log := by
  obtain ⟨a, hk, hl, rfl⟩ := h
  exact ⟨a, getElem?_append_of_some hk _, hl, rfl⟩

theorem hears_join (hfree : r.IsFree) (hearers : List R) {b : R} (hl : live b = true) (hq : queue b = []) :
    (r.join hearers.length).Hears (hearers ++ [b]) hearers.length [] [] :=
  ⟨b, List.getElem?_concat_length, hl, by rw [hq, owed_of_isFree (r := r.join hearers.length) hfree]; rfl⟩

/-- Something is taken out of a queue, or nothing happens to it. -/
theorem Hears.take (h : r.Hears hearers k taken log) (more : List α)
    (hk : ∀ a, hearers[k]? = some a → live a = true →
      ∃ b, hearers'[k]? = some b ∧ live b = true ∧ queue a = more ++ queue b) :
    r.Hears hearers' k (taken ++ more) log := by
  obtain ⟨a, ha, hl, rfl⟩ := h
  obtain ⟨b, hb, hlb, hq⟩ := hk a ha hl
  exact ⟨b, hb, hlb, by rw [hq]; simp only [List.append_assoc]⟩

theorem Hears.turn (h : r.Hears hearers k taken log) (hr : r.Complete hearers) :
    (r.turn hearers).1.Hears (r.turn hearers).2 k taken log := by
  have hnodup := hr.nodup
  obtain ⟨a, ha, hla, rfl⟩ := h
  rcases r.turn_cases hearers with ⟨-, ht⟩ | ⟨news, told, ho, ht⟩ | ⟨news, told, j, rest, b, ho, hj, hlb, ht⟩ |
    ⟨news, told, j, rest, ho, hj, ht⟩
  · rw [ht]
    exact ⟨a, ha, hla, rfl⟩
  · rw [ht]
    exact ⟨a, ha, hla, by simp [owed, ho]⟩
  · have hrest : j ∉ rest := by
      simp only [everyone, ho, List.nodup_append, List.nodup_cons] at hnodup
      exact hnodup.2.1.1
    rw [ht]
    by_cases hjk : k = j
    · subst hjk
      obtain rfl : b = a := Option.some.inj (hj.symm.trans ha)
      refine ⟨hear b news, List.getElem?_set_self (List.getElem?_eq_some_iff.1 ha).1, (live_hear b news).trans hla, ?_⟩
      simp [owed, ho, hrest, queue_hear]
    · refine ⟨a, (List.getElem?_set_ne (Ne.symm hjk)).trans ha, hla, ?_⟩
      simp [owed, ho, hjk]
  · have hjk : k ≠ j := by
      rintro rfl
      exact hj a ha hla
    rw [ht]
    exact ⟨a, ha, hla, by simp [owed, ho, hjk]⟩

/-- The turns that are left until the lock is let go of. -/
def left (r : Roster α) : Nat := (r.telling.map fun t => t.rest.length + 1).getD 0

theorem isFree_turns (r : Roster α) (hearers : List R) : (turns r.left r hearers).1.IsFree := by
  obtain ⟨members, telling⟩ := r
  rcases telling with - | ⟨news, told, rest⟩
  · rfl
  · induction rest generalizing told hearers with
    | nil => rfl
    | cons k rest ih =>
      rw [left, Option.map_some, Option.getD_some, List.length_cons, turns]
      by_cases hk : hearers[k]?.any live = true
      · simp only [turn, if_pos hk]
        exact ih _ (told ++ [k])
      · simp only [turn, if_neg hk]
        exact ih hearers told

theorem getElem?_turns (members told : List Nat) (news : α) {rest : List Nat} (hrest : rest.Nodup) (hearers : List R)
    (j : Nat) :
    (turns (rest.length + 1) ⟨members, some ⟨news, told, rest⟩⟩ hearers).2[j]? =
      hearers[j]?.map fun h => if j ∈ rest ∧ live h = true then hear h news else h := by
  induction rest generalizing told hearers with
  | nil => simp [turns, turn]
  | cons k rest ih =>
    obtain ⟨hk, hrest⟩ := List.nodup_cons.1 hrest
    rw [List.length_cons, turns]
    by_cases hlive : hearers[k]?.any live = true
    · simp only [turn, if_pos hlive]
      rw [ih (told ++ [k]) hrest, List.getElem?_modify, Option.map_eq_map, Option.map_map]
      refine Option.map_congr fun h hj => ?_
      by_cases hjk : k = j
      · subst hjk
        have hl : live h = true := by simpa [hj] using hlive
        simp [hk, hl]
      · simp [hjk, Ne.symm hjk]
    · simp only [turn, if_neg hlive]
      rw [ih told hrest]
      refine Option.map_congr fun h hj => ?_
      by_cases hjk : j = k
      · subst hjk
        have hl : ¬ live h = true := by simpa [hj] using hlive
        simp [hk, hl]
      · simp [hjk]

/-- News that goes round without interruption reaches all who are there. -/
theorem turns_begin (hr : r.Complete hearers) (hfree : r.IsFree) (news : α) :
    (turns (r.begin news).left (r.begin news) hearers).2 = hearers.map fun h => if live h = true then hear h news else h := by
  have hnodup : r.members.Nodup := everyone_of_isFree hfree ▸ hr.nodup
  refine List.ext_getElem? fun j => ?_
  refine (getElem?_turns r.members [] news hnodup hearers j).trans ?_
  rw [List.getElem?_map]
  refine Option.map_congr fun h hj => ?_
  by_cases hl : live h = true
  · have hm : j ∈ r.members := everyone_of_isFree hfree ▸ hr.mem_everyone j h hj hl
    simp [hm, hl]
  · simp [hl]

end Roster
end PeerDiscovery
