import Mathlib.Data.List.Induction
import PeerDiscovery.Proofs.Roster

/-! Systems that make things known to whoever has joined them.
What a system makes known goes round as a roster has it, turn by turn, and meanwhile other acts can come between. Whoever
is there has heard, in order, all that was made known since it joined, whatever the others do (`Forum.hearers_hear`). -/
namespace PeerDiscovery

open Hearer (live queue hear)

/-- At most one of those who are there is concerned: it leaves, or takes something out of its queue. -/
inductive Forum.Quiet {R α : Type} [Hearer R α] (hearers : List R) (leaves : Nat → Bool) (hands : Nat → List α) :
    List R → Prop where
  | hush (hleaves : ∀ k, leaves k = false) (hhands : ∀ k, hands k = []) : Quiet hearers leaves hands hearers
  | leave (j : Nat) (f : R → R) (hgone : ∀ r, live (f r) = false) (hleaves : ∀ k, leaves k = (j == k))
      (hhands : ∀ k, hands k = []) : Quiet hearers leaves hands (hearers.modify j f)
  | take (j : Nat) (r r' : R) (hj : hearers[j]? = some r) (hlive : live r' = live r)
      (hqueue : queue r = hands j ++ queue r') (hleaves : ∀ k, leaves k = false) (hhands : ∀ k, j ≠ k → hands k = []) :
      Quiet hearers leaves hands (hearers.set j r')

namespace Forum.Quiet

variable {R α : Type} [Hearer R α] {hs hs' : List R} {leaves : Nat → Bool} {hands : Nat → List α} {k : Nat}

theorem length_eq (h : Quiet hs leaves hands hs') : hs'.length = hs.length := by
  cases h with
  | hush => rfl
  | leave j f => exact List.length_modify ..
  | take j r r' => exact List.length_set

/-- Whoever does not leave stays, less what it took out of its queue. -/
theorem stays (h : Quiet hs leaves hands hs') {r : R} (hk : hs[k]? = some r) (hr : live r = true)
    (hleaves : leaves k = false) : ∃ r', hs'[k]? = some r' ∧ live r' = true ∧ queue r = hands k ++ queue r' := by
  cases h with
  | hush _ hhands => exact ⟨r, hk, hr, by rw [hhands, List.nil_append]⟩
  | leave j f _ hl hhands =>
    have hne : j ≠ k := by simpa [hl] using hleaves
    exact ⟨r, by simpa [hne] using hk, hr, by rw [hhands, List.nil_append]⟩
  | take j r₀ r' hj hlive hqueue _ hhands =>
    by_cases hjk : j = k
    · subst hjk
      obtain rfl : r₀ = r := Option.some.inj (hj.symm.trans hk)
      exact ⟨r', List.getElem?_set_self (List.getElem?_eq_some_iff.1 hk).1, hlive.trans hr, hqueue⟩
    · exact ⟨r, by rwa [List.getElem?_set_ne hjk], hr, by rw [hhands k hjk, List.nil_append]⟩

theorem stayed (h : Quiet hs leaves hands hs') {r' : R} (hk : hs'[k]? = some r') (hr : live r' = true) :
    leaves k = false ∧ ∃ r, hs[k]? = some r ∧ live r = true := by
  cases h with
  | hush hleaves => exact ⟨hleaves k, r', hk, hr⟩
  | leave j f hgone hl =>
    rcases getElem?_modify_cases hk with ⟨rfl, r, -, rfl⟩ | ⟨hne, hk⟩
    · rw [hgone] at hr
      cases hr
    · exact ⟨by simpa [hl] using Ne.symm hne, r', hk, hr⟩
  | take j r₀ r₁ hj hlive _ hleaves =>
    rcases getElem?_set_cases hk with ⟨rfl, rfl⟩ | ⟨-, hk⟩
    · exact ⟨hleaves k, r₀, hj, hlive ▸ hr⟩
    · exact ⟨hleaves k, r', hk, hr⟩

theorem modify (j : Nat) (f : R → R) (hlive : ∀ r, live (f r) = live r)
    (hqueue : ∀ r, hs[j]? = some r → queue r = hands j ++ queue (f r)) (hleaves : ∀ k, leaves k = false)
    (hhands : ∀ k, j ≠ k ∨ hs[k]? = none → hands k = []) : Quiet hs leaves hands (hs.modify j f) := by
  cases hj : hs[j]? with
  | none =>
    rw [List.modify_eq_self (List.getElem?_eq_none_iff.1 hj)]
    refine .hush hleaves fun k => hhands k ?_
    by_cases hjk : j = k
    · exact .inr (hjk ▸ hj)
    · exact .inl hjk
  | some r =>
    rw [List.modify_eq_set_getElem?, hj]
    exact .take j r (f r) hj (hlive r) (hqueue r hj) hleaves fun k hk => hhands k (.inl hk)

end Forum.Quiet

/-- A system with states `S` and acts `A`. -/
structure Forum (S A R : Type) {α : Type} [Hearer R α] where
  hearers : S → List R
  withHearers : S → List R → S
  act : S → A → S
  /-- What an act makes known. -/
  news? : S → A → Option α
  /-- The act has to wait for news that is going round. -/
  waits : S → A → Bool
  joins : A → Bool
  leaves : A → Nat → Bool
  join : A
  leave : Nat → A
  /-- What an act hands to somebody out of its queue. -/
  hands : S → A → Nat → List α
  newcomer : R
  hearers_withHearers (s : S) (hs : List R) : hearers (withHearers s hs) = hs
  withHearers_hearers (s : S) : withHearers s (hearers s) = s
  withHearers_withHearers (s : S) (hs hs' : List R) : withHearers (withHearers s hs) hs' = withHearers s hs'
  waits_of_news {s : S} {a : A} {x : α} (h : news? s a = some x) : waits s a = true
  hands_of_news {s : S} {a : A} {x : α} (h : news? s a = some x) (k : Nat) : hands s a k = []
  hearers_of_news {s : S} {a : A} {x : α} (h : news? s a = some x) :
    hearers (act s a) = (hearers s).map fun r => if live r = true then hear r x else r
  live_newcomer : live newcomer = true
  queue_newcomer : queue newcomer = []
  waits_of_joins {a : A} (h : joins a = true) (s : S) : waits s a = true
  news_of_joins {a : A} (h : joins a = true) (s : S) : news? s a = none
  hands_of_joins {a : A} (h : joins a = true) (s : S) (k : Nat) : hands s a k = []
  hearers_of_joins {a : A} (h : joins a = true) (s : S) : hearers (act s a) = hearers s ++ [newcomer]
  waits_of_leaves {a : A} {k : Nat} (h : leaves a k = true) (s : S) : waits s a = false
  joins_iff (a : A) : joins a = true ↔ a = join
  leaves_iff (a : A) (k : Nat) : leaves a k = true ↔ a = leave k
  quiet {s : S} {a : A} (hnews : news? s a = none) (hjoins : joins a = false) :
    Forum.Quiet (hearers s) (leaves a) (hands s a) (hearers (act s a))

namespace Forum

inductive Step (A : Type) where
  | act (a : A)
  /-- News that goes round comes to the next one. -/
  | turn

def Step.act? {A : Type} : Step A → Option A
  | .act a => some a
  | .turn => none

structure State (S α : Type) where
  system : S
  roster : Roster α := {}

variable {S A R α β : Type} [Hearer R α] (F : Forum S A R)

def CanAct (s : State S α) (a : A) : Prop := s.roster.IsFree ∨ F.waits s.system a = false

instance (s : State S α) (a : A) : Decidable (F.CanAct s a) := inferInstanceAs (Decidable (_ ∨ _))

/-- An act that need not wait. The lock is taken to join, or when there is news. -/
def perform (s : State S α) (a : A) : State S α :=
  match F.news? s.system a with
  | some x => ⟨F.withHearers (F.act s.system a) (F.hearers s.system), s.roster.begin x⟩
  | none => ⟨F.act s.system a, if F.joins a then s.roster.join (F.hearers s.system).length else s.roster⟩

theorem stays_iff (k : Nat) (steps : List (Step A)) :
    (∀ a, .act a ∈ steps → F.leaves a k = false) ↔ .act (F.leave k) ∉ steps := by
  refine ⟨fun hs hm => ?_, fun hs a ha => Bool.eq_false_iff.2 fun hl => hs ((F.leaves_iff a k).1 hl ▸ ha)⟩
  exact Bool.eq_false_iff.1 (hs _ hm) ((F.leaves_iff _ k).2 rfl)

def go (s : State S α) : Step A → State S α
  | .act a => if F.CanAct s a then F.perform s a else s
  | .turn => ⟨F.withHearers s.system (s.roster.turn (F.hearers s.system)).2, (s.roster.turn (F.hearers s.system)).1⟩

def after (s : State S α) (steps : List (Step A)) : State S α := steps.foldl F.go s

theorem after_append (s : State S α) (steps steps' : List (Step A)) :
    F.after s (steps ++ steps') = F.after (F.after s steps) steps' := List.foldl_append

def note (f : S → A → List β) (s : State S α) : Step A → List β
  | .act a => if F.CanAct s a then f s.system a else []
  | .turn => []

/-- What is noted of some steps. -/
def noted (f : S → A → List β) (s : State S α) : List (Step A) → List β
  | [] => []
  | x :: steps => F.note f s x ++ noted f (F.go s x) steps

/-- What some steps make known. -/
def told (s : State S α) (steps : List (Step A)) : List α := F.noted (fun s a => (F.news? s a).toList) s steps

/-- What some steps hand to `k`. -/
def handed (k : Nat) (s : State S α) (steps : List (Step A)) : List α := F.noted (fun s a => F.hands s a k) s steps

variable {F} {s : State S α}

theorem perform_of_news {a : A} {x : α} (h : F.news? s.system a = some x) :
    F.perform s a = ⟨F.withHearers (F.act s.system a) (F.hearers s.system), s.roster.begin x⟩ := by
  simp only [perform, h]

theorem perform_of_joins {a : A} (h : F.joins a = true) :
    F.perform s a = ⟨F.act s.system a, s.roster.join (F.hearers s.system).length⟩ := by
  simp only [perform, F.news_of_joins h, if_pos h]

theorem perform_of_quiet {a : A} (hnews : F.news? s.system a = none) (hjoins : F.joins a = false) :
    F.perform s a = ⟨F.act s.system a, s.roster⟩ := by
  simp only [perform, hnews, hjoins, Bool.false_eq_true, if_false]

theorem isFree_of_canAct {a : A} (h : F.CanAct s a) (hwaits : F.waits s.system a = true) : s.roster.IsFree :=
  h.resolve_right fun hw => Bool.noConfusion (hw.symm.trans hwaits)

theorem perform_cases {a : A} (h : F.CanAct s a) :
    (∃ x, F.news? s.system a = some x ∧ s.roster.IsFree ∧
      F.perform s a = ⟨F.withHearers (F.act s.system a) (F.hearers s.system), s.roster.begin x⟩) ∨
    (F.joins a = true ∧ F.news? s.system a = none ∧ s.roster.IsFree ∧
      F.perform s a = ⟨F.act s.system a, s.roster.join (F.hearers s.system).length⟩) ∨
    (F.joins a = false ∧ F.news? s.system a = none ∧ F.perform s a = ⟨F.act s.system a, s.roster⟩) := by
  cases hnews : F.news? s.system a with
  | some x => exact .inl ⟨x, rfl, isFree_of_canAct h (F.waits_of_news hnews), perform_of_news hnews⟩
  | none =>
    cases hjoins : F.joins a with
    | true => exact .inr (.inl ⟨rfl, rfl, isFree_of_canAct h (F.waits_of_joins hjoins _), perform_of_joins hjoins⟩)
    | false => exact .inr (.inr ⟨rfl, rfl, perform_of_quiet hnews hjoins⟩)

variable (F) in
def Complete (s : State S α) : Prop := s.roster.Complete (F.hearers s.system)

theorem Complete.act (h : F.Complete s) (a : A) : F.Complete (F.go s (.act a)) := by
  rw [go]
  split
  · next hcan =>
    rcases perform_cases hcan with ⟨x, -, hfree, hp⟩ | ⟨hjoins, -, hfree, hp⟩ | ⟨hjoins, hnews, hp⟩
    · rw [hp, Complete, F.hearers_withHearers]
      exact Roster.Complete.begin h hfree x
    · rw [hp, Complete, F.hearers_of_joins hjoins]
      exact Roster.Complete.join h hfree F.newcomer
    · rw [hp]
      have hquiet := F.quiet hnews hjoins
      exact Roster.Complete.of_live h hquiet.length_eq fun k r hk hr => (hquiet.stayed hk hr).2
  · exact h

theorem Complete.go (h : F.Complete s) (x : Step A) : F.Complete (F.go s x) := by
  cases x with
  | act a => exact h.act a
  | turn =>
    rw [Forum.go, Complete, F.hearers_withHearers]
    exact Roster.Complete.turn h

theorem Complete.after (h : F.Complete s) (steps : List (Step A)) : F.Complete (F.after s steps) := by
  induction steps generalizing s with
  | nil => exact h
  | cons x steps ih => exact ih (h.go x)

variable (F) in
/-- `k` is there. With what it has taken, what it has been told and what it is still owed make up `log`. -/
def Hears (s : State S α) (k : Nat) (taken log : List α) : Prop := s.roster.Hears (F.hearers s.system) k taken log

variable {k : Nat} {taken log : List α}

/-- Whoever does not leave hears what a step makes known, and nothing else. -/
theorem Hears.go (h : F.Hears s k taken log) (hs : F.Complete s) {x : Step A}
    (hx : ∀ a, x = .act a → F.leaves a k = false) :
    F.Hears (F.go s x) k (taken ++ F.handed k s [x]) (log ++ F.told s [x]) := by
  simp only [handed, told, noted, List.append_nil]
  cases x with
  | turn =>
    simp only [note, List.append_nil]
    rw [Forum.go, Hears, F.hearers_withHearers]
    exact Roster.Hears.turn h hs
  | act a =>
    rw [Forum.go, note, note]
    split
    · next hcan =>
      rcases perform_cases hcan with ⟨x, hnews, hfree, hp⟩ | ⟨hjoins, hnews, hfree, hp⟩ | ⟨hjoins, hnews, hp⟩
      · rw [hp, hnews, F.hands_of_news hnews, List.append_nil, Hears, F.hearers_withHearers]
        exact Roster.Hears.begin h hs hfree x
      · rw [hp, hnews, F.hands_of_joins hjoins, List.append_nil, Hears, F.hearers_of_joins hjoins]
        rw [Option.toList_none, List.append_nil]
        exact Roster.Hears.join h F.newcomer
      · rw [hp, hnews, Option.toList_none, List.append_nil]
        exact Roster.Hears.take h _ fun r hk hr => (F.quiet hnews hjoins).stays hk hr (hx a rfl)
    · simpa only [List.append_nil] using h

theorem Hears.after (h : F.Hears s k taken log) (hs : F.Complete s) {steps : List (Step A)}
    (hsteps : ∀ a, .act a ∈ steps → F.leaves a k = false) :
    F.Hears (F.after s steps) k (taken ++ F.handed k s steps) (log ++ F.told s steps) := by
  induction steps generalizing s taken log with
  | nil =>
    simp only [handed, told, noted, List.append_nil]
    exact h
  | cons x steps ih =>
    have hgo := h.go hs (x := x) fun a ha => hsteps a (ha ▸ List.mem_cons_self)
    have hlater := ih hgo (hs.go x) fun a ha => hsteps a (List.mem_cons_of_mem _ ha)
    simp only [handed, told, noted, List.append_nil, List.append_assoc] at hlater ⊢
    exact hlater

theorem live_of_go {x : Step A} {r : R} (hk : (F.hearers (F.go s x).system)[k]? = some r) (hr : live r = true) :
    (∃ a, x = .act a ∧ F.joins a = true ∧ s.roster.IsFree ∧ k = (F.hearers s.system).length) ∨
    ((∀ a, x = .act a → F.leaves a k = false) ∧ ∃ r, (F.hearers s.system)[k]? = some r ∧ live r = true) := by
  cases x with
  | turn =>
    rw [go, F.hearers_withHearers] at hk
    exact .inr ⟨nofun, Roster.live_of_turn hk hr⟩
  | act a =>
    have hstays : F.waits s.system a = true → F.leaves a k = false := by
      intro hw
      refine Bool.eq_false_iff.2 fun hl => ?_
      rw [F.waits_of_leaves hl] at hw
      cases hw
    rw [go] at hk
    split at hk
    · next hcan =>
      rcases perform_cases hcan with ⟨x, hnews, -, hp⟩ | ⟨hjoins, -, hfree, hp⟩ | ⟨hjoins, hnews, hp⟩
      · rw [hp, F.hearers_withHearers] at hk
        exact .inr ⟨fun _ ha => Step.act.inj ha ▸ hstays (F.waits_of_news hnews), r, hk, hr⟩
      · rw [hp, F.hearers_of_joins hjoins] at hk
        rcases getElem?_concat_cases hk with hk | ⟨hk, -⟩
        · exact .inr ⟨fun _ ha => Step.act.inj ha ▸ hstays (F.waits_of_joins hjoins _), r, hk, hr⟩
        · exact .inl ⟨a, rfl, hjoins, hfree, hk⟩
      · rw [hp] at hk
        obtain ⟨hl, hr⟩ := (F.quiet hnews hjoins).stayed hk hr
        exact .inr ⟨fun _ ha => Step.act.inj ha ▸ hl, hr⟩
    · next hcan =>
      have hw : F.waits s.system a = true := by
        refine Bool.of_not_eq_false fun hw => hcan (.inr hw)
      exact .inr ⟨fun _ ha => Step.act.inj ha ▸ hstays hw, r, hk, hr⟩

variable (F) in
/-- `k` joined after the steps `before`, and has not left in the steps `later`. -/
structure Joined (s : State S α) (k : Nat) (before later : List (Step A)) : Prop where
  isFree : (F.after s before).roster.IsFree
  number : k = (F.hearers (F.after s before).system).length
  stays : .act (F.leave k) ∉ later

theorem exists_joined (hs : F.hearers s.system = []) {steps : List (Step A)} {r : R}
    (hk : (F.hearers (F.after s steps).system)[k]? = some r) (hr : live r = true) :
    ∃ before later, steps = before ++ .act F.join :: later ∧ F.Joined s k before later := by
  induction steps using List.reverseRecOn generalizing r with
  | nil =>
    rw [after, List.foldl_nil, hs] at hk
    cases hk
  | append_singleton steps x ih =>
    rw [after_append] at hk
    rcases live_of_go hk hr with ⟨a, rfl, hjoins, hfree, hnumber⟩ | ⟨hstays, r, hk, hr⟩
    · obtain rfl := (F.joins_iff a).1 hjoins
      exact ⟨steps, [], rfl, hfree, hnumber, List.not_mem_nil⟩
    · obtain ⟨before, later, rfl, hj⟩ := ih hk hr
      refine ⟨before, later ++ [x], by simp, { hj with stays := fun hm => ?_ }⟩
      rcases List.mem_append.1 hm with hm | hm
      · exact hj.stays hm
      · have hleft := hstays _ (List.mem_singleton.1 hm).symm
        rw [(F.leaves_iff _ k).2 rfl] at hleft
        cases hleft

theorem Joined.hears {before later : List (Step A)} (hj : F.Joined s k before later) (hs : F.Complete s) :
    F.Hears (F.after s (before ++ .act F.join :: later)) k (F.handed k (F.after s (before ++ [.act F.join])) later)
      (F.told (F.after s (before ++ [.act F.join])) later) := by
  have hjoins : F.joins F.join = true := (F.joins_iff _).2 rfl
  have hgo : F.after s (before ++ [.act F.join]) = F.perform (F.after s before) F.join := by
    rw [after_append]
    exact if_pos (.inl hj.isFree)
  have hnew : F.Hears (F.after s (before ++ [.act F.join])) k [] [] := by
    rw [hgo, perform_of_joins hjoins, Hears, F.hearers_of_joins hjoins, hj.number]
    exact Roster.hears_join hj.isFree _ F.live_newcomer F.queue_newcomer
  have hlater := hnew.after (hs.after _) ((F.stays_iff k later).2 hj.stays)
  rwa [← after_append, List.append_assoc, List.singleton_append, List.nil_append, List.nil_append] at hlater

/-- Those who are there are those who joined and have not left. With what they took they have been told, or are owed, all
that was made known since they joined, each piece of it once and in order. -/
theorem hearers_hear (hs : F.Complete s) (hnobody : F.hearers s.system = []) (steps : List (Step A)) :
    (∀ k r, (F.hearers (F.after s steps).system)[k]? = some r → live r = true →
      ∃ before later, steps = before ++ .act F.join :: later ∧ (F.after s before).roster.IsFree ∧
        k = (F.hearers (F.after s before).system).length ∧ .act (F.leave k) ∉ later ∧
        let joined := F.after s (before ++ [.act F.join])
        F.handed k joined later ++ queue r ++ (F.after s steps).roster.owed k = F.told joined later) ∧
    ∀ before later, steps = before ++ .act F.join :: later → (F.after s before).roster.IsFree →
      let k := (F.hearers (F.after s before).system).length
      .act (F.leave k) ∉ later → ∃ r, (F.hearers (F.after s steps).system)[k]? = some r ∧ live r = true := by
  refine ⟨fun k r hk hr => ?_, ?_⟩
  · obtain ⟨before, later, rfl, hj⟩ := exists_joined hnobody hk hr
    obtain ⟨r', hk', -, hlog⟩ := hj.hears hs
    obtain rfl : r = r' := Option.some.inj (hk.symm.trans hk')
    exact ⟨before, later, rfl, hj.isFree, hj.number, hj.stays, hlog⟩
  · rintro before later rfl hfree k hk
    have hj : F.Joined s k before later := ⟨hfree, rfl, hk⟩
    obtain ⟨r, hk, hr, -⟩ := hj.hears hs
    exact ⟨r, hk, hr⟩

/-- From any time on all who stay hear the same, whoever else leaves. -/
theorem stayers_hear (hs : F.Complete s) {before later : List (Step A)} {r : R}
    (hk : (F.hearers (F.after s before).system)[k]? = some r) (hr : live r = true) (hlater : .act (F.leave k) ∉ later) :
    ∃ r', (F.hearers (F.after s (before ++ later)).system)[k]? = some r' ∧ live r' = true ∧
      F.handed k (F.after s before) later ++ queue r' ++ (F.after s (before ++ later)).roster.owed k =
        queue r ++ (F.after s before).roster.owed k ++ F.told (F.after s before) later := by
  have hnow : F.Hears (F.after s before) k [] _ := ⟨r, hk, hr, rfl⟩
  have hlog := hnow.after (hs.after before) ((F.stays_iff k later).2 hlater)
  rwa [← after_append] at hlog

theorem after_replicate_turn (s : State S α) (n : Nat) :
    F.after s (List.replicate n .turn) =
      ⟨F.withHearers s.system (Roster.turns n s.roster (F.hearers s.system)).2,
        (Roster.turns n s.roster (F.hearers s.system)).1⟩ := by
  induction n generalizing s with
  | zero =>
    obtain ⟨system, roster⟩ := s
    exact congrArg (State.mk · roster) (F.withHearers_hearers system).symm
  | succ n ih =>
    rw [List.replicate_succ, after, List.foldl_cons, ← after, ih, go]
    simp only [F.hearers_withHearers, F.withHearers_withHearers]
    rfl

theorem isFree_after_turns (s : State S α) : (F.after s (List.replicate s.roster.left .turn)).roster.IsFree := by
  rw [after_replicate_turn]
  exact Roster.isFree_turns _ _

theorem exists_turns (hs : F.Complete s) (hfree : s.roster.IsFree) (a : A) :
    ∃ n, (F.after s (.act a :: List.replicate n .turn)).system = F.act s.system a ∧
      (F.after s (.act a :: List.replicate n .turn)).roster.IsFree := by
  have hgo : F.go s (.act a) = F.perform s a := if_pos (.inl hfree)
  have hafter : ∀ n, F.after s (.act a :: List.replicate n .turn) = F.after (F.perform s a) (List.replicate n .turn) :=
    fun n => congrArg (F.after · _) hgo
  rcases perform_cases (F := F) (s := s) (a := a) (.inl hfree) with ⟨x, hnews, -, hp⟩ | ⟨-, -, -, hp⟩ | ⟨-, -, hp⟩
  · refine ⟨(s.roster.begin x).left, ?_, ?_⟩
    · rw [hafter, hp, after_replicate_turn]
      simp only [F.hearers_withHearers, F.withHearers_withHearers]
      rw [Roster.turns_begin hs hfree, ← F.hearers_of_news hnews, F.withHearers_hearers]
    · rw [hafter, hp]
      exact isFree_after_turns ⟨_, _⟩
  · exact ⟨0, by rw [hafter, hp]; rfl, by rw [hafter, hp]; exact hfree⟩
  · exact ⟨0, by rw [hafter, hp]; rfl, by rw [hafter, hp]; exact hfree⟩

theorem exists_steps (hs : F.Complete s) (hfree : s.roster.IsFree) (acts : List A) :
    ∃ steps, steps.filterMap Step.act? = acts ∧ (F.after s steps).system = acts.foldl F.act s.system ∧
      (F.after s steps).roster.IsFree := by
  induction acts generalizing s with
  | nil => exact ⟨[], rfl, rfl, hfree⟩
  | cons a acts ih =>
    obtain ⟨n, hsystem, hroster⟩ := exists_turns hs hfree a
    obtain ⟨steps, hacts, hafter, hend⟩ := ih (hs.after _) hroster
    refine ⟨.act a :: List.replicate n .turn ++ steps, ?_, ?_, ?_⟩
    · simp [Step.act?, hacts]
    · rw [after_append, hafter, hsystem]
      rfl
    · rwa [after_append]

end Forum
end PeerDiscovery
