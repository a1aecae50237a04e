import PeerDiscovery.Proofs.Activity.Draining

/-! How a shutdown silences the station.
A shutdown that has stopped the station takes all loops that nobody has waited for yet, and waits for them one
after another. So when no shutdown is under way every loop is mute, also one that was begun after the stop. -/
namespace PeerDiscovery
namespace Activity

open Beacon (Air)

variable {κ : Type} {s : State κ}

/-- The station changes with the loops that a start begins, and in a shutdown. -/
theorem air_cases (w : Shared κ) (now : Nat) (t : Task κ) :
    ((t.step w now).1.air = w.air ∨ ∃ l, (w.air).Begun (t.step w now).1.air l) ∧
      (∀ limit, t ≠ .hush limit) ∧ (∀ limit, t ≠ .join limit) ∧ (∀ loops limit, t = .await loops limit → loops = []) ∨
    (∃ limit, t = .hush limit) ∨ (∃ limit, t = .join limit) ∨ ∃ loop loops limit, t = .await (loop :: loops) limit := by
  cases t with
  | hush limit => exact .inr (.inl ⟨limit, rfl⟩)
  | join limit => exact .inr (.inr (.inl ⟨limit, rfl⟩))
  | await loops limit =>
    cases loops with
    | nil => exact .inl ⟨.inl rfl, by simp, by simp, by simp⟩
    | cons loop loops => exact .inr (.inr (.inr ⟨loop, loops, limit, rfl⟩))
  | listen o =>
    refine .inl ⟨?_, by simp, by simp, by simp⟩
    simp only [Task.step]
    split
    · exact .inl rfl
    · exact .inr ⟨_, Air.begun_listen w.air o.capacity⟩
  | broadcast o =>
    refine .inl ⟨?_, by simp, by simp, by simp⟩
    simp only [Task.step]
    split
    · exact .inl rfl
    · exact .inr ⟨_, Air.begun_broadcast w.air now w.engine.self o.own.port⟩
  | note facts =>
    refine .inl ⟨.inl ?_, by simp, by simp, by simp⟩
    simp only [Task.step]
    split <;> rfl
  | start o =>
    refine .inl ⟨.inl ?_, by simp, by simp, by simp⟩
    simp only [Task.step]
    split <;> rfl
  | pump =>
    refine .inl ⟨.inl ?_, by simp, by simp, by simp⟩
    simp only [Task.step]
    split <;> rfl
  | tell u services => cases services <;> exact .inl ⟨.inl rfl, by simp, by simp, by simp⟩
  | _ => exact .inl ⟨.inl rfl, by simp, by simp, by simp⟩

/-- A shutdown is about to take the loops that nobody has waited for. -/
def State.Joins (s : State κ) : Prop := ∃ j ∈ s.jobs, ∃ limit, j.task = .join limit

/-- A shutdown waits for the loop. -/
def State.Awaits (s : State κ) (loop : Nat) : Prop := ∃ j ∈ s.jobs, ∃ loops limit, j.task = .await loops limit ∧ loop ∈ loops

/-- What is sure of the station: loops that were taken are mute or waited for, and after a stop the others are mute
or about to be taken. -/
structure Hushed (s : State κ) : Prop where
  regular : s.shared.air.Regular
  stopped : s.engine.stopped = true → s.shared.air.station.stopped = true ∨ ∃ j ∈ s.jobs, ∃ limit, j.task = .hush limit
  taken : ∀ loop < s.shared.air.station.joined, s.shared.air.IsMute loop ∨ s.Awaits loop
  untaken : s.shared.air.station.stopped = true → ∀ loop, s.shared.air.station.joined ≤ loop →
    s.shared.air.IsMute loop ∨ s.Joins

/-- A job at some task, after a step of one job: it is still there unless it was that job. -/
theorem exists_task_set {i : Nat} {j : Job κ} (hj : s.jobs[i]? = some j) (t : Task κ) {Q : Task κ → Prop}
    (h : ∃ j ∈ s.jobs, Q j.task) : Q j.task ∨ ∃ j' ∈ s.jobs.set i { j with task := t }, Q j'.task := by
  obtain ⟨k, hk, hq⟩ := h
  obtain ⟨n, hn⟩ := List.getElem?_of_mem hk
  by_cases hi : i = n
  · subst hi
    obtain rfl : j = k := Option.some.inj (hj.symm.trans hn)
    exact .inl hq
  · exact .inr ⟨k, List.mem_of_getElem? ((List.getElem?_set_ne hi).trans hn), hq⟩

section

variable {i : Nat} {j : Job κ} (hj : s.jobs[i]? = some j) (t : Task κ)
include hj

theorem joins_set (h : s.Joins) (hjoin : ∀ limit, j.task ≠ .join limit) :
    ∃ j' ∈ s.jobs.set i { j with task := t }, ∃ limit, j'.task = .join limit := by
  rcases exists_task_set hj t (Q := fun t => ∃ limit, t = .join limit) h with ⟨limit, ht⟩ | hh
  · exact absurd ht (hjoin limit)
  · exact hh

theorem awaits_set {loop : Nat} (h : s.Awaits loop) (hawait : ∀ loops limit, j.task = .await loops limit → loop ∉ loops) :
    ∃ j' ∈ s.jobs.set i { j with task := t }, ∃ loops limit, j'.task = .await loops limit ∧ loop ∈ loops := by
  rcases exists_task_set hj t (Q := fun t => ∃ loops limit, t = .await loops limit ∧ loop ∈ loops) h with
    ⟨loops, limit, ht, hm⟩ | hh
  · exact absurd hm (hawait loops limit ht)
  · exact hh

theorem Hushed.stopped_set (h : Hushed s) (hs : s.engine.stopped = true) (hhush : ∀ limit, j.task ≠ .hush limit) :
    s.shared.air.station.stopped = true ∨ ∃ j' ∈ s.jobs.set i { j with task := t }, ∃ limit, j'.task = .hush limit := by
  rcases h.stopped hs with hs | hh
  · exact .inl hs
  · rcases exists_task_set hj t (Q := fun t => ∃ limit, t = .hush limit) hh with ⟨limit, ht⟩ | hh
    · exact absurd ht (hhush limit)
    · exact .inr hh

end

namespace Hushed

/-- A step of a job that has nothing to do with the station, or begins a loop. -/
theorem step (h : Hushed s) {s' : State κ} {i : Nat} {j : Job κ} {t : Task κ} (hj : s.jobs[i]? = some j)
    (hjobs : s'.jobs = s.jobs.set i { j with task := t }) (hhush : ∀ limit, j.task ≠ .hush limit)
    (hjoin : ∀ limit, j.task ≠ .join limit) (hawait : ∀ loops limit, j.task = .await loops limit → loops = [])
    (hair : s'.shared.air = s.shared.air ∨ ∃ l, s.shared.air.Begun s'.shared.air l)
    (hstop : s'.engine.stopped = true → s.engine.stopped = true ∨ ∃ limit, t = .hush limit) : Hushed s' := by
  have hjoins : s.Joins → s'.Joins := by
    intro hh
    rw [State.Joins, hjobs]
    exact joins_set hj t hh hjoin
  have hawaits : ∀ loop, s.Awaits loop → s'.Awaits loop := by
    intro loop hh
    rw [State.Awaits, hjobs]
    refine awaits_set hj t hh fun loops limit ht => ?_
    rw [hawait loops limit ht]
    exact List.not_mem_nil
  have hstopped : s'.engine.stopped = true →
      s.shared.air.station.stopped = true ∨ ∃ j ∈ s'.jobs, ∃ limit, j.task = .hush limit := by
    intro hs
    rw [hjobs]
    rcases hstop hs with hs | ⟨limit, rfl⟩
    · exact h.stopped_set hj t hs hhush
    · have hi := (List.getElem?_eq_some_iff.1 hj).1
      exact .inr ⟨_, List.mem_of_getElem? (List.getElem?_set_self hi), limit, rfl⟩
  rcases hair with ha | ⟨l, hb⟩
  · refine ⟨ha ▸ h.regular, ha ▸ hstopped, fun loop hl => ?_, fun hs loop hl => ?_⟩
    · rw [ha] at hl ⊢
      exact (h.taken loop hl).imp_right (hawaits loop)
    · rw [ha] at hs hl ⊢
      exact (h.untaken hs loop hl).imp_right hjoins
  · refine ⟨hb.regular h.regular, hb.stopped ▸ hstopped, fun loop hl => ?_, fun hs loop hl => ?_⟩
    · rw [hb.joined] at hl
      exact (h.taken loop hl).imp (hb.isMute_of_lt (Nat.lt_of_lt_of_le hl h.regular.joined_le)) (hawaits loop)
    · rw [hb.stopped] at hs
      rw [hb.joined] at hl
      exact (h.untaken hs loop hl).imp (hb.isMute h.regular hs) hjoins

section

variable {i : Nat} {j : Job κ} (hj : s.jobs[i]? = some j)
include hj

/-- The station is stopped, and now a shutdown is about to take its loops. -/
theorem hush (h : Hushed s) {limit : Nat} (ht : j.task = .hush limit) (now : Nat) : Hushed (s.goFree i now j) := by
  have hair : (s.goFree i now j).shared.air = s.shared.air.stop := by
    rw [State.goFree, ht]
    rfl
  have hjoins : (s.goFree i now j).Joins := by
    refine ⟨_, List.mem_of_getElem? (List.getElem?_set_self (List.getElem?_eq_some_iff.1 hj).1), limit, ?_⟩
    rw [ht]
    rfl
  refine ⟨hair ▸ ⟨h.regular.unaware_lt, h.regular.joined_le⟩, fun _ => .inl (hair ▸ rfl), fun loop hl => ?_,
    fun _ _ _ => .inr hjoins⟩
  rw [hair] at hl ⊢
  refine (h.taken loop hl).imp_right fun hh => awaits_set hj _ hh fun loops limit' ht' => ?_
  cases ht.symm.trans ht'

theorem join (h : Hushed s) {limit : Nat} (ht : j.task = .join limit) (now : Nat) : Hushed (s.goFree i now j) := by
  have hair : (s.goFree i now j).shared.air = s.shared.air.join := by
    rw [State.goFree, ht]
    rfl
  have heng : (s.goFree i now j).engine = s.engine := by
    rw [State.engine, State.goFree, ht]
    rfl
  refine ⟨hair ▸ ⟨h.regular.unaware_lt, Nat.le_refl _⟩, fun hs => ?_, fun loop hl => ?_, fun _ loop hl => .inl ?_⟩
  · rw [hair]
    exact h.stopped_set hj _ (heng ▸ hs) fun limit' ht' => by cases ht.symm.trans ht'
  · rw [hair] at hl ⊢
    by_cases hold : loop < s.shared.air.station.joined
    · refine (h.taken loop hold).imp_right fun hh => awaits_set hj _ hh fun loops limit' ht' => ?_
      cases ht.symm.trans ht'
    · refine .inr ⟨_, List.mem_of_getElem? (List.getElem?_set_self (List.getElem?_eq_some_iff.1 hj).1),
        s.shared.air.unjoined, limit, by rw [ht]; rfl, ?_⟩
      have hl : loop < s.shared.air.station.loops.length := hl
      rw [Air.unjoined, List.mem_range'_1]
      omega
  · rw [hair] at hl ⊢
    exact Air.isMute_of_length_le hl

theorem await (h : Hushed s) {loop : Nat} {loops : List Nat} {limit : Nat} (ht : j.task = .await (loop :: loops) limit)
    (now : Nat) : Hushed (s.goFree i now j) := by
  have hair : (s.goFree i now j).shared.air = s.shared.air.abort loop := by
    rw [State.goFree, ht]
    rfl
  have heng : (s.goFree i now j).engine = s.engine := by
    rw [State.engine, State.goFree, ht]
    rfl
  refine ⟨hair ▸ Air.regular_abort h.regular loop, fun hs => ?_, fun k hl => ?_, fun hs k hl => ?_⟩
  · rw [hair]
    exact h.stopped_set hj _ (heng ▸ hs) fun limit' ht' => by cases ht.symm.trans ht'
  · rw [hair] at hl ⊢
    by_cases hk : k = loop
    · exact .inl (hk ▸ Air.isMute_abort _ k)
    · refine (h.taken k hl).imp (fun hm => hm.abort loop) fun hh => ?_
      by_cases hmem : k ∈ loops
      · refine ⟨_, List.mem_of_getElem? (List.getElem?_set_self (List.getElem?_eq_some_iff.1 hj).1), loops, limit, ?_, hmem⟩
        rw [ht]
        rfl
      · refine awaits_set hj _ hh fun loops' limit' ht' => ?_
        cases ht.symm.trans ht'
        simp [hk, hmem]
  · rw [hair] at hs hl ⊢
    exact (h.untaken hs k hl).imp (fun hm => hm.abort loop) fun hh =>
      joins_set hj _ hh fun limit' ht' => by cases ht.symm.trans ht'

theorem goFree (h : Hushed s) (hfit : Fit s) (now : Nat) : Hushed (s.goFree i now j) := by
  have hreach := hfit.reaches j (List.mem_of_getElem? hj)
  rcases air_cases s.shared now j.task with
    ⟨hair, hhush, hjoin, hawait⟩ | ⟨limit, ht⟩ | ⟨limit, ht⟩ | ⟨loop, loops, limit, ht⟩
  · refine h.step hj rfl hhush hjoin hawait hair fun hs => ?_
    rcases stopped_step hs with hs | ⟨limit, ht | ht⟩
    · exact .inl hs
    · exact .inr ⟨limit, by rw [ht]; rfl⟩
    · rw [ht] at hreach
      exact hreach.elim
  · exact h.hush hj ht now
  · exact h.join hj ht now
  · exact h.await hj ht now

end

theorem begin (h : Hushed s) (r : Request κ) : Hushed (s.go (.begin r)) := by
  refine ⟨h.regular, fun hs => (h.stopped hs).imp_right ?_, fun loop hl => (h.taken loop hl).imp_right ?_,
    fun hs loop hl => (h.untaken hs loop hl).imp_right ?_⟩
  · rintro ⟨j, hj, hlimit⟩
    exact ⟨j, List.mem_append_left _ hj, hlimit⟩
  · rintro ⟨j, hj, hloops⟩
    exact ⟨j, List.mem_append_left _ hj, hloops⟩
  · rintro ⟨j, hj, hlimit⟩
    exact ⟨j, List.mem_append_left _ hj, hlimit⟩

theorem stir (h : Hushed s) (x : Beacon.Stir) : Hushed (s.go (.stir x)) := by
  have hjoined := Air.joined_stir s.shared.air x
  have hstopped := Air.stopped_stir s.shared.air x
  refine ⟨Air.regular_stir h.regular x, fun hs => ?_, fun loop hl => ?_, fun hs loop hl => ?_⟩
  · exact (h.stopped hs).imp_left hstopped.trans
  · exact (h.taken loop (Nat.lt_of_lt_of_eq hl hjoined)).imp_left fun hm => hm.stir x
  · exact (h.untaken (hstopped.symm.trans hs) loop (Nat.le_trans (Nat.le_of_eq hjoined.symm) hl)).imp_left fun hm => hm.stir x

theorem go (h : Hushed s) (hfit : Fit s) (m : Move κ) : Hushed (s.go m) := by
  refine State.go_rule h m h.begin h.stir (fun i now j hj _ => h.goFree hj hfit now) (fun i j o hj _ ho => ?_)
    fun i now j hold hj hs => ?_
  · have hstop : (s.enter i j o).engine.stopped = true → s.engine.stopped = true := fun hs => (stopped_enter ho).symm.trans hs
    rcases enter_cases ho with ⟨_, ht, -⟩ | ⟨_, _, _, ht, -⟩ | ⟨_, ht, -⟩ | ⟨_, ht, -⟩ <;>
      exact h.step hj rfl (by simp [ht]) (by simp [ht]) (by simp [ht]) (.inl rfl) fun hs => .inl (hstop hs)
  · obtain ⟨j', hj', ht, -⟩ := hfit.holds i hold hs
    obtain rfl : j' = j := Option.some.inj (hj'.symm.trans hj)
    refine h.step hj rfl (by simp [ht]) (by simp [ht]) (by simp [ht]) (.inl rfl) fun hs => .inl ?_
    exact (stopped_hold s.engine i now hold).symm.trans hs

end Hushed

theorem silent_step (w : Shared κ) (now : Nat) (t : Task κ) (h : w.air.IsSilent) :
    (t.step w now).1.air.IsSilent ∧ w.air.Still (t.step w now).1.air := by
  rcases air_cases w now t with ⟨ha | ⟨l, hb⟩, -⟩ | ⟨limit, rfl⟩ | ⟨limit, rfl⟩ | ⟨loop, loops, limit, rfl⟩
  · rw [ha]
    exact ⟨h, .refl _⟩
  · exact ⟨h.begun hb, hb.still⟩
  · exact ⟨⟨⟨h.regular.unaware_lt, h.regular.joined_le⟩, rfl, h.mute⟩, ⟨rfl, fun _ => .refl _⟩⟩
  · exact ⟨⟨⟨h.regular.unaware_lt, Nat.le_refl _⟩, h.stopped, h.mute⟩, ⟨rfl, fun _ => .refl _⟩⟩
  · exact ⟨⟨Air.regular_abort h.regular loop, h.stopped, fun k => (h.mute k).abort loop⟩, Air.still_abort w.air loop⟩

end Activity
end PeerDiscovery
