import PeerDiscovery.Proofs.Activity.Hushing

/-! What a shutdown has achieved when it returns.
It sets the stop flag, stops the station, takes its loops, waits for them and empties the registry, one after the other. What
it has achieved stays so whatever else goes on, further shutdowns among it (`Achieved.go`), so of all shutdowns each has
achieved what its next step supposes (`Shutdowns.go`). -/
namespace PeerDiscovery
namespace Activity

open Beacon (Air)
open Discovery (Engine)

variable {κ : Type} {s : State κ}

/-- The station was stopped, and the loops that nobody has taken are mute. -/
structure Gathered (a : Air) : Prop where
  stopped : a.station.stopped = true
  mute : ∀ loop, a.station.joined ≤ loop → a.IsMute loop

theorem air_go (h : s.shared.air.Regular) (hs : s.shared.air.station.stopped = true) (m : Move κ) :
    (s.go m).shared.air.station.stopped = true ∧ s.shared.air.station.joined ≤ (s.go m).shared.air.station.joined ∧
      ∀ loop, s.shared.air.IsMute loop → (s.go m).shared.air.IsMute loop := by
  have hsame : s.shared.air.station.stopped = true ∧ s.shared.air.station.joined ≤ s.shared.air.station.joined ∧
      ∀ loop, s.shared.air.IsMute loop → s.shared.air.IsMute loop := ⟨hs, Nat.le_refl _, fun _ => id⟩
  refine State.go_rule (P := fun s' => s'.shared.air.station.stopped = true ∧
    s.shared.air.station.joined ≤ s'.shared.air.station.joined ∧
      ∀ loop, s.shared.air.IsMute loop → s'.shared.air.IsMute loop) hsame m (fun _ => hsame) (fun x => ?_)
    (fun i now j _ _ => ?_) (fun _ _ _ _ _ _ => hsame) fun _ _ _ _ _ _ => hsame
  · exact ⟨(Air.stopped_stir _ x).trans hs, Nat.le_of_eq (Air.joined_stir _ x).symm, fun _ hm => hm.stir x⟩
  · rcases air_cases s.shared now j.task with ⟨ha | ⟨l, hb⟩, -⟩ | ⟨limit, ht⟩ | ⟨limit, ht⟩ | ⟨loop, loops, limit, ht⟩
    · rw [State.goFree, ha]
      exact hsame
    · exact ⟨hb.stopped.trans hs, Nat.le_of_eq hb.joined.symm, fun _ => hb.isMute h hs⟩
    · rw [State.goFree, ht]
      exact ⟨rfl, Nat.le_refl _, fun _ => id⟩
    · rw [State.goFree, ht]
      exact ⟨hs, h.joined_le, fun _ => id⟩
    · rw [State.goFree, ht]
      exact ⟨hs, Nat.le_refl _, fun _ hm => hm.abort loop⟩

theorem Gathered.go (h : Gathered s.shared.air) (hr : s.shared.air.Regular) (m : Move κ) :
    Gathered (s.go m).shared.air := by
  obtain ⟨hstopped, hjoined, hmute⟩ := air_go hr h.stopped m
  exact ⟨hstopped, fun loop hl => hmute loop (h.mute loop (Nat.le_trans hjoined hl))⟩

/-- How far a shutdown has come. -/
def Task.stage : Task κ → Nat
  | .stop _ => 0
  | .hush _ => 1
  | .join _ => 2
  | .await .. => 3
  | .call (.drain _) => 3
  | _ => 4

/-- What a shutdown has achieved that has come to a stage. -/
structure Achieved (s : State κ) (stage : Nat) : Prop where
  stopped : 1 ≤ stage → s.engine.stopped = true
  hushed : 2 ≤ stage → s.shared.air.station.stopped = true
  gathered : 3 ≤ stage → Gathered s.shared.air
  cleared : 4 ≤ stage → Cleared s

theorem Achieved.go {n : Nat} (h : Achieved s n) (hr : s.shared.air.Regular) (m : Move κ) : Achieved (s.go m) n where
  stopped hn := stopped_go (h.stopped hn) m
  hushed hn := (air_go hr (h.hushed hn) m).1
  gathered hn := (h.gathered hn).go hr m
  cleared hn := ((h.cleared hn).go (h.stopped (by omega)) m).1

def Shutdowns (s : State κ) : Prop := ∀ j ∈ s.jobs, ∀ limit, j.request = .shutdown limit → Achieved s j.task.stage

theorem achieved_goFree {k : Nat} {j : Job κ} {limit now : Nat} (hreach : (Request.shutdown limit).Reaches j.task)
    (h : Achieved (s.goFree k now j) j.task.stage) : Achieved (s.goFree k now j) (j.task.step s.shared now).2.stage := by
  obtain ⟨r, t⟩ := j
  rcases Request.reaches_shutdown hreach with rfl | rfl | rfl | ⟨loops, rfl⟩ | rfl | ⟨links, rfl⟩ | rfl
  · exact ⟨fun _ => rfl, nofun, nofun, nofun⟩
  · exact ⟨fun _ => h.stopped (Nat.le_refl 1), fun _ => rfl, nofun, nofun⟩
  · have hhushed := h.hushed (Nat.le_refl 2)
    refine ⟨fun _ => h.stopped (Nat.le_succ 1), fun _ => hhushed, fun _ => ⟨hhushed, ?_⟩, nofun⟩
    exact fun loop hl => Air.isMute_of_length_le hl
  · cases loops <;> exact h
  · exact h
  · cases links <;> exact h
  · exact h

theorem Shutdowns.go (h : Shutdowns s) (hfit : Fit s) (hr : s.shared.air.Regular) (m : Move κ) : Shutdowns (s.go m) := by
  intro j' hj' limit hlimit
  obtain ⟨k, hk⟩ := List.getElem?_of_mem hj'
  rcases State.jobs_go hk with hj | ⟨-, r, rfl⟩ | ⟨j, hj, hrequest, hstep⟩
  · exact (h j' (List.mem_of_getElem? hj) limit hlimit).go hr m
  · obtain rfl : r = .shutdown limit := hlimit
    exact ⟨nofun, nofun, nofun, nofun⟩
  · have hmem := List.mem_of_getElem? hj
    have hlimit := hrequest.symm.trans hlimit
    have hreach : (Request.shutdown limit).Reaches j.task := hlimit ▸ hfit.reaches j hmem
    have hprev := (h j hmem limit hlimit).go hr m
    rcases hstep with ⟨now, -, hgo, ht⟩ | ⟨o, -, ho, hgo, ht⟩ | ⟨hold, hholder⟩
    · rw [hgo] at hprev ⊢
      rw [ht]
      exact achieved_goFree hreach hprev
    · rw [hgo] at hprev ⊢
      rw [ht]
      rcases enter_cases ho with ⟨query, hsubmit, -⟩ | ⟨_, _, _, hsight, -⟩ | ⟨limit', hdrain, rfl⟩ | ⟨facts, hspread, -⟩
      · rw [hsubmit] at hreach
        obtain ⟨facts, k, hfind⟩ := hreach
        cases hfind
      · rw [hsight] at hreach
        simp [Request.Reaches, Request.IsSighting] at hreach
      · rw [hdrain] at hprev
        have hprev : Achieved _ 3 := hprev
        exact ⟨fun _ => hprev.stopped (by decide), fun _ => hprev.hushed (by decide), fun _ => hprev.gathered (Nat.le_refl 3),
          fun _ => ⟨rfl, fun i hold hh => by cases hh⟩⟩
      · rw [hspread] at hreach
        simp [Request.Reaches, Request.Announces] at hreach
    · obtain ⟨j₁, hj₁, hinside, hholds⟩ := hfit.holds k hold hholder
      obtain rfl : j₁ = j := Option.some.inj (hj₁.symm.trans hj)
      rcases Request.reaches_shutdown hreach with ht | ht | ht | ⟨_, ht⟩ | ht | ⟨_, ht⟩ | ht <;> cases hinside.symm.trans ht

end Activity
end PeerDiscovery
