import PeerDiscovery.Proofs.Activity.Ownership

/-! How a shutdown empties the registry.
Once the stop flag is set nobody begins to take in a sighting, so what a shutdown finds in the registry is all
that there will ever be (`Cleared.go`). It may find the tracker of a sighting that was under way, and closes its link too. -/
namespace PeerDiscovery
namespace Activity

open Discovery (Engine Tracker Link OpenAt)
open Discovery.Interleaving (Call Section registry openLink)

variable {κ : Type} {s : State κ}

theorem stopped_step {w : Shared κ} {now : Nat} {t : Task κ} (h : (t.step w now).1.engine.stopped = true) :
    w.engine.stopped = true ∨ ∃ limit, t = .stop limit ∨ t = .call (.stop limit) := by
  rcases step_cases w now t with ⟨_, _, _, _, _, hw, -⟩ | ⟨n, links, limit, rfl⟩ | ⟨query, k, rfl⟩ | ⟨facts, rfl⟩ |
    ⟨limit, ht⟩ | ⟨engine, u, rfl, hnext⟩ | ⟨u, facts, services, rfl⟩ | ⟨b, rfl⟩
  · rw [hw] at h
    exact .inl h
  · exact .inl h
  · exact .inl h
  · exact .inl h
  · exact .inr ⟨limit, ht⟩
  · obtain ⟨s, rest, -, -, rfl⟩ := Engine.takeNext?_eq hnext
    simp only [Task.step, hnext] at h
    exact .inl h
  · left
    rwa [Task.step, show (w.engine.announceTo facts u.link).1 = _ from Engine.deliver_eq ..] at h
  · left
    cases b with
    | response m =>
      obtain ⟨inFlight, -, he⟩ := w.engine.onResponse_eq m
      simp only [Task.step, Brief.perform, he] at h
      exact h
    | announceTo facts n =>
      rwa [Task.step, Brief.perform, show (w.engine.announceTo facts n).1 = _ from Engine.deliver_eq ..] at h
    | subscribe | fill | fail => exact h

theorem stopped_enter {t : Task κ} {e : Engine κ} {i : Nat} {o : Outcome κ} (ho : t.enter? e i = some o) :
    o.engine.stopped = e.stopped := by
  rcases enter_cases ho with ⟨query, -, ⟨-, rfl⟩ | ⟨-, rfl⟩⟩ | ⟨_, _, _, -, ⟨-, rfl⟩ | ⟨-, rfl⟩⟩ | ⟨limit, -, rfl⟩ |
    ⟨facts, -, rfl⟩ <;> rfl

theorem stopped_hold (e : Engine κ) (i now : Nat) (hold : Hold) : (hold.step e i now).engine.stopped = e.stopped := by
  cases hold with
  | call sec => exact Discovery.Interleaving.stopped_section e sec i now
  | announce facts links count =>
    cases links with
    | nil => rfl
    | cons n links => exact Engine.stopped_deliver e.takeId.1 n _

theorem stopped_go (hs : s.engine.stopped = true) (m : Move κ) : (s.go m).engine.stopped = true := by
  refine State.go_rule (P := fun s => s.engine.stopped = true) hs m (fun _ => hs) (fun _ => hs) (fun i now j _ _ => ?_)
    (fun i j o _ _ ho => ?_) fun i now j hold _ _ => ?_
  · exact (trackers_step s.shared now j.task).2.2 hs
  · exact (stopped_enter ho).trans hs
  · exact (stopped_hold s.engine i now hold).trans hs

theorem enter_stopped {t : Task κ} {e : Engine κ} {i : Nat} {o : Outcome κ} (hs : e.stopped = true)
    (ho : t.enter? e i = some o) {hold : Hold} (hh : o.hold = some hold) : ¬hold.IsRegister := by
  rcases enter_cases ho with ⟨query, rfl, ⟨-, rfl⟩ | ⟨-, rfl⟩⟩ | ⟨_, _, _, rfl, ⟨-, rfl⟩ | ⟨hs', rfl⟩⟩ |
    ⟨limit, rfl, rfl⟩ | ⟨facts, rfl, rfl⟩
  · exact Option.some.inj hh ▸ id
  · exact Option.some.inj hh ▸ id
  · cases hh
  · exact absurd (hs.symm.trans hs') Bool.noConfusion
  · cases hh
  · exact Option.some.inj hh ▸ id

/-- The registry is empty, and no sighting is under way that could fill it. -/
structure Cleared (s : State κ) : Prop where
  trackers : s.engine.trackers = []
  idle : ∀ i hold, s.holder = some (i, hold) → ¬hold.IsRegister

/-- After a stop an empty registry stays empty, and no link is made. -/
theorem Cleared.go (h : Cleared s) (hs : s.engine.stopped = true) (m : Move κ) :
    Cleared (s.go m) ∧ (s.go m).engine.links.length = s.engine.links.length := by
  refine State.go_rule (P := fun s' => Cleared s' ∧ s'.engine.links.length = s.engine.links.length) ⟨h, rfl⟩ m
    (fun r => ⟨⟨h.trackers, h.idle⟩, rfl⟩) (fun x => ⟨⟨h.trackers, h.idle⟩, rfl⟩) (fun i now j _ _ => ?_)
    (fun i j o _ _ ho => ?_) fun i now j hold _ hholder => ?_
  · obtain ⟨htrackers, hlength, -⟩ := trackers_step s.shared now j.task
    exact ⟨⟨htrackers.trans h.trackers, h.idle⟩, hlength⟩
  · have he : o.engine.trackers = [] ∧ o.engine.links.length = s.engine.links.length := by
      obtain ⟨-, ⟨he, -⟩ | ⟨limit, -, rfl⟩⟩ := enter_effect ho
      · rw [he]
        exact ⟨h.trackers, rfl⟩
      · exact ⟨rfl, rfl⟩
    exact ⟨⟨he.1, fun k hold hh => enter_stopped hs ho (State.hold_of_holder hh)⟩, he.2⟩
  · obtain ⟨⟨pending, hm⟩, -, hr⟩ := mild_hold s.engine i now (h.idle i hold hholder)
    exact ⟨⟨hm.trackers.trans h.trackers, fun k hold' hh => hr hold' (State.hold_of_holder hh)⟩, hm.length⟩

/-- A link that was closed once, with this time limit. -/
def ClosedWith (e : Engine κ) (n limit : Nat) : Prop := ∃ l, e.links[n]? = some l ∧ l.closes = [limit]

/-- A shutdown closes each link that it took out of the registry, and nobody else does. -/
def Disposes (s : State κ) : Prop := ∀ x ∈ s.drained, ∃ j limit, s.jobs[x.1]? = some j ∧ j.request = .shutdown limit ∧
  ∀ n ∈ x.2, n ∈ j.task.closing ∨ ClosedWith s.engine n limit

theorem ClosedWith.mild {e e' : Engine κ} {n limit : Nat} (h : ClosedWith e n limit) (hm : Mild e e') :
    ClosedWith e' n limit := by
  obtain ⟨l, hl, hc⟩ := h
  obtain ⟨l', hl', hlater⟩ := hm.links n l hl
  exact ⟨l', hl', hlater.closes.trans hc⟩

theorem ClosedWith.hold {e : Engine κ} {n limit : Nat} (h : ClosedWith e n limit) (i now : Nat) (hold : Hold) :
    ClosedWith (hold.step e i now).engine n limit := by
  by_cases hr : hold.IsRegister
  · obtain ⟨origin, peer, endpoint, rfl⟩ := hr.eq
    rcases register_cases e i now origin peer endpoint with ho | ho
    · rw [ho]
      exact h
    · rw [ho]
      obtain ⟨l, hl, hc⟩ := h
      exact ⟨l, getElem?_append_of_some hl _, hc⟩
  · obtain ⟨⟨pending, hm⟩, -, -⟩ := mild_hold e i now hr
    have hh : ClosedWith { e with pending } n limit := h
    exact hh.mild hm

/-- A link that is to be closed is owned by the job that closes it, so it was not closed before. -/
theorem ClosedWith.step {n limit : Nat} (h : ClosedWith s.engine n limit) (howned : Owned s) {j : Job κ} (hj : j ∈ s.jobs)
    (now : Nat) : ClosedWith (j.task.step s.shared now).1.engine n limit := by
  by_cases ht : ∃ k links limit', j.task = .call (.close (k :: links) limit')
  · obtain ⟨k, links, limit', ht⟩ := ht
    obtain ⟨l, hl, hc⟩ := h
    have hne : k ≠ n := by
      rintro rfl
      have hk : k ∈ s.closing := List.mem_append_right _ (List.mem_flatMap.2 ⟨j, hj, ht ▸ List.mem_cons_self⟩)
      obtain ⟨l', hl', ho⟩ := (howned.owns.mem_iff k).1 (List.mem_append_right _ hk)
      obtain rfl : l = l' := Option.some.inj (hl.symm.trans hl')
      rw [hc] at ho
      cases ho
    rw [ht]
    exact ⟨l, (List.getElem?_modify_ne _ _ hne).trans hl, hc⟩
  · exact h.mild (mild_step s.shared now fun k links limit' hh => ht ⟨k, links, limit', hh⟩).1

theorem closing_step {n limit : Nat} {j : Job κ} (howned : Owned s) (hj : j ∈ s.jobs) (hreach : j.request.Reaches j.task)
    (hr : j.request = .shutdown limit) (hn : n ∈ j.task.closing) (now : Nat) :
    n ∈ (j.task.step s.shared now).2.closing ∨ ClosedWith (j.task.step s.shared now).1.engine n limit := by
  by_cases ht : ∃ k links limit', j.task = .call (.close (k :: links) limit')
  · obtain ⟨k, links, limit', ht⟩ := ht
    have hlimit : limit' = limit := by
      rw [ht, hr] at hreach
      rcases hreach with (⟨b, hb⟩ | ⟨sender, address, port, hb⟩) | hb
      · cases hb
      · cases hb
      · exact (Request.shutdown.inj hb).symm
    obtain ⟨l, hl, ho⟩ : OpenAt s.engine.links n :=
      (howned.owns.mem_iff n).1 (List.mem_append_right _ (List.mem_append_right _ (List.mem_flatMap.2 ⟨j, hj, hn⟩)))
    rw [ht] at hn ⊢
    rcases List.mem_cons.1 hn with rfl | hn
    · right
      refine ⟨l.close limit', ?_, by simp [Link.close, ho, hlimit]⟩
      exact (List.getElem?_modify_eq ..).trans (by rw [show s.shared.engine.links[n]? = some l from hl]; rfl)
    · exact .inl hn
  · left
    rwa [(mild_step s.shared now fun k links limit' hh => ht ⟨k, links, limit', hh⟩).2]

/-- One job takes a step, which closes the links that it does not keep and opens none. -/
theorem Disposes.set (h : Disposes s) {i : Nat} {j : Job κ} {t : Task κ} {e : Engine κ} (hj : s.jobs[i]? = some j)
    (hkeep : ∀ n limit, ClosedWith s.engine n limit → ClosedWith e n limit)
    (hclose : ∀ n limit, n ∈ j.task.closing → j.request = .shutdown limit → n ∈ t.closing ∨ ClosedWith e n limit) :
    ∀ x ∈ s.drained, ∃ k limit, (s.jobs.set i { j with task := t })[x.1]? = some k ∧ k.request = .shutdown limit ∧
      ∀ n ∈ x.2, n ∈ k.task.closing ∨ ClosedWith e n limit := by
  intro x hx
  obtain ⟨k, limit, hk, hr, hn⟩ := h x hx
  by_cases hi : i = x.1
  · subst hi
    obtain rfl : j = k := Option.some.inj (hj.symm.trans hk)
    refine ⟨_, limit, List.getElem?_set_self (List.getElem?_eq_some_iff.1 hj).1, hr, fun n hx => ?_⟩
    rcases hn n hx with hn | hn
    · exact hclose n limit hn hr
    · exact .inr (hkeep n limit hn)
  · exact ⟨k, limit, (List.getElem?_set_ne hi).trans hk, hr, fun n hx => (hn n hx).imp_right (hkeep n limit)⟩

theorem Disposes.enter (h : Disposes s) (hfit : Fit s) {i : Nat} {j : Job κ} {o : Outcome κ} (hj : s.jobs[i]? = some j)
    (ho : j.task.enter? s.engine i = some o) : Disposes (s.enter i j o) := by
  obtain ⟨hnone, heffect⟩ := enter_effect ho
  have hlinks : o.engine.links = s.engine.links := by
    rcases heffect with ⟨he, -⟩ | ⟨limit, -, rfl⟩
    · rw [he]
    · rfl
  have hset := h.set (t := o.task) (e := o.engine) hj (fun n limit hc => by rwa [ClosedWith, hlinks])
    fun n limit hn => by
      rw [hnone] at hn
      cases hn
  intro x hx
  rcases List.mem_append.1 hx with hold | hnew
  · exact hset x hold
  · rcases heffect with ⟨-, hd, -⟩ | ⟨limit, ht, rfl⟩
    · rw [hd] at hnew
      cases hnew
    · rw [ht] at hnew
      obtain rfl := List.mem_singleton.1 hnew
      have hr : j.request = .shutdown limit := by
        have hreach := hfit.reaches j (List.mem_of_getElem? hj)
        rwa [ht] at hreach
      exact ⟨_, limit, List.getElem?_set_self (List.getElem?_eq_some_iff.1 hj).1, hr, fun n hn => .inl hn⟩

theorem Disposes.go (h : Disposes s) (hfit : Fit s) (howned : Owned s) (m : Move κ) : Disposes (s.go m) := by
  refine State.go_rule h m (fun r => ?_) (fun x => h) (fun i now j hj _ => ?_) (fun i j o hj _ ho => h.enter hfit hj ho)
    fun i now j hold hj hs => ?_
  · intro x hx
    obtain ⟨k, limit, hk, hr, hn⟩ := h x hx
    exact ⟨k, limit, getElem?_append_of_some hk _, hr, hn⟩
  · have hmem := List.mem_of_getElem? hj
    exact h.set hj (fun n limit hc => hc.step howned hmem now)
      fun n limit hn hr => closing_step howned hmem (hfit.reaches j hmem) hr hn now
  · obtain ⟨j', hj', hinside, -⟩ := hfit.holds i hold hs
    obtain rfl : j' = j := Option.some.inj (hj'.symm.trans hj)
    refine h.set hj (fun n limit hc => hc.hold i now hold) fun n limit hn => ?_
    rw [hinside] at hn
    cases hn

/-- Some links are found until they are made, in the registry, and then at the shutdowns that emptied it. They do
not lose their tracker to a sighting that is under way. -/
structure Traced (R : Nat → Prop) (s : State κ) : Prop where
  register : ∀ i hold, s.holder = some (i, hold) → hold.IsRegister → ∀ n, R n → s.engine.links.length ≤ n
  found : ∀ n, R n → n < s.engine.links.length → n ∈ registry s.engine ∨ ∃ x ∈ s.drained, n ∈ x.2

theorem Traced.go {R : Nat → Prop} (h : Traced R s) (hs : s.engine.stopped = true) (m : Move κ) : Traced R (s.go m) := by
  refine State.go_rule h m (fun r => ⟨h.register, h.found⟩) (fun x => ⟨h.register, h.found⟩) (fun i now j hj _ => ?_)
    (fun i j o hj _ ho => ?_) fun i now j hold hj hholder => ?_
  · obtain ⟨-, hlength, -⟩ := trackers_step s.shared now j.task
    refine ⟨fun k hold hh hr n hn => ?_, fun n hn hlt => ?_⟩
    · exact Nat.le_trans (Nat.le_of_eq hlength) (h.register k hold hh hr n hn)
    · rw [State.goFree, State.engine, registry_step]
      exact h.found n hn (Nat.lt_of_lt_of_eq hlt hlength)
  · refine ⟨fun k hold hh hr => absurd hr (enter_stopped hs ho (State.hold_of_holder hh)), fun n hn hlt => ?_⟩
    obtain ⟨-, ⟨he, -⟩ | ⟨limit, ht, rfl⟩⟩ := enter_effect ho
    · have he : (s.enter i j o).engine = s.engine := he
      rw [he] at hlt ⊢
      rcases h.found n hn hlt with hreg | ⟨x, hx, hnx⟩
      · exact .inl hreg
      · exact .inr ⟨x, List.mem_append_left _ hx, hnx⟩
    · right
      rcases h.found n hn hlt with hreg | ⟨x, hx, hnx⟩
      · refine ⟨(i, registry s.engine), List.mem_append_right _ ?_, hreg⟩
        rw [ht]
        exact List.mem_singleton.2 rfl
      · exact ⟨x, List.mem_append_left _ hx, hnx⟩
  · by_cases hr : hold.IsRegister
    · have hbound := h.register i hold hholder hr
      obtain ⟨origin, peer, endpoint, rfl⟩ := hr.eq
      rcases register_cases s.engine i now origin peer endpoint with ho | ho
      · rw [ho]
        refine ⟨fun k hold hh => ?_, fun n hn hlt => absurd hlt (Nat.not_lt.2 (hbound n hn))⟩
        cases hh
      · rw [ho]
        refine ⟨fun k hold hh hr => ?_, fun n hn hlt => .inl ?_⟩
        · obtain ⟨-, rfl⟩ := Prod.mk.inj (Option.some.inj hh)
          exact hr.elim
        · have hn : n = s.engine.links.length := by
            have := hbound n hn
            have hlt : n < (openLink s.engine peer endpoint now).links.length := hlt
            rw [openLink_eq, List.length_append, List.length_singleton] at hlt
            omega
          change n ∈ registry (openLink s.engine peer endpoint now)
          rw [hn, openLink_eq, registry, List.map_append]
          exact List.mem_append_right _ (List.mem_singleton.2 rfl)
    · obtain ⟨⟨pending, hm⟩, -, hnext⟩ := mild_hold s.engine i now hr
      refine ⟨fun k hold' hh hr' => absurd hr' (hnext hold' (State.hold_of_holder hh)), fun n hn hlt => ?_⟩
      have hreg : registry (hold.step s.engine i now).engine = registry s.engine := hm.registry
      change n ∈ registry (hold.step s.engine i now).engine ∨ _
      rw [hreg]
      exact h.found n hn (Nat.lt_of_lt_of_eq hlt hm.length)

end Activity
end PeerDiscovery
