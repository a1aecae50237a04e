import PeerDiscovery.Proofs.Activity.Shutdowns

/-! Stopping is final.
The stop flag is set first, and what was begun before that may still register a peer, send or wait for an answer.
Once it has returned, whatever is asked of the node finds the flag set, and nothing happens any more. -/
namespace PeerDiscovery
namespace Activity

open Discovery (Engine Tracker Link FindOutcome)
open Discovery.Interleaving (Call Section registry)

variable {κ : Type} {s : State κ}

/-- What a job can be at when it was begun after the stop. -/
def Request.Lingers (r : Request κ) : Task κ → Prop
  | .call (.find ..) => True
  | .call (.sight ..) => True
  | .call (.drain _) => True
  | .call (.close ..) => ∃ limit, r = .shutdown limit
  | .call (.done outcome) => outcome = none ∨ outcome = some .stopped
  | .call _ => False
  | .spread _ => False
  | .announced count => count = 0
  | _ => True

theorem lingers_task (r : Request κ) (self : PeerId) : r.Lingers (r.task self) := by
  cases r with
  | beacon b =>
    simp only [Request.task, Discovery.Interleaving.Request.call]
    split
    · exact .inl rfl
    · trivial
  | hello sender address port =>
    simp only [Request.task, Discovery.Interleaving.Request.call]
    split
    · exact .inl rfl
    · split
      · exact .inl rfl
      · trivial
  | _ => trivial

theorem lingers_step {r : Request κ} {t : Task κ} (h : r.Lingers t) {w : Shared κ} (hs : w.engine.stopped = true)
    (now : Nat) : r.Lingers (t.step w now).2 := by
  cases t with
  | call c =>
    cases c with
    | find facts k =>
      have hstep : ((Task.call (.find facts k)).step w now).2 = .call (.done (some .stopped)) := by
        simp [Task.step, Call.step, hs]
      rw [hstep]
      exact .inr rfl
    | close links limit =>
      cases links with
      | nil => exact .inl rfl
      | cons n links => exact h
    | sight | drain | done => exact h
    | lookUp | number | remember | submit | stop | inside => exact h.elim
  | announce facts =>
    have hstep : ((Task.announce facts).step w now).2 = .announced 0 := by simp [Task.step, hs]
    rw [hstep]
    rfl
  | spread facts => exact h.elim
  | announced count => exact h
  | note facts =>
    simp only [Task.step]
    split <;> trivial
  | start o =>
    simp only [Task.step]
    split <;> trivial
  | listen o =>
    simp only [Task.step]
    split
    · trivial
    · split <;> trivial
  | broadcast o =>
    simp only [Task.step]
    split <;> trivial
  | await loops limit => cases loops <;> trivial
  | pump =>
    simp only [Task.step]
    split <;> trivial
  | tell u services => cases services <;> trivial
  | host | name | started | stop | hush | join | inform | brief | finished => trivial

theorem lingers_enter {r : Request κ} {t : Task κ} (h : r.Lingers t) (hreach : r.Reaches t) {e : Engine κ}
    (hs : e.stopped = true) {i : Nat} {o : Outcome κ} (ho : t.enter? e i = some o) : o.hold = none ∧ r.Lingers o.task := by
  rcases enter_cases ho with ⟨query, rfl, -⟩ | ⟨_, _, _, rfl, ⟨-, rfl⟩ | ⟨hs', rfl⟩⟩ | ⟨limit, rfl, rfl⟩ | ⟨facts, rfl, -⟩
  · exact h.elim
  · exact ⟨rfl, .inl rfl⟩
  · exact absurd (hs.symm.trans hs') Bool.noConfusion
  · exact ⟨rfl, limit, hreach⟩
  · exact h.elim

/-- The jobs from a number on were begun after the stop, and no query among them has told anybody of an endpoint. -/
structure Late (N : Nat) (s : State κ) : Prop where
  lingers : ∀ i j, N ≤ i → s.jobs[i]? = some j → j.request.Lingers j.task
  told : ∀ x ∈ s.told, N ≤ x.1 → ∃ j, s.jobs[x.1]? = some j ∧ ¬j.request.IsFind

namespace Late

variable {N : Nat}

theorem lingers_set (h : Late N s) {i : Nat} {j : Job κ} {t : Task κ} (ht : N ≤ i → j.request.Lingers t) :
    ∀ k j', N ≤ k → (s.jobs.set i { j with task := t })[k]? = some j' → j'.request.Lingers j'.task := by
  intro k j' hk hj'
  rcases getElem?_set_cases hj' with ⟨rfl, rfl⟩ | ⟨-, hj'⟩
  · exact ht hk
  · exact h.lingers k j' hk hj'

theorem told_set (h : Late N s) {i : Nat} {j : Job κ} (hj : s.jobs[i]? = some j) (t : Task κ) :
    ∀ x ∈ s.told, N ≤ x.1 → ∃ j', (s.jobs.set i { j with task := t })[x.1]? = some j' ∧ ¬j'.request.IsFind := by
  intro x hx hN
  obtain ⟨k, hk, hr⟩ := h.told x hx hN
  by_cases hi : i = x.1
  · subst hi
    obtain rfl : j = k := Option.some.inj (hj.symm.trans hk)
    exact ⟨_, List.getElem?_set_self (List.getElem?_eq_some_iff.1 hj).1, hr⟩
  · exact ⟨k, (List.getElem?_set_ne hi).trans hk, hr⟩

theorem begin (h : Late N s) (r : Request κ) : Late N (s.go (.begin r)) := by
  refine ⟨fun i j hi hj => ?_, fun x hx hN => ?_⟩
  · rcases getElem?_concat_cases hj with hj | ⟨-, rfl⟩
    · exact h.lingers i j hi hj
    · exact lingers_task r _
  · obtain ⟨j, hj, hr⟩ := h.told x hx hN
    exact ⟨j, getElem?_append_of_some hj _, hr⟩

theorem goFree (h : Late N s) (hfit : Fit s) (hs : s.engine.stopped = true) {i : Nat} {j : Job κ} (hj : s.jobs[i]? = some j)
    (now : Nat) : Late N (s.goFree i now j) := by
  refine ⟨h.lingers_set fun hi => lingers_step (h.lingers i j hi hj) hs now, fun x hx hN => ?_⟩
  rcases List.mem_append.1 hx with hx | hx
  · exact h.told_set hj _ x hx hN
  · obtain ⟨call, hcall, rfl⟩ := List.mem_map.1 hx
    have hlingers := h.lingers i j hN hj
    have hreach := hfit.reaches j (List.mem_of_getElem? hj)
    refine ⟨_, List.getElem?_set_self (List.getElem?_eq_some_iff.1 hj).1, ?_⟩
    rintro ⟨facts, k, hfind⟩
    have hfind : j.request = .find facts k := hfind
    cases ht : j.task with
    | brief b =>
      rw [ht] at hreach
      cases hfind.symm.trans hreach
    | call c =>
      rw [ht] at hcall hlingers
      cases c with
      | lookUp => exact hlingers
      | _ => cases hcall
    | _ =>
      rw [ht] at hcall
      cases hcall

theorem go (h : Late N s) (hfit : Fit s) (hs : s.engine.stopped = true) (m : Move κ) : Late N (s.go m) := by
  refine State.go_rule h m h.begin (fun _ => ⟨h.lingers, h.told⟩) (fun i now j hj _ => h.goFree hfit hs hj now)
    (fun i j o hj _ ho => ?_) fun i now j hold hj hholder => ?_
  · refine ⟨h.lingers_set fun hi => ?_, h.told_set hj _⟩
    exact (lingers_enter (h.lingers i j hi hj) (hfit.reaches j (List.mem_of_getElem? hj)) hs ho).2
  · refine ⟨h.lingers_set fun hi => ?_, h.told_set hj _⟩
    obtain ⟨j', hj', hinside, -⟩ := hfit.holds i hold hholder
    obtain rfl : j' = j := Option.some.inj (hj'.symm.trans hj)
    have hlingers := h.lingers i j' hi hj
    rw [hinside] at hlingers
    exact hlingers.elim

end Late

/-- A job that has returned. -/
def Task.IsReturned : Task κ → Prop
  | .call (.done _) => True
  | .announced _ => True
  | .started _ => True
  | .finished => True
  | _ => False

theorem step_of_returned {t : Task κ} (h : t.IsReturned) (w : Shared κ) (now : Nat) : t.step w now = (w, t) := by
  cases t with
  | call c =>
    cases c with
    | done => rfl
    | _ => exact h.elim
  | announced | started | finished => rfl
  | _ => exact h.elim

theorem enter_of_returned {t : Task κ} (h : t.IsReturned) (e : Engine κ) (i : Nat) : t.enter? e i = none := by
  cases t with
  | call c =>
    cases c with
    | done => rfl
    | _ => exact h.elim
  | spread => exact h.elim
  | _ => rfl

/-- No link is made, no query begins to wait, and nobody new is waiting for an answer. -/
structure Dwindles (e e' : Engine κ) : Prop where
  links : e'.links.length = e.links.length
  pending : e'.pending = e.pending
  inFlight : e'.inFlight.Sublist e.inFlight

theorem Dwindles.refl (e : Engine κ) : Dwindles e e := ⟨rfl, rfl, .refl _⟩

theorem Dwindles.trans {e e' e'' : Engine κ} (h : Dwindles e e') (h' : Dwindles e' e'') : Dwindles e e'' :=
  ⟨h'.links.trans h.links, h'.pending.trans h.pending, h'.inFlight.trans h.inFlight⟩

theorem dwindles_announceTo (e : Engine κ) (facts : FactSet) (n : Nat) : Dwindles e (e.announceTo facts n).1 := by
  have hm := Mild.announceTo e facts n
  refine ⟨hm.length, hm.pending, ?_⟩
  rw [show (e.announceTo facts n).1 = _ from Engine.deliver_eq ..]
  exact .refl _

theorem dwindles_step (w : Shared κ) (now : Nat) {t : Task κ} (ht : ∀ query k, t ≠ .call (.remember query k)) :
    Dwindles w.engine (t.step w now).1.engine := by
  rcases step_cases w now t with ⟨_, _, _, _, _, hw, -⟩ | ⟨n, links, limit, rfl⟩ | ⟨query, k, rfl⟩ | ⟨facts, rfl⟩ |
    ⟨limit, rfl | rfl⟩ | ⟨engine, u, rfl, hnext⟩ | ⟨u, facts, services, rfl⟩ | ⟨b, rfl⟩
  · rw [hw]
    exact ⟨rfl, rfl, .refl _⟩
  · exact ⟨List.length_modify .., rfl, .refl _⟩
  · exact absurd rfl (ht query k)
  · exact .refl _
  · exact ⟨rfl, rfl, .refl _⟩
  · exact ⟨rfl, rfl, .refl _⟩
  · obtain ⟨s, rest, -, -, rfl⟩ := Engine.takeNext?_eq hnext
    simp only [Task.step, hnext]
    exact ⟨rfl, rfl, .refl _⟩
  · exact dwindles_announceTo w.engine facts u.link
  · cases b with
    | response m =>
      obtain ⟨inFlight, hsub, he⟩ := w.engine.onResponse_eq m
      simp only [Task.step, Brief.perform, he]
      exact ⟨rfl, rfl, hsub⟩
    | announceTo facts n => exact dwindles_announceTo w.engine facts n
    | subscribe | fill => exact ⟨rfl, rfl, .refl _⟩
    | fail n => exact ⟨List.length_modify .., rfl, .refl _⟩

/-- After the stop, when all that was begun before has returned. -/
structure Ended (s : State κ) : Prop where
  fit : Fit s
  stopped : s.engine.stopped = true
  trackers : s.engine.trackers = []
  jobs : ∀ j ∈ s.jobs, j.request.Lingers j.task ∨ j.task.IsReturned

namespace Ended

theorem holder (h : Ended s) : s.holder = none := by
  cases hh : s.holder with
  | none => rfl
  | some x =>
    obtain ⟨j, hj, hinside, -⟩ := h.fit.holds x.1 x.2 hh
    have hjob := h.jobs j (List.mem_of_getElem? hj)
    rw [hinside] at hjob
    rcases hjob with hjob | hjob
    · exact hjob.elim
    · exact hjob.elim

theorem begin (h : Ended s) (r : Request κ) : Ended (s.go (.begin r)) :=
  ⟨h.fit.begin r, h.stopped, h.trackers, forall_mem_concat h.jobs (.inl (lingers_task r _))⟩

theorem goFree (h : Ended s) {i : Nat} {j : Job κ} (hj : s.jobs[i]? = some j) (hf : s.IsFree i j) (now : Nat) :
    Ended (s.goFree i now j) ∧ Dwindles s.engine (s.goFree i now j).engine := by
  obtain ⟨htrackers, -, hstopped⟩ := trackers_step s.shared now j.task
  have hjob := h.jobs j (List.mem_of_getElem? hj)
  have hremember : ∀ query k, j.task ≠ .call (.remember query k) := by
    intro query k ht
    rw [ht] at hjob
    exact hjob.elim id id
  refine ⟨⟨h.fit.goFree hj hf now, hstopped h.stopped, htrackers.trans h.trackers, forall_mem_set h.jobs i ?_⟩,
    dwindles_step s.shared now hremember⟩
  rcases hjob with hjob | hjob
  · exact .inl (lingers_step hjob h.stopped now)
  · rw [step_of_returned hjob]
    exact .inr hjob

theorem enter (h : Ended s) {i : Nat} {j : Job κ} {o : Outcome κ} (hj : s.jobs[i]? = some j)
    (ho : j.task.enter? s.engine i = some o) : Ended (s.enter i j o) ∧ Dwindles s.engine (s.enter i j o).engine := by
  have hmem := List.mem_of_getElem? hj
  have hlingers : j.request.Lingers o.task := by
    rcases h.jobs j hmem with hjob | hjob
    · exact (lingers_enter hjob (h.fit.reaches j hmem) h.stopped ho).2
    · rw [enter_of_returned hjob] at ho
      cases ho
  have he : o.engine.trackers = [] ∧ Dwindles s.engine o.engine := by
    obtain ⟨-, ⟨he, -⟩ | ⟨limit, -, rfl⟩⟩ := enter_effect ho
    · rw [he]
      exact ⟨h.trackers, .refl _⟩
    · exact ⟨rfl, rfl, rfl, .refl _⟩
  exact ⟨⟨h.fit.enter hj ho, (stopped_enter ho).trans h.stopped, he.1, forall_mem_set h.jobs i (.inl hlingers)⟩, he.2⟩

theorem go (h : Ended s) (m : Move κ) : Ended (s.go m) ∧ Dwindles s.engine (s.go m).engine := by
  refine State.go_rule (P := fun s' => Ended s' ∧ Dwindles s.engine s'.engine) ⟨h, .refl _⟩ m (fun r => ⟨h.begin r, .refl _⟩)
    (fun x => ⟨⟨h.fit.go _, h.stopped, h.trackers, h.jobs⟩, .refl _⟩) (fun i now j hj hf => h.goFree hj hf now)
    (fun i j o hj _ ho => h.enter hj ho) fun i now j hold _ hs => ?_
  rw [h.holder] at hs
  cases hs

theorem run (h : Ended s) (ms : List (Move κ)) : Ended (s.run ms) ∧ Dwindles s.engine (s.run ms).engine := by
  refine State.run_rule (P := fun s' => Ended s' ∧ Dwindles s.engine s'.engine) (fun s' m hs => ?_) ⟨h, .refl _⟩ ms
  obtain ⟨he, hd⟩ := hs.1.go m
  exact ⟨he, hs.2.trans hd⟩

end Ended

/-- Besides, every link was closed and the station is silent. -/
structure Sealed (s : State κ) : Prop extends Ended s where
  shut : ∀ l ∈ s.engine.links, l.closes ≠ [] ∧ l.accepting = false
  closing : ∀ j ∈ s.jobs, j.task.closing = []
  silent : s.shared.air.IsSilent

theorem links_of_mild {e e' : Engine κ} (hm : Mild e e') (hl : ∀ l ∈ e.links, l.accepting = false) : e'.links = e.links := by
  refine List.ext_getElem? fun n => ?_
  cases hn : e.links[n]? with
  | none => rwa [List.getElem?_eq_none_iff, hm.length, ← List.getElem?_eq_none_iff]
  | some l =>
    obtain ⟨l', hl', hlater⟩ := hm.links n l hn
    rw [hl', hlater.refused (hl l (List.mem_of_getElem? hn))]

namespace Sealed

theorem go (h : Sealed s) (m : Move κ) :
    Sealed (s.go m) ∧ (s.go m).engine.links = s.engine.links ∧ s.shared.air.Still (s.go m).shared.air := by
  refine State.go_rule
    (P := fun s' => Sealed s' ∧ s'.engine.links = s.engine.links ∧ s.shared.air.Still s'.shared.air) ⟨h, rfl, .refl _⟩ m
    (fun r => ?_) (fun x => ?_) (fun i now j hj hf => ?_) (fun i j o hj _ ho => ?_) fun i now j hold _ hs => ?_
  · exact ⟨⟨h.begin r, h.shut, forall_mem_concat h.closing (closing_of_request r _), h.silent⟩, rfl, .refl _⟩
  · obtain ⟨hsilent, hstill⟩ := h.silent.stir x
    exact ⟨⟨(h.toEnded.go (.stir x)).1, h.shut, h.closing, hsilent⟩, rfl, hstill⟩
  · have hjob := h.closing j (List.mem_of_getElem? hj)
    have hnone : ∀ n links limit, j.task ≠ .call (.close (n :: links) limit) := by
      intro n links limit ht
      rw [ht] at hjob
      cases hjob
    obtain ⟨hm, hc⟩ := mild_step s.shared now hnone
    have hlinks : (s.goFree i now j).engine.links = s.engine.links := links_of_mild hm fun l hl => (h.shut l hl).2
    obtain ⟨hsilent, hstill⟩ := silent_step s.shared now j.task h.silent
    refine ⟨⟨(h.toEnded.goFree hj hf now).1, hlinks ▸ h.shut, ?_, hsilent⟩, hlinks, hstill⟩
    exact forall_mem_set h.closing i (hc.trans hjob)
  · obtain ⟨-, heffect⟩ := enter_effect ho
    have ho' : o.engine.links = s.engine.links ∧ o.task.closing = [] := by
      rcases heffect with ⟨he, -, hc, -⟩ | ⟨limit, -, rfl⟩
      · exact ⟨by rw [he], hc⟩
      · refine ⟨rfl, ?_⟩
        change registry s.engine = []
        rw [registry, h.trackers, List.map_nil]
    have hlinks : (s.enter i j o).engine.links = s.engine.links := ho'.1
    exact ⟨⟨(h.toEnded.enter hj ho).1, hlinks ▸ h.shut, forall_mem_set h.closing i ho'.2, h.silent⟩, hlinks, .refl _⟩
  · rw [h.holder] at hs
    cases hs

theorem run (h : Sealed s) (ms : List (Move κ)) :
    (s.run ms).engine.links = s.engine.links ∧ s.shared.air.Still (s.run ms).shared.air := by
  have hh := State.run_rule
    (P := fun s' => Sealed s' ∧ s'.engine.links = s.engine.links ∧ s.shared.air.Still s'.shared.air) (fun s' m hs => ?_)
    ⟨h, rfl, .refl _⟩ ms
  · exact hh.2
  · obtain ⟨hsealed, hlinks, hstill⟩ := hs.1.go m
    exact ⟨hsealed, hlinks.trans hs.2.1, hs.2.2.trans hstill⟩

end Sealed

/-- A node of which nothing was asked yet, at a station that has begun no loop. -/
def State.unused (e : Engine κ) (interval : Nat) (hosted : List FactSet) (subscriber : Nat) : State κ where
  shared :=
    { engine := { e with stopped := false, trackers := [], links := [] }, air := { station := { interval } }, hosted,
      subscriber }

structure Orderly (s : State κ) : Prop where
  fit : Fit s
  owned : Owned s
  hushed : Hushed s
  disposes : Disposes s
  shutdowns : Shutdowns s
  told : ∀ x ∈ s.told, x.1 < s.jobs.length

theorem told_go (h : ∀ x ∈ s.told, x.1 < s.jobs.length) (m : Move κ) : ∀ x ∈ (s.go m).told, x.1 < (s.go m).jobs.length := by
  refine State.go_rule (P := fun s => ∀ x ∈ s.told, x.1 < s.jobs.length) h m (fun r x hx => ?_) (fun _ => h)
    (fun i now j hj _ x hx => ?_) (fun i j o _ _ _ x hx => ?_) fun i now j hold _ _ x hx => ?_
  · exact Nat.lt_of_lt_of_le (h x hx) (s.jobs_length_go (.begin r))
  · rw [State.goFree, List.length_set]
    rcases List.mem_append.1 hx with hx | hx
    · exact h x hx
    · obtain ⟨call, -, rfl⟩ := List.mem_map.1 hx
      exact (List.getElem?_eq_some_iff.1 hj).1
  · simpa [State.enter, State.settle] using h x hx
  · simpa [State.settle] using h x hx

theorem Orderly.go (h : Orderly s) (m : Move κ) : Orderly (s.go m) :=
  ⟨h.fit.go m, h.owned.go h.fit m, h.hushed.go h.fit m, h.disposes.go h.fit h.owned m,
    h.shutdowns.go h.fit h.hushed.regular m, told_go h.told m⟩

/-- What holds from the moment on when the stop flag was set: `N` jobs there are then, and the links in `R` are
those that a shutdown must not miss. -/
structure Fading (N : Nat) (R : Nat → Prop) (s : State κ) : Prop where
  orderly : Orderly s
  stopped : s.engine.stopped = true
  late : Late N s
  traced : Traced R s

theorem Fading.go {N : Nat} {R : Nat → Prop} (h : Fading N R s) (m : Move κ) : Fading N R (s.go m) :=
  ⟨h.orderly.go m, stopped_go h.stopped m, h.late.go h.orderly.fit h.stopped m, h.traced.go h.stopped m⟩

theorem Orderly.late (h : Orderly s) : Late s.jobs.length s := by
  refine ⟨fun i j hi hj => ?_, fun x hx hN => ?_⟩
  · exact absurd (List.getElem?_eq_some_iff.1 hj).1 (Nat.not_lt.2 hi)
  · exact absurd (h.told x hx) (Nat.not_lt.2 hN)

/-- When the registry is empty and all that was begun before has returned. -/
theorem Late.ended {N : Nat} (h : Late N s) (hfit : Fit s) (hs : s.engine.stopped = true) (hc : Cleared s)
    (hreturned : ∀ i j, i < N → s.jobs[i]? = some j → j.request ≠ .pump → j.task.IsReturned) : Ended s := by
  refine ⟨hfit, hs, hc.trackers, fun j hj => ?_⟩
  obtain ⟨i, hi⟩ := List.getElem?_of_mem hj
  by_cases hN : i < N
  · by_cases hp : j.request = .pump
    · have hreach := hfit.reaches j hj
      rw [hp] at hreach
      rcases Request.reaches_pump hreach with ht | ⟨u, ht⟩ | ⟨u, services, ht⟩ <;> rw [ht] <;> exact .inl trivial
    · exact .inr (hreturned i j hN hi hp)
  · exact .inl (h.lingers i j (Nat.le_of_not_lt hN) hi)

/-- What holds once a shutdown has returned: `M` jobs there are then. Only those wait for loops that are not mute, or have
links to close; a shutdown that begins later finds none. -/
structure Waning (M : Nat) (s : State κ) : Prop where
  cleared : Cleared s
  gathered : Gathered s.shared.air
  late : Late M s
  awaited : ∀ loop, s.shared.air.IsMute loop ∨
    ∃ i j, i < M ∧ s.jobs[i]? = some j ∧ ∃ loops limit, j.task = .await loops limit ∧ loop ∈ loops
  closing : ∀ i j, M ≤ i → s.jobs[i]? = some j → j.task.closing = []

namespace Waning

variable {M : Nat}

theorem awaited_go (h : Waning M s) (ho : Orderly s) (m : Move κ) (loop : Nat) : (s.go m).shared.air.IsMute loop ∨
    ∃ i j, i < M ∧ (s.go m).jobs[i]? = some j ∧ ∃ loops limit, j.task = .await loops limit ∧ loop ∈ loops := by
  rcases h.awaited loop with hm | ⟨i, j, hi, hj, loops, limit, ht, hloop⟩
  · exact .inl ((air_go ho.hushed.regular h.gathered.stopped m).2.2 loop hm)
  · have hlt : i < (s.go m).jobs.length := Nat.lt_of_lt_of_le (List.getElem?_eq_some_iff.1 hj).1 (s.jobs_length_go m)
    have hj' := List.getElem?_eq_getElem hlt
    rcases State.jobs_go hj' with hsame | ⟨rfl, -⟩ | ⟨j₁, hj₁, -, hstep⟩
    · obtain rfl := Option.some.inj (hsame.symm.trans hj)
      exact .inr ⟨i, _, hi, hj', loops, limit, ht, hloop⟩
    · exact absurd (List.getElem?_eq_some_iff.1 hj).1 (Nat.lt_irrefl _)
    · obtain rfl := Option.some.inj (hj₁.symm.trans hj)
      rcases hstep with ⟨now, -, hgo, hnext⟩ | ⟨o, -, henter, -⟩ | ⟨hold, hholder⟩
      · cases loops with
        | nil => cases hloop
        | cons first loops =>
          rw [ht] at hnext
          rcases List.mem_cons.1 hloop with rfl | hloop
          · left
            rw [hgo, State.goFree, ht]
            exact Beacon.Air.isMute_abort s.shared.air loop
          · exact .inr ⟨i, _, hi, hj', loops, limit, hnext, hloop⟩
      · rw [ht] at henter
        cases henter
      · obtain ⟨j₂, hj₂, hinside, -⟩ := ho.fit.holds i hold hholder
        obtain rfl := Option.some.inj (hj₂.symm.trans hj)
        cases hinside.symm.trans ht

theorem closing_go (h : Waning M s) (hfit : Fit s) (m : Move κ) {i : Nat} {j' : Job κ} (hi : M ≤ i)
    (hj' : (s.go m).jobs[i]? = some j') : j'.task.closing = [] := by
  rcases State.jobs_go hj' with hsame | ⟨-, r, rfl⟩ | ⟨j, hj, -, ⟨now, -, -, ht⟩ | ⟨o, -, ho, -, ht⟩ | ⟨hold, hholder⟩⟩
  · exact h.closing i j' hi hsame
  · exact closing_of_request r _
  · have hjob := h.closing i j hi hj
    rw [ht, (mild_step s.shared now fun n links limit hclose => ?_).2, hjob]
    rw [hclose] at hjob
    cases hjob
  · rw [ht]
    obtain ⟨-, ⟨-, -, hclosing, -⟩ | ⟨limit, -, rfl⟩⟩ := enter_effect ho
    · exact hclosing
    · change registry s.engine = []
      rw [registry, h.cleared.trackers, List.map_nil]
  · obtain ⟨j₁, hj₁, hinside, -⟩ := hfit.holds i hold hholder
    have hlingers := h.late.lingers i j₁ hi hj₁
    rw [hinside] at hlingers
    exact hlingers.elim

theorem go (h : Waning M s) (ho : Orderly s) (hs : s.engine.stopped = true) (m : Move κ) : Waning M (s.go m) :=
  ⟨(h.cleared.go hs m).1, h.gathered.go ho.hushed.regular m, h.late.go ho.fit hs m, h.awaited_go ho m,
    fun _ _ hi hj => h.closing_go ho.fit m hi hj⟩

end Waning

end Activity
end PeerDiscovery
