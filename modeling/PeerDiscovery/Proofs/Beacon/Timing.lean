import PeerDiscovery.Proofs.Beacon.Schedule

/-! Beacons of a host that runs by itself.
A station whose time passes by waiting runs a course on which nothing is asked of it (`Alike`), so that its beacons are on
schedule however the waiting is split and whichever of them a fault hits: `beacons_on_schedule`. -/
namespace PeerDiscovery
namespace Beacon

open Scenario (Airing)

namespace Course

/-- With nothing asked of it one course becomes the other in so much time. -/
def Goes (c : Course) (millis : Nat) (c' : Course) : Prop :=
  ∃ steps, c.Runs steps ∧ (∀ s ∈ steps, ∀ m, s ≠ .call m) ∧ elapsed steps = millis ∧ c' = c.run steps

namespace Goes

variable {c c' c'' : Course} {millis millis' : Nat}

theorem refl (c : Course) : c.Goes 0 c := ⟨[], trivial, fun _ hs => absurd hs List.not_mem_nil, rfl, rfl⟩

theorem trans (h : c.Goes millis c') (h' : c'.Goes millis' c'') : c.Goes (millis + millis') c'' := by
  obtain ⟨steps, hruns, hown, rfl, rfl⟩ := h
  obtain ⟨steps', hruns', hown', rfl, rfl⟩ := h'
  refine ⟨steps ++ steps', runs_append.2 ⟨hruns, hruns'⟩, fun s hs => ?_, ?_, (run_append c steps steps').symm⟩
  · exact (List.mem_append.1 hs).elim (hown s) (hown' s)
  · rw [elapsed, List.map_append, List.sum_append]
    rfl

theorem of_step {s : Step} (hmay : c.May s) (hs : ∀ m, s ≠ .call m) : c.Goes s.millis (c.act s) := by
  refine ⟨[s], ⟨hmay, trivial⟩, fun t ht => List.mem_singleton.1 ht ▸ hs, ?_, rfl⟩
  simp [elapsed]

theorem now_eq (h : c.Goes millis c') : c'.now = c.now + millis := by
  obtain ⟨steps, -, -, rfl, rfl⟩ := h
  exact now_run c steps

end Goes

/-- The beacons that went out whole. -/
def whole (c : Course) : List Bytes := (c.attempts.filter fun a => a.fate = .whole).map Attempt.bytes

/-- How many beacons were lost. -/
def lost (c : Course) : Nat := (c.attempts.filter fun a => a.fate ≠ .whole).length

theorem whole_eq {c : Course} {start interval n : Nat} {bytes : Bytes}
    (h : (c.attempts.map fun x => (x.time, x.bytes)) = timetable start interval bytes n) :
    c.lost ≤ n ∧ c.whole = List.replicate (n - c.lost) bytes := by
  have hlength : c.attempts.length = n := by simpa [timetable] using congrArg List.length h
  have hsplit : c.attempts.length = c.whole.length + c.lost := by
    rw [whole, lost, List.length_map, List.length_eq_length_filter_add fun a : Attempt => decide (a.fate = .whole)]
    simp
  refine ⟨by omega, List.eq_replicate_iff.2 ⟨by omega, fun b hb => ?_⟩⟩
  obtain ⟨x, hx, rfl⟩ := List.mem_map.1 hb
  have hmem : (x.time, x.bytes) ∈ timetable start interval bytes n := h ▸ List.mem_map_of_mem (List.mem_filter.1 hx).1
  obtain ⟨k, -, hk⟩ := List.mem_map.1 hmem
  exact (congrArg Prod.snd hk).symm

end Course

/-- What someone does who only waits, or makes the next beacon fail, and then lets everything settle. -/
inductive Pace where
  | wait (millis : Nat)
  | fault

namespace Pace

def millis : Pace → Nat
  | wait millis => millis
  | fault => 0

def faults : Pace → Nat
  | wait _ => 0
  | fault => 1

def go (a : Airing) : Pace → Airing
  | wait millis => (a.pass millis).settle
  | fault => (a.fault fun f => { f with send := f.send + 1 }).settle

end Pace

theorem Sender.rests_of_step? {s s' : Sender} {stopped : Bool} {interval now : Nat} {sent : Option Bytes}
    (hs : s.step? stopped interval now = some (s', sent)) (hnext : s.active = true → now < s.next + interval) :
    s'.step? stopped interval now = none ∧ (s'.active = true → now < s'.next) := by
  cases stopped with
  | true =>
    rw [step?_true] at hs
    split at hs
    · cases hs
      exact ⟨by rw [step?_true]; rfl, nofun⟩
    · cases hs
  | false =>
    cases ha : s.active with
    | false => simp [step?, ha] at hs
    | true =>
      rw [step?_false ha] at hs
      split at hs
      · cases hs
        refine ⟨?_, fun _ => hnext ha⟩
        rw [step?_false (s := { s with next := s.next + interval }) ha]
        exact if_neg (Nat.not_le.2 (hnext ha))
      · cases hs

/-- An airing in which a single loop sends, and its course: what was tried, what an observer has seen since the beginning,
and how many faults have been used up. -/
structure Alike (a₀ a : Airing) (faults : Nat) (c : Course) : Prop where
  station : a.station = c.air.station
  interval_pos : 0 < c.air.station.interval
  lone : ∃ s, c.air.station.loops = [.sender s] ∧ (s.active = true → c.now < s.next + c.air.station.interval)
  aware : c.air.unaware = if c.air.station.stopped then [] else [0]
  now : a.network.now = c.now
  attempts : a.attempts = a₀.attempts ++ c.attempts.map fun x => (x.time, x.bytes)
  up : a.network.up = a₀.network.up
  observer : a.observer = a₀.observer.map fun seen => seen ++ if a.network.up then c.whole else []
  faults : c.lost + a.network.faults.send = a₀.network.faults.send + faults

namespace Alike

variable {a₀ a a' : Airing} {faults : Nat} {c : Course}

theorem listener?_eq (h : Alike a₀ a faults c) : a.station.listener? = none := by
  obtain ⟨s, hs, -⟩ := h.lone
  rw [Station.listener?, h.station, hs]
  rfl

theorem wakeTime?_eq {s : Sender} (hs : c.air.station.loops = [.sender s]) :
    c.air.station.wakeTime? = if s.active then some s.next else none := by
  rw [Station.wakeTime?, hs]
  cases ha : s.active <;> simp [Loop.wakeTime?, ha]

theorem rests_iff {s : Sender} (hs : c.air.station.loops = [.sender s]) :
    c.Rests ↔ s.step? c.air.station.stopped c.air.station.interval c.now = none := by
  rw [Course.Rests, Station.step?_eq_none_iff, hs, List.forall_mem_singleton, Loop.step?, Option.map_eq_none_iff]

theorem round?_eq (h : Alike a₀ a faults c) {s : Sender} (hs : c.air.station.loops = [.sender s]) :
    c.air.round? 0 c.now = (Loop.sender s).step? c.air.station.stopped c.air.station.interval c.now := by
  have haware : decide (0 ∉ c.air.unaware) = c.air.station.stopped := by
    rw [h.aware]
    cases c.air.station.stopped <;> simp
  rw [Air.round?, hs, haware]
  rfl

theorem act_round {s s' : Sender} {sent : Option Bytes} (hs : c.air.station.loops = [.sender s])
    (hround : c.air.round? 0 c.now = some (.sender s', sent)) (fate : Fate) :
    c.act (.round 0 fate) =
      ⟨⟨{ c.air.station with loops := [.sender s'] }, c.air.unaware, c.air.sent ++ sent.toList⟩, c.now,
        c.attempts ++ sent.toList.map fun bytes => ⟨0, c.now, bytes, fate⟩⟩ := by
  simp [Course.act, Course.due, Air.stir, Air.modifyLoop, hround, hs]

theorem attempts_sends (h : Alike a₀ a faults c) (bytes : Bytes) (fate : Fate) :
    a.attempts ++ [(a.network.now, bytes)] =
      a₀.attempts ++ (c.attempts ++ [(⟨0, c.now, bytes, fate⟩ : Attempt)]).map fun x => (x.time, x.bytes) := by
  simp [h.attempts, h.now]

section

variable {s s' : Sender} (hs : c.air.station.loops = [.sender s])
  (hnext : s'.active = true → c.now < s'.next + c.air.station.interval)

include hs hnext

theorem still (h : Alike a₀ a faults c) (hround : c.air.round? 0 c.now = some (.sender s', none)) (fate : Fate) :
    Alike a₀ { a with station := { c.air.station with loops := [.sender s'] } } faults (c.act (.round 0 fate)) := by
  have hact := act_round hs hround fate
  rw [Option.toList_none, List.map_nil, List.append_nil, List.append_nil] at hact
  rw [hact]
  exact ⟨rfl, h.interval_pos, ⟨s', rfl, hnext⟩, h.aware, h.now, h.attempts, h.up, h.observer, h.faults⟩

theorem sends_lost (h : Alike a₀ a faults c) {bytes : Bytes}
    (hround : c.air.round? 0 c.now = some (.sender s', some bytes)) (hfault : a.network.faults.send ≠ 0) :
    Alike a₀ (Airing.emit { a with station := { c.air.station with loops := [.sender s'] } } bytes) faults
      (c.act (.round 0 .short)) := by
  have hlost : c.lost + 1 + (a.network.faults.send - 1) = a₀.network.faults.send + faults := by
    rw [← h.faults]
    omega
  rw [act_round hs hround]
  simp only [Airing.emit, Net.Network.sendFault?, if_neg hfault]
  refine ⟨rfl, h.interval_pos, ⟨s', rfl, hnext⟩, h.aware, h.now, h.attempts_sends bytes .short, h.up, ?_, ?_⟩
  · simpa [Course.whole] using h.observer
  · simpa [Course.lost] using hlost

theorem sends_whole (h : Alike a₀ a faults c) {bytes : Bytes}
    (hround : c.air.round? 0 c.now = some (.sender s', some bytes)) (hfault : a.network.faults.send = 0) :
    Alike a₀ (Airing.emit { a with station := { c.air.station with loops := [.sender s'] } } bytes) faults
      (c.act (.round 0 .whole)) := by
  have hattempts := h.attempts_sends bytes .whole
  have hobserver := h.observer
  rw [act_round hs hround]
  simp only [Airing.emit, Net.Network.sendFault?, if_pos hfault, Airing.datagram]
  cases hup : a.network.up with
  | false =>
    refine ⟨rfl, h.interval_pos, ⟨s', rfl, hnext⟩, h.aware, h.now, hattempts, h.up, ?_, ?_⟩
    · simp [hobserver, hup]
    · simpa [Course.lost] using h.faults
  | true =>
    rw [if_pos hup] at hobserver
    cases hseen : a₀.observer with
    | none =>
      rw [hseen] at hobserver
      simp only [hobserver, Option.map_none]
      have hstation : Station.arrive { c.air.station with loops := [.sender s'] } (.datagram bytes Airing.home) =
          { c.air.station with loops := [.sender s'] } := rfl
      refine ⟨hstation, h.interval_pos, ⟨s', rfl, hnext⟩, h.aware, h.now, hattempts, h.up, ?_, ?_⟩
      · simp [hseen]
      · simpa [Course.lost] using h.faults
    | some seen =>
      rw [hseen] at hobserver
      simp only [hobserver, Option.map_some]
      refine ⟨rfl, h.interval_pos, ⟨s', rfl, hnext⟩, h.aware, h.now, hattempts, h.up, ?_, ?_⟩
      · simp [hseen, hup, Course.whole]
      · simpa [Course.lost] using h.faults

end

/-- What a station with one loop does by itself is a round of that loop, after which it rests. -/
theorem work (h : Alike a₀ a faults c) :
    (c.Rests ∧ a.work? = none) ∨
    (¬c.Rests ∧ ∃ a' fate, a.work? = some a' ∧ Alike a₀ a' faults (c.act (.round 0 fate)) ∧
      (c.act (.round 0 fate)).Rests) := by
  obtain ⟨s, hs, hdue⟩ := h.lone
  have hround := h.round?_eq hs
  have hwork : a.work? = a.stationWork? := by
    rw [Airing.work?, Airing.faultWork?, h.listener?_eq]
    cases a.stationWork? <;> rfl
  rw [hwork, Airing.stationWork?, h.station, h.now, rests_iff hs, Station.step?, hs]
  cases hstep : s.step? c.air.station.stopped c.air.station.interval c.now with
  | none =>
    refine .inl ⟨rfl, ?_⟩
    simp [Station.stepFirst?, Loop.step?, hstep]
  | some p =>
    obtain ⟨s', sent⟩ := p
    rw [Loop.step?, hstep] at hround
    obtain ⟨hquiet, hlater⟩ := Sender.rests_of_step? hstep hdue
    have hnext : s'.active = true → c.now < s'.next + c.air.station.interval := fun ha =>
      Nat.lt_add_right _ (hlater ha)
    have hrests : ∀ fate, (c.act (.round 0 fate)).Rests := fun fate => by
      rw [act_round hs hround, rests_iff rfl]
      exact hquiet
    refine .inr ⟨fun hnone => (by cases hnone), ?_⟩
    simp only [Station.stepFirst?, Loop.step?, hstep, Option.map_some]
    cases sent with
    | none => exact ⟨_, .whole, rfl, h.still hs hnext hround .whole, hrests .whole⟩
    | some bytes =>
      by_cases hfault : a.network.faults.send = 0
      · exact ⟨_, .whole, rfl, h.sends_whole hs hnext hround hfault, hrests .whole⟩
      · exact ⟨_, .short, rfl, h.sends_lost hs hnext hround hfault, hrests .short⟩

theorem settle (h : Alike a₀ a faults c) : ∃ c', c.Goes 0 c' ∧ Alike a₀ a.settle faults c' ∧ c'.Rests := by
  rcases h.work with ⟨hrests, hnone⟩ | ⟨-, a', fate, hsome, h', hrests⟩
  · have hsettle : a.settle = a := by rw [Airing.settle, Airing.settleLimit, Airing.settleWithin, hnone]
    exact ⟨c, .refl c, by rwa [hsettle], hrests⟩
  · have hnone : a'.work? = none := (h'.work.resolve_right fun hr => hr.1 hrests).2
    have hsettle : a.settle = a' := by
      simp only [Airing.settle, Airing.settleLimit, Airing.settleWithin, hsome, hnone]
    exact ⟨_, .of_step (s := .round 0 fate) trivial nofun, by rwa [hsettle], hrests⟩

theorem setNow (h : Alike a₀ a faults c) (hr : c.Rests) {time : Nat} (hle : c.now ≤ time)
    (hw : ∀ first, c.air.station.wakeTime? = some first → time ≤ first) :
    ∃ c', c.Goes (time - c.now) c' ∧ Alike a₀ (a.setNow time) faults c' := by
  have hnow : c.now + (time - c.now) = time := Nat.add_sub_of_le hle
  refine ⟨_, .of_step (s := .pass (time - c.now)) ⟨hr, by rwa [hnow]⟩ nofun, h.station, h.interval_pos, ?_, h.aware,
    hnow.symm, h.attempts, h.up, h.observer, h.faults⟩
  obtain ⟨s, hs, -⟩ := h.lone
  rw [wakeTime?_eq hs] at hw
  refine ⟨s, hs, fun ha => ?_⟩
  rw [if_pos ha] at hw
  have hlt : time < s.next + c.air.station.interval :=
    Nat.lt_of_le_of_lt (hw s.next rfl) (Nat.lt_add_of_pos_right h.interval_pos)
  exact Nat.lt_of_le_of_lt (Nat.le_of_eq hnow) hlt

/-- Each time that a beacon is due is later than the one before, so that the fuel lasts. -/
theorem passUntil (h : Alike a₀ a faults c) (hr : c.Rests) {stop : Nat} (hle : c.now ≤ stop) (fuel : Nat)
    (hfuel : stop - c.now < fuel) :
    ∃ c', c.Goes (stop - c.now) c' ∧ Alike a₀ (a.passUntil (fun _ => false) stop fuel) faults c' := by
  induction fuel generalizing a c with
  | zero => exact absurd hfuel (Nat.not_lt_zero _)
  | succ fuel ih =>
    rw [Airing.passUntil, if_neg Bool.false_ne_true, h.station]
    cases hw : c.air.station.wakeTime?.filter fun time => time < stop with
    | none =>
      refine h.setNow hr hle fun first hfirst => ?_
      simpa [hfirst, Option.filter] using hw
    | some time =>
      obtain ⟨hwake, hlt⟩ := Option.filter_eq_some_iff.1 hw
      replace hlt : time < stop := by simpa using hlt
      have hlater : c.now < time := by
        obtain ⟨s, hs, -⟩ := h.lone
        rw [wakeTime?_eq hs] at hwake
        rw [rests_iff hs] at hr
        split at hwake
        · next ha =>
          cases hwake
          cases hstopped : c.air.station.stopped with
          | true => simp [hstopped, Sender.step?_true, ha] at hr
          | false => simpa [hstopped, Sender.step?_false ha] using hr
        · cases hwake
      obtain ⟨c₁, hgoes, h₁⟩ := h.setNow hr (Nat.le_of_lt hlater) fun first hfirst =>
        Nat.le_of_eq (Option.some.inj (hwake.symm.trans hfirst))
      obtain ⟨c₂, hgoes', h₂, hr₂⟩ := h₁.settle
      have hnow : c₂.now = time := by
        rw [hgoes'.now_eq, hgoes.now_eq]
        omega
      obtain ⟨c₃, hgoes'', h₃⟩ := ih h₂ hr₂ (hnow ▸ Nat.le_of_lt hlt) (by omega)
      have hmillis : time - c.now + 0 + (stop - c₂.now) = stop - c.now := by omega
      exact ⟨c₃, hmillis ▸ (hgoes.trans hgoes').trans hgoes'', h₃⟩

theorem pass (h : Alike a₀ a faults c) (hr : c.Rests) (millis : Nat) :
    ∃ c', c.Goes millis c' ∧ Alike a₀ (a.pass millis) faults c' := by
  have hmillis : c.now + millis - c.now = millis := Nat.add_sub_cancel_left ..
  have hpass : a.pass millis = a.passUntil (fun _ => false) (c.now + millis) (millis + 1) := by
    rw [Airing.pass, Airing.await, h.now]
  obtain ⟨c', hgoes, h'⟩ := h.passUntil hr (Nat.le_add_right c.now millis) (millis + 1) (by omega)
  exact ⟨c', hmillis ▸ hgoes, hpass ▸ h'⟩

theorem go (h : Alike a₀ a faults c) (hr : c.Rests) (p : Pace) :
    ∃ c', c.Goes p.millis c' ∧ Alike a₀ (p.go a) (faults + p.faults) c' ∧ c'.Rests := by
  cases p with
  | wait millis =>
    obtain ⟨c₁, hgoes, h₁⟩ := h.pass hr millis
    obtain ⟨c₂, hgoes', h₂, hr₂⟩ := h₁.settle
    exact ⟨c₂, hgoes.trans hgoes', h₂, hr₂⟩
  | fault =>
    have hfaults : c.lost + (a.network.faults.send + 1) = a₀.network.faults.send + (faults + 1) := by
      rw [← Nat.add_assoc, h.faults, Nat.add_assoc]
    have h₁ : Alike a₀ (a.fault fun f => { f with send := f.send + 1 }) (faults + 1) c :=
      ⟨h.station, h.interval_pos, h.lone, h.aware, h.now, h.attempts, h.up, h.observer, hfaults⟩
    exact h₁.settle

theorem run (h : Alike a₀ a faults c) (hr : c.Rests) (paces : List Pace) :
    ∃ c', c.Goes (paces.map Pace.millis).sum c' ∧
      Alike a₀ (paces.foldl Pace.go a) (faults + (paces.map Pace.faults).sum) c' ∧ c'.Rests := by
  induction paces generalizing a faults c with
  | nil => exact ⟨c, .refl c, h, hr⟩
  | cons p paces ih =>
    obtain ⟨c₁, hgoes, h₁, hr₁⟩ := h.go hr p
    obtain ⟨c₂, hgoes', h₂, hr₂⟩ := ih h₁ hr₁
    refine ⟨c₂, hgoes.trans hgoes', ?_, hr₂⟩
    rw [List.map_cons, List.sum_cons, ← Nat.add_assoc]
    exact h₂

theorem of_broadcast {interval : Nat} (hd : 0 < interval) {c : Course} (ha : c.air = { station := { interval } })
    (hattempts : c.attempts = []) (peer : PeerId) (port : UInt16) (hstation : a.station = { interval })
    (hnow : a.network.now = c.now) :
    Alike a (a.broadcast peer port) 0 (c.act (.call (.broadcast c.now peer port))) := by
  have hair : (c.act (.call (.broadcast c.now peer port))).air =
      ⟨{ interval, running := true, loops := [.sender (.begin interval c.now peer port)] }, [0], []⟩ := by
    simp [Course.act, ha, Air.act, Air.broadcast, Station.broadcast, Air.unawareNext]
  have hnone : (c.act (.call (.broadcast c.now peer port))).attempts = [] := hattempts
  refine ⟨?_, ?_, ⟨.begin interval c.now peer port, ?_, fun _ => ?_⟩, ?_, hnow, ?_, rfl, ?_, ?_⟩
  · rw [hair, Airing.broadcast, hstation, hnow]
    rfl
  · rwa [hair]
  · rw [hair]
  · rw [hair]
    exact Nat.lt_add_of_pos_right hd
  · rw [hair]
    rfl
  · rw [hnone]
    exact (List.append_nil _).symm
  · simp [Course.whole, hnone, Airing.broadcast]
  · simp [Course.lost, hnone, Airing.broadcast]

theorem of_stop (h : Alike a₀ a faults c) :
    Alike a₀ a.stop faults ((c.act (.call .stop)).act (.call (.stir (.look 0)))) := by
  have haware : ∀ i ∈ c.air.unaware, i = 0 := by
    rw [h.aware]
    split <;> simp
  have hair : ((c.act (.call .stop)).act (.call (.stir (.look 0)))).air =
      { c.air with station := c.air.station.stop, unaware := [] } := by
    simpa [Course.act, Air.act, Air.stop, Air.stir, Station.stop] using haware
  refine ⟨?_, ?_, ?_, ?_, h.now, h.attempts, h.up, h.observer, h.faults⟩
  · rw [hair, Airing.stop, h.station]
  · rw [hair]
    exact h.interval_pos
  · rw [hair]
    exact h.lone
  · rw [hair]
    rfl

theorem sendings_eq (h : Alike a₀ a faults c) (ho : c.Orderly) :
    c.sendings 0 = c.attempts.map fun x => (x.time, x.bytes) := by
  obtain ⟨s, hs, -⟩ := h.lone
  refine congrArg (List.map _) (List.filter_eq_self.2 fun x hx => decide_eq_true ?_)
  have hlt := ho.known x hx
  rw [hs, List.length_singleton] at hlt
  exact Nat.lt_one_iff.1 hlt

theorem stop_run (h : Alike a₀ a faults c) (hr : c.Rests)
    (hafter : ∀ later, (c.act (.call .stop)).Runs later → c.Trails c.now c.Rests ((c.act (.call .stop)).run later))
    (paces : List Pace) : (paces.foldl Pace.go a.stop.settle).attempts = a.attempts := by
  obtain ⟨c₁, hgoes, h₁, hr₁⟩ := h.of_stop.settle
  obtain ⟨c₂, hgoes', h₂, -⟩ := h₁.run hr₁ paces
  obtain ⟨steps, hruns, -, -, rfl⟩ := hgoes.trans hgoes'
  obtain ⟨extra, hextra, hnone⟩ := (hafter (.call (.stir (.look 0)) :: steps) ⟨trivial, hruns⟩).attempts
  obtain rfl : extra = [] := List.eq_nil_iff_forall_not_mem.2 fun x hx => (hnone x hx).2 hr
  rw [h₂.attempts, h.attempts, ← List.append_nil c.attempts]
  exact congrArg _ (congrArg _ hextra)

end Alike

/-- At a station that was not stopped a loop is begun, whatever went on there before. So long as nobody stops the station or
ends the loop, it sends one beacon at once and one after each interval, whatever else goes on and whatever its beacons come
to; after a stop nothing is sent but what was due at that time. On a host that runs by itself it makes no difference how the
waiting is split, and each fault costs one beacon. -/
theorem beacons_on_schedule {interval : Nat} (hd : 0 < interval) (peer : PeerId) (port : UInt16) :
    (∀ before steps : List Course.Step, (∀ s ∈ before, s ≠ .call .stop) →
      let c := (Course.new interval).run before
      let begun := c.act (.call (.broadcast c.now peer port))
      begun.Runs steps → (∀ s ∈ steps, s.Spares c.air.station.loops.length) →
        Course.OnSchedule c (begun.run steps) c.air.station.loops.length interval (encode peer port)
          (Course.elapsed steps)) ∧
    ∀ (a₀ : Airing) (paces later : List Pace), a₀.station = { interval } →
      let a := paces.foldl Pace.go (a₀.broadcast peer port).settle
      let total := (paces.map Pace.millis).sum
      let count := total / interval + 1
      a.network.now = a₀.network.now + total ∧
      a.attempts = a₀.attempts ++ Course.timetable a₀.network.now interval (encode peer port) count ∧
      (∃ lost ≤ count, lost + a.network.faults.send = a₀.network.faults.send + (paces.map Pace.faults).sum ∧
        a.observer = a₀.observer.map fun seen =>
          seen ++ if a₀.network.up then List.replicate (count - lost) (encode peer port) else []) ∧
      (later.foldl Pace.go a.stop.settle).attempts = a.attempts := by
  refine ⟨fun before steps hbefore => Course.onSchedule_run hd hbefore peer port, fun a₀ paces later hstation => ?_⟩
  intro a total count
  let c₀ := (Course.new interval).run [.pass a₀.network.now]
  have hnow₀ : a₀.network.now = c₀.now := (Nat.zero_add _).symm
  have h₀ := Alike.of_broadcast hd (c := c₀) rfl rfl peer port hstation hnow₀
  obtain ⟨c₁, hgoes, h₁, hr₁⟩ := h₀.settle
  obtain ⟨c₂, hgoes', h₂, hr₂⟩ := h₁.run hr₁ paces
  obtain ⟨steps, hruns, hown, htotal, rfl⟩ := hgoes.trans hgoes'
  rw [Nat.zero_add] at htotal h₂
  have hunstopped : ∀ s ∈ steps, s ≠ .call .stop := fun s hs => hown s hs .stop
  have hspares : ∀ s ∈ steps, s.Spares 0 := fun s hs => by
    cases s with
    | call m => exact absurd rfl (hown _ hs m)
    | round | pass => trivial
  have hbefore : ∀ s ∈ [Course.Step.pass a₀.network.now], s ≠ .call .stop := by simp
  obtain ⟨hnow, ⟨n, hsendings, -, -, hcount⟩, hafter⟩ := Course.onSchedule_run hd hbefore peer port hruns hspares
  obtain rfl : n = count := by rw [hcount hr₂, htotal]
  obtain ⟨horderly, -⟩ := Course.orderly_run
    (((Course.orderly_new interval).act (.pass a₀.network.now)).act (.call (.broadcast c₀.now peer port))) hunstopped
  have hattempts := (h₂.sendings_eq horderly).symm.trans hsendings
  obtain ⟨hlost, hwhole⟩ := Course.whole_eq hattempts
  refine ⟨?_, ?_, ⟨_, hlost, h₂.faults, ?_⟩, h₂.stop_run hr₂ hafter later⟩
  · rw [h₂.now, hnow, htotal]
    exact congrArg (· + total) hnow₀.symm
  · rw [h₂.attempts, hattempts]
    exact congrArg (fun start => a₀.attempts ++ Course.timetable start interval _ count) hnow₀.symm
  · rw [h₂.observer, h₂.up, hwhole]

/-- A beacon fails while another loop is begun, and a host waits in parts of which none ends where a beacon is due. -/
theorem beacons_on_schedule_failing :
    let peer : PeerId := ⟨[1, 2, 3, 4, 5, 6, 7, 8, 9, 10, 11, 12, 13, 14, 15, 16], by decide⟩
    let begun := (Course.new 10).act (.call (.broadcast 0 peer 80))
    let steps : List Course.Step := [.round 0 .failed, .call (.broadcast 0 peer 81), .round 1 .whole, .pass 10]
    let a₀ : Airing := { network := { up := true }, station := { interval := 10 }, observer := some [] }
    let a := [.wait 3, .fault, .wait 8, .wait 14].foldl Pace.go (a₀.broadcast peer 80).settle
    (0 < 10 ∧ begun.Runs steps ∧ (∀ s ∈ steps, s.Spares 0)) ∧
      Course.OnSchedule (Course.new 10) (begun.run steps) 0 10 (encode peer 80) 10 ∧
      a.attempts = [(0, encode peer 80), (10, encode peer 80), (20, encode peer 80)] ∧
      a.observer = some [encode peer 80, encode peer 80] ∧
      ([.wait 100].foldl Pace.go a.stop.settle).attempts = a.attempts := by
  intro peer begun steps a₀ a
  have hruns : begun.Runs steps := by
    refine ⟨trivial, rfl, trivial, ⟨rfl, fun time htime => ?_⟩, trivial⟩
    have hwake : some time = some 10 := htime.symm.trans (by decide +kernel)
    cases hwake
    exact Nat.le_refl 10
  have hspares : ∀ s ∈ steps, s.Spares 0 := by simp [steps, Course.Step.Spares, Move.Spares]
  obtain ⟨hcourse, hairing⟩ := beacons_on_schedule (show 0 < 10 by decide) peer 80
  obtain ⟨-, hattempts, -, hafter⟩ := hairing a₀ [.wait 3, .fault, .wait 8, .wait 14] [.wait 100] rfl
  have hobserver : a.observer = some [encode peer 80, encode peer 80] := by decide +kernel
  have hbefore : ∀ s ∈ ([] : List Course.Step), s ≠ .call .stop := fun _ hs => absurd hs List.not_mem_nil
  exact ⟨⟨by decide, hruns, hspares⟩, hcourse [] steps hbefore hruns hspares, hattempts, hobserver, hafter⟩

end Beacon
end PeerDiscovery
