import PeerDiscovery.Proofs.Beacon.Listening
import PeerDiscovery.Scenario.Airing

/-! When beacons are sent.
Time passes only while every loop waits, and never past the time at which a beacon is due (`Course.May`). A loop that
sends is then never late, whatever becomes of its beacons: it has sent one at once and one after each interval
(`OnTime`). After a stop nothing is sent once time has passed (`Halted`). So what a loop has tried to send depends on the
time only: `onSchedule_run`. -/
namespace PeerDiscovery
namespace Beacon

/-- What becomes of a beacon that a loop tries to send. -/
inductive Fate where
  | whole
  /-- Not all of it is sent. -/
  | short
  | failed
  deriving DecidableEq, Repr

structure Attempt where
  loop : Nat
  time : Nat
  bytes : Bytes
  fate : Fate
  deriving DecidableEq, Repr

/-- A station in the course of time, with all that its loops tried to send. -/
structure Course where
  air : Air
  now : Nat := 0
  attempts : List Attempt := []

inductive Course.Step where
  /-- Anything but a round of a loop. -/
  | call (m : Move)
  /-- A loop does a round. What it sends, if it does, has this fate. -/
  | round (loop : Nat) (fate : Fate)
  | pass (millis : Nat)

namespace Course

def new (interval : Nat) : Course := { air := { station := { interval } } }

def due (c : Course) (loop : Nat) : List Bytes := ((c.air.round? loop c.now).bind Prod.snd).toList

def act (c : Course) : Step → Course
  | .call m => { c with air := c.air.act m }
  | .round loop fate =>
    { c with
      air := c.air.stir (.round loop c.now)
      attempts := c.attempts ++ (c.due loop).map fun bytes => ⟨loop, c.now, bytes, fate⟩ }
  | .pass millis => { c with now := c.now + millis }

def run (c : Course) (steps : List Step) : Course := steps.foldl act c

def Rests (c : Course) : Prop := c.air.station.step? c.now = none

/-- Rounds are done as such, a loop that sends is begun at the time that it is, and time passes while every loop waits and
at most until the next beacon is due. -/
def May (c : Course) : Step → Prop
  | .call (.stir (.round _ _)) => False
  | .call (.broadcast now _ _) => now = c.now
  | .call _ => True
  | .round _ _ => True
  | .pass millis => c.Rests ∧ ∀ time, c.air.station.wakeTime? = some time → c.now + millis ≤ time

/-- Steps each of which may be done when its turn comes. -/
def Runs : Course → List Step → Prop
  | _, [] => True
  | c, s :: steps => c.May s ∧ (c.act s).Runs steps

def sendings (c : Course) (loop : Nat) : List (Nat × Bytes) :=
  (c.attempts.filter fun a => a.loop = loop).map fun a => (a.time, a.bytes)

/-- A step by which no station is stopped and the loop `i` is not ended. -/
def Step.Spares (i : Nat) : Step → Prop
  | call m => m.Spares i
  | _ => True

/-- How much time passes. -/
def Step.millis : Step → Nat
  | pass millis => millis
  | _ => 0

/-- How much time passes in all. -/
def elapsed (steps : List Step) : Nat := (steps.map Step.millis).sum

end Course

namespace Station

theorem stepFirst?_eq_none_iff {stopped : Bool} {interval now : Nat} {loops : List Loop} :
    stepFirst? stopped interval now loops = none ↔ ∀ l ∈ loops, l.step? stopped interval now = none := by
  induction loops with
  | nil => simp [stepFirst?]
  | cons l rest ih =>
    rw [stepFirst?, List.forall_mem_cons, ← ih]
    cases l.step? stopped interval now with
    | none => simp
    | some p => simp

theorem step?_eq_none_iff {s : Station} {now : Nat} :
    s.step? now = none ↔ ∀ l ∈ s.loops, l.step? s.stopped s.interval now = none := by
  rw [step?, Option.map_eq_none_iff, stepFirst?_eq_none_iff]

theorem wakeTime?_le {s : Station} {l : Loop} {time : Nat} (hl : l ∈ s.loops) (ht : l.wakeTime? = some time) :
    ∃ first, s.wakeTime? = some first ∧ first ≤ time := by
  have hmem : time ∈ s.loops.filterMap Loop.wakeTime? := List.mem_filterMap.2 ⟨l, hl, ht⟩
  cases hw : s.wakeTime? with
  | none =>
    rw [wakeTime?, List.min?_eq_none_iff] at hw
    rw [hw] at hmem
    cases hmem
  | some first => exact ⟨first, rfl, (List.min?_eq_some_iff.1 hw).2 time hmem⟩

end Station

namespace Sender

theorem step?_false {s : Sender} {interval now : Nat} (ha : s.active = true) :
    s.step? false interval now =
      if s.next ≤ now then some ({ s with next := s.next + interval }, some s.datagram) else none := by
  rw [step?, if_neg (by simp [ha]), if_neg (by simp)]

theorem step?_true {s : Sender} {interval now : Nat} :
    s.step? true interval now = if s.active then some (s.finish, none) else none := by
  cases ha : s.active <;> simp [step?, ha]

end Sender

namespace Air

theorem interval_act (a : Air) (m : Move) : (a.act m).station.interval = a.station.interval := by
  cases m with
  | stir x =>
    cases x with
    | look loop =>
      simp only [act, stir]
      split <;> rfl
    | round loop now =>
      simp only [act, stir]
      split <;> rfl
    | arrive | take | forget => rfl
  | listen | broadcast | stop | join | abort | draw => rfl

/-- The loop `i` sends, and the station was not stopped. -/
structure Sends (a : Air) (i : Nat) (s : Sender) : Prop where
  stopped : a.station.stopped = false
  unaware : i ∈ a.unaware
  loop : a.station.loops[i]? = some (.sender s)
  active : s.active = true

namespace Sends

variable {a : Air} {i : Nat} {s : Sender}

theorem modifyLoop (h : a.Sends i s) {f : Loop → Loop} {s' : Sender} (hf : f (.sender s) = .sender s')
    (ha : s'.active = true) : (a.modifyLoop i f).Sends i s' := by
  refine ⟨h.stopped, h.unaware, ?_, ha⟩
  simp [Air.modifyLoop, h.loop, hf]

theorem modifyLoop_of_ne (h : a.Sends i s) {j : Nat} (hj : j ≠ i) (f : Loop → Loop) : (a.modifyLoop j f).Sends i s := by
  refine ⟨h.stopped, h.unaware, ?_, h.active⟩
  simp [Air.modifyLoop, hj, h.loop]

theorem modifyLoop_of_eq (h : a.Sends i s) (j : Nat) {f : Loop → Loop} (hf : f (.sender s) = .sender s) :
    (a.modifyLoop j f).Sends i s := by
  by_cases hj : j = i
  · exact hj ▸ h.modifyLoop hf h.active
  · exact h.modifyLoop_of_ne hj f

theorem begun (h : a.Sends i s) {a' : Air} {l : Loop} (hb : Begun a a' l) : a'.Sends i s := by
  refine ⟨hb.stopped.trans h.stopped, ?_, ?_, h.active⟩
  · rw [hb.unaware, unawareNext, if_neg (by simp [h.stopped])]
    exact List.mem_append_left _ h.unaware
  · rw [hb.loops]
    exact getElem?_append_of_some h.loop _

/-- Nothing but a stop, or its own end, keeps a loop from sending. -/
theorem act (h : a.Sends i s) {m : Move} (hm : m.Spares i) (hr : ∀ loop now, m ≠ .stir (.round loop now)) :
    (a.act m).Sends i s := by
  cases m with
  | listen capacity => exact h.begun (begun_listen a capacity)
  | broadcast now peer port => exact h.begun (begun_broadcast a now peer port)
  | stop => exact hm.elim
  | join => exact ⟨h.stopped, h.unaware, h.loop, h.active⟩
  | abort loop => exact h.modifyLoop_of_ne hm Loop.finish
  | draw loop n => exact h.modifyLoop_of_eq loop rfl
  | stir x =>
    cases x with
    | look loop => simpa [Air.act, Air.stir, h.stopped] using h
    | round loop now => exact absurd rfl (hr loop now)
    | arrive loop arrival => exact h.modifyLoop_of_eq loop rfl
    | take loop => exact h.modifyLoop_of_eq loop rfl
    | forget loop => exact h.modifyLoop_of_eq loop rfl

theorem round?_eq (h : a.Sends i s) (now : Nat) :
    a.round? i now = if s.next ≤ now then some (.sender { s with next := s.next + a.station.interval }, some s.datagram)
      else none := by
  have hround : a.round? i now = (Loop.sender s).step? false a.station.interval now := by
    simp [round?, h.loop, h.unaware]
  rw [hround, Loop.step?, Sender.step?_false h.active]
  split <;> rfl

theorem round_of_ne (h : a.Sends i s) {j : Nat} (hj : j ≠ i) (now : Nat) : (a.stir (.round j now)).Sends i s := by
  simp only [stir]
  split
  · exact h
  · have hne := h.modifyLoop_of_ne hj
    exact ⟨h.stopped, h.unaware, (hne _).loop, h.active⟩

end Sends
end Air

namespace Course

variable {c : Course}

theorem run_append (c : Course) (first later : List Step) : c.run (first ++ later) = (c.run first).run later :=
  List.foldl_append ..

theorem runs_append {first later : List Step} : c.Runs (first ++ later) ↔ c.Runs first ∧ (c.run first).Runs later := by
  induction first generalizing c with
  | nil => simp [Runs, run]
  | cons s first ih =>
    rw [List.cons_append, Runs, ih, Runs, and_assoc]
    rfl

theorem now_act (c : Course) (s : Step) : (c.act s).now = c.now + s.millis := by
  cases s <;> rfl

theorem now_run (c : Course) (steps : List Step) : (c.run steps).now = c.now + elapsed steps := by
  induction steps generalizing c with
  | nil => rfl
  | cons s steps ih =>
    have hrun : c.run (s :: steps) = (c.act s).run steps := rfl
    rw [hrun, ih, now_act, elapsed, elapsed, List.map_cons, List.sum_cons, Nat.add_assoc]

/-- The times of the first beacons of a loop that was begun at a time, with what is sent each time. -/
def timetable (start interval : Nat) (bytes : Bytes) (n : Nat) : List (Nat × Bytes) :=
  (List.range n).map fun k => (start + k * interval, bytes)

theorem timetable_succ (start interval : Nat) (bytes : Bytes) (n : Nat) :
    timetable start interval bytes (n + 1) = timetable start interval bytes n ++ [(start + n * interval, bytes)] := by
  simp [timetable, List.range_succ]

/-- A loop has sent so many beacons, each when it was due, and the next one is not overdue. -/
structure OnTime (c : Course) (i start : Nat) (bytes : Bytes) (n : Nat) : Prop where
  sends : c.air.Sends i ⟨bytes, start + n * c.air.station.interval, true⟩
  sendings : c.sendings i = timetable start c.air.station.interval bytes n
  start_le : start ≤ c.now
  now_le : c.now ≤ start + n * c.air.station.interval
  sent : ∀ k < n, start + k * c.air.station.interval ≤ c.now

namespace OnTime

variable {i start n : Nat} {bytes : Bytes}

theorem congr (h : c.OnTime i start bytes n) {c' : Course} (hinterval : c'.air.station.interval = c.air.station.interval)
    (hnow : c'.now = c.now) (hsendings : c'.sendings i = c.sendings i)
    (hsends : c'.air.Sends i ⟨bytes, start + n * c.air.station.interval, true⟩) : c'.OnTime i start bytes n := by
  refine ⟨?_, ?_, ?_, ?_, fun k hk => ?_⟩
  · rwa [hinterval]
  · rw [hsendings, hinterval, h.sendings]
  · rw [hnow]
    exact h.start_le
  · rw [hnow, hinterval]
    exact h.now_le
  · rw [hnow, hinterval]
    exact h.sent k hk

theorem call (h : c.OnTime i start bytes n) {m : Move} (hm : m.Spares i)
    (hr : ∀ loop now, m ≠ .stir (.round loop now)) : (c.act (.call m)).OnTime i start bytes n :=
  h.congr (Air.interval_act c.air m) rfl rfl (h.sends.act hm hr)

theorem pass (h : c.OnTime i start bytes n) {millis : Nat} (hm : c.May (.pass millis)) :
    (c.act (.pass millis)).OnTime i start bytes n := by
  obtain ⟨first, hfirst, hle⟩ := Station.wakeTime?_le (List.mem_of_getElem? h.sends.loop) rfl
  have hwake : c.now + millis ≤ first := hm.2 first hfirst
  exact ⟨h.sends, h.sendings, Nat.le_add_right_of_le h.start_le, Nat.le_trans hwake hle,
    fun k hk => Nat.le_add_right_of_le (h.sent k hk)⟩

theorem round_of_ne (h : c.OnTime i start bytes n) {j : Nat} (hj : j ≠ i) (fate : Fate) :
    (c.act (.round j fate)).OnTime i start bytes n := by
  have hsendings : (c.act (.round j fate)).sendings i = c.sendings i := by simp [act, Course.sendings, hj]
  exact h.congr (Air.interval_act c.air (.stir (.round j c.now))) rfl hsendings (h.sends.round_of_ne hj c.now)

/-- A round of the loop itself: it sends a beacon if one is due, and then it is due just now. No more are due after it. -/
theorem round (h : c.OnTime i start bytes n) (fate : Fate) :
    ∃ n', (c.act (.round i fate)).OnTime i start bytes n' ∧
      (0 < c.air.station.interval → c.now < start + n' * c.air.station.interval) := by
  have hround := h.sends.round?_eq c.now
  by_cases hdue : start + n * c.air.station.interval ≤ c.now
  · rw [if_pos hdue] at hround
    have hnow : c.now = start + n * c.air.station.interval := Nat.le_antisymm h.now_le hdue
    have hact : c.act (.round i fate) =
        { c with
          air := { c.air.modifyLoop i fun _ =>
              .sender ⟨bytes, start + n * c.air.station.interval + c.air.station.interval, true⟩ with
            sent := c.air.sent ++ [bytes] }
          attempts := c.attempts ++ [⟨i, c.now, bytes, fate⟩] } := by
      simp [act, due, Air.stir, hround]
    have hnext : start + n * c.air.station.interval + c.air.station.interval =
        start + (n + 1) * c.air.station.interval := by rw [Nat.add_one_mul, Nat.add_assoc]
    rw [hact, hnext]
    refine ⟨n + 1, ⟨?_, ?_, h.start_le, ?_, fun k hk => ?_⟩, fun hd => by omega⟩
    · have hsends := h.sends.modifyLoop (f := fun _ => .sender ⟨bytes, start + (n + 1) * c.air.station.interval, true⟩)
        rfl rfl
      exact ⟨hsends.stopped, hsends.unaware, hsends.loop, rfl⟩
    · rw [timetable_succ]
      change List.map _ (List.filter _ (c.attempts ++ _)) = _
      rw [List.filter_append, List.map_append]
      refine congrArg₂ (· ++ ·) h.sendings ?_
      simp [hnow, Air.modifyLoop]
    · change c.now ≤ start + (n + 1) * c.air.station.interval
      rw [← hnext]
      exact Nat.le_add_right_of_le h.now_le
    · rcases Nat.lt_succ_iff_lt_or_eq.1 hk with hk | rfl
      · exact h.sent k hk
      · exact hdue
  · rw [if_neg hdue] at hround
    have hact : c.act (.round i fate) = c := by simp [act, due, Air.stir, hround]
    exact ⟨n, by rwa [hact], fun _ => Nat.lt_of_not_le hdue⟩

theorem act (h : c.OnTime i start bytes n) {s : Step} (hmay : c.May s) (hs : s.Spares i) :
    ∃ n', (c.act s).OnTime i start bytes n' := by
  cases s with
  | call m =>
    refine ⟨n, h.call hs fun loop now hm => ?_⟩
    subst hm
    exact hmay
  | round j fate =>
    by_cases hj : j = i
    · obtain ⟨n', h', -⟩ := h.round fate
      exact ⟨n', hj ▸ h'⟩
    · exact ⟨n, h.round_of_ne hj fate⟩
  | pass millis => exact ⟨n, h.pass hmay⟩

theorem run (h : c.OnTime i start bytes n) {steps : List Step} (hruns : c.Runs steps) (hs : ∀ s ∈ steps, s.Spares i) :
    ∃ n', (c.run steps).OnTime i start bytes n' := by
  induction steps generalizing c n with
  | nil => exact ⟨n, h⟩
  | cons s steps ih =>
    obtain ⟨n', h'⟩ := h.act hruns.1 (hs s List.mem_cons_self)
    exact ih h' hruns.2 fun t ht => hs t (List.mem_cons_of_mem s ht)

/-- Once every loop waits, a loop that sends has sent one beacon at once and one after each interval. -/
theorem eq_of_rests (h : c.OnTime i start bytes n) (hd : 0 < c.air.station.interval) (hr : c.Rests) :
    n = (c.now - start) / c.air.station.interval + 1 := by
  have hwait := Station.step?_eq_none_iff.1 hr _ (List.mem_of_getElem? h.sends.loop)
  have hlater : c.now < start + n * c.air.station.interval := by
    refine Nat.lt_of_not_le fun hle => ?_
    rw [h.sends.stopped, Loop.step?, Sender.step?_false rfl, if_pos hle] at hwait
    cases hwait
  obtain ⟨k, rfl⟩ : ∃ k, n = k + 1 := by
    refine Nat.exists_eq_succ_of_ne_zero fun hzero => ?_
    rw [hzero, Nat.zero_mul] at hlater
    exact absurd h.start_le (Nat.not_le.2 hlater)
  have hsent := h.sent k (Nat.lt_succ_self k)
  rw [Nat.add_one_mul] at hlater
  have hdiv : (c.now - start) / c.air.station.interval = k :=
    Nat.div_eq_of_lt_le (by omega) (by rw [Nat.add_one_mul]; omega)
  rw [hdiv]

end OnTime
end Course

namespace Air

variable {a : Air}

/-- A change by which loops that send stay as they are or end. -/
def Calms (f : Loop → Loop) : Prop :=
  ∀ l s', f l = .sender s' → ∃ s, l = .sender s ∧ (s' = s ∨ s'.active = false)

theorem calms_onReceiver (f : Receiver → Receiver) : Calms (Loop.onReceiver f) := by
  intro l s' h
  cases l with
  | receiver r => cases h
  | sender s => exact ⟨s, rfl, .inl (Loop.sender.inj h).symm⟩

theorem calms_arrive (arrival : Arrival) : Calms (Loop.arrive arrival) := by
  intro l s' h
  cases l with
  | receiver r => cases h
  | sender s => exact ⟨s, rfl, .inl (Loop.sender.inj h).symm⟩

theorem calms_finish : Calms Loop.finish := by
  intro l s' h
  cases l with
  | receiver r => cases h
  | sender s => exact ⟨s, rfl, .inr (Loop.sender.inj h ▸ rfl)⟩

theorem Calms.modifyLoop {f : Loop → Loop} (hf : Calms f) {i j : Nat} {s' : Sender}
    (h : (a.modifyLoop i f).station.loops[j]? = some (.sender s')) :
    ∃ s, a.station.loops[j]? = some (.sender s) ∧ (s' = s ∨ s'.active = false) := by
  rcases getElem?_modify_cases h with ⟨rfl, l, hl, hs⟩ | ⟨-, hl⟩
  · obtain ⟨s, rfl, hcalm⟩ := hf l s' hs.symm
    exact ⟨s, hl, hcalm⟩
  · exact ⟨s', hl, .inl rfl⟩

theorem unaware_act_subset (hs : a.station.stopped = true) (m : Move) : (a.act m).unaware ⊆ a.unaware := by
  have hbegun : a.unawareNext = a.unaware := if_pos hs
  cases m with
  | listen capacity => exact hbegun ▸ List.Subset.refl _
  | broadcast now peer port => exact hbegun ▸ List.Subset.refl _
  | stop | join | abort | draw => exact List.Subset.refl _
  | stir x =>
    cases x with
    | look loop =>
      simp only [act, stir, if_pos hs]
      exact fun i hi => (List.mem_filter.1 hi).1
    | round loop now =>
      simp only [act, stir]
      split <;> exact List.Subset.refl _
    | arrive | take | forget => exact List.Subset.refl _

theorem stopped_act_of_ne {m : Move} (hm : m ≠ .stop) : (a.act m).station.stopped = a.station.stopped := by
  cases m with
  | stir x => exact stopped_stir a x
  | stop => exact absurd rfl hm
  | listen | broadcast | join | abort | draw => rfl

theorem stopped_act (hs : a.station.stopped = true) (m : Move) : (a.act m).station.stopped = true := by
  by_cases hm : m = .stop
  · rw [hm]
    rfl
  · exact (stopped_act_of_ne hm).trans hs

theorem length_le_act (a : Air) (m : Move) : a.station.loops.length ≤ (a.act m).station.loops.length := by
  have hbegun : ∀ {a' : Air} {l : Loop}, Begun a a' l → a.station.loops.length ≤ a'.station.loops.length := by
    intro a' l hb
    rw [hb.loops, List.length_append]
    exact Nat.le_add_right _ _
  cases m with
  | listen capacity => exact hbegun (begun_listen a capacity)
  | broadcast now peer port => exact hbegun (begun_broadcast a now peer port)
  | stop | join => exact Nat.le_refl _
  | abort loop => exact Nat.le_of_eq (length_modifyLoop a loop _).symm
  | draw loop n => exact Nat.le_of_eq (length_modifyLoop a loop _).symm
  | stir x => exact Nat.le_of_eq (length_stir a x).symm

/-- A loop that sends was there before, as it is or not yet ended, or it was begun after the stop and knows of it. -/
theorem sender_of_act (hs : a.station.stopped = true) (hregular : Regular a) {m : Move}
    (hr : ∀ loop now, m ≠ .stir (.round loop now)) {j : Nat} {s' : Sender}
    (h : (a.act m).station.loops[j]? = some (.sender s')) :
    (∃ s, a.station.loops[j]? = some (.sender s) ∧ (s' = s ∨ s'.active = false)) ∨ j ∉ (a.act m).unaware := by
  have hbegun : ∀ {a' : Air} {l : Loop}, Begun a a' l → a'.station.loops[j]? = some (.sender s') →
      (∃ s, a.station.loops[j]? = some (.sender s) ∧ (s' = s ∨ s'.active = false)) ∨ j ∉ a'.unaware := by
    intro a' l hb h
    rw [hb.loops] at h
    rcases getElem?_concat_cases h with h | ⟨rfl, -⟩
    · exact .inl ⟨s', h, .inl rfl⟩
    · rw [hb.unaware, unawareNext, if_pos hs]
      exact .inr fun hu => absurd (hregular.unaware_lt _ hu) (Nat.lt_irrefl _)
  cases m with
  | listen capacity => exact hbegun (begun_listen a capacity) h
  | broadcast now peer port => exact hbegun (begun_broadcast a now peer port) h
  | stop | join => exact .inl ⟨s', h, .inl rfl⟩
  | abort loop => exact .inl (calms_finish.modifyLoop h)
  | draw loop n => exact .inl ((calms_onReceiver _).modifyLoop h)
  | stir x =>
    cases x with
    | look loop =>
      simp only [act, stir, if_pos hs] at h
      exact .inl ⟨s', h, .inl rfl⟩
    | round loop now => exact absurd rfl (hr loop now)
    | arrive loop arrival => exact .inl ((calms_arrive arrival).modifyLoop h)
    | take loop => exact .inl ((calms_onReceiver _).modifyLoop h)
    | forget loop => exact .inl ((calms_onReceiver _).modifyLoop h)

end Air

namespace Course

variable {c : Course} {time : Nat} {rested : Prop}

/-- The station was stopped at a time. A loop that can still send is one that has not seen that, and only as long as it is
that time; where every loop waited when the station was stopped it is not due. -/
structure Halted (time : Nat) (rested : Prop) (c : Course) : Prop where
  regular : Air.Regular c.air
  stopped : c.air.station.stopped = true
  senders : ∀ j s, c.air.station.loops[j]? = some (.sender s) →
    (s.active = false ∨ j ∉ c.air.unaware) ∨ (c.now = time ∧ (rested → time < s.next))

/-- What is sent after a stop is sent at the same time, and nothing is where every loop waited. -/
structure Trails (time : Nat) (rested : Prop) (c c' : Course) : Prop where
  attempts : ∃ extra, c'.attempts = c.attempts ++ extra ∧ ∀ a ∈ extra, a.time = time ∧ ¬rested

theorem Trails.of_eq {c' : Course} (h : c'.attempts = c.attempts) : Trails time rested c c' :=
  ⟨[], by rw [h, List.append_nil], fun _ ha => absurd ha List.not_mem_nil⟩

theorem Trails.trans {c' c'' : Course} (h : Trails time rested c c') (h' : Trails time rested c' c'') :
    Trails time rested c c'' := by
  obtain ⟨extra, heq, hall⟩ := h.attempts
  obtain ⟨extra', heq', hall'⟩ := h'.attempts
  refine ⟨extra ++ extra', by rw [heq', heq, List.append_assoc], fun a ha => ?_⟩
  exact (List.mem_append.1 ha).elim (hall a) (hall' a)

theorem halted_stop (h : Air.Regular c.air) : Halted c.now c.Rests (c.act (.call .stop)) := by
  refine ⟨Air.regular_act h .stop, rfl, fun j s hs => ?_⟩
  by_cases ha : s.active = true
  · refine .inr ⟨rfl, fun hr => Nat.lt_of_not_le fun hle => ?_⟩
    have hwait := Station.step?_eq_none_iff.1 hr _ (List.mem_of_getElem? hs)
    cases hstopped : c.air.station.stopped with
    | true => simp [hstopped, Loop.step?, Sender.step?_true, ha] at hwait
    | false => simp [hstopped, Loop.step?, Sender.step?_false ha, hle] at hwait
  · exact .inl (.inl (by simpa using ha))

namespace Halted

theorem call (h : Halted time rested c) {m : Move} (hr : ∀ loop now, m ≠ .stir (.round loop now)) :
    Halted time rested (c.act (.call m)) := by
  refine ⟨Air.regular_act h.regular m, Air.stopped_act h.stopped m, fun j s' hs' => ?_⟩
  have haware : j ∉ c.air.unaware → j ∉ (c.air.act m).unaware := fun hu hm =>
    hu (Air.unaware_act_subset h.stopped m hm)
  rcases Air.sender_of_act h.stopped h.regular hr hs' with ⟨s, hs, rfl | hended⟩ | hnew
  · exact (h.senders j s' hs).imp_left fun hmute => hmute.imp_right haware
  · exact .inl (.inl hended)
  · exact .inl (.inr hnew)

theorem pass (h : Halted time rested c) {millis : Nat} (hm : c.May (.pass millis)) :
    Halted time rested (c.act (.pass millis)) := by
  refine ⟨h.regular, h.stopped, fun j s hs => .inl (.inl ?_)⟩
  have hwait := Station.step?_eq_none_iff.1 hm.1 _ (List.mem_of_getElem? hs)
  rw [h.stopped, Loop.step?, Sender.step?_true] at hwait
  cases ha : s.active with
  | false => rfl
  | true =>
    rw [if_pos ha] at hwait
    cases hwait

theorem of_round (h : Halted time rested c) {i : Nat} {l : Loop} {sent : Option Bytes}
    (hround : c.air.round? i c.now = some (l, sent)) (fate : Fate)
    (hl : ∀ s, l = .sender s → (s.active = false ∨ i ∉ c.air.unaware) ∨ (c.now = time ∧ (rested → time < s.next)))
    (hsent : ∀ bytes, sent = some bytes → c.now = time ∧ ¬rested) :
    Halted time rested (c.act (.round i fate)) ∧ Trails time rested c (c.act (.round i fate)) := by
  have hair : (c.act (.round i fate)).air = { c.air.modifyLoop i fun _ => l with sent := c.air.sent ++ sent.toList } := by
    simp [act, Air.stir, hround]
  refine ⟨⟨Air.regular_act h.regular (.stir (.round i c.now)), Air.stopped_act h.stopped (.stir (.round i c.now)),
    fun j s hs => ?_⟩, ⟨_, rfl, fun a ha => ?_⟩⟩
  · rw [hair] at hs ⊢
    rcases getElem?_modify_cases hs with ⟨rfl, -, -, heq⟩ | ⟨-, hs⟩
    · exact hl s heq.symm
    · exact h.senders j s hs
  · obtain ⟨bytes, hbytes, rfl⟩ := List.mem_map.1 ha
    simp only [due, hround, Option.bind_some, Option.mem_toList] at hbytes
    exact hsent bytes hbytes

theorem round (h : Halted time rested c) (i : Nat) (fate : Fate) :
    Halted time rested (c.act (.round i fate)) ∧ Trails time rested c (c.act (.round i fate)) := by
  cases hround : c.air.round? i c.now with
  | none =>
    have hact : c.act (.round i fate) = c := by simp [act, due, Air.stir, hround]
    rw [hact]
    exact ⟨h, .of_eq rfl⟩
  | some p =>
    obtain ⟨l, sent⟩ := p
    obtain ⟨k, hk, hstep⟩ := Option.bind_eq_some_iff.1 hround
    cases k with
    | receiver r =>
      obtain ⟨r', -, hr⟩ := Option.map_eq_some_iff.1 hstep
      cases hr
      exact h.of_round hround fate (fun _ hl => by cases hl) fun _ hsent => by cases hsent
    | sender s =>
      by_cases hmute : s.active = false ∨ i ∉ c.air.unaware
      · have hmute' : (Loop.sender s).IsMute (decide (i ∉ c.air.unaware) = true) := by simpa [Loop.IsMute] using hmute
        obtain ⟨hl, rfl, -⟩ := hmute'.step hstep
        refine h.of_round hround fate (fun s' hs' => .inl ?_) fun _ hsent => by cases hsent
        simpa [hs', Loop.IsMute] using hl
      · obtain ⟨hnow, hnext⟩ := (h.senders i s hk).resolve_left hmute
        rw [not_or, Bool.not_eq_false, not_not] at hmute
        simp only [Loop.step?, hmute.2, not_true_eq_false, decide_false, Sender.step?_false hmute.1] at hstep
        by_cases hdue : s.next ≤ c.now
        · rw [if_pos hdue] at hstep
          cases hstep
          have hrested : ¬rested := fun hr => absurd (hnow ▸ hdue) (Nat.not_le.2 (hnext hr))
          exact h.of_round hround fate (fun s' hs' => .inr ⟨hnow, fun hr => absurd hr hrested⟩) fun _ _ => ⟨hnow, hrested⟩
        · rw [if_neg hdue] at hstep
          cases hstep

theorem act (h : Halted time rested c) {s : Step} (hmay : c.May s) :
    Halted time rested (c.act s) ∧ Trails time rested c (c.act s) := by
  cases s with
  | call m =>
    refine ⟨h.call fun loop now hm => ?_, .of_eq rfl⟩
    subst hm
    exact hmay
  | round i fate => exact h.round i fate
  | pass millis => exact ⟨h.pass hmay, .of_eq rfl⟩

theorem run (h : Halted time rested c) {steps : List Step} (hruns : c.Runs steps) : Trails time rested c (c.run steps) := by
  induction steps generalizing c with
  | nil => exact .of_eq rfl
  | cons s steps ih =>
    obtain ⟨hhalted, htrails⟩ := h.act hruns.1
    exact htrails.trans (ih hhalted hruns.2)

end Halted

/-- Only loops that there are can have sent anything. -/
structure Orderly (c : Course) : Prop where
  regular : Air.Regular c.air
  known : ∀ a ∈ c.attempts, a.loop < c.air.station.loops.length

theorem orderly_new (interval : Nat) : Orderly (new interval) :=
  ⟨⟨fun _ hi => absurd hi List.not_mem_nil, Nat.le_refl 0⟩, fun _ ha => absurd ha List.not_mem_nil⟩

theorem lt_of_mem_due {i : Nat} {bytes : Bytes} (h : bytes ∈ c.due i) : i < c.air.station.loops.length := by
  obtain ⟨p, hp, -⟩ := Option.bind_eq_some_iff.1 (Option.mem_toList.1 h)
  obtain ⟨l, hl, -⟩ := Option.bind_eq_some_iff.1 hp
  exact (List.getElem?_eq_some_iff.1 hl).1

theorem Orderly.act (h : c.Orderly) (s : Step) : (c.act s).Orderly := by
  cases s with
  | call m => exact ⟨Air.regular_act h.regular m, fun a ha => Nat.lt_of_lt_of_le (h.known a ha) (Air.length_le_act c.air m)⟩
  | pass millis => exact ⟨h.regular, h.known⟩
  | round i fate =>
    have hlength : (c.act (.round i fate)).air.station.loops.length = c.air.station.loops.length :=
      Air.length_stir c.air (.round i c.now)
    refine ⟨Air.regular_act h.regular (.stir (.round i c.now)), fun a ha => ?_⟩
    rw [hlength]
    rcases List.mem_append.1 ha with ha | ha
    · exact h.known a ha
    · obtain ⟨bytes, hbytes, rfl⟩ := List.mem_map.1 ha
      exact lt_of_mem_due hbytes

theorem interval_act (c : Course) (s : Step) : (c.act s).air.station.interval = c.air.station.interval := by
  cases s with
  | call m => exact Air.interval_act c.air m
  | round i fate => exact Air.interval_act c.air (.stir (.round i c.now))
  | pass millis => rfl

theorem stopped_act {s : Step} (hs : s ≠ .call .stop) : (c.act s).air.station.stopped = c.air.station.stopped := by
  cases s with
  | call m => exact Air.stopped_act_of_ne fun hm => hs (by rw [hm])
  | round i fate => exact Air.stopped_stir c.air (.round i c.now)
  | pass millis => rfl

theorem orderly_run (h : c.Orderly) {steps : List Step} (hs : ∀ s ∈ steps, s ≠ .call .stop) :
    (c.run steps).Orderly ∧ (c.run steps).air.station.interval = c.air.station.interval ∧
      (c.run steps).air.station.stopped = c.air.station.stopped := by
  induction steps generalizing c with
  | nil => exact ⟨h, rfl, rfl⟩
  | cons s steps ih =>
    obtain ⟨horderly, hinterval, hstopped⟩ := ih (h.act s) fun t ht => hs t (List.mem_cons_of_mem s ht)
    exact ⟨horderly, hinterval.trans (interval_act c s), hstopped.trans (stopped_act (hs s List.mem_cons_self))⟩

theorem onTime_broadcast (h : c.Orderly) (hs : c.air.station.stopped = false) (hd : 0 < c.air.station.interval)
    (peer : PeerId) (port : UInt16) :
    (c.act (.call (.broadcast c.now peer port))).OnTime c.air.station.loops.length c.now (encode peer port) 0 := by
  refine ⟨⟨hs, ?_, ?_, rfl⟩, ?_, Nat.le_refl _, Nat.le_add_right _ _, fun k hk => absurd hk (Nat.not_lt_zero k)⟩
  · simp [act, Air.act, Air.broadcast, Air.unawareNext, hs]
  · have hne : c.air.station.interval ≠ 0 := Nat.ne_of_gt hd
    simp [act, Air.act, Air.broadcast, Station.broadcast, Sender.begin, hne]
  · rw [sendings, List.map_eq_nil_iff.2]
    · rfl
    · refine List.filter_eq_nil_iff.2 fun a ha hloop => ?_
      exact absurd (of_decide_eq_true hloop) (Nat.ne_of_lt (h.known a ha))

/-- So long after it was begun a loop has sent its beacons when they were due, and after a stop nothing is sent but what is
still due. -/
structure OnSchedule (c c' : Course) (i interval : Nat) (bytes : Bytes) (millis : Nat) : Prop where
  now : c'.now = c.now + millis
  sendings : ∃ n, c'.sendings i = timetable c.now interval bytes n ∧ (∀ k < n, k * interval ≤ millis) ∧
    millis ≤ n * interval ∧ (c'.Rests → n = millis / interval + 1)
  after : ∀ later, (c'.act (.call .stop)).Runs later → Trails c'.now c'.Rests c' ((c'.act (.call .stop)).run later)

/-- A loop that was begun at a station that was not stopped sends on schedule, whatever else goes on and whatever its
beacons come to. -/
theorem onSchedule_run {interval : Nat} (hd : 0 < interval) {before steps : List Step}
    (hbefore : ∀ s ∈ before, s ≠ .call .stop) (peer : PeerId) (port : UInt16) :
    let c := (new interval).run before
    let begun := c.act (.call (.broadcast c.now peer port))
    begun.Runs steps → (∀ s ∈ steps, s.Spares c.air.station.loops.length) →
      OnSchedule c (begun.run steps) c.air.station.loops.length interval (encode peer port) (elapsed steps) := by
  intro c begun hruns hspares
  obtain ⟨horderly, hinterval, hstopped⟩ := orderly_run (orderly_new interval) hbefore
  have hunstopped : ∀ s ∈ steps, s ≠ .call .stop := by
    rintro s hs rfl
    exact hspares _ hs
  obtain ⟨horderly', hinterval', -⟩ := orderly_run (horderly.act (.call (.broadcast c.now peer port))) hunstopped
  replace hinterval' : (begun.run steps).air.station.interval = interval := hinterval'.trans hinterval
  have hontime := onTime_broadcast horderly hstopped (Nat.lt_of_lt_of_eq hd hinterval.symm) peer port
  obtain ⟨n, hontime⟩ := hontime.run hruns hspares
  have hnow : (begun.run steps).now = c.now + elapsed steps := now_run begun steps
  have hsent := hontime.sent
  have hle := hontime.now_le
  have hrests := hontime.eq_of_rests (Nat.lt_of_lt_of_eq hd hinterval'.symm)
  change ∀ k < n, c.now + k * (begun.run steps).air.station.interval ≤ (begun.run steps).now at hsent
  change (begun.run steps).now ≤ c.now + n * (begun.run steps).air.station.interval at hle
  change (begun.run steps).Rests → n = ((begun.run steps).now - c.now) / (begun.run steps).air.station.interval + 1 at hrests
  rw [hinterval', hnow] at hsent hle hrests
  rw [Nat.add_sub_cancel_left] at hrests
  refine ⟨hnow, ⟨n, hinterval' ▸ hontime.sendings, fun k hk => Nat.le_of_add_le_add_left (hsent k hk),
    Nat.le_of_add_le_add_left hle, hrests⟩, fun later hlater => ?_⟩
  have hstop : Trails (begun.run steps).now (begun.run steps).Rests (begun.run steps) ((begun.run steps).act (.call .stop)) :=
    .of_eq rfl
  exact hstop.trans ((halted_stop horderly'.regular).run hlater)

end Course
end Beacon
end PeerDiscovery
