import PeerDiscovery.Proofs.Beacon.Turns

/-! A station whose loops take turns.
Whoever stops the station gives its loops a signal. A loop that is begun afterwards has missed it, but sees at its head that
the station was stopped. So after a stop every loop comes to its end, and does the same however often the station is stopped
again: `stop_for_good`. -/
namespace PeerDiscovery
namespace Beacon

structure Rota where
  station : Station
  /-- How often the signal was given. -/
  signals : Nat := 0
  ears : Nat → Ear := fun _ => {}

inductive Rota.Step where
  | listen (capacity : Nat)
  | broadcast (now : Nat) (peer : PeerId) (port : UInt16)
  | stop
  | join
  | touch (loop : Nat) (t : Touch)
  | turn (loop now : Nat) (eager : Bool)
  deriving DecidableEq

namespace Rota

def new (interval : Nat) : Rota := { station := { interval } }

def post? (w : Rota) (i : Nat) : Option Post := w.station.loops[i]?.map fun loop => { w.ears i with loop }

/-- A loop takes a turn. -/
def turn (w : Rota) (now : Nat) (eager : Bool) (p : Post) : Post :=
  p.turn w.station.stopped w.station.running (w.signals ≠ p.known) eager w.station.interval now

/-- The station has one loop more, which knows of the signals so far. -/
def began (w : Rota) (station : Station) : Rota :=
  { w with station, ears := Function.update w.ears w.station.loops.length { known := w.signals } }

def act (w : Rota) : Step → Rota
  | .listen capacity => w.began (w.station.listen capacity)
  | .broadcast now peer port => w.began (w.station.broadcast now peer port)
  | .stop => { w with station := w.station.stop, signals := w.signals + 1 }
  | .join => { w with station := { w.station with joined := w.station.loops.length } }
  | .touch i t => { w with station := { w.station with loops := w.station.loops.modify i t.apply } }
  | .turn i now eager =>
    match w.post? i with
    | none => w
    | some p =>
      let p := w.turn now eager p
      { w with
        station := { w.station with loops := w.station.loops.modify i fun _ => p.loop }
        ears := Function.update w.ears i p.toEar }

def run (w : Rota) (steps : List Step) : Rota := steps.foldl act w

def effect (w : Rota) (i : Nat) : Step → Post → Post
  | .touch j t, p => if j = i then { p with loop := t.apply p.loop } else p
  | .turn j now eager, p => if j = i then w.turn now eager p else p
  | _, p => p

theorem post?_of_loop {w : Rota} {i : Nat} {l : Loop} (hl : w.station.loops[i]? = some l) :
    w.post? i = some { w.ears i with loop := l } := by
  rw [post?, hl]
  rfl

theorem post?_eq_none_iff {w : Rota} {i : Nat} : w.post? i = none ↔ w.station.loops.length ≤ i := by
  rw [post?, Option.map_eq_none_iff, List.getElem?_eq_none_iff]

structure Born (w : Rota) (p : Post) : Prop where
  known : p.known = w.signals
  waits : p.waits = false
  puts : p.puts = []
  hand : p.loop.hand? = none
  queue : p.loop.queue = []
  fits : p.loop.Fits

theorem post?_began (w : Rota) {station : Station} {l : Loop} (hloops : station.loops = w.station.loops ++ [l]) (i : Nat) :
    (w.began station).post? i = w.post? i ∨
      w.post? i = none ∧ (w.began station).post? i = some { known := w.signals, loop := l } := by
  unfold post? began
  simp only [hloops]
  rcases Nat.lt_trichotomy i w.station.loops.length with hlt | rfl | hgt
  · refine .inl ?_
    rw [List.getElem?_append_left hlt, Function.update_of_ne (Nat.ne_of_lt hlt)]
  · refine .inr ⟨?_, ?_⟩
    · rw [List.getElem?_eq_none (Nat.le_refl _)]
      rfl
    · simp
  · refine .inl ?_
    rw [List.getElem?_eq_none (Nat.le_of_lt hgt), List.getElem?_eq_none (by simp; omega)]
    rfl

/-- A step does to a loop what it does, whatever it does to others, and may begin a new loop. -/
theorem post?_act (w : Rota) (s : Step) (i : Nat) :
    (w.act s).post? i = (w.post? i).map (w.effect i s) ∨
      w.post? i = none ∧ ∃ p, (w.act s).post? i = some p ∧ w.Born p := by
  have hid : (w.post? i).map (fun p => p) = w.post? i := Option.map_id' ..
  cases s with
  | listen capacity =>
    refine (post?_began w rfl i).imp (fun h => h.trans hid.symm) fun ⟨hnone, h⟩ => ⟨hnone, _, h, ?_⟩
    exact ⟨rfl, rfl, rfl, rfl, rfl, Nat.zero_le _⟩
  | broadcast now peer port =>
    refine (post?_began w rfl i).imp (fun h => h.trans hid.symm) fun ⟨hnone, h⟩ => ⟨hnone, _, h, ?_⟩
    exact ⟨rfl, rfl, rfl, rfl, rfl, trivial⟩
  | stop | join => exact .inl hid.symm
  | touch j t =>
    refine .inl ?_
    cases hl : w.station.loops[i]? with
    | none => simp [act, post?, List.getElem?_modify, hl]
    | some l => by_cases hj : j = i <;> simp [act, post?, effect, hl, hj]
  | turn j now eager =>
    refine .inl ?_
    cases hl : w.station.loops[i]? with
    | none =>
      have hnone : w.post? i = none := by simp [post?, hl]
      rw [hnone, Option.map_none]
      simp only [act]
      split
      · exact hnone
      · simp [post?, List.getElem?_modify, hl]
    | some l =>
      have hsome := post?_of_loop hl
      rw [hsome, Option.map_some]
      by_cases hj : j = i
      · subst hj
        simp only [act, hsome, effect, if_true]
        simp [post?, hl]
      · simp only [act, effect, if_neg hj]
        split
        · exact hsome
        · simp [post?, hl, hj, Function.update_of_ne (Ne.symm hj)]

/-- The signal was given if and only if the station was stopped, and a loop that waits was begun before that. -/
structure Sound (w : Rota) : Prop where
  stopped : w.station.stopped = true ↔ 0 < w.signals
  known : ∀ i p, w.post? i = some p → p.known ≤ w.signals ∧ (p.waits = true → p.known = 0)
  fits : ∀ i p, w.post? i = some p → p.loop.Fits
  runs : w.station.stopped = true ∨ w.station.running = true ∨ w.station.loops = []

theorem sound_new (interval : Nat) : Sound (new interval) := by
  refine ⟨⟨nofun, nofun⟩, fun i p hp => ?_, fun i p hp => ?_, .inr (.inr rfl)⟩ <;> cases hp

theorem act_cases (w : Rota) (s : Step) : s = .stop ∨
    ((w.act s).signals = w.signals ∧ (w.act s).station.stopped = w.station.stopped) := by
  cases s with
  | stop => exact .inl rfl
  | listen | broadcast | join | touch => exact .inr ⟨rfl, rfl⟩
  | turn i now eager =>
    simp only [act]
    split <;> exact .inr ⟨rfl, rfl⟩

theorem stopped_act {w : Rota} (hs : w.station.stopped = true) (s : Step) : (w.act s).station.stopped = true := by
  rcases w.act_cases s with rfl | ⟨-, hstopped⟩
  · rfl
  · exact hstopped.trans hs

theorem signals_le_act (w : Rota) (s : Step) : w.signals ≤ (w.act s).signals := by
  rcases w.act_cases s with rfl | ⟨hsignals, -⟩
  · exact Nat.le_succ _
  · exact Nat.le_of_eq hsignals.symm

theorem effect_cases (w : Rota) (i : Nat) (s : Step) (p : Post) : w.effect i s p = p ∨
    (∃ t : Touch, w.effect i s p = { p with loop := t.apply p.loop }) ∨
    ∃ now eager, w.effect i s p = w.turn now eager p := by
  cases s with
  | listen | broadcast | stop | join => exact .inl rfl
  | touch j t =>
    by_cases hj : j = i
    · exact .inr (.inl ⟨t, if_pos hj⟩)
    · exact .inl (if_neg hj)
  | turn j now eager =>
    by_cases hj : j = i
    · exact .inr (.inr ⟨now, eager, if_pos hj⟩)
    · exact .inl (if_neg hj)

theorem known_effect (w : Rota) (i : Nat) (s : Step) (p : Post) : (w.effect i s p).known = p.known := by
  rcases w.effect_cases i s p with h | ⟨t, h⟩ | ⟨now, eager, h⟩ <;> rw [h]
  exact Post.known_turn p

theorem waits_effect {w : Rota} {i : Nat} {s : Step} {p : Post} (hw : (w.effect i s p).waits = true) :
    p.waits = true ∨ w.station.stopped = false := by
  rcases w.effect_cases i s p with h | ⟨t, h⟩ | ⟨now, eager, h⟩ <;> rw [h] at hw
  · exact .inl hw
  · exact .inl hw
  · exact Post.waits_turn hw

theorem fits_effect (w : Rota) (i : Nat) (s : Step) {p : Post} (hp : p.loop.Fits) : (w.effect i s p).loop.Fits := by
  rcases w.effect_cases i s p with h | ⟨t, h⟩ | ⟨now, eager, h⟩ <;> rw [h]
  · exact hp
  · exact t.fits_apply hp
  · exact Post.fits_turn hp

theorem runs_act {w : Rota} (h : w.station.stopped = true ∨ w.station.running = true ∨ w.station.loops = []) (s : Step) :
    (w.act s).station.stopped = true ∨ (w.act s).station.running = true ∨ (w.act s).station.loops = [] := by
  cases s with
  | listen | broadcast => exact .inr (.inl rfl)
  | stop => exact .inl rfl
  | join => exact h
  | touch i t =>
    refine h.imp_right (Or.imp_right fun hnil => ?_)
    simp [act, hnil]
  | turn i now eager =>
    simp only [act]
    split
    · exact h
    · refine h.imp_right (Or.imp_right fun hnil => ?_)
      simp [hnil]

theorem Sound.signals_eq_zero {w : Rota} (h : w.Sound) (hs : w.station.stopped = false) : w.signals = 0 :=
  Nat.eq_zero_of_not_pos fun hpos => by simp [h.stopped.2 hpos] at hs

theorem Sound.act {w : Rota} (h : w.Sound) (s : Step) : (w.act s).Sound := by
  refine ⟨?_, fun i p' hp' => ?_, fun i p' hp' => ?_, runs_act h.runs s⟩
  · rcases w.act_cases s with rfl | ⟨hsignals, hstopped⟩
    · exact ⟨fun _ => Nat.succ_pos _, fun _ => rfl⟩
    · rw [hsignals, hstopped]
      exact h.stopped
  · rcases w.post?_act s i with heq | ⟨-, p, hp, hborn⟩
    · rw [heq] at hp'
      obtain ⟨p, hp, rfl⟩ := Option.map_eq_some_iff.1 hp'
      obtain ⟨hle, hwaits⟩ := h.known i p hp
      rw [known_effect]
      refine ⟨Nat.le_trans hle (w.signals_le_act s), fun hw => ?_⟩
      rcases waits_effect hw with hw | hrunning
      · exact hwaits hw
      · exact Nat.le_zero.1 (h.signals_eq_zero hrunning ▸ hle)
    · obtain rfl : p = p' := Option.some.inj (hp.symm.trans hp')
      refine ⟨hborn.known ▸ w.signals_le_act s, fun hw => ?_⟩
      rw [hborn.waits] at hw
      cases hw
  · rcases w.post?_act s i with heq | ⟨-, p, hp, hborn⟩
    · obtain ⟨p, hp, rfl⟩ := Option.map_eq_some_iff.1 (heq.symm.trans hp')
      exact w.fits_effect i s (h.fits i p hp)
    · exact Option.some.inj (hp.symm.trans hp') ▸ hborn.fits

theorem Sound.run {w : Rota} (h : w.Sound) (steps : List Step) : (w.run steps).Sound := by
  induction steps generalizing w with
  | nil => exact h
  | cons s steps ih => exact ih (h.act s)

theorem Sound.told {w : Rota} (h : w.Sound) (hs : w.station.stopped = true) {i : Nat} {p : Post} (hp : w.post? i = some p)
    (hw : p.waits = true) : decide (w.signals ≠ p.known) = true := by
  rw [(h.known i p hp).2 hw]
  exact decide_eq_true (Nat.ne_of_gt (h.stopped.1 hs))

theorem act_turn {w : Rota} {i : Nat} {p : Post} (hp : w.post? i = some p) (now : Nat) (eager : Bool) :
    w.act (.turn i now eager) =
      { w with
        station := { w.station with loops := w.station.loops.modify i fun _ => (w.turn now eager p).loop }
        ears := Function.update w.ears i (w.turn now eager p).toEar } := by
  simp [act, hp]

theorem exists_of_stepFirst? {stopped : Bool} {interval now : Nat} {loops loops' : List Loop} {sent : Option Bytes}
    (h : Station.stepFirst? stopped interval now loops = some (loops', sent)) :
    ∃ i l l', loops[i]? = some l ∧ l.step? stopped interval now = some (l', sent) ∧
      loops' = loops.modify i fun _ => l' := by
  induction loops generalizing loops' with
  | nil => cases h
  | cons l rest ih =>
    rw [Station.stepFirst?] at h
    cases hs : l.step? stopped interval now with
    | some p =>
      rw [hs] at h
      cases h
      exact ⟨0, l, p.1, rfl, hs, rfl⟩
    | none =>
      rw [hs] at h
      obtain ⟨p, hp, heq⟩ := Option.map_eq_some_iff.1 h
      cases heq
      obtain ⟨i, k, k', hk, hstep, hrest⟩ := ih hp
      exact ⟨i + 1, k, k', hk, hstep, by rw [hrest, List.modify_succ_cons]⟩

theorem Sound.exists_turns_of_step? {w : Rota} (h : w.Sound) {now : Nat} {station : Station} {sent : Option Bytes}
    (hs : w.station.step? now = some (station, sent)) :
    ∃ i, (w.act (.turn i now true)).station = station ∨ (w.run [.turn i now true, .turn i now true]).station = station := by
  obtain ⟨x, hx, heq⟩ := Option.map_eq_some_iff.1 hs
  cases heq
  obtain ⟨i, l, l', hl, hstep, hloops⟩ := exists_of_stepFirst? hx
  have hp := post?_of_loop hl
  obtain ⟨hknown, hwaits⟩ := h.known i _ hp
  have hsilent : w.station.stopped = false → decide (w.signals ≠ (w.ears i).known) = false := fun hstopped => by
    have hzero := h.signals_eq_zero hstopped
    rw [hzero] at hknown ⊢
    exact decide_eq_false fun hne => hne (Nat.le_zero.1 hknown).symm
  have htold : (w.ears i).waits = true → w.station.stopped = true → decide (w.signals ≠ (w.ears i).known) = true :=
    fun hw hstopped => h.told hstopped hp hw
  have hruns : w.station.stopped = true ∨ w.station.running = true :=
    h.runs.imp_right fun hr => hr.resolve_right fun hnil => by simp [hnil] at hl
  refine ⟨i, ?_⟩
  rcases Post.turn_eager (p := { w.ears i with loop := l }) hsilent htold hruns hstep with hone | ⟨hhead, htwo⟩
  · refine .inl ?_
    rw [act_turn hp, Rota.turn, hone, ← hloops]
  · refine .inr ?_
    have hact : w.act (.turn i now true) =
        { w with ears := Function.update w.ears i { w.ears i with waits := true } } := by
      rw [act_turn hp, Rota.turn, hhead, modify_const_self hl]
    have hp' : (w.act (.turn i now true)).post? i = some { w.ears i with waits := true, loop := l } := by
      rw [hact]
      simp [post?, hl]
    have hrun : w.run [.turn i now true, .turn i now true] = (w.act (.turn i now true)).act (.turn i now true) := rfl
    rw [hrun, act_turn hp', hact, hloops, ← htwo]
    rfl

/-- For a loop that is not there yet this is how many turns it needs if it is begun before a stop. -/
def rank (w : Rota) (i : Nat) : Nat := ((w.post? i).map Post.rank).getD 3

def budget (w : Rota) (i : Nat) : Nat := ((w.post? i).map Post.budget).getD 0

def puts (w : Rota) (i : Nat) : List Put := ((w.post? i).map fun p => p.puts).getD []

def queue (w : Rota) (i : Nat) : List Beacon := ((w.post? i).map fun p => p.loop.queue).getD []

structure Wanes (i : Nat) (w w' : Rota) (n : Nat) : Prop where
  rank : w'.rank i ≤ w.rank i - n
  puts : ∃ extra, w'.puts i = w.puts i ++ extra ∧ extra.length + w'.budget i ≤ w.budget i
  queue : w.budget i = 0 → (w'.queue i).Sublist (w.queue i)

/-- A step that is a turn of the loop `i` in which no full queue holds it up. -/
def isFree (w : Rota) (i : Nat) : Step → Bool
  | .turn j _ _ => j = i && (w.post? i).any fun p => ¬p.loop.IsHeldUp
  | _ => false

def freeTurns (i : Nat) : Rota → List Step → Nat
  | _, [] => 0
  | w, s :: steps => (if w.isFree i s then 1 else 0) + freeTurns i (w.act s) steps

namespace Wanes

variable {w w' w'' : Rota} {i n n' : Nat}

theorem of_eq (h : w'.post? i = w.post? i) : Wanes i w w' 0 := by
  refine ⟨?_, ⟨[], ?_, ?_⟩, fun _ => ?_⟩
  · rw [Rota.rank, Rota.rank, h]
    exact Nat.le_refl _
  · rw [Rota.puts, Rota.puts, h, List.append_nil]
  · rw [Rota.budget, Rota.budget, h, List.length_nil, Nat.zero_add]
  · rw [Rota.queue, Rota.queue, h]

theorem of_post {p p' : Post} (hp : w.post? i = some p) (hp' : w'.post? i = some p') (h : p.Wanes p' n) :
    Wanes i w w' n := by
  refine ⟨?_, ?_, ?_⟩
  · simpa [Rota.rank, hp, hp'] using h.rank
  · simpa [Rota.puts, Rota.budget, hp, hp'] using h.puts
  · simpa [Rota.budget, Rota.queue, hp, hp'] using h.queue

theorem trans (h : Wanes i w w' n) (h' : Wanes i w' w'' n') : Wanes i w w'' (n + n') := by
  obtain ⟨extra, hextra, hle⟩ := h.puts
  obtain ⟨extra', hextra', hle'⟩ := h'.puts
  have hrank := h.rank
  have hrank' := h'.rank
  refine ⟨by omega, ⟨extra ++ extra', by rw [hextra', hextra, List.append_assoc], ?_⟩, fun hzero => ?_⟩
  · rw [List.length_append]
    omega
  · exact (h'.queue (by omega)).trans (h.queue hzero)

end Wanes

variable {w : Rota}

theorem Wanes.of_born {w' : Rota} {i : Nat} {p : Post} (hnone : w.post? i = none) (hp : w'.post? i = some p)
    (h : w.Born p) : Wanes i w w' 0 := by
  have hrank := Post.rank_le_one h.hand h.waits
  have hbudget := Post.budget_of_rank hrank
  refine ⟨?_, ⟨[], ?_, ?_⟩, fun _ => ?_⟩
  · simp only [Rota.rank, hnone, hp, Option.map_some, Option.map_none, Option.getD_some, Option.getD_none]
    omega
  · simp [Rota.puts, hnone, hp, h.puts]
  · simp [Rota.budget, hp, hbudget]
  · simp [Rota.queue, hp, h.queue]

theorem Sound.wanes_effect (h : w.Sound) (hs : w.station.stopped = true) (s : Step) {i : Nat} {p : Post}
    (hp : w.post? i = some p) : p.Wanes (w.effect i s p) (if w.isFree i s then 1 else 0) := by
  have hrefl : p.Wanes p 0 := .of_le (Nat.le_refl _) rfl (.refl _)
  cases s with
  | listen | broadcast | stop | join => exact hrefl
  | touch j t =>
    simp only [effect]
    split
    · exact p.wanes_touch t
    · exact hrefl
  | turn j now eager =>
    by_cases hj : j = i
    · have hfree : (if w.isFree i (.turn j now eager) then 1 else 0) = if p.loop.IsHeldUp then 0 else 1 := by
        by_cases hheldUp : p.loop.IsHeldUp <;> simp [isFree, hj, hp, hheldUp]
      rw [hfree, effect, if_pos hj, Rota.turn, hs]
      exact (Post.turned (h.told hs hp)).wanes
    · simp only [effect, isFree, if_neg hj, decide_eq_false hj]
      exact hrefl

/-- Each step brings each loop of a station that was stopped closer to its end. -/
theorem Sound.wanes (h : w.Sound) (hs : w.station.stopped = true) (s : Step) (i : Nat) :
    Wanes i w (w.act s) (if w.isFree i s then 1 else 0) := by
  have hnotFree : w.post? i = none → w.isFree i s = false := by
    intro hnone
    cases s <;> simp [isFree, hnone]
  rcases w.post?_act s i with heq | ⟨hnone, p, hp, hborn⟩
  · cases hp : w.post? i with
    | none =>
      rw [hp, Option.map_none] at heq
      rw [hnotFree hp]
      exact .of_eq (heq.trans hp.symm)
    | some p =>
      rw [hp, Option.map_some] at heq
      exact .of_post hp heq (h.wanes_effect hs s hp)
  · rw [hnotFree hnone]
    exact .of_born hnone hp hborn

theorem Sound.wanes_run (h : w.Sound) (hs : w.station.stopped = true) (steps : List Step) (i : Nat) :
    Wanes i w (w.run steps) (freeTurns i w steps) := by
  induction steps generalizing w with
  | nil => exact .of_eq rfl
  | cons s steps ih => exact (h.wanes hs s i).trans (ih (h.act s) (stopped_act hs s))

theorem interval_act (w : Rota) (s : Step) : (w.act s).station.interval = w.station.interval := by
  cases s with
  | listen | broadcast | stop | join | touch => rfl
  | turn i now eager =>
    simp only [act]
    split <;> rfl

def Step.begins : Step → Nat
  | listen _ | broadcast _ _ _ => 1
  | _ => 0

theorem length_act (w : Rota) (s : Step) : (w.act s).station.loops.length = w.station.loops.length + s.begins := by
  cases s with
  | listen | broadcast => exact List.length_append
  | stop | join => rfl
  | touch i t => exact List.length_modify ..
  | turn i now eager =>
    simp only [act]
    split
    · rfl
    · exact List.length_modify ..

/-- Two stations that were stopped and whose loops will put out the same. -/
structure Twin (w v : Rota) : Prop where
  left : w.Sound ∧ w.station.stopped = true
  right : v.Sound ∧ v.station.stopped = true
  interval : w.station.interval = v.station.interval
  length : w.station.loops.length = v.station.loops.length
  posts : ∀ i p q, w.post? i = some p → v.post? i = some q → p.Twin q

namespace Twin

variable {w v : Rota}

theorem refl (h : w.Sound) (hs : w.station.stopped = true) : w.Twin w := by
  refine ⟨⟨h, hs⟩, ⟨h, hs⟩, rfl, rfl, fun i p q hp hq => ?_⟩
  obtain rfl : p = q := Option.some.inj (hp.symm.trans hq)
  exact ⟨rfl, .inl ⟨rfl, rfl⟩⟩

theorem isNone_iff (h : w.Twin v) (i : Nat) : w.post? i = none ↔ v.post? i = none := by
  rw [post?_eq_none_iff, post?_eq_none_iff, h.length]

theorem effect (h : w.Twin v) (s : Step) {i : Nat} {p q : Post} (hp : w.post? i = some p) (hq : v.post? i = some q) :
    (w.effect i s p).Twin (v.effect i s q) := by
  have hpq := h.posts i p q hp hq
  cases s with
  | listen | broadcast | stop | join => exact hpq
  | touch j t =>
    simp only [Rota.effect]
    split
    · exact hpq.touch t
    · exact hpq
  | turn j now eager =>
    simp only [Rota.effect]
    split
    · rw [Rota.turn, Rota.turn, h.left.2, h.right.2, h.interval]
      exact hpq.turn (h.left.1.told h.left.2 hp) (h.right.1.told h.right.2 hq) eager _ now
    · exact hpq

theorem act (h : w.Twin v) (s : Step) : (w.act s).Twin (v.act s) := by
  refine ⟨⟨h.left.1.act s, stopped_act h.left.2 s⟩, ⟨h.right.1.act s, stopped_act h.right.2 s⟩, ?_, ?_, ?_⟩
  · rw [interval_act, interval_act, h.interval]
  · rw [length_act, length_act, h.length]
  · intro i p' q' hp' hq'
    have hnone := h.isNone_iff i
    rcases w.post?_act s i with hw | ⟨hw, p, hp, hborn⟩ <;> rcases v.post?_act s i with hv | ⟨hv, q, hq, hborn'⟩
    · obtain ⟨p, hp, rfl⟩ := Option.map_eq_some_iff.1 (hw.symm.trans hp')
      obtain ⟨q, hq, rfl⟩ := Option.map_eq_some_iff.1 (hv.symm.trans hq')
      exact h.effect s hp hq
    · rw [hnone.2 hv, hp'] at hw
      cases hw
    · rw [hnone.1 hw, hq'] at hv
      cases hv
    · obtain rfl := Option.some.inj (hp.symm.trans hp')
      obtain rfl := Option.some.inj (hq.symm.trans hq')
      refine ⟨hborn.puts.trans hborn'.puts.symm, .inr ⟨?_, ?_, hborn.queue.trans hborn'.queue.symm⟩⟩
      · exact Post.budget_of_rank (Post.rank_le_one hborn.hand hborn.waits)
      · exact Post.budget_of_rank (Post.rank_le_one hborn'.hand hborn'.waits)

theorem stop (h : w.Twin v) : (w.act .stop).Twin v :=
  ⟨⟨h.left.1.act .stop, rfl⟩, h.right, h.interval, h.length, h.posts⟩

theorem run (h : w.Twin v) (steps : List Step) : (w.run steps).Twin (v.run (steps.filter fun s => s ≠ .stop)) := by
  induction steps generalizing w v with
  | nil => exact h
  | cons s steps ih =>
    by_cases hs : s = .stop
    · subst hs
      exact ih h.stop
    · rw [List.filter_cons_of_pos (by simpa using hs)]
      exact ih (h.act s)

theorem eq (h : w.Twin v) (i : Nat) : w.puts i = v.puts i ∧ w.queue i = v.queue i := by
  have hnone := h.isNone_iff i
  unfold puts queue
  cases hp : w.post? i with
  | none =>
    rw [hnone.1 hp]
    exact ⟨rfl, rfl⟩
  | some p =>
    obtain ⟨q, hq⟩ := Option.ne_none_iff_exists'.1 fun hv => by simp [hnone.2 hv] at hp
    have hpq := h.posts i p q hp hq
    rw [hq]
    refine ⟨hpq.puts, ?_⟩
    rcases hpq.loop with ⟨hloop, -⟩ | ⟨-, -, hqueue⟩
    · exact congrArg Loop.queue hloop
    · exact hqueue

end Twin

theorem budget_le_one (w : Rota) (i : Nat) : w.budget i ≤ 1 := by
  unfold budget
  cases w.post? i with
  | none => exact Nat.zero_le _
  | some p => exact p.budget_le_one

theorem rank_le_three (w : Rota) (i : Nat) : w.rank i ≤ 3 := by
  unfold rank
  cases w.post? i with
  | none => exact Nat.le_refl _
  | some p => exact p.rank_le_three

theorem isActive_of_rank {w : Rota} {i : Nat} (h : w.rank i = 0) {l : Loop} (hl : w.station.loops[i]? = some l) :
    ¬l.IsActive := by
  rw [rank, post?_of_loop hl] at h
  exact Post.isActive_of_rank h

theorem budget_of_rank {w : Rota} {i : Nat} (h : w.rank i = 0) : w.budget i = 0 := by
  unfold rank at h
  unfold budget
  cases hp : w.post? i with
  | none => rfl
  | some p =>
    rw [hp] at h
    exact Post.budget_of_rank (Nat.le_trans (Nat.le_of_eq h) (Nat.zero_le 1))

namespace Wanes

variable {w w' : Rota} {i n : Nat}

theorem rank_eq_zero (h : Wanes i w w' n) (hn : 3 ≤ n) : w'.rank i = 0 := by
  have hrank := h.rank
  have hle := w.rank_le_three i
  omega

theorem budget_eq_zero (h : Wanes i w w' n) (hb : w.budget i = 0) : w'.budget i = 0 := by
  obtain ⟨extra, -, hle⟩ := h.puts
  omega

theorem quiet (h : Wanes i w w' n) (hb : w.budget i = 0) :
    w'.puts i = w.puts i ∧ (w'.queue i).Sublist (w.queue i) := by
  obtain ⟨extra, hextra, hle⟩ := h.puts
  obtain rfl : extra = [] := List.length_eq_zero_iff.1 (by omega)
  exact ⟨by rw [hextra, List.append_nil], h.queue hb⟩

end Wanes

/-- Whatever went on at a station before it was stopped, and whatever goes on there afterwards: each loop puts out at most
one thing more, and one that is begun afterwards puts out nothing. Every loop has ended, and its queue is closed, after
three turns in which no full queue holds it up, as none does from which someone has just taken a beacon. From then on it
sends nothing and nothing comes into its queue. It makes no difference to what is sent and to what is in the queues how
often the station is stopped again: all that such a stop does is that the station does not run, which it does again where a
loop was begun since. -/
theorem stop_for_good (interval : Nat) (before settling later : List Step) :
    let w := ((new interval).run before).act .stop
    let w' := w.run settling
    let born := w.station.loops.length
    (∀ i, ∃ extra, w'.puts i = w.puts i ++ extra ∧ extra.length ≤ 1 ∧ (born ≤ i → extra = [])) ∧
    (∀ (i : Nat) (l : Loop), w'.station.loops[i]? = some l → 3 ≤ freeTurns i w settling →
      ¬l.IsActive ∧ ∀ r, l = .receiver r → r.Closed) ∧
    (∀ (i : Nat) (r : Receiver) (n : Nat), w'.station.loops[i]? = some (.receiver r) → 0 < r.capacity → 0 < n →
      ¬((Touch.draw n).apply (.receiver r)).IsHeldUp) ∧
    (∀ i, born ≤ i ∨ 3 ≤ freeTurns i w settling →
      (w'.run later).puts i = w'.puts i ∧ ((w'.run later).queue i).Sublist (w'.queue i)) ∧
    (∀ i, (w.run (settling.filter fun s => s ≠ .stop)).puts i = w'.puts i ∧
      (w.run (settling.filter fun s => s ≠ .stop)).queue i = w'.queue i) ∧
    (w'.act .stop).station = { w'.station with running := false } ∧ (w'.act .stop).ears = w'.ears := by
  intro w w' born
  have hsound : w.Sound := ((sound_new interval).run before).act .stop
  have hsound' : w'.Sound := hsound.run settling
  have htwin : w'.Twin (w.run (settling.filter fun s => s ≠ .stop)) := (Twin.refl hsound rfl).run settling
  have hwanes : ∀ i, Wanes i w w' (freeTurns i w settling) := hsound.wanes_run rfl settling
  have hborn : ∀ i, born ≤ i → w.budget i = 0 := fun i hi => by
    rw [budget, post?_eq_none_iff.2 hi]
    rfl
  refine ⟨fun i => ?_, fun i l hl hturns => ?_, fun i r n hr hc hn => ?_, fun i hi => ?_, fun i => ?_, ?_, rfl⟩
  · obtain ⟨extra, hextra, hle⟩ := (hwanes i).puts
    have hone := w.budget_le_one i
    refine ⟨extra, hextra, by omega, fun hi => List.length_eq_zero_iff.1 ?_⟩
    have hzero := hborn i hi
    omega
  · have hended : ¬l.IsActive := isActive_of_rank ((hwanes i).rank_eq_zero hturns) hl
    refine ⟨hended, ?_⟩
    rintro r rfl
    exact Bool.eq_false_of_not_eq_true hended
  · exact (hsound'.fits i _ (post?_of_loop hr)).not_isHeldUp_draw hc hn
  · have hbudget : w'.budget i = 0 := by
      rcases hi with hi | hturns
      · exact (hwanes i).budget_eq_zero (hborn i hi)
      · exact budget_of_rank ((hwanes i).rank_eq_zero hturns)
    exact (hsound'.wanes_run htwin.left.2 later i).quiet hbudget
  · exact (htwin.eq i).imp Eq.symm Eq.symm
  · change { w'.station with running := false, stopped := true } = { w'.station with running := false }
    rw [← htwin.left.2]

/-- Every loop has ended, and yet it shows that the station was stopped again: it ran, since a loop was begun in between. -/
theorem further_stop_shows :
    let w := (new 1000).run [.stop, .listen 1, .turn 0 0 false]
    (w.station.stopped = true ∧ ∀ l ∈ w.station.loops, ¬l.IsActive) ∧
      w.station.running = true ∧ (w.act .stop).station.running = false := by
  decide

/-- Two loops miss the signal once: one receives another beacon, and one sends another. The loops that are begun afterwards
do neither. -/
theorem stop_for_good_missed :
    let peer : PeerId := ⟨[1, 2, 3, 4, 5, 6, 7, 8, 9, 10, 11, 12, 13, 14, 15, 16], by decide⟩
    let source : Net.IpAddr := .v4 ⟨10, 0, 0, 7⟩
    let before : List Step := [.listen 1, .broadcast 0 peer 80, .turn 0 0 false, .turn 1 0 false,
      .touch 0 (.arrive (.datagram (encode peer 81) source))]
    let settling : List Step := [.turn 0 0 false, .turn 1 0 false, .listen 1, .stop, .turn 0 0 false, .turn 1 0 false,
      .turn 0 0 false, .turn 1 0 false, .broadcast 0 peer 80]
    let later : List Step := [.turn 2 0 false, .turn 3 0 false, .touch 0 (.draw 1), .turn 0 0 false]
    let w := ((new 1000).run before).act .stop
    let w' := w.run settling
    (3 ≤ freeTurns 0 w settling ∧ 3 ≤ freeTurns 1 w settling) ∧
      w'.puts 0 = [.queued ⟨peer, .tcp "10.0.0.7" 81⟩] ∧ w'.puts 1 = [.sent (encode peer 80)] ∧
      (∀ (i : Nat) (l : Loop), i < 2 → w'.station.loops[i]? = some l → ¬l.IsActive) ∧
      ∀ i < 4, (w'.run later).puts i = w'.puts i := by
  intro peer source before settling later w w'
  have hturns : 3 ≤ freeTurns 0 w settling ∧ 3 ≤ freeTurns 1 w settling := by decide +kernel
  have hputs : w'.puts 0 = [.queued ⟨peer, .tcp "10.0.0.7" 81⟩] ∧ w'.puts 1 = [.sent (encode peer 80)] := by
    decide +kernel
  have hborn : w.station.loops.length = 2 := by decide +kernel
  obtain ⟨-, hended, -, hquiet, -⟩ := stop_for_good 1000 before settling later
  have hcases : ∀ i, 2 ≤ i ∨ 3 ≤ freeTurns i w settling := by
    intro i
    match i with
    | 0 => exact .inr hturns.1
    | 1 => exact .inr hturns.2
    | i + 2 => exact .inl (Nat.le_add_left 2 i)
  refine ⟨hturns, hputs.1, hputs.2, fun i l hi hl => ?_, fun i _ => ?_⟩
  · exact (hended i l hl ((hcases i).resolve_left (Nat.not_le.2 hi))).1
  · exact (hquiet i ((hcases i).imp_left fun h => hborn ▸ h)).1

end Rota

end Beacon
end PeerDiscovery
