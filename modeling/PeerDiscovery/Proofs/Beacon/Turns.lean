import PeerDiscovery.Proofs.Beacon.Schedule

/-! How a loop learns that its station was stopped.
At its head a loop looks whether its station was stopped; else it waits, for the signal that each stop gives or for something
to do (`Post.turn`). So once the station was stopped each turn brings it closer to its end (`Post.turned`), unless a full
queue holds it up, and it puts out at most one thing more. -/
namespace PeerDiscovery
namespace Beacon

inductive Put where
  | sent (bytes : Bytes)
  | queued (beacon : Beacon)
  deriving DecidableEq, Repr

namespace Receiver

/-- One round of the loop, whatever room it receives into. A failure to receive ends it where its station does not run. -/
def stepOn? (stopped running : Bool) (r : Receiver) : Option Receiver :=
  if r.active = true ∧ r.held.isNone = true ∧ r.arrivals.head? = some .failure ∧ running = false then some r.finish
  else r.step? stopped

theorem stepIn?_eq (stopped running : Bool) (r : Receiver) (room : Room) :
    (r.stepIn? stopped running room).map Prod.fst = r.stepOn? stopped running := by
  unfold stepOn?
  split
  · next hfails =>
    obtain ⟨ha, hheld, hfirst, hrunning⟩ := hfails
    obtain ⟨rest, harrivals⟩ := List.head?_eq_some_iff.1 hfirst
    rw [stepIn?, if_neg (by simpa using ha), Option.isNone_iff_eq_none.1 hheld, harrivals]
    simp only [hrunning]
    split <;> rfl
  · next hgoes =>
    rw [← stepIn?_fst stopped r room]
    unfold stepIn?
    split
    · rfl
    · next ha =>
      cases hheld : r.held with
      | some beacon => rfl
      | none =>
        simp only
        split
        · rfl
        · rcases harrivals : r.arrivals with _ | ⟨_ | _, rest⟩
          · rfl
          · rfl
          · have hrunning : running = true := by simpa [not_not.1 ha, hheld, harrivals] using hgoes
            simp [hrunning]

variable {r : Receiver} {stopped running : Bool}

theorem stepOn?_of_ended (ha : r.active = false) : r.stepOn? stopped running = none := by
  simp [stepOn?, step?, ha]

theorem stepOn?_of_held {beacon : Beacon} (ha : r.active = true) (hheld : r.held = some beacon) :
    r.stepOn? stopped running =
      if ¬r.consumed then some r.finish
      else if r.queue.length < r.capacity then some { r with held := none, queue := r.queue ++ [beacon] }
      else none := by
  simp [stepOn?, step?, ha, hheld]

theorem stepOn?_true (ha : r.active = true) (hheld : r.held = none) : r.stepOn? true running = some r.finish := by
  simp [stepOn?, step?, ha, hheld]

theorem stepOn?_cons {arrival : Arrival} {rest : List Arrival} (ha : r.active = true) (hheld : r.held = none)
    (harrivals : r.arrivals = arrival :: rest) :
    r.stepOn? false running = if arrival = .failure ∧ running = false then some r.finish
      else some { r with arrivals := rest, held := arrival.beacon? } := by
  simp [stepOn?, step?, ha, hheld, harrivals]

/-- It makes a difference only where there is a failure and the station does not run. -/
theorem stepOn?_eq_step? (h : stopped = true ∨ running = true) : r.stepOn? stopped running = r.step? stopped := by
  unfold stepOn?
  split
  · next hfails =>
    obtain ⟨ha, hheld, -, hrunning⟩ := hfails
    obtain rfl : stopped = true := h.resolve_right (by simp [hrunning])
    simp [step?, ha, Option.isNone_iff_eq_none.1 hheld]
  · rfl

/-- Whether the station runs matters only where the loop comes to nothing either way. -/
theorem stepOn?_running (stopped running running' : Bool) (r : Receiver) :
    r.stepOn? stopped running = r.stepOn? stopped running' ∨
    ∃ r₁ r₂, r.stepOn? stopped running = some r₁ ∧ r.stepOn? stopped running' = some r₂ ∧
      r₁.held = none ∧ r₁.queue = r.queue ∧ r₂.held = none ∧ r₂.queue = r.queue := by
  by_cases hfails : r.active = true ∧ r.held.isNone = true ∧ r.arrivals.head? = some .failure
  · obtain ⟨ha, hnone, hfirst⟩ := hfails
    have hheld := Option.isNone_iff_eq_none.1 hnone
    obtain ⟨rest, harrivals⟩ := List.head?_eq_some_iff.1 hfirst
    have hstep : ∀ running, ∃ r', r.stepOn? stopped running = some r' ∧ r'.held = none ∧ r'.queue = r.queue := by
      intro running
      cases stopped with
      | true => exact ⟨_, stepOn?_true ha hheld, rfl, rfl⟩
      | false =>
        rw [stepOn?_cons ha hheld harrivals]
        split <;> exact ⟨_, rfl, rfl, rfl⟩
    obtain ⟨r₁, h₁, hheld₁, hqueue₁⟩ := hstep running
    obtain ⟨r₂, h₂, hheld₂, hqueue₂⟩ := hstep running'
    exact .inr ⟨r₁, r₂, h₁, h₂, hheld₁, hqueue₁, hheld₂, hqueue₂⟩
  · have hgoes : ∀ running, r.stepOn? stopped running = r.step? stopped := fun running =>
      if_neg fun h => hfails ⟨h.1, h.2.1, h.2.2.1⟩
    exact .inl ((hgoes running).trans (hgoes running').symm)

theorem queue_stepOn? {r' : Receiver} (hs : r.stepOn? stopped running = some r') (hfits : r.queue.length ≤ r.capacity) :
    r'.queue.length ≤ r'.capacity := by
  unfold stepOn? at hs
  split at hs
  · cases hs
    exact hfits
  · rw [capacity_step hs]
    unfold step? at hs
    split at hs
    · cases hs
    · split at hs
      · split at hs
        · cases hs
          exact hfits
        · split at hs <;> cases hs
          rwa [List.length_append]
      · split at hs
        · cases hs
          exact hfits
        · split at hs <;> cases hs
          exact hfits

end Receiver

namespace Loop

def Fits : Loop → Prop
  | receiver r => r.queue.length ≤ r.capacity
  | sender _ => True

def hand? : Loop → Option Beacon
  | receiver r => r.held
  | sender _ => none

/-- One round of a loop, if it need not wait, with what it puts out. -/
def stepOn? (stopped running : Bool) (interval now : Nat) : Loop → Option (Loop × List Put)
  | receiver r => (r.stepOn? stopped running).map fun r' => (receiver r', (r'.queue.drop r.queue.length).map Put.queued)
  | sender s => (s.step? stopped interval now).map fun (s, sent) => (sender s, sent.toList.map Put.sent)

/-- The queue of a loop is full and someone holds it, so that the loop cannot go on with what it has in hand. -/
def IsHeldUp : Loop → Prop
  | receiver r => r.active = true ∧ r.held.isSome = true ∧ r.consumed = true ∧ r.capacity ≤ r.queue.length
  | sender _ => False

instance (l : Loop) : Decidable l.IsHeldUp :=
  match l with
  | receiver _ => inferInstanceAs (Decidable (_ ∧ _))
  | sender _ => isFalse id

theorem stepOn?_of_step? {stopped running : Bool} {interval now : Nat} {l l' : Loop} {sent : Option Bytes}
    (h : stopped = true ∨ running = true) (hs : l.step? stopped interval now = some (l', sent)) :
    ∃ puts, l.stepOn? stopped running interval now = some (l', puts) := by
  cases l with
  | receiver r =>
    obtain ⟨r', hr, heq⟩ := Option.map_eq_some_iff.1 hs
    cases heq
    exact ⟨_, by rw [Loop.stepOn?, Receiver.stepOn?_eq_step? h, hr, Option.map_some]⟩
  | sender s =>
    obtain ⟨p, hp, heq⟩ := Option.map_eq_some_iff.1 hs
    cases heq
    exact ⟨_, by rw [Loop.stepOn?, hp, Option.map_some]⟩

theorem not_isActive_finish (l : Loop) : ¬l.finish.IsActive := by
  cases l <;> simp [finish, IsActive, Receiver.finish, Sender.finish]

theorem queue_finish (l : Loop) : l.finish.queue = l.queue := by
  cases l <;> rfl

theorem Fits.stepOn? {stopped running : Bool} {interval now : Nat} {l l' : Loop} {puts : List Put} (h : l.Fits)
    (hs : l.stepOn? stopped running interval now = some (l', puts)) : l'.Fits := by
  cases l with
  | receiver r =>
    obtain ⟨r', hr, heq⟩ := Option.map_eq_some_iff.1 hs
    cases heq
    exact Receiver.queue_stepOn? hr h
  | sender s =>
    obtain ⟨p, -, heq⟩ := Option.map_eq_some_iff.1 hs
    cases heq
    trivial

/-- Whoever has just taken something from a queue does not hold the loop up. -/
theorem Fits.not_isHeldUp_draw {r : Receiver} (h : (receiver r).Fits) (hc : 0 < r.capacity) {n : Nat} (hn : 0 < n) :
    ¬(receiver (r.draw n)).IsHeldUp := by
  rintro ⟨-, -, -, hfull⟩
  have hlength : (r.draw n).queue.length = r.queue.length - n := List.length_drop
  have hfits : r.queue.length ≤ r.capacity := h
  change r.capacity ≤ (r.draw n).queue.length at hfull
  omega

end Loop

structure Ear where
  /-- How often the signal had been given when the loop was begun. -/
  known : Nat := 0
  /-- The loop is past its head and waits for the signal, or for something to do. -/
  waits : Bool := false
  puts : List Put := []

structure Post extends Ear where
  loop : Loop

namespace Post

/-- What a round makes of the loop, unless it has to wait. -/
def goOn (p : Post) : Option (Loop × List Put) → Post
  | none => p
  | some (loop, puts) => { p with loop, waits := false, puts := p.puts ++ puts }

/-- Whether the loop sees in its turn that the station was stopped. At its head it looks. Where it waits and there is a signal
but also something to do, either may come first: the signal, if the loop is `eager`. -/
def aware (stopped told eager : Bool) (interval now : Nat) (p : Post) : Bool :=
  if p.waits then told && (eager || (p.loop.step? false interval now).isNone) else stopped

def turn (stopped running told eager : Bool) (interval now : Nat) (p : Post) : Post :=
  if p.loop.IsActive ∧ p.loop.hand? = none ∧ p.waits = false ∧ stopped = false then { p with waits := true }
  else p.goOn (p.loop.stepOn? (p.aware stopped told eager interval now) running interval now)

theorem turn_stopped (running told eager : Bool) (interval now : Nat) (p : Post) :
    p.turn true running told eager interval now =
      p.goOn (p.loop.stepOn? (p.aware true told eager interval now) running interval now) :=
  if_neg (by simp)

section

variable {stopped running told eager : Bool} {interval now : Nat}

theorem known_goOn (p : Post) (x : Option (Loop × List Put)) : (p.goOn x).known = p.known := by
  cases x <;> rfl

theorem waits_goOn {p : Post} {x : Option (Loop × List Put)} (h : (p.goOn x).waits = true) : p.waits = true := by
  cases x with
  | none => exact h
  | some _ => cases h

theorem known_turn (p : Post) : (p.turn stopped running told eager interval now).known = p.known := by
  unfold turn
  split
  · rfl
  · exact known_goOn p _

theorem fits_turn {p : Post} (h : p.loop.Fits) : (p.turn stopped running told eager interval now).loop.Fits := by
  unfold turn
  split
  · exact h
  · generalize hx : p.loop.stepOn? _ running interval now = x
    cases x with
    | none => exact h
    | some y => exact h.stepOn? hx

/-- A loop begins to wait only while its station is not stopped. -/
theorem waits_turn {p : Post} (h : (p.turn stopped running told eager interval now).waits = true) :
    p.waits = true ∨ stopped = false := by
  unfold turn at h
  split at h
  · next hhead => exact .inr hhead.2.2.2
  · exact .inl (waits_goOn h)

end

section

variable {stopped running told : Bool} {interval now : Nat} {p : Post} (hfirst : stopped = false → told = false)
  (hwaits : p.waits = true → stopped = true → told = true)

include hfirst hwaits

theorem aware_eager : p.aware stopped told true interval now = stopped := by
  unfold aware
  cases stopped with
  | false => simp [hfirst rfl]
  | true =>
    split
    · next hw => simp [hwaits hw rfl]
    · rfl

/-- What a loop does that need not wait it does in one turn, or in two from its head. -/
theorem turn_eager {l : Loop} {sent : Option Bytes} (hruns : stopped = true ∨ running = true)
    (hs : p.loop.step? stopped interval now = some (l, sent)) :
    (p.turn stopped running told true interval now).loop = l ∨
      (p.turn stopped running told true interval now = { p with waits := true } ∧
        (({ p with waits := true } : Post).turn stopped running told true interval now).loop = l) := by
  obtain ⟨puts, hputs⟩ := Loop.stepOn?_of_step? hruns hs
  by_cases hhead : p.loop.IsActive ∧ p.loop.hand? = none ∧ p.waits = false ∧ stopped = false
  · refine .inr ⟨if_pos hhead, ?_⟩
    have hstopped := hhead.2.2.2
    have haware : ({ p with waits := true } : Post).aware stopped told true interval now = stopped :=
      aware_eager hfirst fun _ h => by simp [hstopped] at h
    rw [turn, if_neg (by simp), haware, hputs]
    rfl
  · refine .inl ?_
    rw [turn, if_neg hhead, aware_eager hfirst hwaits, hputs]
    rfl

end

/-- How many turns the loop still needs at most, once its station was stopped. -/
def rank (p : Post) : Nat :=
  if ¬p.loop.IsActive then 0 else if p.loop.hand?.isSome then 2 else if p.waits then 3 else 1

/-- What a turn may come to once the station was stopped. -/
inductive Turned (p : Post) : Post → Prop
  | rests (h : ¬p.loop.IsActive ∨ p.loop.IsHeldUp) : Turned p p
  | ends (ha : p.loop.IsActive) : Turned p { p with loop := p.loop.finish, waits := false, puts := p.puts ++ [] }
  | queues (r : Receiver) (beacon : Beacon) (hloop : p.loop = .receiver r) (ha : r.active = true)
      (hheld : r.held = some beacon) :
      Turned p { p with
        loop := .receiver { r with held := none, queue := r.queue ++ [beacon] }
        waits := false
        puts := p.puts ++ [.queued beacon] }
  | takes (r : Receiver) (arrival : Arrival) (rest : List Arrival) (hwaits : p.waits = true)
      (hloop : p.loop = .receiver r) (ha : r.active = true) (hheld : r.held = none) :
      Turned p { p with
        loop := .receiver { r with arrivals := rest, held := arrival.beacon? }
        waits := false
        puts := p.puts ++ [] }
  | sends (s : Sender) (next : Nat) (hwaits : p.waits = true) (hloop : p.loop = .sender s) (ha : s.active = true) :
      Turned p { p with
        loop := .sender { s with next }
        waits := false
        puts := p.puts ++ [.sent s.datagram] }

section

variable {p : Post} {running aware : Bool} {interval now : Nat}
  (haware : aware = false → p.waits = true ∧ (p.loop.step? false interval now).isNone = false)

include haware

theorem turned_receiver {r : Receiver} (hloop : p.loop = .receiver r) :
    p.Turned (p.goOn (p.loop.stepOn? aware running interval now)) := by
  have hends : (some r.finish).map (fun r' => (Loop.receiver r', (r'.queue.drop r.queue.length).map Put.queued)) =
      some (p.loop.finish, []) := by simp [hloop, Loop.finish, Receiver.finish]
  have hstep : p.loop.stepOn? aware running interval now =
      (r.stepOn? aware running).map fun r' => (.receiver r', (r'.queue.drop r.queue.length).map Put.queued) := by
    rw [hloop, Loop.stepOn?]
  rw [hstep]
  cases ha : r.active with
  | false =>
    rw [Receiver.stepOn?_of_ended ha]
    exact .rests (.inl (by simp [hloop, Loop.IsActive, ha]))
  | true =>
    have hactive : p.loop.IsActive := by rwa [hloop]
    cases hheld : r.held with
    | some beacon =>
      rw [Receiver.stepOn?_of_held ha hheld]
      split
      · rw [hends]
        exact .ends hactive
      · next hconsumed =>
        split
        · have hqueued : (r.queue ++ [beacon]).drop r.queue.length = [beacon] := List.drop_left' rfl
          simp only [Option.map_some, hqueued]
          exact .queues r beacon hloop ha hheld
        · next hroom =>
          have hheldUp : p.loop.IsHeldUp := by
            rw [hloop]
            exact ⟨ha, by rw [hheld]; rfl, not_not.1 hconsumed, Nat.le_of_not_lt hroom⟩
          exact .rests (.inr hheldUp)
    | none =>
      cases aware with
      | true =>
        rw [Receiver.stepOn?_true ha hheld, hends]
        exact .ends hactive
      | false =>
        obtain ⟨hwaits, hready⟩ := haware rfl
        cases harrivals : r.arrivals with
        | nil => simp [hloop, Loop.step?, Receiver.step?, ha, hheld, harrivals] at hready
        | cons arrival rest =>
          rw [Receiver.stepOn?_cons ha hheld harrivals]
          split
          · rw [hends]
            exact .ends hactive
          · simp only [Option.map_some, List.drop_length]
            exact .takes r arrival rest hwaits hloop ha hheld

theorem turned_sender {s : Sender} (hloop : p.loop = .sender s) :
    p.Turned (p.goOn (p.loop.stepOn? aware running interval now)) := by
  have hstep : p.loop.stepOn? aware running interval now =
      (s.step? aware interval now).map fun (s, sent) => (.sender s, sent.toList.map Put.sent) := by
    rw [hloop, Loop.stepOn?]
  rw [hstep]
  cases ha : s.active with
  | false =>
    have hnone : s.step? aware interval now = none := by simp [Sender.step?, ha]
    rw [hnone]
    exact .rests (.inl (by simp [hloop, Loop.IsActive, ha]))
  | true =>
    cases aware with
    | true =>
      have hends : p.loop.finish = .sender s.finish := by rw [hloop, Loop.finish]
      rw [Sender.step?_true, if_pos ha]
      change p.Turned (p.goOn (some (.sender s.finish, [])))
      rw [← hends]
      exact .ends (by rwa [hloop])
    | false =>
      obtain ⟨hwaits, hready⟩ := haware rfl
      rw [hloop, Loop.step?, Sender.step?_false ha] at hready
      rw [Sender.step?_false ha]
      split
      · exact .sends s _ hwaits hloop ha
      · next hdue =>
        rw [if_neg hdue] at hready
        cases hready

end

/-- A loop that waits while its station is stopped hears the signal. -/
theorem turned {p : Post} {running told eager : Bool} {interval now : Nat} (htold : p.waits = true → told = true) :
    p.Turned (p.turn true running told eager interval now) := by
  have haware : p.aware true told eager interval now = false →
      p.waits = true ∧ (p.loop.step? false interval now).isNone = false := by
    intro h
    unfold aware at h
    split at h
    · next hwaits =>
      rw [htold hwaits, Bool.true_and, Bool.or_eq_false_iff] at h
      exact ⟨hwaits, h.2⟩
    · cases h
  rw [turn_stopped]
  cases hloop : p.loop with
  | receiver r => exact hloop ▸ turned_receiver haware hloop
  | sender s => exact hloop ▸ turned_sender haware hloop

def budget (p : Post) : Nat := if 1 < p.rank then 1 else 0

theorem rank_of_ended {p : Post} (h : ¬p.loop.IsActive) : p.rank = 0 := if_pos h

theorem isActive_of_rank {p : Post} (h : p.rank = 0) : ¬p.loop.IsActive := by
  intro ha
  rw [rank, if_neg (not_not.2 ha)] at h
  split at h
  · cases h
  · split at h <;> cases h

theorem rank_of_held {p : Post} {r : Receiver} {beacon : Beacon} (hloop : p.loop = .receiver r) (ha : r.active = true)
    (hheld : r.held = some beacon) : p.rank = 2 := by
  simp [rank, hloop, Loop.IsActive, Loop.hand?, ha, hheld]

theorem rank_le_three (p : Post) : p.rank ≤ 3 := by
  unfold rank
  split
  · decide
  · split
    · decide
    · split <;> decide

theorem rank_le_one {p : Post} (hhand : p.loop.hand? = none) (hwaits : p.waits = false) : p.rank ≤ 1 := by
  simp only [rank, hhand, hwaits]
  split <;> simp

theorem budget_le_one (p : Post) : p.budget ≤ 1 := by
  unfold budget
  split <;> decide

theorem budget_of_rank {p : Post} (h : p.rank ≤ 1) : p.budget = 0 := if_neg (Nat.not_lt.2 h)

/-- How a loop comes closer to its end: by so many turns, and with what it puts out meanwhile. -/
structure Wanes (p p' : Post) (n : Nat) : Prop where
  rank : p'.rank ≤ p.rank - n
  puts : ∃ extra, p'.puts = p.puts ++ extra ∧ extra.length + p'.budget ≤ p.budget
  queue : p.budget = 0 → p'.loop.queue.Sublist p.loop.queue

theorem Wanes.of_le {p p' : Post} {n : Nat} (hrank : p'.rank ≤ p.rank - n) (hputs : p'.puts = p.puts)
    (hqueue : p'.loop.queue.Sublist p.loop.queue) : p.Wanes p' n := by
  refine ⟨hrank, ⟨[], by rw [hputs, List.append_nil], ?_⟩, fun _ => hqueue⟩
  simp only [budget, List.length_nil, Nat.zero_add]
  split <;> split <;> omega

theorem Wanes.of_put {p p' : Post} {n : Nat} (hrank : 1 < p.rank) (hrank' : p'.rank = 1) (hn : n ≤ 1) (x : Put)
    (hputs : p'.puts = p.puts ++ [x]) : p.Wanes p' n := by
  have hbudget : p.budget = 1 := if_pos hrank
  have hbudget' : p'.budget = 0 := budget_of_rank (Nat.le_of_eq hrank')
  refine ⟨by omega, ⟨[x], hputs, ?_⟩, fun h => ?_⟩
  · rw [hbudget, hbudget', List.length_singleton]
  · rw [hbudget] at h
    cases h

theorem Turned.wanes {p p' : Post} (h : p.Turned p') : p.Wanes p' (if p.loop.IsHeldUp then 0 else 1) := by
  have hone : (if p.loop.IsHeldUp then 0 else 1) ≤ 1 := by split <;> decide
  cases h with
  | rests h =>
    refine .of_le ?_ rfl (.refl _)
    rcases h with h | h
    · rw [rank_of_ended h]
      exact Nat.zero_le _
    · rw [if_pos h, Nat.sub_zero]
  | ends ha =>
    refine .of_le ?_ (List.append_nil _) ?_
    · rw [rank_of_ended (Loop.not_isActive_finish _)]
      exact Nat.zero_le _
    · rw [Loop.queue_finish]
  | queues r beacon hloop ha hheld =>
    have hrank := rank_of_held hloop ha hheld
    exact .of_put (hrank ▸ by decide) (by simp [rank, Loop.IsActive, Loop.hand?, ha]) hone _ rfl
  | takes r arrival rest hwaits hloop ha hheld =>
    have hrank : p.rank = 3 := by simp [rank, hloop, Loop.IsActive, Loop.hand?, ha, hheld, hwaits]
    refine .of_le ?_ (List.append_nil _) (by rw [hloop]; exact .refl _)
    have hrank' : ({ p with
        loop := .receiver { r with arrivals := rest, held := arrival.beacon? }
        waits := false
        puts := p.puts ++ [] } : Post).rank ≤ 2 := by
      cases hbeacon : arrival.beacon? <;> simp [rank, Loop.IsActive, Loop.hand?, ha]
    omega
  | sends s next hwaits hloop ha =>
    have hrank : p.rank = 3 := by simp [rank, hloop, Loop.IsActive, Loop.hand?, ha, hwaits]
    exact .of_put (hrank ▸ by decide) (by simp [rank, Loop.IsActive, Loop.hand?, ha]) hone _ rfl

end Post

/-- What is done to a loop from outside. -/
inductive Touch where
  | abort
  | arrive (arrival : Arrival)
  /-- Someone takes so many beacons from its queue. -/
  | draw (n : Nat)
  /-- Whoever took from its queue lets go of it. -/
  | forget
  deriving DecidableEq

namespace Touch

def apply : Touch → Loop → Loop
  | abort => Loop.finish
  | arrive arrival => Loop.arrive arrival
  | draw n => Loop.onReceiver fun r => r.draw n
  | forget => Loop.onReceiver Receiver.forget

theorem apply_cases (t : Touch) (l : Loop) :
    ¬(t.apply l).IsActive ∨ ((t.apply l).IsActive ↔ l.IsActive) ∧ (t.apply l).hand? = l.hand? := by
  cases t with
  | abort => exact .inl (l.not_isActive_finish)
  | arrive arrival =>
    refine .inr ?_
    cases l with
    | sender s => exact ⟨.rfl, rfl⟩
    | receiver r =>
      simp only [apply, Loop.arrive, Receiver.arrive]
      split <;> exact ⟨.rfl, rfl⟩
  | draw n => exact .inr (by cases l <;> exact ⟨.rfl, rfl⟩)
  | forget => exact .inr (by cases l <;> exact ⟨.rfl, rfl⟩)

/-- What is left of the queue. -/
def left : Touch → List Beacon → List Beacon
  | abort, queue => queue
  | arrive _, queue => queue
  | draw n, queue => queue.drop n
  | forget, _ => []

theorem left_sublist (t : Touch) (queue : List Beacon) : (t.left queue).Sublist queue := by
  cases t with
  | abort | arrive => exact .refl _
  | draw n => exact List.drop_sublist n queue
  | forget => exact List.nil_sublist queue

theorem queue_apply (t : Touch) (l : Loop) : (t.apply l).queue = t.left l.queue := by
  cases t with
  | abort => exact l.queue_finish
  | arrive arrival =>
    cases l with
    | sender s => rfl
    | receiver r =>
      simp only [apply, Loop.arrive, Receiver.arrive]
      split <;> rfl
  | draw n =>
    cases l with
    | sender s => exact List.drop_nil.symm
    | receiver r => rfl
  | forget => cases l <;> rfl

theorem fits_apply (t : Touch) {l : Loop} (h : l.Fits) : (t.apply l).Fits := by
  cases l with
  | sender s => cases t <;> trivial
  | receiver r =>
    cases t with
    | abort => exact h
    | arrive arrival =>
      simp only [apply, Loop.arrive, Receiver.arrive]
      split <;> exact h
    | draw n =>
      change (r.queue.drop n).length ≤ r.capacity
      rw [List.length_drop]
      exact Nat.le_trans (Nat.sub_le _ _) h
    | forget => exact Nat.zero_le _

end Touch

theorem Post.wanes_touch (p : Post) (t : Touch) : p.Wanes { p with loop := t.apply p.loop } 0 := by
  refine .of_le ?_ rfl (t.queue_apply p.loop ▸ t.left_sublist p.loop.queue)
  rcases t.apply_cases p.loop with hended | ⟨hactive, hhand⟩
  · rw [rank_of_ended hended]
    exact Nat.zero_le _
  · simp only [rank, hactive, hhand]
    exact Nat.le_refl _

namespace Post

/-- Two loops that will put out the same: they are the same, or neither will put out anything. -/
structure Twin (p q : Post) : Prop where
  puts : p.puts = q.puts
  loop : (p.loop = q.loop ∧ p.waits = q.waits) ∨ (p.budget = 0 ∧ q.budget = 0 ∧ p.loop.queue = q.loop.queue)

theorem Turned.quiet {p p' : Post} (h : p.Turned p') (hb : p.budget = 0) :
    p'.budget = 0 ∧ p'.puts = p.puts ∧ p'.loop.queue = p.loop.queue := by
  obtain ⟨-, ⟨extra, hextra, hle⟩, -⟩ := h.wanes
  rw [hb, Nat.le_zero, Nat.add_eq_zero_iff, List.length_eq_zero_iff] at hle
  obtain ⟨rfl, hb'⟩ := hle
  refine ⟨hb', by rw [hextra, List.append_nil], ?_⟩
  cases h with
  | rests => rfl
  | ends => exact p.loop.queue_finish
  | queues r beacon hloop ha hheld =>
    rw [budget, rank_of_held hloop ha hheld] at hb
    cases hb
  | takes r arrival rest hwaits hloop ha hheld => rw [hloop]; rfl
  | sends s next hwaits hloop ha => rw [hloop]; rfl

theorem Wanes.budget_eq_zero {p p' : Post} {n : Nat} (h : p.Wanes p' n) (hb : p.budget = 0) : p'.budget = 0 := by
  obtain ⟨extra, -, hle⟩ := h.puts
  omega

theorem Twin.touch {p q : Post} (h : p.Twin q) (t : Touch) :
    Twin { p with loop := t.apply p.loop } { q with loop := t.apply q.loop } := by
  refine ⟨h.puts, h.loop.imp (fun ⟨hloop, hwaits⟩ => ⟨congrArg t.apply hloop, hwaits⟩) fun ⟨hp, hq, hqueue⟩ => ?_⟩
  refine ⟨(p.wanes_touch t).budget_eq_zero hp, (q.wanes_touch t).budget_eq_zero hq, ?_⟩
  rw [t.queue_apply, t.queue_apply, hqueue]

theorem Twin.goOn {p q : Post} (hputs : p.puts = q.puts) (hloop : p.loop = q.loop) (hwaits : p.waits = q.waits)
    (aware running running' : Bool) (interval now : Nat) :
    Twin (p.goOn (p.loop.stepOn? aware running interval now)) (q.goOn (q.loop.stepOn? aware running' interval now)) := by
  have hsame : ∀ x, (p.goOn x).Twin (q.goOn x) := by
    intro x
    cases x with
    | none => exact ⟨hputs, .inl ⟨hloop, hwaits⟩⟩
    | some y => exact ⟨congrArg (· ++ y.2) hputs, .inl ⟨rfl, rfl⟩⟩
  rw [← hloop]
  cases hr : p.loop with
  | sender s => exact hsame _
  | receiver r =>
    rcases r.stepOn?_running aware running running' with heq | ⟨r₁, r₂, h₁, h₂, hheld₁, hqueue₁, hheld₂, hqueue₂⟩
    · rw [Loop.stepOn?, Loop.stepOn?, heq]
      exact hsame _
    · rw [Loop.stepOn?, Loop.stepOn?, h₁, h₂]
      simp only [Option.map_some, hqueue₁, hqueue₂]
      refine ⟨congrArg (· ++ _) hputs, .inr ⟨?_, ?_, hqueue₁.trans hqueue₂.symm⟩⟩
      · exact budget_of_rank (rank_le_one hheld₁ rfl)
      · exact budget_of_rank (rank_le_one hheld₂ rfl)

theorem Twin.turn {p q : Post} (h : p.Twin q) {running running' told told' : Bool} (htold : p.waits = true → told = true)
    (htold' : q.waits = true → told' = true) (eager : Bool) (interval now : Nat) :
    Twin (p.turn true running told eager interval now) (q.turn true running' told' eager interval now) := by
  rcases h.loop with ⟨hloop, hwaits⟩ | ⟨hp, hq, hqueue⟩
  · have haware : q.aware true told' eager interval now = p.aware true told eager interval now := by
      rw [aware, aware, ← hwaits, ← hloop]
      split
      · next hw => rw [htold hw, htold' (hwaits ▸ hw)]
      · rfl
    rw [turn_stopped, turn_stopped, haware]
    exact .goOn h.puts hloop hwaits ..
  · obtain ⟨hp', hputs, hqueue'⟩ := (turned htold).quiet hp
    obtain ⟨hq', hputs', hqueue''⟩ := (turned htold').quiet hq
    refine ⟨?_, .inr ⟨hp', hq', ?_⟩⟩
    · rw [hputs, hputs', h.puts]
    · rw [hqueue', hqueue'', hqueue]

end Post

end Beacon
end PeerDiscovery
