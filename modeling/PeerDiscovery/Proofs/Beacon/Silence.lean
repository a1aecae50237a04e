import PeerDiscovery.Beacon.Station
import PeerDiscovery.Proofs.Lists

/-! When a station that was stopped falls silent.
A loop looks at the stop flag from time to time, and goes on until it does: it may send another beacon, or
put one into its queue, after the station was stopped. Only a loop that has ended, or has seen the flag and
holds no beacon, is mute; it stays so, and a station of which every loop is mute is silent for good. -/
namespace PeerDiscovery
namespace Beacon

/-- A station with what its loops know of it and what they have sent. -/
structure Air where
  station : Station
  /-- The loops that have not seen that the station was stopped. -/
  unaware : List Nat := []
  /-- The beacons sent, in order. -/
  sent : List Bytes := []

inductive Stir where
  /-- A loop looks whether its station was stopped. -/
  | look (loop : Nat)
  /-- A loop does a round. -/
  | round (loop now : Nat)
  /-- Something comes to the socket of a loop. -/
  | arrive (loop : Nat) (arrival : Arrival)
  /-- Someone takes what is in the queue of a loop. -/
  | take (loop : Nat)
  /-- Whoever took from the queue of a loop lets go of it. -/
  | forget (loop : Nat)

namespace Loop

def onReceiver (f : Receiver → Receiver) : Loop → Loop
  | receiver r => receiver (f r)
  | sender s => sender s

def queue : Loop → List Beacon
  | receiver r => r.queue
  | sender _ => []

/-- A loop that sends nothing any more and puts nothing into its queue, if it has seen the stop flag. -/
def IsMute (aware : Prop) : Loop → Prop
  | receiver r => r.active = false ∨ aware ∧ r.held = none
  | sender s => s.active = false ∨ aware

end Loop

namespace Air

/-- The loops unaware of the stop after one more was begun. -/
def unawareNext (a : Air) : List Nat :=
  if a.station.stopped then a.unaware else a.unaware ++ [a.station.loops.length]

def listen (a : Air) (capacity : Nat) : Air :=
  { a with station := a.station.listen capacity, unaware := a.unawareNext }

def broadcast (a : Air) (now : Nat) (peer : PeerId) (port : UInt16) : Air :=
  { a with station := a.station.broadcast now peer port, unaware := a.unawareNext }

def stop (a : Air) : Air := { a with station := a.station.stop }

def unjoined (a : Air) : List Nat :=
  List.range' a.station.joined (a.station.loops.length - a.station.joined)

/-- From now on someone waits for those loops. -/
def join (a : Air) : Air := { a with station := { a.station with joined := a.station.loops.length } }

def abort (a : Air) (loop : Nat) : Air := { a with station := a.station.abort loop }

def modifyLoop (a : Air) (loop : Nat) (f : Loop → Loop) : Air :=
  { a with station := { a.station with loops := a.station.loops.modify loop f } }

def round? (a : Air) (loop now : Nat) : Option (Loop × Option Bytes) :=
  a.station.loops[loop]?.bind fun l => l.step? (decide (loop ∉ a.unaware)) a.station.interval now

def stir (a : Air) : Stir → Air
  | .look loop => if a.station.stopped then { a with unaware := a.unaware.filter fun i => i ≠ loop } else a
  | .round loop now =>
    match a.round? loop now with
    | none => a
    | some (l, sent) => { a.modifyLoop loop fun _ => l with sent := a.sent ++ sent.toList }
  | .arrive loop arrival => a.modifyLoop loop (Loop.arrive arrival)
  | .take loop => a.modifyLoop loop (Loop.onReceiver fun r => r.takeQueue.1)
  | .forget loop => a.modifyLoop loop (Loop.onReceiver Receiver.forget)

/-- The queue of a loop. -/
def queue (a : Air) (loop : Nat) : List Beacon := (a.station.loops[loop]?.map Loop.queue).getD []

def IsMute (a : Air) (loop : Nat) : Prop := ∀ l, a.station.loops[loop]? = some l → l.IsMute (loop ∉ a.unaware)

end Air

namespace Loop

theorem IsMute.mono {aware aware' : Prop} {l : Loop} (h : l.IsMute aware) (hh : aware → aware') :
    l.IsMute aware' := by
  cases l with
  | sender s => exact h.imp_right hh
  | receiver r => exact h.imp_right fun ha => ⟨hh ha.1, ha.2⟩

theorem IsMute.arrive {aware : Prop} {l : Loop} (h : l.IsMute aware) (arrival : Arrival) :
    (l.arrive arrival).IsMute aware := by
  cases l with
  | sender s => exact h
  | receiver r =>
    simp only [Loop.arrive, Receiver.arrive]
    split <;> exact h

theorem IsMute.step {aware : Bool} {interval now : Nat} {l l' : Loop} {sent : Option Bytes}
    (h : l.IsMute (aware = true)) (hs : l.step? aware interval now = some (l', sent)) :
    l'.IsMute (aware = true) ∧ sent = none ∧ l'.queue = l.queue := by
  cases l with
  | sender s =>
    simp only [Loop.step?, Option.map_eq_some_iff, Prod.exists] at hs
    obtain ⟨s', sent', hs, hl⟩ := hs
    cases hl
    unfold Sender.step? at hs
    split at hs
    · cases hs
    · next ha =>
      rcases h with h | h
      · exact absurd h (by simpa using ha)
      · rw [if_pos h] at hs
        cases hs
        exact ⟨.inl rfl, rfl, rfl⟩
  | receiver r =>
    simp only [Loop.step?, Option.map_eq_some_iff] at hs
    obtain ⟨r', hs, hl⟩ := hs
    cases hl
    unfold Receiver.step? at hs
    split at hs
    · cases hs
    · next ha =>
      rcases h with h | ⟨h, hheld⟩
      · exact absurd h (by simpa using ha)
      · rw [hheld] at hs
        simp only [if_pos h] at hs
        cases hs
        exact ⟨.inl rfl, rfl, rfl⟩

theorem isMute_finish (aware : Prop) (l : Loop) : l.finish.IsMute aware := by
  cases l <;> exact .inl rfl

theorem IsMute.onReceiver {aware : Prop} {f : Receiver → Receiver} {l : Loop} (h : l.IsMute aware)
    (hactive : ∀ r, (f r).active = r.active) (hheld : ∀ r, (f r).held = r.held) :
    (l.onReceiver f).IsMute aware := by
  cases l with
  | sender s => exact h
  | receiver r =>
    change (f r).active = false ∨ aware ∧ (f r).held = none
    rw [hactive, hheld]
    exact h

end Loop

namespace Air

theorem isMute_of_length_le {a : Air} {loop : Nat} (h : a.station.loops.length ≤ loop) : a.IsMute loop := by
  intro l hl
  rw [List.getElem?_eq_none h] at hl
  cases hl

theorem IsMute.modifyLoop {a : Air} {loop : Nat} (h : a.IsMute loop) {i : Nat} {f : Loop → Loop}
    (hf : ∀ l aware, a.station.loops[i]? = some l → l.IsMute aware → (f l).IsMute aware) :
    (a.modifyLoop i f).IsMute loop := by
  intro l hl
  rcases getElem?_modify_cases hl with ⟨rfl, k, hk, rfl⟩ | ⟨-, hl⟩
  · exact hf k _ hk (h k hk)
  · exact h l hl

theorem stopped_stir (a : Air) (x : Stir) : (a.stir x).station.stopped = a.station.stopped := by
  cases x with
  | look loop =>
    simp only [stir]
    split <;> rfl
  | round loop now =>
    simp only [stir]
    split <;> rfl
  | arrive | take | forget => rfl

theorem joined_stir (a : Air) (x : Stir) : (a.stir x).station.joined = a.station.joined := by
  cases x with
  | look loop =>
    simp only [stir]
    split <;> rfl
  | round loop now =>
    simp only [stir]
    split <;> rfl
  | arrive | take | forget => rfl

theorem length_modifyLoop (a : Air) (loop : Nat) (f : Loop → Loop) :
    (a.modifyLoop loop f).station.loops.length = a.station.loops.length :=
  List.length_modify ..

theorem length_stir (a : Air) (x : Stir) : (a.stir x).station.loops.length = a.station.loops.length := by
  cases x with
  | look loop =>
    simp only [stir]
    split <;> rfl
  | round loop now =>
    simp only [stir]
    split
    · rfl
    · exact length_modifyLoop ..
  | arrive | take | forget => exact length_modifyLoop ..

theorem IsMute.round {a : Air} {loop now : Nat} (h : a.IsMute loop) {l : Loop} {sent : Option Bytes}
    (hr : a.round? loop now = some (l, sent)) :
    l.IsMute (loop ∉ a.unaware) ∧ sent = none ∧ l.queue = a.queue loop := by
  obtain ⟨k, hk, hs⟩ := Option.bind_eq_some_iff.1 hr
  have hmute : k.IsMute (decide (loop ∉ a.unaware) = true) := (h k hk).mono decide_eq_true
  obtain ⟨h₁, h₂, h₃⟩ := hmute.step hs
  refine ⟨h₁.mono of_decide_eq_true, h₂, ?_⟩
  rw [h₃, queue, hk]
  rfl

theorem IsMute.stir {a : Air} {loop : Nat} (h : a.IsMute loop) (x : Stir) : (a.stir x).IsMute loop := by
  cases x with
  | look i =>
    simp only [Air.stir]
    split
    · exact fun l hl => (h l hl).mono fun hh hm => hh (List.mem_filter.1 hm).1
    · exact h
  | round i now =>
    simp only [Air.stir]
    split
    · exact h
    · next l sent hr =>
      intro k hk
      rcases getElem?_modify_cases hk with ⟨rfl, -, -, rfl⟩ | ⟨-, hk⟩
      · exact (h.round hr).1
      · exact h k hk
  | arrive i arrival => exact h.modifyLoop fun l _ _ hl => hl.arrive arrival
  | take i => exact h.modifyLoop fun l _ _ hl => hl.onReceiver (fun _ => rfl) fun _ => rfl
  | forget i => exact h.modifyLoop fun l _ _ hl => hl.onReceiver (fun _ => rfl) fun _ => rfl

theorem IsMute.abort {a : Air} {loop : Nat} (h : a.IsMute loop) (i : Nat) : (a.abort i).IsMute loop :=
  h.modifyLoop fun l aware _ _ => Loop.isMute_finish aware l

theorem isMute_abort (a : Air) (loop : Nat) : (a.abort loop).IsMute loop := by
  intro l hl
  rcases getElem?_modify_cases hl with ⟨-, k, -, rfl⟩ | ⟨hne, -⟩
  · exact Loop.isMute_finish _ k
  · exact absurd rfl hne

/-- Only loops that there are can be unaware of a stop, or be waited for. -/
structure Regular (a : Air) : Prop where
  unaware_lt : ∀ i ∈ a.unaware, i < a.station.loops.length
  joined_le : a.station.joined ≤ a.station.loops.length

/-- Nothing is sent, and queues only shrink. -/
structure Still (a a' : Air) : Prop where
  sent : a'.sent = a.sent
  queue : ∀ i, (a'.queue i).Sublist (a.queue i)

theorem Still.refl (a : Air) : Still a a := ⟨rfl, fun _ => .refl _⟩

theorem Still.trans {a a' a'' : Air} (h : Still a a') (h' : Still a' a'') : Still a a'' :=
  ⟨h'.sent.trans h.sent, fun i => (h'.queue i).trans (h.queue i)⟩

/-- Every loop is mute, and the station was stopped. -/
structure IsSilent (a : Air) : Prop where
  regular : Regular a
  stopped : a.station.stopped = true
  mute : ∀ i, a.IsMute i

/-- One loop more than before. -/
structure Begun (a a' : Air) (l : Loop) : Prop where
  loops : a'.station.loops = a.station.loops ++ [l]
  unaware : a'.unaware = a.unawareNext
  stopped : a'.station.stopped = a.station.stopped
  joined : a'.station.joined = a.station.joined
  sent : a'.sent = a.sent
  mute : l.IsMute True
  queue : l.queue = []

theorem begun_listen (a : Air) (capacity : Nat) : Begun a (a.listen capacity) (.receiver { capacity }) :=
  ⟨rfl, rfl, rfl, rfl, rfl, .inr ⟨trivial, rfl⟩, rfl⟩

theorem begun_broadcast (a : Air) (now : Nat) (peer : PeerId) (port : UInt16) :
    Begun a (a.broadcast now peer port) (.sender (.begin a.station.interval now peer port)) :=
  ⟨rfl, rfl, rfl, rfl, rfl, .inr trivial, rfl⟩

theorem Begun.regular {a a' : Air} {l : Loop} (h : Begun a a' l) (hr : Regular a) : Regular a' := by
  refine ⟨fun i hi => ?_, ?_⟩
  · rw [h.unaware, unawareNext] at hi
    rw [h.loops, List.length_append]
    split at hi
    · exact Nat.lt_add_right _ (hr.unaware_lt i hi)
    · rcases List.mem_append.1 hi with hi | hi
      · exact Nat.lt_add_right _ (hr.unaware_lt i hi)
      · rw [List.mem_singleton.1 hi]
        exact Nat.lt_succ_self _
  · rw [h.joined, h.loops, List.length_append]
    exact Nat.le_add_right_of_le hr.joined_le

theorem Begun.isMute_of_lt {a a' : Air} {l : Loop} (h : Begun a a' l) {i : Nat} (hi : i < a.station.loops.length)
    (hm : a.IsMute i) : a'.IsMute i := by
  intro k hk
  rw [h.loops, List.getElem?_append_left hi] at hk
  refine (hm k hk).mono fun hu => ?_
  rw [h.unaware, unawareNext]
  split
  · exact hu
  · simpa [hu] using Nat.ne_of_lt hi

theorem Begun.isMute {a a' : Air} {l : Loop} (h : Begun a a' l) (hr : Regular a) (hs : a.station.stopped = true)
    {i : Nat} (hm : a.IsMute i) : a'.IsMute i := by
  by_cases hi : i < a.station.loops.length
  · exact h.isMute_of_lt hi hm
  · have hunaware : a'.unaware = a.unaware := by rw [h.unaware, unawareNext, if_pos hs]
    intro k hk
    rw [h.loops] at hk
    rw [hunaware]
    rcases getElem?_concat_cases hk with hk | ⟨-, rfl⟩
    · exact absurd (List.getElem?_eq_some_iff.1 hk).1 hi
    · exact h.mute.mono fun _ hu => hi (hr.unaware_lt _ hu)

theorem Begun.still {a a' : Air} {l : Loop} (h : Begun a a' l) : Still a a' := by
  refine ⟨h.sent, fun i => ?_⟩
  unfold Air.queue
  rw [h.loops, List.getElem?_append]
  split
  · exact .refl _
  · next hi =>
    rw [List.getElem?_singleton]
    split
    · simp [h.queue]
    · simp

theorem regular_stir {a : Air} (h : Regular a) (x : Stir) : Regular (a.stir x) := by
  refine ⟨fun i hi => ?_, ?_⟩
  · rw [length_stir]
    refine h.unaware_lt i ?_
    cases x with
    | look loop =>
      simp only [stir] at hi
      split at hi
      · exact (List.mem_filter.1 hi).1
      · exact hi
    | round loop now =>
      simp only [stir] at hi
      split at hi <;> exact hi
    | arrive | take | forget => exact hi
  · rw [joined_stir, length_stir]
    exact h.joined_le

theorem regular_abort {a : Air} (h : Regular a) (loop : Nat) : Regular (a.abort loop) := by
  have hlength : (a.abort loop).station.loops.length = a.station.loops.length := length_modifyLoop ..
  refine ⟨fun i hi => ?_, ?_⟩
  · rw [hlength]
    exact h.unaware_lt i hi
  · rw [hlength]
    exact h.joined_le

theorem still_modifyLoop (a : Air) (i : Nat) (f : Loop → Loop)
    (hf : ∀ l, a.station.loops[i]? = some l → (f l).queue.Sublist l.queue) : Still a (a.modifyLoop i f) := by
  refine ⟨rfl, fun loop => ?_⟩
  unfold queue
  change (((a.station.loops.modify i f)[loop]?.map Loop.queue).getD []).Sublist _
  rw [List.getElem?_modify]
  cases hl : a.station.loops[loop]? with
  | none => exact .refl _
  | some l =>
    by_cases hi : i = loop
    · simpa [hi] using hf l (hi ▸ hl)
    · simp [hi]

theorem still_abort (a : Air) (i : Nat) : Still a (a.abort i) :=
  still_modifyLoop a i Loop.finish fun l _ => by cases l <;> exact .refl _

theorem IsSilent.stir {a : Air} (h : IsSilent a) (x : Stir) : IsSilent (a.stir x) ∧ Still a (a.stir x) := by
  refine ⟨⟨regular_stir h.regular x, (stopped_stir a x).trans h.stopped, fun i => (h.mute i).stir x⟩, ?_⟩
  cases x with
  | look loop =>
    simp only [Air.stir]
    split <;> exact ⟨rfl, fun _ => .refl _⟩
  | round loop now =>
    simp only [Air.stir]
    split
    · exact .refl a
    · next l sent hr =>
      obtain ⟨-, rfl, hq⟩ := (h.mute loop).round hr
      have hstill : Still a (a.modifyLoop loop fun _ => l) := by
        refine still_modifyLoop a loop _ fun k hk => ?_
        rw [hq, Air.queue, hk]
        exact .refl _
      exact ⟨by simp, hstill.queue⟩
  | arrive loop arrival =>
    refine still_modifyLoop a loop _ fun l _ => ?_
    cases l with
    | sender s => exact .refl _
    | receiver r =>
      simp only [Loop.arrive, Receiver.arrive]
      split <;> exact .refl _
  | take loop =>
    refine still_modifyLoop a loop _ fun l _ => ?_
    cases l <;> simp [Loop.onReceiver, Loop.queue, Receiver.takeQueue]
  | forget loop =>
    refine still_modifyLoop a loop _ fun l _ => ?_
    cases l <;> simp [Loop.onReceiver, Loop.queue, Receiver.forget]

theorem IsSilent.begun {a a' : Air} {l : Loop} (h : IsSilent a) (hb : Begun a a' l) : IsSilent a' :=
  ⟨hb.regular h.regular, hb.stopped.trans h.stopped, fun i => hb.isMute h.regular h.stopped (h.mute i)⟩

end Air
end Beacon
end PeerDiscovery
