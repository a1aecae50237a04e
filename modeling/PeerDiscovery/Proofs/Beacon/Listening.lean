import PeerDiscovery.Proofs.Beacon.Silence
import PeerDiscovery.Proofs.Wire.Lengths

/-! What a loop that listens puts into its queue.
All datagrams are received into one room, over what earlier ones left there, but only the new bytes are decoded
(`Room.front_receive`), so that the room makes no difference (`Receiver.stepIn?_fst`). As long as its station is not
stopped a loop puts the beacons in what came to its socket into its queue, in order, and nothing else: `hears_exactly`. -/
namespace PeerDiscovery
namespace Beacon

/-- Where datagrams are received, one over the other. -/
structure Room where
  bytes : Bytes
  length_eq : bytes.length = maxSize

namespace Room

/-- What fits of a datagram comes over the bytes that are there. The second part is how many bytes that are. -/
def receive (room : Room) (datagram : Bytes) : Room × Nat where
  fst.bytes := datagram.take maxSize ++ room.bytes.drop datagram.length
  fst.length_eq := by
    rw [List.length_append, List.length_take, List.length_drop, room.length_eq]
    omega
  snd := min datagram.length maxSize

theorem front_receive (room : Room) (datagram : Bytes) :
    (room.receive datagram).1.bytes.take (room.receive datagram).2 = datagram.take maxSize := by
  refine List.take_left' ?_
  rw [List.length_take, Nat.min_comm]
  rfl

end Room

namespace Receiver

/-- One round of the loop in its room. Whether its station runs is looked at when an attempt to receive has failed. -/
def stepIn? (stopped running : Bool) (r : Receiver) (room : Room) : Option (Receiver × Room) :=
  if ¬r.active then none
  else
    match r.held with
    | some beacon =>
      if ¬r.consumed then some (r.finish, room)
      else if r.queue.length < r.capacity then some ({ r with held := none, queue := r.queue ++ [beacon] }, room)
      else none
    | none =>
      if stopped then some (r.finish, room)
      else
        match r.arrivals with
        | [] => none
        | .failure :: rest => some (if running then { r with arrivals := rest } else r.finish, room)
        | .datagram bytes source :: rest =>
          let (room, n) := room.receive bytes
          some ({ r with arrivals := rest, held := (decode (room.bytes.take n) source).toOption }, room)

/-- While its station runs, a loop does with its room what it does with each datagram by itself. -/
theorem stepIn?_fst (stopped : Bool) (r : Receiver) (room : Room) :
    (r.stepIn? stopped true room).map Prod.fst = r.step? stopped := by
  unfold stepIn? step?
  split
  · rfl
  · cases hheld : r.held with
    | some beacon =>
      simp only
      split
      · rfl
      · split <;> rfl
    | none =>
      simp only
      split
      · rfl
      · rcases r.arrivals with _ | ⟨_ | _, rest⟩
        · rfl
        · simp only [Option.map_some, Arrival.beacon?, ofDatagram, Room.front_receive]
        · rfl

end Receiver

namespace Receiver

/-- A loop that listens for someone goes on as long as it has not seen that its station was stopped. -/
theorem goes_on {r r' : Receiver} (ha : r.active = true) (hc : r.consumed = true) (hs : r.step? false = some r') :
    r'.active = true ∧ r'.consumed = true := by
  simp only [step?, ha, hc, not_true_eq_false, if_false, Bool.false_eq_true] at hs
  split at hs
  · split at hs <;> cases hs
    exact ⟨rfl, rfl⟩
  · split at hs <;> cases hs
    exact ⟨rfl, rfl⟩

theorem capacity_step {r r' : Receiver} {stopped : Bool} (hs : r.step? stopped = some r') : r'.capacity = r.capacity := by
  unfold step? at hs
  split at hs
  · cases hs
  · split at hs
    · split at hs
      · cases hs
        rfl
      · split at hs <;> cases hs
        rfl
    · split at hs
      · cases hs
        rfl
      · split at hs <;> cases hs
        rfl

/-- So many beacons are taken from the queue. -/
def draw (r : Receiver) (n : Nat) : Receiver := { r with queue := r.queue.drop n }

/-- What came to a loop: first what it has dealt with, whose beacons were taken or are in the queue, then what it has in
hand, then what it has not received. -/
structure Keeps (r : Receiver) (heard passed : List Arrival) (taken : List Beacon) : Prop where
  pushed : taken ++ r.queue = passed.filterMap Arrival.beacon?
  heard : ∃ hand, heard = passed ++ hand ++ r.arrivals ∧ hand.map Arrival.beacon? = r.held.toList.map some
  length_le : r.queue.length ≤ r.capacity

/-- How far a loop has come: a beacon in hand is half dealt with. -/
def progress (r : Receiver) (passed : List Arrival) : Nat := 2 * passed.length + r.held.toList.length

namespace Keeps

variable {r r' : Receiver} {heard passed : List Arrival} {taken : List Beacon}

theorem passed_prefix (h : r.Keeps heard passed taken) : passed <+: heard := by
  obtain ⟨hand, hheard, -⟩ := h.heard
  rw [hheard, List.append_assoc]
  exact List.prefix_append _ _

theorem arrive (h : r.Keeps heard passed taken) (arrivals : List Arrival) :
    { r with arrivals := r.arrivals ++ arrivals }.Keeps (heard ++ arrivals) passed taken := by
  obtain ⟨hand, hheard, hhand⟩ := h.heard
  exact ⟨h.pushed, ⟨hand, by rw [hheard, List.append_assoc], hhand⟩, h.length_le⟩

theorem draw (h : r.Keeps heard passed taken) (n : Nat) :
    (r.draw n).Keeps heard passed (taken ++ r.queue.take n) := by
  refine ⟨?_, h.heard, ?_⟩
  · rw [← h.pushed, List.append_assoc, Receiver.draw, List.take_append_drop]
  · rw [Receiver.draw, List.length_drop]
    exact Nat.le_trans (Nat.sub_le _ _) h.length_le

theorem step (h : r.Keeps heard passed taken) (hc : r.consumed = true) (hs : r.step? false = some r') :
    ∃ passed', r'.Keeps heard passed' taken ∧ r.progress passed < r'.progress passed' := by
  obtain ⟨hand, hheard, hhand⟩ := h.heard
  unfold step? at hs
  split at hs
  · cases hs
  · split at hs
    · next beacon hheld =>
      split at hs
      · next hroom =>
        cases hs
        rw [hheld] at hhand
        obtain ⟨arrival, rfl, harrival⟩ := List.map_eq_singleton_iff.1 hhand
        refine ⟨passed ++ [arrival], ⟨?_, ⟨[], by simpa using hheard, rfl⟩, ?_⟩, ?_⟩
        · rw [List.filterMap_append, ← h.pushed, List.append_assoc]
          simp [harrival]
        · rw [List.length_append]
          exact hroom
        · simp [progress, hheld]
          omega
      · cases hs
    · next hheld =>
      rw [hheld] at hhand
      obtain rfl : hand = [] := List.map_eq_nil_iff.1 hhand
      rw [List.append_nil] at hheard
      simp only [Bool.false_eq_true, if_false] at hs
      split at hs
      · cases hs
      · next arrival rest harrivals =>
        cases hs
        rw [harrivals, List.append_cons] at hheard
        cases hbeacon : arrival.beacon? with
        | some beacon =>
          refine ⟨passed, ⟨h.pushed, ⟨[arrival], hheard, by simp [hbeacon]⟩, h.length_le⟩, ?_⟩
          simp [progress, hheld]
        | none =>
          refine ⟨passed ++ [arrival], ⟨?_, ⟨[], by simpa using hheard, rfl⟩, h.length_le⟩, ?_⟩
          · simp [h.pushed, hbeacon]
          · simp [progress, hheld]

/-- A loop that has to wait although there is room in its queue has dealt with everything. -/
theorem eq_of_rest (h : r.Keeps heard passed taken) (ha : r.active = true) (hc : r.consumed = true)
    (hs : r.step? false = none) (hroom : r.queue.length < r.capacity) : passed = heard := by
  obtain ⟨hand, hheard, hhand⟩ := h.heard
  simp only [step?, ha, hc, not_true_eq_false, if_false, if_pos hroom, Bool.false_eq_true] at hs
  split at hs
  · cases hs
  · next hheld =>
    split at hs
    · next harrivals =>
      rw [hheld] at hhand
      rw [hheard, harrivals, List.map_eq_nil_iff.1 hhand, List.append_nil, List.append_nil]
    · cases hs

end Keeps
end Receiver

/-- What can happen at a station: what is asked of it, and what goes on by itself. -/
inductive Move where
  | listen (capacity : Nat)
  | broadcast (now : Nat) (peer : PeerId) (port : UInt16)
  | stop
  | join
  | abort (loop : Nat)
  /-- Someone takes so many beacons from the queue of a loop. -/
  | draw (loop n : Nat)
  | stir (x : Stir)

namespace Move

/-- A move by which no station is stopped, and no loop `i` ended or left alone. -/
def Spares (i : Nat) : Move → Prop
  | stop => False
  | abort loop => loop ≠ i
  | stir (.forget loop) => loop ≠ i
  | _ => True

/-- A move by which something is taken from the queue of a loop, if anything is there. -/
def Takes (i : Nat) : Move → Prop
  | draw loop n => loop = i ∧ 0 < n
  | stir (.take loop) => loop = i
  | _ => False

def Rounds (i : Nat) : Move → Prop
  | stir (.round loop _) => loop = i
  | _ => False

instance (i : Nat) (m : Move) : Decidable (m.Spares i) := by
  unfold Spares
  split <;> infer_instance

instance (i : Nat) (m : Move) : Decidable (m.Takes i) := by
  unfold Takes
  split <;> infer_instance

instance (i : Nat) (m : Move) : Decidable (m.Rounds i) := by
  unfold Rounds
  split <;> infer_instance

end Move

theorem Move.Rounds.not_takes {i : Nat} {m : Move} (h : m.Rounds i) : ¬m.Takes i := by
  unfold Rounds at h
  split at h
  · exact id
  · exact h.elim

/-- How often a loop does a round after something was taken from its queue. -/
def turns (i : Nat) : Bool → List Move → Nat
  | _, [] => 0
  | ready, m :: moves =>
    if m.Takes i then turns i true moves
    else if m.Rounds i then (if ready then 1 else 0) + turns i false moves
    else turns i ready moves

namespace Air

def act (a : Air) : Move → Air
  | .listen capacity => a.listen capacity
  | .broadcast now peer port => a.broadcast now peer port
  | .stop => a.stop
  | .join => a.join
  | .abort loop => a.abort loop
  | .draw loop n => a.modifyLoop loop (Loop.onReceiver fun r => r.draw n)
  | .stir x => a.stir x

theorem regular_act {a : Air} (h : Regular a) (m : Move) : Regular (a.act m) := by
  cases m with
  | listen capacity => exact (begun_listen a capacity).regular h
  | broadcast now peer port => exact (begun_broadcast a now peer port).regular h
  | stop => exact ⟨h.unaware_lt, h.joined_le⟩
  | join => exact ⟨h.unaware_lt, Nat.le_refl _⟩
  | abort loop => exact regular_abort h loop
  | draw loop n =>
    have hlength : (a.act (.draw loop n)).station.loops.length = a.station.loops.length := length_modifyLoop ..
    exact ⟨fun i hi => hlength ▸ h.unaware_lt i hi, hlength ▸ h.joined_le⟩
  | stir x => exact regular_stir h x

/-- The loop `i` listens for someone, and the station was not stopped. -/
structure Listens (a : Air) (i : Nat) (r : Receiver) : Prop where
  running : a.station.running = true
  stopped : a.station.stopped = false
  unaware : i ∈ a.unaware
  loop : a.station.loops[i]? = some (.receiver r)
  active : r.active = true
  consumed : r.consumed = true

namespace Listens

variable {a : Air} {i : Nat} {r : Receiver}

theorem modifyLoop (h : a.Listens i r) {f : Loop → Loop} {r' : Receiver} (hf : f (.receiver r) = .receiver r')
    (ha : r'.active = true) (hc : r'.consumed = true) : (a.modifyLoop i f).Listens i r' := by
  refine ⟨h.running, h.stopped, h.unaware, ?_, ha, hc⟩
  simp [Air.modifyLoop, h.loop, hf]

theorem modifyLoop_of_ne (h : a.Listens i r) {j : Nat} (hj : j ≠ i) (f : Loop → Loop) :
    (a.modifyLoop j f).Listens i r := by
  refine ⟨h.running, h.stopped, h.unaware, ?_, h.active, h.consumed⟩
  simp [Air.modifyLoop, hj, h.loop]

theorem begun (h : a.Listens i r) {a' : Air} {l : Loop} (hb : Begun a a' l) (hr : a'.station.running = true) :
    a'.Listens i r := by
  refine ⟨hr, hb.stopped.trans h.stopped, ?_, ?_, h.active, h.consumed⟩
  · rw [hb.unaware, unawareNext, if_neg (by simp [h.stopped])]
    exact List.mem_append_left _ h.unaware
  · rw [hb.loops]
    exact getElem?_append_of_some h.loop _

theorem round?_eq (h : a.Listens i r) (now : Nat) :
    a.round? i now = (r.step? false).map fun r => (.receiver r, none) := by
  simp [round?, h.loop, Loop.step?, h.unaware]

end Listens

theorem listens_listen {a : Air} (h : a.station.stopped = false) (capacity : Nat) :
    (a.listen capacity).Listens a.station.loops.length { capacity } := by
  refine ⟨rfl, h, ?_, ?_, rfl, rfl⟩
  · simp [listen, unawareNext, h]
  · simp [listen, Station.listen]

end Air

/-- A station with the room of one of its loops, and with all that came to the socket of this loop and was taken from its
queue. -/
structure Watch where
  air : Air
  room : Room
  heard : List Arrival := []
  taken : List Beacon := []

namespace Watch

/-- A round of the loop `i` in its room, if it need not wait. -/
def round (w : Watch) (i : Nat) : Watch :=
  match w.air.station.loops[i]? with
  | some (.receiver r) =>
    match r.stepIn? (decide (i ∉ w.air.unaware)) w.air.station.running w.room with
    | some (r, room) => { w with air := w.air.modifyLoop i fun _ => .receiver r, room }
    | none => w
  | _ => w

/-- What the loop `i` has put into its queue and nobody has taken yet. -/
def queue (w : Watch) (i : Nat) : List Beacon := w.air.queue i

def act (i : Nat) (w : Watch) : Move → Watch
  | .stir (.round loop now) =>
    if loop = i then w.round i else { w with air := w.air.act (.stir (.round loop now)) }
  | .stir (.arrive loop arrival) =>
    { w with
      air := w.air.act (.stir (.arrive loop arrival))
      heard := if loop = i then w.heard ++ [arrival] else w.heard }
  | .stir (.take loop) =>
    { w with
      air := w.air.act (.stir (.take loop))
      taken := if loop = i then w.taken ++ w.queue i else w.taken }
  | .draw loop n =>
    { w with
      air := w.air.act (.draw loop n)
      taken := if loop = i then w.taken ++ (w.queue i).take n else w.taken }
  | m => { w with air := w.air.act m }

variable {w : Watch} {i : Nat} {r : Receiver}

theorem queue_eq (h : w.air.Listens i r) : w.queue i = r.queue := by
  simp [queue, Air.queue, h.loop, Loop.queue]

inductive Effect (i : Nat) (r : Receiver) (w : Watch) (m : Move) (r' : Receiver) (w' : Watch) : Prop where
  | took (n : Nat) (hm : m.Takes i) (hn : 0 < n) (hr : r' = r.draw n) (hheard : w'.heard = w.heard)
      (htaken : w'.taken = w.taken ++ r.queue.take n)
  | rounded (hm : m.Rounds i) (hr : r' = (r.step? false).getD r) (hheard : w'.heard = w.heard)
      (htaken : w'.taken = w.taken)
  | other (arrivals : List Arrival) (ht : ¬m.Takes i) (hm : ¬m.Rounds i)
      (hr : r' = { r with arrivals := r.arrivals ++ arrivals }) (hheard : w'.heard = w.heard ++ arrivals)
      (htaken : w'.taken = w.taken)

theorem Effect.quiet {m : Move} {w' : Watch} (ht : ¬m.Takes i) (hm : ¬m.Rounds i) (hheard : w'.heard = w.heard)
    (htaken : w'.taken = w.taken) : Effect i r w m r w' :=
  .other [] ht hm (by rw [List.append_nil]) (by rw [hheard, List.append_nil]) htaken

theorem round_air (h : w.air.Listens i r) (now : Nat) : (w.round i).air = w.air.stir (.round i now) := by
  have hfst := r.stepIn?_fst false w.room
  have hround := h.round?_eq now
  simp only [round, h.loop, h.unaware, h.running, not_true_eq_false, decide_false, Air.stir, hround, ← hfst]
  cases r.stepIn? false true w.room with
  | none => rfl
  | some p => simp [Air.modifyLoop]

theorem act_round (h : w.air.Listens i r) : (w.round i).air.Listens i ((r.step? false).getD r) ∧
    (w.round i).heard = w.heard ∧ (w.round i).taken = w.taken := by
  have hfst := r.stepIn?_fst false w.room
  simp only [round, h.loop, h.unaware, h.running, not_true_eq_false, decide_false, ← hfst]
  cases hs : r.stepIn? false true w.room with
  | none => exact ⟨h, rfl, rfl⟩
  | some p =>
    have hstep : r.step? false = some p.1 := by rw [← hfst, hs]; rfl
    obtain ⟨ha, hc⟩ := Receiver.goes_on h.active h.consumed hstep
    exact ⟨h.modifyLoop rfl ha hc, rfl, rfl⟩

/-- A move that spares a loop has no other effect on it than these, and the room has no effect at all. -/
theorem act_effect (h : w.air.Listens i r) {m : Move} (hm : m.Spares i) : (w.act i m).air = w.air.act m ∧
    ∃ r', (w.act i m).air.Listens i r' ∧ Effect i r w m r' (w.act i m) := by
  cases m with
  | listen capacity =>
    exact ⟨rfl, r, h.begun (Air.begun_listen w.air capacity) rfl, .quiet id id rfl rfl⟩
  | broadcast now peer port =>
    exact ⟨rfl, r, h.begun (Air.begun_broadcast w.air now peer port) rfl, .quiet id id rfl rfl⟩
  | stop => exact hm.elim
  | join => exact ⟨rfl, r, ⟨h.running, h.stopped, h.unaware, h.loop, h.active, h.consumed⟩, .quiet id id rfl rfl⟩
  | abort loop => exact ⟨rfl, r, h.modifyLoop_of_ne hm Loop.finish, .quiet id id rfl rfl⟩
  | draw loop n =>
    refine ⟨rfl, ?_⟩
    by_cases hl : loop = i
    · subst hl
      refine ⟨r.draw n, h.modifyLoop rfl h.active h.consumed, ?_⟩
      have htaken : (w.act loop (.draw loop n)).taken = w.taken ++ r.queue.take n := by
        simp [act, queue_eq h]
      rcases Nat.eq_zero_or_pos n with rfl | hn
      · exact .quiet (fun ht => absurd ht.2 (Nat.lt_irrefl 0)) id rfl (by simpa using htaken)
      · exact .took n ⟨rfl, hn⟩ hn rfl rfl htaken
    · exact ⟨r, h.modifyLoop_of_ne hl _, .quiet (fun ht => hl ht.1) id rfl (if_neg hl)⟩
  | stir x =>
    cases x with
    | look loop =>
      refine ⟨rfl, r, ?_, .quiet id id rfl rfl⟩
      simpa [act, Air.act, Air.stir, h.stopped] using h
    | round loop now =>
      by_cases hl : loop = i
      · subst hl
        have hact : w.act loop (.stir (.round loop now)) = w.round loop := if_pos rfl
        obtain ⟨hlistens, hheard, htaken⟩ := act_round h
        rw [hact]
        exact ⟨round_air h now, _, hlistens, .rounded rfl rfl hheard htaken⟩
      · have hact : w.act i (.stir (.round loop now)) = { w with air := w.air.stir (.round loop now) } := if_neg hl
        rw [hact]
        refine ⟨rfl, r, ?_, .quiet id hl rfl rfl⟩
        simp only [Air.stir]
        split
        · exact h
        · have hne := h.modifyLoop_of_ne hl
          exact ⟨h.running, h.stopped, h.unaware, (hne _).loop, h.active, h.consumed⟩
    | arrive loop arrival =>
      refine ⟨rfl, ?_⟩
      by_cases hl : loop = i
      · subst hl
        refine ⟨{ r with arrivals := r.arrivals ++ [arrival] }, h.modifyLoop ?_ h.active h.consumed,
          .other [arrival] id id rfl (if_pos rfl) rfl⟩
        simp [Loop.arrive, Receiver.arrive, h.active]
      · exact ⟨r, h.modifyLoop_of_ne hl _, .quiet id id (if_neg hl) rfl⟩
    | take loop =>
      refine ⟨rfl, ?_⟩
      by_cases hl : loop = i
      · subst hl
        refine ⟨r.draw (r.queue.length + 1), h.modifyLoop ?_ h.active h.consumed,
          .took (r.queue.length + 1) rfl (Nat.succ_pos _) rfl rfl ?_⟩
        · simp [Loop.onReceiver, Receiver.takeQueue, Receiver.draw]
        · rw [List.take_of_length_le (Nat.le_succ _), ← queue_eq h]
          exact if_pos rfl
      · exact ⟨r, h.modifyLoop_of_ne hl _, .quiet hl id rfl (if_neg hl)⟩
    | forget loop => exact ⟨rfl, r, h.modifyLoop_of_ne hm _, .quiet id id rfl rfl⟩

/-- The loop under watch is one that has dealt with these arrivals. -/
structure Stands (w : Watch) (i : Nat) (r : Receiver) (passed : List Arrival) : Prop where
  listens : w.air.Listens i r
  keeps : r.Keeps w.heard passed w.taken

/-- How a move brings the loop under watch forward. -/
structure Advance (i : Nat) (m : Move) (w w' : Watch) (r r' : Receiver) (passed passed' : List Arrival) : Prop where
  stands : w'.Stands i r' passed'
  capacity : r'.capacity = r.capacity
  heard : w.heard <+: w'.heard
  progress : r.progress passed ≤ r'.progress passed'
  rounds : m.Rounds i → r.queue.length < r.capacity → r.progress passed < r'.progress passed' ∨ passed = w.heard
  takes : m.Takes i → 0 < r.capacity → r'.queue.length < r'.capacity
  queue : ¬m.Takes i → ¬m.Rounds i → r'.queue = r.queue

theorem Stands.act {passed : List Arrival} (h : w.Stands i r passed) {m : Move} (hm : m.Spares i) :
    (w.act i m).air = w.air.act m ∧ ∃ r' passed', Advance i m w (w.act i m) r r' passed passed' := by
  obtain ⟨hair, r', hlistens, heffect⟩ := act_effect h.listens hm
  refine ⟨hair, r', ?_⟩
  cases heffect with
  | took n ht hn hr hheard htaken =>
    subst hr
    have hkeeps := hheard ▸ htaken ▸ h.keeps.draw n
    refine ⟨passed, ⟨hlistens, hkeeps⟩, rfl, hheard ▸ List.prefix_rfl, Nat.le_refl _,
      fun hr => absurd ht hr.not_takes, fun _ hc => ?_, fun hnt => absurd ht hnt⟩
    have hle := h.keeps.length_le
    have hlength : (r.draw n).queue.length = r.queue.length - n := List.length_drop
    change (r.draw n).queue.length < r.capacity
    omega
  | rounded hround hr hheard htaken =>
    cases hs : r.step? false with
    | none =>
      obtain rfl : r' = r := by rw [hr, hs]; rfl
      refine ⟨passed, ⟨hlistens, by rw [hheard, htaken]; exact h.keeps⟩, rfl, hheard ▸ List.prefix_rfl,
        Nat.le_refl _, fun _ hroom => .inr ?_, fun ht => absurd ht hround.not_takes, fun _ hnr => absurd hround hnr⟩
      exact h.keeps.eq_of_rest h.listens.active h.listens.consumed hs hroom
    | some r'' =>
      obtain rfl : r' = r'' := by rw [hr, hs]; rfl
      obtain ⟨passed', hkeeps, hlt⟩ := h.keeps.step h.listens.consumed hs
      exact ⟨passed', ⟨hlistens, by rw [hheard, htaken]; exact hkeeps⟩, Receiver.capacity_step hs,
        hheard ▸ List.prefix_rfl, Nat.le_of_lt hlt, fun _ _ => .inl hlt,
        fun ht => absurd ht hround.not_takes, fun _ hnr => absurd hround hnr⟩
  | other arrivals ht hround hr hheard htaken =>
    subst hr
    refine ⟨passed, ⟨hlistens, by rw [hheard, htaken]; exact h.keeps.arrive arrivals⟩, rfl, ?_, Nat.le_refl _,
      fun hr => absurd hr hround, fun htt => absurd htt ht, fun _ _ => rfl⟩
    rw [hheard]
    exact List.prefix_append _ _

/-- Whatever goes on meanwhile, each round after something was taken brings the loop forward, until it has dealt with as
much as had come before. -/
theorem Stands.run {passed : List Arrival} (h : w.Stands i r passed) {moves : List Move} (hm : ∀ m ∈ moves, m.Spares i) :
    (moves.foldl (Watch.act i) w).air = moves.foldl Air.act w.air ∧
    w.heard <+: (moves.foldl (Watch.act i) w).heard ∧
    ∃ r' passed', (moves.foldl (Watch.act i) w).Stands i r' passed' ∧ r'.capacity = r.capacity ∧
      ∀ (n : Nat) (ready : Bool), n ≤ w.heard.length → 0 < r.capacity →
        (ready = true → r.queue.length < r.capacity) →
        min (2 * n) (r.progress passed + turns i ready moves) ≤ r'.progress passed' := by
  induction moves generalizing w r passed with
  | nil => exact ⟨rfl, List.prefix_rfl, r, passed, h, rfl, fun _ _ _ _ _ => Nat.min_le_right _ _⟩
  | cons m moves ih =>
    obtain ⟨hair, r₁, passed₁, hadv⟩ := h.act (hm m List.mem_cons_self)
    obtain ⟨hrun, hheard, r', passed', hstands, hcap, hbound⟩ :=
      ih hadv.stands fun m' hm' => hm m' (List.mem_cons_of_mem m hm')
    refine ⟨by rw [List.foldl_cons, hrun, hair]; rfl, hadv.heard.trans hheard, r', passed', hstands,
      hcap.trans hadv.capacity, ?_⟩
    intro n ready hn hc hready
    have hn₁ := Nat.le_trans hn hadv.heard.length_le
    have hc₁ : 0 < r₁.capacity := hadv.capacity ▸ hc
    have hprogress := hadv.progress
    simp only [turns]
    split
    · next ht =>
      have hb := hbound n true hn₁ hc₁ fun _ => hadv.takes ht hc
      omega
    · next ht =>
      split
      · next hround =>
        have hb := hbound n false hn₁ hc₁ nofun
        split
        · next hr =>
          rcases hadv.rounds hround (hready hr) with hlt | rfl
          · omega
          · have hle : 2 * w.heard.length ≤ r.progress w.heard := Nat.le_add_right _ _
            omega
        · omega
      · next hround =>
        have hb := hbound n ready hn₁ hc₁ fun hr => by
          rw [hadv.queue ht hround, hadv.capacity]
          exact hready hr
        omega

theorem Stands.prefix_of_le {passed heard : List Arrival} (h : w.Stands i r passed) (hh : heard <+: w.heard)
    (hle : 2 * heard.length ≤ r.progress passed) : heard <+: passed := by
  refine List.prefix_of_prefix_length_le hh h.keeps.passed_prefix ?_
  have hheld : r.held.toList.length ≤ 1 := by cases r.held <;> simp
  rw [Receiver.progress] at hle
  omega

end Watch

/-- What a node sends to make itself known is looked at as a whole. -/
theorem length_encode_le (peer : PeerId) (port : UInt16) : (encode peer port).length ≤ maxSize := by
  have hpeer : (Wire.encodeBytes 1 peer.bytes).length ≤ peer.bytes.length + 11 :=
    Wire.length_encodeBytes_le (by decide) (by rw [peer.length_eq]; decide)
  have hport : (Wire.encodeInt32 2 (Int32.ofNat port.toNat)).length ≤ 11 := Wire.length_encodeInt32_le (by decide) _
  have hlength : (encode peer port).length = 3 + ((Wire.encodeBytes 1 peer.bytes).length +
      (Wire.encodeInt32 2 (Int32.ofNat port.toNat)).length) := by
    rw [encode, List.length_append, Wire.BeaconRecord.layout, List.length_append]
    rfl
  have hmax : maxSize = 1024 := rfl
  have hsize := peer.length_eq
  omega

/-- A loop is begun at a station that was not stopped, whatever went on there before. As long as the station is not stopped
and the loop not ended or left alone, it goes on, and what other datagrams left in its room makes no difference. What it
puts into its queue are the beacons in what comes to its socket, in order and none twice. Nothing is left out when it
waits although there is room in its queue, nor of what had come before it did two rounds for each arrival with something
taken from its queue before each round. And no beacon that a node sends is too long to be looked at as a whole. -/
theorem hears_exactly {a : Air} (ha : a.station.stopped = false) (capacity : Nat) (room : Room)
    {moves later : List Move} (hm : ∀ m ∈ moves ++ later, m.Spares a.station.loops.length) :
    let i := a.station.loops.length
    let w := moves.foldl (Watch.act i) { air := a.listen capacity, room }
    let w' := later.foldl (Watch.act i) w
    w.air = moves.foldl Air.act (a.listen capacity) ∧
    w.taken ++ w.queue i <+: w.heard.filterMap Arrival.beacon? ∧
    (∃ r, w.air.station.loops[i]? = some (.receiver r) ∧ r.active = true ∧
      (r.step? false = none → (w.queue i).length < capacity →
        w.taken ++ w.queue i = w.heard.filterMap Arrival.beacon?)) ∧
    (0 < capacity → 2 * w.heard.length ≤ turns i false later →
      w.heard.filterMap Arrival.beacon? <+: w'.taken ++ w'.queue i) ∧
    ∀ peer port, (encode peer port).length ≤ maxSize := by
  intro i w w'
  have hbegun : Watch.Stands { air := a.listen capacity, room } i { capacity } [] :=
    ⟨Air.listens_listen ha capacity, rfl, ⟨[], rfl, rfl⟩, Nat.zero_le _⟩
  obtain ⟨hair, -, r, passed, h, hcap, -⟩ := hbegun.run fun m hm' => hm m (List.mem_append_left later hm')
  obtain ⟨-, hheard, r', passed', h', -, hbound⟩ := h.run fun m hm' => hm m (List.mem_append_right moves hm')
  replace hcap : r.capacity = capacity := hcap
  have hpushed : w.taken ++ w.queue i = passed.filterMap Arrival.beacon? := by
    rw [Watch.queue_eq h.listens]
    exact h.keeps.pushed
  refine ⟨hair, ?_, ⟨r, h.listens.loop, h.listens.active, fun hrest hroom => ?_⟩, fun hc hturns => ?_, length_encode_le⟩
  · rw [hpushed]
    exact h.keeps.passed_prefix.filterMap _
  · rw [Watch.queue_eq h.listens, ← hcap] at hroom
    rw [hpushed, h.keeps.eq_of_rest h.listens.active h.listens.consumed hrest hroom]
  · have hle := hbound w.heard.length false (Nat.le_refl _) (hcap ▸ hc) nofun
    have hprefix : w.heard <+: passed' := h'.prefix_of_le hheard (by omega)
    rw [Watch.queue_eq h'.listens, h'.keeps.pushed]
    exact hprefix.filterMap _

/-- A failure, a datagram that fills the room and is no beacon, and then one that is, with a queue for one beacon. -/
theorem hears_exactly_mixed :
    let peer : PeerId := ⟨[1, 2, 3, 4, 5, 6, 7, 8, 9, 10, 11, 12, 13, 14, 15, 16], by decide⟩
    let source : Net.IpAddr := .v4 ⟨10, 0, 0, 7⟩
    let room : Room := ⟨List.replicate maxSize 0, List.length_replicate⟩
    let a : Air := { station := { interval := 1000 } }
    let moves : List Move := [.stir (.arrive 0 .failure), .stir (.arrive 0 (.datagram (List.replicate 2000 255) source)),
      .stir (.arrive 0 (.datagram (encode peer 80) source))]
    let later : List Move := (List.replicate 6 [.draw 0 1, .stir (.round 0 0)]).flatten
    let w := moves.foldl (Watch.act 0) { air := a.listen 1, room }
    let w' := later.foldl (Watch.act 0) w
    (a.station.stopped = false ∧ ∀ m ∈ moves ++ later, m.Spares 0) ∧
      [⟨peer, .tcp "10.0.0.7" 80⟩] <+: w'.taken ++ w'.queue 0 := by
  intro peer source room a moves later w w'
  have hm : ∀ m ∈ moves ++ later, m.Spares 0 := by decide
  obtain ⟨-, -, -, h, -⟩ := hears_exactly (a := a) rfl 1 room hm
  have hheard : w.heard.filterMap Arrival.beacon? = [⟨peer, .tcp "10.0.0.7" 80⟩] := by decide +kernel
  exact ⟨⟨rfl, hm⟩, hheard ▸ h (by decide) (by decide)⟩

end Beacon
end PeerDiscovery
