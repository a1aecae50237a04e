import Mathlib.Data.List.Induction
import Mathlib.Data.List.Infix
import PeerDiscovery.Proofs.Courier.Errand
import PeerDiscovery.Proofs.Framing.Shortage

/-! What becomes of the envelopes of a link: `carried_once`.
Every connection that a courier makes is a trip. What it wrote on it is a greeting, whole envelopes and at most a part of
one more, and all that it has taken off its queue is on some trip, in order (`Logged`). One thing that a courier does
changes the trips in one of five ways (`Feat`). -/
namespace PeerDiscovery
namespace Discovery

open Framing (Sendable Torn encodeFrames)
open Net (Network)

theorem sendable_greeting (p : PeerId) : Sendable [p.bytes] :=
  .of_le (p.length_eq ▸ Nat.le_of_ble_eq_true rfl)

namespace Courier

/-- The envelope whose turn it is cannot be written whole. -/
inductive Fails (n : Network) (c : Courier) (stream : Nat) (e : Envelope) : Arm → Prop where
  /-- It is too long to be sent. -/
  | tooLong (long : Framing.maxFrameSize < e.encode.length) : Fails n c stream e .deliver
  | refused (refused : (n.write stream .client (encodeFrames [e.encode])).2 = false) : Fails n c stream e .deliver
  /-- The write breaks off, with the connection or for the time limit of closing. -/
  | cut {cut : Cut} (allowed : c.Allows cut) : Fails n c stream e (.deliverCut cut)

/-- What one thing that a courier does comes to: what it takes off its queue, what is written on the wires, and whether
it still has a connection. -/
inductive Feat (n : Network) (c : Courier) (queue : List Envelope) (arm : Arm) (wires : List Bytes) (c' : Courier) :
    List Bytes → Prop where
  | still (taken : c'.taken = c.taken) (onWay : c'.stream? ≠ none → c.stream? ≠ none) :
    Feat n c queue arm wires c' wires
  | greet (taken : c'.taken = c.taken) : Feat n c queue arm wires c' (wires ++ [encodeFrames [c.self.bytes]])
  | failGreeting {part : Bytes} (taken : c'.taken = c.taken) (torn : Torn part) (off : c'.stream? = none) :
    Feat n c queue arm wires c' (wires ++ [part])
  | write {e : Envelope} (turn : queue[c.taken]? = some e) (taken : c'.taken = c.taken + 1)
    (sendable : Sendable [e.encode]) (onWay : c.stream? ≠ none) :
    Feat n c queue arm wires c' (wires.modify (wires.length - 1) (· ++ encodeFrames [e.encode]))
  | lose {e : Envelope} {stream : Nat} {reader : Framing.Reader} {part : Bytes} (turn : queue[c.taken]? = some e)
    (taken : c'.taken = c.taken + 1) (stage : c.stage = .connected stream reader) (fails : Fails n c stream e arm)
    (torn : Torn part) (off : c'.stream? = none) :
    Feat n c queue arm wires c' (wires.modify (wires.length - 1) (· ++ part))

structure Worked (n : Network) (c : Courier) (queue : List Envelope) (arm : Arm) (wires : List Bytes) (w : Work) :
    Prop where
  self : w.2.1.self = c.self
  endpoint : w.2.1.endpoint = c.endpoint
  closing : w.2.1.closing = c.closing
  ends : w.2.1.IsDone → c.closing = true ∨ ∃ fault, c.endpoint.socketAddr = .error fault
  feat : Feat n c queue arm wires w.2.1 (Errand.extend wires n w.1 c)

end Courier

namespace Errand

variable {n n' : Network} {wires : List Bytes} {c : Courier} {stream : Nat}

theorem extend_of_quiet (hl : n'.streams.length = n.streams.length)
    (h : ∀ s, (n'.outgoing s .client).waiting <+: (n.outgoing s .client).waiting) : extend wires n n' c = wires := by
  have hadded : ∀ s, added n n' s = [] := fun s => List.drop_eq_nil_of_le (h s).length_le
  have hid : ∀ s, (fun wire : Bytes => wire ++ added n n' s) = id := by
    intro s
    funext wire
    rw [hadded, List.append_nil, id]
  rw [extend, if_neg (by omega)]
  split
  · rfl
  · rw [hid, List.modify_id]

theorem extend_of_new (hl : n'.streams.length = n.streams.length + 1) :
    extend wires n n' c = wires ++ [(n'.outgoing n.streams.length .client).waiting] := by
  have hnone : n.outgoing n.streams.length .client = { ended := true } := by
    rw [Network.outgoing, List.getElem?_eq_none (Nat.le_refl _)]
  rw [extend, if_pos (by omega), added, hnone]
  rfl

theorem extend_of_write {bytes : Bytes} (hl : n'.streams.length = n.streams.length) (hs : c.stream? = some stream)
    (hw : (n'.outgoing stream .client).waiting = (n.outgoing stream .client).waiting ++ bytes) :
    extend wires n n' c = wires.modify (wires.length - 1) (· ++ bytes) := by
  have hadded : added n n' stream = bytes := by rw [added, hw, List.drop_left]
  rw [extend, if_neg (by omega), hs]
  simp only [hadded]

end Errand

namespace Courier

variable {n n' : Network} {c c' : Courier} {queue : List Envelope} {arm : Arm} {wires : List Bytes} {stream : Nat}
  {reader : Framing.Reader} {e : Envelope} {cut : Cut}

theorem stream?_of_stage (h : c.stage = .connected stream reader) : c.stream? = some stream := by
  rw [stream?, h]

theorem stream?_of_not_connected (h : ∀ stream reader, c.stage ≠ .connected stream reader) : c.stream? = none := by
  unfold stream?
  split
  · next hs => exact absurd hs (h _ _)
  · rfl

theorem stage_of_isDone (h : c.IsDone) : c.stage = .done := by
  unfold IsDone at h
  split at h
  · next hs => exact hs
  · exact h.elim

theorem waiting_finish (n : Network) (stream s : Nat) :
    ((n.finish stream .client).outgoing s .client).waiting = (n.outgoing s .client).waiting := by
  rw [Network.finish, Network.outgoing_modify]
  split
  · next h => rw [h.1]
  · rfl

theorem waiting_tear (n : Network) (stream : Nat) {m : List Bytes} (hm : Sendable m) (kept : Nat) :
    ∃ part, Torn part ∧ ((tear n stream (encodeFrames m) kept).outgoing stream .client).waiting =
      (n.outgoing stream .client).waiting ++ part := by
  by_cases hl : stream < n.streams.length
  · exact ⟨_, Framing.torn_take hm kept, by rw [tear, Network.outgoing_modify_self hl]⟩
  · exact ⟨[], .nil, by rw [tear, Network.outgoing_modify, if_neg fun h => hl h.2.2, List.append_nil]⟩

/-- A courier has given up a stream, on which it may have begun a message. -/
structure GivenUp (n : Network) (c : Courier) (stream : Nat) (w : Network × Courier) : Prop where
  length : w.1.streams.length = n.streams.length
  waiting : ∃ part, Torn part ∧
    (w.1.outgoing stream .client).waiting = (n.outgoing stream .client).waiting ++ part
  self : w.2.self = c.self
  endpoint : w.2.endpoint = c.endpoint
  closing : w.2.closing = c.closing
  taken : w.2.taken = c.taken
  off : w.2.stream? = none
  ends : w.2.IsDone → c.closing = true

theorem givenUp_leave (n : Network) (c : Courier) (stream : Nat) : GivenUp n c stream (c.leave n stream) where
  length := Network.length_modifyStream ..
  waiting := ⟨[], .nil, (waiting_finish n stream stream).trans (List.append_nil _).symm⟩
  self := rfl
  endpoint := rfl
  closing := rfl
  taken := rfl
  off := rfl
  ends h := h.elim

theorem givenUp_breakOff (n : Network) (stream : Nat) {m : List Bytes} (hm : Sendable m) (ha : c.Allows cut) :
    GivenUp n c stream (c.breakOff n stream (encodeFrames m) cut) := by
  obtain ⟨part, htorn, hw⟩ := waiting_tear n stream hm cut.kept
  have hl : (tear n stream (encodeFrames m) cut.kept).streams.length = n.streams.length :=
    Network.length_modifyStream ..
  have hwaiting := (waiting_finish (tear n stream (encodeFrames m) cut.kept) stream stream).trans hw
  unfold breakOff
  split
  · next hfinal =>
    exact ⟨(Network.length_modifyStream ..).trans hl, ⟨part, htorn, hwaiting⟩, rfl, rfl, rfl, rfl, rfl,
      fun _ => ha hfinal⟩
  · exact ⟨(Network.length_modifyStream ..).trans hl, ⟨part, htorn, hwaiting⟩, rfl, rfl, rfl, rfl, rfl, fun h => h.elim⟩

/-- The wires stay as they are, and there is no connection afterwards. -/
theorem worked_of_fades (hf : n.Fades n') (stage : Stage) (hs : ∀ stream reader, stage ≠ .connected stream reader)
    (he : stage = .done → c.closing = true ∨ ∃ fault, c.endpoint.socketAddr = .error fault) :
    Worked n c queue arm wires (n', { c with stage }, []) where
  self := rfl
  endpoint := rfl
  closing := rfl
  ends hd := he (stage_of_isDone hd)
  feat := by
    rw [Errand.extend_of_quiet hf.length fun s => hf.waiting s .client]
    exact .still rfl fun h => absurd (stream?_of_not_connected hs) h

theorem worked_leave (n : Network) (c : Courier) (stream : Nat) :
    Worked n c queue arm wires ((c.leave n stream).1, (c.leave n stream).2, []) :=
  worked_of_fades (n.fades_finish stream .client) .connecting nofun nofun

theorem worked_of_failed_greeting {n₁ : Network} {addr : Net.SocketAddr}
    (hc : n.connect c.machine addr = some (n₁, stream))
    {w : Network × Courier} (hw : GivenUp n₁ c stream w) : Worked n c queue arm wires (w.1, w.2, []) where
  self := hw.self
  endpoint := hw.endpoint
  closing := hw.closing
  ends hd := .inl (hw.ends hd)
  feat := by
    obtain ⟨rfl, hstreams, -⟩ := Network.connect_cases hc
    obtain ⟨part, htorn, hpart⟩ := hw.waiting
    have hl : w.1.streams.length = n.streams.length + 1 := by rw [hw.length, hstreams, List.length_append]; rfl
    rw [Network.outgoing_new hstreams] at hpart
    rw [Errand.extend_of_new hl, hpart]
    exact .failGreeting hw.taken htorn hw.off

theorem worked_of_failed_envelope (hs : c.stage = .connected stream reader) (he : queue[c.taken]? = some e)
    (hf : Fails n c stream e arm) {w : Network × Courier} (hw : GivenUp n { c with taken := c.taken + 1 } stream w) :
    Worked n c queue arm wires (w.1, w.2, []) where
  self := hw.self
  endpoint := hw.endpoint
  closing := hw.closing
  ends hd := .inl (hw.ends hd)
  feat := by
    obtain ⟨part, htorn, hpart⟩ := hw.waiting
    rw [Errand.extend_of_write hw.length (stream?_of_stage hs) hpart]
    exact .lose he hw.taken hs hf htorn hw.off

theorem worked_connectCut (ha : c.Allows cut) {w : Network × Courier} (hw : c.connectCut n cut = some w) :
    Worked n c queue arm wires (w.1, w.2, []) := by
  unfold connectCut at hw
  split at hw
  · cases hw
  · split at hw
    · next n₁ stream greeting hc hg =>
      obtain rfl : encodeFrames [c.self.bytes] = greeting :=
        Except.ok.inj ((Framing.encode_of_sendable (sendable_greeting c.self)).symm.trans hg)
      obtain rfl := Option.some.inj hw
      exact worked_of_failed_greeting hc (givenUp_breakOff n₁ stream (sendable_greeting c.self) ha)
    · cases hw

theorem worked_connect (n : Network) (c : Courier) :
    Worked n c queue arm wires ((c.connectWork n).1, (c.connectWork n).2, []) := by
  unfold connectWork
  split
  · next fault hfault => exact worked_of_fades (.refl n) .done nofun fun _ => .inr ⟨fault, hfault⟩
  · split
    · exact worked_of_fades (.refl n) (.waiting _) nofun nofun
    · next n₁ stream hc =>
      have hg := Framing.encode_of_sendable (sendable_greeting c.self)
      obtain ⟨hnew, hstreams, -⟩ := Network.connect_cases hc
      have hl : n₁.streams.length = n.streams.length + 1 := by rw [hstreams, List.length_append]; rfl
      rw [hg]
      rcases n₁.write_cases stream .client (encodeFrames [c.self.bytes]) with ⟨faults, hw⟩ | ⟨-, hw⟩
      · have hup : GivenUp n₁ c stream (c.leave { n₁ with faults } stream) := by
          obtain ⟨length, waiting, self, endpoint, closing, taken, off, ends⟩ := givenUp_leave { n₁ with faults } c stream
          exact ⟨length, waiting, self, endpoint, closing, taken, off, ends⟩
        simp only [hw]
        exact worked_of_failed_greeting hc hup
      · simp only [hw]
        refine ⟨rfl, rfl, rfl, fun h => h.elim, ?_⟩
        rw [Errand.extend_of_new ((Network.length_modifyStream ..).trans hl), ← hnew,
          Network.outgoing_modify_self (by omega), hnew, Network.outgoing_new hstreams]
        exact .greet rfl

theorem worked_deliver (hs : c.stage = .connected stream reader) (he : queue[c.taken]? = some e) :
    Worked n c queue .deliver wires ((c.deliver n stream e).1, (c.deliver n stream e).2, []) := by
  unfold deliver
  by_cases hl : e.encode.length ≤ Framing.maxFrameSize
  · have hsend := Sendable.of_le hl
    rw [Framing.encode_of_sendable hsend]
    rcases n.write_cases stream .client (encodeFrames [e.encode]) with ⟨faults, hw⟩ | ⟨hopen, hw⟩
    · have hup : GivenUp n { c with taken := c.taken + 1 } stream
          ({ c with taken := c.taken + 1 }.leave { n with faults } stream) := by
        obtain ⟨length, waiting, self, endpoint, closing, taken, off, ends⟩ :=
          givenUp_leave { n with faults } { c with taken := c.taken + 1 } stream
        exact ⟨length, waiting, self, endpoint, closing, taken, off, ends⟩
      simp only [hw]
      exact worked_of_failed_envelope hs he (.refused (congrArg Prod.snd hw)) hup
    · have hlt : stream < n.streams.length := by
        by_contra hge
        rw [Network.outgoing, List.getElem?_eq_none (Nat.le_of_not_lt hge)] at hopen
        cases hopen
      simp only [hw]
      refine ⟨rfl, rfl, rfl, fun h => ?_, ?_⟩
      · rw [stage_of_isDone h] at hs
        cases hs
      · rw [Errand.extend_of_write (Network.length_modifyStream ..) (stream?_of_stage hs)
          (congrArg Net.Pipe.waiting (Network.outgoing_modify_self hlt .client _))]
        exact .write he rfl hsend (by rw [stream?_of_stage hs]; exact Option.some_ne_none _)
  · have hlong : Framing.maxFrameSize < e.encode.length := Nat.lt_of_not_le hl
    rcases Framing.encode_cases [e.encode] with ⟨hsend, -⟩ | ⟨fault, -, hfault⟩
    · exact absurd (hsend.fits _ (List.mem_singleton.2 rfl)) hl
    · rw [hfault]
      exact worked_of_failed_envelope hs he (.tooLong hlong) (givenUp_leave n { c with taken := c.taken + 1 } stream)

theorem worked_deliverCut (hs : c.stage = .connected stream reader) (he : queue[c.taken]? = some e)
    (ha : c.Allows cut) {w : Network × Courier} (hw : c.deliverCut n stream e cut = some w) :
    Worked n c queue (.deliverCut cut) wires (w.1, w.2, []) := by
  unfold deliverCut at hw
  rcases Framing.encode_cases [e.encode] with ⟨hsend, henc⟩ | ⟨fault, -, hfault⟩
  · rw [henc] at hw
    obtain rfl := Option.some.inj hw
    exact worked_of_failed_envelope hs he (.cut ha)
      (givenUp_breakOff (c := { c with taken := c.taken + 1 }) n stream hsend ha)
  · rw [hfault] at hw
    cases hw

theorem outgoing_read (n : Network) (stream s : Nat) :
    (n.read stream .client).1.outgoing s .client = n.outgoing s .client :=
  Network.outgoing_modify_of_ne _ _ _ _ (.inr nofun)

theorem worked_read (hs : c.stage = .connected stream reader) :
    Worked n c queue arm wires (c.read n stream reader) := by
  have hl : (n.read stream .client).1.streams.length = n.streams.length := Network.length_modifyStream ..
  have hw : ∀ s, (((n.read stream .client).1.outgoing s .client).waiting <+: (n.outgoing s .client).waiting) :=
    fun s => by rw [outgoing_read]
  have hon : c.stream? ≠ none := by
    rw [stream?_of_stage hs]
    nofun
  unfold read
  dsimp only
  split
  · exact ⟨rfl, rfl, rfl, fun h => h.elim, by rw [Errand.extend_of_quiet hl hw]; exact .still rfl fun _ => hon⟩
  · refine ⟨rfl, rfl, rfl, fun h => h.elim, ?_⟩
    have hup := givenUp_leave (n.read stream .client).1 c stream
    rw [Errand.extend_of_quiet (hup.length.trans hl) fun s => by
      rw [leave, waiting_finish]
      exact hw s]
    exact .still rfl fun _ => hon

theorem worked_quit {w : Network × Courier} (h : c.quit? n = some w) : Worked n c queue arm wires (w.1, w.2, []) := by
  unfold quit? at h
  split at h
  · next hc =>
    split at h
    · cases h
    · next stream reader _ =>
      obtain rfl := Option.some.inj h
      exact worked_of_fades (n.fades_finish stream .client) .done nofun fun _ => .inl hc
    · obtain rfl := Option.some.inj h
      exact worked_of_fades (.refl n) .done nofun fun _ => .inl hc
  · cases h

theorem worked_of_step? (wires : List Bytes) {w : Work} (h : c.step? n queue arm = some w) :
    Worked n c queue arm wires w := by
  unfold step? at h
  split at h
  · obtain ⟨v, hv, rfl⟩ := Option.map_eq_some_iff.1 h
    exact worked_quit hv
  · obtain rfl := Option.some.inj h
    exact worked_connect n c
  · split at h
    · next ha =>
      obtain ⟨v, hv, rfl⟩ := Option.map_eq_some_iff.1 h
      exact worked_connectCut ha hv
    · cases h
  · split at h
    · obtain rfl := Option.some.inj h
      exact worked_of_fades (.refl n) .connecting nofun nofun
    · cases h
  · next hs =>
    obtain rfl := Option.some.inj h
    exact worked_read hs
  · obtain rfl := Option.some.inj h
    exact worked_leave n c _
  · next stream reader hs =>
    obtain ⟨e, he, hw⟩ := Option.map_eq_some_iff.1 h
    have hworked : Worked n c queue .deliver wires ((c.deliver n stream e).1, (c.deliver n stream e).2, []) :=
      worked_deliver hs he
    rcases hd : c.deliver n stream e with ⟨n', c'⟩
    rw [hd] at hw hworked
    exact hw ▸ hworked
  · next hs =>
    split at h
    · next ha =>
      obtain ⟨e, he, hw⟩ := Option.bind_eq_some_iff.1 h
      obtain ⟨v, hv, rfl⟩ := Option.map_eq_some_iff.1 hw
      exact worked_deliverCut hs he ha hv
    · cases h
  · cases h

end Courier

/-- What became of one connection. -/
inductive Trip where
  /-- The greeting failed. -/
  | failed (part : Bytes) (torn : Torn part)
  /-- Envelopes were written, and perhaps one more was lost with the connection. -/
  | made (written : List Envelope) (sendable : ∀ e ∈ written, Sendable [e.encode]) (lost : Option Envelope)
    (part : Bytes) (torn : Torn part)

namespace Trip

/-- The message of which an envelope is the only frame. -/
def message (e : Envelope) : List Bytes := [e.encode]

def written : Trip → List Envelope
  | failed .. => []
  | made written .. => written

def lost? : Trip → Option Envelope
  | failed .. => none
  | made _ _ lost .. => lost

/-- What was taken off the queue for it. -/
def left (t : Trip) : List Envelope := t.written ++ t.lost?.toList

/-- The messages that were written whole. -/
def messages (self : PeerId) : Trip → List (List Bytes)
  | failed .. => []
  | made written .. => [self.bytes] :: written.map message

/-- What was written of one more message. -/
def part : Trip → Bytes
  | failed part _ => part
  | made _ _ _ part _ => part

def wire (self : PeerId) (t : Trip) : Bytes := (t.messages self).flatMap encodeFrames ++ t.part

/-- What a reader of the wire says at its end. -/
def ending (t : Trip) : Option Framing.Error := if t.part = [] then none else some .truncated

theorem torn_part (t : Trip) : Torn t.part := by
  cases t <;> assumption

theorem sendable_messages (self : PeerId) (t : Trip) : ∀ m ∈ t.messages self, Sendable m := by
  cases t with
  | failed => exact nofun
  | made written sendable =>
    intro m hm
    rcases List.mem_cons.1 hm with rfl | hm
    · exact sendable_greeting self
    · obtain ⟨e, he, rfl⟩ := List.mem_map.1 hm
      exact sendable e he

theorem read_wire (self : PeerId) (t : Trip) : Framing.read [t.wire self] none = (t.messages self, t.ending) :=
  Framing.read_of_torn (t.sendable_messages self) t.torn_part List.flatten_singleton

theorem tail_messages (self : PeerId) (t : Trip) : (t.messages self).tail = t.written.map message := by
  cases t <;> rfl

end Trip

theorem modify_last {α : Type} (ls : List α) (l : α) (f : α → α) :
    (ls ++ [l]).modify ((ls ++ [l]).length - 1) f = ls ++ [f l] := by
  rw [List.length_append, List.length_singleton, Nat.add_sub_cancel]
  exact modify_length_append ls l f

namespace Errand

variable {s s' : Errand} {lost lost' : Nat → Envelope → Prop} {trips : List Trip}

/-- The messages after the greetings, over all connections. -/
def delivered (s : Errand) : List (List Bytes) := s.wires.flatMap fun wire => (Framing.read [wire] none).1.tail

/-- The trips tell what is on the wires and where all went that the courier has taken. The last one may be under way;
whatever was lost on a trip satisfies `lost`. -/
structure Logged (s : Errand) (lost : Nat → Envelope → Prop) (trips : List Trip) : Prop where
  wires : s.wires = trips.map (Trip.wire s.courier.self)
  queue : s.link.sent.take s.courier.taken = trips.flatMap Trip.left
  bounded : s.courier.taken ≤ s.link.sent.length
  onWay : s.courier.stream? ≠ none →
    ∃ before written sendable, trips = before ++ [.made written sendable none [] .nil]
  lost : ∀ i t e, trips[i]? = some t → t.lost? = some e → lost i e

/-- The courier does nothing. It may be told to end, and more may be sent. -/
structure Rests (s s' : Errand) : Prop where
  wires : s'.wires = s.wires
  self : s'.courier.self = s.courier.self
  endpoint : s'.courier.endpoint = s.courier.endpoint
  taken : s'.courier.taken = s.courier.taken
  stage : s'.courier.stage = s.courier.stage
  sent : s.link.sent <+: s'.link.sent

theorem Rests.refl (s : Errand) : Rests s s := ⟨rfl, rfl, rfl, rfl, rfl, List.prefix_rfl⟩

theorem Rests.stream? (h : Rests s s') : s'.courier.stream? = s.courier.stream? := by
  rw [Courier.stream?, h.stage, Courier.stream?]

theorem Rests.isDone (h : Rests s s') : s'.courier.IsDone ↔ s.courier.IsDone := by
  rw [Courier.IsDone, h.stage, Courier.IsDone]

theorem go_cases (s : Errand) (m : Move) :
    Rests s (s.go m) ∨
      ∃ arm w, m = .work arm ∧ s.courier.step? s.network s.link.sent arm = some w ∧ s.go m = s.takeWork w := by
  cases m with
  | turn | close => exact .inl ⟨rfl, rfl, rfl, rfl, rfl, List.prefix_rfl⟩
  | enter e =>
    unfold Errand.go
    dsimp only
    split <;> exact .inl ⟨rfl, rfl, rfl, rfl, rfl, List.prefix_rfl⟩
  | put send =>
    unfold Errand.go putEnvelope
    dsimp only
    split
    · exact .inl (.refl s)
    · split
      · exact .inl ⟨rfl, rfl, rfl, rfl, rfl, List.prefix_rfl⟩
      · exact .inl ⟨rfl, rfl, rfl, rfl, rfl, List.prefix_append _ _⟩
  | work arm =>
    unfold Errand.go
    dsimp only
    split
    · exact .inl (.refl s)
    · next w hw => exact .inr ⟨arm, w, rfl, hw, rfl⟩

theorem Logged.mono (h : Logged s lost trips) (hl : ∀ i e, lost i e → lost' i e) : Logged s lost' trips :=
  ⟨h.wires, h.queue, h.bounded, h.onWay, fun i t e ht he => hl i e (h.lost i t e ht he)⟩

theorem Logged.rests (h : Logged s lost trips) (hr : Rests s s') : Logged s' lost trips where
  wires := by rw [hr.wires, hr.self, h.wires]
  queue := by
    obtain ⟨more, hmore⟩ := hr.sent
    rw [← hmore, hr.taken, List.take_append_of_le_length h.bounded, h.queue]
  bounded := by
    rw [hr.taken]
    exact Nat.le_trans h.bounded hr.sent.length_le
  onWay hn := h.onWay (hr.stream? ▸ hn)
  lost := h.lost

theorem take_succ_of_turn {α : Type} {l : List α} {i : Nat} {a : α} (h : l[i]? = some a) :
    l.take (i + 1) = l.take i ++ [a] := by
  rw [List.take_add_one, h, Option.toList_some]

theorem sent_takeWork (s : Errand) (w : Courier.Work) : (s.takeWork w).link.sent = s.link.sent := by
  unfold takeWork
  dsimp only
  split <;> rfl

theorem Logged.begun (h : Logged s lost trips) (t : Trip) (hl : t.left = []) (hs : s'.courier.self = s.courier.self)
    (ht : s'.courier.taken = s.courier.taken) (hsent : s'.link.sent = s.link.sent)
    (hw : s'.wires = s.wires ++ [t.wire s.courier.self])
    (hon : s'.courier.stream? ≠ none → ∃ sendable, t = .made [] sendable none [] .nil) :
    Logged s' lost (trips ++ [t]) where
  wires := by rw [hw, hs, h.wires, List.map_append, List.map_singleton]
  queue := by rw [hsent, ht, h.queue, List.flatMap_append, List.flatMap_singleton, hl, List.append_nil]
  bounded := by rw [hsent, ht]; exact h.bounded
  onWay hn := by
    obtain ⟨sendable, rfl⟩ := hon hn
    exact ⟨trips, [], sendable, rfl⟩
  lost i u e hu he := by
    rcases getElem?_concat_cases hu with hu | ⟨-, rfl⟩
    · exact h.lost i u e hu he
    · rw [Trip.left, he] at hl
      exact absurd hl (List.append_ne_nil_of_right_ne_nil _ (List.cons_ne_nil _ _))

theorem Logged.went {before : List Trip} {t : Trip} {e : Envelope} {bytes : Bytes}
    (h : Logged s lost (before ++ [t])) (t' : Trip) (he : s.link.sent[s.courier.taken]? = some e) (hl : t'.left = t.left ++ [e])
    (hs : s'.courier.self = s.courier.self) (ht : s'.courier.taken = s.courier.taken + 1)
    (hsent : s'.link.sent = s.link.sent) (hw : s'.wires = s.wires.modify (s.wires.length - 1) (· ++ bytes))
    (hwire : t'.wire s.courier.self = t.wire s.courier.self ++ bytes)
    (hon : s'.courier.stream? ≠ none → ∃ written sendable, t' = .made written sendable none [] .nil)
    (hlost : ∀ i e, s.wires.length = i + 1 → t'.lost? = some e → lost i e) : Logged s' lost (before ++ [t']) where
  wires := by
    rw [hw, hs, h.wires, List.map_append, List.map_singleton, modify_last, ← hwire, List.map_append, List.map_singleton]
  queue := by
    have hq := h.queue
    rw [List.flatMap_append, List.flatMap_singleton] at hq
    rw [hsent, ht, take_succ_of_turn he, hq, List.flatMap_append, List.flatMap_singleton, hl, List.append_assoc]
  bounded := by
    rw [hsent, ht]
    exact (List.getElem?_eq_some_iff.1 he).1
  onWay hn := by
    obtain ⟨written, sendable, rfl⟩ := hon hn
    exact ⟨before, written, sendable, rfl⟩
  lost i u f hu hf := by
    rcases getElem?_concat_cases hu with hu | ⟨rfl, rfl⟩
    · exact h.lost i u f (getElem?_append_of_some hu _) hf
    · exact hlost _ f (by rw [h.wires, List.length_map, List.length_append, List.length_singleton]) hf

/-- One thing that the courier does goes on with the last trip or begins another one. -/
theorem Logged.takeWork (h : Logged s lost trips) {arm : Courier.Arm} {w : Courier.Work}
    (hw : Courier.Worked s.network s.courier s.link.sent arm s.wires w)
    (hf : ∀ stream reader e, s.courier.stage = .connected stream reader → s.link.sent[s.courier.taken]? = some e →
      Courier.Fails s.network s.courier stream e arm → w.2.1.stream? = none → ∀ i, s.wires.length = i + 1 → lost i e) :
    ∃ trips', Logged (s.takeWork w) lost trips' := by
  obtain ⟨hself, -, -, -, hfeat⟩ := hw
  have hsent := s.sent_takeWork w
  have hwires : (s.takeWork w).wires = extend s.wires s.network w.1 s.courier := rfl
  generalize extend s.wires s.network w.1 s.courier = wires at hfeat hwires
  cases hfeat with
  | still taken onWay =>
    refine ⟨trips, ?_, ?_, ?_, fun hn => h.onWay (onWay hn), h.lost⟩
    · rw [hwires, h.wires, ← hself]
      rfl
    · rw [hsent, ← h.queue, ← taken]
      rfl
    · rw [hsent]
      exact Nat.le_trans (Nat.le_of_eq taken) h.bounded
  | greet taken =>
    refine ⟨_, h.begun (.made [] nofun none [] .nil) rfl hself taken hsent ?_ fun _ => ⟨_, rfl⟩⟩
    rw [hwires, Trip.wire, Trip.messages, List.map_nil, List.flatMap_singleton, Trip.part, List.append_nil]
  | failGreeting taken torn off =>
    exact ⟨_, h.begun (.failed _ torn) rfl hself taken hsent hwires fun hn => absurd off hn⟩
  | @write e turn taken sendable onWay =>
    obtain ⟨before, written, hsendable, rfl⟩ := h.onWay onWay
    have hall : ∀ f ∈ written ++ [e], Sendable [f.encode] := by
      intro f hm
      rcases List.mem_append.1 hm with hm | hm
      · exact hsendable f hm
      · exact List.mem_singleton.1 hm ▸ sendable
    refine ⟨_, h.went (.made (written ++ [e]) hall none [] .nil) turn ?_ hself taken hsent hwires ?_
      (fun _ => ⟨_, _, rfl⟩) nofun⟩
    · simp only [Trip.left, Trip.written, Trip.lost?, Option.toList_none, List.append_nil]
    · simp [Trip.wire, Trip.messages, Trip.message, Trip.part]
  | @lose e stream reader part turn taken stage fails torn off =>
    obtain ⟨before, written, hsendable, rfl⟩ :=
      h.onWay (by rw [Courier.stream?_of_stage stage]; nofun)
    refine ⟨_, h.went (.made written hsendable (some e) part torn) turn ?_ hself taken hsent hwires ?_
      (fun hn => absurd off hn) fun i f hi hl => ?_⟩
    · simp only [Trip.left, Trip.written, Trip.lost?, Option.toList_none, Option.toList_some, List.append_nil]
    · simp only [Trip.wire, Trip.messages, Trip.part, List.append_nil]
    · obtain rfl : e = f := Option.some.inj hl
      exact hf stream reader e stage turn fails off i hi

/-- The move loses an envelope whose turn it is, and with it the connection whose number is `i`. -/
structure Loses (s : Errand) (i : Nat) (e : Envelope) (m : Move) : Prop where
  turn : s.link.sent[s.courier.taken]? = some e
  fails : ∃ arm stream reader, m = .work arm ∧ s.courier.stage = .connected stream reader ∧
    Courier.Fails s.network s.courier stream e arm
  last : s.wires.length = i + 1
  off : (s.go m).courier.stream? = none

theorem Logged.go (h : Logged s lost trips) (m : Move) (hl : ∀ i e, s.Loses i e m → lost i e) :
    ∃ trips', Logged (s.go m) lost trips' := by
  rcases s.go_cases m with hr | ⟨arm, w, rfl, hstep, hgo⟩
  · exact ⟨trips, h.rests hr⟩
  · rw [hgo]
    refine h.takeWork (Courier.worked_of_step? s.wires hstep) fun stream reader e hs he hf hoff i hi => hl i e ?_
    exact ⟨he, ⟨arm, stream, reader, rfl, hs, hf⟩, hi, by rw [hgo]; exact hoff⟩

/-- A move of the run loses the envelope, and with it the connection whose number is `i`. -/
def LostIn (s : Errand) (ms : List Move) (i : Nat) (e : Envelope) : Prop :=
  ∃ before m later, ms = before ++ m :: later ∧ (s.after before).Loses i e m

theorem LostIn.concat {ms : List Move} {i : Nat} {e : Envelope} (h : s.LostIn ms i e) (m : Move) :
    s.LostIn (ms ++ [m]) i e := by
  obtain ⟨before, m', later, rfl, hm⟩ := h
  exact ⟨before, m', later ++ [m], by simp, hm⟩

theorem logged_after (self peer : PeerId) (endpoint : Endpoint) (network : Network) (ms : List Move) :
    ∃ trips, Logged ((new self peer endpoint network).after ms) ((new self peer endpoint network).LostIn ms) trips := by
  induction ms using List.reverseRecOn with
  | nil => exact ⟨[], rfl, rfl, Nat.zero_le _, fun h => absurd rfl h, fun i t e ht => by cases ht⟩
  | append_singleton ms m ih =>
    obtain ⟨trips, h⟩ := ih
    rw [after_concat]
    refine (h.mono fun i e hi => hi.concat m).go m fun i e hm => ?_
    exact ⟨ms, m, [], rfl, hm⟩

theorem self_after (s : Errand) (ms : List Move) : (s.after ms).courier.self = s.courier.self := by
  induction ms generalizing s with
  | nil => rfl
  | cons m ms ih =>
    refine (ih (s.go m)).trans ?_
    rcases s.go_cases m with hr | ⟨arm, w, -, hstep, hgo⟩
    · exact hr.self
    · rw [hgo]
      exact (Courier.worked_of_step? s.wires hstep).self

theorem heard_append (wire bytes : Bytes) :
    (Framing.read [wire] none).1 <+: (Framing.read [wire ++ bytes] none).1 := by
  simp only [Framing.read, List.foldl_cons, List.foldl_nil, Framing.Reader.feed_append]
  exact List.reverse_prefix.2 (Framing.Reader.done_suffix_feed _ bytes)

theorem wires_go_cases (s : Errand) (m : Move) :
    (s.go m).wires = s.wires ∨ (∃ wire, (s.go m).wires = s.wires ++ [wire]) ∨
      ∃ bytes, (s.go m).wires = s.wires.modify (s.wires.length - 1) (· ++ bytes) := by
  rcases s.go_cases m with hr | ⟨arm, w, -, -, hgo⟩
  · exact .inl hr.wires
  · have hw : (s.takeWork w).wires = extend s.wires s.network w.1 s.courier := rfl
    rw [hgo, hw, extend]
    split
    · exact .inr (.inl ⟨_, rfl⟩)
    · split
      · exact .inl rfl
      · exact .inr (.inr ⟨_, rfl⟩)

theorem delivered_go (s : Errand) (m : Move) : s.delivered <+: (s.go m).delivered := by
  unfold delivered
  rcases s.wires_go_cases m with hw | ⟨wire, hw⟩ | ⟨bytes, hw⟩
  · rw [hw]
  · rw [hw, List.flatMap_append]
    exact List.prefix_append _ _
  · rcases List.eq_nil_or_concat s.wires with hn | ⟨wires, wire, hc⟩
    · rw [hn]
      exact List.nil_prefix
    · rw [hw, hc, List.concat_eq_append, modify_last, List.flatMap_append, List.flatMap_append, List.prefix_append_right_inj,
        List.flatMap_singleton, List.flatMap_singleton]
      simpa only [List.drop_one] using (heard_append wire bytes).drop 1

theorem delivered_after (s : Errand) (ms : List Move) : s.delivered <+: (s.after ms).delivered := by
  induction ms generalizing s with
  | nil => exact List.prefix_rfl
  | cons m ms ih => exact (s.delivered_go m).trans (ih (s.go m))

/-- These wires are not written on any more: the courier has no connection, or a later one. -/
def Past (wires : List Bytes) (s : Errand) : Prop :=
  wires <+: s.wires ∧ (s.courier.stream? ≠ none → wires.length < s.wires.length)

theorem prefix_modify_last {α : Type} {xs l : List α} (h : xs <+: l) (hlt : xs.length < l.length) (f : α → α) :
    xs <+: l.modify (l.length - 1) f := by
  rcases List.eq_nil_or_concat l with rfl | ⟨init, a, rfl⟩
  · exact absurd hlt (Nat.not_lt_zero _)
  · rw [List.concat_eq_append] at h hlt ⊢
    rw [modify_last]
    rw [List.length_append, List.length_singleton] at hlt
    exact ((List.prefix_concat_iff.1 h).resolve_left fun he => by simp [he] at hlt).trans (List.prefix_append _ _)

theorem Past.takeWork {wires : List Bytes} (h : Past wires s) {arm : Courier.Arm} {w : Courier.Work}
    (hw : Courier.Worked s.network s.courier s.link.sent arm s.wires w) : Past wires (s.takeWork w) := by
  obtain ⟨hpre, hlt⟩ := h
  have hfeat := hw.feat
  have hwires : (s.takeWork w).wires = extend s.wires s.network w.1 s.courier := rfl
  have hcourier : (s.takeWork w).courier = w.2.1 := rfl
  rw [Past, hwires, hcourier]
  generalize extend s.wires s.network w.1 s.courier = wires' at hfeat
  have hadd : ∀ wire : Bytes, wires.length < (s.wires ++ [wire]).length := by
    intro wire
    rw [List.length_append, List.length_singleton]
    exact Nat.lt_succ_of_le hpre.length_le
  cases hfeat with
  | still taken onWay => exact ⟨hpre, fun hn => hlt (onWay hn)⟩
  | greet taken => exact ⟨hpre.trans (List.prefix_append _ _), fun _ => hadd _⟩
  | failGreeting taken torn off => exact ⟨hpre.trans (List.prefix_append _ _), fun _ => hadd _⟩
  | write turn taken sendable onWay =>
    exact ⟨prefix_modify_last hpre (hlt onWay) _, fun _ => by rw [List.length_modify]; exact hlt onWay⟩
  | lose turn taken stage fails torn off =>
    have hon : s.courier.stream? ≠ none := by
      rw [Courier.stream?_of_stage stage]
      nofun
    exact ⟨prefix_modify_last hpre (hlt hon) _, fun hn => absurd off hn⟩

theorem Past.after {wires : List Bytes} (h : Past wires s) (ms : List Move) : Past wires (s.after ms) := by
  induction ms generalizing s with
  | nil => exact h
  | cons m ms ih =>
    refine ih ?_
    rcases s.go_cases m with hr | ⟨arm, w, -, hstep, hgo⟩
    · exact ⟨hr.wires ▸ h.1, fun hn => hr.wires ▸ h.2 (hr.stream? ▸ hn)⟩
    · rw [hgo]
      exact h.takeWork (Courier.worked_of_step? s.wires hstep)

theorem wires_prefix_after (h : s.courier.stream? = none) (ms : List Move) : s.wires <+: (s.after ms).wires :=
  (Past.after ⟨List.prefix_rfl, fun hn => absurd h hn⟩ ms).1

theorem accepted_answer (s : Errand) (e : Envelope) (accepted : Bool) :
    (s.answer e accepted).accepted = if accepted then s.accepted ++ [e] else s.accepted := by
  unfold Errand.accepted answer
  cases accepted <;> simp

/-- What sends say agrees with the queue, and only closing ends the courier of an endpoint that has a socket. -/
structure Orderly (s : Errand) (ms : List Move) : Prop where
  accepted : s.accepted = s.link.sent
  closed : s.courier.closing = true → ∃ limit, Move.close limit ∈ ms
  socket : ∃ addr, s.courier.endpoint.socketAddr = .ok addr
  ends : s.courier.IsDone → s.courier.closing = true

theorem accepted_putEnvelope (h : s.accepted = s.link.sent) (e : Envelope) :
    (s.putEnvelope e).accepted = (s.putEnvelope e).link.sent := by
  unfold putEnvelope
  split
  · rw [accepted_answer]
    exact h
  · rw [accepted_answer]
    exact congrArg (· ++ [e]) h

theorem accepted_go (h : s.accepted = s.link.sent) (m : Move) : (s.go m).accepted = (s.go m).link.sent := by
  cases m with
  | turn | close => exact h
  | enter e =>
    unfold Errand.go
    dsimp only
    split
    · exact h
    · rw [accepted_answer]
      exact h
  | put send =>
    unfold Errand.go
    dsimp only
    split
    · exact h
    · exact accepted_putEnvelope (s := { s with entered := s.entered.eraseIdx send }) h _
  | work arm =>
    unfold Errand.go
    dsimp only
    split
    · exact h
    · exact h.trans (s.sent_takeWork _).symm

theorem closing_go (s : Errand) (m : Move) :
    (s.go m).courier.closing = true ↔ s.courier.closing = true ∨ ∃ limit, m = .close limit := by
  cases m with
  | turn => simp [Errand.go]
  | close limit => simp [Errand.go, Courier.close]
  | enter e =>
    unfold Errand.go
    dsimp only
    split <;> simp [answer]
  | put send =>
    unfold Errand.go putEnvelope
    dsimp only
    split
    · simp
    · split <;> simp [answer]
  | work arm =>
    unfold Errand.go
    dsimp only
    split
    · simp
    · next w hw =>
      have hclosing : (s.takeWork w).courier.closing = s.courier.closing :=
        (Courier.worked_of_step? [] hw).closing
      simp [hclosing]

theorem Orderly.go {ms : List Move} (h : s.Orderly ms) (m : Move) : (s.go m).Orderly (ms ++ [m]) := by
  have hclosing := s.closing_go m
  refine ⟨accepted_go h.accepted m, fun hc => ?_, ?_, fun hd => hclosing.2 (.inl ?_)⟩
  · rcases hclosing.1 hc with hc | ⟨limit, rfl⟩
    · obtain ⟨limit, hlimit⟩ := h.closed hc
      exact ⟨limit, List.mem_append_left _ hlimit⟩
    · exact ⟨limit, List.mem_append_right _ List.mem_cons_self⟩
  · rcases s.go_cases m with hr | ⟨arm, w, -, hstep, hgo⟩
    · rw [hr.endpoint]
      exact h.socket
    · have hendpoint : (s.takeWork w).courier.endpoint = s.courier.endpoint :=
        (Courier.worked_of_step? [] hstep).endpoint
      rw [hgo, hendpoint]
      exact h.socket
  · rcases s.go_cases m with hr | ⟨arm, w, -, hstep, hgo⟩
    · exact h.ends (hr.isDone.1 hd)
    · rw [hgo] at hd
      refine ((Courier.worked_of_step? [] hstep).ends hd).resolve_right fun ⟨fault, hfault⟩ => ?_
      obtain ⟨addr, haddr⟩ := h.socket
      rw [hfault] at haddr
      cases haddr

theorem orderly_after {self peer : PeerId} {endpoint : Endpoint} {addr : Net.SocketAddr}
    (h : endpoint.socketAddr = .ok addr) (network : Network) (ms : List Move) :
    ((new self peer endpoint network).after ms).Orderly ms := by
  induction ms using List.reverseRecOn with
  | nil => exact ⟨rfl, nofun, ⟨addr, h⟩, fun hd => hd.elim⟩
  | append_singleton ms m ih =>
    rw [after_concat]
    exact ih.go m

theorem ended_go (h : s.courier.IsDone) (m : Move) :
    (s.go m).courier.IsDone ∧ (s.go m).wires = s.wires ∧
      ∃ refused, (s.go m).answered = s.answered ++ refused ∧ ∀ r ∈ refused, r.2 = false := by
  have hnone : ∃ refused, s.answered = s.answered ++ refused ∧ ∀ r ∈ refused, r.2 = false :=
    ⟨[], (List.append_nil _).symm, nofun⟩
  have hone : ∀ e : Envelope, ∃ refused, s.answered ++ [(e, false)] = s.answered ++ refused ∧ ∀ r ∈ refused, r.2 = false :=
    fun e => ⟨_, rfl, fun r hr => List.mem_singleton.1 hr ▸ rfl⟩
  cases m with
  | turn | close => exact ⟨h, rfl, hnone⟩
  | enter e =>
    unfold Errand.go
    dsimp only
    split
    · exact ⟨h, rfl, hnone⟩
    · exact ⟨h, rfl, hone e⟩
  | put send =>
    unfold Errand.go
    dsimp only
    split
    · exact ⟨h, rfl, hnone⟩
    · next e _ =>
      rw [putEnvelope, if_pos h]
      exact ⟨h, rfl, hone e⟩
  | work arm =>
    have hgo : s.go (.work arm) = s := by rw [Errand.go, Courier.step?_of_done h]
    rw [hgo]
    exact ⟨h, rfl, hnone⟩

theorem ended_after (h : s.courier.IsDone) (ms : List Move) :
    (s.after ms).courier.IsDone ∧ (s.after ms).wires = s.wires ∧
      ∃ refused, (s.after ms).answered = s.answered ++ refused ∧ ∀ r ∈ refused, r.2 = false := by
  induction ms generalizing s with
  | nil => exact ⟨h, rfl, [], (List.append_nil _).symm, nofun⟩
  | cons m ms ih =>
    obtain ⟨hd, hw, refused, ha, hr⟩ := ended_go h m
    obtain ⟨hd', hw', refused', ha', hr'⟩ := ih hd
    refine ⟨hd', hw'.trans hw, refused ++ refused', ?_, fun r hm => ?_⟩
    · rw [← List.append_assoc, ← ha]
      exact ha'
    · exact (List.mem_append.1 hm).elim (hr r) (hr' r)

theorem Logged.delivered_eq (h : Logged s lost trips) : s.delivered = (trips.flatMap Trip.written).map Trip.message := by
  rw [delivered, h.wires, List.flatMap_map, List.map_flatMap]
  exact List.flatMap_congr fun t _ => by rw [Trip.read_wire, Trip.tail_messages]

theorem written_sublist_left (trips : List Trip) : (trips.flatMap Trip.written).Sublist (trips.flatMap Trip.left) := by
  induction trips with
  | nil => exact .slnil
  | cons t trips ih =>
    rw [List.flatMap_cons, List.flatMap_cons]
    exact (List.sublist_append_left _ _).append ih

theorem Logged.written_sublist (h : Logged s lost trips) : (trips.flatMap Trip.written).Sublist s.link.sent := by
  have hleft := written_sublist_left trips
  rw [← h.queue] at hleft
  exact hleft.trans (List.take_sublist _ _)

/-- The envelopes that a link accepts are written once at most, and in order, whatever happens to the connections. On
every connection that is greeted the greeting comes first, then one message for an envelope, and at most a part of one
more. All that was taken off the queue was written or lost in its turn on one of the connections, at most one envelope on
each, and none where the greeting failed; a connection that loses an envelope is written on no more, and the envelope was
too long, or its write failed or broke off. Unless it is closed the courier goes on, and when it has ended nothing is
written and every send is refused. -/
theorem carried_once (self peer : PeerId) {endpoint : Endpoint} {addr : Net.SocketAddr}
    (h : endpoint.socketAddr = .ok addr) (network : Network) (ms : List Move) :
    let s₀ := new self peer endpoint network
    let s := s₀.after ms
    s.accepted = s.link.sent ∧
    (∃ trips : List Trip,
      (s.wires.map fun wire => Framing.read [wire] none) = trips.map (fun t => (t.messages self, t.ending)) ∧
      s.link.sent.take s.courier.taken = trips.flatMap Trip.left ∧
      ∀ i t e, trips[i]? = some t → t.lost? = some e → ∃ before m later, ms = before ++ m :: later ∧
        (s₀.after before).Loses i e m ∧ ((s₀.after before).go m).wires <+: s.wires) ∧
    (∃ written : List Envelope, s.delivered = written.map Trip.message ∧ written.Sublist s.accepted) ∧
    (∀ before later, ms = before ++ later → (s₀.after before).delivered <+: s.delivered) ∧
    (s.courier.IsDone → (∃ limit, Move.close limit ∈ ms) ∧ ∀ later, (s.after later).wires = s.wires ∧
      ∃ refused, (s.after later).answered = s.answered ++ refused ∧ ∀ r ∈ refused, r.2 = false) := by
  intro s₀ s
  obtain ⟨trips, hlogged⟩ := logged_after self peer endpoint network ms
  have horderly : s.Orderly ms := orderly_after h network ms
  refine ⟨horderly.accepted, ⟨trips, ?_, hlogged.queue, fun i t e ht he => ?_⟩, ?_, ?_, fun hd => ?_⟩
  · rw [hlogged.wires, List.map_map]
    refine List.map_congr_left fun t _ => ?_
    rw [Function.comp_apply, self_after]
    exact t.read_wire self
  · obtain ⟨before, m, later, rfl, hm⟩ := hlogged.lost i t e ht he
    refine ⟨before, m, later, rfl, hm, ?_⟩
    have hs : s = ((s₀.after before).go m).after later := s₀.after_append before (m :: later)
    rw [hs]
    exact wires_prefix_after hm.off later
  · exact ⟨_, hlogged.delivered_eq, by rw [horderly.accepted]; exact hlogged.written_sublist⟩
  · rintro before later rfl
    have hs : s = (s₀.after before).after later := s₀.after_append before later
    rw [hs]
    exact delivered_after _ later
  · exact ⟨horderly.closed (horderly.ends hd), fun later => (ended_after hd later).2⟩

/-- Of three envelopes the second one is lost with the first connection, and the third goes out on the second one. -/
theorem carried_once_lost :
    let endpoint : Endpoint := .tcp "10.0.0.2" 1
    let addr : Net.SocketAddr := ⟨.v4 ⟨10, 0, 0, 2⟩, 1⟩
    let terrain : Net.Terrain := .ofMachines fun machine ip => machine = 1 ∧ ip = addr.ip
    let network : Network := { up := true, terrain, listeners := [{ site := ⟨1, addr⟩ }] }
    let self : PeerId := ⟨List.replicate 16 1, rfl⟩
    let peer : PeerId := ⟨List.replicate 16 2, rfl⟩
    let hello (id : CorrelationId) : Envelope := { id, message := .hello "10.0.0.1" 7 }
    let ms : List Move := [.enter (hello 1), .put 0, .enter (hello 2), .put 0, .enter (hello 3), .put 0, .work .connect,
      .work .deliver, .work (.deliverCut { kept := 9 }), .work .connect, .work .deliver, .close 5, .work .quit]
    endpoint.socketAddr = .ok addr ∧ ∀ s, s = (new self peer endpoint network).after ms →
      s.accepted = [hello 1, hello 2, hello 3] ∧ s.wires.length = 2 ∧
      s.delivered = [[(hello 1).encode], [(hello 3).encode]] ∧ ∀ later, (s.after later).wires = s.wires := by
  intro endpoint addr terrain network self peer hello ms
  have haddr : endpoint.socketAddr = .ok addr := by decide +kernel
  have hsent : ((new self peer endpoint network).after ms).link.sent = [hello 1, hello 2, hello 3] := by decide +kernel
  have hwires : ((new self peer endpoint network).after ms).wires.length = 2 := by decide +kernel
  have hdelivered : ((new self peer endpoint network).after ms).delivered =
      [[(hello 1).encode], [(hello 3).encode]] := by decide +kernel
  obtain ⟨haccepted, -, -, -, hends⟩ := carried_once self peer haddr network ms
  refine ⟨haddr, fun s hs => ?_⟩
  rw [← hs] at hsent hwires hdelivered haccepted hends
  refine ⟨haccepted.trans hsent, hwires, hdelivered, fun later => ((hends ?_).2 later).1⟩
  rw [hs]
  decide +kernel

end Errand
end Discovery
end PeerDiscovery
