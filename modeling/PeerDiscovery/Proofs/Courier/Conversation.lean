import PeerDiscovery.Proofs.Courier.Trips

/-! What a courier hands on of what its peer sends: `hands_on_exactly`.
While a courier is connected a reader takes bytes off the stream at any time and as many as it likes, and the messages that
are complete wait in a queue of their own, among whatever else the courier takes up. That the stream is over is noticed only
when this queue is empty. What a courier does by itself is one such conversation (`exists_moves_of_work?`). -/
namespace PeerDiscovery
namespace Discovery

open Framing (Chain Reader Splits)
open Net (Network Pipe)

namespace Courier

variable {n : Network} {c : Courier} {queue : List Envelope} {stream : Nat} {reader : Reader} {arm : Arm} {w : Work}

deriving instance DecidableEq for Cut

deriving instance DecidableEq for Arm

/-- The stream is over for a reader that is at fault, and once everything was read of a stream that has ended or broken
off. -/
def IsOver (reader : Reader) (pipe : Pipe) : Prop :=
  reader.failure? ≠ none ∨ pipe.waiting = [] ∧ pipe.ended = true

instance (reader : Reader) (pipe : Pipe) : Decidable (IsOver reader pipe) := inferInstanceAs (Decidable (_ ∨ _))

/-- An arm that writes on the stream or gives it up, and reads nothing. -/
structure Outward (n : Network) (c : Courier) (stream : Nat) (w : Network × Courier) : Prop where
  incoming : w.1.incoming stream .client = n.incoming stream .client
  peer : w.2.peer = c.peer
  stage : w.2.stage = c.stage ∨ w.2.stream? = none

theorem incoming_modify (n : Network) (stream : Nat) (f : Pipe → Pipe) (s : Nat) :
    (n.modifyStream stream fun s => s.modify .client f).incoming s .client = n.incoming s .client :=
  Network.outgoing_modify_of_ne _ _ _ _ (.inr nofun)

theorem outward_leave (n : Network) (c : Courier) (stream : Nat) : Outward n c stream (c.leave n stream) :=
  ⟨incoming_modify .., rfl, .inr rfl⟩

theorem outward_breakOff (n : Network) (c : Courier) (stream : Nat) (bytes : Bytes) (cut : Cut) :
    Outward n c stream (c.breakOff n stream bytes cut) := by
  have hn : (tear n stream bytes cut.kept).incoming stream .client = n.incoming stream .client := incoming_modify ..
  unfold breakOff
  split
  · exact ⟨(incoming_modify _ stream _ stream).trans hn, rfl, .inr rfl⟩
  · exact ⟨(incoming_modify _ stream _ stream).trans hn, rfl, .inr rfl⟩

/-- An envelope is written whole and the stream kept, or it cannot be and the stream is given up. -/
theorem deliver_cases (n : Network) (c : Courier) (stream : Nat) (e : Envelope) :
    Outward n c stream (c.deliver n stream e) ∧
      ((c.deliver n stream e).2.stage = c.stage ∨ Fails n c stream e .deliver) := by
  unfold deliver
  rcases Framing.encode_cases [e.encode] with ⟨-, henc⟩ | ⟨fault, hrefuses, hfault⟩
  · rw [henc]
    rcases n.write_cases stream .client (Framing.encodeFrames [e.encode]) with ⟨faults, hw⟩ | ⟨-, hw⟩
    · have hin := incoming_modify { n with faults } stream (fun p => { p with ended := true }) stream
      simp only [hw]
      exact ⟨⟨hin, rfl, .inr rfl⟩, .inr (.refused (congrArg Prod.snd hw))⟩
    · simp only [hw]
      exact ⟨⟨incoming_modify n stream _ stream, rfl, .inl rfl⟩, .inl trivial⟩
  · rw [hfault]
    exact ⟨⟨incoming_modify n stream _ stream, rfl, .inr rfl⟩,
      .inr (.tooLong (Nat.lt_of_not_le fun hl => hrefuses.not_sendable (.of_le hl)))⟩

/-- A courier that is connected gives up its stream because it was told to end, because of an envelope that cannot be
written, or because it has found the stream to be over. -/
theorem outward_of_step? (hs : c.stage = .connected stream reader) (hread : arm ≠ .read)
    (h : c.step? n queue arm = some w) :
    Outward n c stream (w.1, w.2.1) ∧ (w.2.1.stream? = none → arm = .quit ∧ c.closing = true ∨
      (∃ e, queue[c.taken]? = some e ∧ Fails n c stream e arm) ∨ arm = .leave) := by
  cases arm with
  | read => exact absurd rfl hread
  | quit =>
    simp only [step?, quit?, hs, Option.map_eq_some_iff] at h
    obtain ⟨v, hv, rfl⟩ := h
    split at hv
    · next hc =>
      obtain rfl := Option.some.inj hv
      exact ⟨⟨incoming_modify .., rfl, .inr rfl⟩, fun _ => .inl ⟨rfl, hc⟩⟩
    · cases hv
  | leave =>
    simp only [step?, hs] at h
    obtain rfl := Option.some.inj h
    exact ⟨outward_leave n c stream, fun _ => .inr (.inr rfl)⟩
  | deliver =>
    simp only [step?, hs] at h
    obtain ⟨e, he, hw⟩ := Option.map_eq_some_iff.1 h
    obtain ⟨hout, hcases⟩ := deliver_cases n c stream e
    rcases hd : c.deliver n stream e with ⟨n', c'⟩
    rw [hd] at hw hout hcases
    subst hw
    refine ⟨hout, fun hnone => hcases.elim (fun hc => ?_) fun hf => .inr (.inl ⟨e, he, hf⟩)⟩
    have hon : c'.stream? = some stream := stream?_of_stage (hc.trans hs)
    rw [hon] at hnone
    cases hnone
  | deliverCut cut =>
    simp only [step?, hs] at h
    split at h
    · next ha =>
      obtain ⟨e, he, hw⟩ := Option.bind_eq_some_iff.1 h
      obtain ⟨v, hv, rfl⟩ := Option.map_eq_some_iff.1 hw
      unfold deliverCut at hv
      split at hv
      · cases hv
      · obtain rfl := Option.some.inj hv
        obtain ⟨hin, hpeer, hstage⟩ := outward_breakOff n { c with taken := c.taken + 1 } stream _ cut
        exact ⟨⟨hin, hpeer, hstage⟩, fun _ => .inr (.inl ⟨e, he, .cut ha⟩)⟩
    · cases h
  | connect | connectCut | wake => simp [step?, hs] at h

end Courier

/-- A connected courier, with the envelopes that its link has taken and with what has passed between it and its peer. The
messages that its reader has complete are those that it has not handed on. -/
structure Conversation where
  network : Network
  courier : Courier
  stream : Nat
  queue : List Envelope
  /-- All that the peer has sent on the stream. -/
  sent : Bytes
  /-- The envelopes that the courier has handed on. -/
  inbound : List Envelope := []
  /-- What the courier took up when it gave up the stream. -/
  ending : Option Courier.Arm := none

namespace Conversation

inductive Move where
  /-- Anything happens to the network, but what waits to be read stays, and more may come until the stream has ended. -/
  | turn (network : Network)
  | send (envelope : Envelope)
  | close
  /-- The reader takes so many of the bytes that wait. -/
  | fetch (count : Nat)
  /-- The courier takes up the oldest message that is complete. -/
  | forward
  /-- The courier takes up something else. -/
  | work (arm : Courier.Arm)

def Extends (p p' : Pipe) : Prop :=
  p.waiting <+: p'.waiting ∧ (p.ended = true → p'.waiting = p.waiting ∧ p'.ended = true)

instance (p p' : Pipe) : Decidable (Extends p p') := inferInstanceAs (Decidable (_ ∧ (_ → _)))

/-- What the peer has sent and the reader has not taken. -/
def pipe (s : Conversation) : Pipe := s.network.incoming s.stream .client

def begin (network : Network) (courier : Courier) (stream : Nat) (queue : List Envelope) : Conversation where
  network := network
  courier := courier
  stream := stream
  queue := queue
  sent := (network.incoming stream .client).waiting

/-- The network after so many bytes were taken off the stream. -/
def rest (s : Conversation) (count : Nat) : Network :=
  s.network.modifyStream s.stream fun t => t.modify .server fun p => { p with waiting := s.pipe.waiting.drop count }

def turn (s : Conversation) (network : Network) : Conversation :=
  let pipe := network.incoming s.stream .client
  if Extends s.pipe pipe then { s with network, sent := s.sent ++ pipe.waiting.drop s.pipe.waiting.length } else s

/-- What can be taken up beside the messages of the reader. That the stream is over is noticed behind them. -/
def May (s : Conversation) (reader : Reader) : Courier.Arm → Prop
  | .quit | .deliver | .deliverCut _ => True
  | .leave => reader.done = [] ∧ Courier.IsOver reader s.pipe
  | _ => False

instance (s : Conversation) (reader : Reader) (arm : Courier.Arm) : Decidable (s.May reader arm) := by
  unfold May
  split <;> infer_instance

def fetch (s : Conversation) (reader : Reader) (count : Nat) : Conversation :=
  if reader.failure? = none then
    { s with
      network := s.rest count
      courier := { s.courier with stage := .connected s.stream (reader.feed (s.pipe.waiting.take count)) } }
  else s

def forward (s : Conversation) (reader : Reader) : Conversation :=
  match reader.done.getLast? with
  | none => s
  | some message =>
    { s with
      courier := { s.courier with stage := .connected s.stream { reader with done := reader.done.dropLast } }
      inbound := s.inbound ++ (s.courier.reply? message).toList }

def work (s : Conversation) (reader : Reader) (arm : Courier.Arm) : Conversation :=
  if s.May reader arm then
    match s.courier.step? s.network s.queue arm with
    | none => s
    | some w =>
      { s with network := w.1, courier := w.2.1, ending := if w.2.1.stream? = none then some arm else none }
  else s

/-- One move; nothing when it cannot be made, or when the courier has given up the stream. -/
def go (s : Conversation) (m : Move) : Conversation :=
  match m, s.courier.stage with
  | .turn network, _ => s.turn network
  | .send envelope, _ => { s with queue := s.queue ++ [envelope] }
  | .close, _ => { s with courier := s.courier.close }
  | .fetch count, .connected _ reader => s.fetch reader count
  | .forward, .connected _ reader => s.forward reader
  | .work arm, .connected _ reader => s.work reader arm
  | _, _ => s

def after (s : Conversation) (ms : List Move) : Conversation := ms.foldl go s

theorem after_append (s : Conversation) (ms ms' : List Move) : s.after (ms ++ ms') = (s.after ms).after ms' :=
  List.foldl_append

theorem after_concat (s : Conversation) (ms : List Move) (m : Move) : s.after (ms ++ [m]) = (s.after ms).go m :=
  s.after_append ms [m]

/-- Envelopes as coming from a peer, whatever sender they name. -/
def fromPeer (peer : PeerId) (envelopes : List Envelope) : List Envelope :=
  envelopes.map fun e => { e with sender := some peer.bytes }

theorem toList_reply? (c : Courier) (message : List Bytes) :
    (c.reply? message).toList = fromPeer c.peer (Envelope.ofFrames? message).toList :=
  Option.toList_map ..

theorem fromPeer_append (peer : PeerId) (envelopes envelopes' : List Envelope) :
    fromPeer peer (envelopes ++ envelopes') = fromPeer peer envelopes ++ fromPeer peer envelopes' :=
  List.map_append

theorem done_feed_of_splits {bytes rest : Bytes} {chains : List Chain} (h : Splits bytes chains rest) :
    (Reader.feed {} bytes).done.reverse = chains.map Chain.frames := by
  obtain ⟨e, he⟩ := Framing.exists_ends h.ends
  have hone : Splits [bytes].flatten chains rest := by simpa using h
  exact congrArg Prod.fst (Framing.read_of_splits hone he)

/-- What a courier has read and handed on so far. It gives up the stream because it is over only when it has handed on
everything. -/
structure Faithful (s : Conversation) (peer : PeerId) (reader : Reader) (fetched : Bytes) (passed : List (List Bytes)) :
    Prop where
  name : s.courier.peer = peer
  sent : s.sent = fetched ++ s.pipe.waiting
  read : Reader.feed {} fetched = reader.onto passed.reverse
  inbound : s.inbound = fromPeer peer (passed.filterMap Envelope.ofFrames?)
  stage : s.ending = none → s.courier.stage = .connected s.stream reader
  off : s.ending ≠ none → s.courier.stream? = none
  finished : s.ending = some .leave → reader.done = [] ∧ Courier.IsOver reader s.pipe

namespace Faithful

variable {s : Conversation} {peer : PeerId} {reader : Reader} {fetched : Bytes} {passed : List (List Bytes)}

/-- A courier that is connected has not given up its stream, and its reader is this one. -/
theorem of_connected (h : s.Faithful peer reader fetched passed) {stream : Nat} {reader' : Reader}
    (hs : s.courier.stage = .connected stream reader') : s.ending = none ∧ stream = s.stream ∧ reader' = reader := by
  have hnone : s.ending = none := by
    by_contra hne
    have hoff := h.off hne
    rw [Courier.stream?_of_stage hs] at hoff
    cases hoff
  rw [h.stage hnone] at hs
  cases hs
  exact ⟨hnone, rfl, rfl⟩

theorem turn (h : s.Faithful peer reader fetched passed) (network : Network) :
    (s.turn network).Faithful peer reader fetched passed := by
  unfold Conversation.turn
  dsimp only
  split
  · next hext =>
    obtain ⟨⟨more, hmore⟩, hended⟩ := hext
    refine ⟨h.name, ?_, h.read, h.inbound, h.stage, h.off, fun he => ⟨(h.finished he).1, ?_⟩⟩
    · change s.sent ++ _ = fetched ++ (network.incoming s.stream .client).waiting
      rw [← hmore, List.drop_left, h.sent, List.append_assoc]
    · rcases (h.finished he).2 with hfault | ⟨hwaiting, hend⟩
      · exact .inl hfault
      · obtain ⟨hsame, hend'⟩ := hended hend
        exact .inr ⟨hsame.trans hwaiting, hend'⟩
  · exact h

theorem incoming_rest (s : Conversation) (count : Nat) :
    ((s.rest count).incoming s.stream .client).waiting = s.pipe.waiting.drop count := by
  unfold rest Network.incoming
  rw [Network.outgoing_modify]
  split
  · rfl
  · next hn =>
    have hout : s.network.streams.length ≤ s.stream := Nat.le_of_not_lt fun hlt => hn ⟨rfl, rfl, hlt⟩
    simp [pipe, Network.incoming, Network.outgoing, List.getElem?_eq_none hout]

theorem fetch (h : s.Faithful peer reader fetched passed) (he : s.ending = none) (count : Nat) :
    ∃ reader' fetched', (s.fetch reader count).Faithful peer reader' fetched' passed := by
  unfold Conversation.fetch
  split
  · refine ⟨reader.feed (s.pipe.waiting.take count), fetched ++ s.pipe.waiting.take count, h.name, ?_, ?_, h.inbound,
      fun _ => rfl, fun hne => absurd he hne, fun ho => by rw [he] at ho; cases ho⟩
    · change s.sent = _ ++ ((s.rest count).incoming s.stream .client).waiting
      rw [incoming_rest, List.append_assoc, List.take_append_drop]
      exact h.sent
    · rw [Reader.feed_append, h.read, Reader.feed_onto]
  · exact ⟨reader, fetched, h⟩

theorem forward (h : s.Faithful peer reader fetched passed) (he : s.ending = none) :
    ∃ reader' passed', (s.forward reader).Faithful peer reader' fetched passed' := by
  unfold Conversation.forward
  split
  · exact ⟨reader, passed, h⟩
  · next message hlast =>
    have hdone : reader.done = reader.done.dropLast ++ [message] :=
      (List.dropLast_append_getLast? message hlast).symm
    refine ⟨{ reader with done := reader.done.dropLast }, passed ++ [message], h.name, h.sent, ?_, ?_, fun _ => rfl,
      fun hne => absurd he hne, fun ho => by rw [he] at ho; cases ho⟩
    · have hsplit : reader.done ++ passed.reverse = reader.done.dropLast ++ (passed ++ [message]).reverse := by
        rw [List.reverse_concat, List.append_cons, ← hdone]
      rw [h.read]
      exact congrArg (fun done => { reader with done }) hsplit
    · change s.inbound ++ (s.courier.reply? message).toList = _
      rw [toList_reply?, h.inbound, h.name, ← fromPeer_append, List.filterMap_append, List.filterMap_cons]
      cases Envelope.ofFrames? message <;> rfl

theorem work (h : s.Faithful peer reader fetched passed) (he : s.ending = none) (arm : Courier.Arm) :
    (s.work reader arm).Faithful peer reader fetched passed := by
  unfold Conversation.work
  split
  · next hmay =>
    split
    · exact h
    · next w hw =>
      have hread : arm ≠ .read := by
        rintro rfl
        exact hmay
      obtain ⟨hout, -⟩ := Courier.outward_of_step? (h.stage he) hread hw
      have hpipe : w.1.incoming s.stream .client = s.pipe := hout.incoming
      refine ⟨hout.peer.trans h.name, ?_, h.read, h.inbound, fun hn => ?_, fun hn => ?_, fun ho => ?_⟩
      · change s.sent = fetched ++ (w.1.incoming s.stream .client).waiting
        rw [hpipe]
        exact h.sent
      · have hon : w.2.1.stream? ≠ none := by simpa using hn
        exact (hout.stage.resolve_right hon).trans (h.stage he)
      · by_contra hon
        exact hn (if_neg hon)
      · have harm : arm = .leave := by
          change (if w.2.1.stream? = none then some arm else none) = _ at ho
          split at ho
          · exact Option.some.inj ho
          · cases ho
        subst harm
        change reader.done = [] ∧ Courier.IsOver reader (w.1.incoming s.stream .client)
        rw [hpipe]
        exact hmay
  · exact h

theorem go (h : s.Faithful peer reader fetched passed) (m : Move) :
    ∃ reader' fetched' passed', (s.go m).Faithful peer reader' fetched' passed' := by
  unfold Conversation.go
  split
  · exact ⟨reader, fetched, passed, h.turn _⟩
  · exact ⟨reader, fetched, passed, h.name, h.sent, h.read, h.inbound, h.stage, h.off, h.finished⟩
  · exact ⟨reader, fetched, passed, h.name, h.sent, h.read, h.inbound, h.stage, h.off, h.finished⟩
  · next count _ _ hs =>
    obtain ⟨he, -, rfl⟩ := h.of_connected hs
    obtain ⟨reader', fetched', h'⟩ := h.fetch he count
    exact ⟨reader', fetched', passed, h'⟩
  · next hs =>
    obtain ⟨he, -, rfl⟩ := h.of_connected hs
    obtain ⟨reader', passed', h'⟩ := h.forward he
    exact ⟨reader', fetched, passed', h'⟩
  · next arm _ _ hs =>
    obtain ⟨he, -, rfl⟩ := h.of_connected hs
    exact ⟨_, fetched, passed, h.work he arm⟩
  · exact ⟨reader, fetched, passed, h⟩

theorem after (h : s.Faithful peer reader fetched passed) (ms : List Move) :
    ∃ reader' fetched' passed', (s.after ms).Faithful peer reader' fetched' passed' := by
  induction ms generalizing s reader fetched passed with
  | nil => exact ⟨reader, fetched, passed, h⟩
  | cons m ms ih =>
    obtain ⟨reader', fetched', passed', h'⟩ := h.go m
    exact ih h'

theorem prefix_messages (h : s.Faithful peer reader fetched passed) {chains : List Chain} {rest : Bytes}
    (hs : Splits s.sent chains rest) : passed ++ reader.done.reverse <+: chains.map Chain.frames := by
  rw [← done_feed_of_splits hs, h.sent, Reader.feed_append, h.read]
  have hsuffix := Reader.done_suffix_feed (reader.onto passed.reverse) s.pipe.waiting
  simpa [Reader.onto] using List.reverse_prefix.2 hsuffix

/-- When all that the reader has complete was handed on and the stream is over, nothing is missing. -/
theorem messages_eq (h : s.Faithful peer reader fetched passed) {chains : List Chain} {rest : Bytes}
    (hs : Splits s.sent chains rest) (hdone : reader.done = [])
    (hover : reader.failure? ≠ none ∨ s.pipe.waiting = []) : passed = chains.map Chain.frames := by
  have hsame : (reader.onto passed.reverse).feed s.pipe.waiting = reader.onto passed.reverse := by
    rcases hover with hfault | hnil
    · unfold Reader.failure? at hfault
      split at hfault
      · next e hp => exact Reader.feed_failed (r := reader.onto passed.reverse) hp _
      · exact absurd rfl hfault
    · rw [hnil]
      rfl
  rw [← done_feed_of_splits hs, h.sent, Reader.feed_append, h.read, hsame, Reader.onto, hdone]
  simp

end Faithful

/-- The cause for which a courier gives up its stream. -/
inductive Cause (s : Conversation) : Courier.Arm → Prop where
  | told (closing : s.courier.closing = true) : Cause s .quit
  | lost {e : Envelope} {arm : Courier.Arm} (turn : s.queue[s.courier.taken]? = some e)
    (fails : Courier.Fails s.network s.courier s.stream e arm) : Cause s arm
  | finished {reader : Reader} (stage : s.courier.stage = .connected s.stream reader) (done : reader.done = [])
    (finished : Courier.IsOver reader s.pipe) : Cause s .leave

variable {s : Conversation} {peer : PeerId} {reader : Reader} {fetched : Bytes} {passed : List (List Bytes)}

theorem ending_turn (s : Conversation) (network : Network) : (s.turn network).ending = s.ending := by
  unfold turn
  dsimp only
  split <;> rfl

theorem ending_fetch (s : Conversation) (reader : Reader) (count : Nat) : (s.fetch reader count).ending = s.ending := by
  unfold fetch
  split <;> rfl

theorem ending_forward (s : Conversation) (reader : Reader) : (s.forward reader).ending = s.ending := by
  unfold forward
  split <;> rfl

theorem ending_work (he : s.ending = none) (hs : s.courier.stage = .connected s.stream reader) (arm : Courier.Arm) :
    (s.work reader arm).ending = none ∨ (s.work reader arm).ending = some arm ∧ s.Cause arm := by
  unfold work
  split
  · next hmay =>
    split
    · exact .inl he
    · next w hw =>
      have hread : arm ≠ .read := by
        rintro rfl
        exact hmay
      obtain ⟨-, hcause⟩ := Courier.outward_of_step? hs hread hw
      by_cases hoff : w.2.1.stream? = none
      · refine .inr ⟨if_pos hoff, ?_⟩
        rcases hcause hoff with ⟨rfl, hc⟩ | ⟨e, hturn, hfails⟩ | rfl
        · exact .told hc
        · exact .lost hturn hfails
        · exact .finished hs hmay.1 hmay.2
      · exact .inl (if_neg hoff)
  · exact .inl he

theorem Faithful.ending_go (h : s.Faithful peer reader fetched passed) (m : Move) :
    (s.go m).ending = s.ending ∨
      ∃ arm, m = .work arm ∧ s.ending = none ∧ (s.go m).ending = some arm ∧ s.Cause arm := by
  unfold Conversation.go
  split
  · exact .inl (ending_turn ..)
  · exact .inl rfl
  · exact .inl rfl
  · exact .inl (ending_fetch ..)
  · exact .inl (ending_forward ..)
  · next arm _ _ hs =>
    obtain ⟨he, rfl, rfl⟩ := h.of_connected hs
    rcases ending_work he hs arm with hnone | ⟨hsome, hcause⟩
    · exact .inl (hnone.trans he.symm)
    · exact .inr ⟨arm, rfl, he, hsome, hcause⟩
  · exact .inl rfl

theorem Faithful.ending_after (h : s.Faithful peer reader fetched passed) {arm : Courier.Arm} (he : s.ending = some arm)
    (ms : List Move) : (s.after ms).ending = some arm := by
  induction ms generalizing s reader fetched passed with
  | nil => exact he
  | cons m ms ih =>
    obtain ⟨reader', fetched', passed', h'⟩ := h.go m
    rcases h.ending_go m with hsame | ⟨-, -, hnone, -⟩
    · exact ih h' (hsame.trans he)
    · rw [he] at hnone
      cases hnone

theorem Faithful.exists_cause (h : s.Faithful peer reader fetched passed) (he : s.ending = none) {ms : List Move}
    {arm : Courier.Arm} (ha : (s.after ms).ending = some arm) :
    ∃ before later, ms = before ++ .work arm :: later ∧ (s.after before).Cause arm := by
  induction ms generalizing s reader fetched passed with
  | nil => cases he.symm.trans ha
  | cons m ms ih =>
    obtain ⟨reader', fetched', passed', h'⟩ := h.go m
    rcases h.ending_go m with hsame | ⟨arm', rfl, -, hsome, hcause⟩
    · obtain ⟨before, later, rfl, hcause⟩ := ih h' (hsame.trans he) ha
      exact ⟨m :: before, later, rfl, hcause⟩
    · obtain rfl : arm' = arm := Option.some.inj ((h'.ending_after hsome ms).symm.trans ha)
      exact ⟨[], ms, rfl, hcause⟩

theorem after_forward (s : Conversation) {reader : Reader} (hs : s.courier.stage = .connected s.stream reader) :
    s.after (List.replicate reader.done.length .forward) =
      { s with
        courier := { s.courier with stage := .connected s.stream { reader with done := [] } }
        inbound := s.inbound ++ reader.done.reverse.filterMap s.courier.reply? } := by
  obtain ⟨done, frames, place⟩ := reader
  induction done using List.reverseRecOn generalizing s with
  | nil => simp [after, ← hs]
  | append_singleton done message ih =>
    have hgo : s.go .forward =
        { s with
          courier := { s.courier with stage := .connected s.stream { done, frames, place } }
          inbound := s.inbound ++ (s.courier.reply? message).toList } := by
      simp [go, hs, forward]
    rw [List.length_append, List.length_singleton, List.replicate_succ, after, List.foldl_cons, hgo]
    refine (ih _ rfl).trans ?_
    have hreplies : (s.courier.reply? message).toList ++ done.reverse.filterMap s.courier.reply? =
        (done ++ [message]).reverse.filterMap s.courier.reply? := by
      rw [List.reverse_concat, List.filterMap_cons]
      cases s.courier.reply? message <;> rfl
    rw [← hreplies, ← List.append_assoc]
    rfl

theorem go_leave (hs : s.courier.stage = .connected s.stream reader) (hd : reader.done = [])
    (hover : Courier.IsOver reader s.pipe) :
    s.go (.work .leave) =
      { s with
        network := (s.courier.leave s.network s.stream).1
        courier := (s.courier.leave s.network s.stream).2
        ending := some .leave } := by
  have hmay : s.May reader .leave := ⟨hd, hover⟩
  simp only [go, hs, work, if_pos hmay, Courier.step?]
  exact congrArg _ (if_pos rfl)

theorem rest_length (s : Conversation) : s.rest s.pipe.waiting.length = (s.network.read s.stream .client).1 := by
  rw [rest, List.drop_length]
  rfl

/-- Reading is to take all that waits, to hand on every message and, at a fault, to give up the stream. -/
theorem exists_moves_of_read (hs : s.courier.stage = .connected s.stream reader)
    (hr : reader.failure? = none) :
    ∃ ms, (s.after ms).network = (s.courier.read s.network s.stream reader).1 ∧
      (s.after ms).courier = (s.courier.read s.network s.stream reader).2.1 ∧
      (s.after ms).inbound = s.inbound ++ (s.courier.read s.network s.stream reader).2.2 := by
  have hfetch : s.go (.fetch s.pipe.waiting.length) =
      { s with
        network := (s.network.read s.stream .client).1
        courier := { s.courier with stage := .connected s.stream (reader.feed s.pipe.waiting) } } := by
    simp [go, hs, fetch, hr, rest_length]
  have hfetched : (s.go (.fetch s.pipe.waiting.length)).courier.stage =
      .connected (s.go (.fetch s.pipe.waiting.length)).stream (reader.feed s.pipe.waiting) := by rw [hfetch]
  let taken : List Move := .fetch s.pipe.waiting.length :: List.replicate (reader.feed s.pipe.waiting).done.length .forward
  have htaken : s.after taken =
      { s with
        network := (s.network.read s.stream .client).1
        courier := { s.courier with stage := .connected s.stream { reader.feed s.pipe.waiting with done := [] } }
        inbound := s.inbound ++ (reader.feed s.pipe.waiting).done.reverse.filterMap s.courier.reply? } := by
    refine (after_forward _ hfetched).trans ?_
    rw [hfetch]
    rfl
  unfold Courier.read
  dsimp only [Reader.take]
  split
  · exact ⟨taken, by rw [htaken]; exact ⟨rfl, rfl, rfl⟩⟩
  · next e hfault =>
    refine ⟨taken ++ [.work .leave], ?_⟩
    have hstage : (s.after taken).courier.stage =
        .connected (s.after taken).stream { reader.feed s.pipe.waiting with done := [] } := by rw [htaken]
    rw [after_concat, go_leave hstage rfl (.inl (Option.ne_none_iff_exists'.2 ⟨e, hfault⟩)), htaken]
    exact ⟨rfl, rfl, rfl⟩

/-- What a courier does by itself when it is connected and has handed on what it has read is one such conversation. -/
theorem exists_moves_of_work? (hs : s.courier.stage = .connected s.stream reader) (hd : reader.done = [])
    (hr : reader.failure? = none) {w : Courier.Work} (hw : s.courier.work? s.network s.queue = some w) :
    ∃ ms, (s.after ms).network = w.1 ∧ (s.after ms).courier = w.2.1 ∧ (s.after ms).inbound = s.inbound ++ w.2.2 := by
  simp only [Courier.work?, hs] at hw
  split at hw
  · next hc =>
    obtain rfl := Option.some.inj hw
    refine ⟨[.work .quit], ?_⟩
    simp [after, go, hs, work, May, Courier.step?, Courier.quit?, hc]
  · simp only [Courier.connectedWork?] at hw
    split at hw
    · obtain rfl := Option.some.inj hw
      exact exists_moves_of_read hs hr
    · next hwaiting =>
      split at hw
      · next hended =>
        obtain rfl := Option.some.inj hw
        have hover : Courier.IsOver reader s.pipe := .inr ⟨Decidable.not_not.1 hwaiting, hended⟩
        refine ⟨[.work .leave], ?_⟩
        rw [after, List.foldl_cons, List.foldl_nil, go_leave hs hd hover]
        exact ⟨rfl, rfl, (List.append_nil _).symm⟩
      · split at hw
        · cases hw
        · next envelope he =>
          obtain rfl := Option.some.inj hw
          refine ⟨[.work .deliver], ?_⟩
          simp [after, go, hs, work, May, Courier.step?, he]

/-- Whatever else a connected courier takes up, and whenever bytes come and are read, the envelopes that it hands on are
those in the messages of one frame that its peer has sent, in order and none twice, as coming from the peer. It gives up the
stream because it was told to end, because of an envelope that cannot be written, or because the stream is over, and then
nothing is missing; nor is anything when all that was sent is read and handed on. What a courier does by itself is one such
conversation. -/
theorem hands_on_exactly (network : Network) {c : Courier} {stream : Nat} (hs : c.stage = .connected stream {})
    (queue : List Envelope) (ms : List Move) :
    let s₀ := begin network c stream queue
    let s := s₀.after ms
    (∃ chains rest, Splits s.sent chains rest) ∧
    (∀ chains rest, Splits s.sent chains rest →
      let envelopes := fromPeer c.peer ((chains.map Chain.frames).filterMap Envelope.ofFrames?)
      s.inbound <+: envelopes ∧ (s.ending = some .leave → s.inbound = envelopes) ∧
      ∀ reader : Reader, s.courier.stage = .connected stream reader → reader.done = [] → s.pipe.waiting = [] →
        s.inbound = envelopes) ∧
    (∀ arm, s.ending = some arm → ∃ before later, ms = before ++ .work arm :: later ∧ (s₀.after before).Cause arm) ∧
    ∀ (reader : Reader) (w : Courier.Work), s.courier.stage = .connected stream reader → reader.done = [] →
      reader.failure? = none → s.courier.work? s.network s.queue = some w → ∃ later,
        (s.after later).network = w.1 ∧ (s.after later).courier = w.2.1 ∧ (s.after later).inbound = s.inbound ++ w.2.2 := by
  intro s₀ s
  have hbegun : s₀.Faithful c.peer {} [] [] := ⟨rfl, rfl, rfl, rfl, fun _ => hs, fun hn => absurd rfl hn, nofun⟩
  obtain ⟨reader, fetched, passed, h⟩ := hbegun.after ms
  refine ⟨Framing.exists_splits s.sent, fun chains rest hsplits => ⟨?_, fun he => ?_, ?_⟩, fun arm ha => ?_, ?_⟩
  · rw [h.inbound]
    exact (((List.prefix_append _ _).trans (h.prefix_messages hsplits)).filterMap _).map _
  · obtain ⟨hdone, hover⟩ := h.finished he
    rw [h.inbound, h.messages_eq hsplits hdone (hover.imp_right And.left)]
  · intro reader' hstage hdone hwaiting
    obtain ⟨-, -, rfl⟩ := h.of_connected hstage
    rw [h.inbound, h.messages_eq hsplits hdone (.inr hwaiting)]
  · exact hbegun.exists_cause rfl ha
  · intro reader' w hstage hdone hr hw
    obtain ⟨-, hstream, rfl⟩ := h.of_connected hstage
    exact exists_moves_of_work? (hstream ▸ hstage) hdone hr hw

/-- Of four messages, the second has two frames and the third holds no envelope, and the stream ends behind the last one. -/
theorem hands_on_exactly_skipped :
    let self : PeerId := ⟨List.replicate 16 1, rfl⟩
    let peer : PeerId := ⟨List.replicate 16 2, rfl⟩
    let hello (id : CorrelationId) (sender : Option Bytes) : Envelope := { id, message := .hello "10.0.0.1" 7, sender }
    let sent : Bytes := [[(hello 1 (some [9])).encode], [[1], [2]], [[255]], [(hello 2 none).encode]].flatMap
      Framing.encodeFrames
    let network : Network := { up := true, streams := [{ fromServer := { waiting := sent, ended := true } }] }
    let c : Courier := { self, peer, endpoint := .tcp "10.0.0.2" 1, stage := .connected 0 {} }
    let ms : List Move := [.fetch 7, .forward, .fetch sent.length, .forward, .close, .forward, .work .leave, .forward, .forward,
      .work .leave]
    let s := (begin network c 0 []).after ms
    c.stage = .connected 0 {} ∧ ∃ chains rest, Splits s.sent chains rest ∧
      s.inbound = fromPeer peer ((chains.map Chain.frames).filterMap Envelope.ofFrames?) ∧
      s.inbound = [hello 1 (some peer.bytes), hello 2 (some peer.bytes)] := by
  intro self peer hello sent network c ms s
  have hending : s.ending = some .leave := by decide +kernel
  have hinbound : s.inbound = [hello 1 (some peer.bytes), hello 2 (some peer.bytes)] := by decide +kernel
  have hstage : c.stage = .connected 0 {} := rfl
  obtain ⟨⟨chains, rest, hsplits⟩, h, -⟩ := hands_on_exactly network hstage [] ms
  obtain ⟨-, hwhole, -⟩ := h chains rest hsplits
  exact ⟨hstage, chains, rest, hsplits, hwhole hending, hinbound⟩

end Conversation
end Discovery
end PeerDiscovery
