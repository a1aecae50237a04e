import PeerDiscovery.Proofs.Framing.Grammar

/-! What a writer puts on a stream.
A message that may be sent is put there as a chain (`Sendable.exists_chain`), any other one not at all
(`encode_cases`). A stream with room for so many bytes holds the first of them of what a stream without end
would hold (`took_writeAll`). -/
namespace PeerDiscovery
namespace Framing

/-- The messages that may be sent. -/
structure Sendable (frames : List Bytes) : Prop where
  ne_nil : frames ≠ []
  few : frames.length ≤ maxFrames
  fits : ∀ frame ∈ frames, frame.length ≤ maxFrameSize

instance (frames : List Bytes) : Decidable (Sendable frames) :=
  decidable_of_iff (frames ≠ [] ∧ frames.length ≤ maxFrames ∧ ∀ frame ∈ frames, frame.length ≤ maxFrameSize)
    ⟨fun h => ⟨h.1, h.2.1, h.2.2⟩, fun h => ⟨h.ne_nil, h.few, h.fits⟩⟩

theorem Sendable.of_le {payload : Bytes} (h : payload.length ≤ maxFrameSize) : Sendable [payload] where
  ne_nil := List.cons_ne_nil _ _
  few := Nat.le_add_left 1 15
  fits _ hf := List.mem_singleton.1 hf ▸ h

/-- The messages that are refused with an error. -/
def Error.Refuses : Error → List Bytes → Prop
  | empty, frames => frames = []
  | tooManyFrames, frames => maxFrames < frames.length
  | tooLarge size, frames => maxFrameSize < size ∧ ∃ frame ∈ frames, frame.length = size
  | io _, _ | truncated, _ => False

theorem Error.Refuses.not_sendable {e : Error} {frames : List Bytes} (h : e.Refuses frames) : ¬Sendable frames := by
  intro hs
  cases e with
  | empty => exact hs.ne_nil h
  | tooManyFrames => exact Nat.not_lt_of_le hs.few h
  | tooLarge size =>
    obtain ⟨hsize, frame, hmem, rfl⟩ := h
    exact Nat.not_lt_of_le (hs.fits frame hmem) hsize
  | io | truncated => exact h.elim

theorem encode_of_sendable {frames : List Bytes} (h : Sendable frames) : encode frames = .ok (encodeFrames frames) := by
  have hnone : frames.find? (fun frame => maxFrameSize < frame.length) = none :=
    List.find?_eq_none.2 fun frame hf => by simpa using h.fits frame hf
  rw [encode, if_neg h.ne_nil, if_neg (Nat.not_lt_of_le h.few), hnone]

theorem encode_cases (frames : List Bytes) :
    (Sendable frames ∧ encode frames = .ok (encodeFrames frames)) ∨ ∃ e : Error, e.Refuses frames ∧ encode frames = .error e := by
  by_cases hnil : frames = []
  · exact .inr ⟨.empty, hnil, by rw [encode, if_pos hnil]⟩
  · by_cases hmany : maxFrames < frames.length
    · exact .inr ⟨.tooManyFrames, hmany, by rw [encode, if_neg hnil, if_pos hmany]⟩
    · cases hlarge : frames.find? (fun frame => maxFrameSize < frame.length) with
      | none =>
        have hs : Sendable frames := ⟨hnil, Nat.le_of_not_lt hmany, fun frame hf => by
          simpa using List.find?_eq_none.1 hlarge frame hf⟩
        exact .inl ⟨hs, encode_of_sendable hs⟩
      | some frame =>
        have hsize : maxFrameSize < frame.length := by simpa using List.find?_some hlarge
        refine .inr ⟨.tooLarge frame.length, ⟨hsize, frame, List.mem_of_find?_eq_some hlarge, rfl⟩, ?_⟩
        rw [encode, if_neg hnil, if_neg hmany, hlarge]

theorem encodeFrames_concat (init : List Bytes) (last : Bytes) :
    encodeFrames (init ++ [last]) = init.flatMap (encodeFrame more) ++ encodeFrame 0 last := by
  induction init with
  | nil => rfl
  | cons a init ih =>
    have hc : encodeFrames (a :: (init ++ [last])) = encodeFrame more a ++ encodeFrames (init ++ [last]) := by
      cases init <;> rfl
    rw [List.cons_append, hc, ih, List.flatMap_cons, List.append_assoc]

namespace Frame

/-- The frame with only the lowest flag bit left. -/
def cleared (f : Frame) : Frame := { f with flags := f.flags &&& more }

theorem more_cleared (f : Frame) : f.cleared.More ↔ f.More := by
  rw [More, More, cleared, UInt8.and_assoc, UInt8.and_self]

theorem flags_of_more {f : Frame} (h : f.More) : f.flags &&& more = more := by
  have hbit : f.flags.toNat % 2 = 1 := by
    have hne : (f.flags &&& more).toNat ≠ 0 := fun h0 => h (UInt8.toNat.inj h0)
    rw [UInt8.toNat_and, show more.toNat = 1 from rfl, Nat.and_one_is_mod] at hne
    omega
  apply UInt8.toNat.inj
  rw [UInt8.toNat_and, show more.toNat = 1 from rfl, Nat.and_one_is_mod, hbit]

theorem bytes_cleared_of_more {f : Frame} (h : f.More) : f.cleared.bytes = encodeFrame more f.body := by
  rw [bytes, cleared, flags_of_more h]

theorem bytes_cleared_of_not_more {f : Frame} (h : ¬f.More) : f.cleared.bytes = encodeFrame 0 f.body := by
  rw [bytes, cleared, Decidable.not_not.1 h]

end Frame

namespace Chain

/-- The chain with only the lowest flag bits left. -/
def cleared (c : Chain) : Chain where
  init := c.init.map Frame.cleared
  last := c.last.cleared
  more f hf := by
    obtain ⟨g, hg, rfl⟩ := List.mem_map.1 hf
    exact g.more_cleared.2 (c.more g hg)
  ends h := c.ends (c.last.more_cleared.1 h)
  few := by
    rw [List.length_map]
    exact c.few

theorem frames_cleared (c : Chain) : c.cleared.frames = c.frames := by
  simp [frames, cleared, Frame.cleared, Function.comp_def]

theorem sendable_frames (c : Chain) : Sendable c.frames where
  ne_nil := List.append_ne_nil_of_right_ne_nil _ (List.cons_ne_nil _ _)
  few := by
    have hfew := c.few
    simp only [frames, List.length_append, List.length_map, List.length_singleton]
    omega
  fits frame hf := by
    rcases List.mem_append.1 hf with hf | hf
    · obtain ⟨f, -, rfl⟩ := List.mem_map.1 hf
      exact f.fits
    · rw [List.mem_singleton.1 hf]
      exact c.last.fits

/-- Written again, a message is the chain that spelled it, without the flag bits that have no meaning. -/
theorem encodeFrames_frames (c : Chain) : encodeFrames c.frames = c.cleared.bytes := by
  have hinit : c.init.map (fun f => encodeFrame Framing.more f.body) = c.init.map fun f => f.cleared.bytes :=
    List.map_congr_left fun f hf => (Frame.bytes_cleared_of_more (c.more f hf)).symm
  rw [frames, encodeFrames_concat, bytes, cleared, Frame.bytes_cleared_of_not_more c.ends, List.flatMap_map,
    List.flatMap_map, List.flatMap_def, hinit, List.flatMap_def]

end Chain

theorem exists_frames {bodies : List Bytes} (h : ∀ body ∈ bodies, body.length ≤ maxFrameSize) :
    ∃ fs : List Frame, (∀ f ∈ fs, f.More) ∧ fs.map Frame.body = bodies := by
  induction bodies with
  | nil => exact ⟨[], by simp, rfl⟩
  | cons body bodies ih =>
    obtain ⟨fs, hfs, rfl⟩ := ih fun b hb => h b (List.mem_cons_of_mem body hb)
    refine ⟨⟨more, body, h body List.mem_cons_self⟩ :: fs, ?_, rfl⟩
    intro f hf
    rcases List.mem_cons.1 hf with rfl | hf
    · exact show more &&& more ≠ 0 by decide
    · exact hfs f hf

/-- A message that may be sent is written as a chain that spells it. -/
theorem Sendable.exists_chain {frames : List Bytes} (h : Sendable frames) :
    ∃ c : Chain, c.frames = frames ∧ c.bytes = encodeFrames frames := by
  obtain ⟨init, last, rfl⟩ : ∃ init last, frames = init ++ [last] :=
    ⟨_, _, (List.dropLast_concat_getLast h.ne_nil).symm⟩
  obtain ⟨fs, hfs, rfl⟩ := exists_frames fun b hb => h.fits b (List.mem_append_left _ hb)
  have hlast := h.fits last (List.mem_append_right _ List.mem_cons_self)
  have hfew := h.few
  simp only [List.length_append, List.length_map, List.length_singleton] at hfew
  have hends : ¬(⟨0, last, hlast⟩ : Frame).More := show ¬(0 &&& more ≠ 0) by decide
  let c : Chain := ⟨fs, ⟨0, last, hlast⟩, hfs, hends, by omega⟩
  have hc : c.frames = fs.map Frame.body ++ [last] := rfl
  exact ⟨c.cleared, c.frames_cleared.trans hc, by rw [← hc, c.encodeFrames_frames]⟩

/-- What messages come to on a stream without end. -/
def stream (messages : List (List Bytes)) : Bytes := (messages.filter fun m => Sendable m).flatMap encodeFrames

theorem stream_append (a b : List (List Bytes)) : stream (a ++ b) = stream a ++ stream b := by
  simp [stream]

theorem stream_of_sendable {m : List Bytes} (h : Sendable m) : stream [m] = encodeFrames m := by
  simp [stream, h]

theorem stream_of_not_sendable {m : List Bytes} (h : ¬Sendable m) : stream [m] = [] := by
  simp [stream, h]

theorem encodeFrames_ne_nil {m : List Bytes} (h : Sendable m) : encodeFrames m ≠ [] := by
  obtain ⟨c, -, hc⟩ := h.exists_chain
  exact hc ▸ c.bytes_ne_nil

namespace Sink

theorem write_of_sendable (s : Sink) {m : List Bytes} (h : Sendable m) : s.write m = s.put (encodeFrames m) := by
  rw [write, encode_of_sendable h]

theorem write_of_not_sendable (s : Sink) {m : List Bytes} (h : ¬Sendable m) :
    ∃ e : Error, e.Refuses m ∧ s.write m = (s, .error e) := by
  rcases encode_cases m with ⟨hs, -⟩ | ⟨e, hr, he⟩
  · exact absurd hs h
  · exact ⟨e, hr, by rw [write, he]⟩

theorem writeAll_cons (s : Sink) (m : List Bytes) (rest : List (List Bytes)) :
    s.writeAll (m :: rest) = (((s.write m).1.writeAll rest).1,
      (s.write m).2.map (fun _ => (s.write m).1.written.length) :: ((s.write m).1.writeAll rest).2) := rfl

theorem writeAll_append (s : Sink) (a b : List (List Bytes)) :
    s.writeAll (a ++ b) = (((s.writeAll a).1.writeAll b).1, (s.writeAll a).2 ++ ((s.writeAll a).1.writeAll b).2) := by
  induction a generalizing s with
  | nil => rfl
  | cons m a ih => rw [List.cons_append, writeAll_cons, writeAll_cons, ih]; rfl

theorem length_writeAll (s : Sink) (messages : List (List Bytes)) : (s.writeAll messages).2.length = messages.length := by
  induction messages generalizing s with
  | nil => rfl
  | cons m rest ih => rw [writeAll_cons, List.length_cons, List.length_cons, ih]

theorem put_of_endless {s : Sink} (h : s.room = none) (bytes : Bytes) :
    s.put bytes = ({ s with written := s.written ++ bytes, flushes := s.flushes + 1 }, .ok ()) := by
  unfold put
  rw [h]

theorem writeAll_of_endless {s : Sink} (h : s.room = none) {messages : List (List Bytes)}
    (hm : ∀ m ∈ messages, Sendable m) :
    (s.writeAll messages).1.written = s.written ++ messages.flatMap encodeFrames ∧
      ∀ r ∈ (s.writeAll messages).2, r.isOk := by
  induction messages generalizing s with
  | nil => simp [writeAll]
  | cons m rest ih =>
    have hw : s.write m = ({ s with written := s.written ++ encodeFrames m, flushes := s.flushes + 1 }, .ok ()) := by
      rw [write_of_sendable s (hm m List.mem_cons_self), put_of_endless h]
    obtain ⟨hwritten, hok⟩ := ih (s := (s.write m).1) (by rw [hw]; exact h) fun n hn => hm n (List.mem_cons_of_mem m hn)
    rw [writeAll_cons]
    refine ⟨?_, ?_⟩
    · rw [hwritten, hw, List.flatMap_cons, List.append_assoc]
    · intro r hr
      rcases List.mem_cons.1 hr with rfl | hr
      · rw [hw]
        rfl
      · exact hok r hr

/-- What a stream is that had so much room and was given these bytes. -/
structure Took (room : Nat) (bytes : Bytes) (s s' : Sink) : Prop where
  written : s'.written = s.written ++ bytes.take room
  room : s'.room = some (room - bytes.length)
  failure : s'.failure = s.failure

variable {s : Sink} {room : Nat}

theorem took_nil (h : s.room = some room) : Took room [] s s :=
  ⟨by rw [List.take_nil, List.append_nil], h, rfl⟩

theorem Took.append {s' s'' : Sink} {a b : Bytes} (h : Took room a s s') (h' : Took (room - a.length) b s' s'') :
    Took room (a ++ b) s s'' where
  written := by rw [h'.written, h.written, List.take_append, List.append_assoc]
  room := by rw [h'.room, List.length_append, Nat.sub_sub]
  failure := h'.failure.trans h.failure

theorem put_of_room (h : s.room = some room) (bytes : Bytes) :
    Took room bytes s (s.put bytes).1 ∧
      (s.put bytes).2 = if bytes.length ≤ room then .ok () else .error (.io s.failure) := by
  unfold put
  rw [h]
  simp only
  split
  · exact ⟨⟨rfl, rfl, rfl⟩, rfl⟩
  · exact ⟨⟨rfl, rfl, rfl⟩, rfl⟩

theorem took_write (h : s.room = some room) (m : List Bytes) : Took room (stream [m]) s (s.write m).1 := by
  by_cases hm : Sendable m
  · rw [write_of_sendable s hm, stream_of_sendable hm]
    exact (put_of_room h _).1
  · obtain ⟨e, -, he⟩ := write_of_not_sendable s hm
    rw [he, stream_of_not_sendable hm]
    exact took_nil h

theorem took_writeAll (h : s.room = some room) (messages : List (List Bytes)) :
    Took room (stream messages) s (s.writeAll messages).1 := by
  induction messages generalizing s room with
  | nil => exact took_nil h
  | cons m rest ih =>
    have hm := took_write h m
    have hs : stream (m :: rest) = stream [m] ++ stream rest := stream_append [m] rest
    rw [writeAll_cons, hs]
    exact hm.append (ih hm.room)

theorem getElem?_writeAll (s : Sink) (before : List (List Bytes)) (m : List Bytes) (after : List (List Bytes)) :
    (s.writeAll (before ++ m :: after)).2[before.length]? =
      some (((s.writeAll before).1.write m).2.map fun _ => (s.writeAll (before ++ [m])).1.written.length) := by
  rw [writeAll_append, writeAll_append, writeAll_cons, List.getElem?_append_right (Nat.le_of_eq (length_writeAll s before)),
    length_writeAll, Nat.sub_self]
  rfl

/-- A message that may be sent succeeds when all that comes before it and itself have room. -/
theorem result_of_sendable (h : s.room = some room) (hw : s.written = []) {m : List Bytes} (hm : Sendable m)
    (before after : List (List Bytes)) :
    (s.writeAll (before ++ m :: after)).2[before.length]? =
      some (if (stream (before ++ [m])).length ≤ room then .ok (stream (before ++ [m])).length
        else .error (.io s.failure)) := by
  have hbefore := took_writeAll h before
  have hwritten := (took_writeAll h (before ++ [m])).written
  obtain ⟨-, hput⟩ := put_of_room hbefore.room (encodeFrames m)
  have hpos := List.length_pos_iff.2 (encodeFrames_ne_nil hm)
  have hl : (stream (before ++ [m])).length = (stream before).length + (encodeFrames m).length := by
    rw [stream_append, stream_of_sendable hm, List.length_append]
  rw [getElem?_writeAll, write_of_sendable _ hm, hput, hbefore.failure]
  by_cases hfits : (stream (before ++ [m])).length ≤ room
  · rw [if_pos (by omega), if_pos hfits, hwritten, hw, List.nil_append, List.take_of_length_le hfits]
    rfl
  · rw [if_neg (by omega), if_neg hfits]
    rfl

end Sink
end Framing
end PeerDiscovery
