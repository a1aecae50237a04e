import PeerDiscovery.Proofs.Framing
import PeerDiscovery.Proofs.Framing.Writing

/-! The reader of a stream of messages accepts its grammar.
`feed_chains` and `feed_rest` say what a reader makes of chains and of what is left after them, and as every
stream falls into these (`exists_splits`, `exists_ends`), `read_of_splits` determines every reading. -/
namespace PeerDiscovery
namespace Framing

/-- How a reader ends on a stream on which no message stands in front. -/
inductive Ends (s : Bytes) : Option Error → Prop where
  | clean : s = [] → Ends s none
  | tooLarge {size : Nat} : StartsTooLarge s size → Ends s (some (.tooLarge size))
  | tooMany : StartsTooMany s → Ends s (some .tooManyFrames)
  | truncated : StopsShort s → Ends s (some .truncated)

theorem exists_ends {s : Bytes} (h : ∀ c : Chain, ¬c.bytes <+: s) : ∃ e, Ends s e := by
  rcases rest_cases h with hnil | ⟨size, hlarge⟩ | hmany | hshort
  · exact ⟨_, .clean hnil⟩
  · exact ⟨_, .tooLarge hlarge⟩
  · exact ⟨_, .tooMany hmany⟩
  · exact ⟨_, .truncated hshort⟩

namespace Reader

variable {r : Reader}

theorem endFrame_of_more {f : Frame} (h : f.More) (hl : r.frames.length + 1 < maxFrames) :
    r.endFrame f.flags f.body = { r with frames := f.body :: r.frames, place := .header [] } := by
  rw [endFrame, if_neg h, if_pos hl]

theorem endFrame_of_full {f : Frame} (h : f.More) (hl : r.frames.length + 1 = maxFrames) :
    r.endFrame f.flags f.body = { r with frames := f.body :: r.frames, place := .failed .tooManyFrames } := by
  rw [endFrame, if_neg h, if_neg (Nat.not_lt_of_le (Nat.le_of_eq hl.symm))]

theorem endFrame_of_not_more {f : Frame} (h : ¬f.More) :
    r.endFrame f.flags f.body =
      { done := (f.body :: r.frames).reverse :: r.done, frames := [], place := .header [] } := by
  rw [endFrame, if_pos (Decidable.not_not.1 h)]

theorem feed_frame (hp : r.place = .header []) (f : Frame) : r.feed f.bytes = r.endFrame f.flags f.body :=
  feed_encodeFrame hp f.flags f.fits

/-- Frames after which others follow are kept, as long as there are fewer than sixteen. -/
theorem feed_frames (hp : r.place = .header []) {fs : List Frame} (hfs : ∀ f ∈ fs, f.More)
    (hl : r.frames.length + fs.length < maxFrames) :
    r.feed (fs.flatMap Frame.bytes) = { r with frames := (fs.map Frame.body).reverse ++ r.frames } := by
  induction fs generalizing r with
  | nil => rfl
  | cons f fs ih =>
    rw [List.length_cons] at hl
    have hf : r.feed f.bytes = { r with frames := f.body :: r.frames } := by
      rw [feed_frame hp, endFrame_of_more (hfs f List.mem_cons_self) (by omega), ← hp]
    rw [List.flatMap_cons, feed_append, hf,
      ih (r := { r with frames := f.body :: r.frames }) hp (fun g hg => hfs g (List.mem_cons_of_mem f hg))
        (by rw [List.length_cons]; omega)]
    simp

theorem feed_chain (hr : r.AtBoundary) (c : Chain) : r.feed c.bytes = { r with done := c.frames :: r.done } := by
  obtain ⟨done, frames, place⟩ := r
  obtain ⟨rfl, rfl⟩ := hr
  rw [Chain.bytes, feed_append, feed_frames rfl c.more (by simpa using c.few), feed_frame rfl, endFrame_of_not_more c.ends]
  simp [Chain.frames]

theorem feed_chains (hr : r.AtBoundary) (chains : List Chain) :
    r.feed (chains.flatMap Chain.bytes) = { r with done := (chains.map Chain.frames).reverse ++ r.done } := by
  induction chains generalizing r with
  | nil => rfl
  | cons c chains ih =>
    rw [List.flatMap_cons, feed_append, feed_chain hr, ih (r := { r with done := c.frames :: r.done }) hr]
    simp

theorem feed_failed {e : Error} (hp : r.place = .failed e) (s : Bytes) : r.feed s = r := by
  induction s with
  | nil => rfl
  | cons b s ih =>
    have hs : r.step b = r := by simp only [step, hp]
    exact (congrArg (fun r' : Reader => r'.feed s) hs).trans ih

theorem endHeader_of_large {size : Nat} (h : maxFrameSize < size) (flags : UInt8) :
    r.endHeader flags size = { r with place := .failed (.tooLarge size) } := by
  unfold endHeader
  rw [if_pos h]

theorem endHeader_of_le {left : Nat} (h : left + 1 ≤ maxFrameSize) (flags : UInt8) :
    r.endHeader flags (left + 1) = { r with place := .body flags left [] } := by
  unfold endHeader
  rw [if_neg (Nat.not_lt_of_le h)]

theorem feed_digits (hp : r.place = .header []) (flags : UInt8) {digits : Bytes} (hd : digits.length = 4) :
    r.feed (flags :: digits) = r.endHeader flags (Bytes.ofBigEndian digits) := by
  match digits, hd with
  | [s₁, s₂, s₃, s₄], _ => exact feed_header hp flags s₁ s₂ s₃ s₄

theorem feed_part {flags : UInt8} {left : Nat} {bytes : Bytes} (hp : r.place = .body flags left bytes) {s : Bytes}
    (hl : s.length ≤ left) : r.feed s = { r with place := .body flags (left - s.length) (s.reverse ++ bytes) } := by
  induction s generalizing r left bytes with
  | nil => simp [← hp]
  | cons b s ih =>
    obtain ⟨left, rfl⟩ : ∃ k, left = k + 1 := ⟨left - 1, by rw [List.length_cons] at hl; omega⟩
    have hs : r.step b = { r with place := .body flags left (b :: bytes) } := by simp only [step, hp]
    have hh : r.feed (b :: s) = (r.step b).feed s := rfl
    rw [hh, hs, ih rfl (by simpa using hl)]
    simp

theorem feed_stub (hp : r.place = .header []) {s : Bytes} (h : Stub s) (hne : s ≠ [] ∨ r.frames ≠ []) :
    (r.feed s).done = r.done ∧ (r.feed s).atEnd = some .truncated := by
  cases h with
  | header hl =>
    match s, hl with
    | [], _ =>
      have hframes : r.frames ≠ [] := hne.resolve_left fun h => h rfl
      simp [atEnd, hp, hframes]
    | [_], _ | [_, _], _ | [_, _, _], _ | [_, _, _, _], _ => simp [feed, step, hp, atEnd]
  | @body flags digits s hd hsize hl =>
    obtain ⟨left, hleft⟩ : ∃ left, Bytes.ofBigEndian digits = left + 1 := ⟨Bytes.ofBigEndian digits - 1, by omega⟩
    have hheader : r.feed (flags :: digits) = { r with place := .body flags left [] } := by
      rw [feed_digits hp flags hd, hleft, endHeader_of_le (hleft ▸ hsize)]
    rw [feed_append, hheader, feed_part (r := { r with place := .body flags left [] }) rfl (by omega)]
    exact ⟨rfl, rfl⟩

theorem feed_startsTooLarge (hr : r.AtBoundary) {s : Bytes} {size : Nat} (h : StartsTooLarge s size) :
    (r.feed s).done = r.done ∧ (r.feed s).atEnd = some (.tooLarge size) := by
  obtain ⟨done, frames, place⟩ := r
  obtain ⟨rfl, rfl⟩ := hr
  obtain ⟨fs, hfs, hl, flags, digits, hd, rfl, hsize, rest, rfl⟩ := h
  rw [feed_append, feed_append, feed_frames rfl hfs (by simpa using hl), feed_digits rfl flags hd,
    endHeader_of_large hsize, feed_failed rfl]
  exact ⟨rfl, rfl⟩

theorem feed_startsTooMany (hr : r.AtBoundary) {s : Bytes} (h : StartsTooMany s) :
    (r.feed s).done = r.done ∧ (r.feed s).atEnd = some .tooManyFrames := by
  obtain ⟨done, frames, place⟩ := r
  obtain ⟨rfl, rfl⟩ := hr
  obtain ⟨fs, hfs, hl, rest, rfl⟩ := h
  obtain ⟨init, f, rfl⟩ : ∃ init f, fs = init ++ [f] :=
    ⟨_, _, (List.dropLast_concat_getLast (List.ne_nil_of_length_pos (hl ▸ by decide))).symm⟩
  have hf : f.More := hfs f (List.mem_append_right _ List.mem_cons_self)
  rw [List.length_append, List.length_singleton] at hl
  rw [feed_append, List.flatMap_append, List.flatMap_singleton, feed_append,
    feed_frames rfl (fun g hg => hfs g (List.mem_append_left _ hg)) (by simp; omega), feed_frame rfl,
    endFrame_of_full hf (by simpa using hl), feed_failed rfl]
  exact ⟨rfl, rfl⟩

theorem feed_stopsShort (hr : r.AtBoundary) {s : Bytes} (h : StopsShort s) :
    (r.feed s).done = r.done ∧ (r.feed s).atEnd = some .truncated := by
  obtain ⟨done, frames, place⟩ := r
  obtain ⟨rfl, rfl⟩ := hr
  obtain ⟨hne, fs, stub, hfs, hl, hstub, rfl⟩ := h
  rw [feed_append, feed_frames rfl hfs (by simpa using hl)]
  refine feed_stub rfl hstub ?_
  by_cases hnil : stub = []
  · exact .inr (by rintro hframes; exact hne (by simp_all))
  · exact .inl hnil

theorem feed_rest (hr : r.AtBoundary) {s : Bytes} {e : Option Error} (h : Ends s e) :
    (r.feed s).done = r.done ∧ (r.feed s).atEnd = e := by
  cases h with
  | clean hnil =>
    obtain rfl := hnil
    exact ⟨rfl, by simp [atEnd, hr.1, hr.2]⟩
  | tooLarge h => exact feed_startsTooLarge hr h
  | tooMany h => exact feed_startsTooMany hr h
  | truncated h => exact feed_stopsShort hr h

end Reader

theorem Ends.unique {s : Bytes} {e e' : Option Error} (h : Ends s e) (h' : Ends s e') : e = e' :=
  (Reader.feed_rest Reader.atBoundary_new h).2.symm.trans (Reader.feed_rest Reader.atBoundary_new h').2

/-- The messages that are read are those which the chains spell, and what the reader says last depends on
the rest alone. -/
theorem read_of_splits {pieces : List Bytes} {chains : List Chain} {rest : Bytes} {e : Option Error}
    (h : Splits pieces.flatten chains rest) (he : Ends rest e) : read pieces none = (chains.map Chain.frames, e) := by
  have hfeed : pieces.foldl Reader.feed {} =
      Reader.feed { done := (chains.map Chain.frames).reverse } rest := by
    rw [foldl_feed, h.eq, Reader.feed_append, Reader.feed_chains Reader.atBoundary_new, List.append_nil]
  obtain ⟨hdone, hend⟩ :=
    Reader.feed_rest (r := { done := (chains.map Chain.frames).reverse }) ⟨rfl, rfl⟩ he
  simp only [read, hfeed, hdone, hend, List.reverse_reverse]

theorem exists_chains {messages : List (List Bytes)} (h : ∀ m ∈ messages, Sendable m) :
    ∃ chains : List Chain, chains.map Chain.frames = messages ∧
      chains.flatMap Chain.bytes = messages.flatMap encodeFrames := by
  induction messages with
  | nil => exact ⟨[], rfl, rfl⟩
  | cons m messages ih =>
    obtain ⟨c, hframes, hbytes⟩ := (h m List.mem_cons_self).exists_chain
    obtain ⟨chains, hmap, hflat⟩ := ih fun n hn => h n (List.mem_cons_of_mem m hn)
    refine ⟨c :: chains, ?_, ?_⟩
    · rw [List.map_cons, hframes, hmap]
    · rw [List.flatMap_cons, List.flatMap_cons, hbytes, hflat]

theorem not_prefix_nil (c : Chain) : ¬c.bytes <+: [] := fun h => c.bytes_ne_nil (List.prefix_nil.1 h)

/-- Messages written one after another to a stream without end are read back as they were, and then the stream
ends between two messages, whatever the pieces in which it arrives. -/
theorem read_writeAll {messages : List (List Bytes)} (h : ∀ m ∈ messages, Sendable m) (failure : String) :
    let out := ({ failure } : Sink).writeAll messages
    out.2.length = messages.length ∧ (∀ r ∈ out.2, r.isOk) ∧
      ∀ pieces : List Bytes, pieces.flatten = out.1.written → read pieces none = (messages, none) := by
  intro out
  obtain ⟨hwritten, hok⟩ := Sink.writeAll_of_endless (s := { failure }) rfl h
  obtain ⟨chains, hframes, hbytes⟩ := exists_chains h
  refine ⟨Sink.length_writeAll _ messages, hok, fun pieces hp => ?_⟩
  have hsplits : Splits pieces.flatten chains [] :=
    ⟨by rw [hp, hwritten, hbytes, List.nil_append, List.append_nil], not_prefix_nil⟩
  rw [read_of_splits hsplits (.clean rfl), hframes]

/-- Two messages, one of them with empty frames, in pieces that cut through a header and through a body. -/
theorem read_writeAll_cut :
    let messages : List (List Bytes) := [[[], [7, 8]], [[]]]
    (∀ m ∈ messages, Sendable m) ∧
      read [[1, 0, 0], [0, 0, 0, 0, 0, 0, 2, 7], [8, 0], [], [0, 0, 0, 0]] none = (messages, none) := by
  intro messages
  have h : ∀ m ∈ messages, Sendable m := by decide
  exact ⟨h, (read_writeAll h "").2.2 _ (by decide)⟩

/-- The reader accepts the grammar and nothing else. A stream falls into chains and a rest in one way only; the messages
that are read are those which the chains spell; and the rest alone decides how the reading ends. The flag bits without
a meaning are all that is lost when the messages are written again. -/
theorem read_exact (pieces : List Bytes) :
    ∃ (chains : List Chain) (rest : Bytes), Splits pieces.flatten chains rest ∧
      (∀ chains' rest', Splits pieces.flatten chains' rest' → chains' = chains ∧ rest' = rest) ∧
      (read pieces none).1 = chains.map Chain.frames ∧
      ((read pieces none).2 = none ↔ rest = []) ∧
      (∀ size, (read pieces none).2 = some (.tooLarge size) ↔ StartsTooLarge rest size) ∧
      ((read pieces none).2 = some .tooManyFrames ↔ StartsTooMany rest) ∧
      ((read pieces none).2 = some .truncated ↔
        rest ≠ [] ∧ (∀ size, ¬StartsTooLarge rest size) ∧ ¬StartsTooMany rest) ∧
      (∀ r ∈ (({} : Sink).writeAll (read pieces none).1).2, r.isOk) ∧
      (({} : Sink).writeAll (read pieces none).1).1.written = chains.flatMap fun c => c.cleared.bytes := by
  obtain ⟨chains, rest, hsplits⟩ := exists_splits pieces.flatten
  obtain ⟨e, he⟩ := exists_ends hsplits.ends
  have hread := read_of_splits hsplits he
  have hsendable : ∀ m ∈ chains.map Chain.frames, Sendable m := by
    intro m hm
    obtain ⟨c, -, rfl⟩ := List.mem_map.1 hm
    exact c.sendable_frames
  obtain ⟨hwritten, hok⟩ := Sink.writeAll_of_endless (s := {}) rfl hsendable
  rw [hread]
  refine ⟨chains, rest, hsplits, fun chains' rest' h => h.unique hsplits, rfl, ?_, ?_, ?_, ?_, hok, ?_⟩
  · constructor
    · rintro rfl
      cases he with
      | clean hnil => exact hnil
    · exact fun hnil => he.unique (.clean hnil)
  · intro size
    constructor
    · rintro rfl
      cases he with
      | tooLarge h => exact h
    · exact fun h => he.unique (.tooLarge h)
  · constructor
    · rintro rfl
      cases he with
      | tooMany h => exact h
    · exact fun h => he.unique (.tooMany h)
  · constructor
    · rintro rfl
      cases he with
      | truncated h =>
        refine ⟨h.1, fun size hlarge => ?_, fun hmany => ?_⟩
        · cases Ends.unique (.truncated h) (.tooLarge hlarge)
        · cases Ends.unique (.truncated h) (.tooMany hmany)
    · rintro ⟨hne, hlarge, hmany⟩
      cases he with
      | clean hnil => exact absurd hnil hne
      | tooLarge h => exact absurd h (hlarge _)
      | tooMany h => exact absurd h hmany
      | truncated => rfl
  · rw [hwritten, List.nil_append, List.flatMap_map]
    simp only [Chain.encodeFrames_frames]

end Framing
end PeerDiscovery
