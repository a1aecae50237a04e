import PeerDiscovery.Proofs.Framing.Shortage

/-! Streams that are cut off.
Wherever a stream of messages is cut, whole messages are left of it and a part of one more, which is empty when the cut
falls between two messages (`exists_cut`). The whole ones are read and the part is not, whether the stream ends there or
fails: `read_cut`. -/
namespace PeerDiscovery
namespace Framing

/-- Where the first so many messages of a stream end. -/
def edge (messages : List (List Bytes)) (i : Nat) : Nat := (stream (messages.take i)).length

theorem edge_mono (messages : List (List Bytes)) {i j : Nat} (h : i ≤ j) : edge messages i ≤ edge messages j := by
  obtain ⟨rest, hrest⟩ := List.take_prefix_take_left (l := messages) h
  rw [edge, edge, ← hrest, stream_append, List.length_append]
  exact Nat.le_add_right _ _

theorem edge_append_length (before after : List (List Bytes)) :
    edge (before ++ after) before.length = (stream before).length := by
  rw [edge, List.take_left]

theorem edge_succ_length (before : List (List Bytes)) (m : List Bytes) (after : List (List Bytes)) :
    edge (before ++ m :: after) (before.length + 1) = (stream (before ++ [m])).length := by
  rw [edge, List.append_cons, List.take_left' (by simp)]

/-- So many bytes of a stream are the messages `before`, and a part of the next message if there is one. -/
structure Cut (messages : List (List Bytes)) (n : Nat) (before after : List (List Bytes)) (part : Bytes) : Prop where
  eq : messages = before ++ after
  bytes : (stream messages).take n = stream before ++ part
  torn : Torn part
  length : (stream before).length + part.length = n
  next : ∀ m ∈ after.head?, n < (stream (before ++ [m])).length

theorem exists_cut {messages : List (List Bytes)} {n : Nat} (hn : n ≤ (stream messages).length) :
    ∃ before after part, Cut messages n before after part := by
  rcases fits_or_overflows messages n with hfits | ⟨before, m, after, rfl, hm, hfits, hover⟩
  · refine ⟨messages, [], [], (List.append_nil _).symm, ?_, .nil, Nat.le_antisymm hfits hn, nofun⟩
    rw [List.take_of_length_le hfits, List.append_nil]
  · have hlength : (stream (before ++ [m])).length = (stream before).length + (encodeFrames m).length := by
      rw [stream_append, stream_of_sendable hm, List.length_append]
    have hlt : n - (stream before).length < (encodeFrames m).length := by omega
    refine ⟨before, m :: after, (encodeFrames m).take (n - (stream before).length), rfl, ?_, ?_, ?_, ?_⟩
    · rw [List.append_cons, stream_append, stream_append, stream_of_sendable hm, List.append_assoc, List.take_append,
        List.take_of_length_le hfits, List.take_append_of_le_length (Nat.le_of_lt hlt)]
    · refine ⟨m, hm, List.take_prefix _ _, fun he => ?_⟩
      rw [← he, List.length_take] at hlt
      omega
    · rw [List.length_take]
      omega
    · rintro _ ⟨⟩
      exact hover

namespace Cut

variable {messages before after : List (List Bytes)} {n : Nat} {part : Bytes}

theorem lt_edge (h : Cut messages n before after part) {i : Nat} (hi : before.length < i) (hm : i ≤ messages.length) :
    n < edge messages i := by
  obtain ⟨rfl, -, -, -, hnext⟩ := h
  cases after with
  | nil =>
    rw [List.append_nil] at hm
    omega
  | cons m after =>
    refine Nat.lt_of_lt_of_le (hnext m rfl) ?_
    rw [← edge_succ_length before m after]
    exact edge_mono _ hi

theorem edge_le (h : Cut messages n before after part) {i : Nat} (hi : i ≤ before.length) :
    edge messages i ≤ (stream before).length := by
  rw [h.eq, ← edge_append_length before after]
  exact edge_mono _ hi

theorem getElem?_before (h : Cut messages n before after part) (i : Nat) :
    before[i]? = if edge messages (i + 1) ≤ n then messages[i]? else none := by
  have hlength := h.length
  by_cases hi : i < before.length
  · have hle := h.edge_le (i := i + 1) hi
    rw [if_pos (by omega), h.eq, List.getElem?_append_left hi]
  · rw [List.getElem?_eq_none (Nat.le_of_not_lt hi)]
    by_cases hm : i < messages.length
    · rw [if_neg (Nat.not_le_of_lt (h.lt_edge (by omega) hm))]
    · rw [List.getElem?_eq_none (Nat.le_of_not_lt hm), ite_self]

/-- Nothing is torn just if the cut falls between two messages, or at an end of the stream. -/
theorem part_eq_nil_iff (h : Cut messages n before after part) :
    part = [] ↔ ∃ i ≤ messages.length, edge messages i = n := by
  have hlength := h.length
  constructor
  · rintro rfl
    refine ⟨before.length, ?_, ?_⟩
    · rw [h.eq, List.length_append]
      exact Nat.le_add_right _ _
    · rw [h.eq, edge_append_length]
      exact hlength
  · rintro ⟨i, hm, hi⟩
    rw [← List.length_eq_zero_iff]
    by_cases hb : i ≤ before.length
    · have hle := h.edge_le hb
      omega
    · have hlt := h.lt_edge (Nat.lt_of_not_le hb) hm
      omega

end Cut

/-- Within a chain a reader finds no fault of its own, so that the failure of its stream is what it reports. -/
theorem Reader.atFailure_of_prefix {r : Reader} (hr : r.AtBoundary) {c : Chain} {part : Bytes} (h : part <+: c.bytes)
    (text : String) : (r.feed part).atFailure text = .io text := by
  obtain ⟨rest, hrest⟩ := h
  unfold Reader.atFailure
  split
  · next e hp =>
    have hchain := feed_chain hr c
    rw [← hrest, feed_append, feed_failed hp] at hchain
    rw [hchain] at hp
    cases hr.2.symm.trans hp
  · rfl

theorem stream_eq_flatMap {messages : List (List Bytes)} (h : ∀ m ∈ messages, Sendable m) :
    stream messages = messages.flatMap encodeFrames := by
  rw [stream, List.filter_eq_self.2 fun m hm => by simpa using h m hm]

theorem read_failing_of_torn {messages : List (List Bytes)} (h : ∀ m ∈ messages, Sendable m) {part : Bytes}
    (ht : Torn part) {pieces : List Bytes} (hp : pieces.flatten = messages.flatMap encodeFrames ++ part) (text : String) :
    read pieces (some text) = (messages, some (.io text)) := by
  obtain ⟨m, hm, hpre, -⟩ := id ht
  obtain ⟨c, -, hc⟩ := hm.exists_chain
  obtain ⟨chains, hframes, hbytes⟩ := exists_chains h
  have hmessages : (read pieces (some text)).1 = messages := congrArg Prod.fst (read_of_torn h ht hp)
  have hfeed : pieces.foldl Reader.feed {} =
      Reader.feed { done := (chains.map Chain.frames).reverse } part := by
    rw [foldl_feed, hp, Reader.feed_append, ← hbytes, Reader.feed_chains Reader.atBoundary_new, List.append_nil]
  refine Prod.ext hmessages (congrArg some ?_)
  rw [hfeed]
  exact Reader.atFailure_of_prefix ⟨rfl, rfl⟩ (hc ▸ hpre) text

/-- What is read of a beginning of a stream is a beginning of what is read of the stream. -/
theorem read_prefix {pieces pieces' : List Bytes} (h : pieces.flatten <+: pieces'.flatten)
    (failure failure' : Option String) : (read pieces failure).1 <+: (read pieces' failure').1 := by
  obtain ⟨rest, hrest⟩ := h
  simp only [read, foldl_feed, ← hrest, Reader.feed_append]
  exact List.reverse_prefix.2 (Reader.done_suffix_feed _ rest)

/-- A stream of messages is cut off at any place. The messages that end before it are read, and no others. Where the stream
ends there, the reader finds it truncated, unless the cut falls between two messages or at an end of the stream; where it
fails there, the reader says so in any case. And of any stream at all, a beginning gives a beginning of its messages. -/
theorem read_cut {messages : List (List Bytes)} (h : ∀ m ∈ messages, Sendable m) (failure : String) :
    let s := (({ failure } : Sink).writeAll messages).1.written
    (∀ n ≤ s.length, ∀ pieces : List Bytes, pieces.flatten = s.take n →
      (∀ i, (read pieces none).1[i]? = if edge messages (i + 1) ≤ n then messages[i]? else none) ∧
      (read pieces none).2 = (if ∃ i ≤ messages.length, edge messages i = n then none else some .truncated) ∧
      ∀ text, read pieces (some text) = ((read pieces none).1, some (.io text))) ∧
    ∀ (pieces pieces' : List Bytes) (failure failure' : Option String), pieces.flatten <+: pieces'.flatten →
      (read pieces failure).1 <+: (read pieces' failure').1 := by
  intro s
  refine ⟨fun n hn pieces hp => ?_, fun _ _ failure failure' hpre => read_prefix hpre failure failure'⟩
  have hs : s = stream messages := by
    rw [stream_eq_flatMap h]
    exact (Sink.writeAll_of_endless rfl h).1
  rw [hs] at hn hp
  obtain ⟨before, after, part, hcut⟩ := exists_cut hn
  have hbefore : ∀ m ∈ before, Sendable m := fun m hm => h m (hcut.eq ▸ List.mem_append_left after hm)
  have hbytes : pieces.flatten = before.flatMap encodeFrames ++ part := by
    rw [hp, hcut.bytes, stream_eq_flatMap hbefore]
  rw [read_of_torn hbefore hcut.torn hbytes]
  refine ⟨hcut.getElem?_before, ?_, read_failing_of_torn hbefore hcut.torn hbytes⟩
  simp only [hcut.part_eq_nil_iff]

/-- A cut behind the first frame of a message of two frames, and one between two messages. -/
theorem read_cut_more :
    let messages : List (List Bytes) := [[[], [7, 8]], [[9]]]
    (∀ m ∈ messages, Sendable m) ∧
      read [[1, 0, 0], [0, 0]] none = ([], some .truncated) ∧
      read [[1, 0, 0], [0, 0, 0, 0, 0, 0, 2, 7, 8]] none = ([[[], [7, 8]]], none) ∧
      read [[1, 0, 0], [0, 0, 0, 0, 0, 0, 2, 7, 8]] (some "reset") = ([[[], [7, 8]]], some (.io "reset")) := by
  intro messages
  have h : ∀ m ∈ messages, Sendable m := by decide
  obtain ⟨hcut, -⟩ := read_cut h ""
  obtain ⟨-, hmore, -⟩ := hcut 5 (by decide) [[1, 0, 0], [0, 0]] (by decide)
  obtain ⟨-, hbetween, hreset⟩ := hcut 12 (by decide) [[1, 0, 0], [0, 0, 0, 0, 0, 0, 2, 7, 8]] (by decide)
  refine ⟨h, Prod.ext (by decide) ?_, Prod.ext (by decide) ?_, ?_⟩
  · rw [hmore]
    decide
  · rw [hbetween]
    decide
  · rw [hreset]
    decide

end Framing
end PeerDiscovery
