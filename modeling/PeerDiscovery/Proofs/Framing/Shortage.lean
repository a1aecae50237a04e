import PeerDiscovery.Proofs.Framing.Reading
import PeerDiscovery.Proofs.Lists

/-! Streams that run full while they are written to.
The messages that have room come first, then a beginning of the one that has none, and then nothing more
(`fits_or_overflows`). A reader takes the beginning for no message (`Chain.ends_of_prefix`), so what it reads is what
the writer reported (`write_room`). -/
namespace PeerDiscovery
namespace Framing

/-- The messages whose writing succeeded. -/
def reported (messages : List (List Bytes)) (results : List (Except Error Nat)) : List (List Bytes) :=
  ((messages.zip results).filter fun p => p.2.isOk).map Prod.fst

theorem reported_append {a b : List (List Bytes)} {ra rb : List (Except Error Nat)} (h : a.length = ra.length) :
    reported (a ++ b) (ra ++ rb) = reported a ra ++ reported b rb := by
  rw [reported, List.zip_append h, List.filter_append, List.map_append]
  rfl

theorem reported_cons_ok (m : List Bytes) (messages : List (List Bytes)) (n : Nat) (results : List (Except Error Nat)) :
    reported (m :: messages) (.ok n :: results) = m :: reported messages results := rfl

theorem reported_cons_error (m : List Bytes) (messages : List (List Bytes)) (e : Error)
    (results : List (Except Error Nat)) :
    reported (m :: messages) (.error e :: results) = reported messages results := rfl

theorem fits_or_overflows (messages : List (List Bytes)) (room : Nat) :
    (stream messages).length ≤ room ∨
      ∃ before m after, messages = before ++ m :: after ∧ Sendable m ∧ (stream before).length ≤ room ∧
        room < (stream (before ++ [m])).length := by
  induction messages generalizing room with
  | nil => exact .inl (Nat.zero_le room)
  | cons m rest ih =>
    have hcons : ∀ before, (stream (m :: before)).length = (stream [m]).length + (stream before).length := by
      intro before
      rw [← List.length_append, ← stream_append, List.singleton_append]
    by_cases hroom : (stream [m]).length ≤ room
    · rcases ih (room - (stream [m]).length) with hfits | ⟨before, n, after, rfl, hn, hfits, hover⟩
      · exact .inl (by rw [hcons]; omega)
      · refine .inr ⟨m :: before, n, after, rfl, hn, ?_, ?_⟩
        · rw [hcons]
          omega
        · rw [List.cons_append, hcons]
          omega
    · have hm : Sendable m := Decidable.byContradiction fun hm => hroom (by simp [stream_of_not_sendable hm])
      exact .inr ⟨[], m, rest, rfl, hm, Nat.zero_le room, Nat.lt_of_not_le hroom⟩

namespace Sink

variable {s : Sink} {room : Nat}

theorem write_ok (h : s.room = some room) {m : List Bytes} (hm : Sendable m) (hl : (stream [m]).length ≤ room) :
    (s.write m).2 = .ok () := by
  rw [stream_of_sendable hm] at hl
  rw [write_of_sendable s hm, (put_of_room h _).2, if_pos hl]

theorem write_error (h : s.room = some room) {m : List Bytes} (hl : Sendable m → room < (stream [m]).length) :
    ∃ e, (s.write m).2 = .error e := by
  by_cases hm : Sendable m
  · have hover := hl hm
    rw [stream_of_sendable hm] at hover
    exact ⟨_, by rw [write_of_sendable s hm, (put_of_room h _).2, if_neg (Nat.not_le_of_lt hover)]⟩
  · obtain ⟨e, -, he⟩ := write_of_not_sendable s hm
    exact ⟨e, by rw [he]⟩

theorem reported_of_fits (h : s.room = some room) {messages : List (List Bytes)}
    (hl : (stream messages).length ≤ room) :
    reported messages (s.writeAll messages).2 = messages.filter fun m => Sendable m := by
  induction messages generalizing s room with
  | nil => rfl
  | cons m rest ih =>
    have hs : stream (m :: rest) = stream [m] ++ stream rest := stream_append [m] rest
    rw [hs, List.length_append] at hl
    have hrest := ih (took_write h m).room (by omega)
    rw [writeAll_cons]
    by_cases hm : Sendable m
    · rw [write_ok h hm (by omega), Except.map, reported_cons_ok, hrest, List.filter_cons_of_pos (by simpa using hm)]
    · obtain ⟨e, he⟩ := write_error h fun hm' => absurd hm' hm
      rw [he, Except.map, reported_cons_error, hrest, List.filter_cons_of_neg (by simpa using hm)]

theorem reported_of_full (h : s.room = some 0) (messages : List (List Bytes)) :
    reported messages (s.writeAll messages).2 = [] := by
  induction messages generalizing s with
  | nil => rfl
  | cons m rest ih =>
    have hrest := ih (s := (s.write m).1) (by rw [(took_write h m).room, Nat.zero_sub])
    obtain ⟨e, he⟩ := write_error h (m := m) fun hm => by
      rw [stream_of_sendable hm]
      exact List.length_pos_iff.2 (encodeFrames_ne_nil hm)
    rw [writeAll_cons, he, Except.map, reported_cons_error, hrest]

theorem reported_of_overflow (h : s.room = some room) {before : List (List Bytes)} {m : List Bytes}
    (hfits : (stream before).length ≤ room) (hover : room < (stream (before ++ [m])).length)
    (after : List (List Bytes)) :
    reported (before ++ m :: after) (s.writeAll (before ++ m :: after)).2 = before.filter fun m => Sendable m := by
  rw [stream_append, List.length_append] at hover
  have hbefore := took_writeAll h before
  obtain ⟨e, he⟩ := write_error hbefore.room (m := m) fun _ => by omega
  have hfull : (((s.writeAll before).1.write m).1).room = some 0 := by
    rw [(took_write hbefore.room m).room, Nat.sub_eq_zero_of_le (by omega)]
  rw [writeAll_append, reported_append (length_writeAll s before).symm, writeAll_cons, he, Except.map,
    reported_cons_error, reported_of_full hfull, reported_of_fits h hfits, List.append_nil]

theorem result_of_not_sendable (s : Sink) {m : List Bytes} (hm : ¬Sendable m) (before after : List (List Bytes)) :
    ∃ e : Error, e.Refuses m ∧ (s.writeAll (before ++ m :: after)).2[before.length]? = some (.error e) := by
  obtain ⟨e, hr, he⟩ := write_of_not_sendable (s.writeAll before).1 hm
  exact ⟨e, hr, by rw [getElem?_writeAll, he]; rfl⟩

theorem overflow_of_io (h : s.room = some room) (hw : s.written = []) {before after : List (List Bytes)} {m : List Bytes}
    (hio : (s.writeAll (before ++ m :: after)).2[before.length]? = some (.error (.io s.failure))) :
    room < (stream (before ++ [m])).length := by
  by_cases hm : Sendable m
  · rw [result_of_sendable h hw hm] at hio
    split at hio
    · cases hio
    · next hl => exact Nat.lt_of_not_le hl
  · obtain ⟨e, hr, he⟩ := s.result_of_not_sendable hm before after
    rw [he] at hio
    cases hio
    exact hr.elim

theorem fits_of_ok (h : s.room = some room) (hw : s.written = []) {before after : List (List Bytes)} {m : List Bytes}
    {n : Nat} (hok : (s.writeAll (before ++ m :: after)).2[before.length]? = some (.ok n)) :
    (stream (before ++ [m])).length ≤ room := by
  by_cases hm : Sendable m
  · rw [result_of_sendable h hw hm] at hok
    split at hok
    · next hl => exact hl
    · cases hok
  · obtain ⟨e, -, he⟩ := s.result_of_not_sendable hm before after
    rw [he] at hok
    cases hok

theorem result_ne_io (h : s.room = some room) (hw : s.written = []) {before : List (List Bytes)}
    (hfits : (stream before).length ≤ room) (after : List (List Bytes)) {j : Nat} (hj : j < before.length) :
    (s.writeAll (before ++ after)).2[j]? ≠ some (.error (.io s.failure)) := by
  obtain ⟨first, m, rest, rfl, rfl⟩ := exists_split_of_lt hj
  rw [List.append_assoc, List.cons_append]
  intro hio
  have hover := overflow_of_io h hw hio
  rw [List.append_cons, stream_append, List.length_append] at hfits
  omega

theorem result_ne_ok (h : s.room = some room) (hw : s.written = []) {messages : List (List Bytes)} {i j : Nat} (hij : i < j)
    (hio : (s.writeAll messages).2[i]? = some (.error (.io s.failure))) (n : Nat) :
    (s.writeAll messages).2[j]? ≠ some (.ok n) := by
  intro hok
  have hj := (List.getElem?_eq_some_iff.1 hok).1
  rw [length_writeAll] at hj
  obtain ⟨before, m, after, rfl, rfl⟩ := exists_split_of_lt (Nat.lt_trans hij hj)
  obtain ⟨before', m', after', heq, rfl⟩ := exists_split_of_lt hj
  have hover := overflow_of_io h hw hio
  rw [heq] at hok
  have hfits := fits_of_ok h hw hok
  have hpre : before ++ [m] <+: before ++ m :: after := ⟨after, by simp⟩
  have hpre' : before' <+: before ++ m :: after := ⟨m' :: after', heq.symm⟩
  obtain ⟨u, hu⟩ : before ++ [m] <+: before' :=
    List.prefix_of_prefix_length_le hpre hpre' (by rw [List.length_append]; exact hij)
  rw [← hu, stream_append, stream_append, List.length_append, List.length_append] at hfits
  omega

/-- A message failed for lack of room, and of the first such message a part was written. -/
def Breaks (s : Sink) (messages : List (List Bytes)) : Prop :=
  ∃ before m after, messages = before ++ m :: after ∧
    (s.writeAll messages).2[before.length]? = some (.error (.io s.failure)) ∧
    (∀ j < before.length, (s.writeAll messages).2[j]? ≠ some (.error (.io s.failure))) ∧
    (s.writeAll before).1.written ≠ (s.writeAll (before ++ [m])).1.written

theorem not_breaks_of_fits (h : s.room = some room) (hw : s.written = []) {messages : List (List Bytes)}
    (hfits : (stream messages).length ≤ room) : ¬s.Breaks messages := by
  rintro ⟨before, m, after, rfl, hio, -, -⟩
  have hne := result_ne_io h hw hfits [] (j := before.length) (by simp)
  rw [List.append_nil] at hne
  exact hne hio

theorem breaks_iff_of_overflow (h : s.room = some room) (hw : s.written = []) {before : List (List Bytes)} {m : List Bytes}
    (hm : Sendable m) (hfits : (stream before).length ≤ room) (hover : room < (stream (before ++ [m])).length)
    (after : List (List Bytes)) : s.Breaks (before ++ m :: after) ↔ (stream before).length < room := by
  have hio := result_of_sendable h hw hm before after
  rw [if_neg (Nat.not_le_of_lt hover)] at hio
  have hfirst : ∀ j < before.length, (s.writeAll (before ++ m :: after)).2[j]? ≠ some (.error (.io s.failure)) :=
    fun j hj => result_ne_io h hw hfits (m :: after) hj
  have hwritten : (s.writeAll before).1.written ≠ (s.writeAll (before ++ [m])).1.written ↔
      (stream before).length < room := by
    rw [(took_writeAll h _).written, (took_writeAll h _).written, hw, List.nil_append, List.nil_append, stream_append,
      List.take_append, List.take_of_length_le hfits, ne_eq, List.self_eq_append_right, List.take_eq_nil_iff]
    have hne : stream [m] ≠ [] := by
      rw [stream_of_sendable hm]
      exact encodeFrames_ne_nil hm
    simp only [hne, or_false]
    omega
  constructor
  · rintro ⟨before', m', after', heq, hio', hfirst', hne⟩
    have hl : before'.length = before.length := by
      rcases Nat.lt_trichotomy before'.length before.length with hlt | hl | hlt
      · exact absurd hio' (hfirst _ hlt)
      · exact hl
      · exact absurd hio (hfirst' _ hlt)
    obtain ⟨rfl, htail⟩ := List.append_inj heq hl.symm
    obtain ⟨rfl, -⟩ := List.cons.inj htail
    exact hwritten.1 hne
  · intro hlt
    exact ⟨before, m, after, rfl, hio, hfirst, hwritten.2 hlt⟩

end Sink

theorem StartsTooLarge.mono {s t : Bytes} {size : Nat} (h : StartsTooLarge s size) (hp : s <+: t) :
    StartsTooLarge t size := by
  obtain ⟨fs, hfs, hl, flags, digits, hd, hsize, hlarge, hs⟩ := h
  exact ⟨fs, hfs, hl, flags, digits, hd, hsize, hlarge, hs.trans hp⟩

theorem StartsTooMany.mono {s t : Bytes} (h : StartsTooMany s) (hp : s <+: t) : StartsTooMany t := by
  obtain ⟨fs, hfs, hl, hs⟩ := h
  exact ⟨fs, hfs, hl, hs.trans hp⟩

/-- A beginning of a chain that is not the whole of it holds no message, and nothing worse than a lack of bytes. -/
theorem Chain.ends_of_prefix {c : Chain} {t : Bytes} (h : t <+: c.bytes) (hne : t ≠ c.bytes) :
    (∀ d : Chain, ¬d.bytes <+: t) ∧ Ends t (if t = [] then none else some .truncated) := by
  have hnone : ∀ d : Chain, ¬d.bytes <+: t := by
    intro d hd
    obtain rfl := Chain.eq_of_prefix (hd.trans h)
    exact hne (h.eq_of_length_le hd.length_le)
  have hend : (Reader.feed {} c.bytes).atEnd = none := by
    rw [Reader.feed_chain Reader.atBoundary_new]
    rfl
  refine ⟨hnone, ?_⟩
  rcases rest_cases hnone with hnil | ⟨size, hlarge⟩ | hmany | hshort
  · rw [if_pos hnil]
    exact .clean hnil
  · rw [(Reader.feed_startsTooLarge Reader.atBoundary_new (hlarge.mono h)).2] at hend
    cases hend
  · rw [(Reader.feed_startsTooMany Reader.atBoundary_new (hmany.mono h)).2] at hend
    cases hend
  · rw [if_neg hshort.1]
    exact .truncated hshort

/-- A part of a message that may be sent, from its beginning on, but not the whole of it. -/
def Torn (t : Bytes) : Prop := ∃ m, Sendable m ∧ t <+: encodeFrames m ∧ t ≠ encodeFrames m

theorem Torn.nil : Torn [] :=
  have h : Sendable [[]] := by decide
  ⟨[[]], h, List.nil_prefix, fun he => encodeFrames_ne_nil h he.symm⟩

theorem torn_take {m : List Bytes} (h : Sendable m) (kept : Nat) : Torn ((encodeFrames m).dropLast.take kept) := by
  refine ⟨m, h, (List.take_prefix _ _).trans (List.dropLast_prefix _), fun he => ?_⟩
  have hpos := List.length_pos_iff.2 (encodeFrames_ne_nil h)
  have hlength := congrArg List.length he
  rw [List.length_take, List.length_dropLast] at hlength
  omega

theorem read_of_torn {messages : List (List Bytes)} (h : ∀ m ∈ messages, Sendable m) {t : Bytes} (ht : Torn t)
    {pieces : List Bytes} (hp : pieces.flatten = messages.flatMap encodeFrames ++ t) :
    read pieces none = (messages, if t = [] then none else some .truncated) := by
  obtain ⟨m, hm, hpre, hne⟩ := ht
  obtain ⟨c, -, hc⟩ := hm.exists_chain
  obtain ⟨chains, hframes, hbytes⟩ := exists_chains h
  rw [← hc] at hpre hne
  obtain ⟨hnone, hends⟩ := Chain.ends_of_prefix hpre hne
  rw [read_of_splits ⟨by rw [hp, hbytes], hnone⟩ hends, hframes]

theorem sendable_of_mem_filter (messages : List (List Bytes)) :
    ∀ m ∈ messages.filter fun m => Sendable m, Sendable m :=
  fun _ hm => by simpa using (List.mem_filter.1 hm).2

/-- What is read off a stream with little room is what was reported, and the reader finds the stream broken off
when the writer broke off in the middle of a message. -/
theorem Sink.read_of_room {s : Sink} {room : Nat} (h : s.room = some room) (hw : s.written = [])
    (messages : List (List Bytes)) {pieces : List Bytes} (hp : pieces.flatten = (s.writeAll messages).1.written) :
    (read pieces none).1 = reported messages (s.writeAll messages).2 ∧
      ((read pieces none).2 = none ∧ ¬s.Breaks messages ∨
        (read pieces none).2 = some .truncated ∧ s.Breaks messages) := by
  rw [(took_writeAll h messages).written, hw, List.nil_append] at hp
  rcases fits_or_overflows messages room with hfits | ⟨before, m, after, rfl, hm, hfits, hover⟩
  · obtain ⟨chains, hframes, hbytes⟩ := exists_chains (sendable_of_mem_filter messages)
    have hsplits : Splits pieces.flatten chains [] :=
      ⟨by rw [hp, List.take_of_length_le hfits, hbytes, List.append_nil]; rfl, not_prefix_nil⟩
    rw [read_of_splits hsplits (.clean rfl), reported_of_fits h hfits, hframes]
    exact ⟨rfl, .inl ⟨rfl, not_breaks_of_fits h hw hfits⟩⟩
  · obtain ⟨c, -, hc⟩ := hm.exists_chain
    have hlt : room - (stream before).length < c.bytes.length := by
      rw [stream_append, stream_of_sendable hm, ← hc, List.length_append] at hover
      omega
    have hs : (stream (before ++ m :: after)).take room =
        stream before ++ c.bytes.take (room - (stream before).length) := by
      rw [List.append_cons, stream_append, stream_append, stream_of_sendable hm, ← hc, List.append_assoc,
        List.take_append, List.take_of_length_le hfits, List.take_append_of_le_length (Nat.le_of_lt hlt)]
    have htorn : Torn (c.bytes.take (room - (stream before).length)) := by
      refine ⟨m, hm, hc ▸ List.take_prefix _ _, fun heq => ?_⟩
      rw [← hc] at heq
      rw [← heq, List.length_take] at hlt
      omega
    rw [read_of_torn (sendable_of_mem_filter before) htorn (hp.trans hs), reported_of_overflow h hfits hover,
      breaks_iff_of_overflow h hw hm hfits hover]
    refine ⟨rfl, ?_⟩
    have hnil : c.bytes.take (room - (stream before).length) = [] ↔ ¬(stream before).length < room := by
      rw [List.take_eq_nil_iff, or_iff_left c.bytes_ne_nil]
      omega
    by_cases hroom : (stream before).length < room
    · exact .inr ⟨if_neg fun hh => hnil.1 hh hroom, hroom⟩
    · exact .inl ⟨if_pos (hnil.2 hroom), hroom⟩

/-- Messages are written one after another to a stream that takes `room` bytes and then fails. One that may not be sent
is refused and changes nothing. The stream holds the first bytes of what a stream without end would hold. Any other
message succeeds when all up to it have room, and once one has failed for lack of room none succeeds any more. What is
read off the stream is what was reported, and then it ends between two messages, unless the writer broke off in the
middle of one. -/
theorem write_room (messages : List (List Bytes)) (room : Nat) (failure : String) :
    let s : Sink := { room := some room, failure }
    let results := (s.writeAll messages).2
    results.length = messages.length ∧
    (∀ before m after, messages = before ++ m :: after → ¬Sendable m →
      (s.writeAll (before ++ [m])).1 = (s.writeAll before).1 ∧
        ∃ e : Error, e.Refuses m ∧ results[before.length]? = some (.error e)) ∧
    (s.writeAll messages).1.written = (stream messages).take room ∧
    (∀ before m after, messages = before ++ m :: after → Sendable m →
      results[before.length]? = some (if (stream (before ++ [m])).length ≤ room then .ok (stream (before ++ [m])).length
        else .error (.io failure))) ∧
    (∀ i j n : Nat, i < j → results[i]? = some (.error (.io failure)) → results[j]? ≠ some (.ok n)) ∧
    ∀ pieces : List Bytes, pieces.flatten = (s.writeAll messages).1.written →
      (read pieces none).1 = reported messages results ∧
        ((read pieces none).2 = none ∧ ¬s.Breaks messages ∨
          (read pieces none).2 = some .truncated ∧ s.Breaks messages) := by
  intro s results
  refine ⟨s.length_writeAll messages, ?_, (Sink.took_writeAll rfl messages).written, ?_, ?_,
    fun pieces => Sink.read_of_room rfl rfl messages⟩
  · rintro before m after rfl hm
    refine ⟨?_, s.result_of_not_sendable hm before after⟩
    obtain ⟨e, -, he⟩ := (s.writeAll before).1.write_of_not_sendable hm
    rw [Sink.writeAll_append, Sink.writeAll_cons, he]
    rfl
  · rintro before m after rfl hm
    exact Sink.result_of_sendable rfl rfl hm before after
  · intro i j n hij hio
    exact Sink.result_ne_ok rfl rfl hij hio n

end Framing
end PeerDiscovery
