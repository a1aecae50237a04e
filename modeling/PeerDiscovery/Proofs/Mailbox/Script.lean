import Mathlib.Data.List.Induction
import PeerDiscovery.Framing.Source
import PeerDiscovery.Mailbox.Hub
import PeerDiscovery.Proofs.Framing
import PeerDiscovery.Proofs.Framing.Reading

/-! What a connection tells its mailbox.
It is fixed by the bytes that were read on the connection, in whatever pieces (`script`, `Follows.receive`). -/
namespace PeerDiscovery
namespace Mailbox

open Framing (Reader)

/-- The complete messages of what was read. -/
def messages (input : Bytes) : List (List Bytes) := (Framing.read [input] none).1

/-- The error at which the reader stops, if there is one. -/
def fault? (input : Bytes) : Option Framing.Error := (Reader.feed {} input).failure?

/-- The identity that the first message gives: it has one frame, which is not empty. -/
def greeter? : List (List Bytes) → Option Bytes
  | [identity] :: _ => if identity = [] then none else some identity
  | _ => none

/-- What connection `n` tells of its messages. -/
def script (n : Nat) (messages : List (List Bytes)) (ended : Bool) : List Notice :=
  match greeter? messages with
  | none => []
  | some identity =>
    .connected n identity :: messages.tail.map (.message identity) ++ if ended then [.disconnected n identity] else []

theorem greeter?_append {ms : List (List Bytes)} {i : Bytes} (h : greeter? ms = some i) (new : List (List Bytes)) :
    greeter? (ms ++ new) = some i := by
  unfold greeter? at h ⊢
  split at h
  · exact h
  · cases h

theorem cons_of_greeter? {ms : List (List Bytes)} {i : Bytes} (h : greeter? ms = some i) :
    i ≠ [] ∧ ms = [i] :: ms.tail := by
  unfold greeter? at h
  split at h
  · split at h
    · cases h
    · next hne =>
      obtain rfl := Option.some.inj h
      exact ⟨hne, rfl⟩
  · cases h

theorem script_of_none {ms : List (List Bytes)} (h : greeter? ms = none) (n : Nat) (ended : Bool) :
    script n ms ended = [] := by
  rw [script, h]

theorem script_of_some {ms : List (List Bytes)} {i : Bytes} (h : greeter? ms = some i) (n : Nat) (ended : Bool) :
    script n ms ended = .connected n i :: ms.tail.map (.message i) ++ if ended then [.disconnected n i] else [] := by
  rw [script, h]

theorem script_concat {ms : List (List Bytes)} {i : Bytes} (h : greeter? ms = some i) (n : Nat) (frames : List Bytes) :
    script n (ms ++ [frames]) false = script n ms false ++ [.message i frames] := by
  obtain ⟨-, hms⟩ := cons_of_greeter? h
  rw [script_of_some (greeter?_append h _), script_of_some h, hms]
  simp

theorem connected_not_mem_rest {k n : Nat} {i j : Bytes} {ms : List (List Bytes)} {ended : Bool} :
    Notice.connected k i ∉ ms.map (.message j) ++ if ended then [.disconnected n j] else [] := by
  intro h
  rcases List.mem_append.1 h with h | h
  · obtain ⟨frames, -, h⟩ := List.mem_map.1 h
    cases h
  · cases ended <;> simp at h

theorem connected_mem_script {k n : Nat} {i : Bytes} {ms : List (List Bytes)} {ended : Bool}
    (h : .connected k i ∈ script n ms ended) : k = n ∧ greeter? ms = some i := by
  cases hg : greeter? ms with
  | none =>
    rw [script_of_none hg] at h
    cases h
  | some j =>
    rw [script_of_some hg] at h
    cases (List.mem_cons.1 h).resolve_right connected_not_mem_rest
    exact ⟨rfl, rfl⟩

namespace Connection

variable {c : Connection} {i : Bytes}

def half (c : Connection) : Framing.Reader × Option Bytes × Bool := (c.reader, c.identity, c.reading)

/-- A connection whose greeting was read. -/
def greet (c : Connection) (identity : Bytes) : Connection := { c with identity := some identity, writer := .open }

theorem takeMessages_nil (c : Connection) (n : Nat) :
    c.takeMessages n [] = if c.reader.failure? = none then (c, []) else c.lose n := by
  cases hf : c.reader.failure? <;> simp [takeMessages, hf]

theorem takeMessages_cons (hi : c.identity = some i) (n : Nat) (frames : List Bytes) (rest : List (List Bytes)) :
    c.takeMessages n (frames :: rest) =
      ((c.takeMessages n rest).1, .message i frames :: (c.takeMessages n rest).2) := by
  rw [takeMessages.eq_def]
  simp only [hi]

theorem takeMessages_greeting (hc : c.identity = none) {ms : List (List Bytes)} (h : greeter? ms = some i) (n : Nat) :
    c.takeMessages n ms =
      (((c.greet i).takeMessages n ms.tail).1, .connected n i :: ((c.greet i).takeMessages n ms.tail).2) := by
  obtain ⟨hne, hms⟩ := cons_of_greeter? h
  obtain ⟨b, bs, rfl⟩ := List.exists_cons_of_ne_nil hne
  rw [hms, takeMessages.eq_def]
  simp only [hc, List.tail_cons, greet]

theorem takeMessages_bad_greeting (hc : c.identity = none) {ms : List (List Bytes)} (h : greeter? ms = none)
    (hne : ms ≠ []) (n : Nat) : c.takeMessages n ms = c.lose n := by
  obtain ⟨frames, rest, rfl⟩ := List.exists_cons_of_ne_nil hne
  rw [takeMessages.eq_def]
  simp only [hc]
  split
  · rfl
  · next identity hnil =>
    have hi : identity ≠ [] := fun hi => hnil (hi ▸ rfl)
    simp [greeter?, hi] at h
  · rfl

end Connection

/-- A connection that has taken the messages `ms`, and what it has told; it is read no more if `ended`, or if it has
been greeted badly. -/
structure Tells (n : Nat) (c : Connection) (ms : List (List Bytes)) (ended : Prop) (told : List Notice) : Prop where
  identity : c.identity = greeter? ms
  told : told = script n ms (!c.reading)
  reading : c.reading = false ↔ ended ∨ ms ≠ [] ∧ greeter? ms = none

variable {n : Nat} {c c' : Connection} {ms : List (List Bytes)} {ended : Prop} {told : List Notice}

theorem tells_lose (hi : c.identity = greeter? ms) (ht : told = script n ms false)
    (he : ended ∨ ms ≠ [] ∧ greeter? ms = none) : Tells n (c.lose n).1 ms ended (told ++ (c.lose n).2) := by
  refine ⟨hi, ?_, iff_of_true rfl he⟩
  cases hg : greeter? ms with
  | none =>
    rw [hg] at hi
    simp only [Connection.lose, hi, ht, script_of_none hg, List.append_nil]
  | some i =>
    rw [hg] at hi
    simp only [Connection.lose, hi, ht, script_of_some hg]
    simp

theorem Tells.told_of_reading (h : Tells n c ms ended told) (hr : c.reading = true) : told = script n ms false := by
  have htold := h.told
  rwa [hr] at htold

theorem Tells.eq_nil (h : Tells n c ms ended told) (hr : c.reading = true) (hi : c.identity = none) : ms = [] := by
  refine Classical.byContradiction fun hne => ?_
  have hend := h.reading.2 (.inr ⟨hne, h.identity ▸ hi⟩)
  rw [hr] at hend
  cases hend

theorem Tells.takeMessages_of_identity {i : Bytes} (h : Tells n c ms False told) (hr : c.reading = true)
    (hi : c.identity = some i) (new : List (List Bytes)) :
    Tells n (c.takeMessages n new).1 (ms ++ new) (c.reader.failure? ≠ none) (told ++ (c.takeMessages n new).2) := by
  have hg : greeter? ms = some i := h.identity ▸ hi
  have htold := h.told_of_reading hr
  induction new generalizing ms told with
  | nil =>
    rw [List.append_nil, Connection.takeMessages_nil]
    split
    · next hf => exact ⟨h.identity, by simpa using h.told, by simp [hf, hr, hg]⟩
    · next hf => exact tells_lose h.identity htold (.inl hf)
  | cons frames rest ih =>
    have hg' := greeter?_append hg [frames]
    have hnext : told ++ [.message i frames] = script n (ms ++ [frames]) false := by rw [htold, script_concat hg]
    have hrest := ih ⟨hi.trans hg'.symm, by rw [hr]; exact hnext, by simp [hr, hg']⟩ hg' hnext
    rw [Connection.takeMessages_cons hi]
    simpa using hrest

theorem Tells.takeMessages (h : Tells n c ms False told) (hr : c.reading = true) (new : List (List Bytes)) :
    Tells n (c.takeMessages n new).1 (ms ++ new) (c.reader.failure? ≠ none) (told ++ (c.takeMessages n new).2) := by
  cases hi : c.identity with
  | some i => exact h.takeMessages_of_identity hr hi new
  | none =>
    obtain rfl := h.eq_nil hr hi
    obtain rfl : told = [] := h.told_of_reading hr
    rw [List.nil_append, List.nil_append]
    cases hg : greeter? new with
    | some i =>
      obtain ⟨hne, hnew⟩ := cons_of_greeter? hg
      have hgreeted : Tells n (c.greet i) [[i]] False [.connected n i] := by
        have hone : greeter? [[i]] = some i := by simp [greeter?, hne]
        have hreading : (c.greet i).reading = true := hr
        refine ⟨hone.symm, ?_, by simp [hreading, hone]⟩
        rw [hreading, script_of_some hone]
        rfl
      have hrest := hgreeted.takeMessages_of_identity hr rfl new.tail
      rw [Connection.takeMessages_greeting hi hg, hnew]
      exact hrest
    | none =>
      by_cases hnil : new = []
      · obtain rfl := hnil
        rw [Connection.takeMessages_nil]
        split
        · next hf => exact ⟨hi, by rw [hr]; rfl, by simp [hf, hr]⟩
        · next hf =>
          have hlost : Tells n (c.lose n).1 [] (c.reader.failure? ≠ none) ([] ++ (c.lose n).2) :=
            tells_lose hi rfl (.inl hf)
          exact hlost
      · have hlost : Tells n (c.lose n).1 new (c.reader.failure? ≠ none) ([] ++ (c.lose n).2) :=
          tells_lose (hi.trans hg.symm) (script_of_none hg n false).symm (.inr ⟨hnil, hg⟩)
        rw [Connection.takeMessages_bad_greeting hi hg hnil]
        exact hlost

/-- No more is read: the stream has ended or is at fault, or does not begin with a greeting. -/
def Stops (input : Bytes) (finished : Bool) : Prop :=
  (finished = true ∨ fault? input ≠ none) ∨ messages input ≠ [] ∧ greeter? (messages input) = none

/-- A connection on which `input` was read, to its end if it is `finished`, and what it has told. -/
structure Follows (n : Nat) (c : Connection) (input : Bytes) (finished : Bool) (told : List Notice) : Prop
    extends Tells n c (messages input) (finished = true ∨ fault? input ≠ none) told where
  reader : c.reader = (Reader.feed {} input).take.2

variable {input bytes : Bytes} {finished : Bool}

theorem messages_append (h : c.reader = (Reader.feed {} input).take.2) (bytes : Bytes) :
    messages (input ++ bytes) = messages input ++ (c.reader.feed bytes).take.1 ∧
      (Reader.feed {} (input ++ bytes)).take.2 = (c.reader.feed bytes).take.2 := by
  have hr : c.reader.onto (Reader.feed {} input).done = Reader.feed {} input := by
    rw [h]
    rfl
  have hfeed : Reader.feed {} (input ++ bytes) = (c.reader.feed bytes).onto (Reader.feed {} input).done := by
    rw [Reader.feed_append, ← Reader.feed_onto, hr]
  have hmessages : ∀ input, messages input = (Reader.feed {} input).take.1 := fun _ => rfl
  rw [hmessages, hmessages, hfeed]
  exact ⟨List.reverse_append, rfl⟩

theorem Follows.of_half (h : Follows n c input finished told) (hc : c'.half = c.half) : Follows n c' input finished told := by
  simp only [Connection.half, Prod.mk.injEq] at hc
  obtain ⟨hreader, hidentity, hreading⟩ := hc
  exact ⟨⟨hidentity.trans h.identity, hreading ▸ h.told, hreading ▸ h.reading⟩, hreader.trans h.reader⟩

theorem follows_new (n stream : Nat) : Follows n { stream } [] false [] :=
  ⟨⟨rfl, rfl, by simp [fault?, Reader.failure?, messages, Framing.read]⟩, rfl⟩

theorem Follows.going (h : Follows n c input finished told) (hr : c.reading = true) :
    finished = false ∧ fault? input = none := by
  have hend : ¬ (finished = true ∨ fault? input ≠ none) := by
    intro hend
    have hstop := h.reading.2 (.inl hend)
    rw [hr] at hstop
    cases hstop
  simpa using hend

theorem Follows.receiveEnd (h : Follows n c input finished told) (hr : c.reading = true) :
    Follows n (c.receiveEnd n).1 input true (told ++ (c.receiveEnd n).2) := by
  rw [Connection.receiveEnd, if_pos hr]
  exact ⟨tells_lose h.identity (h.told_of_reading hr) (.inl (.inl rfl)), h.reader⟩

theorem Connection.reader_takeMessages (c : Connection) (n : Nat) (ms : List (List Bytes)) :
    (c.takeMessages n ms).1.reader = c.reader := by
  fun_induction takeMessages c n ms <;> simp_all [lose]

theorem Follows.receive (h : Follows n c input finished told) (hr : c.reading = true) (bytes : Bytes) :
    Follows n (c.receive n bytes).1 (input ++ bytes) finished (told ++ (c.receive n bytes).2) := by
  obtain ⟨hmessages, hreader⟩ := messages_append h.reader bytes
  obtain ⟨rfl, -⟩ := h.going hr
  have hbefore : Tells n { c with reader := (c.reader.feed bytes).take.2 } (messages input) False told := by
    refine ⟨h.identity, h.told, ?_⟩
    have hgreeting := h.reading
    simp only [hr, Bool.true_eq_false, false_iff, not_or] at hgreeting
    simpa [hr] using hgreeting.2
  have hafter := hbefore.takeMessages hr (c.reader.feed bytes).take.1
  have hfault : fault? (input ++ bytes) = (c.reader.feed bytes).take.2.failure? := by
    rw [← hreader]
    rfl
  rw [← hmessages] at hafter
  rw [Connection.receive, if_pos hr]
  refine ⟨⟨hafter.identity, hafter.told, ?_⟩, (Connection.reader_takeMessages ..).trans hreader.symm⟩
  rw [hfault]
  simpa using hafter.reading

theorem fault?_append {input : Bytes} (h : fault? input ≠ none) (bytes : Bytes) : fault? (input ++ bytes) ≠ none := by
  unfold fault? Reader.failure? at h
  split at h
  · next e hp =>
    rw [fault?, Reader.feed_append, Reader.feed_failed hp, Reader.failure?, hp]
    exact Option.some_ne_none e
  · exact absurd rfl h

theorem greeter?_cons_append (frames : List Bytes) (rest new : List (List Bytes)) :
    greeter? (frames :: rest ++ new) = greeter? (frames :: rest) := by
  match frames with
  | [] | [_] | _ :: _ :: _ => rfl

theorem Stops.append {finished : Bool} (h : Stops input finished) (bytes : Bytes) : Stops (input ++ bytes) finished := by
  rcases h with (hf | hf) | ⟨hne, hg⟩
  · exact .inl (.inl hf)
  · exact .inl (.inr (fault?_append hf bytes))
  · obtain ⟨hmessages, -⟩ := messages_append (c := { stream := 0, reader := (Reader.feed {} input).take.2 }) rfl bytes
    obtain ⟨frames, rest, hms⟩ := List.exists_cons_of_ne_nil hne
    rw [hms] at hmessages hg
    rw [Stops, hmessages, greeter?_cons_append]
    exact .inr ⟨List.cons_ne_nil frames _, hg⟩

/-- A new connection to which bytes come in pieces, and what it tells. -/
def Connection.hear (n stream : Nat) (pieces : List Bytes) : Connection × List Notice :=
  pieces.foldl (fun r bytes => ((r.1.receive n bytes).1, r.2 ++ (r.1.receive n bytes).2)) ({ stream }, [])

theorem follows_hear (n stream : Nat) (pieces : List Bytes) (h : ¬Stops pieces.flatten false) :
    Follows n (Connection.hear n stream pieces).1 pieces.flatten false (Connection.hear n stream pieces).2 ∧
      (Connection.hear n stream pieces).1.reading = true := by
  have hreading : ∀ {c told} {input : Bytes}, Follows n c input false told → ¬Stops input false → c.reading = true :=
    fun hf hs => by simpa using mt hf.reading.1 hs
  induction pieces using List.reverseRecOn with
  | nil => exact ⟨follows_new n stream, rfl⟩
  | append_singleton pieces bytes ih =>
    rw [List.flatten_append, List.flatten_singleton] at h ⊢
    obtain ⟨hf, hr⟩ := ih fun hs => h (hs.append bytes)
    have hnext : Connection.hear n stream (pieces ++ [bytes]) =
        (((Connection.hear n stream pieces).1.receive n bytes).1,
          (Connection.hear n stream pieces).2 ++ ((Connection.hear n stream pieces).1.receive n bytes).2) :=
      List.foldl_append
    rw [hnext]
    have hf := hf.receive hr bytes
    exact ⟨hf, hreading hf h⟩

theorem told_hear (n stream : Nat) {pieces : List Bytes} (h : ¬Stops pieces.flatten false) :
    (Connection.hear n stream pieces).2 = script n (messages pieces.flatten) false := by
  obtain ⟨hf, hr⟩ := follows_hear n stream pieces h
  exact hf.told_of_reading hr

end Mailbox
end PeerDiscovery
