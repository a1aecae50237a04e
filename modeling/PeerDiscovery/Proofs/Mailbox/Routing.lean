import PeerDiscovery.Proofs.Mailbox.Speakers

/-! Where replies go: to the connection that speaks for their identity, and to nobody else (`reply_routed`).
Only an earlier connection of an identity is let go, so the writing half of the latest one is open until it ends
(`Proper`). -/
namespace PeerDiscovery
namespace Mailbox

/-- How the writing half fares while nothing is handed to it and nobody takes its place. -/
structure Writes (c c' : Connection) : Prop where
  keeps : ∀ i, c.identity = some i → c'.identity = some i
  outbox : c'.outbox.Sublist c.outbox
  released : c'.writer = .released → c.writer = .released
  started : c'.identity ≠ none → c'.writer = .unused → c.identity ≠ none ∧ c.writer = .unused

variable {c c' : Connection}

theorem Writes.refl (c : Connection) : Writes c c :=
  ⟨fun _ h => h, .refl _, id, fun hi hw => ⟨hi, hw⟩⟩

theorem Writes.identity_none (h : Writes c c') (hi : c'.identity = none) : c.identity = none := by
  cases hc : c.identity with
  | none => rfl
  | some i => exact absurd ((h.keeps i hc).symm.trans hi) nofun

theorem writes_lose (c : Connection) (n : Nat) : Writes c (c.lose n).1 :=
  ⟨fun _ h => h, List.nil_sublist _, nofun, nofun⟩

theorem Writes.of_greet {i : Bytes} (h : Writes (c.greet i) c') (hc : c.identity = none) : Writes c c' := by
  have hi : c'.identity = some i := h.keeps i rfl
  refine ⟨fun j hj => ?_, h.outbox, fun hw => absurd (h.released hw) nofun, fun _ hw => ?_⟩
  · rw [hc] at hj
    cases hj
  · have hgreeted := (h.started (by rw [hi]; nofun) hw).2
    cases hgreeted

theorem writes_takeMessages (c : Connection) (n : Nat) (ms : List (List Bytes)) : Writes c (c.takeMessages n ms).1 := by
  induction ms generalizing c with
  | nil =>
    rw [Connection.takeMessages_nil]
    split
    · exact Writes.refl c
    · exact writes_lose c n
  | cons frames rest ih =>
    cases hi : c.identity with
    | some i =>
      rw [Connection.takeMessages_cons hi]
      exact ih c
    | none =>
      cases hg : greeter? (frames :: rest) with
      | some i =>
        rw [Connection.takeMessages_greeting hi hg]
        exact (ih (c.greet i)).of_greet hi
      | none =>
        rw [Connection.takeMessages_bad_greeting hi hg (List.cons_ne_nil _ _)]
        exact writes_lose c n

theorem writes_receive (c : Connection) (n : Nat) (bytes : Bytes) : Writes c (c.receive n bytes).1 := by
  unfold Connection.receive
  split
  · have h := writes_takeMessages { c with reader := (c.reader.feed bytes).take.2 } n (c.reader.feed bytes).take.1
    exact ⟨h.keeps, h.outbox, h.released, h.started⟩
  · exact Writes.refl c

theorem writes_receiveEnd (c : Connection) (n : Nat) : Writes c (c.receiveEnd n).1 := by
  unfold Connection.receiveEnd
  split
  · exact writes_lose c n
  · exact Writes.refl c

theorem Writes.linger (h : Writes c c') : Writes c (c.linger c') := by
  unfold Connection.linger
  split
  · split
    · exact h
    · exact ⟨h.keeps, h.outbox, nofun, nofun⟩
    · next hnone hsome =>
      have hw : c.writer ≠ .unused := by
        intro hw
        cases hi : c'.identity with
        | none => exact hnone hw hi
        | some i => exact hsome i hw hi
      exact ⟨h.keeps, .refl _, id, fun _ hu => absurd hu hw⟩
  · exact h

theorem writes_stopWriting (c : Connection) : Writes c c.stopWriting :=
  ⟨fun _ h => h, List.nil_sublist _, nofun, nofun⟩

theorem writes_put (c : Connection) (whole : Bool) : Writes c (c.put whole).1 := by
  unfold Connection.put
  split
  · exact Writes.refl c
  · split
    · next payload rest ho =>
      split
      · exact ⟨fun _ h => h, ho ▸ List.sublist_cons_self payload rest, id, fun hi hw => ⟨hi, hw⟩⟩
      · exact writes_stopWriting c
    · split
      · exact writes_stopWriting c
      · exact Writes.refl c

theorem Connection.put_sublist (c : Connection) (whole : Bool) :
    ((c.put whole).2.toList ++ (c.put whole).1.outbox).Sublist c.outbox := by
  unfold put
  split
  · exact .refl _
  · split
    · next payload rest ho =>
      split
      · rw [ho]
        exact .refl _
      · exact List.nil_sublist _
    · split
      · exact List.nil_sublist _
      · exact .refl _

theorem Hub.connections_take_cases {h : Hub} {x : Notice} {n : Nat} (hc : (h.take x).1.connections[n]? = some c') :
    h.connections[n]? = some c' ∨
      ∃ k i c, x = .connected k i ∧ h.speaker? i = some n ∧ h.connections[n]? = some c ∧ c' = c.release := by
  cases x with
  | connected k i =>
    simp only [take, register] at hc
    split at hc
    · exact .inl hc
    · next old hs =>
      rcases getElem?_modify_cases hc with ⟨rfl, c, hold, rfl⟩ | ⟨-, hc⟩
      · exact .inr ⟨k, i, c, rfl, hs, hold, rfl⟩
      · exact .inl hc
  | message i frames => exact .inl hc
  | disconnected k i =>
    simp only [take, unregister] at hc
    split at hc
    · exact .inl hc
    · exact .inl hc

/-- The payloads of the replies to an identity that were sent. -/
def addressed (i : Bytes) (ms : List Office.Move) : List Bytes :=
  ms.filterMap fun
    | .send e => if e.sender = some i then some (payload e) else none
    | _ => none

theorem addressed_sublist (i : Bytes) (ms : List Office.Move) (m : Office.Move) :
    (addressed i ms).Sublist (addressed i (ms ++ [m])) := by
  rw [addressed, addressed, List.filterMap_append]
  exact List.sublist_append_left _ _

theorem addressed_send {i : Bytes} {e : Envelope} (he : e.sender = some i) (ms : List Office.Move) :
    addressed i (ms ++ [.send e]) = addressed i ms ++ [payload e] := by
  simp [addressed, he]

/-- What a send does to the connections: it hands the payload to the one that speaks. -/
theorem connections_send_cases {m : Mailbox} {e : Envelope} {n : Nat}
    (hc : (m.send e).1.hub.connections[n]? = some c') :
    m.hub.connections[n]? = some c' ∨ ∃ i c, e.sender = some i ∧ m.hub.speaker? i = some n ∧
      m.hub.connections[n]? = some c ∧ c' = (c.push (payload e)).1 := by
  unfold send at hc
  split at hc
  · exact .inl hc
  · next i he =>
    split at hc
    · simp only [Hub.reply] at hc
      split at hc
      · exact .inl hc
      · next k hs =>
        split at hc
        · exact .inl hc
        · next c hk =>
          rcases getElem?_set_cases hc with ⟨rfl, rfl⟩ | ⟨-, hc⟩
          · exact .inr ⟨i, c, he, hs, hk, rfl⟩
          · exact .inl hc
    · exact .inl hc

namespace Office

/-- A connection after some moves. It is written on only after its greeting, and let go only for a later connection.
What it writes are replies to its identity. -/
structure Proper (s : Office) (ms : List Move) (n : Nat) (c : Connection) : Prop where
  started : c.identity ≠ none → c.writer ≠ .unused
  released : c.writer = .released →
    ∃ i, c.identity = some i ∧ (n, .connected n i) ∈ s.taken ∧ s.mailbox.hub.speaker? i ≠ some n
  empty : c.identity = none → s.written n ++ c.outbox = []
  handed : ∀ i, c.identity = some i → (s.written n ++ c.outbox).Sublist (addressed i ms)

structure Posted (s : Office) (ms : List Move) : Prop where
  proper : ∀ n c, s.mailbox.hub.connections[n]? = some c → Proper s ms n c
  blank : ∀ n, s.mailbox.hub.connections.length ≤ n → s.written n = []

variable {s : Office} {ms : List Move} {n : Nat} {i : Bytes}

theorem speaker?_ne_go (hf : s.Faithful) (ht : (n, .connected n i) ∈ s.taken)
    (hn : s.mailbox.hub.speaker? i ≠ some n) (m : Move) : (s.go m).mailbox.hub.speaker? i ≠ some n := by
  by_cases hm : m = .notice
  · subst hm
    cases hw : s.waiting with
    | nil =>
      rw [go_notice_of_nil hf.waiting hw]
      exact hn
    | cons p rest =>
      rw [go_notice_of_cons hf.waiting hw, hub_hear, ne_eq, Hub.speaker?_take]
      rintro (hp | ⟨hold, -⟩)
      · refine hf.greets_once ht (k := p.1) (j := i) ?_
        rw [hw, ← hp]
        exact List.mem_cons_self
      · exact hn hold
  · rwa [Hub.speaker?, (idle_go hm).2]

theorem Proper.step (h : Proper s ms n c) (hf : s.Faithful) (m : Move) (hw : Writes c c')
    (hs : ((s.go m).written n ++ c'.outbox).Sublist (s.written n ++ c.outbox)) :
    Proper (s.go m) (ms ++ [m]) n c' where
  started hi hu := h.started (hw.started hi hu).1 (hw.started hi hu).2
  released hr := by
    obtain ⟨i, hi, ht, hn⟩ := h.released (hw.released hr)
    exact ⟨i, hw.keeps i hi, (taken_prefix_go s m).subset ht, speaker?_ne_go hf ht hn m⟩
  empty hi := by
    rw [h.empty (hw.identity_none hi)] at hs
    exact List.sublist_nil.1 hs
  handed i hi := by
    refine (hs.trans ?_).trans (addressed_sublist i ms m)
    cases hc : c.identity with
    | none =>
      rw [h.empty hc]
      exact List.nil_sublist _
    | some j =>
      obtain rfl : j = i := Option.some.inj ((hw.keeps j hc).symm.trans hi)
      exact h.handed j hc

/-- A move that does no more to the connections than to read on them, to write what waits or to stop. -/
theorem Posted.step (h : Posted s ms) (hf : s.Faithful) (m : Move)
    (hlength : (s.go m).mailbox.hub.connections.length = s.mailbox.hub.connections.length)
    (hblank : ∀ n, s.mailbox.hub.connections.length ≤ n → (s.go m).written n = s.written n)
    (hs : ∀ n c', (s.go m).mailbox.hub.connections[n]? = some c' → ∃ c, s.mailbox.hub.connections[n]? = some c ∧
      Writes c c' ∧ ((s.go m).written n ++ c'.outbox).Sublist (s.written n ++ c.outbox)) :
    Posted (s.go m) (ms ++ [m]) where
  proper n c' hc' := by
    obtain ⟨c, hc, hw, hsub⟩ := hs n c' hc'
    exact (h.proper n c hc).step hf m hw hsub
  blank n hn := by
    rw [hlength] at hn
    exact (hblank n hn).trans (h.blank n hn)

theorem Posted.still (h : Posted s ms) (hf : s.Faithful) (m : Move)
    (hc : (s.go m).mailbox.hub.connections = s.mailbox.hub.connections) (hw : (s.go m).written = s.written) :
    Posted (s.go m) (ms ++ [m]) := by
  refine h.step hf m (by rw [hc]) (fun n _ => congrFun hw n) fun n c hn => ?_
  rw [hc] at hn
  exact ⟨c, hn, Writes.refl c, by rw [hw]⟩

theorem Posted.of_reads {r : Connection × List Notice} {lingers : Bool} {m : Move} (h : Posted s ms) (hf : s.Faithful)
    (hr : Reads s (s.go m) n c r lingers) : Posted (s.go m) (ms ++ [m]) := by
  have hwrites : Writes c r.1 := by
    rcases hr.result with ⟨bytes, rfl⟩ | rfl
    · exact writes_receive c n bytes
    · exact writes_receiveEnd c n
  refine h.step hf m ?_ (fun k _ => congrFun hr.written k) fun k c' hc' => ?_
  · simp only [hr.mailbox, heard, Hub.setConnection, List.length_set]
  · rw [hr.mailbox] at hc'
    rw [hr.written]
    rcases getElem?_set_cases hc' with ⟨rfl, rfl⟩ | ⟨hk, hc'⟩
    · refine ⟨c, hr.connection, ?_⟩
      split
      · exact ⟨hwrites.linger, hwrites.linger.outbox.append_left _⟩
      · exact ⟨hwrites, hwrites.outbox.append_left _⟩
    · exact ⟨c', hc', Writes.refl c', .refl _⟩

theorem go_abort_cases (s : Office) (n : Nat) :
    s.go (.abort n) = s ∨ s.go (.abort n) = s.modify n Connection.stopWriting := by
  refine withConnection_of (P := (fun s' => s' = s ∨ s' = s.modify n Connection.stopWriting)) (.inl rfl) fun c _ => ?_
  split
  · exact .inl rfl
  · exact .inr rfl

theorem Posted.abort (h : Posted s ms) (hf : s.Faithful) (n : Nat) : Posted (s.go (.abort n)) (ms ++ [.abort n]) := by
  rcases go_abort_cases s n with hsame | hgo
  · exact h.still hf _ (by rw [hsame]) (by rw [hsame])
  · refine h.step hf _ ?_ (fun k _ => by rw [hgo]; rfl) fun k c' hc' => ?_
    · simp only [hgo, modify, Hub.modifyConnection, List.length_modify]
    · rw [hgo] at hc' ⊢
      rcases getElem?_modify_cases hc' with ⟨rfl, c, hc, rfl⟩ | ⟨-, hc⟩
      · exact ⟨c, hc, writes_stopWriting c, (writes_stopWriting c).outbox.append_left _⟩
      · exact ⟨c', hc, Writes.refl c', .refl _⟩

theorem Posted.write (h : Posted s ms) (hf : s.Faithful) (n : Nat) (whole : Bool) :
    Posted (s.go (.write n whole)) (ms ++ [.write n whole]) := by
  cases hc : s.mailbox.hub.connections[n]? with
  | none =>
    have hsame : s.go (.write n whole) = s := by simp only [go, withConnection, hc]
    exact h.still hf _ (by rw [hsame]) (by rw [hsame])
  | some c =>
    have hgo : s.go (.write n whole) = { s.modify n fun c => (c.put whole).1 with
        written := fun k => if k = n then s.written k ++ (c.put whole).2.toList else s.written k } := by
      simp only [go, withConnection, hc]
    have hlt : n < s.mailbox.hub.connections.length := (List.getElem?_eq_some_iff.1 hc).1
    refine h.step hf _ ?_ (fun k hk => ?_) fun k c' hc' => ?_
    · simp only [hgo, modify, Hub.modifyConnection, List.length_modify]
    · rw [hgo]
      exact if_neg (Nat.ne_of_gt (Nat.lt_of_lt_of_le hlt hk))
    · rw [hgo] at hc' ⊢
      dsimp only
      rcases getElem?_modify_cases hc' with ⟨rfl, c₀, hc₀, rfl⟩ | ⟨hk, hc'⟩
      · obtain rfl : c = c₀ := Option.some.inj (hc.symm.trans hc₀)
        refine ⟨c, hc, writes_put c whole, ?_⟩
        rw [if_pos rfl, List.append_assoc]
        exact (c.put_sublist whole).append_left _
      · rw [if_neg hk]
        exact ⟨c', hc', Writes.refl c', .refl _⟩

theorem Posted.accept (h : Posted s ms) (hf : s.Faithful) (stream : Nat) :
    Posted (s.go (.accept stream)) (ms ++ [.accept stream]) where
  proper n c hc := by
    rcases getElem?_concat_cases hc with hc | ⟨rfl, rfl⟩
    · exact (h.proper n c hc).step hf _ (Writes.refl c) (.refl _)
    · have hblank : (s.go (.accept stream)).written s.mailbox.hub.connections.length = [] := h.blank _ (Nat.le_refl _)
      exact ⟨fun hi => absurd rfl hi, nofun, fun _ => by rw [hblank]; rfl, nofun⟩
  blank n hn := by
    simp only [go, Hub.accept, List.length_append, List.length_singleton] at hn
    exact h.blank n (by omega)

/-- A connection whose identity another one takes over ends when it has written what waits. -/
theorem Proper.release (h : Proper s ms n c) (hf : s.Faithful) {k : Nat} {rest : List (Nat × Notice)}
    (hw : s.waiting = (k, .connected k i) :: rest) (ht : (n, .connected n i) ∈ s.taken) (hi : c.identity = some i) :
    Proper (s.go .notice) (ms ++ [.notice]) n c.release := by
  have hsame : Proper (s.go .notice) (ms ++ [.notice]) n c := by
    refine h.step hf .notice (Writes.refl c) ?_
    rw [go_notice_of_cons hf.waiting hw]
  have hspeaker : (s.go .notice).mailbox.hub.speaker? i ≠ some n := by
    rw [go_notice_of_cons hf.waiting hw, hub_hear]
    simp only [Hub.take, Hub.speaker?_register_self]
    rintro heq
    obtain rfl := Option.some.inj heq
    exact hf.greets_once ht (hw ▸ List.mem_cons_self)
  unfold Connection.release
  split
  · have hreleased := (taken_prefix_go s .notice).subset ht
    exact ⟨fun _ => Writer.noConfusion, fun _ => ⟨i, hi, hreleased, hspeaker⟩, hsame.empty, hsame.handed⟩
  · exact hsame

theorem Posted.notice (h : Posted s ms) (hf : s.Faithful) (ha : s.Attuned) :
    Posted (s.go .notice) (ms ++ [.notice]) := by
  cases hw : s.waiting with
  | nil =>
    have hsame := go_notice_of_nil hf.waiting hw
    exact h.still hf _ (by rw [hsame]) (by rw [hsame])
  | cons p rest =>
    have hgo := go_notice_of_cons hf.waiting hw
    have hwritten : (s.go .notice).written = s.written := by rw [hgo]
    have hconnections : (s.go .notice).mailbox.hub.connections =
        (Hub.take { s.mailbox.hub with notices := rest.map Prod.snd } p.2).1.connections := by
      rw [hgo]
      exact congrArg Hub.connections (hub_hear _ _)
    refine ⟨fun n c' hc' => ?_, fun n hn => ?_⟩
    · rw [hconnections] at hc'
      rcases Hub.connections_take_cases hc' with hc | ⟨k, i, c, hp, hs, hc, rfl⟩
      · exact (h.proper n c' hc).step hf _ (Writes.refl c') (by rw [hwritten])
      · obtain ⟨ht, c₀, hc₀, hi, -⟩ := ha.greeted hf hs
        obtain rfl : c = c₀ := Option.some.inj (hc.symm.trans hc₀)
        obtain ⟨k', _⟩ := p
        obtain rfl := hp
        obtain ⟨rfl, -⟩ := hf.greeted (List.mem_append_right _ (hw ▸ List.mem_cons_self))
        exact (h.proper n c hc).release hf hw ht hi
    · rw [(calm_notice hf.waiting).length_eq] at hn
      rw [hwritten]
      exact h.blank n hn

theorem Proper.push (h : Proper s ms n c) (hf : s.Faithful) {e : Envelope} (he : e.sender = some i)
    (hi : c.identity = some i) : Proper (s.go (.send e)) (ms ++ [.send e]) n (c.push (payload e)).1 := by
  have hsame : Proper (s.go (.send e)) (ms ++ [.send e]) n c := h.step hf _ (Writes.refl c) (.refl _)
  unfold Connection.push
  split
  · refine ⟨hsame.started, hsame.released, fun hn => absurd (hi.symm.trans hn) nofun, fun j hj => ?_⟩
    obtain rfl : i = j := Option.some.inj (hi.symm.trans hj)
    rw [addressed_send he, ← List.append_assoc]
    exact (h.handed i hi).append (.refl _)
  · exact hsame

theorem Posted.send (h : Posted s ms) (hf : s.Faithful) (ha : s.Attuned) (e : Envelope) :
    Posted (s.go (.send e)) (ms ++ [.send e]) := by
  refine ⟨fun n c' hc' => ?_, fun n hn => ?_⟩
  · have hstay : s.mailbox.hub.connections[n]? = some c' → Proper (s.go (.send e)) (ms ++ [.send e]) n c' :=
      fun hc => (h.proper n c' hc).step hf _ (Writes.refl c') (.refl _)
    rcases connections_send_cases hc' with hc | ⟨i, c, he, hs, hc, rfl⟩
    · exact hstay hc
    · obtain ⟨-, c₀, hc₀, hi, -⟩ := ha.greeted hf hs
      obtain rfl : c = c₀ := Option.some.inj (hc.symm.trans hc₀)
      exact (h.proper n c hc).push hf he hi
  · rw [(calm_send s e).length_eq] at hn
    exact h.blank n hn

theorem Posted.go (h : Posted s ms) (hf : s.Faithful) (ha : s.Attuned) (m : Move) : Posted (s.go m) (ms ++ [m]) := by
  cases m with
  | accept stream => exact h.accept hf stream
  | read n bytes lingers =>
    rcases go_read_cases s n bytes lingers with hsame | ⟨c, hreads⟩
    · exact h.still hf _ (by rw [hsame]) (by rw [hsame])
    · exact h.of_reads hf hreads
  | finish n lingers =>
    rcases go_finish_cases s n lingers with hsame | ⟨c, hreads⟩
    · exact h.still hf _ (by rw [hsame]) (by rw [hsame])
    · exact h.of_reads hf hreads
  | abort n => exact h.abort hf n
  | notice => exact h.notice hf ha
  | write n whole => exact h.write hf n whole
  | send e => exact h.send hf ha e
  | listen => exact h.still hf _ rfl rfl
  | unlisten k => exact h.still hf _ rfl rfl
  | next k =>
    refine h.still hf _ ?_ ?_
    · simp only [Office.go]
      split
      · rfl
      · next hm =>
        obtain ⟨l, rest, -, -, rfl⟩ := exists_of_takeEvent? hm
        rfl
    · simp only [Office.go]
      split <;> rfl
  | take k => exact h.still hf _ rfl rfl

theorem posted_opened (m : Mailbox) : Posted (opened m) [] := ⟨nofun, fun _ _ => rfl⟩

theorem posted_after (m : Mailbox) (ms : List Move) : Posted ((opened m).after ms) ms := by
  induction ms using List.reverseRecOn with
  | nil => exact posted_opened m
  | append_singleton ms move ih =>
    rw [after_concat]
    exact ih.go ((faithful_opened m).after ms) (attuned_after m ms) move

/-- The writing half of a connection that speaks for an identity is open until it ends. -/
theorem Posted.open_of_speaker (h : Posted s ms) (hf : s.Faithful) (ha : s.Attuned)
    (hs : s.mailbox.hub.speaker? i = some n) (hc : s.mailbox.hub.connections[n]? = some c) (hw : c.writer ≠ .ended) :
    c.identity = some i ∧ c.writer = .open := by
  obtain ⟨-, c₀, hc₀, hi, -⟩ := ha.greeted hf hs
  obtain rfl : c = c₀ := Option.some.inj (hc.symm.trans hc₀)
  have hproper := h.proper n c hc
  refine ⟨hi, ?_⟩
  cases hwriter : c.writer with
  | «open» => rfl
  | unused => exact absurd hwriter (hproper.started (by rw [hi]; nofun))
  | ended => exact absurd hwriter hw
  | released =>
    obtain ⟨j, hj, -, hn⟩ := hproper.released hwriter
    obtain rfl : i = j := Option.some.inj (hi.symm.trans hj)
    exact absurd hs hn

/-- A reply goes to the connection that greeted with its identity last, as the envelope without its sender, if that
connection has neither disconnected nor stopped writing, and else it goes nowhere. That another connection disconnects,
with the same identity or not, changes nothing for the one that speaks. No connection is ever handed anything but
replies to its own identity. -/
theorem reply_routed (m : Mailbox) (ms : List Move) :
    let s := (opened m).after ms
    (∀ e i, e.sender = some i →
      (∃ n c, Latest (s.taken.map Prod.snd) i n ∧ s.mailbox.hub.connections[n]? = some c ∧ c.identity = some i ∧
        c.writer ≠ .ended ∧
        s.mailbox.send e =
          ({ s.mailbox with
              hub.connections := s.mailbox.hub.connections.set n
                { c with outbox := c.outbox ++ [{ e with sender := none }.encode] } },
            .ok true)) ∨
      (∀ n c, Latest (s.taken.map Prod.snd) i n → s.mailbox.hub.connections[n]? = some c → c.writer = .ended) ∧
        s.mailbox.send e = (s.mailbox, .ok false)) ∧
    (∀ i n, s.mailbox.hub.speaker? i = some n → ∀ k j rest, s.waiting = (k, .disconnected k j) :: rest → k ≠ n →
      (s.go .notice).mailbox.hub.speaker? i = some n) ∧
    ∀ n c, s.mailbox.hub.connections[n]? = some c →
      (c.identity = none → s.written n ++ c.outbox = []) ∧
      ∀ i, c.identity = some i → (s.written n ++ c.outbox).Sublist (addressed i ms) := by
  intro s
  have hf : s.Faithful := (faithful_opened m).after ms
  have ha : s.Attuned := attuned_after m ms
  have hp : Posted s ms := posted_after m ms
  refine ⟨fun e i he => ?_, fun i n hs k j rest hw hk => ?_, fun n c hc => ?_⟩
  · by_cases hlive : ∃ n c, s.mailbox.hub.speaker? i = some n ∧ s.mailbox.hub.connections[n]? = some c ∧ c.writer ≠ .ended
    · obtain ⟨n, c, hs, hc, hw⟩ := hlive
      obtain ⟨hi, hopen⟩ := hp.open_of_speaker hf ha hs hc hw
      exact .inl ⟨n, c, (ha i n).1 hs, hc, hi, hw, send_of_speaker hf.isOpen he hs hc hopen⟩
    · have hended : ∀ n c, s.mailbox.hub.speaker? i = some n → s.mailbox.hub.connections[n]? = some c →
          c.writer = .ended := by
        intro n c hs hc
        exact Classical.byContradiction fun hw => hlive ⟨n, c, hs, hc, hw⟩
      refine .inr ⟨fun n c hl => hended n c ((ha i n).2 hl), send_of_no_writer hf.isOpen he fun n c hs hc hopen => ?_⟩
      rw [hended n c hs hc] at hopen
      cases hopen
  · rw [go_notice_of_cons hf.waiting hw, hub_hear, Hub.speaker?_take]
    exact .inr ⟨hs, nofun, fun heq => hk (Notice.disconnected.inj heq).1⟩
  · exact ⟨(hp.proper n c hc).empty, (hp.proper n c hc).handed⟩

/-- The older one of two connections with one identity ends. The reply goes out on the newer one. -/
theorem reply_routed_after_late_end :
    let m : Mailbox := { requested := .tcp "*" 0 }
    let e : Envelope := { id := 4, sender := some [7], message := .hello "10.0.0.1" 7 }
    let greeting : Bytes := Framing.encodeFrames [[7]]
    let ms : List Move := [.accept 0, .accept 1, .read 0 greeting false, .notice, .read 1 greeting false, .notice,
      .finish 0 true, .notice]
    ∀ s, s = (opened m).after ms → (s.mailbox.send e).2 = .ok true ∧
      (s.mailbox.send e).1.hub.connections.map Connection.outbox = [[], [{ e with sender := none }.encode]] := by
  intro m e greeting ms s hs
  have hlog : ((opened m).after ms).taken.map Prod.snd = [.connected 0 [7], .connected 1 [7], .disconnected 0 [7]] := by
    decide +kernel
  have hwriters : ((opened m).after ms).mailbox.hub.connections.map Connection.writer = [.released, .open] := by
    decide +kernel
  have hboxes : ((opened m).after ms).mailbox.hub.connections.map Connection.outbox = [[], []] := by decide +kernel
  have hlatest : Latest (((opened m).after ms).taken.map Prod.snd) [7] 1 :=
    ⟨[.connected 0 [7]], [.disconnected 0 [7]], hlog, by simp, by simp⟩
  have hattuned := attuned_after m ms
  obtain ⟨hrouted, -, -⟩ := reply_routed m ms
  rw [← hs] at hwriters hboxes hlatest hattuned hrouted
  have hat : ∀ {α : Type} {f : Connection → α} {l}, s.mailbox.hub.connections.map f = l →
      s.mailbox.hub.connections[1]?.map f = l[1]? := fun h => List.getElem?_map.symm.trans (congrArg (·[1]?) h)
  rcases hrouted e [7] rfl with ⟨n, c, hl, hc, -, -, hsend⟩ | ⟨hended, -⟩
  · obtain rfl : 1 = n := Option.some.inj (((hattuned [7] 1).2 hlatest).symm.trans ((hattuned [7] n).2 hl))
    have hbox : c.outbox = [] := Option.some.inj ((congrArg (Option.map _) hc).symm.trans (hat hboxes))
    rw [hsend]
    refine ⟨rfl, ?_⟩
    simp only [List.map_set, hboxes, hbox]
    rfl
  · obtain ⟨c, hc, hwriter⟩ := Option.map_eq_some_iff.1 (hat hwriters)
    rw [hended 1 c hlatest hc] at hwriter
    cases hwriter

end Office
end Mailbox
end PeerDiscovery
