import Mathlib.Data.List.Induction
import PeerDiscovery.Proofs.Mailbox.Speakers

/-! What arrives at an open mailbox: `arrivals_of_connection`.
Every notice is taken in once, in the order of the log, and a listener hears of each envelope that comes with one. -/
namespace PeerDiscovery
namespace Mailbox

/-- The envelopes that come with the notices of a log, each with the connection that it is from. -/
def raised (log : List (Nat × Notice)) : List (Nat × Envelope) :=
  log.filterMap fun p => p.2.envelope?.map (p.1, ·)

theorem raised_append (log log' : List (Nat × Notice)) : raised (log ++ log') = raised log ++ raised log' :=
  List.filterMap_append

theorem ofConnection_raised (n : Nat) (log : List (Nat × Notice)) :
    ofConnection n (raised log) = (ofConnection n log).filterMap Notice.envelope? := by
  rw [ofConnection, raised, List.filterMap_filterMap, ofConnection, List.filterMap_filterMap]
  refine List.filterMap_congr fun p _ => ?_
  by_cases hp : p.1 = n
  · cases he : p.2.envelope? <;> simp [hp, he]
  · cases he : p.2.envelope? <;> simp [hp]

theorem filterMap_envelope?_script {ms : List (List Bytes)} {i : Bytes} (h : greeter? ms = some i) (n : Nat)
    (ended : Bool) :
    (script n ms ended).filterMap Notice.envelope? =
      (ms.tail.filterMap Envelope.ofFrames?).map ({ · with sender := some i }) := by
  have hmessages : (ms.tail.map (Notice.message i)).filterMap Notice.envelope? =
      (ms.tail.filterMap Envelope.ofFrames?).map ({ · with sender := some i }) := by
    rw [List.filterMap_map, List.map_filterMap]
    rfl
  have hended : (if ended then [Notice.disconnected n i] else []).filterMap Notice.envelope? = [] := by
    cases ended <;> rfl
  rw [script_of_some h, List.filterMap_append, hended, List.append_nil, ← hmessages]
  rfl

/-- The envelope that an event is about, if it arrived. -/
def Event.received? : Event → Option Envelope
  | .received envelope => some envelope
  | .sent _ => none

namespace Office

/-- A listener that is still there has been told these events since it began. -/
def Hears (s : Office) (k : Nat) (events : List Event) : Prop :=
  ∃ l, s.mailbox.listeners[k]? = some l ∧ l.live = true ∧ s.got k ++ l.queue = events

variable {s s' : Office} {k : Nat} {events : List Event}

theorem Hears.of_same (h : s.Hears k events) (hl : s'.mailbox.listeners = s.mailbox.listeners) (hg : s'.got = s.got) :
    s'.Hears k events := by
  obtain ⟨l, hk, hlive, he⟩ := h
  exact ⟨l, hl ▸ hk, hlive, hg ▸ he⟩

theorem getElem?_emit {m : Mailbox} {l : Listener} (h : m.listeners[k]? = some l) (hl : l.live = true) (event : Event) :
    (m.emit event).listeners[k]? = some { l with queue := l.queue ++ [event] } := by
  simp only [emit, List.getElem?_map, h, Option.map_some, if_pos hl]

theorem Hears.emit (h : s.Hears k events) (event : Event) :
    Hears { s with mailbox := s.mailbox.emit event } k (events ++ [event]) := by
  obtain ⟨l, hk, hlive, rfl⟩ := h
  exact ⟨{ l with queue := l.queue ++ [event] }, getElem?_emit hk hlive event, hlive, (List.append_assoc ..).symm⟩

theorem Hears.next (h : s.Hears k events) (j : Nat) : (s.go (.next j)).Hears k events := by
  obtain ⟨l, hk, hlive, rfl⟩ := h
  simp only [go]
  split
  · exact ⟨l, hk, hlive, rfl⟩
  · next m event hm =>
    obtain ⟨l', rest, hj, hq, rfl⟩ := exists_of_takeEvent? hm
    by_cases hjk : k = j
    · subst hjk
      obtain rfl : l' = l := Option.some.inj (hj.symm.trans hk)
      refine ⟨{ l' with queue := rest }, ?_, hlive, ?_⟩
      · exact List.getElem?_set_self (List.getElem?_eq_some_iff.1 hk).1
      · simp [give, hq]
    · refine ⟨l, ?_, hlive, ?_⟩
      · exact (List.getElem?_set_ne (Ne.symm hjk)).trans hk
      · simp [give, hjk]

theorem Hears.take (h : s.Hears k events) (j : Nat) : (s.go (.take j)).Hears k events := by
  obtain ⟨l, hk, hlive, rfl⟩ := h
  simp only [go, takeEvents]
  by_cases hjk : k = j
  · subst hjk
    refine ⟨{ l with queue := [] }, ?_, hlive, ?_⟩
    · simp [give, hk]
    · simp [give, hk]
  · refine ⟨l, ?_, hlive, ?_⟩
    · simp [give, hk, Ne.symm hjk]
    · simp [give, hjk]

/-- What a move tells a listener that it does not stop, and the notices that it takes in. -/
def Tidings (s s' : Office) (k : Nat) (events : List Event) : Prop :=
  ∃ news notices, s'.Hears k (events ++ news) ∧ s'.taken = s.taken ++ notices ∧
    news.filterMap Event.received? = (raised notices).map Prod.snd

theorem Hears.tidings (h : s'.Hears k events) (ht : s'.taken = s.taken) : Tidings s s' k events :=
  ⟨[], [], by rwa [List.append_nil], by rw [ht, List.append_nil], rfl⟩

theorem Hears.notice (h : s.Hears k events) (hw : s.waiting.map Prod.snd = s.mailbox.hub.notices) :
    Tidings s (s.go .notice) k events := by
  cases hs : s.waiting with
  | nil =>
    rw [go_notice_of_nil hw hs]
    exact h.tidings rfl
  | cons p rest =>
    rw [go_notice_of_cons hw hs]
    cases he : p.2.envelope? with
    | none =>
      refine ⟨[], [p], ?_, rfl, by simp [raised, he]⟩
      rw [List.append_nil]
      exact h.of_same rfl rfl
    | some e => exact ⟨[.received e], [p], (h.emit _).of_same rfl rfl, rfl, by simp [raised, he, Event.received?]⟩

theorem Hears.send (h : s.Hears k events) (envelope : Envelope) :
    Tidings s (s.go (.send envelope)) k events := by
  simp only [go, Mailbox.send]
  split
  · exact ⟨[.sent envelope], [], h.emit _, (List.append_nil _).symm, rfl⟩
  · split
    · exact (h.of_same rfl rfl).tidings rfl
    · exact h.tidings rfl

theorem Hears.unlisten (h : s.Hears k events) {j : Nat} (hj : j ≠ k) : (s.go (.unlisten j)).Hears k events := by
  obtain ⟨l, hk, hlive, rfl⟩ := h
  exact ⟨l, by simp [go, dropListener, hj, hk], hlive, rfl⟩

theorem Hears.listen (h : s.Hears k events) : (s.go .listen).Hears k events := by
  obtain ⟨l, hk, hlive, rfl⟩ := h
  exact ⟨l, getElem?_append_of_some hk _, hlive, rfl⟩

theorem Hears.go (h : s.Hears k events) (hw : s.waiting.map Prod.snd = s.mailbox.hub.notices) {m : Move}
    (hm : m ≠ .unlisten k) : Tidings s (s.go m) k events := by
  have hsame := h.tidings (s := s) rfl
  have hquiet : ∀ s' : Office, s'.mailbox.listeners = s.mailbox.listeners → s'.got = s.got → s'.taken = s.taken →
      Tidings s s' k events := fun s' hl hg ht => (h.of_same hl hg).tidings ht
  cases m with
  | accept stream => exact hquiet _ rfl rfl rfl
  | read n bytes lingers =>
    refine withConnection_of (P := (Tidings s · k events)) hsame fun c _ => ?_
    split
    · exact hquiet _ rfl rfl rfl
    · exact hsame
  | finish n lingers =>
    refine withConnection_of (P := (Tidings s · k events)) hsame fun c _ => ?_
    split
    · exact hquiet _ rfl rfl rfl
    · exact hsame
  | abort n =>
    refine withConnection_of (P := (Tidings s · k events)) hsame fun c _ => ?_
    split
    · exact hsame
    · exact hquiet _ rfl rfl rfl
  | notice => exact h.notice hw
  | write n whole => exact withConnection_of (P := (Tidings s · k events)) hsame fun c _ => hquiet _ rfl rfl rfl
  | send envelope => exact h.send envelope
  | listen => exact h.listen.tidings rfl
  | unlisten j => exact (h.unlisten fun hj => hm (hj ▸ rfl)).tidings rfl
  | next j =>
    refine (h.next j).tidings ?_
    simp only [Office.go]
    split <;> rfl
  | take j => exact (h.take j).tidings rfl

theorem Tidings.trans {s'' : Office} (h : Tidings s s' k events)
    (hs : ∀ events', s'.Hears k events' → Tidings s' s'' k events') : Tidings s s'' k events := by
  obtain ⟨news, notices, hhears, htaken, hnews⟩ := h
  obtain ⟨news', notices', hhears', htaken', hnews'⟩ := hs _ hhears
  refine ⟨news ++ news', notices ++ notices', ?_, ?_, ?_⟩
  · rwa [← List.append_assoc]
  · rw [htaken', htaken, List.append_assoc]
  · rw [List.filterMap_append, hnews, hnews', raised_append, List.map_append]

theorem Hears.after (h : s.Hears k events) (hf : s.Faithful) {ms : List Move} (hms : .unlisten k ∉ ms) :
    Tidings s (s.after ms) k events := by
  induction ms generalizing s events with
  | nil => exact h.tidings rfl
  | cons m ms ih =>
    obtain ⟨hm, hrest⟩ := not_or.1 (mt List.mem_cons.2 hms)
    exact (h.go hf.waiting (Ne.symm hm)).trans fun events' h' => ih h' (hf.go m) hrest

theorem Faithful.after_notices (h : s.Faithful) :
    (s.after (List.replicate s.waiting.length .notice)).taken = s.taken ++ s.waiting := by
  induction hw : s.waiting generalizing s with
  | nil => exact (List.append_nil _).symm
  | cons p rest ih =>
    have hgo := go_notice_of_cons h.waiting hw
    have hnext := ih (h.go .notice) (by rw [hgo])
    have htaken : (s.go .notice).taken = s.taken ++ [p] := by rw [hgo]
    rw [htaken, List.append_assoc] at hnext
    exact hnext

/-- The first notice of a connection that is taken in makes it speak for its identity. -/
theorem Faithful.greeted_go (h : s.Faithful) {n : Nat} {m : Move} (hbefore : ofConnection n s.taken = [])
    (hafter : ofConnection n (s.go m).taken ≠ []) :
    ∃ i, (s.go m).mailbox.hub.speaker? i = some n ∧ ofConnection n (s.go m).taken = [.connected n i] := by
  have hm : m = .notice := by
    refine Classical.byContradiction fun hm => hafter ?_
    rw [(idle_go hm).1, hbefore]
  subst hm
  cases hw : s.waiting with
  | nil =>
    rw [go_notice_of_nil h.waiting hw] at hafter
    exact absurd hbefore hafter
  | cons p rest =>
    obtain ⟨k, notice⟩ := p
    have htaken : (s.go .notice).taken = s.taken ++ [(k, notice)] := by rw [go_notice_of_cons h.waiting hw]
    have hlog : s.told n = ofConnection n [(k, notice)] ++ ofConnection n rest := by
      rw [told, hw, ofConnection_append, hbefore, List.nil_append, ← ofConnection_append]
      rfl
    rw [htaken, ofConnection_append, hbefore, List.nil_append] at hafter ⊢
    obtain rfl : k = n := by
      refine Classical.byContradiction fun hk => hafter ?_
      simp [ofConnection, hk]
    have hone : ofConnection k [(k, notice)] = [notice] := ofConnection_tagged k [notice]
    rw [hone] at hlog ⊢
    obtain ⟨c, i, -, -, hg, hscript⟩ := h.exists_of_told (by rw [hlog]; exact List.cons_ne_nil _ _)
    rw [hlog, script_of_some hg] at hscript
    obtain rfl : notice = .connected k i := (List.cons.inj hscript).1
    refine ⟨i, ?_, rfl⟩
    rw [go_notice_of_cons h.waiting hw, hub_hear]
    exact Hub.speaker?_register_self _ k

/-- A connection whose notices are taken in has begun to speak for its identity with the first of them. -/
theorem registered_after (m : Mailbox) (ms : List Move) {n : Nat}
    (hn : ofConnection n ((opened m).after ms).taken ≠ []) :
    ∃ before i, before <+: ms ∧ ((opened m).after before).mailbox.hub.speaker? i = some n ∧
      ofConnection n ((opened m).after before).taken = [.connected n i] ∧
      (n, .connected n i) ∈ ((opened m).after ms).taken := by
  induction ms using List.reverseRecOn with
  | nil => exact absurd rfl hn
  | append_singleton ms move ih =>
    by_cases hbefore : ofConnection n ((opened m).after ms).taken = []
    · rw [after_concat] at hn
      obtain ⟨i, hi, htaken⟩ := ((faithful_opened m).after ms).greeted_go hbefore hn
      have hmem : (n, .connected n i) ∈ (((opened m).after ms).go move).taken :=
        mem_ofConnection.1 (htaken ▸ List.mem_cons_self)
      rw [← after_concat] at hi htaken hmem
      exact ⟨_, i, List.prefix_rfl, hi, htaken, hmem⟩
    · obtain ⟨before, i, hpre, hi, htaken, hmem⟩ := ih hbefore
      rw [after_concat]
      exact ⟨before, i, hpre.trans (List.prefix_append _ _), hi, htaken, (taken_prefix_go _ move).subset hmem⟩

/-- Of every connection of an open mailbox, whatever came in on it and whatever else went on: where the stream does not
begin with a message of one frame that is not empty, the connection speaks for nobody and no envelope comes from it. Else
the envelopes of the later messages come from it, each once and in order, with the identity of the greeting as their
sender, and before the first one the connection has begun to speak for its identity. The mailbox reads until the stream
ends, is at fault or turns out to lack a greeting, and then no more. A listener hears of the envelopes that came since it
began, and of no others. -/
theorem arrivals_of_connection (m : Mailbox) (ms : List Move) :
    let s := (opened m).after ms
    (∀ n c, s.mailbox.hub.connections[n]? = some c →
      (greeter? (messages (s.input n)) = none →
        (∀ i, s.mailbox.hub.speaker? i ≠ some n) ∧ ofConnection n (raised (s.taken ++ s.waiting)) = []) ∧
      (∀ i, greeter? (messages (s.input n)) = some i →
        let arrived := ((messages (s.input n)).tail.filterMap Envelope.ofFrames?).map ({ · with sender := some i })
        ofConnection n (raised (s.taken ++ s.waiting)) = arrived ∧
        ofConnection n (raised (s.after (List.replicate s.waiting.length .notice)).taken) = arrived ∧
        (ofConnection n (raised s.taken) ≠ [] → ∃ before, before <+: ms ∧
          ((opened m).after before).mailbox.hub.speaker? i = some n ∧
          ofConnection n (raised ((opened m).after before).taken) = [])) ∧
      s.told n = script n (messages (s.input n)) (!c.reading) ∧
      (c.reading = false ↔ Stops (s.input n) (s.finished n)) ∧
      (c.reading = false → ∀ later, (s.after later).input n = s.input n)) ∧
    ∀ before later k events, ms = before ++ later → ((opened m).after before).Hears k events → .unlisten k ∉ later →
      ∃ news notices, s.Hears k (events ++ news) ∧ s.taken = ((opened m).after before).taken ++ notices ∧
        news.filterMap Event.received? = (raised notices).map Prod.snd := by
  intro s
  have hf : s.Faithful := (faithful_opened m).after ms
  refine ⟨fun n c hc => ?_, ?_⟩
  · have hfollows := hf.follows n c hc
    have htold : s.told n = script n (messages (s.input n)) (!c.reading) := hfollows.told
    refine ⟨fun hg => ⟨fun i hi => ?_, ?_⟩, fun i hg => ?_, htold, hfollows.reading, hf.silent_after hc⟩
    · obtain ⟨-, c', hc', -, hg'⟩ := (attuned_after m ms).greeted hf hi
      rw [hg] at hg'
      cases hg'
    · rw [ofConnection_raised]
      change (s.told n).filterMap _ = []
      rw [htold, script_of_none hg]
      rfl
    · intro arrived
      have harrived : ofConnection n (raised (s.taken ++ s.waiting)) = arrived := by
        rw [ofConnection_raised]
        change (s.told n).filterMap _ = _
        rw [htold, filterMap_envelope?_script hg]
      refine ⟨harrived, by rw [hf.after_notices, harrived], fun hne => ?_⟩
      have htaken : ofConnection n s.taken ≠ [] := by
        intro hnil
        rw [ofConnection_raised, hnil] at hne
        exact hne rfl
      obtain ⟨before, j, hpre, hj, hone, hmem⟩ := registered_after m ms htaken
      obtain ⟨-, c', -, -, hg'⟩ := hf.greeted (List.mem_append_left _ hmem)
      obtain rfl : i = j := Option.some.inj (hg.symm.trans hg')
      refine ⟨before, hpre, hj, ?_⟩
      rw [ofConnection_raised, hone]
      rfl
  · rintro before later k events rfl hh hk
    have hs : s = ((opened m).after before).after later := (opened m).after_append before later
    rw [hs]
    exact hh.after ((faithful_opened m).after before) hk

/-- An envelope that says that it is from somebody else is one from the connection that it came on. The message before it
has two frames and is passed over. -/
theorem arrivals_of_impostor :
    let m : Mailbox := { requested := .tcp "*" 0 }
    let e : Envelope := { id := 4, sender := some [9], message := .hello "10.0.0.1" 7 }
    let ms : List Move := [.accept 0, .read 0 (Framing.encodeFrames [[7]] ++ Framing.encodeFrames [[1], [2]]) false,
      .read 0 (Framing.encodeFrames [e.encode]) false]
    ∀ s, s = (opened m).after ms →
      ofConnection 0 (raised (s.after (List.replicate s.waiting.length .notice)).taken) =
        [{ e with sender := some [7] }] := by
  intro m e ms s hs
  have hinput : messages (((opened m).after ms).input 0) = [[[7]], [[1], [2]], [e.encode]] := by decide +kernel
  have harrived : (([[[1], [2]], [e.encode]] : List (List Bytes)).filterMap Envelope.ofFrames?).map
      ({ · with sender := some [7] }) = [{ e with sender := some [7] }] := by decide +kernel
  have hc : ((opened m).after ms).mailbox.hub.connections[0]?.isSome = true := by decide +kernel
  obtain ⟨c, hc⟩ := Option.isSome_iff_exists.1 hc
  obtain ⟨hall, -⟩ := arrivals_of_connection m ms
  obtain ⟨-, hgreeted, -⟩ := hall 0 c hc
  obtain ⟨-, hdrained, -⟩ := hgreeted [7] (by rw [hinput]; rfl)
  rw [hs, hdrained, hinput]
  exact harrived

end Office
end Mailbox
end PeerDiscovery
