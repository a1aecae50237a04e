import PeerDiscovery.Proofs.Mailbox.Office
import PeerDiscovery.Proofs.Mailbox.Script

/-! The log of an open mailbox: what each connection tells is what its own bytes say, whatever other connections do
meanwhile (`Faithful`).
A move either leaves everything that was read as it is (`Calm`), or it accepts a connection, or it reads on one
(`Reads`). -/
namespace PeerDiscovery
namespace Mailbox

/-- What a log has of connection `n`. -/
def ofConnection {α : Type} (n : Nat) (log : List (Nat × α)) : List α :=
  log.filterMap fun p => if p.1 = n then some p.2 else none

section ofConnection

variable {α : Type} (n : Nat)

theorem ofConnection_append (log log' : List (Nat × α)) :
    ofConnection n (log ++ log') = ofConnection n log ++ ofConnection n log' := List.filterMap_append

theorem ofConnection_tagged (as : List α) : ofConnection n (as.map (n, ·)) = as := by
  simp [ofConnection, List.filterMap_map]

theorem ofConnection_tagged_of_ne {n k : Nat} (h : k ≠ n) (as : List α) : ofConnection n (as.map (k, ·)) = [] := by
  simp [ofConnection, List.filterMap_map, h]

theorem mem_ofConnection {n : Nat} {log : List (Nat × α)} {a : α} : a ∈ ofConnection n log ↔ (n, a) ∈ log := by
  simp [ofConnection]

end ofConnection

namespace Connection

theorem half_linger (before after : Connection) : (before.linger after).half = after.half := by
  unfold linger
  split
  · split <;> rfl
  · rfl

theorem half_stopWriting (c : Connection) : c.stopWriting.half = c.half := rfl

theorem half_put (c : Connection) (whole : Bool) : (c.put whole).1.half = c.half := by
  unfold put
  split
  · rfl
  · split
    · split <;> rfl
    · split <;> rfl

theorem half_release (c : Connection) : c.release.half = c.half := by
  unfold release
  split <;> rfl

theorem half_push (c : Connection) (payload : Bytes) : (c.push payload).1.half = c.half := by
  unfold push
  split <;> rfl

end Connection

/-- The envelope that comes with a notice. -/
def Notice.envelope? : Notice → Option Envelope
  | .message identity frames => Hub.envelope? identity frames
  | _ => none

/-- Tells the listeners of an envelope that arrived, if one did. -/
def hear (m : Mailbox) : Option Envelope → Mailbox
  | none => m
  | some envelope => m.emit (.received envelope)

theorem takeNotice?_of_cons {m : Mailbox} {notice : Notice} {rest : List Notice} (h : m.hub.notices = notice :: rest) :
    m.takeNotice? =
      some ({ m with hub := ({ m.hub with notices := rest }.take notice).1 }.hear notice.envelope?) := by
  simp only [takeNotice?, Hub.takeNotice?, h]
  cases notice with
  | message i frames =>
    simp only [Hub.take, Notice.envelope?]
    cases Hub.envelope? i frames <;> rfl
  | connected n i => rfl
  | disconnected n i => rfl

theorem hub_hear (m : Mailbox) (e : Option Envelope) : (m.hear e).hub = m.hub := by
  cases e <;> rfl

theorem state_hear (m : Mailbox) (e : Option Envelope) : (m.hear e).state = m.state := by
  cases e <;> rfl

theorem exists_of_takeEvent? {m m' : Mailbox} {k : Nat} {event : Event} (h : m.takeEvent? k = some (m', event)) :
    ∃ l rest, m.listeners[k]? = some l ∧ l.queue = event :: rest ∧
      m' = { m with listeners := m.listeners.set k { l with queue := rest } } := by
  unfold takeEvent? at h
  split at h
  · cases h
  · next l hl =>
    split at h
    · cases h
    · next event' rest hq =>
      cases h
      exact ⟨l, rest, hl, hq, rfl⟩

namespace Hub

def halves (h : Hub) : List (Framing.Reader × Option Bytes × Bool) := h.connections.map Connection.half

theorem halves_modifyConnection (h : Hub) (n : Nat) {f : Connection → Connection} (hf : ∀ c, (f c).half = c.half) :
    (h.modifyConnection n f).halves = h.halves :=
  map_modify_of_same Connection.half f hf h.connections n

theorem halves_register (h : Hub) (n : Nat) (i : Bytes) : (h.register n i).halves = h.halves := by
  unfold register
  dsimp only
  split
  · rfl
  · exact halves_modifyConnection _ _ Connection.half_release

theorem halves_take (h : Hub) (notice : Notice) : (h.take notice).1.halves = h.halves := by
  cases notice with
  | connected n i => exact h.halves_register n i
  | message i frames => rfl
  | disconnected n i =>
    simp only [take, unregister]
    split <;> rfl

theorem halves_reply (h : Hub) (i payload : Bytes) : (h.reply i payload).1.halves = h.halves := by
  unfold reply
  split
  · rfl
  · split
    · rfl
    · next hc => exact map_set_of_same Connection.half hc (Connection.half_push _ payload)

theorem notices_take (h : Hub) (notice : Notice) : (h.take notice).1.notices = h.notices := by
  cases notice with
  | connected n i =>
    simp only [take, register]
    split <;> rfl
  | message i frames => rfl
  | disconnected n i =>
    simp only [take, unregister]
    split <;> rfl

theorem notices_reply (h : Hub) (i payload : Bytes) : (h.reply i payload).1.notices = h.notices := by
  unfold reply
  split
  · rfl
  · split <;> rfl

end Hub

namespace Office

/-- An office whose mailbox has just been opened. -/
def opened (m : Mailbox) : Office := { mailbox := { m with state := .open, hub := {} } }

/-- What connection `n` has told. -/
def told (s : Office) (n : Nat) : List Notice := ofConnection n (s.taken ++ s.waiting)

/-- The office knows of each connection what its bytes say. -/
structure Faithful (s : Office) : Prop where
  isOpen : s.mailbox.IsOpen
  waiting : s.waiting.map Prod.snd = s.mailbox.hub.notices
  follows : ∀ n c, s.mailbox.hub.connections[n]? = some c → Follows n c (s.input n) (s.finished n) (s.told n)
  blank : ∀ n, s.mailbox.hub.connections.length ≤ n → s.input n = [] ∧ s.finished n = false ∧ s.told n = []

theorem faithful_opened (m : Mailbox) : (opened m).Faithful := ⟨rfl, rfl, nofun, fun _ _ => ⟨rfl, rfl, rfl⟩⟩

structure Calm (s s' : Office) : Prop where
  state : s'.mailbox.state = s.mailbox.state
  log : s'.taken ++ s'.waiting = s.taken ++ s.waiting
  waiting : s.waiting.map Prod.snd = s.mailbox.hub.notices → s'.waiting.map Prod.snd = s'.mailbox.hub.notices
  halves : s'.mailbox.hub.halves = s.mailbox.hub.halves
  input : s'.input = s.input
  finished : s'.finished = s.finished

variable {s s' : Office}

theorem Calm.refl (s : Office) : Calm s s := ⟨rfl, rfl, id, rfl, rfl, rfl⟩

theorem Calm.half_eq (h : Calm s s') (n : Nat) :
    s'.mailbox.hub.connections[n]?.map Connection.half = s.mailbox.hub.connections[n]?.map Connection.half := by
  rw [← List.getElem?_map, ← List.getElem?_map]
  exact congrArg (·[n]?) h.halves

theorem Calm.length_eq (h : Calm s s') :
    s'.mailbox.hub.connections.length = s.mailbox.hub.connections.length := by
  simpa only [Hub.halves, List.length_map] using congrArg List.length h.halves

theorem Faithful.of_calm (h : s.Faithful) (hs : Calm s s') : s'.Faithful where
  isOpen := hs.state.trans h.isOpen
  waiting := hs.waiting h.waiting
  follows n c hc := by
    obtain ⟨c', hc', heq⟩ := Option.map_eq_some_iff.1 ((hs.half_eq n).symm.trans (congrArg _ hc))
    rw [hs.input, hs.finished, told, hs.log]
    exact (h.follows n c' hc').of_half heq.symm
  blank n hn := by
    rw [hs.input, hs.finished, told, hs.log]
    exact h.blank n (hs.length_eq ▸ hn)

theorem calm_of_listeners (s : Office) {m : Mailbox} (got : Nat → List Event) (hs : m.state = s.mailbox.state)
    (hh : m.hub = s.mailbox.hub) : Calm s { s with mailbox := m, got } :=
  ⟨hs, rfl, fun hw => by rw [hh]; exact hw, by rw [hh], rfl, rfl⟩

theorem calm_modify (s : Office) (n : Nat) {f : Connection → Connection} (hf : ∀ c, (f c).half = c.half)
    (written : Nat → List Bytes) : Calm s { s.modify n f with written } :=
  ⟨rfl, rfl, id, Hub.halves_modifyConnection _ _ hf, rfl, rfl⟩

theorem calm_send (s : Office) (envelope : Envelope) : Calm s (s.go (.send envelope)) := by
  simp only [go, Mailbox.send]
  split
  · exact calm_of_listeners s s.got rfl rfl
  · split
    · exact ⟨rfl, rfl, fun hw => hw.trans (Hub.notices_reply ..).symm, Hub.halves_reply .., rfl, rfl⟩
    · exact Calm.refl s

theorem go_notice_of_nil (hw : s.waiting.map Prod.snd = s.mailbox.hub.notices) (h : s.waiting = []) :
    s.go .notice = s := by
  have hn : s.mailbox.hub.notices = [] := by rw [← hw, h]; rfl
  simp only [go, takeNotice?, Hub.takeNotice?, hn]

theorem go_notice_of_cons {p : Nat × Notice} {rest : List (Nat × Notice)}
    (hw : s.waiting.map Prod.snd = s.mailbox.hub.notices) (h : s.waiting = p :: rest) :
    s.go .notice =
      { s with
        mailbox := { s.mailbox with
          hub := ({ s.mailbox.hub with notices := rest.map Prod.snd }.take p.2).1 }.hear p.2.envelope?
        waiting := rest
        taken := s.taken ++ [p] } := by
  have hn : s.mailbox.hub.notices = p.2 :: rest.map Prod.snd := by rw [← hw, h]; rfl
  simp only [go, takeNotice?_of_cons hn, h]
  rfl

theorem calm_notice (hw : s.waiting.map Prod.snd = s.mailbox.hub.notices) : Calm s (s.go .notice) := by
  cases hs : s.waiting with
  | nil =>
    rw [go_notice_of_nil hw hs]
    exact Calm.refl s
  | cons p rest =>
    rw [go_notice_of_cons hw hs]
    refine ⟨state_hear .., by simp [hs], fun _ => ?_, ?_, rfl, rfl⟩
    · rw [hub_hear, Hub.notices_take]
    · rw [hub_hear, Hub.halves_take]
      rfl

/-- Something is read on a connection, and nothing else happens. -/
structure Reads (s s' : Office) (n : Nat) (c : Connection) (r : Connection × List Notice) (lingers : Bool) : Prop where
  connection : s.mailbox.hub.connections[n]? = some c
  reading : c.reading = true
  result : (∃ bytes, r = c.receive n bytes) ∨ r = c.receiveEnd n
  mailbox : s'.mailbox = (s.heard n c r lingers).mailbox
  waiting : s'.waiting = s.waiting ++ r.2.map (n, ·)
  taken : s'.taken = s.taken
  written : s'.written = s.written
  others : ∀ k, k ≠ n → s'.input k = s.input k ∧ s'.finished k = s.finished k
  follows : ∀ told, Follows n c (s.input n) (s.finished n) told → Follows n r.1 (s'.input n) (s'.finished n) (told ++ r.2)

theorem Reads.told_eq {n : Nat} {c : Connection} {r : Connection × List Notice} {lingers : Bool}
    (h : Reads s s' n c r lingers) (k : Nat) : s'.told k = if k = n then s.told n ++ r.2 else s.told k := by
  have hlog : s'.told k = s.told k ++ ofConnection k (r.2.map (n, ·)) := by
    rw [told, told, h.waiting, h.taken, ← List.append_assoc, ofConnection_append]
  rw [hlog]
  split
  · next hk => rw [hk, ofConnection_tagged]
  · next hk => rw [ofConnection_tagged_of_ne (Ne.symm hk), List.append_nil]

theorem reads_read {n : Nat} {c : Connection} (hc : s.mailbox.hub.connections[n]? = some c) (hr : c.reading = true)
    (bytes : Bytes) (lingers : Bool) : Reads s (s.go (.read n bytes lingers)) n c (c.receive n bytes) lingers := by
  simp only [go, withConnection, hc, if_pos hr]
  refine ⟨hc, hr, .inl ⟨bytes, rfl⟩, rfl, rfl, rfl, rfl, fun k hk => ⟨if_neg hk, rfl⟩, fun told h => ?_⟩
  dsimp only
  rw [if_pos rfl]
  exact h.receive hr bytes

theorem reads_finish {n : Nat} {c : Connection} (hc : s.mailbox.hub.connections[n]? = some c) (hr : c.reading = true)
    (lingers : Bool) : Reads s (s.go (.finish n lingers)) n c (c.receiveEnd n) lingers := by
  simp only [go, withConnection, hc, if_pos hr]
  refine ⟨hc, hr, .inr rfl, rfl, rfl, rfl, rfl, fun k hk => ⟨rfl, if_neg hk⟩, fun told h => ?_⟩
  dsimp only
  rw [if_pos rfl]
  exact h.receiveEnd hr

theorem go_read_cases (s : Office) (n : Nat) (bytes : Bytes) (lingers : Bool) :
    s.go (.read n bytes lingers) = s ∨
      ∃ c, Reads s (s.go (.read n bytes lingers)) n c (c.receive n bytes) lingers := by
  cases hc : s.mailbox.hub.connections[n]? with
  | none => exact .inl (by simp only [go, withConnection, hc])
  | some c =>
    by_cases hr : c.reading = true
    · exact .inr ⟨c, reads_read hc hr bytes lingers⟩
    · exact .inl (by simp only [go, withConnection, hc, if_neg hr])

theorem go_finish_cases (s : Office) (n : Nat) (lingers : Bool) :
    s.go (.finish n lingers) = s ∨ ∃ c, Reads s (s.go (.finish n lingers)) n c (c.receiveEnd n) lingers := by
  cases hc : s.mailbox.hub.connections[n]? with
  | none => exact .inl (by simp only [go, withConnection, hc])
  | some c =>
    by_cases hr : c.reading = true
    · exact .inr ⟨c, reads_finish hc hr lingers⟩
    · exact .inl (by simp only [go, withConnection, hc, if_neg hr])

theorem go_cases (hw : s.waiting.map Prod.snd = s.mailbox.hub.notices) (m : Move) :
    Calm s (s.go m) ∨ (∃ stream, m = .accept stream) ∨ ∃ n c r lingers, Reads s (s.go m) n c r lingers := by
  have hrefl := Calm.refl s
  cases m with
  | accept stream => exact .inr (.inl ⟨stream, rfl⟩)
  | read n bytes lingers =>
    rcases go_read_cases s n bytes lingers with heq | ⟨c, hreads⟩
    · exact .inl (heq.symm ▸ hrefl)
    · exact .inr (.inr ⟨n, c, _, lingers, hreads⟩)
  | finish n lingers =>
    rcases go_finish_cases s n lingers with heq | ⟨c, hreads⟩
    · exact .inl (heq.symm ▸ hrefl)
    · exact .inr (.inr ⟨n, c, _, lingers, hreads⟩)
  | abort n =>
    refine .inl (withConnection_of (P := (Calm s)) hrefl fun c _ => ?_)
    split
    · exact hrefl
    · exact calm_modify s n Connection.half_stopWriting s.written
  | notice => exact .inl (calm_notice hw)
  | write n whole =>
    exact .inl (withConnection_of (P := (Calm s)) hrefl fun c _ => calm_modify s n (Connection.half_put · whole) _)
  | send envelope => exact .inl (calm_send s envelope)
  | listen => exact .inl (calm_of_listeners s s.got rfl rfl)
  | unlisten k => exact .inl (calm_of_listeners s s.got rfl rfl)
  | next k =>
    simp only [go]
    split
    · exact .inl hrefl
    · next hm =>
      obtain ⟨l, rest, -, -, rfl⟩ := exists_of_takeEvent? hm
      exact .inl (calm_of_listeners s _ rfl rfl)
  | take k => exact .inl (calm_of_listeners s _ rfl rfl)

theorem Faithful.accept (h : s.Faithful) (stream : Nat) : (s.go (.accept stream)).Faithful where
  isOpen := h.isOpen
  waiting := h.waiting
  follows n c hc := by
    rcases getElem?_concat_cases hc with hc | ⟨rfl, rfl⟩
    · exact h.follows n c hc
    · obtain ⟨hin, hfinished, htold⟩ := h.blank _ (Nat.le_refl _)
      change Follows _ { stream } (s.input _) (s.finished _) (s.told _)
      rw [hin, hfinished, htold]
      exact follows_new _ stream
  blank n hn := by
    simp only [go, Hub.accept, List.length_append, List.length_singleton] at hn
    exact h.blank n (by omega)

theorem Faithful.of_reads {n : Nat} {c : Connection} {r : Connection × List Notice} {lingers : Bool} (h : s.Faithful)
    (hs : Reads s s' n c r lingers) : s'.Faithful where
  isOpen := by
    rw [hs.mailbox]
    exact h.isOpen
  waiting := by
    have hmap : (r.2.map (n, ·)).map Prod.snd = r.2 := by simp [Function.comp_def]
    rw [hs.waiting, hs.mailbox, List.map_append, hmap, h.waiting]
    rfl
  follows k c' hc' := by
    rw [hs.mailbox] at hc'
    rw [hs.told_eq]
    rcases getElem?_set_cases hc' with ⟨rfl, rfl⟩ | ⟨hk, hc'⟩
    · rw [if_pos rfl]
      refine (hs.follows _ (h.follows _ _ hs.connection)).of_half ?_
      split
      · exact c.half_linger r.1
      · rfl
    · rw [if_neg hk, (hs.others k hk).1, (hs.others k hk).2]
      exact h.follows k c' hc'
  blank k hk := by
    have hlength : s.mailbox.hub.connections.length ≤ k := by
      simpa only [hs.mailbox, heard, Hub.setConnection, List.length_set] using hk
    have hne : k ≠ n := Nat.ne_of_gt (Nat.lt_of_lt_of_le (List.getElem?_eq_some_iff.1 hs.connection).1 hlength)
    rw [hs.told_eq, if_neg hne, (hs.others k hne).1, (hs.others k hne).2]
    exact h.blank k hlength

theorem Faithful.go (h : s.Faithful) (m : Move) : (s.go m).Faithful := by
  rcases go_cases h.waiting m with hcalm | ⟨stream, rfl⟩ | ⟨n, c, r, lingers, hreads⟩
  · exact h.of_calm hcalm
  · exact h.accept stream
  · exact h.of_reads hreads

theorem Faithful.after (h : s.Faithful) (ms : List Move) : (s.after ms).Faithful := by
  induction ms generalizing s with
  | nil => exact h
  | cons m ms ih => exact ih (h.go m)

theorem Faithful.exists_of_told (h : s.Faithful) {n : Nat} (hn : s.told n ≠ []) :
    ∃ c i, s.mailbox.hub.connections[n]? = some c ∧ c.identity = some i ∧ greeter? (messages (s.input n)) = some i ∧
      s.told n = script n (messages (s.input n)) (!c.reading) := by
  cases hc : s.mailbox.hub.connections[n]? with
  | none => exact absurd (h.blank n (List.getElem?_eq_none_iff.1 hc)).2.2 hn
  | some c =>
    have hf := h.follows n c hc
    cases hg : greeter? (messages (s.input n)) with
    | none => exact absurd (hf.told.trans (script_of_none hg n _)) hn
    | some i => exact ⟨c, i, rfl, hf.identity.trans hg, rfl, hf.told⟩

theorem Faithful.greeted (h : s.Faithful) {k n : Nat} {i : Bytes} (hm : (k, .connected n i) ∈ s.taken ++ s.waiting) :
    k = n ∧ ∃ c, s.mailbox.hub.connections[n]? = some c ∧ c.identity = some i ∧
      greeter? (messages (s.input n)) = some i := by
  have htold : .connected n i ∈ s.told k := mem_ofConnection.2 hm
  obtain ⟨c, j, hc, hi, hg, hscript⟩ := h.exists_of_told (List.ne_nil_of_mem htold)
  obtain ⟨rfl, hg'⟩ := connected_mem_script (hscript ▸ htold)
  obtain rfl : j = i := Option.some.inj (hg.symm.trans hg')
  exact ⟨rfl, c, hc, hi, hg⟩

theorem Faithful.greets_once (h : s.Faithful) {k n : Nat} {i j : Bytes} (ht : (n, .connected n i) ∈ s.taken)
    (hw : (k, .connected n j) ∈ s.waiting) : False := by
  obtain ⟨rfl, c, -, -, hg⟩ := h.greeted (List.mem_append_right _ hw)
  have htaken : .connected k i ∈ ofConnection k s.taken := mem_ofConnection.2 ht
  have hwaiting : .connected k j ∈ ofConnection k s.waiting := mem_ofConnection.2 hw
  obtain ⟨x, xs, hx⟩ := List.exists_cons_of_ne_nil (List.ne_nil_of_mem htaken)
  have htold : s.told k = x :: (xs ++ ofConnection k s.waiting) := by
    rw [told, ofConnection_append, hx, List.cons_append]
  obtain ⟨c', j', -, -, hg', hscript⟩ := h.exists_of_told (htold ▸ List.cons_ne_nil _ _)
  rw [htold, script_of_some hg', List.cons_append] at hscript
  have hmem := List.mem_append_right xs hwaiting
  rw [(List.cons.inj hscript).2] at hmem
  exact connected_not_mem_rest hmem

theorem Faithful.silent_go (h : s.Faithful) {n : Nat} {c : Connection}
    (hc : s.mailbox.hub.connections[n]? = some c) (hr : c.reading = false) (m : Move) :
    (s.go m).input n = s.input n ∧
      ∃ c', (s.go m).mailbox.hub.connections[n]? = some c' ∧ c'.reading = false := by
  rcases go_cases h.waiting m with hcalm | ⟨stream, rfl⟩ | ⟨k, c', r, lingers, hreads⟩
  · obtain ⟨c', hc', hhalf⟩ := Option.map_eq_some_iff.1 ((hcalm.half_eq n).trans (congrArg _ hc))
    refine ⟨congrFun hcalm.input n, c', hc', ?_⟩
    exact (congrArg (·.2.2) hhalf).trans hr
  · exact ⟨rfl, c, getElem?_append_of_some hc _, hr⟩
  · have hne : n ≠ k := by
      rintro rfl
      rw [hreads.connection] at hc
      obtain rfl := Option.some.inj hc
      rw [hreads.reading] at hr
      cases hr
    refine ⟨(hreads.others n hne).1, c, ?_, hr⟩
    rw [hreads.mailbox]
    exact (List.getElem?_set_ne (Ne.symm hne)).trans hc

theorem Faithful.silent_after (h : s.Faithful) {n : Nat} {c : Connection}
    (hc : s.mailbox.hub.connections[n]? = some c) (hr : c.reading = false) (ms : List Move) :
    (s.after ms).input n = s.input n := by
  induction ms generalizing s c with
  | nil => rfl
  | cons m ms ih =>
    obtain ⟨hin, c', hc', hr'⟩ := h.silent_go hc hr m
    exact (ih (h.go m) hc' hr').trans hin

end Office
end Mailbox
end PeerDiscovery
