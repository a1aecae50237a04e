import PeerDiscovery.Proofs.Mailbox.Cells

/-! The life of a channel: it is opened, used and closed, as often as its owner likes, and some of the openings fail.
`exists_since` finds the opening that an open channel goes back to. Its loop has been an office since, so all that is known
of offices is so of it. -/
namespace PeerDiscovery
namespace Mailbox
namespace Channel

variable {c : Channel} {n : Nat}

theorem tryOpen_isOk_iff (c : Channel) (free : Net.SocketAddr → Bool) (unnamed : Option String) :
    (∃ r, (c.tryOpen free unnamed).2 = .ok r) ↔ c.state = .closed ∧ unnamed = none ∧
      ∃ addr, c.requested.socketAddr = .ok addr ∧ ∃ socket ∈ candidates addr, free socket = true := by
  rw [← socket_isOk_iff]
  rcases c.tryOpen_cases free unnamed with ⟨hs, h⟩ | ⟨-, hno, e, -, h⟩ | ⟨hs, hnone, addr, haddr, h⟩ <;> rw [h]
  · exact ⟨nofun, fun hopens => absurd hopens.1 hs⟩
  · exact ⟨nofun, fun ⟨_, hnone, addr, haddr⟩ => absurd haddr (hno hnone addr)⟩
  · exact ⟨fun _ => ⟨hs, hnone, addr, haddr⟩, fun _ => ⟨_, rfl⟩⟩

theorem state_of_opened {free : Net.SocketAddr → Bool} {unnamed : Option String} {r : Endpoint}
    (hr : (c.tryOpen free unnamed).2 = .ok r) : (c.tryOpen free unnamed).1.state = .open := by
  rcases c.tryOpen_cases free unnamed with ⟨-, h⟩ | ⟨-, -, e, -, h⟩ | ⟨-, -, addr, -, h⟩ <;> rw [h] at hr ⊢
  · cases hr
  · cases hr
  · rfl

theorem tryOpen_failed {free : Net.SocketAddr → Bool} {unnamed : Option String} {e : Error}
    (he : (c.tryOpen free unnamed).2 = .error e) :
    (c.tryOpen free unnamed).1 = c ∧ (e ≠ .alreadyOpen → c.state = .closed) := by
  rcases c.tryOpen_cases free unnamed with ⟨-, h⟩ | ⟨hs, -, e', -, h⟩ | ⟨-, -, addr, -, h⟩ <;> rw [h] at he ⊢
  · cases he
    exact ⟨rfl, fun hne => absurd rfl hne⟩
  · exact ⟨rfl, fun _ => hs⟩
  · cases he

theorem tryOpen_of_noAddress (hs : c.state = .closed) {e : EndpointError} (he : c.requested.socketAddr = .error e)
    (free : Net.SocketAddr → Bool) (unnamed : Option String) :
    c.tryOpen free unnamed = (c, .error (.endpoint e)) := by
  have hsocket : socket free c.requested = .error (.endpoint e) := by
    simp only [socket, he]
  rcases c.tryOpen_cases free unnamed with ⟨hne, -⟩ | ⟨-, -, e', he', h⟩ | ⟨-, -, addr, haddr, -⟩
  · exact absurd hs hne
  · rw [h, he' _ hsocket]
  · cases hsocket.symm.trans haddr

/-- While a channel waits for its loop to end, it opens and closes for nobody and takes no reply. -/
theorem Waits.refuses (h : c.Waits n) :
    (∀ free unnamed, c.tryOpen free unnamed = (c, .error .alreadyOpen)) ∧ (∀ meanwhile, c.close meanwhile = c) ∧
      ∀ (e : Envelope) i, e.sender = some i → c.send e = (c, .error .closed) := by
  refine ⟨fun free unnamed => if_neg ?_, fun meanwhile => if_neg ?_, fun e i he => send_of_not_running h.running he⟩ <;>
    (rw [h.state]; nofun)

/-- What each call finds and does at a channel. -/
structure Consistent (c : Channel) : Prop where
  /-- All cells are clear, or all name the one loop that has not ended. -/
  inStep : c.InStep
  /-- A channel opens if it is closed and one of the sockets for its address is free, and tells its port. -/
  opens : ∀ free unnamed, (∃ r, (c.tryOpen free unnamed).2 = .ok r) ↔ c.state = .closed ∧ unnamed = none ∧
    ∃ addr, c.requested.socketAddr = .ok addr ∧ ∃ socket ∈ candidates addr, free socket = true
  opened : ∀ free unnamed r, (c.tryOpen free unnamed).2 = .ok r → (c.tryOpen free unnamed).1.state = .open
  alreadyOpen : ∀ free unnamed, c.state = .open → c.tryOpen free unnamed = (c, .error .alreadyOpen)
  /-- A channel that fails to open is as it was, cell by cell, and closed unless it was open before; so `opens` says when
  it opens next. -/
  failed : ∀ free unnamed e, (c.tryOpen free unnamed).2 = .error e →
    (c.tryOpen free unnamed).1 = c ∧ (e ≠ .alreadyOpen → c.state = .closed)
  /-- A channel whose address is no socket address is never open. -/
  noAddress : ∀ e, c.requested.socketAddr = .error e →
    c.state = .closed ∧ ∀ free unnamed, c.tryOpen free unnamed = (c, .error (.endpoint e))
  /-- Whatever is done while a closing waits, the channel is closed then, and to close it again changes nothing. -/
  closes : ∀ during during' : List Deed, let closed := c.close fun c => c.deeds during
    closed.state = .closed ∧ (closed.close fun c => c.deeds during') = closed
  /-- A call made while a closing waits changes nothing but what listeners are told. -/
  closing : c.state = .open → ∀ during : List Deed, let waiting := c.shut.1.deeds during
    waiting.state = .closing ∧ (∀ free unnamed, waiting.tryOpen free unnamed = (waiting, .error .alreadyOpen)) ∧
      (∀ meanwhile, waiting.close meanwhile = waiting) ∧
      ∀ (e : Envelope) i, e.sender = some i → waiting.send e = (waiting, .error .closed)
  reply : ∀ (e : Envelope) i, e.sender = some i →
    ((c.send e).2 = .error .closed ↔ c.state ≠ .open) ∧ (c.state = .open → ∃ routed, (c.send e).2 = .ok routed)
  /-- A request is told once to each listener that is there, and nothing else happens. -/
  request : ∀ e : Envelope, e.sender = none → (c.send e).2 = .ok true ∧
    (c.send e).1 = { c with listeners := (c.send e).1.listeners } ∧
    ∀ k : Nat, (c.send e).1.listeners[k]? =
      c.listeners[k]?.map fun l => if l.live then { l with queue := l.queue ++ [.sent e] } else l

theorem InStep.reply (h : c.InStep) {e : Envelope} {i : Bytes} (he : e.sender = some i) :
    ((c.send e).2 = .error .closed ↔ c.state ≠ .open) ∧ (c.state = .open → ∃ routed, (c.send e).2 = .ok routed) := by
  rcases h with h | ⟨n, h⟩
  · rw [send_of_not_running h.running he, h.state]
    simp
  · rw [h.send_reply he, h.state]
    simp

theorem InStep.consistent (h : c.InStep) : Consistent c where
  inStep := h
  opens := c.tryOpen_isOk_iff
  opened := fun _ _ _ => state_of_opened
  alreadyOpen := by
    intro free unnamed ho
    rcases h with h | ⟨n, h⟩
    · cases h.state.symm.trans ho
    · exact h.tryOpen free unnamed
  failed := fun _ _ _ => tryOpen_failed
  noAddress := by
    intro e he
    rcases h with h | ⟨n, h⟩
    · exact ⟨h.state, tryOpen_of_noAddress h.state he⟩
    · obtain ⟨addr, _, -, haddr, -⟩ := h.bound
      cases he.symm.trans haddr
  closes := by
    intro during during' closed
    exact ⟨(h.idle_close during).state, (h.idle_close during).close _⟩
  closing := by
    intro ho during waiting
    rcases h with h | ⟨n, h⟩
    · cases h.state.symm.trans ho
    · exact ⟨(h.waits.deeds during).state, (h.waits.deeds during).refuses⟩
  reply := fun _ _ => h.reply
  request := by
    intro e he
    rw [c.send_request he]
    exact ⟨rfl, rfl, fun k => List.getElem?_map⟩

theorem InStep.requested_act (h : c.InStep) (a : Act) : (c.act a).requested = c.requested := by
  cases a with
  | «open» free unnamed =>
    rcases c.tryOpen_cases free unnamed with ⟨-, ho⟩ | ⟨-, -, e, -, ho⟩ | ⟨-, -, addr, -, ho⟩ <;>
      exact congrArg (fun r => r.1.requested) ho
  | close during =>
    rw [Channel.act]
    rcases h with h | ⟨n, h⟩
    · rw [h.close]
    · rw [h.close, deeds_kept, h.shut]
      rfl
  | deed d => rw [Channel.act, deed_kept]

theorem requested_after (requested : Endpoint) (machine : Nat) (acts : List Act) :
    ((new requested machine).after acts).requested = requested := by
  induction acts using List.reverseRecOn with
  | nil => rfl
  | append_singleton acts a ih =>
    rw [after_concat, (InStep.after (.inl (idle_new requested machine)) acts).requested_act, ih]

def Act.move? : Act → Option Office.Move
  | .deed d => d.move?
  | _ => none

/-- The opening after `past` went well, and what came `later` did not close the channel: some of the moves among it were
made. -/
structure Since (c : Channel) (past : List Act) (free : Net.SocketAddr → Bool) (later : List Act) : Prop where
  opens : ∃ r, ((c.after past).tryOpen free none).2 = .ok r
  stays : ∀ during, .close during ∉ later
  moved : MovesTo ((c.after past).act (.open free none)).view (later.filterMap Act.move?)
    (c.after (past ++ .open free none :: later)).view

theorem Since.concat {past later : List Act} {free : Net.SocketAddr → Bool} {a : Act} (h : c.Since past free later)
    (ha : ∀ during, a ≠ .close during)
    (hmoved : MovesTo (c.after (past ++ .open free none :: later)).view a.move?.toList
      ((c.after (past ++ .open free none :: later)).act a).view) : c.Since past free (later ++ [a]) where
  opens := h.opens
  stays := by
    intro during hm
    rcases List.mem_append.1 hm with hm | hm
    · exact h.stays during hm
    · exact ha during (List.mem_singleton.1 hm).symm
  moved := by
    have hone : [a].filterMap Act.move? = a.move?.toList := by
      cases hm : a.move? <;> simp [hm]
    rw [← List.cons_append, ← List.append_assoc, after_concat, List.filterMap_append, hone]
    exact h.moved.trans hmoved

theorem exists_since (hc : c.Idle) {acts : List Act} (ho : (c.after acts).state = .open) :
    ∃ past free later, acts = past ++ .open free none :: later ∧ c.Since past free later := by
  induction acts using List.reverseRecOn with
  | nil => cases hc.state.symm.trans ho
  | append_singleton acts a ih =>
    rw [after_concat] at ho
    rcases InStep.after (.inl hc) acts with hidle | ⟨n, hruns⟩
    · cases a with
      | «open» free unnamed =>
        have hok : ∃ r, ((c.after acts).tryOpen free unnamed).2 = .ok r := by
          rcases (c.after acts).tryOpen_cases free unnamed with ⟨hne, -⟩ | ⟨-, -, e, -, h⟩ | ⟨-, -, addr, -, h⟩
          · exact absurd hidle.state hne
          · cases hidle.state.symm.trans ((congrArg (fun r => r.1.state) h).symm.trans ho)
          · exact ⟨_, congrArg Prod.snd h⟩
        obtain rfl := ((tryOpen_isOk_iff _ free unnamed).1 hok).2.1
        refine ⟨acts, free, [], rfl, hok, fun _ => List.not_mem_nil, ?_⟩
        rw [after_concat]
        exact .refl ..
      | close during => cases (InStep.idle_close (.inl hidle) during).state.symm.trans ho
      | deed d => cases (hidle.deed d).state.symm.trans ho
    · obtain ⟨past, free, later, rfl, hsince⟩ := ih hruns.state
      have hlater := past.append_assoc (.open free none :: later) [a]
      cases a with
      | «open» free' unnamed =>
        refine ⟨past, free, _, hlater, hsince.concat (by simp) ?_⟩
        rw [act, hruns.tryOpen]
        exact .refl ..
      | close during => cases (hruns.idle_close during).state.symm.trans ho
      | deed d => exact ⟨past, free, _, hlater, hsince.concat (by simp) (hruns.shadows_deed d)⟩

theorem exists_of_close_eq {past later past' later' : List Act} {during : List Deed} {free : Net.SocketAddr → Bool}
    (h : past' ++ .close during :: later' = past ++ .open free none :: later) (hl : .close during ∉ later) :
    ∃ shut, past = past' ++ .close during :: shut ∧ later' = shut ++ .open free none :: later := by
  rcases List.append_eq_append_iff.1 h with ⟨middle, rfl, hm⟩ | ⟨middle, rfl, hm⟩
  · cases middle with
    | nil => cases hm
    | cons a shut =>
      obtain ⟨rfl, rfl⟩ := List.cons.inj hm
      exact ⟨shut, rfl, rfl⟩
  · cases middle with
    | nil => cases hm
    | cons a rest =>
      obtain ⟨-, rfl⟩ := List.cons.inj hm
      exact absurd (List.mem_append_right rest List.mem_cons_self) hl

theorem Since.exists_office (hc : c.Idle) {past later : List Act} {free : Net.SocketAddr → Bool}
    (h : c.Since past free later) :
    ∃ made : List Office.Move, made.Sublist (later.filterMap Act.move?) ∧
      ((Office.opened ((c.after past).act (.open free none)).view).after made).mailbox =
        (c.after (past ++ .open free none :: later)).view := by
  obtain ⟨made, hmade, hview⟩ := h.moved
  have hopened : ∃ addr, ((c.after past).act (.open free none)).view = (c.after past).view.openedAt addr := by
    obtain ⟨r, hr⟩ := h.opens
    have hshadows : _ = ((c.after past).view.tryOpen free).1 := (InStep.after (.inl hc) past).shadows (.open free none)
    rcases (c.after past).tryOpen_view_cases free with ⟨e, he, -⟩ | ⟨addr, -, -, -, hm⟩
    · rw [he] at hr
      cases hr
    · exact ⟨addr, hshadows.trans (congrArg Prod.fst hm)⟩
  obtain ⟨addr, haddr⟩ := hopened
  refine ⟨made, hmade, ?_⟩
  rw [hview, haddr, (after_map_move (show ((c.after past).view.openedAt addr).IsOpen from rfl) made).2]
  exact Office.mailbox_after rfl made

theorem exists_speaker_of_routed {m : Mailbox} {e : Envelope} {i : Bytes} (he : e.sender = some i)
    (h : (m.send e).2 = .ok true) : m.IsOpen ∧ ∃ n, m.hub.speaker? i = some n := by
  simp only [Mailbox.send, he] at h
  split at h
  · next hopen =>
    refine ⟨hopen, ?_⟩
    cases hs : m.hub.speaker? i with
    | none => simp [Hub.reply, hs] at h
    | some n => exact ⟨n, rfl⟩
  · cases h

/-- The life of a channel, whichever of its openings fail and whatever its loops do. Each call finds its cells in step and
does what fits them, and what it would do at the mailbox. Once it has been closed, only those are reached who have connected
since it was opened again. -/
theorem lifecycle (requested : Endpoint) (machine : Nat) (acts : List Act) :
    let c := (new requested machine).after acts
    c.requested = requested ∧ Consistent c ∧ (∀ a : Act, a.Shadows c.view (c.act a).view) ∧
      (∀ e, (c.send e).2 = (c.view.send e).2) ∧
      (∀ free, (c.tryOpen free none).2 = (c.view.tryOpen free).2.map Prod.fst) ∧
      ∀ past during later, acts = past ++ .close during :: later → ∀ e i, e.sender = some i → (c.send e).2 = .ok true →
        ∃ shut free open' made, later = shut ++ .open free none :: open' ∧ (∀ during', .close during' ∉ open') ∧
          made.Sublist (open'.filterMap Act.move?) ∧
          let closed := (new requested machine).after (past ++ .close during :: shut)
          let s := (Office.opened (closed.act (.open free none)).view).after made
          (∃ r, (closed.tryOpen free none).2 = .ok r) ∧ s.mailbox = c.view ∧
            ∃ n, (n, .connected n i) ∈ s.taken ∧ greeter? (messages (s.input n)) = some i := by
  intro c
  have hinStep : c.InStep := InStep.after (.inl (idle_new requested machine)) acts
  refine ⟨requested_after requested machine acts, hinStep.consistent, hinStep.shadows, hinStep.send_eq, c.tryOpen_eq,
    fun past during later hacts e i hi hrouted => ?_⟩
  rw [hinStep.send_eq] at hrouted
  obtain ⟨hopen, n, hs⟩ := exists_speaker_of_routed hi hrouted
  obtain ⟨past', free, open', rfl, hsince⟩ := exists_since (idle_new requested machine) hopen
  obtain ⟨shut, rfl, rfl⟩ := exists_of_close_eq hacts.symm (hsince.stays during)
  obtain ⟨made, hmade, hoffice⟩ := hsince.exists_office (idle_new requested machine)
  rw [← hoffice] at hs
  obtain ⟨htaken, -, -, -, hgreeted⟩ :=
    (Office.attuned_after _ made).greeted ((Office.faithful_opened _).after made) hs
  exact ⟨shut, free, open', made, rfl, hsince.stays, hmade, hsince.opens, hoffice, n, htaken, hgreeted⟩

/-- A peer connects, the channel is closed and opened again, and the peer connects once more. -/
theorem lifecycle_reconnected :
    let start := new (.tcp "*" 0) 0
    let free : Net.SocketAddr → Bool := fun _ => true
    let greet (loop : Nat) : List Act :=
      [.deed (.move loop (.accept 0)), .deed (.move loop (.read 0 (Framing.encodeFrames [[7]]) false)),
        .deed (.move loop .notice)]
    let e : Envelope := { id := 4, sender := some [7], message := .hello "10.0.0.1" 7 }
    let past := Act.open free none :: greet 0
    let again := Act.open free none :: greet 1
    let during := [Deed.stop 0, Deed.move 0 .notice]
    ((start.after past).send e).2 = .ok true ∧
    ((start.after (past ++ [.close during])).send e).2 = .error .closed ∧
    ((start.after (past ++ [.close during, .open free none])).send e).2 = .ok false ∧
    ((start.after (past ++ .close during :: again)).send e).2 = .ok true ∧
    ∃ shut free' open' made, again = shut ++ .open free' none :: open' ∧
      ∃ n, greeter? (messages (((Office.opened
        ((start.after (past ++ .close during :: shut)).act (.open free' none)).view).after made).input n)) = some [7] := by
  intro start free greet e past again during
  have hagain : ((start.after (past ++ .close during :: again)).send e).2 = .ok true := by decide +kernel
  obtain ⟨-, -, -, -, -, hreached⟩ := lifecycle (.tcp "*" 0) 0 (past ++ .close during :: again)
  obtain ⟨shut, free', open', made, hpast, -, -, -, -, n, -, hgreeted⟩ :=
    hreached past during again rfl e [7] rfl hagain
  exact ⟨by decide +kernel, by decide +kernel, by decide +kernel, hagain, shut, free', open', made, hpast, n, hgreeted⟩

/-- An address that names a host is none of a socket. Such a channel fails to open however often it is tried. -/
theorem host_name_never_opens :
    (new (.tcp "localhost" 0) 0).tryOpen (fun _ => true) none =
        (new (.tcp "localhost" 0) 0, .error (.endpoint (.invalidAddress "localhost"))) ∧
      ∀ acts free unnamed, ¬ ∃ r, (((new (.tcp "localhost" 0) 0).after acts).tryOpen free unnamed).2 = .ok r := by
  have hname : (new (.tcp "localhost" 0) 0).requested.socketAddr = .error (.invalidAddress "localhost") := by
    decide +kernel
  refine ⟨tryOpen_of_noAddress rfl hname _ _, fun acts free unnamed hopens => ?_⟩
  obtain ⟨-, -, addr, haddr, -⟩ := (tryOpen_isOk_iff _ free unnamed).1 hopens
  rw [requested_after, ← show (new (.tcp "localhost" 0) 0).requested = .tcp "localhost" 0 from rfl, hname] at haddr
  cases haddr

end Channel
end Mailbox
end PeerDiscovery
