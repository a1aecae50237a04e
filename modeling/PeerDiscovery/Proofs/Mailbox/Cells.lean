import PeerDiscovery.Proofs.Mailbox.Channel

/-! The cells of a channel stay in step.
Between calls they are all clear, or they name one and the same loop, and every other loop has ended (`InStep.after`). So
each act does to `view` what acts of a mailbox do (`InStep.shadows`), and after any run a channel looks like a mailbox after
some run of its own (`exists_view_after`). -/
namespace PeerDiscovery
namespace Mailbox
namespace Channel

variable {c : Channel} {n : Nat}

/-- A closed channel: every cell is clear, and every loop has ended. -/
structure Idle (c : Channel) : Prop where
  state : c.state = .closed
  running : c.running = false
  loopback : c.loopback = none
  shutdown : c.shutdown = none
  task : c.task = none
  ended : ∀ l ∈ c.loops, l.ended = true

/-- An open channel: every cell names the same loop, and that is the only one which has not ended. -/
structure Runs (c : Channel) (n : Nat) : Prop where
  state : c.state = .open
  running : c.running = true
  loopback : c.loopback = some n
  shutdown : c.shutdown = some n
  task : c.task = some n
  loop : ∃ l, c.loops[n]? = some l ∧ l.told = false ∧ l.ended = false
  lone : c.Lone n
  bound : ∃ addr, ∃ socket ∈ candidates addr, c.requested.socketAddr = .ok addr ∧
    c.bound = some (c.requested.withPort socket.port)

def InStep (c : Channel) : Prop := c.Idle ∨ ∃ n, c.Runs n

theorem Idle.lone (h : c.Idle) (n : Nat) : c.Lone n := fun _ l hl _ => h.ended l (List.mem_of_getElem? hl)

theorem Idle.deed (h : c.Idle) (d : Deed) : (c.deed d).Idle := by
  have hended : ∀ l ∈ (c.deed d).loops, l.ended = true := by
    intro l hl
    obtain ⟨k, hk⟩ := List.mem_iff_getElem?.1 hl
    exact (h.lone (k + 1)).deed d k l hk (Nat.succ_ne_self k).symm
  rw [deed_kept] at hended ⊢
  exact ⟨h.state, h.running, h.loopback, h.shutdown, h.task, hended⟩

theorem Runs.deed (h : c.Runs n) (d : Deed) : (c.deed d).Runs n := by
  have hlone := h.lone.deed d
  have hloop : ∃ l, (c.deed d).loops[n]? = some l ∧ l.told = false ∧ l.ended = false := by
    obtain ⟨l, hl, htold, hended⟩ := h.loop
    have hlt : n < (c.deed d).loops.length := by
      rw [length_loops_deed]
      exact (List.getElem?_eq_some_iff.1 hl).1
    obtain ⟨l₀, hl₀, -, htold', hended'⟩ := exists_ages_of_deed (List.getElem?_eq_getElem hlt)
    obtain rfl := Option.some.inj (hl.symm.trans hl₀)
    exact ⟨_, List.getElem?_eq_getElem hlt, htold'.trans htold, (hended' htold h.loopback).trans hended⟩
  rw [deed_kept] at hlone hloop ⊢
  exact ⟨h.state, h.running, h.loopback, h.shutdown, h.task, hloop, hlone, h.bound⟩

theorem Idle.view (h : c.Idle) : c.view = { c.front {} with state := .closed } := by
  simp only [Channel.view, h.task, h.state, Option.bind_none, Option.map_none, Option.getD_none]

theorem Runs.view (h : c.Runs n) : c.view = c.loopView n := by
  simp only [Channel.view, loopView, h.task, Option.bind_some, front, h.state]

/-- A channel that has just been opened at a socket. -/
def begun (c : Channel) (addr : Net.SocketAddr) : Channel :=
  { c with
    bound := some (c.requested.withPort addr.port)
    state := .open
    running := true
    loopback := some c.loops.length
    shutdown := some c.loops.length
    task := some c.loops.length
    loops := c.loops ++ [{}] }

/-- An opening is refused, or fails and leaves the channel as it was, or begins a loop. -/
theorem tryOpen_cases (c : Channel) (free : Net.SocketAddr → Bool) (unnamed : Option String) :
    (c.state ≠ .closed ∧ c.tryOpen free unnamed = (c, .error .alreadyOpen)) ∨
    (c.state = .closed ∧ (unnamed = none → ∀ addr, socket free c.requested ≠ .ok addr) ∧
      ∃ e, (∀ e', socket free c.requested = .error e' → e = e') ∧ c.tryOpen free unnamed = (c, .error e)) ∨
    (c.state = .closed ∧ unnamed = none ∧ ∃ addr, socket free c.requested = .ok addr ∧
      c.tryOpen free unnamed = (c.begun addr, .ok (c.requested.withPort addr.port))) := by
  by_cases hs : c.state = .closed
  · have hgive (e : Error) : { c with state := .open }.giveUp e = (c, .error e) := by
      simp only [giveUp, ← hs]
    refine .inr ?_
    cases hsocket : socket free c.requested with
    | error e => exact .inl ⟨hs, nofun, e, by simp, by simp only [tryOpen, if_pos hs, hsocket, hgive]⟩
    | ok addr =>
      cases unnamed with
      | none => exact .inr ⟨hs, rfl, addr, rfl, by simp only [tryOpen, if_pos hs, hsocket]; rfl⟩
      | some reason =>
        refine .inl ⟨hs, nofun, ?_⟩
        cases hown : c.requested.socketAddr with
        | error e => exact ⟨.endpoint e, nofun, by simp only [tryOpen, if_pos hs, hsocket, hown, hgive]⟩
        | ok own => exact ⟨.bind own reason, nofun, by simp only [tryOpen, if_pos hs, hsocket, hown, hgive]⟩
  · exact .inl ⟨hs, if_neg hs⟩

theorem loops_begun (c : Channel) (addr : Net.SocketAddr) : (c.begun addr).loops[c.loops.length]? = some {} :=
  List.getElem?_concat_length

theorem Idle.begun (h : c.Idle) {free : Net.SocketAddr → Bool} {addr : Net.SocketAddr}
    (haddr : socket free c.requested = .ok addr) :
    (c.begun addr).Runs c.loops.length := by
  refine ⟨rfl, rfl, rfl, rfl, rfl, ⟨{}, c.loops_begun addr, rfl, rfl⟩, fun k l hl hk => ?_, ?_⟩
  · rcases getElem?_concat_cases hl with hold | ⟨rfl, -⟩
    · exact h.ended l (List.mem_of_getElem? hold)
    · exact absurd rfl hk
  · rcases socket_cases free c.requested with ⟨e, -, hs⟩ | ⟨own, hown, ⟨-, hs⟩ | ⟨socket, hsocket, hs⟩⟩
    · cases hs.symm.trans haddr
    · cases hs.symm.trans haddr
    · cases hs.symm.trans haddr
      exact ⟨own, _, List.mem_of_find?_eq_some hsocket, hown, rfl⟩

/-- A channel that waits for its last loop to end. -/
structure Waits (c : Channel) (n : Nat) : Prop where
  state : c.state = .closing
  running : c.running = false
  loopback : c.loopback = none
  shutdown : c.shutdown = none
  task : c.task = none
  lone : c.Lone n

theorem Runs.shut (h : c.Runs n) :
    c.shut = ({ c with state := .closing, running := false, shutdown := none, loopback := none, task := none,
                       loops := c.loops.modify n fun l => { l with told := true } }, some n) := by
  simp only [Channel.shut, tellShutdown, h.shutdown, h.task, modifyLoop]

theorem Runs.waits (h : c.Runs n) : c.shut.1.Waits n := by
  rw [h.shut]
  refine ⟨rfl, rfl, rfl, rfl, rfl, fun k l hl hk => ?_⟩
  rcases getElem?_modify_cases hl with ⟨rfl, -⟩ | ⟨-, hl⟩
  · exact absurd rfl hk
  · exact h.lone k l hl hk

theorem Waits.deeds (h : c.Waits n) (ds : List Deed) : (c.deeds ds).Waits n := by
  have hlone := h.lone.deeds ds
  rw [deeds_kept] at hlone ⊢
  exact ⟨h.state, h.running, h.loopback, h.shutdown, h.task, hlone⟩

theorem Waits.finish (h : c.Waits n) : (c.finish (some n)).Idle := by
  refine ⟨rfl, h.running, h.loopback, h.shutdown, h.task, fun l hl => ?_⟩
  obtain ⟨k, hk⟩ := List.mem_iff_getElem?.1 hl
  rcases getElem?_modify_cases hk with ⟨-, l₀, -, rfl⟩ | ⟨hne, hl₀⟩
  · rfl
  · exact h.lone k l hl₀ hne

theorem Runs.close (h : c.Runs n) (meanwhile : Channel → Channel) :
    c.close meanwhile = (meanwhile c.shut.1).finish (some n) := by
  rw [Channel.close, if_pos h.state, h.shut]

theorem Idle.close (h : c.Idle) (meanwhile : Channel → Channel) : c.close meanwhile = c := by
  rw [Channel.close, if_neg]
  rw [h.state]
  nofun

theorem Runs.idle_close (h : c.Runs n) (during : List Deed) : (c.close fun c => c.deeds during).Idle := by
  rw [h.close]
  exact (h.waits.deeds during).finish

theorem InStep.idle_close (h : c.InStep) (during : List Deed) : (c.close fun c => c.deeds during).Idle := by
  rcases h with h | ⟨n, h⟩
  · exact (h.close _).symm ▸ h
  · exact h.idle_close during

theorem InStep.tryOpen (h : c.InStep) (free : Net.SocketAddr → Bool) (unnamed : Option String) :
    (c.tryOpen free unnamed).1.InStep := by
  rcases c.tryOpen_cases free unnamed with ⟨-, ho⟩ | ⟨-, -, e, -, ho⟩ | ⟨hs, -, addr, haddr, ho⟩ <;> rw [ho]
  · exact h
  · exact h
  · rcases h with h | ⟨n, h⟩
    · exact .inr ⟨_, h.begun haddr⟩
    · cases hs.symm.trans h.state

theorem InStep.act (h : c.InStep) (a : Act) : (c.act a).InStep := by
  cases a with
  | «open» free unnamed => exact h.tryOpen free unnamed
  | close during => exact .inl (h.idle_close during)
  | deed d => exact h.imp (·.deed d) fun ⟨n, h⟩ => ⟨n, h.deed d⟩

/-- A channel that has just been made. -/
def new (requested : Endpoint) (machine : Nat) : Channel := { requested, machine }

theorem idle_new (requested : Endpoint) (machine : Nat) : (new requested machine).Idle :=
  ⟨rfl, rfl, rfl, rfl, rfl, nofun⟩

theorem InStep.after (h : c.InStep) (acts : List Act) : (c.after acts).InStep := by
  induction acts using List.reverseRecOn with
  | nil => exact h
  | append_singleton acts a ih =>
    rw [after_concat]
    exact ih.act a

/-- What an act does to a channel as a mailbox. -/
def Act.Shadows (m m' : Mailbox) : Act → Prop
  | .open free none => m' = m.act (.open free)
  | .open _ (some _) => m' = m
  | .close during => ∃ m₁, MovesTo m (during.filterMap Deed.move?) m₁ ∧ m' = m₁.act .close
  | .deed d => MovesTo m d.move?.toList m'

theorem Idle.shadows_deed (h : c.Idle) (d : Deed) : MovesTo c.view d.move?.toList (c.deed d).view := by
  rw [(h.deed d).view, h.view]
  cases d with
  | stop k => exact .refl ..
  | move k mv =>
    rw [Channel.deed]
    rcases c.move_cases k mv with hm | ⟨listeners, hm, hact⟩ | ⟨n, l, hub, listeners, hl, hended, -⟩
    · rw [hm]
      exact .refl ..
    · rw [hm]
      exact .of_act (hact _ rfl)
    · rw [h.ended l (List.mem_of_getElem? hl)] at hended
      cases hended

theorem Runs.shadows_deed (h : c.Runs n) (d : Deed) : MovesTo c.view d.move?.toList (c.deed d).view := by
  rw [h.view, (h.deed d).view]
  exact loopView_deed h.lone d

theorem Runs.shadows_close (h : c.Runs n) (during : List Deed) :
    Act.Shadows c.view (c.act (.close during)).view (.close during) := by
  have hshut : c.shut.1.loopView n = c.loopView n := by
    rw [h.shut]
    exact c.loopView_modifyLoop n n fun _ => rfl
  refine ⟨(c.shut.1.deeds during).loopView n, ?_, ?_⟩
  · rw [h.view, ← hshut]
    exact loopView_deeds h.waits.lone during
  · refine (h.idle_close during).view.trans ?_
    rw [h.close]
    rfl

theorem tryOpen_view_cases (c : Channel) (free : Net.SocketAddr → Bool) :
    (∃ e, c.tryOpen free none = (c, .error e) ∧ c.view.tryOpen free = (c.view, .error e)) ∨
    ∃ addr, c.state = .closed ∧ socket free c.requested = .ok addr ∧
      c.tryOpen free none = (c.begun addr, .ok (c.requested.withPort addr.port)) ∧
      c.view.tryOpen free = (c.view.openedAt addr, .ok (c.requested.withPort addr.port, addr)) := by
  rcases c.tryOpen_cases free none with ⟨hs, hc⟩ | ⟨hs, hno, e, he, hc⟩ | ⟨hs, -, addr, haddr, hc⟩
  · exact .inl ⟨_, hc, if_neg hs⟩
  · rcases c.view.tryOpen_cases free with ⟨hne, -⟩ | ⟨-, e', he', hm⟩ | ⟨-, addr, haddr, -⟩
    · exact absurd hs hne
    · obtain rfl := he e' he'
      exact .inl ⟨e, hc, hm⟩
    · exact absurd haddr (hno rfl addr)
  · rcases c.view.tryOpen_cases free with ⟨hne, -⟩ | ⟨-, e, he, -⟩ | ⟨-, addr', haddr', hm⟩
    · exact absurd hs hne
    · cases haddr.symm.trans he
    · obtain rfl := Except.ok.inj (haddr.symm.trans haddr')
      exact .inr ⟨addr, hs, haddr, hc, hm⟩

theorem InStep.shadows_open (h : c.InStep) (free : Net.SocketAddr → Bool) (unnamed : Option String) :
    Act.Shadows c.view (c.act (.open free unnamed)).view (.open free unnamed) := by
  cases unnamed with
  | some reason =>
    rcases c.tryOpen_cases free (some reason) with ⟨-, hc⟩ | ⟨-, -, e, -, hc⟩ | ⟨-, hnone, -⟩
    · exact congrArg (fun r => r.1.view) hc
    · exact congrArg (fun r => r.1.view) hc
    · cases hnone
  | none =>
    rcases c.tryOpen_view_cases free with ⟨e, hc, hm⟩ | ⟨addr, hs, haddr, hc, hm⟩ <;>
      refine Eq.trans ?_ (congrArg Prod.fst hm).symm <;> rw [Channel.act, hc]
    rcases h with h | ⟨n, h⟩
    · rw [(h.begun haddr).view, h.view]
      simp only [loopView, loops_begun]
      rfl
    · cases hs.symm.trans h.state

theorem Runs.tryOpen (h : c.Runs n) (free : Net.SocketAddr → Bool) (unnamed : Option String) :
    c.tryOpen free unnamed = (c, .error .alreadyOpen) := by
  refine if_neg ?_
  rw [h.state]
  nofun

theorem InStep.shadows (h : c.InStep) (a : Act) : a.Shadows c.view (c.act a).view := by
  cases a with
  | «open» free unnamed => exact h.shadows_open free unnamed
  | close during =>
    rcases h with h | ⟨n, h⟩
    · refine ⟨c.view, .refl .., ?_⟩
      rw [Channel.act, h.close, h.view]
      rfl
    · exact h.shadows_close during
  | deed d =>
    rcases h with h | ⟨n, h⟩
    · exact h.shadows_deed d
    · exact h.shadows_deed d

theorem exists_view_after (requested : Endpoint) (machine : Nat) (acts : List Act) :
    ∃ acts', ((new requested machine).after acts).view = ({ requested, machine } : Mailbox).after acts' := by
  induction acts using List.reverseRecOn with
  | nil => exact ⟨[], rfl⟩
  | append_singleton acts a ih =>
    obtain ⟨acts', hacts'⟩ := ih
    have hstep := (InStep.after (.inl (idle_new requested machine)) acts).shadows a
    rw [hacts'] at hstep
    rw [after_concat]
    cases a with
    | «open» free unnamed =>
      cases unnamed with
      | none => exact ⟨acts' ++ [.open free], hstep.trans (Mailbox.after_concat ..).symm⟩
      | some reason => exact ⟨acts', hstep⟩
    | close during =>
      obtain ⟨_, ⟨made, -, rfl⟩, hclosed⟩ := hstep
      refine ⟨(acts' ++ made.map .move) ++ [.close], ?_⟩
      rw [Mailbox.after_concat, Mailbox.after_append]
      exact hclosed
    | deed d =>
      obtain ⟨made, -, hmade⟩ := hstep
      exact ⟨acts' ++ made.map .move, hmade.trans (Mailbox.after_append ..).symm⟩

theorem send_request (c : Channel) {e : Envelope} (he : e.sender = none) : c.send e = (c.emit (.sent e), .ok true) := by
  simp only [send, he]

theorem send_of_not_running (hr : c.running = false) {e : Envelope} {i : Bytes} (he : e.sender = some i) :
    c.send e = (c, .error .closed) := by
  simp [send, he, hr]

theorem Runs.send_reply (h : c.Runs n) {e : Envelope} {i : Bytes} (he : e.sender = some i) :
    (c.send e).2 = .ok (c.view.hub.reply i (payload e)).2 := by
  obtain ⟨l, hl, -, hended⟩ := h.loop
  have hhub : c.view.hub = l.hub := by
    rw [h.view, loopView, hl]
    rfl
  rw [hhub]
  simp [send, he, h.running, h.loopback, hl, hended]

theorem InStep.send_eq (h : c.InStep) (e : Envelope) : (c.send e).2 = (c.view.send e).2 := by
  cases he : e.sender with
  | none => simp only [c.send_request he, Mailbox.send, he]
  | some i =>
    rcases h with h | ⟨n, h⟩
    · rw [send_of_not_running h.running he, h.view]
      simp [Mailbox.send, he]
    · have hopen : c.view.state = .open := h.state
      rw [h.send_reply he]
      simp only [Mailbox.send, he, if_pos hopen]

theorem tryOpen_eq (c : Channel) (free : Net.SocketAddr → Bool) :
    (c.tryOpen free none).2 = (c.view.tryOpen free).2.map Prod.fst := by
  rcases c.tryOpen_view_cases free with ⟨e, hc, hm⟩ | ⟨addr, -, -, hc, hm⟩ <;> rw [hc, hm] <;> rfl

end Channel
end Mailbox
end PeerDiscovery
