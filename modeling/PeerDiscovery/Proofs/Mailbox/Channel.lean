import PeerDiscovery.Mailbox.Channel
import PeerDiscovery.Proofs.Mailbox.Acts

/-! What is called on a channel, and what its loops do.
`move_cases` says what a move can do to a channel. From it, `exists_ages_of_deed` has what becomes of a loop, and
`loopView_deeds` what becomes of a mailbox whose loop is the only one that has not ended. -/
namespace PeerDiscovery
namespace Mailbox
namespace Channel

def front (c : Channel) (hub : Hub) : Mailbox :=
  { requested := c.requested, machine := c.machine, bound := c.bound, state := .open, hub, listeners := c.listeners }

/-- The channel as a mailbox. -/
def view (c : Channel) : Mailbox :=
  { c.front (((c.task.bind fun n => c.loops[n]?).map Loop.hub).getD {}) with state := c.state }

def moveLoop (c : Channel) (n : Nat) (mv : Office.Move) : Channel :=
  match c.loops[n]? with
  | none => c
  | some l =>
    if l.ended then c
    else
      let m := (({ mailbox := c.front l.hub } : Office).go mv).mailbox
      { c.modifyLoop n fun l => { l with hub := m.hub } with listeners := m.listeners }

/-- A move of a channel. It happens to loop `n` if it is one of connections. -/
def move (c : Channel) (n : Nat) : Office.Move → Channel
  | .send e => (c.send e).1
  | .listen => c.addListener.1
  | .unlisten k => { c with listeners := ((c.front {}).dropListener k).listeners }
  | .next k => { c with listeners := (({ mailbox := c.front {} } : Office).go (.next k)).mailbox.listeners }
  | .take k => { c with listeners := ((c.front {}).takeEvents k).1.listeners }
  | mv => c.moveLoop n mv

/-- What goes on while a call on a channel waits. -/
inductive Deed where
  | move (n : Nat) (mv : Office.Move)
  /-- A loop ends that has been told to, or to which nobody can send any more. -/
  | stop (n : Nat)

def deed (c : Channel) : Deed → Channel
  | .move n mv => c.move n mv
  | .stop n => c.stop n

def deeds (c : Channel) (ds : List Deed) : Channel := ds.foldl deed c

inductive Act where
  /-- The channel is opened, as `tryOpen` has it. -/
  | open (free : Net.SocketAddr → Bool) (unnamed : Option String)
  /-- The channel is closed. While the closing waits, the deeds are done. -/
  | close (during : List Deed)
  | deed (d : Deed)

def act (c : Channel) : Act → Channel
  | .open free unnamed => (c.tryOpen free unnamed).1
  | .close during => c.close fun c => c.deeds during
  | .deed d => c.deed d

def after (c : Channel) (acts : List Act) : Channel := acts.foldl act c

theorem after_concat (c : Channel) (acts : List Act) (a : Act) : c.after (acts ++ [a]) = (c.after acts).act a :=
  List.foldl_append

def Deed.move? : Deed → Option Office.Move
  | .move _ mv => some mv
  | .stop _ => none

variable {c : Channel} {n : Nat}

theorem act_front (c : Channel) (hub : Hub) (mv : Office.Move) :
    (c.front hub).act (.move mv) = (({ mailbox := c.front hub } : Office).go mv).mailbox :=
  act_move_of_isOpen (show (c.front hub).IsOpen from rfl) mv

theorem moveLoop_cases (c : Channel) (n : Nat) (mv : Office.Move) :
    c.moveLoop n mv = c ∨
    ∃ l hub listeners, c.loops[n]? = some l ∧ l.ended = false ∧
      c.moveLoop n mv = { c.modifyLoop n fun l => { l with hub } with listeners } ∧
      (c.front l.hub).act (.move mv) = { c.front hub with listeners } := by
  unfold moveLoop
  split
  · exact .inl rfl
  · next l hl =>
    split
    · exact .inl rfl
    · next hended =>
      refine .inr ⟨l, _, _, hl, by simpa using hended, rfl, ?_⟩
      rw [act_front]
      exact Office.go_kept { mailbox := c.front l.hub } mv

theorem send_cases (c : Channel) (e : Envelope) :
    (∃ i, e.sender = some i ∧ c.send e = (c, .error .closed)) ∨
    (e.sender = none ∧ c.send e = (c.emit (.sent e), .ok true)) ∨
    ∃ i n l, e.sender = some i ∧ c.running = true ∧ c.loopback = some n ∧ c.loops[n]? = some l ∧ l.ended = false ∧
      c.send e =
        (c.modifyLoop n fun k => { k with hub := (l.hub.reply i (payload e)).1 }, .ok (l.hub.reply i (payload e)).2) := by
  unfold send
  split
  · next he => exact .inr (.inl ⟨he, rfl⟩)
  · next i he =>
    split
    · next hr =>
      cases hb : c.loopback with
      | none => exact .inl ⟨i, he, rfl⟩
      | some n =>
        cases hl : c.loops[n]? with
        | none => exact .inl ⟨i, he, by simp [hl]⟩
        | some l =>
          by_cases hended : l.ended = true
          · exact .inl ⟨i, he, by simp [hl, hended]⟩
          · exact .inr (.inr ⟨i, n, l, he, hr, rfl, hl, by simpa using hended, by simp [hl, hended]⟩)
    · exact .inl ⟨i, he, rfl⟩

/-- What a move can do: nothing, or what it does to the listeners of every mailbox, or what it does to the mailbox of a loop
that has not ended. -/
theorem move_cases (c : Channel) (k : Nat) (mv : Office.Move) :
    c.move k mv = c ∨
    (∃ listeners, c.move k mv = { c with listeners } ∧
      ∀ m : Mailbox, m.listeners = c.listeners → m.act (.move mv) = { m with listeners }) ∨
    ∃ n l hub listeners, c.loops[n]? = some l ∧ l.ended = false ∧
      c.move k mv = { c.modifyLoop n fun l => { l with hub } with listeners } ∧
      (c.front l.hub).act (.move mv) = { c.front hub with listeners } := by
  have hloop : c.moveLoop k mv = c ∨ _ := c.moveLoop_cases k mv
  cases mv with
  | send e =>
    rcases c.send_cases e with ⟨i, he, hs⟩ | ⟨he, hs⟩ | ⟨i, n, l, he, hr, hb, hl, hended, hs⟩
    · exact .inl (congrArg Prod.fst hs)
    · refine .inr (.inl ⟨_, congrArg Prod.fst hs, fun m hm => ?_⟩)
      simp only [Mailbox.act, Office.go, Mailbox.send, he, Mailbox.emit, hm]
    · refine .inr (.inr ⟨n, l, _, c.listeners, hl, hended, congrArg Prod.fst hs, ?_⟩)
      rw [act_front]
      simp only [Office.go, Mailbox.send, he, front, if_pos]
  | listen => exact .inr (.inl ⟨_, rfl, fun m hm => by simp [Mailbox.act, Office.go, Mailbox.addListener, hm]⟩)
  | unlisten j =>
    exact .inr (.inl ⟨_, rfl, fun m hm => by simp [Mailbox.act, Office.go, Mailbox.dropListener, front, hm]⟩)
  | next j =>
    refine .inr (.inl ⟨_, rfl, fun m hm => ?_⟩)
    have hfront : (c.front {}).listeners = m.listeners := hm.symm
    simp only [Mailbox.act, Office.go, takeEvent?, hfront]
    cases m.listeners[j]? with
    | none => simp [hfront]
    | some l => cases hq : l.queue <;> simp [Office.give, hq, hfront]
  | take j =>
    exact .inr (.inl ⟨_, rfl, fun m hm => by
      simp [Mailbox.act, Office.go, Office.give, Mailbox.takeEvents, front, hm]⟩)
  | _ =>
    rcases hloop with h | ⟨l, hub, listeners, h⟩
    · exact .inl h
    · exact .inr (.inr ⟨k, l, hub, listeners, h⟩)

def loopView (c : Channel) (n : Nat) : Mailbox := c.front ((c.loops[n]?.map Loop.hub).getD {})

def Lone (c : Channel) (n : Nat) : Prop := ∀ k l, c.loops[k]? = some l → k ≠ n → l.ended = true

theorem deed_kept (c : Channel) (d : Deed) :
    c.deed d = { c with listeners := (c.deed d).listeners, loops := (c.deed d).loops } := by
  cases d with
  | stop n => rfl
  | move k mv =>
    rw [deed]
    rcases c.move_cases k mv with h | ⟨listeners, h, -⟩ | ⟨n, l, hub, listeners, -, -, h, -⟩ <;> rw [h]
    rfl

theorem length_loops_deed (c : Channel) (d : Deed) : (c.deed d).loops.length = c.loops.length := by
  cases d with
  | stop n => exact List.length_modify ..
  | move k mv =>
    rw [deed]
    rcases c.move_cases k mv with h | ⟨listeners, h, -⟩ | ⟨n, l, hub, listeners, -, -, h, -⟩ <;> rw [h]
    exact List.length_modify ..

/-- What a deed can make of loop `k`. It ends no loop that takes replies and has not been told to stop. -/
def Ages (c : Channel) (k : Nat) (l l' : Loop) : Prop :=
  (l.ended = true → l' = l) ∧ l'.told = l.told ∧ (l.told = false → c.loopback = some k → l'.ended = l.ended)

theorem exists_ages_of_deed {d : Deed} {k : Nat} {l' : Loop} (h : (c.deed d).loops[k]? = some l') :
    ∃ l, c.loops[k]? = some l ∧ c.Ages k l l' := by
  have hsame (hk : c.loops[k]? = some l') : ∃ l, c.loops[k]? = some l ∧ c.Ages k l l' :=
    ⟨l', hk, fun _ => rfl, rfl, fun _ _ => rfl⟩
  cases d with
  | stop n =>
    rcases getElem?_modify_cases h with ⟨rfl, l, hl, rfl⟩ | ⟨-, hl⟩
    · refine ⟨l, hl, fun hended => ?_, ?_, fun htold hback => ?_⟩
      · rw [← hended, ite_self]
      · split <;> rfl
      · rw [if_neg (by simp [htold, hback])]
    · exact hsame hl
  | move j mv =>
    rw [deed] at h
    rcases c.move_cases j mv with hm | ⟨listeners, hm, -⟩ | ⟨n, l, hub, listeners, hl, hended, hm, -⟩ <;> rw [hm] at h
    · exact hsame h
    · exact hsame h
    · rcases getElem?_modify_cases h with ⟨rfl, l₂, hl₂, rfl⟩ | ⟨-, hl₂⟩
      · obtain rfl := Option.some.inj (hl.symm.trans hl₂)
        exact ⟨l, hl, by simp [hended], rfl, fun _ _ => rfl⟩
      · exact hsame hl₂

theorem Lone.deed (h : c.Lone n) (d : Deed) : (c.deed d).Lone n := by
  intro k l hl hk
  obtain ⟨l₀, hl₀, hended, -⟩ := exists_ages_of_deed hl
  have hold := h k l₀ hl₀ hk
  rwa [hended hold]

theorem loopView_modifyLoop (c : Channel) (n k : Nat) {f : Loop → Loop} (hf : ∀ l, (f l).hub = l.hub) :
    (c.modifyLoop k f).loopView n = c.loopView n := by
  have hhub : (c.loops.modify k f)[n]?.map Loop.hub = c.loops[n]?.map Loop.hub := by
    rw [← List.getElem?_map, ← List.getElem?_map, map_modify_of_same _ _ hf]
  simp only [loopView, modifyLoop, hhub]
  rfl

/-- Mailbox `m'` is what some of the moves, in their order, make of `m`. -/
def MovesTo (m : Mailbox) (mvs : List Office.Move) (m' : Mailbox) : Prop :=
  ∃ made : List Office.Move, made.Sublist mvs ∧ m' = m.after (made.map .move)

theorem MovesTo.refl (m : Mailbox) (mvs : List Office.Move) : MovesTo m mvs m := ⟨[], List.nil_sublist mvs, rfl⟩

theorem MovesTo.of_act {m m' : Mailbox} {mv : Office.Move} (h : m.act (.move mv) = m') : MovesTo m [mv] m' :=
  ⟨[mv], .refl _, h.symm⟩

theorem MovesTo.trans {m m' m'' : Mailbox} {mvs mvs' : List Office.Move} (h : MovesTo m mvs m') (h' : MovesTo m' mvs' m'') :
    MovesTo m (mvs ++ mvs') m'' := by
  obtain ⟨made, hmade, rfl⟩ := h
  obtain ⟨made', hmade', rfl⟩ := h'
  refine ⟨made ++ made', hmade.append hmade', ?_⟩
  rw [List.map_append, after_append]

/-- With all other loops ended, a deed does to the mailbox of the loop what a move does, or nothing. -/
theorem loopView_deed (h : c.Lone n) (d : Deed) : MovesTo (c.loopView n) d.move?.toList ((c.deed d).loopView n) := by
  cases d with
  | stop k =>
    have hsame : (c.stop k).loopView n = c.loopView n := c.loopView_modifyLoop n k fun l => by split <;> rfl
    rw [Channel.deed, hsame]
    exact .refl ..
  | move k mv =>
    rw [Channel.deed]
    rcases c.move_cases k mv with hm | ⟨listeners, hm, hact⟩ | ⟨j, l, hub, listeners, hl, hended, hm, hact⟩ <;> rw [hm]
    · exact .refl ..
    · exact .of_act (hact (c.loopView n) rfl)
    · have hj : j = n := by
        by_contra hne
        rw [h j l hl hne] at hended
        cases hended
      subst hj
      refine .of_act ?_
      simp only [loopView, modifyLoop, List.getElem?_modify_eq, hl, Option.map_some, Option.getD_some, hact]
      rfl

theorem deeds_concat (c : Channel) (ds : List Deed) (d : Deed) : c.deeds (ds ++ [d]) = (c.deeds ds).deed d :=
  List.foldl_append

theorem deeds_kept (c : Channel) (ds : List Deed) :
    c.deeds ds = { c with listeners := (c.deeds ds).listeners, loops := (c.deeds ds).loops } := by
  induction ds using List.reverseRecOn with
  | nil => rfl
  | append_singleton ds d ih =>
    rw [deeds_concat, deed_kept, ih]

theorem Lone.deeds (h : c.Lone n) (ds : List Deed) : (c.deeds ds).Lone n := by
  induction ds using List.reverseRecOn with
  | nil => exact h
  | append_singleton ds d ih =>
    rw [deeds_concat]
    exact ih.deed d

theorem loopView_deeds (h : c.Lone n) (ds : List Deed) :
    MovesTo (c.loopView n) (ds.filterMap Deed.move?) ((c.deeds ds).loopView n) := by
  induction ds using List.reverseRecOn with
  | nil => exact .refl ..
  | append_singleton ds d ih =>
    have hd : [d].filterMap Deed.move? = d.move?.toList := by cases d <;> rfl
    rw [deeds_concat, List.filterMap_append, hd]
    exact ih.trans (loopView_deed (h.deeds ds) d)

end Channel
end Mailbox
end PeerDiscovery
