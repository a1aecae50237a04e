import PeerDiscovery.Proofs.Activity.Announcing
import PeerDiscovery.Proofs.Node.Hosting

/-! A job that nothing comes between.
It does what the operation of the engine or of the node does. A query or a sighting takes the same steps here
as among calls alone, so what is known of it there carries over. -/
namespace PeerDiscovery
namespace Activity

open Beacon (Air)
open Discovery (Engine Tracker Link StartError FindOutcome)
open Discovery.Interleaving (Call Section registry)

variable {κ : Type}

structure Spot (κ : Type) where
  shared : Shared κ
  task : Task κ
  hold : Option Hold := none

/-- There is no other job than this one. -/
def Spot.state (a : Spot κ) (r : Request κ) (told : List (Nat × κ × Endpoint)) (drained : List (Nat × List Nat)) :
    State κ where
  shared := a.shared
  jobs := [⟨r, a.task⟩]
  holder := a.hold.map fun hold => (0, hold)
  told := told
  drained := drained

/-- A job that goes on alone gets from one spot to another. The calls are whom it tells meanwhile. -/
def Alone (now : Nat) (a : Spot κ) (calls : List (κ × Endpoint)) (b : Spot κ) : Prop :=
  ∀ r told drained, ∃ m drained', (a.state r told drained).run (List.replicate m (.job 0 now)) =
    b.state r (told ++ calls.map fun call => (0, call)) drained'

section

variable {now : Nat} {a b c : Spot κ} {calls calls' : List (κ × Endpoint)} {w : Shared κ} {t : Task κ}

theorem Alone.refl : Alone now a [] a := fun r told drained => ⟨0, drained, by simp⟩

theorem Alone.trans (h : Alone now a calls b) (h' : Alone now b calls' c) : Alone now a (calls ++ calls') c := by
  intro r told drained
  obtain ⟨m, drained', hm⟩ := h r told drained
  obtain ⟨m', drained'', hm'⟩ := h' r _ drained'
  refine ⟨m + m', drained'', ?_⟩
  rw [List.replicate_add, State.run_append, hm, hm', List.map_append, List.append_assoc]

theorem Alone.next (h : Alone now a [] b) (h' : Alone now b calls c) : Alone now a calls c := h.trans h'

theorem alone_free (now : Nat) (w : Shared κ) (t : Task κ) (h : t.enter? w.engine 0 = none) :
    Alone now ⟨w, t, none⟩ (t.told w.engine) ⟨(t.step w now).1, (t.step w now).2, none⟩ := by
  intro r told drained
  exact ⟨1, drained, State.go_free (s := Spot.state ⟨w, t, none⟩ r told drained) (j := ⟨r, t⟩) rfl rfl h now⟩

theorem alone_enter (now : Nat) (w : Shared κ) (t : Task κ) {o : Outcome κ} (h : t.enter? w.engine 0 = some o) :
    Alone now ⟨w, t, none⟩ [] ⟨{ w with engine := o.engine }, o.task, o.hold⟩ := by
  intro r told drained
  have hgo := State.go_enter (s := Spot.state ⟨w, t, none⟩ r told drained) (j := ⟨r, t⟩) rfl rfl h now
  refine ⟨1, drained ++ ((t.drained w.engine).map fun links => (0, links)).toList, hgo.trans ?_⟩
  rw [List.map_nil, List.append_nil]
  rfl

theorem alone_hold (now : Nat) (w : Shared κ) (hold : Hold) :
    Alone now ⟨w, t, some hold⟩ [] ⟨{ w with engine := (hold.step w.engine 0 now).engine },
      (hold.step w.engine 0 now).task, (hold.step w.engine 0 now).hold⟩ := by
  intro r told drained
  have hgo := State.go_hold (s := Spot.state ⟨w, t, some hold⟩ r told drained) (j := ⟨r, t⟩) rfl rfl now
  refine ⟨1, drained, hgo.trans ?_⟩
  rw [List.map_nil, List.append_nil]
  rfl

end

def IsPast : Call κ → Prop
  | .find .. => False
  | .lookUp .. => False
  | _ => True

theorem past_step {c : Call κ} (h : IsPast c) (e : Engine κ) : IsPast (c.step e).2 := by
  cases c with
  | find | lookUp => exact h.elim
  | close links limit => cases links <;> trivial
  | _ => trivial

theorem past_enter {c : Call κ} {e : Engine κ} {i : Nat} {o : Discovery.Interleaving.Outcome κ}
    (ho : c.enter? e i = some o) : IsPast o.call := by
  cases c with
  | submit query =>
    simp only [Call.enter?] at ho
    split at ho <;> cases ho <;> trivial
  | sight origin peer endpoint =>
    simp only [Call.enter?] at ho
    split at ho <;> cases ho <;> trivial
  | drain limit =>
    cases ho
    trivial
  | _ => cases ho

theorem past_section (sec : Section) (e : Engine κ) (i now : Nat) : IsPast (sec.step e i now).call := by
  cases sec with
  | enqueue | greet => trivial
  | dispatch query links => cases links <;> trivial
  | register origin peer endpoint =>
    simp only [Section.step]
    split <;> trivial
  | release t replaced =>
    simp only [Section.step]
    split <;> trivial

theorem alone_go (now : Nat) (w : Shared κ) {e : Engine κ} {c : Call κ} (hc : IsPast c) (hold : Option Section)
    (log : List Discovery.Interleaving.Event) : ∃ e' c', ∃ hold' : Option Section, ∃ log',
      Discovery.Interleaving.State.go ⟨e, [c], hold.map fun sec => (0, sec), log⟩ ⟨0, now⟩ =
        ⟨e', [c'], hold'.map fun sec => (0, sec), log'⟩ ∧ IsPast c' ∧
      Alone now ⟨{ w with engine := e }, .call c, hold.map .call⟩ []
        ⟨{ w with engine := e' }, .call c', hold'.map .call⟩ := by
  cases hold with
  | some sec =>
    exact ⟨_, _, _, log ++ (sec.step e 0 now).events, rfl, past_section sec e 0 now,
      alone_hold now { w with engine := e } (.call sec)⟩
  | none =>
    cases ho : c.enter? e 0 with
    | some o =>
      have hh : (Task.call c).enter? e 0 = some (.ofCall o) := by simp [Task.enter?, ho]
      refine ⟨o.engine, o.call, o.hold, log ++ o.events, ?_, past_enter ho, alone_enter now { w with engine := e } _ hh⟩
      simp [Discovery.Interleaving.State.go, Discovery.Interleaving.State.settle, ho]
    | none =>
      have hh : (Task.call c).enter? e 0 = none := by simp [Task.enter?, ho]
      have hfree := alone_free now { w with engine := e } _ hh
      have htold : (Task.call c).told e = [] := by
        cases c with
        | lookUp => exact hc.elim
        | _ => rfl
      rw [htold] at hfree
      refine ⟨(c.step e).1, (c.step e).2, none, log, ?_, past_step hc e, hfree⟩
      simp [Discovery.Interleaving.State.go, Discovery.Interleaving.State.goFree, ho]

theorem alone_call {now : Nat} (w : Shared κ) {e e' : Engine κ} {c c' : Call κ} {hold hold' : Option Section}
    (hc : IsPast c) (h : Discovery.Interleaving.Alone now e c hold e' c' hold') :
    Alone now ⟨{ w with engine := e }, .call c, hold.map .call⟩ []
      ⟨{ w with engine := e' }, .call c', hold'.map .call⟩ := by
  obtain ⟨m, log', hm⟩ := h []
  clear h
  generalize ([] : List Discovery.Interleaving.Event) = log at hm
  induction m generalizing e c hold log with
  | zero =>
    obtain ⟨rfl, hcalls, hholder, -⟩ := Discovery.Interleaving.State.mk.inj hm
    obtain rfl : c = c' := List.head_eq_of_cons_eq hcalls
    obtain rfl : hold = hold' := Option.map_injective (fun _ _ hh => (Prod.mk.inj hh).2) hholder
    exact .refl
  | succ m ih =>
    obtain ⟨e₁, c₁, hold₁, log₁, hgo, hc₁, halone⟩ := alone_go now w hc hold log
    rw [List.replicate_succ, Discovery.Interleaving.State.run_cons, hgo] at hm
    exact halone.next (ih hc₁ log₁ hm)

/-- A query that nothing comes between tells whom `Engine.find` says. -/
theorem find_alone (now : Nat) (w : Shared κ) (facts : FactSet) (k : κ) :
    Alone now ⟨w, (Request.find facts k).task w.engine.self, none⟩
      ((w.engine.find facts k).2.2.map fun endpoint => (k, endpoint))
      ⟨{ w with engine := (w.engine.find facts k).1 }, .call (.done (some (w.engine.find facts k).2.1)), none⟩ := by
  have hfind : Alone now ⟨w, .call (.find facts k), none⟩ []
      ⟨w, .call (if w.engine.stopped then .done (some .stopped) else .lookUp facts k), none⟩ :=
    alone_free now w (.call (.find facts k)) rfl
  have hlook := alone_free now w (.call (.lookUp facts k)) rfl
  rcases Engine.find_cases w.engine facts k with ⟨hs, h⟩ | ⟨hs, hq, h⟩ | ⟨hs, hq, h⟩
  · rw [h]
    rw [if_pos hs] at hfind
    exact hfind
  · rw [h]
    rw [if_neg (by simp [hs])] at hfind
    have hstep : (Call.lookUp facts k).step w.engine =
        (w.engine, .done (some (.local (w.engine.directory.query facts).length))) := by
      obtain ⟨found, rest, hl⟩ := List.exists_cons_of_ne_nil hq
      simp [Call.step, hl]
    simp only [Task.step, hstep] at hlook
    exact hfind.next hlook
  · rw [h]
    rw [if_neg (by simp [hs])] at hfind
    have hstep : (Call.lookUp facts k).step w.engine = (w.engine, .number facts k) := by simp [Call.step, hq]
    simp only [Task.step, Task.told, hstep, hq] at hlook
    exact (hfind.next hlook).next
      (alone_call w (c := .number ..) trivial (Discovery.Interleaving.alone_number now w.engine facts k))

theorem beacon_alone (now : Nat) (w : Shared κ) (b : Beacon) :
    Alone now ⟨w, (Request.beacon b).task w.engine.self, none⟩ []
      ⟨{ w with engine := w.engine.onBeacon b now }, .call (.done none), none⟩ := by
  simp only [Request.task, Discovery.Interleaving.Request.call, Engine.onBeacon]
  split
  · exact .refl
  · exact alone_call w (c := .sight ..) trivial
      (Discovery.Interleaving.sight_alone now w.engine .beacon b.peer b.endpoint)

theorem hello_alone (now : Nat) (w : Shared κ) (sender : Bytes) (address : String) (port : UInt16) :
    Alone now ⟨w, (Request.hello sender address port).task w.engine.self, none⟩ []
      ⟨{ w with engine := w.engine.onHello sender address port now }, .call (.done none), none⟩ := by
  simp only [Request.task, Discovery.Interleaving.Request.call, Engine.onHello]
  cases PeerId.ofBytes? sender with
  | none => exact .refl
  | some peer =>
    dsimp only
    split
    · exact .refl
    · exact alone_call w (c := .sight ..) trivial
        (Discovery.Interleaving.sight_alone now w.engine .hello peer (.tcp address port))

theorem alone_announceAll (now : Nat) (w : Shared κ) (facts : FactSet) (ts : List Tracker) (count : Nat) :
    Alone now ⟨w, .call .inside, some (.announce facts (ts.map fun t => t.link) count)⟩ []
      ⟨{ w with engine := (w.engine.announceAll facts ts).1 }, .announced ((w.engine.announceAll facts ts).2 + count),
        none⟩ := by
  induction ts generalizing w count with
  | nil =>
    rw [Engine.announceAll, Nat.zero_add]
    exact alone_hold now w (.announce facts [] count)
  | cons t ts ih =>
    have hstep := alone_hold now w (t := .call .inside)
      (.announce facts ((t :: ts).map fun t => t.link) count)
    refine hstep.next ?_
    have hrest := ih { w with engine := (w.engine.announceTo facts t.link).1 }
      (if (w.engine.announceTo facts t.link).2 then count + 1 else count)
    have hcount : ∀ (accepted : Bool) (n : Nat),
        (if accepted then n + 1 else n) + count = n + if accepted then count + 1 else count := by
      intro accepted n
      cases accepted with
      | false => rfl
      | true => exact Nat.succ_add_eq_add_succ n count
    simp only [Engine.announceAll, hcount]
    exact hrest

theorem announce_alone (now : Nat) (w : Shared κ) (facts : FactSet) :
    Alone now ⟨w, .announce facts, none⟩ []
      ⟨{ w with engine := (w.engine.announce facts).1 }, .announced (w.engine.announce facts).2, none⟩ := by
  have hlook : Alone now ⟨w, .announce facts, none⟩ []
      ⟨w, if w.engine.stopped then .announced 0 else .spread facts, none⟩ := alone_free now w (.announce facts) rfl
  rw [Engine.announce]
  by_cases hs : w.engine.stopped = true
  · rw [if_pos hs] at hlook ⊢
    exact hlook
  · rw [if_neg hs] at hlook ⊢
    have henter : Alone now ⟨w, .spread facts, none⟩ []
        ⟨w, .call .inside, some (.announce facts (registry w.engine) 0)⟩ := alone_enter now w (.spread facts) rfl
    exact (hlook.next henter).next (alone_announceAll now w facts w.engine.trackers 0)

def sharedOf (n : Node) (air : Air) (subscriber : Nat) : Shared Node.Asker :=
  { engine := n.engine, air, hosted := n.hosted, subscriber }

theorem step_host (n : Node) (air : Air) (subscriber now : Nat) (facts : FactSet) :
    (Task.host facts).step (sharedOf n air subscriber) now =
      (sharedOf (Fleet.takeOn n facts) air subscriber, .note facts) := by
  by_cases hf : facts ∈ n.hosted
  · simp [Task.step, sharedOf, Fleet.takeOn, hf]
  · simp [Task.step, sharedOf, Fleet.takeOn, hf, Node.engine]

theorem step_note (n : Node) (air : Air) (subscriber now : Nat) (facts : FactSet) :
    (Task.note facts).step (sharedOf n air subscriber) now =
      (sharedOf (Fleet.noteOwn n facts) air subscriber, .announce facts) := by
  simp only [Task.step]
  split
  · next ho =>
    have hn : Fleet.noteOwn n facts = n := by rw [Fleet.noteOwn, show n.engine.endpoint = none from ho]
    rw [hn]
  · next own ho =>
    have hn : Fleet.noteOwn n facts = n.note own facts := by
      rw [Fleet.noteOwn, show n.engine.endpoint = some own from ho]
    rw [hn]
    rfl

theorem host_alone (now : Nat) (n : Node) (air : Air) (subscriber : Nat) (facts : FactSet) :
    Alone now ⟨sharedOf n air subscriber, .host facts, none⟩ []
      ⟨sharedOf (n.announceLocal facts).1 air subscriber, .announced (n.announceLocal facts).2, none⟩ := by
  have hhost := alone_free now (sharedOf n air subscriber) (.host facts) rfl
  rw [step_host] at hhost
  have hnote := alone_free now (sharedOf (Fleet.takeOn n facts) air subscriber) (.note facts) rfl
  rw [step_note] at hnote
  exact (hhost.next hnote).next (announce_alone now (sharedOf _ air subscriber) facts)

theorem alone_tell (now : Nat) (w : Shared κ) (t : Tracker) (services : List FactSet) :
    Alone now ⟨w, .tell t services, none⟩ []
      ⟨{ w with engine := services.foldl (fun e facts => (e.announceTo facts t.link).1) w.engine }, .pump, none⟩ := by
  induction services generalizing w with
  | nil => exact alone_free now w (.tell t []) rfl
  | cons facts services ih =>
    have hstep : Alone now ⟨w, .tell t (facts :: services), none⟩ []
        ⟨{ w with engine := (w.engine.announceTo facts t.link).1 }, .tell t services, none⟩ :=
      alone_free now w (.tell t (facts :: services)) rfl
    exact hstep.next (ih _)

theorem pump_alone (now : Nat) (n : Node) (air : Air) {subscriber : Nat} {e : Engine Node.Asker} {t : Tracker}
    (h : n.engine.takeNext? subscriber = some (e, t)) :
    Alone now ⟨sharedOf n air subscriber, .pump, none⟩ []
      ⟨sharedOf ((n.setEngine e).announceHostedTo t) air subscriber, .pump, none⟩ := by
  have htake := alone_free now (sharedOf n air subscriber) .pump rfl
  simp only [Task.step, sharedOf, h] at htake
  have hinform : Alone now ⟨sharedOf (n.setEngine e) air subscriber, .inform t, none⟩ []
      ⟨sharedOf (n.setEngine e) air subscriber, .tell t n.hosted, none⟩ :=
    alone_free now (sharedOf (n.setEngine e) air subscriber) (.inform t) rfl
  exact (htake.next hinform).next (alone_tell now (sharedOf (n.setEngine e) air subscriber) t n.hosted)

/-- The station after a start of the engine. -/
def Opening.air (o : Opening) (now : Nat) (self : PeerId) (a : Air) : Air :=
  match o.listenFault with
  | some _ => a
  | none =>
    if o.active ∧ o.sendFault = none then (a.listen o.capacity).broadcast now self o.own.port else a.listen o.capacity

theorem alone_listen (now : Nat) (w : Shared κ) (o : Opening) :
    Alone now ⟨w, .listen o, none⟩ []
      ⟨{ w with air := o.air now w.engine.self w.air }, .started (o.beacons.map fun _ => o.own), none⟩ := by
  have hlisten := alone_free now w (.listen o) rfl
  have hbroadcast := alone_free now { w with air := w.air.listen o.capacity } (.broadcast o) rfl
  unfold Opening.air Opening.beacons
  cases hl : o.listenFault with
  | some reason =>
    simp only [Task.step, hl] at hlisten
    exact hlisten
  | none =>
    cases ha : o.active with
    | false =>
      simp only [Task.step, hl, ha] at hlisten
      exact hlisten
    | true =>
      simp only [Task.step, hl, ha] at hlisten
      refine hlisten.next ?_
      cases hsend : o.sendFault with
      | some reason =>
        simp only [Task.step, hsend] at hbroadcast
        exact hbroadcast
      | none =>
        simp only [Task.step, hsend] at hbroadcast
        exact hbroadcast

theorem start_alone (now : Nat) (w : Shared κ) (o : Opening) :
    Alone now ⟨w, .start o, none⟩ []
      ⟨{ w with
          engine := (w.engine.start o.bound o.found o.beacons).1
          air := if w.engine.started then w.air else o.air now w.engine.self w.air },
        .started (w.engine.start o.bound o.found o.beacons).2, none⟩ := by
  have hlook := alone_free now w (.start o) rfl
  by_cases hs : w.engine.started = true
  · simp only [Task.step, if_pos hs] at hlook
    simp only [Engine.start, if_pos hs]
    exact hlook
  · simp only [Task.step, if_neg hs] at hlook
    simp only [Engine.start, if_neg hs]
    have hname := alone_free now { w with engine := { w.engine with started := true } } (.name o) rfl
    exact (hlook.next hname).next
      (alone_listen now { w with engine := { w.engine with started := true, endpoint := some o.own } } o)

theorem alone_await (now : Nat) (w : Shared κ) (loops : List Nat) (limit : Nat) :
    Alone now ⟨w, .await loops limit, none⟩ []
      ⟨{ w with air := loops.foldl Air.abort w.air }, .call (.drain limit), none⟩ := by
  induction loops generalizing w with
  | nil => exact alone_free now w (.await [] limit) rfl
  | cons loop loops ih =>
    have hstep : Alone now ⟨w, .await (loop :: loops) limit, none⟩ []
        ⟨{ w with air := w.air.abort loop }, .await loops limit, none⟩ :=
      alone_free now w (.await (loop :: loops) limit) rfl
    exact hstep.next (ih _)

/-- A shutdown that nothing comes between. The loops that nobody has waited for have no time to end by themselves. -/
theorem shutdown_alone (now : Nat) (w : Shared κ) (limit : Nat) :
    Alone now ⟨w, .stop limit, none⟩ []
      ⟨{ w with engine := w.engine.shutdown limit, air := w.air.unjoined.foldl Air.abort w.air.stop.join },
        .call (.done none), none⟩ := by
  let w₁ : Shared κ := { w with engine := w.engine.stop }
  let w₂ : Shared κ := { w₁ with air := w.air.stop.join }
  have hstop : Alone now ⟨w, .stop limit, none⟩ [] ⟨w₁, .hush limit, none⟩ :=
    alone_free now w (.stop limit) rfl
  have hhush : Alone now ⟨w₁, .hush limit, none⟩ [] ⟨{ w₁ with air := w.air.stop }, .join limit, none⟩ :=
    alone_free now w₁ (.hush limit) rfl
  have hjoin : Alone now ⟨{ w₁ with air := w.air.stop }, .join limit, none⟩ [] ⟨w₂, .await w.air.unjoined limit, none⟩ :=
    alone_free now { w₁ with air := w.air.stop } (.join limit) rfl
  have hdrain := alone_call { w₂ with air := w.air.unjoined.foldl Air.abort w.air.stop.join } (c := .drain limit) trivial
    (Discovery.Interleaving.alone_drain now w.engine.stop limit)
  exact (((hstop.next hhush).next hjoin).next (alone_await now w₂ w.air.unjoined limit)).next hdrain

theorem foldl_note_eq (own : Endpoint) (services : List FactSet) (n : Node) : ∃ directory,
    (services.foldl (fun n facts => n.note own facts) n).engine = { n.engine with directory } ∧
      (services.foldl (fun n facts => n.note own facts) n).pumps = n.pumps := by
  induction services generalizing n with
  | nil => exact ⟨n.engine.directory, rfl, rfl⟩
  | cons facts services ih =>
    obtain ⟨directory, hengine, hpumps⟩ := ih (n.note own facts)
    exact ⟨directory, hengine, hpumps⟩

/-- A start that succeeds makes a node that has discovered nobody, with its pump listening. -/
theorem isFresh_of_start {n n' : Node} {network network' : Net.Network} {found : Option Net.IpAddr} {own : Endpoint}
    (h : n.start network found (.ok ()) = (network', n', .ok own)) (hlinks : n.engine.links = [])
    (htrackers : n.engine.trackers = []) (hstopped : n.engine.stopped = false) (air : Air) :
    ∃ listener subscriber, n'.pumps = some (listener, subscriber) ∧ IsFresh { shared := sharedOf n' air subscriber } := by
  obtain ⟨-, mailbox, bound, -, -, rfl⟩ := Fleet.SoundNode.start_cases h
  obtain ⟨directory, hengine, hpumps⟩ := foldl_note_eq own n.hosted (Fleet.SoundNode.begun n mailbox own)
  have hwaits : (Fleet.SoundNode.begun n mailbox own).engine.subscribers[n.engine.subscribers.length]? =
      some { live := true, queue := [] } := List.getElem?_concat_length
  refine ⟨mailbox.addListener.2, n.engine.subscribers.length, hpumps, fun j hj => (nomatch hj), rfl, ?_, ?_, ?_, ?_⟩
  · exact (congrArg Engine.links hengine).trans hlinks
  · exact (congrArg Engine.trackers hengine).trans htrackers
  · exact (congrArg Engine.stopped hengine).trans hstopped
  · change (Node.engine _).subscribers[n.engine.subscribers.length]? = _
    rw [hengine]
    exact hwaits

end Activity
end PeerDiscovery
