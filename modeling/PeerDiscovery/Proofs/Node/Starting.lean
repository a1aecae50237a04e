import Mathlib.Data.List.Induction
import PeerDiscovery.Proofs.Activity.Alone
import PeerDiscovery.Proofs.Mailbox.Acts

/-! Starts that fail.
A node and its engine note that they were started before they know whether that goes well, and nothing takes the note
back: `failed_start_final`. Only the network is as if nothing had been tried, and the mailbox is closed again. -/
namespace PeerDiscovery
namespace Node

open Discovery (Engine Operation StartError)
open Net (Network)

variable {n n' : Node} {net net' : Network} {found : Option Net.IpAddr} {beacons : Except StartError Unit}

/-- What is done to a node, what comes to it and what it does by itself, each on the network as it is by then. -/
inductive Deed where
  | start (network : Network) (found : Option Net.IpAddr) (beacons : Except StartError Unit)
  | host (facts : FactSet)
  | find (facts : FactSet) (asker : Asker)
  | engine (op : Operation Asker)
  | mailbox (a : Mailbox.Act)
  | shutdown (network : Network) (limit : Nat)
  | release
  | work (network : Network) (now : Nat)

def act (n : Node) : Deed → Node
  | .start network found beacons => (n.start network found beacons).2.1
  | .host facts => (n.announceLocal facts).1
  | .find facts asker => (n.find facts asker).1
  | .engine op => n.setEngine (n.engine.perform op)
  | .mailbox a => n.setMailbox (n.mailbox.act a)
  | .shutdown network limit => (n.shutdown network limit).2
  | .release => n.release
  | .work network now =>
    match n.work? network now with
    | none => n
    | some (_, n', _) => n'

def after (n : Node) (deeds : List Deed) : Node := deeds.foldl act n

theorem after_concat (n : Node) (deeds : List Deed) (d : Deed) : n.after (deeds ++ [d]) = (n.after deeds).act d :=
  List.foldl_append

theorem start_of_used (h : n.used = true) (net : Network) (found : Option Net.IpAddr)
    (beacons : Except StartError Unit) : n.start net found beacons = (net, n, .error .alreadyStarted) := if_pos h

/-- A node that was started before, and the endpoint that it has if its engine was. -/
structure Spent (n n' : Node) : Prop where
  used : n'.used = true
  endpoint : n.engine.started = true → n'.engine.started = true ∧ n'.engine.endpoint = n.engine.endpoint

theorem Spent.of_continues {asked : List (CorrelationId × Asker)} (h : n.used = true)
    (hc : Fleet.Continues n n' asked) : Spent n n' :=
  ⟨hc.used.trans h, fun hs => ⟨hc.engine.started.trans hs, hc.engine.endpoint⟩⟩

theorem spent_act (h : n.used = true) (d : Deed) : Spent n (n.act d) := by
  cases d with
  | start network found beacons =>
    rw [act, start_of_used h]
    exact ⟨h, fun hs => ⟨hs, rfl⟩⟩
  | host facts => exact .of_continues h (Fleet.continues_announceLocal n facts)
  | find facts asker => exact .of_continues h (.find n facts asker)
  | engine op => exact ⟨h, fun hs => Engine.started_perform hs op⟩
  | mailbox a => exact .of_continues h (.setMailbox n _)
  | shutdown network limit => exact .of_continues h (Fleet.continues_shutdown network n limit)
  | release => exact .of_continues h (Fleet.continues_release n)
  | work network now =>
    simp only [act]
    split
    · exact ⟨h, fun hs => ⟨hs, rfl⟩⟩
    · next hw =>
      obtain ⟨asked, hc⟩ := Fleet.continues_work? hw
      exact .of_continues h hc

theorem spent_after (h : n.used = true) (deeds : List Deed) : Spent n (n.after deeds) := by
  induction deeds using List.reverseRecOn with
  | nil => exact ⟨h, fun hs => ⟨hs, rfl⟩⟩
  | append_singleton deeds d ih =>
    rw [after_concat]
    have hd := spent_act ih.used d
    refine ⟨hd.used, fun hs => ?_⟩
    obtain ⟨hstarted, hendpoint⟩ := ih.endpoint hs
    exact ⟨(hd.endpoint hstarted).1, (hd.endpoint hstarted).2.trans hendpoint⟩

/-- A node whose mailbox cannot be opened only notes the try. One whose engine cannot be started closes its mailbox
again, and leaves the engine as that start has left it. -/
theorem start_error_cases {err : Error} (h : n.start net found beacons = (net', n', .error err)) :
    (err = .alreadyStarted ∧ n.used = true ∧ net' = net ∧ n' = n) ∨
    (∃ e, err = .mailbox e ∧ n.used = false ∧ net' = net ∧ n' = { n with used := true } ∧
      (e ≠ .alreadyOpen → n.mailbox.state = .closed)) ∨
    ∃ e, ∃ addr : Net.SocketAddr, err = .discovery e ∧ n.used = false ∧ net' = net ∧
      (n.engine.start (n.mailbox.requested.withPort addr.port) found beacons).2 = .error e ∧
      n' = ({ n with used := true }.setEngine
        (n.engine.start (n.mailbox.requested.withPort addr.port) found beacons).1).setMailbox
          { n.mailbox.openedAt addr with state := .closed } := by
  by_cases hused : n.used = true
  · rw [start_of_used hused] at h
    cases h
    exact .inl ⟨rfl, hused, rfl, rfl⟩
  · have hmailbox : Node.mailbox { n with used := true } = n.mailbox := rfl
    rw [Node.start, if_neg hused] at h
    dsimp only at h
    rw [hmailbox] at h
    replace hused : n.used = false := by simpa using hused
    rcases n.mailbox.openOn_cases net with ⟨e, ho, hclosed⟩ | ⟨addr, ho, -, hfree, haddr⟩
    · rw [ho] at h
      cases h
      exact .inr (.inl ⟨e, rfl, hused, rfl, rfl, hclosed⟩)
    · rw [ho] at h
      dsimp only at h
      split at h
      · next engine e hstart =>
        change (((n.mailbox.openedAt addr).closeOn (net.bind (n.mailbox.site addr))).1, Node.setMailbox (Node.setEngine
          { n with used := true } engine) ((n.mailbox.openedAt addr).closeOn (net.bind (n.mailbox.site addr))).2, _) = _ at h
        rw [Mailbox.closeOn_openedAt hfree haddr] at h
        cases h
        change n.engine.start _ found beacons = _ at hstart
        exact .inr (.inr ⟨e, addr, rfl, hused, rfl, congrArg Prod.snd hstart, by rw [hstart]⟩)
      · cases h

/-- What a start that fails leaves of a node that was not started before. -/
structure Failed (n n' : Node) (found : Option Net.IpAddr) (err : Error) : Prop where
  unused : n.used = false
  used : n'.used = true
  pumps : n'.pumps = n.pumps
  hosted : n'.hosted = n.hosted
  directory : n'.engine.directory = n.engine.directory
  /-- The engine is left alone only where the mailbox could not be opened. -/
  cause :
    (∃ e, err = .mailbox e ∧ n'.mailbox = n.mailbox ∧ (e ≠ .alreadyOpen → n'.mailbox.state = .closed) ∧
      n'.engine = n.engine) ∨
    ∃ e bound, err = .discovery e ∧ n'.mailbox.state = .closed ∧ n'.mailbox.bound = some bound ∧
      n'.engine.started = true ∧ (n.engine.started = false → n'.engine.endpoint = some (Engine.advertised bound found))

theorem failed_of_start {err : Error} (h : n.start net found beacons = (net', n', .error err))
    (herr : err ≠ .alreadyStarted) : net' = net ∧ Failed n n' found err := by
  rcases start_error_cases h with ⟨rfl, -⟩ | ⟨e, rfl, hused, hnet, rfl, hclosed⟩ | ⟨e, addr, rfl, hused, hnet, -, rfl⟩
  · exact absurd rfl herr
  · exact ⟨hnet, hused, rfl, rfl, rfl, rfl, .inl ⟨e, rfl, rfl, hclosed, rfl⟩⟩
  · have hengine := n.engine.start_eq (n.mailbox.requested.withPort addr.port) found beacons
    refine ⟨hnet, hused, rfl, rfl, rfl, (congrArg Engine.directory hengine).trans rfl,
      .inr ⟨e, _, rfl, rfl, rfl, (congrArg Engine.started hengine).trans rfl, fun hs => ?_⟩⟩
    refine (congrArg Engine.endpoint hengine).trans (if_neg ?_)
    rw [hs]
    nofun

open Activity (Shared Opening Alone)
open Beacon (Air)
open Beacon.Air (Begun)

theorem air_of_beacons {o : Opening} {err : StartError} (h : o.beacons = .error err) (now : Nat) (self : PeerId)
    (a : Air) :
    (∃ reason, err = .listen reason ∧ o.air now self a = a) ∨
      ∃ reason, err = .broadcast reason ∧ o.air now self a = a.listen o.capacity := by
  unfold Opening.beacons at h
  cases hl : o.listenFault with
  | some reason =>
    simp only [hl] at h
    cases h
    exact .inl ⟨reason, rfl, by simp only [Opening.air, hl]⟩
  | none =>
    cases ha : o.active with
    | false => simp [hl, ha] at h
    | true =>
      cases hs : o.sendFault with
      | none => simp [hl, ha, hs] at h
      | some reason =>
        simp only [hl, ha, hs, if_true] at h
        cases h
        exact .inr ⟨reason, rfl, by simp [Opening.air, hl, hs]⟩

/-- A start of an engine or of a node that fails is the last one. An engine keeps its flag and its endpoint, and where
only sending fails it goes on listening. A node leaves the network as it was, closes its mailbox and runs no pump, but
is not started again whatever happens. -/
theorem failed_start_final (κ : Type) :
    (∀ (now : Nat) (w : Shared κ) (o : Opening) (err : StartError), w.engine.started = false →
      o.beacons = .error err →
      ∃ w', Alone now ⟨w, .start o, none⟩ [] ⟨w', .started (.error err), none⟩ ∧
        w'.engine = { w.engine with started := true, endpoint := some o.own } ∧
        ((∃ reason, err = .listen reason ∧ w'.air = w.air) ∨
          ∃ reason, err = .broadcast reason ∧ Begun w.air w'.air (.receiver { capacity := o.capacity })) ∧
        ∀ ops bound found beacons,
          (w'.engine.after ops).start bound found beacons = (w'.engine.after ops, .error .alreadyStarted) ∧
          (w'.engine.after ops).endpoint = some o.own) ∧
    ∀ (n n' : Node) (net net' : Network) found beacons err, n.start net found beacons = (net', n', .error err) →
      err ≠ .alreadyStarted →
      net' = net ∧ Failed n n' found err ∧
        ∀ deeds net₂ found₂ beacons₂,
          (n'.after deeds).start net₂ found₂ beacons₂ = (net₂, n'.after deeds, .error .alreadyStarted) ∧
          (n'.engine.started = true → (n'.after deeds).engine.endpoint = n'.engine.endpoint) := by
  constructor
  · intro now w o err hw herr
    have hstart : w.engine.start o.bound o.found o.beacons =
        ({ w.engine with started := true, endpoint := some o.own }, .error err) := by
      rw [Engine.start, hw, herr]
      rfl
    have halone := Activity.start_alone now w o
    rw [hstart, hw] at halone
    refine ⟨_, halone, rfl, ?_, fun ops bound found beacons => ?_⟩
    · rcases air_of_beacons herr now w.engine.self w.air with ⟨reason, he, ha⟩ | ⟨reason, he, ha⟩
      · exact .inl ⟨reason, he, ha⟩
      · refine .inr ⟨reason, he, ?_⟩
        change Begun w.air (o.air now w.engine.self w.air) _
        rw [ha]
        exact Beacon.Air.begun_listen w.air o.capacity
    · obtain ⟨hstarted, hendpoint⟩ := Engine.started_after (e := { w.engine with started := true, endpoint := some o.own })
        rfl ops
      exact ⟨Engine.start_of_started hstarted bound found beacons, hendpoint⟩
  · intro n n' net net' found beacons err h herr
    obtain ⟨hnet, hfailed⟩ := failed_of_start h herr
    refine ⟨hnet, hfailed, fun deeds net₂ found₂ beacons₂ => ?_⟩
    have hspent := spent_after hfailed.used deeds
    exact ⟨start_of_used hspent.used net₂ found₂ beacons₂, fun hs => (hspent.endpoint hs).2⟩

/-- The socket that a node wants. -/
def wanted : Net.SocketAddr := ⟨.v4 ⟨127, 0, 0, 1⟩, 9300⟩

/-- A network on which somebody else has it. -/
def taken : Network := { up := true, listeners := [{ site := ⟨0, wanted⟩ }] }

def latecomer : Node := new ⟨List.replicate 16 11, rfl⟩ (.tcp "127.0.0.1" 9300) 0 []

/-- An engine that cannot send beacons goes on listening, and a node that comes too late stays closed. -/
theorem failed_start_final_latecomer :
    let w : Shared Unit := { engine := .new ⟨List.replicate 16 11, rfl⟩ 0 ∅, air := { station := { interval := 1000 } } }
    let o : Opening :=
      { bound := .tcp "127.0.0.1" 9300, found := none, capacity := 4, active := true, sendFault := some "no route" }
    let n := (latecomer.start taken none (.ok ())).2.1
    (∃ w', Alone 5 ⟨w, .start o, none⟩ [] ⟨w', .started (.error (.broadcast "no route")), none⟩ ∧
      w'.engine.endpoint = some (.tcp "127.0.0.1" 9300) ∧ ∃ l ∈ w'.air.station.loops, l.IsListening) ∧
    n.mailbox.state = .closed ∧
    ∀ deeds, (n.after deeds).start { up := true } none (.ok ()) = ({ up := true }, n.after deeds, .error .alreadyStarted) := by
  intro w o n
  obtain ⟨hengine, hnode⟩ := failed_start_final Unit
  have hfailed : (latecomer.start taken none (.ok ())).2.2 = .error (.mailbox (.bind wanted "address not available")) := by
    decide +kernel
  refine ⟨?_, by decide +kernel, fun deeds => ?_⟩
  · obtain ⟨w', halone, he, hair, -⟩ := hengine 5 w o (.broadcast "no route") rfl rfl
    refine ⟨w', halone, ?_, ?_⟩
    · rw [he]
      decide +kernel
    · rcases hair with ⟨_, hlisten, -⟩ | ⟨_, -, hbegun⟩
      · cases hlisten
      · refine ⟨.receiver { capacity := o.capacity }, ?_, rfl⟩
        exact hbegun.loops ▸ List.mem_append_right _ List.mem_cons_self
  · obtain ⟨-, -, hlater⟩ := hnode latecomer n taken _ none (.ok ()) _ (Prod.ext rfl (Prod.ext rfl hfailed)) nofun
    exact (hlater deeds { up := true } none (.ok ())).1

/-- The socket becomes free, and a node that was never started could have it. The one that has tried does not get it.
An engine that could not listen is not started once it can, though it has an endpoint. -/
theorem start_not_retried :
    let (net, n, first) := latecomer.start taken none (.ok ())
    let (e, failed) := Engine.start (κ := Unit) (.new ⟨List.replicate 16 11, rfl⟩ 0 ∅) (.tcp "127.0.0.1" 9300) none
      (.error (.listen "address in use"))
    first = .error (.mailbox (.bind wanted "address not available")) ∧
    (n.start (net.unbind ⟨0, wanted⟩) none (.ok ())).2.2 = .error .alreadyStarted ∧
    (latecomer.start (net.unbind ⟨0, wanted⟩) none (.ok ())).2.2 = .ok (.tcp "127.0.0.1" 9300) ∧
    failed = .error (.listen "address in use") ∧ e.endpoint = some (.tcp "127.0.0.1" 9300) ∧
    (e.start (.tcp "127.0.0.1" 9300) none (.ok ())).2 = .error .alreadyStarted := by
  decide +kernel

end Node
end PeerDiscovery
