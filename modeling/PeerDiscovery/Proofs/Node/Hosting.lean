import PeerDiscovery.Proofs.Fleet.Work

/-! Which of its own services a node finds.
The directory has one set of facts for an endpoint, and a node notes all its services at its own endpoint.
So each service takes the place of the one noted before it, and a query is answered with the own endpoint
when the last one has what it asks for: `own_endpoint_found`. -/
namespace PeerDiscovery
namespace Node

open Discovery (Engine)
open Net (Network)

/-- Takes on services one after another. -/
def hostAll (n : Node) (services : List FactSet) : Node :=
  services.foldl (fun n facts => (n.announceLocal facts).1) n

theorem hostAll_cons (n : Node) (facts : FactSet) (services : List FactSet) :
    n.hostAll (facts :: services) = (n.announceLocal facts).1.hostAll services := rfl

/-- A directory in which nothing is noted at any other endpoint than this one. -/
def Holds (d : Directory) (own : Endpoint) (last : Option FactSet) : Prop :=
  d.entries = (last.map fun facts => (own, facts)).toList

theorem Holds.add {d : Directory} {own : Endpoint} {last : Option FactSet} (h : Holds d own last)
    (facts : FactSet) : Holds (d.add own facts) own (some facts) := by
  unfold Holds at h
  cases last <;> simp [Holds, Directory.add, Directory.erase, h]

theorem Holds.query {d : Directory} {own : Endpoint} {last : Option FactSet} (h : Holds d own last)
    (facts : FactSet) :
    d.query facts = if ∃ service, last = some service ∧ service.ContainsAll facts then [own] else [] := by
  unfold Holds at h
  cases last with
  | none => simp [Directory.query, h]
  | some service => by_cases hc : service.ContainsAll facts <;> simp [Directory.query, h, hc]

/-- The engine runs, at this endpoint if it has one, and nothing else wrote the directory. -/
structure Publishes (e : Engine Asker) (endpoint : Option Endpoint) (d : Directory) : Prop where
  stopped : e.stopped = false
  endpoint : e.endpoint = endpoint
  directory : e.directory = d

theorem Publishes.announce {e : Engine Asker} {endpoint : Option Endpoint} {d : Directory}
    (h : Publishes e endpoint d) (facts : FactSet) : Publishes (e.announce facts).1 endpoint d := by
  obtain ⟨k, hk⟩ := Engine.announce_eq e facts
  rw [hk]
  exact ⟨h.stopped, h.endpoint, h.directory⟩

theorem mem_takeOn_iff (n : Node) (facts service : FactSet) :
    service ∈ (Fleet.takeOn n facts).hosted ↔ service ∈ n.hosted ∨ service = facts := by
  unfold Fleet.takeOn
  split
  · next h =>
    constructor
    · exact .inl
    · rintro (hh | rfl)
      · exact hh
      · exact h
  · simp

theorem mem_hostAll_iff (n : Node) (services : List FactSet) (service : FactSet) :
    service ∈ (n.hostAll services).hosted ↔ service ∈ n.hosted ∨ service ∈ services := by
  induction services generalizing n with
  | nil => simp [hostAll]
  | cons facts services ih =>
    have hh : (n.announceLocal facts).1.hosted = (Fleet.takeOn n facts).hosted :=
      Fleet.hosted_noteOwn (Fleet.takeOn n facts) facts
    rw [hostAll_cons, ih, hh, mem_takeOn_iff, List.mem_cons, or_assoc]

theorem engine_takeOn (n : Node) (facts : FactSet) : (Fleet.takeOn n facts).engine = n.engine := by
  unfold Fleet.takeOn
  split <;> rfl

theorem publishes_hostAll_of_none {n : Node} {d : Directory} (h : Publishes n.engine none d)
    (services : List FactSet) : Publishes (n.hostAll services).engine none d := by
  induction services generalizing n with
  | nil => exact h
  | cons facts services ih =>
    rw [hostAll_cons]
    apply ih
    have hn : Fleet.noteOwn (Fleet.takeOn n facts) facts = Fleet.takeOn n facts := by
      rw [Fleet.noteOwn, engine_takeOn, h.endpoint]
    rw [Fleet.announceLocal_eq, hn]
    change Publishes ((Fleet.takeOn n facts).engine.announce facts).1 none d
    rw [engine_takeOn]
    exact h.announce facts

theorem publishes_note {n : Node} {own : Endpoint} {d : Directory} (h : Publishes n.engine (some own) d)
    (facts : FactSet) : Publishes (n.note own facts).engine (some own) (d.add own facts) :=
  ⟨h.stopped, h.endpoint, congrArg (fun d => d.add own facts) h.directory⟩

theorem publishes_hostAll {n : Node} {own : Endpoint} {d : Directory} (h : Publishes n.engine (some own) d)
    (services : List FactSet) :
    Publishes (n.hostAll services).engine (some own) (services.foldl (fun d facts => d.add own facts) d) := by
  induction services generalizing n d with
  | nil => exact h
  | cons facts services ih =>
    rw [hostAll_cons, List.foldl_cons]
    apply ih
    have hn : Fleet.noteOwn (Fleet.takeOn n facts) facts = (Fleet.takeOn n facts).note own facts := by
      rw [Fleet.noteOwn, engine_takeOn, h.endpoint]
    rw [Fleet.announceLocal_eq, hn]
    refine (publishes_note ?_ facts).announce facts
    rw [engine_takeOn]
    exact h

theorem publishes_foldl_note {n : Node} {own : Endpoint} {d : Directory} (h : Publishes n.engine (some own) d)
    (services : List FactSet) :
    Publishes (services.foldl (fun n facts => n.note own facts) n).engine (some own)
      (services.foldl (fun d facts => d.add own facts) d) := by
  induction services generalizing n d with
  | nil => exact h
  | cons facts services ih => exact ih (publishes_note h facts)

theorem holds_foldl_add {d : Directory} {own : Endpoint} {last : Option FactSet} (h : Holds d own last)
    (services : List FactSet) :
    Holds (services.foldl (fun d facts => d.add own facts) d) own (services.getLast?.or last) := by
  induction services generalizing d last with
  | nil => exact h
  | cons facts services ih =>
    have hh := ih (h.add facts)
    rw [Option.or_some] at hh
    rw [List.foldl_cons, List.getLast?_cons, Option.some_or]
    exact hh

/-- After a start that succeeds, all services that the node had before stand noted in their order. -/
theorem publishes_start {n n' : Node} {network network' : Network} {found : Option Net.IpAddr} {own : Endpoint}
    {d : Directory} (h : Publishes n.engine none d) (hs : n.start network found (.ok ()) = (network', n', .ok own)) :
    n'.hosted = n.hosted ∧
      Publishes n'.engine (some own) (n.hosted.foldl (fun d facts => d.add own facts) d) := by
  obtain ⟨-, mailbox, bound, -, -, rfl⟩ := Fleet.SoundNode.start_cases hs
  have hb : Publishes (Fleet.SoundNode.begun n mailbox own).engine (some own) d := ⟨h.stopped, rfl, h.directory⟩
  refine ⟨?_, publishes_foldl_note hb n.hosted⟩
  have hh : ∀ (services : List FactSet) (m : Node),
      (services.foldl (fun n facts => n.note own facts) m).hosted = m.hosted := by
    intro services
    induction services with
    | nil => exact fun _ => rfl
    | cons facts services ih => exact fun m => ih (m.note own facts)
  exact hh n.hosted _

/-- The same question is put to the node itself and, by a peer, through the mailbox. -/
theorem find_of_query {n : Node} (hs : n.engine.stopped = false) {facts : FactSet} {own : Endpoint}
    (hq : n.engine.directory.query facts = [own]) (number : Nat) :
    (n.find facts (.caller number)).2 = (.local 1, [(number, own)]) := by
  have hfind : n.engine.find facts (.caller number) = (n.engine, .local 1, [own]) := by
    simp [Engine.find, hs, hq]
  unfold Node.find
  rw [hfind]
  rfl

theorem reply_of_query {e : Engine Asker} {facts : FactSet} {own : Endpoint}
    (hq : e.directory.query facts = [own]) {m : Envelope} {sender : Bytes} (hm : m.message = .query facts)
    (hsender : m.sender = some sender) (now : Nat) :
    (e.dispatch m now).2.reply = some { m with message := .response [own.text] } := by
  simp [Engine.dispatch, Engine.replyTo, hm, hsender, hq]

/-- A node that has services takes on others, is started with success and takes on more.
The service that was noted last, and no other one, decides which queries its endpoint answers; where it has
all that a query asks for, the node itself and every peer that asks are given that endpoint. -/
theorem own_endpoint_found (self : PeerId) (mailbox : Endpoint) (closeLimit : Nat)
    (services before after : List FactSet) {network network' : Network} {n₁ : Node} {found : Option Net.IpAddr}
    {own : Endpoint} (hs : ((new self mailbox closeLimit services).hostAll before).start network found (.ok ()) =
      (network', n₁, .ok own)) :
    let n := n₁.hostAll after
    let last := (((new self mailbox closeLimit services).hostAll before).hosted ++ after).getLast?
    n.engine.endpoint = some own ∧
    (∀ facts, facts ∈ n.hosted ↔ facts ∈ services ∨ facts ∈ before ∨ facts ∈ after) ∧
    ∀ facts,
      (own ∈ n.engine.directory.query facts ↔ ∃ service, last = some service ∧ service.ContainsAll facts) ∧
      (own ∈ n.engine.directory.query facts →
        (∀ number, (n.find facts (.caller number)).2 = (.local 1, [(number, own)])) ∧
        ∀ (m : Envelope) (sender : Bytes) (now : Nat), m.message = .query facts → m.sender = some sender →
          (n.engine.dispatch m now).2.reply = some { m with message := .response [own.text] }) := by
  intro n last
  have hpub : Publishes (new self mailbox closeLimit services).engine none ∅ := ⟨rfl, rfl, rfl⟩
  obtain ⟨hsame, hstarted⟩ := publishes_start (publishes_hostAll_of_none hpub before) hs
  have hn : Publishes n.engine (some own) _ := publishes_hostAll hstarted after
  have hholds : Holds n.engine.directory own last := by
    rw [hn.directory, ← List.foldl_append]
    have hempty : Holds ∅ own none := rfl
    have hh := holds_foldl_add hempty (((new self mailbox closeLimit services).hostAll before).hosted ++ after)
    rwa [Option.or_none] at hh
  refine ⟨hn.endpoint, fun facts => ?_, fun facts => ?_⟩
  · rw [mem_hostAll_iff, hsame, mem_hostAll_iff, or_assoc]
    rfl
  · have hq := hholds.query facts
    by_cases hl : ∃ service, last = some service ∧ service.ContainsAll facts
    · rw [if_pos hl] at hq
      refine ⟨by simp [hq, hl], fun _ => ⟨find_of_query hn.stopped hq, fun m sender now hm hsender => ?_⟩⟩
      exact reply_of_query hq hm hsender now
    · rw [if_neg hl] at hq
      simp [hq, hl]

/-- A node with two services. -/
def echoAndClock : Node :=
  new ⟨List.replicate 16 4, rfl⟩ (.tcp "127.0.0.1" 9001) 0 [.ofRecords [⟨"name", "echo"⟩], .ofRecords [⟨"name", "clock"⟩]]

/-- The first service of the two is not found, by the node itself or by a peer that asks. -/
theorem echo_not_found :
    let echo : FactSet := .ofRecords [⟨"name", "echo"⟩]
    let query : Envelope := { id := 3, sender := some (List.replicate 16 2), message := .query echo }
    let (_, n, result) := echoAndClock.start { up := true } none (.ok ())
    result = .ok (.tcp "127.0.0.1" 9001) ∧ echo ∈ n.hosted ∧ n.engine.directory.query echo = [] ∧
      (n.find echo (.caller 0)).2 = (.queued 1, []) ∧ (n.engine.dispatch query 5).2.reply = none := by
  decide +kernel

/-- The second one is found, until another one is taken on. -/
theorem own_endpoint_found_clock :
    let clock : FactSet := .ofRecords [⟨"name", "clock"⟩]
    let bell : FactSet := .ofRecords [⟨"name", "bell"⟩]
    let (_, n, result) := echoAndClock.start { up := true } none (.ok ())
    result = .ok (.tcp "127.0.0.1" 9001) ∧
      (n.find clock (.caller 4)).2 = (.local 1, [(4, .tcp "127.0.0.1" 9001)]) ∧
      .tcp "127.0.0.1" 9001 ∉ (n.hostAll [bell]).engine.directory.query clock := by
  intro clock bell
  have hr : (echoAndClock.start { up := true } none (.ok ())).2.2 = .ok (.tcp "127.0.0.1" 9001) := by
    decide +kernel
  have hs : (echoAndClock.hostAll []).start { up := true } none (.ok ()) =
      ((echoAndClock.start { up := true } none (.ok ())).1, (echoAndClock.start { up := true } none (.ok ())).2.1,
        .ok (.tcp "127.0.0.1" 9001)) := by
    rw [← hr]
    rfl
  obtain ⟨-, -, hbefore⟩ := own_endpoint_found _ _ _ _ [] [] hs
  obtain ⟨-, -, hafter⟩ := own_endpoint_found _ _ _ _ [] [bell] hs
  refine ⟨hr, ((hbefore clock).2 ((hbefore clock).1.2 ?_)).1 4, fun hmem => ?_⟩
  · exact ⟨clock, rfl, by decide⟩
  · obtain ⟨service, hlast, hcontains⟩ := (hafter clock).1.1 hmem
    obtain rfl : bell = service := Option.some.inj (by simpa using hlast)
    exact absurd hcontains (by decide)

end Node
end PeerDiscovery
