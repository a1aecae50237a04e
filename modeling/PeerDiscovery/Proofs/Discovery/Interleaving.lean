import PeerDiscovery.Proofs.Discovery.Sections

/-! Concurrent calls on one engine.
A call is cut into the steps that other calls can come between. The registry has a lock, and what a call
does while it holds the lock is cut into steps too: the other calls go on meanwhile, except for those
that want the lock. `find_alone`, `sight_alone` and `shutdown_alone` say that a call which nothing comes
between does what the operation of the engine does. -/
namespace PeerDiscovery
namespace Discovery
namespace Interleaving

/-- A call that does not hold the lock, by what it does next. -/
inductive Call (κ : Type) where
  /-- Looks whether the engine has stopped. -/
  | find (facts : FactSet) (asker : κ)
  /-- Asks the directory. -/
  | lookUp (facts : FactSet) (asker : κ)
  /-- Takes an id. -/
  | number (facts : FactSet) (asker : κ)
  /-- Remembers whom to tell. -/
  | remember (query : Envelope) (asker : κ)
  /-- Wants the lock, to submit a query. -/
  | submit (query : Envelope)
  /-- Wants the lock, to take in a sighting. -/
  | sight (origin : Origin) (peer : PeerId) (endpoint : Endpoint)
  /-- Sets the stop flag. -/
  | stop (limit : Nat)
  /-- Wants the lock, to empty the registry. -/
  | drain (limit : Nat)
  /-- Closes links, one after another. -/
  | close (links : List Nat) (limit : Nat)
  /-- Holds the lock. -/
  | inside
  /-- Has returned; a query returns what became of it. -/
  | done (outcome : Option FindOutcome)
  deriving DecidableEq

inductive Section where
  /-- Lets a query wait. -/
  | enqueue (query : Envelope)
  /-- Sends a query to the trackers on some links. -/
  | dispatch (query : Envelope) (links : List Nat)
  /-- Compares a sighting with the registry. -/
  | register (origin : Origin) (peer : PeerId) (endpoint : Endpoint)
  /-- Says hello to a new tracker. -/
  | greet (origin : Origin) (tracker : Tracker) (replaced : List Nat)
  /-- Sends the queries that wait to a new tracker, one after another. -/
  | release (tracker : Tracker) (replaced : List Nat)
  deriving DecidableEq

/-- What happens to a query, and to the registry. -/
inductive Event where
  /-- A call lets its query wait. -/
  | queued (call : Nat) (query : Envelope)
  /-- A call finds trackers on some links for its query. -/
  | dispatched (call : Nat) (query : Envelope) (links : List Nat)
  /-- A tracker with a new link is registered. -/
  | registered (link : Nat)
  deriving DecidableEq

/-- What a step leads to. -/
structure Outcome (κ : Type) where
  engine : Engine κ
  call : Call κ
  hold : Option Section := none
  events : List Event := []

variable {κ : Type}

/-- The links of the trackers. -/
def registry (e : Engine κ) : List Nat := e.trackers.map fun t => t.link

namespace Call

/-- A step that needs no lock. A call that wants the lock, or has returned, does nothing. -/
def step (e : Engine κ) : Call κ → Engine κ × Call κ
  | .find facts k => (e, if e.stopped then .done (some .stopped) else .lookUp facts k)
  | .lookUp facts k =>
    match e.directory.query facts with
    | [] => (e, .number facts k)
    | found => (e, .done (some (.local found.length)))
  | .number facts k => (e.takeId.1, .remember (e.nextQuery facts) k)
  | .remember query k => (e.await query.id k, .submit query)
  | .stop limit => (e.stop, .drain limit)
  | .close [] _ => (e, .done none)
  | .close (n :: links) limit => (e.closeLink n limit, .close links limit)
  | c => (e, c)

def enter? (e : Engine κ) (i : Nat) : Call κ → Option (Outcome κ)
  | .submit query =>
    if e.trackers = [] then some { engine := e, call := .inside, hold := some (.enqueue query) }
    else
      some { engine := e, call := .inside, hold := some (.dispatch query (registry e)),
             events := [.dispatched i query (registry e)] }
  | .sight origin peer endpoint =>
    if e.stopped then some { engine := e, call := .done none }
    else some { engine := e, call := .inside, hold := some (.register origin peer endpoint) }
  | .drain limit => some { engine := e.drain.1, call := .close (registry e) limit }
  | _ => none

end Call

def openLink (e : Engine κ) (peer : PeerId) (endpoint : Endpoint) (now : Nat) : Engine κ :=
  { e with links := e.links ++ [Link.opened peer endpoint] }.putTracker (e.newTracker peer endpoint now)

namespace Section

/-- A step of the call that holds the lock. -/
def step (e : Engine κ) (i now : Nat) : Section → Outcome κ
  | .enqueue query =>
    { engine := { e with pending := e.pending ++ [query] }, call := .done (some (.queued query.id)),
      events := [.queued i query] }
  | .dispatch query [] => { engine := e, call := .done (some (.dispatched query.id)) }
  | .dispatch query (n :: links) =>
    { engine := (e.deliver n query).1, call := .inside, hold := some (.dispatch query links) }
  | .register origin peer endpoint =>
    if (e.tracker? peer).map (fun t => t.endpoint) = some endpoint then
      { engine := e.touch peer now, call := .done none }
    else
      { engine := openLink e peer endpoint now, call := .inside,
        hold := some (.greet origin (e.newTracker peer endpoint now)
          ((e.tracker? peer).map fun t => t.link).toList),
        events := [.registered e.links.length] }
  | .greet origin t replaced =>
    { engine := if origin = .beacon then e.sayHello t.link else e, call := .inside,
      hold := some (.release t replaced) }
  | .release t replaced =>
    match e.pending with
    | [] => { engine := e.notify t, call := .close replaced e.closeLimit }
    | query :: rest =>
      { engine := ({ e with pending := rest }.deliver t.link query).1, call := .inside,
        hold := some (.release t replaced) }

end Section

theorem stopped_section (e : Engine κ) (sec : Section) (i now : Nat) :
    (sec.step e i now).engine.stopped = e.stopped := by
  cases sec with
  | enqueue query => rfl
  | dispatch query links =>
    cases links with
    | nil => rfl
    | cons n links => exact Engine.stopped_deliver e n query
  | register origin peer endpoint =>
    simp only [Section.step]
    split <;> rfl
  | greet origin t replaced =>
    simp only [Section.step]
    split
    · rw [Engine.sayHello_eq]
      rfl
    · rfl
  | release t replaced =>
    simp only [Section.step]
    split
    · rfl
    · exact Engine.stopped_deliver _ _ _

structure State (κ : Type) where
  engine : Engine κ
  calls : List (Call κ)
  /-- The call that holds the lock. -/
  holder : Option (Nat × Section) := none
  log : List Event := []

/-- The call that goes on, and the time. -/
structure Move where
  call : Nat
  now : Nat

namespace State

def settle (s : State κ) (i : Nat) (o : Outcome κ) : State κ where
  engine := o.engine
  calls := s.calls.set i o.call
  holder := o.hold.map fun sec => (i, sec)
  log := s.log ++ o.events

def goFree (s : State κ) (i : Nat) (c : Call κ) : State κ :=
  { s with engine := (c.step s.engine).1, calls := s.calls.set i (c.step s.engine).2 }

def go (s : State κ) (m : Move) : State κ :=
  match s.calls[m.call]? with
  | none => s
  | some c =>
    match s.holder with
    | some (i, sec) =>
      if m.call = i then s.settle i (sec.step s.engine i m.now) else s.goFree m.call c
    | none =>
      match c.enter? s.engine m.call with
      | some o => s.settle m.call o
      | none => s.goFree m.call c

def run (s : State κ) (ms : List Move) : State κ := ms.foldl go s

@[simp] theorem run_nil (s : State κ) : s.run [] = s := rfl

theorem run_cons (s : State κ) (m : Move) (ms : List Move) : s.run (m :: ms) = (s.go m).run ms := rfl

@[simp] theorem run_append (s : State κ) (ms ms' : List Move) : s.run (ms ++ ms') = (s.run ms).run ms' := by
  simp [run]

@[simp] theorem run_singleton (s : State κ) (m : Move) : s.run [m] = s.go m := rfl

end State

/-- What is asked of an engine. -/
inductive Request (κ : Type) where
  | find (facts : FactSet) (asker : κ)
  | beacon (beacon : Beacon)
  | hello (sender : Bytes) (address : String) (port : UInt16)
  | shutdown (limit : Nat)

/-- The call for a request to a node. What a beacon or a hello says is looked at without the lock. -/
def Request.call (self : PeerId) : Request κ → Call κ
  | .find facts k => .find facts k
  | .beacon b => if b.peer = self then .done none else .sight .beacon b.peer b.endpoint
  | .hello sender address port =>
    match PeerId.ofBytes? sender with
    | none => .done none
    | some peer =>
      if peer = self ∨ ¬Engine.IsUsable (.tcp address port) then .done none
      else .sight .hello peer (.tcp address port)
  | .shutdown limit => .stop limit

/-- A call that goes on alone gets from one state to another. -/
def Alone (now : Nat) (e : Engine κ) (c : Call κ) (hold : Option Section) (e' : Engine κ) (c' : Call κ)
    (hold' : Option Section) : Prop :=
  ∀ log, ∃ m log', State.run ⟨e, [c], hold.map fun sec => (0, sec), log⟩ (List.replicate m ⟨0, now⟩) =
    ⟨e', [c'], hold'.map fun sec => (0, sec), log'⟩

variable {e e' e'' : Engine κ} {c c' c'' : Call κ} {hold hold' hold'' : Option Section}

theorem Alone.refl {now : Nat} : Alone now e c hold e c hold := fun log => ⟨0, log, rfl⟩

theorem Alone.trans {now : Nat} (h : Alone now e c hold e' c' hold') (h' : Alone now e' c' hold' e'' c'' hold'') :
    Alone now e c hold e'' c'' hold'' := by
  intro log
  obtain ⟨m, log', hm⟩ := h log
  obtain ⟨m', log'', hm'⟩ := h' log'
  refine ⟨m + m', log'', ?_⟩
  rw [List.replicate_add, State.run_append, hm, hm']

theorem alone_free (now : Nat) (h : c.enter? e 0 = none) : Alone now e c none (c.step e).1 (c.step e).2 none := by
  intro log
  refine ⟨1, log, ?_⟩
  simp [State.go, State.goFree, h]

theorem alone_enter (now : Nat) {o : Outcome κ} (h : c.enter? e 0 = some o) :
    Alone now e c none o.engine o.call o.hold := by
  intro log
  refine ⟨1, log ++ o.events, ?_⟩
  simp [State.go, State.settle, h]

theorem alone_section (now : Nat) (sec : Section) :
    Alone now e c (some sec) (sec.step e 0 now).engine (sec.step e 0 now).call (sec.step e 0 now).hold := by
  intro log
  refine ⟨1, log ++ (sec.step e 0 now).events, ?_⟩
  simp [State.go, State.settle]

theorem alone_dispatch (now : Nat) (query : Envelope) (links : List Nat) (e : Engine κ) :
    Alone now e .inside (some (.dispatch query links)) (e.spread links query)
      (.done (some (.dispatched query.id))) none := by
  induction links generalizing e with
  | nil => exact alone_section now _
  | cons n links ih =>
    have hh := ih (e.deliver n query).1
    rw [Engine.deliver_eq] at hh
    refine (alone_section now _).trans ?_
    simp only [Section.step, Engine.deliver_eq]
    exact hh

theorem alone_submit (now : Nat) (query : Envelope) (e : Engine κ) :
    Alone now e (.submit query) none (e.submit query).1 (.done (some (e.submit query).2)) none := by
  by_cases h : e.trackers = []
  · rw [Engine.submit_of_nil h]
    have hh : (Call.submit query).enter? e 0 = some ⟨e, .inside, some (.enqueue query), []⟩ := by
      simp [Call.enter?, h]
    exact (alone_enter now hh).trans (alone_section now _)
  · rw [Engine.submit_of_ne_nil h]
    have hh : (Call.submit query).enter? e 0 =
        some ⟨e, .inside, some (.dispatch query (registry e)), [.dispatched 0 query (registry e)]⟩ := by
      simp [Call.enter?, h]
    exact (alone_enter now hh).trans (alone_dispatch now query _ e)

theorem alone_number (now : Nat) (e : Engine κ) (facts : FactSet) (k : κ) :
    Alone now e (.number facts k) none ((e.takeId.1.await e.nextId k).submit (e.nextQuery facts)).1
      (.done (some ((e.takeId.1.await e.nextId k).submit (e.nextQuery facts)).2)) none := by
  have hnumber : Alone now e (.number facts k) none e.takeId.1 (.remember (e.nextQuery facts) k) none :=
    alone_free now rfl
  have hremember : Alone now e.takeId.1 (.remember (e.nextQuery facts) k) none
      (e.takeId.1.await e.nextId k) (.submit (e.nextQuery facts)) none := alone_free now rfl
  exact (hnumber.trans hremember).trans (alone_submit now _ _)

theorem find_alone (now : Nat) (e : Engine κ) (facts : FactSet) (k : κ) :
    Alone now e (.find facts k) none (e.find facts k).1 (.done (some (e.find facts k).2.1)) none := by
  have hfind : Alone now e (.find facts k) none e
      (if e.stopped then .done (some .stopped) else .lookUp facts k) none := alone_free now rfl
  rcases Engine.find_cases e facts k with ⟨hs, h⟩ | ⟨hs, hq, h⟩ | ⟨hs, hq, h⟩
  · rw [h]
    simpa [hs] using hfind
  · rw [h]
    simp only [hs, Bool.false_eq_true, if_false] at hfind
    refine hfind.trans ?_
    have hh : (Call.lookUp facts k).step e = (e, .done (some (.local (e.directory.query facts).length))) := by
      obtain ⟨found, rest, hl⟩ := List.exists_cons_of_ne_nil hq
      simp [Call.step, hl]
    have hlook := alone_free now (e := e) (c := .lookUp facts k) rfl
    rwa [hh] at hlook
  · rw [h]
    simp only [hs, Bool.false_eq_true, if_false] at hfind
    refine hfind.trans ?_
    have hh : (Call.lookUp facts k).step e = (e, .number facts k) := by
      simp [Call.step, hq]
    have hlook := alone_free now (e := e) (c := .lookUp facts k) rfl
    rw [hh] at hlook
    exact hlook.trans (alone_number now e facts k)

theorem alone_close (now : Nat) (links : List Nat) (limit : Nat) (e : Engine κ) :
    Alone now e (.close links limit) none (links.foldl (fun e n => e.closeLink n limit) e) (.done none) none := by
  induction links generalizing e with
  | nil => exact alone_free now rfl
  | cons n links ih =>
    have hh : Alone now e (.close (n :: links) limit) none (e.closeLink n limit) (.close links limit) none :=
      alone_free now rfl
    exact hh.trans (ih _)

theorem drainPending_cons (t : Tracker) {query : Envelope} {rest : List Envelope} (h : e.pending = query :: rest) :
    (({ e with pending := rest }.deliver t.link query).1).drainPending t.link = e.drainPending t.link := by
  have hh : ∀ l : Link, (l.takeAll [query]).takeAll rest = l.takeAll (query :: rest) :=
    fun l => l.takeAll_takeAll [query] rest
  rw [Engine.deliver_eq, Engine.drainPending_eq, Engine.drainPending_eq]
  simp only [Engine.modifyLink, List.modify_modify_eq, h, Function.comp_def, hh]

theorem alone_release (now : Nat) (t : Tracker) (replaced : List Nat) (e : Engine κ) :
    Alone now e .inside (some (.release t replaced)) ((e.drainPending t.link).notify t)
      (.close replaced e.closeLimit) none := by
  induction hp : e.pending generalizing e with
  | nil =>
    have hh : e.drainPending t.link = e := by
      rw [Engine.drainPending_eq]
      simp only [hp, Link.takeAll_nil]
      rw [Engine.modifyLink_id, ← hp]
    have hrelease := alone_section now (e := e) (c := .inside) (.release t replaced)
    simp only [Section.step, hp] at hrelease
    rwa [hh]
  | cons query rest ih =>
    have hrelease := alone_section now (e := e) (c := .inside) (.release t replaced)
    simp only [Section.step, hp] at hrelease
    refine hrelease.trans ?_
    have hh := ih ({ e with pending := rest }.deliver t.link query).1 (by rw [Engine.deliver_eq]; rfl)
    rw [drainPending_cons t hp] at hh
    rw [Engine.deliver_eq] at hh ⊢
    exact hh

theorem alone_discover (now : Nat) (e : Engine κ) (origin : Origin) (peer : PeerId) (endpoint : Endpoint)
    (replaced : List Nat) :
    Alone now (openLink e peer endpoint now) .inside
      (some (.greet origin (e.newTracker peer endpoint now) replaced))
      (e.discover origin peer endpoint now) (.close replaced e.closeLimit) none := by
  have hlimit : ∀ n, ((openLink e peer endpoint now).sayHello n).closeLimit = e.closeLimit := by
    intro n
    rw [Engine.sayHello_eq]
    rfl
  refine (alone_section now _).trans ?_
  have hh := alone_release now (e.newTracker peer endpoint now) replaced
    (if origin = .beacon then (openLink e peer endpoint now).sayHello e.links.length
      else openLink e peer endpoint now)
  by_cases ho : origin = .beacon
  · simp only [ho, if_true, hlimit] at hh ⊢
    exact hh
  · simp only [ho, if_false] at hh
    simp only [Engine.discover, Section.step, ho, if_false]
    exact hh

theorem sight_alone (now : Nat) (e : Engine κ) (origin : Origin) (peer : PeerId) (endpoint : Endpoint) :
    Alone now e (.sight origin peer endpoint) none (e.sight origin peer endpoint now) (.done none) none := by
  rw [Engine.sight_eq]
  rcases Engine.register_cases e origin peer endpoint now with ⟨hs, h⟩ | ⟨hs, he, h⟩ | ⟨hs, he, h⟩
  · rw [h]
    have hh : (Call.sight origin peer endpoint).enter? e 0 = some ⟨e, .done none, none, []⟩ := by
      simp [Call.enter?, hs]
    exact alone_enter now hh
  · rw [h]
    have hh : (Call.sight origin peer endpoint).enter? e 0 =
        some ⟨e, .inside, some (.register origin peer endpoint), []⟩ := by simp [Call.enter?, hs]
    have hregister := alone_section now (e := e) (c := .inside) (.register origin peer endpoint)
    simp only [Section.step, if_pos he] at hregister
    exact (alone_enter now hh).trans hregister
  · rw [h]
    have hh : (Call.sight origin peer endpoint).enter? e 0 =
        some ⟨e, .inside, some (.register origin peer endpoint), []⟩ := by simp [Call.enter?, hs]
    have hregister := alone_section now (e := e) (c := .inside) (.register origin peer endpoint)
    simp only [Section.step, if_neg he] at hregister
    refine ((alone_enter now hh).trans hregister).trans ((alone_discover now e origin peer endpoint _).trans ?_)
    have hlimit : (e.discover origin peer endpoint now).closeLimit = e.closeLimit := by
      rw [Engine.discover_eq]
    cases e.tracker? peer with
    | none => exact alone_free now rfl
    | some t =>
      have hc := alone_close now [t.link] e.closeLimit (e.discover origin peer endpoint now)
      simp only [Option.map_some, hlimit]
      exact hc

theorem alone_drain (now : Nat) (e : Engine κ) (limit : Nat) :
    Alone now e (.drain limit) none (e.drain.1.closeAll limit e.drain.2) (.done none) none := by
  have hdrain : Alone now e (.drain limit) none e.drain.1 (.close (registry e) limit) none :=
    alone_enter now (o := ⟨e.drain.1, .close (registry e) limit, none, []⟩) rfl
  have hclose := alone_close now (registry e) limit e.drain.1
  rw [registry, List.foldl_map] at hclose
  exact hdrain.trans hclose

theorem shutdown_alone (now : Nat) (e : Engine κ) (limit : Nat) :
    Alone now e (.stop limit) none (e.shutdown limit) (.done none) none := by
  have hstop : Alone now e (.stop limit) none e.stop (.drain limit) none := alone_free now rfl
  exact hstop.trans (alone_drain now e.stop limit)

end Interleaving
end Discovery
end PeerDiscovery
