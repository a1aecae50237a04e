import PeerDiscovery.Node
import PeerDiscovery.Proofs.Beacon.Silence
import PeerDiscovery.Proofs.Discovery.Interleaving

/-! All that a node has going on at once.
Queries, sightings, announcements, starts, shutdowns and the pump that announces the node's services to new
trackers are jobs, cut into the steps that other jobs can come between. The registry has a lock, and what a
job does while it holds the lock is cut into steps too. -/
namespace PeerDiscovery
namespace Activity

open Beacon (Air Stir)
open Discovery (Engine Tracker Link StartError FindOutcome)
open Discovery.Interleaving (Call Section registry)

/-- What a start has to do with. -/
structure Opening where
  /-- The endpoint of the mailbox. -/
  bound : Endpoint
  /-- The host's own address. -/
  found : Option Net.IpAddr
  /-- The size of the queue for beacons. -/
  capacity : Nat
  /-- Beacons are sent, not only listened for. -/
  active : Bool
  /-- Why listening fails. -/
  listenFault : Option String := none
  /-- Why sending fails. -/
  sendFault : Option String := none
  deriving DecidableEq

namespace Opening

/-- The endpoint to be made known. -/
def own (o : Opening) : Endpoint := Engine.advertised o.bound o.found

/-- Whether listening for beacons and sending them works. -/
def beacons (o : Opening) : Except StartError Unit :=
  match o.listenFault with
  | some reason => .error (.listen reason)
  | none =>
    if o.active then
      match o.sendFault with
      | some reason => .error (.broadcast reason)
      | none => .ok ()
    else .ok ()

end Opening

inductive Brief (κ : Type) where
  | response (envelope : Envelope)
  /-- Announces a service on one link. -/
  | announceTo (facts : FactSet) (link : Nat)
  | subscribe
  /-- Somebody writes the directory. -/
  | fill (directory : Directory)
  /-- A link breaks. -/
  | fail (link : Nat)
  deriving DecidableEq

/-- What is asked of a node. -/
inductive Request (κ : Type) where
  | find (facts : FactSet) (asker : κ)
  | beacon (beacon : Beacon)
  | hello (sender : Bytes) (address : String) (port : UInt16)
  | announce (facts : FactSet)
  /-- Takes on a service. -/
  | host (facts : FactSet)
  | start (opening : Opening)
  | shutdown (limit : Nat)
  /-- Announces the services of the node to every tracker that is discovered. -/
  | pump
  | brief (brief : Brief κ)
  deriving DecidableEq

/-- A job that does not hold the lock, by what it does next. -/
inductive Task (κ : Type) where
  /-- A query or a sighting, or the end of a shutdown. A job that holds the lock is `inside`. -/
  | call (call : Call κ)
  /-- Adds a service to those of the node. -/
  | host (facts : FactSet)
  /-- Notes a service in the directory. -/
  | note (facts : FactSet)
  /-- Looks whether the engine has stopped. -/
  | announce (facts : FactSet)
  /-- Wants the lock, to announce a service. -/
  | spread (facts : FactSet)
  /-- Has announced a service, to so many trackers that accepted. -/
  | announced (count : Nat)
  /-- Looks whether the engine was started. -/
  | start (opening : Opening)
  /-- Sets the endpoint. -/
  | name (opening : Opening)
  /-- Begins to listen for beacons. -/
  | listen (opening : Opening)
  /-- Begins to send beacons. -/
  | broadcast (opening : Opening)
  | started (result : Except StartError Endpoint)
  /-- Sets the stop flag. -/
  | stop (limit : Nat)
  /-- Stops the station. -/
  | hush (limit : Nat)
  /-- Takes the loops that nobody has waited for. -/
  | join (limit : Nat)
  /-- Waits for some loops, one after another, and ends those that are not over in time. -/
  | await (loops : List Nat) (limit : Nat)
  /-- Waits for a new tracker. -/
  | pump
  /-- Asks for the services of the node. -/
  | inform (tracker : Tracker)
  /-- Announces services to a tracker, one after another. -/
  | tell (tracker : Tracker) (services : List FactSet)
  | brief (brief : Brief κ)
  | finished
  deriving DecidableEq

inductive Hold where
  /-- The part of a query or a sighting. -/
  | call (sec : Section)
  /-- Announces a service on some links, one after another, and counts those that accept. -/
  | announce (facts : FactSet) (links : List Nat) (count : Nat)
  deriving DecidableEq

/-- What all jobs have in common. -/
structure Shared (κ : Type) where
  engine : Engine κ
  air : Air
  /-- The services of the node. -/
  hosted : List FactSet := []
  /-- The subscription of the pump. -/
  subscriber : Nat := 0

structure Job (κ : Type) where
  request : Request κ
  task : Task κ
  deriving DecidableEq

variable {κ : Type}

/-- The second part is whom to tell, and of which endpoints. -/
def Brief.perform (e : Engine κ) : Brief κ → Engine κ × List (κ × Endpoint)
  | .response envelope => e.onResponse envelope
  | .announceTo facts link => ((e.announceTo facts link).1, [])
  | .subscribe => (e.subscribe.1, [])
  | .fill directory => ({ e with directory }, [])
  | .fail link => (e.modifyLink link Link.fail, [])

/-- The first task of a job. -/
def Request.task (self : PeerId) : Request κ → Task κ
  | .find facts k => .call ((Discovery.Interleaving.Request.find facts k).call self)
  | .beacon b => .call ((Discovery.Interleaving.Request.beacon b).call self)
  | .hello sender address port => .call ((Discovery.Interleaving.Request.hello sender address port).call self)
  | .announce facts => .announce facts
  | .host facts => .host facts
  | .start opening => .start opening
  | .shutdown limit => .stop limit
  | .pump => .pump
  | .brief b => .brief b

namespace Task

/-- A step that needs no lock. A job that wants the lock, or is over, does nothing. -/
def step (w : Shared κ) (now : Nat) : Task κ → Shared κ × Task κ
  | .call c => ({ w with engine := (c.step w.engine).1 }, .call (c.step w.engine).2)
  | .host facts =>
    ({ w with hosted := if facts ∈ w.hosted then w.hosted else w.hosted ++ [facts] }, .note facts)
  | .note facts =>
    match w.engine.endpoint with
    | none => (w, .announce facts)
    | some own =>
      ({ w with engine := { w.engine with directory := w.engine.directory.add own facts } }, .announce facts)
  | .announce facts => (w, if w.engine.stopped then .announced 0 else .spread facts)
  | .start o =>
    if w.engine.started then (w, .started (.error .alreadyStarted))
    else ({ w with engine := { w.engine with started := true } }, .name o)
  | .name o => ({ w with engine := { w.engine with endpoint := some o.own } }, .listen o)
  | .listen o =>
    match o.listenFault with
    | some reason => (w, .started (.error (.listen reason)))
    | none => ({ w with air := w.air.listen o.capacity }, if o.active then .broadcast o else .started (.ok o.own))
  | .broadcast o =>
    match o.sendFault with
    | some reason => (w, .started (.error (.broadcast reason)))
    | none => ({ w with air := w.air.broadcast now w.engine.self o.own.port }, .started (.ok o.own))
  | .stop limit => ({ w with engine := w.engine.stop }, .hush limit)
  | .hush limit => ({ w with air := w.air.stop }, .join limit)
  | .join limit => ({ w with air := w.air.join }, .await w.air.unjoined limit)
  | .await [] limit => (w, .call (.drain limit))
  | .await (loop :: loops) limit => ({ w with air := w.air.abort loop }, .await loops limit)
  | .pump =>
    match w.engine.takeNext? w.subscriber with
    | none => (w, .pump)
    | some (engine, t) => ({ w with engine }, .inform t)
  | .inform t => (w, .tell t w.hosted)
  | .tell _ [] => (w, .pump)
  | .tell t (facts :: services) =>
    ({ w with engine := (w.engine.announceTo facts t.link).1 }, .tell t services)
  | .brief b => ({ w with engine := (b.perform w.engine).1 }, .finished)
  | t => (w, t)

/-- Whom a step without the lock tells, and of which endpoints. -/
def told (e : Engine κ) : Task κ → List (κ × Endpoint)
  | .call (.lookUp facts k) => (e.directory.query facts).map fun endpoint => (k, endpoint)
  | .brief b => (b.perform e).2
  | _ => []

end Task

/-- What a step with the lock leads to. -/
structure Outcome (κ : Type) where
  engine : Engine κ
  task : Task κ
  hold : Option Hold := none

def Outcome.ofCall (o : Discovery.Interleaving.Outcome κ) : Outcome κ :=
  ⟨o.engine, .call o.call, o.hold.map .call⟩

def Task.enter? (e : Engine κ) (i : Nat) : Task κ → Option (Outcome κ)
  | .call c => (c.enter? e i).map .ofCall
  | .spread facts => some ⟨e, .call .inside, some (.announce facts (registry e) 0)⟩
  | _ => none

/-- The links that a job takes out of the registry when it gets the lock. -/
def Task.drained (e : Engine κ) : Task κ → Option (List Nat)
  | .call (.drain _) => some (registry e)
  | _ => none

/-- A step of the job that holds the lock. -/
def Hold.step (e : Engine κ) (i now : Nat) : Hold → Outcome κ
  | .call sec => .ofCall (sec.step e i now)
  | .announce _ [] count => ⟨e, .announced count, none⟩
  | .announce facts (n :: links) count =>
    ⟨(e.announceTo facts n).1, .call .inside,
      some (.announce facts links (if (e.announceTo facts n).2 then count + 1 else count))⟩

def Task.closing : Task κ → List Nat
  | .call (.close links _) => links
  | _ => []

def Hold.closing : Hold → List Nat
  | .call (.greet _ _ replaced) => replaced
  | .call (.release _ replaced) => replaced
  | _ => []

structure State (κ : Type) where
  shared : Shared κ
  jobs : List (Job κ) := []
  /-- The job that holds the lock. -/
  holder : Option (Nat × Hold) := none
  /-- Whom jobs have told, and of which endpoints. -/
  told : List (Nat × κ × Endpoint) := []
  /-- The jobs that emptied the registry, and of which links. -/
  drained : List (Nat × List Nat) := []

inductive Move (κ : Type) where
  /-- Something is asked of the node. -/
  | begin (request : Request κ)
  /-- A job goes on. -/
  | job (i now : Nat)
  /-- Something goes on at the station. -/
  | stir (x : Stir)

namespace State

def engine (s : State κ) : Engine κ := s.shared.engine

def settle (s : State κ) (i : Nat) (j : Job κ) (o : Outcome κ) : State κ :=
  { s with
    shared := { s.shared with engine := o.engine }
    jobs := s.jobs.set i { j with task := o.task }
    holder := o.hold.map fun hold => (i, hold) }

/-- A job gets the lock. -/
def enter (s : State κ) (i : Nat) (j : Job κ) (o : Outcome κ) : State κ :=
  { s.settle i j o with drained := s.drained ++ ((j.task.drained s.engine).map fun links => (i, links)).toList }

def goFree (s : State κ) (i now : Nat) (j : Job κ) : State κ :=
  { s with
    shared := (j.task.step s.shared now).1
    jobs := s.jobs.set i { j with task := (j.task.step s.shared now).2 }
    told := s.told ++ (j.task.told s.engine).map fun call => (i, call) }

def goJob (s : State κ) (i now : Nat) : State κ :=
  match s.jobs[i]? with
  | none => s
  | some j =>
    match s.holder with
    | some (h, hold) => if i = h then s.settle i j (hold.step s.engine i now) else s.goFree i now j
    | none =>
      match j.task.enter? s.engine i with
      | some o => s.enter i j o
      | none => s.goFree i now j

def go (s : State κ) : Move κ → State κ
  | .begin request => { s with jobs := s.jobs ++ [⟨request, request.task s.engine.self⟩] }
  | .job i now => s.goJob i now
  | .stir x => { s with shared := { s.shared with air := s.shared.air.stir x } }

def run (s : State κ) (ms : List (Move κ)) : State κ := ms.foldl go s

@[simp] theorem run_nil (s : State κ) : s.run [] = s := rfl

theorem run_cons (s : State κ) (m : Move κ) (ms : List (Move κ)) : s.run (m :: ms) = (s.go m).run ms := rfl

@[simp] theorem run_append (s : State κ) (ms ms' : List (Move κ)) : s.run (ms ++ ms') = (s.run ms).run ms' := by
  simp [run]

/-- A job that goes on without the lock: somebody else holds it, or the job does not want it. -/
def IsFree (s : State κ) (i : Nat) (j : Job κ) : Prop :=
  (∀ hold, s.holder ≠ some (i, hold)) ∧ (s.holder = none → j.task.enter? s.engine i = none)

theorem goJob_cases (s : State κ) (i now : Nat) :
    s.goJob i now = s ∨ ∃ j, s.jobs[i]? = some j ∧
      ((s.IsFree i j ∧ s.goJob i now = s.goFree i now j) ∨
        (∃ o, s.holder = none ∧ j.task.enter? s.engine i = some o ∧ s.goJob i now = s.enter i j o) ∨
        ∃ hold, s.holder = some (i, hold) ∧ s.goJob i now = s.settle i j (hold.step s.engine i now)) := by
  unfold goJob IsFree
  cases s.jobs[i]? with
  | none => exact .inl rfl
  | some j =>
    refine .inr ⟨j, rfl, ?_⟩
    cases s.holder with
    | none =>
      cases ho : j.task.enter? s.engine i with
      | none => exact .inl ⟨⟨by simp, fun _ => rfl⟩, by simp only [ho]⟩
      | some o => exact .inr (.inl ⟨o, rfl, rfl, by simp only [ho]⟩)
    | some x =>
      obtain ⟨h, hold⟩ := x
      by_cases hi : i = h
      · subst hi
        exact .inr (.inr ⟨hold, rfl, by simp⟩)
      · exact .inl ⟨⟨by simp [Ne.symm hi], by simp⟩, by simp [hi]⟩

theorem go_free {s : State κ} {i : Nat} {j : Job κ} (hs : s.holder = none) (hj : s.jobs[i]? = some j)
    (hfree : j.task.enter? s.engine i = none) (now : Nat) : s.go (.job i now) = s.goFree i now j := by
  simp [go, goJob, hj, hs, hfree]

theorem go_enter {s : State κ} {i : Nat} {j : Job κ} {o : Outcome κ} (hs : s.holder = none) (hj : s.jobs[i]? = some j)
    (ho : j.task.enter? s.engine i = some o) (now : Nat) : s.go (.job i now) = s.enter i j o := by
  simp [go, goJob, hj, hs, ho]

theorem go_hold {s : State κ} {i : Nat} {j : Job κ} {hold : Hold} (hs : s.holder = some (i, hold))
    (hj : s.jobs[i]? = some j) (now : Nat) : s.go (.job i now) = s.settle i j (hold.step s.engine i now) := by
  simp [go, goJob, hj, hs]

/-- A property that each kind of step gives holds after any move. -/
theorem go_rule {P : State κ → Prop} {s : State κ} (h : P s) (m : Move κ) (hbegin : ∀ r, P (s.go (.begin r)))
    (hstir : ∀ x, P (s.go (.stir x)))
    (hfree : ∀ i now j, s.jobs[i]? = some j → s.IsFree i j → P (s.goFree i now j))
    (henter : ∀ i j o, s.jobs[i]? = some j → s.holder = none → j.task.enter? s.engine i = some o → P (s.enter i j o))
    (hhold : ∀ i now j hold, s.jobs[i]? = some j → s.holder = some (i, hold) →
      P (s.settle i j (hold.step s.engine i now))) : P (s.go m) := by
  cases m with
  | begin r => exact hbegin r
  | stir x => exact hstir x
  | job i now =>
    rw [go]
    rcases s.goJob_cases i now with hg | ⟨j, hj, ⟨hf, hg⟩ | ⟨o, hs, ho, hg⟩ | ⟨hold, hs, hg⟩⟩
    · rwa [hg]
    · rw [hg]
      exact hfree i now j hj hf
    · rw [hg]
      exact henter i j o hj hs ho
    · rw [hg]
      exact hhold i now j hold hj hs

theorem run_rule {P : State κ → Prop} (hgo : ∀ s m, P s → P (s.go m)) {s : State κ} (h : P s) (ms : List (Move κ)) :
    P (s.run ms) := by
  induction ms generalizing s with
  | nil => exact h
  | cons m ms ih => exact ih (hgo s m h)

/-- Where a job stands after a move: as before, or it has just been begun, or it took a step. -/
theorem jobs_go {s : State κ} {m : Move κ} {k : Nat} {j' : Job κ} (h : (s.go m).jobs[k]? = some j') :
    s.jobs[k]? = some j' ∨ (k = s.jobs.length ∧ ∃ r, j' = ⟨r, r.task s.engine.self⟩) ∨
    ∃ j, s.jobs[k]? = some j ∧ j'.request = j.request ∧
      ((∃ now, s.IsFree k j ∧ s.go m = s.goFree k now j ∧ j'.task = (j.task.step s.shared now).2) ∨
        (∃ o, s.holder = none ∧ j.task.enter? s.engine k = some o ∧ s.go m = s.enter k j o ∧ j'.task = o.task) ∨
        ∃ hold, s.holder = some (k, hold)) := by
  have hset {i : Nat} {j : Job κ} {t : Task κ} (hj : s.jobs[i]? = some j)
      (hk : (s.jobs.set i { j with task := t })[k]? = some j') :
      s.jobs[k]? = some j' ∨ i = k ∧ j' = { j with task := t } := by
    rcases getElem?_set_cases hk with ⟨rfl, rfl⟩ | ⟨-, hk⟩
    · exact .inr ⟨rfl, rfl⟩
    · exact .inl hk
  cases m with
  | begin r => exact (getElem?_concat_cases h).imp id fun ⟨hk, hj⟩ => .inl ⟨hk, r, hj⟩
  | stir x => exact .inl h
  | job i now =>
    rw [go] at h ⊢
    rcases s.goJob_cases i now with hg | ⟨j, hj, ⟨hf, hg⟩ | ⟨o, hs, ho, hg⟩ | ⟨hold, hs, hg⟩⟩ <;> rw [hg] at h
    · exact .inl h
    · rcases hset hj h with hk | ⟨rfl, rfl⟩
      · exact .inl hk
      · exact .inr (.inr ⟨j, hj, rfl, .inl ⟨now, hf, hg, rfl⟩⟩)
    · rcases hset hj h with hk | ⟨rfl, rfl⟩
      · exact .inl hk
      · exact .inr (.inr ⟨j, hj, rfl, .inr (.inl ⟨o, hs, ho, hg, rfl⟩)⟩)
    · rcases hset hj h with hk | ⟨rfl, rfl⟩
      · exact .inl hk
      · exact .inr (.inr ⟨j, hj, rfl, .inr (.inr ⟨hold, hs⟩)⟩)

theorem hold_of_holder {i k : Nat} {o : Outcome κ} {hold : Hold}
    (h : (o.hold.map fun hold => (i, hold)) = some (k, hold)) : o.hold = some hold := by
  obtain ⟨hold', ho, heq⟩ := Option.map_eq_some_iff.1 h
  cases heq
  exact ho

theorem jobs_length_go (s : State κ) (m : Move κ) : s.jobs.length ≤ (s.go m).jobs.length := by
  refine go_rule (P := fun s' => s.jobs.length ≤ s'.jobs.length) (Nat.le_refl _) m (fun r => ?_) (fun _ => Nat.le_refl _)
    (fun i now j _ _ => ?_) (fun i j o _ _ _ => ?_) fun i now j hold _ _ => ?_
  · simp [go]
  · simp [goFree]
  · simp [enter, settle]
  · simp [settle]

end State

/-- What a step without the lock does: to the engine, to the services of the node and to the links that the job
is about to close. -/
theorem step_cases (w : Shared κ) (now : Nat) (t : Task κ) :
    (∃ issued directory endpoint started air, (t.step w now).1 =
        { w with engine := { w.engine with issued, directory, endpoint, started }, air } ∧
      (t.step w now).2.closing = t.closing) ∨
    (∃ n links limit, t = .call (.close (n :: links) limit)) ∨
    (∃ query k, t = .call (.remember query k)) ∨
    (∃ facts, t = .host facts) ∨
    (∃ limit, t = .stop limit ∨ t = .call (.stop limit)) ∨
    (∃ engine u, t = .pump ∧ w.engine.takeNext? w.subscriber = some (engine, u)) ∨
    (∃ u facts services, t = .tell u (facts :: services)) ∨
    ∃ b, t = .brief b := by
  cases t with
  | call c =>
    cases c with
    | find facts k =>
      refine .inl ⟨_, _, _, _, _, rfl, ?_⟩
      simp only [Task.step, Call.step]
      split <;> rfl
    | lookUp facts k =>
      left
      simp only [Task.step, Call.step]
      split <;> exact ⟨_, _, _, _, _, rfl, rfl⟩
    | number facts k => exact .inl ⟨_, _, _, _, _, rfl, rfl⟩
    | remember query k => exact .inr (.inr (.inl ⟨query, k, rfl⟩))
    | stop limit => exact .inr (.inr (.inr (.inr (.inl ⟨limit, .inr rfl⟩))))
    | close links limit =>
      cases links with
      | nil => exact .inl ⟨_, _, _, _, _, rfl, rfl⟩
      | cons n links => exact .inr (.inl ⟨n, links, limit, rfl⟩)
    | submit | sight | drain | inside | done => exact .inl ⟨_, _, _, _, _, rfl, rfl⟩
  | host facts => exact .inr (.inr (.inr (.inl ⟨facts, rfl⟩)))
  | stop limit => exact .inr (.inr (.inr (.inr (.inl ⟨limit, .inl rfl⟩))))
  | brief b => exact .inr (.inr (.inr (.inr (.inr (.inr (.inr ⟨b, rfl⟩))))))
  | note facts =>
    left
    simp only [Task.step]
    split <;> exact ⟨_, _, _, _, _, rfl, rfl⟩
  | announce facts =>
    left
    simp only [Task.step]
    split <;> exact ⟨_, _, _, _, _, rfl, rfl⟩
  | start o =>
    left
    simp only [Task.step]
    split <;> exact ⟨_, _, _, _, _, rfl, rfl⟩
  | listen o =>
    left
    simp only [Task.step]
    split
    · exact ⟨_, _, _, _, _, rfl, rfl⟩
    · split <;> exact ⟨_, _, _, _, _, rfl, rfl⟩
  | broadcast o =>
    left
    simp only [Task.step]
    split <;> exact ⟨_, _, _, _, _, rfl, rfl⟩
  | await loops limit => cases loops <;> exact .inl ⟨_, _, _, _, _, rfl, rfl⟩
  | pump =>
    cases h : w.engine.takeNext? w.subscriber with
    | none =>
      have hstep : Task.pump.step w now = (w, .pump) := by simp only [Task.step, h]
      rw [hstep]
      exact .inl ⟨_, _, _, _, _, rfl, rfl⟩
    | some next => exact .inr (.inr (.inr (.inr (.inr (.inl ⟨next.1, next.2, rfl, rfl⟩)))))
  | tell u services =>
    cases services with
    | nil => exact .inl ⟨_, _, _, _, _, rfl, rfl⟩
    | cons facts services => exact .inr (.inr (.inr (.inr (.inr (.inr (.inl ⟨u, facts, services, rfl⟩))))))
  | name | spread | announced | started | hush | join | inform | finished => exact .inl ⟨_, _, _, _, _, rfl, rfl⟩

theorem enter_cases {e : Engine κ} {i : Nat} {t : Task κ} {o : Outcome κ} (h : t.enter? e i = some o) :
    (∃ query, t = .call (.submit query) ∧ ((e.trackers = [] ∧ o = ⟨e, .call .inside, some (.call (.enqueue query))⟩) ∨
      (e.trackers ≠ [] ∧ o = ⟨e, .call .inside, some (.call (.dispatch query (registry e)))⟩))) ∨
    (∃ origin peer endpoint, t = .call (.sight origin peer endpoint) ∧
      ((e.stopped = true ∧ o = ⟨e, .call (.done none), none⟩) ∨
        (e.stopped = false ∧ o = ⟨e, .call .inside, some (.call (.register origin peer endpoint))⟩))) ∨
    (∃ limit, t = .call (.drain limit) ∧ o = ⟨e.drain.1, .call (.close (registry e) limit), none⟩) ∨
    ∃ facts, t = .spread facts ∧ o = ⟨e, .call .inside, some (.announce facts (registry e) 0)⟩ := by
  cases t with
  | call c =>
    obtain ⟨o', ho, rfl⟩ := Option.map_eq_some_iff.1 h
    cases c with
    | submit query =>
      by_cases ht : e.trackers = []
      · rw [Call.enter?, if_pos ht] at ho
        cases ho
        exact .inl ⟨query, rfl, .inl ⟨ht, rfl⟩⟩
      · rw [Call.enter?, if_neg ht] at ho
        cases ho
        exact .inl ⟨query, rfl, .inr ⟨ht, rfl⟩⟩
    | sight origin peer endpoint =>
      by_cases hs : e.stopped = true
      · rw [Call.enter?, if_pos hs] at ho
        cases ho
        exact .inr (.inl ⟨origin, peer, endpoint, rfl, .inl ⟨hs, rfl⟩⟩)
      · rw [Call.enter?, if_neg hs] at ho
        cases ho
        exact .inr (.inl ⟨origin, peer, endpoint, rfl, .inr ⟨by simpa using hs, rfl⟩⟩)
    | drain limit =>
      cases ho
      exact .inr (.inr (.inl ⟨limit, rfl, rfl⟩))
    | _ => cases ho
  | spread facts =>
    cases h
    exact .inr (.inr (.inr ⟨facts, rfl, rfl⟩))
  | _ => cases h

theorem forall_of_none {α : Type} {P : α → Prop} : ∀ x, none = some x → P x := by
  intro x h
  cases h

namespace Request

def IsFind (r : Request κ) : Prop := ∃ facts k, r = .find facts k

def IsSighting (r : Request κ) : Prop := (∃ b, r = .beacon b) ∨ ∃ sender address port, r = .hello sender address port

def Announces (r : Request κ) (facts : FactSet) : Prop := r = .announce facts ∨ r = .host facts

/-- A job for the request can do this with the lock. -/
def Holds (r : Request κ) : Hold → Prop
  | .call (.enqueue _) | .call (.dispatch ..) => r.IsFind
  | .call (.register ..) | .call (.greet ..) | .call (.release ..) => r.IsSighting
  | .announce facts .. => r.Announces facts

def Reaches (r : Request κ) : Task κ → Prop
  | .call (.find facts k) => r = .find facts k
  | .call (.lookUp ..) | .call (.number ..) | .call (.remember ..) | .call (.submit _) => r.IsFind
  | .call (.sight ..) => r.IsSighting
  | .call (.stop _) => False
  | .call (.drain limit) => r = .shutdown limit
  | .call (.close _ limit) => r.IsSighting ∨ r = .shutdown limit
  | .call .inside => ∃ hold, r.Holds hold
  | .call (.done (some _)) => r.IsFind
  | .call (.done none) => r.IsSighting ∨ ∃ limit, r = .shutdown limit
  | .host facts | .note facts => r = .host facts
  | .announce facts | .spread facts => r.Announces facts
  | .announced _ => ∃ facts, r.Announces facts
  | .start o | .name o | .listen o | .broadcast o => r = .start o
  | .started _ => ∃ o, r = .start o
  | .stop limit | .hush limit | .join limit | .await _ limit => r = .shutdown limit
  | .pump | .inform _ | .tell .. => r = .pump
  | .brief b => r = .brief b
  | .finished => ∃ b, r = .brief b

theorem reaches_task (r : Request κ) (self : PeerId) : r.Reaches (r.task self) := by
  cases r with
  | find | start | shutdown | pump | brief => rfl
  | announce facts => exact .inl rfl
  | host facts => rfl
  | beacon b =>
    simp only [task, Discovery.Interleaving.Request.call]
    split
    · exact .inl (.inl ⟨b, rfl⟩)
    · exact .inl ⟨b, rfl⟩
  | hello sender address port =>
    simp only [task, Discovery.Interleaving.Request.call]
    split
    · exact .inl (.inr ⟨sender, address, port, rfl⟩)
    · split
      · exact .inl (.inr ⟨sender, address, port, rfl⟩)
      · exact .inr ⟨sender, address, port, rfl⟩

theorem reaches_step {r : Request κ} {t : Task κ} (h : r.Reaches t) (w : Shared κ) (now : Nat) :
    r.Reaches (t.step w now).2 := by
  cases t with
  | call c =>
    cases c with
    | find facts k =>
      simp only [Task.step, Call.step]
      split <;> exact ⟨facts, k, h⟩
    | lookUp facts k =>
      simp only [Task.step, Call.step]
      split <;> exact h
    | close links limit =>
      cases links with
      | nil => exact h.imp_right fun hh => ⟨limit, hh⟩
      | cons n links => exact h
    | stop limit => exact h.elim
    | done outcome => cases outcome <;> exact h
    | _ => exact h
  | note facts =>
    simp only [Task.step]
    split <;> exact .inr h
  | announce facts =>
    simp only [Task.step]
    split
    · exact ⟨facts, h⟩
    · exact h
  | start o =>
    simp only [Task.step]
    split
    · exact ⟨o, h⟩
    · exact h
  | listen o =>
    simp only [Task.step]
    split
    · exact ⟨o, h⟩
    · split
      · exact h
      · exact ⟨o, h⟩
  | broadcast o =>
    simp only [Task.step]
    split <;> exact ⟨o, h⟩
  | await loops limit => cases loops <;> exact h
  | pump =>
    simp only [Task.step]
    split <;> exact h
  | tell t services => cases services <;> exact h
  | brief b => exact ⟨b, h⟩
  | _ => exact h

theorem reaches_enter {r : Request κ} {t : Task κ} {e : Engine κ} {i : Nat} {o : Outcome κ} (h : r.Reaches t)
    (ho : t.enter? e i = some o) : r.Reaches o.task ∧ ∀ hold, o.hold = some hold → o.task = .call .inside ∧ r.Holds hold := by
  rcases enter_cases ho with ⟨query, rfl, ⟨-, rfl⟩ | ⟨-, rfl⟩⟩ | ⟨origin, peer, endpoint, rfl, ⟨-, rfl⟩ | ⟨-, rfl⟩⟩ |
    ⟨limit, rfl, rfl⟩ | ⟨facts, rfl, rfl⟩
  · exact ⟨⟨.call (.enqueue query), h⟩, fun _ hh => Option.some.inj hh ▸ ⟨rfl, h⟩⟩
  · exact ⟨⟨.call (.enqueue query), h⟩, fun _ hh => Option.some.inj hh ▸ ⟨rfl, h⟩⟩
  · exact ⟨.inl h, forall_of_none⟩
  · exact ⟨⟨.call (.register origin peer endpoint), h⟩, fun _ hh => Option.some.inj hh ▸ ⟨rfl, h⟩⟩
  · exact ⟨.inr h, forall_of_none⟩
  · exact ⟨⟨.announce facts [] 0, h⟩, fun _ hh => Option.some.inj hh ▸ ⟨rfl, h⟩⟩

theorem reaches_hold {r : Request κ} {hold : Hold} (h : r.Holds hold) (e : Engine κ) (i now : Nat) :
    r.Reaches (hold.step e i now).task ∧
      ∀ hold', (hold.step e i now).hold = some hold' → (hold.step e i now).task = .call .inside ∧ r.Holds hold' := by
  cases hold with
  | announce facts links count =>
    cases links with
    | nil => exact ⟨⟨facts, h⟩, forall_of_none⟩
    | cons n links => exact ⟨⟨_, h⟩, fun _ hh => Option.some.inj hh ▸ ⟨rfl, h⟩⟩
  | call sec =>
    cases sec with
    | enqueue query => exact ⟨h, forall_of_none⟩
    | dispatch query links =>
      cases links with
      | nil => exact ⟨h, forall_of_none⟩
      | cons n links => exact ⟨⟨_, h⟩, fun _ hh => Option.some.inj hh ▸ ⟨rfl, h⟩⟩
    | register origin peer endpoint =>
      simp only [Hold.step, Section.step]
      split
      · exact ⟨.inl h, forall_of_none⟩
      · exact ⟨⟨_, h⟩, fun _ hh => Option.some.inj hh ▸ ⟨rfl, h⟩⟩
    | greet origin t replaced => exact ⟨⟨_, h⟩, fun _ hh => Option.some.inj hh ▸ ⟨rfl, h⟩⟩
    | release t replaced =>
      simp only [Hold.step, Section.step]
      split
      · exact ⟨.inl h, forall_of_none⟩
      · exact ⟨⟨_, h⟩, fun _ hh => Option.some.inj hh ▸ ⟨rfl, h⟩⟩

/-- A request that is no query, no sighting and no announcement is a shutdown, the pump, a start or a brief one. -/
theorem reaches_cases {r : Request κ} {t : Task κ} (hfind : ¬r.IsFind) (hsighting : ¬r.IsSighting)
    (hannounces : ∀ facts, ¬r.Announces facts) (h : r.Reaches t) :
    (∃ limit, r = .shutdown limit ∧ (t = .stop limit ∨ t = .hush limit ∨ t = .join limit ∨ (∃ loops, t = .await loops limit) ∨
      t = .call (.drain limit) ∨ (∃ links, t = .call (.close links limit)) ∨ t = .call (.done none))) ∨
    (r = .pump ∧ (t = .pump ∨ (∃ u, t = .inform u) ∨ ∃ u services, t = .tell u services)) ∨
    (∃ o, r = .start o) ∨ ∃ b, r = .brief b := by
  cases t with
  | stop limit | hush limit | join limit => exact .inl ⟨limit, h, by simp⟩
  | await loops limit => exact .inl ⟨limit, h, by simp⟩
  | pump => exact .inr (.inl ⟨h, .inl rfl⟩)
  | inform u => exact .inr (.inl ⟨h, .inr (.inl ⟨u, rfl⟩)⟩)
  | tell u services => exact .inr (.inl ⟨h, .inr (.inr ⟨u, services, rfl⟩)⟩)
  | start o | name o | listen o | broadcast o => exact .inr (.inr (.inl ⟨o, h⟩))
  | started => exact .inr (.inr (.inl h))
  | brief b => exact .inr (.inr (.inr ⟨b, h⟩))
  | finished => exact .inr (.inr (.inr h))
  | host facts | note facts => exact absurd (.inr h) (hannounces facts)
  | announce facts | spread facts => exact absurd h (hannounces facts)
  | announced count =>
    obtain ⟨facts, h⟩ := h
    exact absurd h (hannounces facts)
  | call c =>
    cases c with
    | find facts k => exact absurd ⟨facts, k, h⟩ hfind
    | lookUp | number | remember | submit => exact absurd h hfind
    | sight => exact absurd h hsighting
    | stop => exact h.elim
    | drain limit => exact .inl ⟨limit, h, by simp⟩
    | close links limit => exact .inl ⟨limit, h.resolve_left hsighting, by simp⟩
    | done outcome =>
      cases outcome with
      | some => exact absurd h hfind
      | none =>
        obtain ⟨limit, h⟩ := h.resolve_left hsighting
        exact .inl ⟨limit, h, by simp⟩
    | inside =>
      obtain ⟨hold, h⟩ := h
      cases hold with
      | announce facts => exact absurd h (hannounces facts)
      | call sec =>
        cases sec with
        | enqueue | dispatch => exact absurd h hfind
        | register | greet | release => exact absurd h hsighting

theorem reaches_shutdown {limit : Nat} {t : Task κ} (h : (Request.shutdown limit).Reaches t) :
    t = .stop limit ∨ t = .hush limit ∨ t = .join limit ∨ (∃ loops, t = .await loops limit) ∨ t = .call (.drain limit) ∨
      (∃ links, t = .call (.close links limit)) ∨ t = .call (.done none) := by
  rcases reaches_cases (by simp [IsFind]) (by simp [IsSighting]) (by simp [Announces]) h with
    ⟨limit', hr, ht⟩ | ⟨hr, -⟩ | ⟨o, hr⟩ | ⟨b, hr⟩ <;> cases hr
  exact ht

theorem reaches_pump {t : Task κ} (h : Request.pump.Reaches t) :
    t = .pump ∨ (∃ u, t = .inform u) ∨ ∃ u services, t = .tell u services := by
  rcases reaches_cases (by simp [IsFind]) (by simp [IsSighting]) (by simp [Announces]) h with
    ⟨limit, hr, -⟩ | ⟨-, ht⟩ | ⟨o, hr⟩ | ⟨b, hr⟩
  · cases hr
  · exact ht
  · cases hr
  · cases hr

end Request

/-- Every job is at a task of its request, and the job that holds the lock is inside. -/
structure Fit (s : State κ) : Prop where
  reaches : ∀ j ∈ s.jobs, j.request.Reaches j.task
  holds : ∀ i hold, s.holder = some (i, hold) →
    ∃ j, s.jobs[i]? = some j ∧ j.task = .call .inside ∧ j.request.Holds hold

namespace Fit

variable {s : State κ}

theorem goFree (h : Fit s) {i : Nat} {j : Job κ} (hj : s.jobs[i]? = some j) (hf : s.IsFree i j) (now : Nat) :
    Fit (s.goFree i now j) := by
  refine ⟨forall_mem_set h.reaches i (Request.reaches_step (h.reaches j (List.mem_of_getElem? hj)) s.shared now), ?_⟩
  intro i' hold hh
  obtain ⟨j', hj', ht⟩ := h.holds i' hold hh
  have hne : i ≠ i' := fun hi => hf.1 hold (hi ▸ hh)
  exact ⟨j', by rwa [State.goFree, List.getElem?_set_ne hne], ht⟩

theorem settle (h : Fit s) {i : Nat} {j : Job κ} {o : Outcome κ} (hj : s.jobs[i]? = some j)
    (ho : j.request.Reaches o.task ∧ ∀ hold, o.hold = some hold → o.task = .call .inside ∧ j.request.Holds hold) :
    Fit (s.settle i j o) := by
  refine ⟨forall_mem_set h.reaches i ho.1, fun i' hold hh => ?_⟩
  obtain ⟨hold', ho', heq⟩ := Option.map_eq_some_iff.1 hh
  cases heq
  obtain ⟨ht, hr⟩ := ho.2 hold ho'
  exact ⟨_, List.getElem?_set_self (List.getElem?_eq_some_iff.1 hj).1, ht, hr⟩

/-- A job that neither holds the lock nor wants it goes on in any case. -/
theorem go_free (h : Fit s) {i : Nat} {j : Job κ} (hj : s.jobs[i]? = some j) (hfree : j.task.enter? s.engine i = none)
    (hinside : j.task ≠ .call .inside) (now : Nat) : s.go (.job i now) = s.goFree i now j := by
  simp only [State.go, State.goJob, hj]
  cases hs : s.holder with
  | none => simp only [hfree]
  | some x =>
    refine if_neg fun hi => ?_
    obtain ⟨j', hj', hholder, -⟩ := h.holds x.1 x.2 hs
    obtain rfl := Option.some.inj ((hi ▸ hj').symm.trans hj)
    exact hinside hholder

theorem begin (h : Fit s) (r : Request κ) : Fit (s.go (.begin r)) := by
  refine ⟨forall_mem_concat h.reaches (r.reaches_task _), fun i hold hh => ?_⟩
  obtain ⟨j, hj, ht⟩ := h.holds i hold hh
  exact ⟨j, getElem?_append_of_some hj _, ht⟩

theorem enter (h : Fit s) {i : Nat} {j : Job κ} {o : Outcome κ} (hj : s.jobs[i]? = some j)
    (ho : j.task.enter? s.engine i = some o) : Fit (s.enter i j o) := by
  have hh := h.settle hj (Request.reaches_enter (h.reaches j (List.mem_of_getElem? hj)) ho)
  exact ⟨hh.reaches, hh.holds⟩

theorem hold (h : Fit s) {i : Nat} {j : Job κ} {hold : Hold} (hj : s.jobs[i]? = some j)
    (hs : s.holder = some (i, hold)) (now : Nat) : Fit (s.settle i j (hold.step s.engine i now)) := by
  obtain ⟨j', hj', -, hr⟩ := h.holds i hold hs
  obtain rfl : j' = j := Option.some.inj (hj'.symm.trans hj)
  exact h.settle hj (Request.reaches_hold hr s.engine i now)

theorem go (h : Fit s) (m : Move κ) : Fit (s.go m) :=
  State.go_rule h m h.begin (fun _ => ⟨h.reaches, h.holds⟩) (fun _ now _ hj hf => h.goFree hj hf now)
    (fun _ _ _ hj _ ho => h.enter hj ho) fun _ now _ _ hj hs => h.hold hj hs now

theorem run (h : Fit s) (ms : List (Move κ)) : Fit (s.run ms) := State.run_rule (fun _ m h => h.go m) h ms

end Fit
end Activity
end PeerDiscovery
