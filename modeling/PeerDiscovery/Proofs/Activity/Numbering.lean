import PeerDiscovery.Proofs.Activity.Jobs
import PeerDiscovery.Proofs.Discovery.Answers

/-! What correlation ids are drawn for, while jobs are under way.
One counter gives ids to hellos, to announcements and to queries. `Deal` says of one step of a job what it draws an id for,
and that nothing else goes to a link, waits for a tracker or is in flight than what has an id that was drawn for it. -/
namespace PeerDiscovery
namespace Activity

open Discovery (Engine Tracker Link Origin)
open Discovery.Interleaving (Call Section registry openLink)

variable {κ : Type}

inductive Use where
  | hello (link : Nat) (own : Endpoint)
  | announce (link : Nat) (facts : FactSet)
  | query (job : Nat) (facts : FactSet)

namespace Use

def envelope (id : CorrelationId) : Use → Envelope
  | .hello _ own => { id, message := .hello own.address own.port }
  | .announce _ facts => { id, message := .announce facts }
  | .query _ facts => { id, token := Envelope.queryToken, message := .query facts }

/-- The envelope can be on that link. Only a query can be on any. -/
def GoesTo (n : Nat) : Use → Prop
  | .hello link _ | .announce link _ => link = n
  | .query .. => True

def IsOf (i : Nat) : Use → Prop
  | .query job _ => job = i
  | _ => True

@[simp] theorem id_envelope (id : CorrelationId) (u : Use) : (u.envelope id).id = id := by
  cases u <;> rfl

theorem goesTo_of_type {u : Use} {id : CorrelationId} {n n' : Nat} (ht : (u.envelope id).type ≠ .query)
    (h : u.GoesTo n) (h' : u.GoesTo n') : n = n' := by
  cases u with
  | hello | announce => exact h.symm.trans h'
  | query => exact absurd rfl ht

end Use

/-- Ids, and what they were drawn for, the latest one at the end. -/
abbrev Draws := List (CorrelationId × Use)

/-- What is drawn next. -/
def draw (e : Engine κ) (use : Option Use) : Draws := (use.map fun u => (e.nextId, u)).toList

def Task.draws (i : Nat) : Task κ → Option Use
  | .call (.number facts _) => some (.query i facts)
  | .tell t (facts :: _) => some (.announce t.link facts)
  | .brief (.announceTo facts n) => some (.announce n facts)
  | _ => none

def Hold.draws (e : Engine κ) : Hold → Option Use
  | .call (.greet .beacon t _) => e.endpoint.map (.hello t.link)
  | .announce facts (n :: _) _ => some (.announce n facts)
  | _ => none

def State.draws (s : State κ) : Move κ → Option Use
  | .job i _ =>
    s.jobs[i]?.bind fun j =>
      match s.holder with
      | some (h, hold) => if i = h then hold.draws s.engine else j.task.draws i
      | none => j.task.draws i
  | _ => none

variable {drawn drawn' : Draws} {i : Nat}

/-- The envelope is a query, with the id that the job drew for it. -/
def Asked (drawn : Draws) (i : Nat) (q : Envelope) : Prop :=
  ∃ facts, (q.id, .query i facts) ∈ drawn ∧ q = (Use.query i facts).envelope q.id

theorem Asked.mono {q : Envelope} (h : Asked drawn i q) (hsub : drawn ⊆ drawn') : Asked drawn' i q := by
  obtain ⟨facts, hm, hq⟩ := h
  exact ⟨facts, hsub hm, hq⟩

theorem Asked.type {q : Envelope} (h : Asked drawn i q) : q.type = .query := by
  obtain ⟨facts, -, hq⟩ := h
  rw [hq]
  rfl

/-- What was drawn for a job that is at the task. For a query that has not gone out nothing was. -/
def Task.Accounted (drawn : Draws) (i : Nat) : Task κ → Prop
  | .call (.find ..) | .call (.lookUp ..) | .call (.number ..) | .call (.done (some (.local _)))
  | .call (.done (some .stopped)) => ∀ id facts, (id, Use.query i facts) ∉ drawn
  | .call (.remember q _) | .call (.submit q) => Asked drawn i q
  | .call (.done (some (.queued id))) | .call (.done (some (.dispatched id))) =>
    ∃ facts, (id, Use.query i facts) ∈ drawn
  | _ => True

def Hold.Accounted (drawn : Draws) (i : Nat) : Hold → Prop
  | .call (.enqueue q) | .call (.dispatch q _) => Asked drawn i q
  | _ => True

theorem Hold.Accounted.mono {hold : Hold} (h : hold.Accounted drawn i) (hsub : drawn ⊆ drawn') :
    hold.Accounted drawn' i := by
  cases hold with
  | announce => trivial
  | call sec =>
    cases sec with
    | enqueue | dispatch => exact Asked.mono h hsub
    | _ => trivial

/-- What is drawn for something else makes no difference to a job. -/
theorem Task.Accounted.append {t : Task κ} (h : t.Accounted drawn i) {more : Draws}
    (hmore : ∀ id facts, (id, Use.query i facts) ∉ more) : t.Accounted (drawn ++ more) i := by
  have hsub : drawn ⊆ drawn ++ more := List.subset_append_left drawn more
  have hnone : (∀ id facts, (id, Use.query i facts) ∉ drawn) → ∀ id facts, (id, Use.query i facts) ∉ drawn ++ more :=
    fun h id facts hm => (List.mem_append.1 hm).elim (h id facts) (hmore id facts)
  have hsome : ∀ id, (∃ facts, (id, Use.query i facts) ∈ drawn) → ∃ facts, (id, Use.query i facts) ∈ drawn ++ more :=
    fun id ⟨facts, hm⟩ => ⟨facts, hsub hm⟩
  cases t with
  | call c =>
    cases c with
    | find | lookUp | number => exact hnone h
    | remember | submit => exact Asked.mono h hsub
    | done outcome =>
      rcases outcome with - | ⟨count | id | id⟩
      · trivial
      · exact hnone h
      · exact hsome _ h
      · exact hsome _ h
      · exact hnone h
    | _ => trivial
  | _ => trivial

/-- The callback of the job's query, if it has one, is stored. -/
def Task.Stored : Task κ → Prop
  | .call (.find ..) | .call (.lookUp ..) | .call (.number ..) | .call (.remember ..) => False
  | _ => True

/-- Every link is as it was or has taken one envelope of some kind, or is new. -/
def Grows (P : Nat → Envelope → Prop) (ls ls' : List Link) : Prop :=
  ∀ (n : Nat) (l' : Link), ls'[n]? = some l' → l'.sent = [] ∨
    ∃ l, ls[n]? = some l ∧ (l'.sent = l.sent ∨ ∃ m, P n m ∧ l'.sent = l.sent ++ [m])

section Grows

variable {P : Nat → Envelope → Prop}

theorem Grows.refl (ls : List Link) : Grows P ls ls := fun _ l hl => .inr ⟨l, hl, .inl rfl⟩

theorem grows_modify (ls : List Link) (n : Nat) {f : Link → Link} (hf : ∀ l, (f l).sent = l.sent) :
    Grows P ls (ls.modify n f) := by
  intro k l' hl'
  rcases getElem?_modify_cases hl' with ⟨rfl, l, hl, rfl⟩ | ⟨-, hl⟩
  · exact .inr ⟨l, hl, .inl (hf l)⟩
  · exact .inr ⟨l', hl, .inl rfl⟩

theorem grows_deliver (e : Engine κ) {n : Nat} {m : Envelope} (h : P n m) : Grows P e.links (e.deliver n m).1.links := by
  rw [Engine.deliver_eq]
  intro k l' hl'
  rcases getElem?_modify_cases hl' with ⟨rfl, l, hl, rfl⟩ | ⟨-, hl⟩
  · refine .inr ⟨l, hl, ?_⟩
    unfold Link.takeAll
    split
    · exact .inr ⟨m, h, rfl⟩
    · exact .inl rfl
  · exact .inr ⟨l', hl, .inl rfl⟩

theorem grows_openLink (e : Engine κ) (peer : PeerId) (endpoint : Endpoint) (now : Nat) :
    Grows P e.links (openLink e peer endpoint now).links := by
  intro n l' hl'
  rcases getElem?_concat_cases hl' with hl | ⟨-, rfl⟩
  · exact .inr ⟨l', hl, .inl rfl⟩
  · exact .inl rfl

end Grows

/-- What a step that draws an id for `use` at most may put on a link: a query, or that for which it draws. -/
def Sendable (drawn : Draws) (e : Engine κ) (use : Option Use) (n : Nat) (m : Envelope) : Prop :=
  (∃ k, Asked drawn k m) ∨ ∃ u, use = some u ∧ u.GoesTo n ∧ m = u.envelope e.nextId

theorem Sendable.exists_use {e : Engine κ} {use : Option Use} {n : Nat} {m : Envelope} (h : Sendable drawn e use n m) :
    ∃ u, (m.id, u) ∈ drawn ++ draw e use ∧ m = u.envelope m.id ∧ u.GoesTo n := by
  rcases h with ⟨k, facts, hm, hq⟩ | ⟨u, rfl, hto, rfl⟩
  · exact ⟨.query k facts, List.mem_append_left _ hm, hq, trivial⟩
  · rw [Use.id_envelope]
    exact ⟨u, List.mem_append_right _ (List.mem_singleton_self _), rfl, hto⟩

/-- A step of job `i`, from one task to another, that draws an id for `use` at most. -/
structure Deal (drawn : Draws) (i : Nat) (e : Engine κ) (t : Task κ) (use : Option Use) (e' : Engine κ) (t' : Task κ) :
    Prop where
  issued : e'.issued = e.issued + use.toList.length
  links : Grows (Sendable drawn e use) e.links e'.links
  pending : ∀ m ∈ e'.pending, m ∈ e.pending ∨ Asked drawn i m
  inFlight : ∀ p ∈ e'.inFlight, p ∈ e.inFlight ∨ t'.Stored ∧ ∃ facts, (p.1, Use.query i facts) ∈ drawn
  task : t'.Accounted (drawn ++ draw e use) i
  stored : t.Stored → t'.Stored
  /-- A job draws an id for a query of its own only. -/
  own : ∀ u, use = some u → u.IsOf i

namespace Deal

variable {e e' : Engine κ} {t t' : Task κ}

theorem quiet (hissued : e'.issued = e.issued) (hlinks : ∀ P, Grows P e.links e'.links) (hpending : e'.pending = e.pending)
    (hinFlight : ∀ p ∈ e'.inFlight, p ∈ e.inFlight) (htask : t'.Accounted drawn i) (hstored : t.Stored → t'.Stored) :
    Deal drawn i e t none e' t' where
  issued := hissued
  links := hlinks _
  pending m hm := .inl (hpending ▸ hm)
  inFlight p hp := .inl (hinFlight p hp)
  task := by rwa [draw, Option.map_none, Option.toList_none, List.append_nil]
  stored := hstored
  own := forall_of_none

theorem same (htask : t'.Accounted drawn i) (hstored : t.Stored → t'.Stored) : Deal drawn i e t none e t' :=
  quiet rfl (fun _ => .refl _) rfl (fun _ h => h) htask hstored

theorem put {u : Use} {n : Nat} (hu : u.GoesTo n) (hown : u.IsOf i)
    (htask : ∀ drawn, t'.Accounted drawn i) (hstored : t.Stored → t'.Stored) :
    Deal drawn i e t (some u) (e.takeId.1.deliver n (u.envelope e.nextId)).1 t' where
  issued := by rw [Engine.deliver_eq]; rfl
  links := grows_deliver e.takeId.1 (.inr ⟨u, rfl, hu, rfl⟩)
  pending m hm := by
    rw [Engine.deliver_eq] at hm
    exact .inl hm
  inFlight p hp := by
    rw [Engine.deliver_eq] at hp
    exact .inl hp
  task := htask _
  stored := hstored
  own _ h := Option.some.inj h ▸ hown

theorem pass {q : Envelope} {k : Nat} (hq : Asked drawn k q) (n : Nat) (pending : List Envelope)
    (hpending : ∀ m ∈ pending, m ∈ e.pending) (htask : t'.Accounted drawn i) (hstored : t.Stored → t'.Stored) :
    Deal drawn i e t none ({ e with pending }.deliver n q).1 t' where
  issued := by rw [Engine.deliver_eq]; rfl
  links := grows_deliver { e with pending } (.inl ⟨k, hq⟩)
  pending m hm := by
    rw [Engine.deliver_eq] at hm
    exact .inl (hpending m hm)
  inFlight p hp := by
    rw [Engine.deliver_eq] at hp
    exact .inl hp
  task := by rwa [draw, Option.map_none, Option.toList_none, List.append_nil]
  stored := hstored
  own := forall_of_none

theorem job_eq {use : Option Use} (h : Deal drawn i e t use e' t') {id : CorrelationId} {k : Nat} {facts : FactSet}
    (hm : (id, .query k facts) ∈ draw e use) : k = i := by
  obtain ⟨u, hu, heq⟩ := Option.map_eq_some_iff.1 (Option.mem_toList.1 hm)
  cases heq
  exact h.own _ hu

end Deal

theorem deal_brief (e : Engine κ) (b : Brief κ) :
    Deal drawn i e (.brief b) ((Task.brief b).draws i) (b.perform e).1 .finished := by
  cases b with
  | response m =>
    obtain ⟨inFlight, hsub, h⟩ := Engine.onResponse_eq e m
    rw [Brief.perform, h]
    exact .quiet rfl (fun _ => .refl _) rfl (fun _ hp => hsub.subset hp) trivial id
  | announceTo facts n => exact .put (u := .announce n facts) rfl trivial (fun _ => trivial) id
  | subscribe | fill => exact .quiet rfl (fun _ => .refl _) rfl (fun _ hp => hp) trivial id
  | fail n => exact .quiet rfl (fun _ => grows_modify _ n fun _ => rfl) rfl (fun _ hp => hp) trivial id

theorem deal_call (w : Shared κ) (now : Nat) {c : Call κ} (h : (Task.call c).Accounted drawn i) :
    Deal drawn i w.engine (.call c) ((Task.call c).draws i) ((Task.call c).step w now).1.engine
      ((Task.call c).step w now).2 := by
  cases c with
  | find facts k =>
    simp only [Task.step, Call.step]
    split <;> exact .same h False.elim
  | lookUp facts k =>
    simp only [Task.step, Call.step]
    split
    · exact .same h id
    · exact .same h False.elim
  | number facts k =>
    exact {
      issued := rfl
      links := .refl _
      pending := fun _ hm => .inl hm
      inFlight := fun _ hp => .inl hp
      task := ⟨facts, List.mem_append_right _ List.mem_cons_self, rfl⟩
      stored := id
      own := fun _ hu => Option.some.inj hu ▸ rfl }
  | remember q k =>
    obtain ⟨facts, hm, -⟩ := id h
    refine {
      issued := rfl
      links := .refl _
      pending := fun _ hm => .inl hm
      inFlight := fun p hp => ?_
      task := Task.Accounted.append (t := .call (.submit q)) h fun _ _ => List.not_mem_nil
      stored := False.elim
      own := forall_of_none }
    rcases List.mem_append.1 hp with hp | hp
    · exact .inl (List.mem_filter.1 hp).1
    · rw [List.mem_singleton.1 hp]
      exact .inr ⟨trivial, facts, hm⟩
  | close links limit =>
    cases links with
    | nil => exact .same trivial id
    | cons n links => exact .quiet rfl (fun _ => grows_modify _ n fun _ => rfl) rfl (fun _ hp => hp) trivial id
  | stop limit => exact .quiet rfl (fun _ => .refl _) rfl (fun _ hp => hp) trivial id
  | submit | sight | drain | inside | done => exact .same h id

theorem deal_step (w : Shared κ) (now : Nat) {t : Task κ} (h : t.Accounted drawn i) :
    Deal drawn i w.engine t (t.draws i) (t.step w now).1.engine (t.step w now).2 := by
  cases t with
  | call c => exact deal_call w now h
  | brief b => exact deal_brief w.engine b
  | tell t services =>
    cases services with
    | nil => exact .same trivial id
    | cons facts services => exact .put (u := .announce t.link facts) rfl trivial (fun _ => trivial) id
  | note facts =>
    simp only [Task.step]
    split
    · exact .same trivial id
    · exact .quiet rfl (fun _ => .refl _) rfl (fun _ hp => hp) trivial id
  | announce facts =>
    simp only [Task.step]
    split <;> exact .same trivial id
  | start o =>
    simp only [Task.step]
    split
    · exact .same trivial id
    · exact .quiet rfl (fun _ => .refl _) rfl (fun _ hp => hp) trivial id
  | listen o =>
    simp only [Task.step]
    split
    · exact .same trivial id
    · split <;> exact .same trivial id
  | broadcast o =>
    simp only [Task.step]
    split <;> exact .same trivial id
  | await loops limit => cases loops <;> exact .same trivial id
  | pump =>
    simp only [Task.step]
    split
    · exact .same trivial id
    · next engine u hnext =>
      obtain ⟨s, rest, -, -, rfl⟩ := Engine.takeNext?_eq hnext
      exact .quiet rfl (fun _ => .refl _) rfl (fun _ hp => hp) trivial id
  | name | stop => exact .quiet rfl (fun _ => .refl _) rfl (fun _ hp => hp) trivial id
  | host | spread | announced | started | hush | join | inform | finished => exact .same trivial id

theorem deal_enter {e : Engine κ} {t : Task κ} {o : Outcome κ} (h : t.Accounted drawn i) (ho : t.enter? e i = some o) :
    Deal drawn i e t (t.draws i) o.engine o.task ∧ ∀ hold, o.hold = some hold → hold.Accounted drawn i := by
  rcases enter_cases ho with ⟨query, rfl, ⟨-, rfl⟩ | ⟨-, rfl⟩⟩ | ⟨origin, peer, endpoint, rfl, ⟨-, rfl⟩ | ⟨-, rfl⟩⟩ |
    ⟨limit, rfl, rfl⟩ | ⟨facts, rfl, rfl⟩
  · exact ⟨.same trivial id, fun _ hh => Option.some.inj hh ▸ h⟩
  · exact ⟨.same trivial id, fun _ hh => Option.some.inj hh ▸ h⟩
  · exact ⟨.same trivial id, forall_of_none⟩
  · exact ⟨.same trivial id, fun _ hh => Option.some.inj hh ▸ trivial⟩
  · exact ⟨.quiet rfl (fun _ => .refl _) rfl (fun _ hp => hp) trivial id, forall_of_none⟩
  · exact ⟨.same trivial id, fun _ hh => Option.some.inj hh ▸ trivial⟩

theorem deal_hold {e : Engine κ} {t : Task κ} {hold : Hold} (now : Nat) (h : hold.Accounted drawn i)
    (hpending : ∀ m ∈ e.pending, ∃ k, Asked drawn k m) :
    Deal drawn i e t (hold.draws e) (hold.step e i now).engine (hold.step e i now).task ∧
      ∀ hold', (hold.step e i now).hold = some hold' → hold'.Accounted drawn i := by
  cases hold with
  | announce facts links count =>
    cases links with
    | nil => exact ⟨.same trivial fun _ => trivial, forall_of_none⟩
    | cons n links =>
      exact ⟨.put (u := .announce n facts) rfl trivial (fun _ => trivial) fun _ => trivial,
        fun _ hh => Option.some.inj hh ▸ trivial⟩
  | call sec =>
    cases sec with
    | enqueue q =>
      obtain ⟨facts, hm, -⟩ := id h
      refine ⟨{
        issued := rfl
        links := .refl _
        pending := fun m hm => ?_
        inFlight := fun _ hp => .inl hp
        task := ⟨facts, List.mem_append_left _ hm⟩
        stored := fun _ => trivial
        own := forall_of_none }, forall_of_none⟩
      rcases List.mem_append.1 hm with hm | hm
      · exact .inl hm
      · rw [List.mem_singleton.1 hm]
        exact .inr h
    | dispatch q links =>
      cases links with
      | nil =>
        obtain ⟨facts, hm, -⟩ := id h
        exact ⟨.same ⟨facts, hm⟩ fun _ => trivial, forall_of_none⟩
      | cons n links =>
        refine ⟨.pass h n e.pending (fun _ hm => hm) ?_ fun _ => ?_, fun _ hh => Option.some.inj hh ▸ h⟩
        · trivial
        · trivial
    | register origin peer endpoint =>
      simp only [Hold.step, Section.step]
      split
      · exact ⟨.quiet rfl (fun _ => .refl _) rfl (fun _ hp => hp) trivial fun _ => trivial, forall_of_none⟩
      · exact ⟨.quiet rfl (fun _ => grows_openLink e peer endpoint now) rfl (fun _ hp => hp) trivial fun _ => trivial,
          fun _ hh => Option.some.inj hh ▸ trivial⟩
    | greet origin t' replaced =>
      refine ⟨?_, fun _ hh => Option.some.inj hh ▸ trivial⟩
      cases origin with
      | hello => exact .same trivial fun _ => trivial
      | beacon =>
        change Deal drawn i e t (e.endpoint.map (.hello t'.link)) (e.sayHello t'.link) (.call .inside)
        cases he : e.endpoint with
        | none =>
          have hsay : e.sayHello t'.link = e := by simp only [Engine.sayHello, he]
          rw [hsay]
          exact .same trivial fun _ => trivial
        | some own =>
          have hsay : e.sayHello t'.link =
              (e.takeId.1.deliver t'.link ((Use.hello t'.link own).envelope e.nextId)).1 := by
            simp only [Engine.sayHello, he]
            rfl
          rw [hsay]
          exact .put rfl trivial (fun _ => trivial) fun _ => trivial
    | release t' replaced =>
      simp only [Hold.step, Section.step]
      split
      · exact ⟨.quiet rfl (fun _ => .refl _) rfl (fun _ hp => hp) trivial fun _ => trivial, forall_of_none⟩
      · next q rest hp =>
        obtain ⟨k, hq⟩ := hpending q (hp ▸ List.mem_cons_self)
        refine ⟨.pass hq t'.link rest (fun m hm => ?_) ?_ fun _ => ?_, fun _ hh => Option.some.inj hh ▸ trivial⟩
        · rw [hp]
          exact List.mem_cons_of_mem q hm
        · trivial
        · trivial

end Activity
end PeerDiscovery
