import PeerDiscovery.Proofs.Activity.Ownership

/-! Every tracker is told of every service of the node.
A service comes to a tracker in one of two ways. Whoever takes on a service announces it to the registry, and the
pump announces all services to a tracker that was discovered. A service is recorded before it is announced, and a
tracker is in the registry before the pump hears of it, so the second of the two finds the first. `Covers` says
who is still about to announce a service to a tracker, and `Reaching` that there is somebody at any time. -/
namespace PeerDiscovery
namespace Activity

open Discovery (Engine Tracker Link Subscriber OpenAt Origin)
open Discovery.Interleaving (Call Section registry openLink)

variable {κ : Type}

/-- A service was announced on a link. -/
def HasAnnounced (e : Engine κ) (n : Nat) (facts : FactSet) : Prop :=
  ∃ l, e.links[n]? = some l ∧ ∃ m ∈ l.sent, m.message = .announce facts

/-- A link that takes no envelopes, although nobody closed it. -/
def IsBroken (e : Engine κ) (n : Nat) : Prop := ∃ l, e.links[n]? = some l ∧ l.closes = [] ∧ l.accepting = false

/-- The stop flag stays, what was sent was sent, and no link breaks. -/
structure Keeps (e e' : Engine κ) : Prop where
  stopped : e'.stopped = e.stopped
  announced : ∀ n facts, HasAnnounced e n facts → HasAnnounced e' n facts
  broken : ∀ n, IsBroken e' n → IsBroken e n

theorem announced_modifyLink {e : Engine κ} {n : Nat} {f : Link → Link} (hf : ∀ l, l.sent <+: (f l).sent) {k : Nat}
    {facts : FactSet} (h : HasAnnounced e k facts) : HasAnnounced (e.modifyLink n f) k facts := by
  obtain ⟨l, hl, m, hm, hfacts⟩ := h
  by_cases hk : n = k
  · exact ⟨f l, by simp [hk, hl], m, (hf l).subset hm, hfacts⟩
  · exact ⟨l, by simp [List.getElem?_modify_ne _ _ hk, hl], m, hm, hfacts⟩

namespace Keeps

variable {e e' e'' : Engine κ}

theorem of_eq (hs : e'.stopped = e.stopped) (hl : e'.links = e.links) : Keeps e e' := by
  refine ⟨hs, fun n facts h => ?_, fun n h => ?_⟩
  · rwa [HasAnnounced, hl]
  · rwa [IsBroken, hl] at h

theorem refl (e : Engine κ) : Keeps e e := of_eq rfl rfl

theorem trans (h : Keeps e e') (h' : Keeps e' e'') : Keeps e e'' :=
  ⟨h'.stopped.trans h.stopped, fun n facts hh => h'.announced n facts (h.announced n facts hh),
    fun n hh => h.broken n (h'.broken n hh)⟩

theorem modifyLink (e : Engine κ) (n : Nat) {f : Link → Link} (hf : ∀ l, l.sent <+: (f l).sent)
    (hb : ∀ l, (f l).closes = [] → (f l).accepting = false → l.closes = [] ∧ l.accepting = false) :
    Keeps e (e.modifyLink n f) := by
  refine ⟨rfl, fun k facts h => announced_modifyLink hf h, fun k h => ?_⟩
  obtain ⟨l, hl, hc, ha⟩ := h
  rcases getElem?_modify_cases hl with ⟨rfl, l', hl', rfl⟩ | ⟨-, hl⟩
  · exact ⟨l', hl', hb l' hc ha⟩
  · exact ⟨l, hl, hc, ha⟩

theorem deliver (e : Engine κ) (n : Nat) (m : Envelope) : Keeps e (e.deliver n m).1 := by
  rw [Engine.deliver_eq]
  refine modifyLink e n (fun l => (later_takeAll l [m]).sent) fun l hc ha => ?_
  exact ⟨(later_takeAll l [m]).closes ▸ hc, by simpa using ha⟩

theorem takeId (e : Engine κ) : Keeps e e.takeId.1 := of_eq rfl rfl

theorem announceTo (e : Engine κ) (facts : FactSet) (n : Nat) : Keeps e (e.announceTo facts n).1 :=
  (takeId e).trans (deliver e.takeId.1 n _)

theorem sayHello (e : Engine κ) (n : Nat) : Keeps e (e.sayHello n) := by
  unfold Engine.sayHello
  split
  · exact refl e
  · exact (takeId e).trans (deliver e.takeId.1 n _)

theorem closeLink (e : Engine κ) (n limit : Nat) : Keeps e (e.closeLink n limit) :=
  modifyLink e n (fun _ => List.prefix_rfl) fun l hc => by simp [Link.close] at hc

theorem openLink (e : Engine κ) (peer : PeerId) (endpoint : Endpoint) (now : Nat) :
    Keeps e (openLink e peer endpoint now) := by
  refine ⟨rfl, fun n facts h => ?_, fun n h => ?_⟩
  · obtain ⟨l, hl, hm⟩ := h
    exact ⟨l, getElem?_append_of_some hl _, hm⟩
  · obtain ⟨l, hl, hc, ha⟩ := h
    rcases getElem?_concat_cases hl with hl | ⟨-, rfl⟩
    · exact ⟨l, hl, hc, ha⟩
    · cases ha

end Keeps

theorem announced_announceTo {e : Engine κ} {n : Nat} (ho : OpenAt e.links n) (hb : ¬IsBroken e n) (facts : FactSet) :
    HasAnnounced (e.announceTo facts n).1 n facts := by
  obtain ⟨l, hl, hc⟩ := ho
  have ha : l.accepting = true := by
    by_contra hh
    exact hb ⟨l, hl, hc, by simpa using hh⟩
  have he : (e.announceTo facts n).1 =
      e.takeId.1.modifyLink n fun l => l.takeAll [{ id := e.takeId.2, message := .announce facts }] :=
    Engine.deliver_eq ..
  rw [he]
  refine ⟨l.takeAll [{ id := e.takeId.2, message := .announce facts }], by simp [Engine.takeId, hl], ?_⟩
  rw [Link.takeAll_of_accepting ha]
  exact ⟨{ id := e.takeId.2, message := .announce facts }, by simp, rfl⟩

def Shared.subscription? (w : Shared κ) : Option Subscriber := w.engine.subscribers[w.subscriber]?

/-- The pump listens, and has not looked at these trackers yet. -/
def Shared.Waits (w : Shared κ) (ts : List Tracker) : Prop := w.subscription? = some { live := true, queue := ts }

theorem waits_step {w : Shared κ} {ts : List Tracker} (h : w.Waits ts) (now : Nat) (t : Task κ) :
    (t.step w now).1.Waits ts ∨
      ∃ u rest, ts = u :: rest ∧ t = .pump ∧ (t.step w now).2 = .inform u ∧ (t.step w now).1.Waits rest := by
  rcases step_cases w now t with ⟨_, _, _, _, _, hw, -⟩ | ⟨n, links, limit, rfl⟩ | ⟨query, k, rfl⟩ | ⟨facts, rfl⟩ |
    ⟨limit, rfl | rfl⟩ | ⟨engine, u, rfl, hnext⟩ | ⟨u, facts, services, rfl⟩ | ⟨b, rfl⟩
  · rw [hw]
    exact .inl h
  · exact .inl h
  · exact .inl h
  · exact .inl h
  · exact .inl h
  · exact .inl h
  · obtain ⟨s, rest, hs, hq, rfl⟩ := Engine.takeNext?_eq hnext
    obtain rfl : s = ⟨true, ts⟩ := Option.some.inj (hs.symm.trans h)
    refine .inr ⟨u, rest, hq, rfl, by simp only [Task.step, hnext], ?_⟩
    simp only [Task.step, hnext]
    exact List.getElem?_set_self (List.getElem?_eq_some_iff.1 hs).1
  · left
    change (w.engine.announceTo facts u.link).1.subscribers[w.subscriber]? = _
    rw [show (w.engine.announceTo facts u.link).1 = _ from Engine.deliver_eq ..]
    exact h
  · left
    cases b with
    | response m =>
      obtain ⟨inFlight, -, he⟩ := w.engine.onResponse_eq m
      change (w.engine.onResponse m).1.subscribers[w.subscriber]? = _
      rw [he]
      exact h
    | announceTo facts n =>
      change (w.engine.announceTo facts n).1.subscribers[w.subscriber]? = _
      rw [show (w.engine.announceTo facts n).1 = _ from Engine.deliver_eq ..]
      exact h
    | subscribe => exact getElem?_append_of_some h _
    | fill | fail => exact h

theorem waits_notify {w : Shared κ} {ts : List Tracker} (h : w.Waits ts) (t : Tracker) :
    ({ w with engine := w.engine.notify t } : Shared κ).Waits (ts ++ [t]) := by
  have hs : w.engine.subscribers[w.subscriber]? = some ⟨true, ts⟩ := h
  simp [Shared.Waits, Shared.subscription?, Engine.notify, hs]

/-- A request of the node's own: to take on a service, or to tell new trackers of the services. -/
def Request.IsOwn : Request κ → Prop
  | .host _ => True
  | .pump => True
  | _ => False

def Task.Promises (n : Nat) (facts : FactSet) : Task κ → Prop
  | .note f | .announce f | .spread f => f = facts
  | .inform t => t.link = n
  | .tell t services => t.link = n ∧ facts ∈ services
  | _ => False

/-- What is done with the lock leads to an announcement: at once, or because a new tracker is made known. -/
def Hold.Promises (n : Nat) (facts : FactSet) : Hold → Prop
  | .announce f links _ => f = facts ∧ n ∈ links
  | .call (.greet _ t _) => t.link = n
  | .call (.release t _) => t.link = n
  | _ => False

/-- The service was announced on the link, or somebody is about to do so. -/
inductive Covers (s : State κ) (n : Nat) (facts : FactSet) : Prop where
  | announced (h : HasAnnounced s.engine n facts)
  | waiting (ts : List Tracker) (t : Tracker) (h : s.shared.Waits ts) (ht : t ∈ ts) (hn : t.link = n)
  | job (i : Nat) (j : Job κ) (h : s.jobs[i]? = some j) (hr : j.request.IsOwn) (hp : j.task.Promises n facts)
  | holder (i : Nat) (hold : Hold) (h : s.holder = some (i, hold)) (hp : hold.Promises n facts)

def State.requests (s : State κ) : List (Request κ) := s.jobs.map fun j => j.request

theorem requests_set {s : State κ} {i : Nat} {j : Job κ} (hj : s.jobs[i]? = some j) (t : Task κ) :
    ((s.jobs.set i { j with task := t }).map fun j => j.request) = s.requests := by
  obtain ⟨hi, rfl⟩ := List.getElem?_eq_some_iff.1 hj
  refine List.ext_getElem? fun k => ?_
  by_cases hk : i = k
  · subst hk
    simp [State.requests, hi]
  · simp [State.requests, hk]

/-- There is somebody for every service and every tracker whose link is whole. -/
structure Reaching (s : State κ) : Prop where
  fit : Fit s
  owned : Owned s
  stopped : s.engine.stopped = false
  shutdown : ∀ limit, .shutdown limit ∉ s.requests
  waits : ∃ ts, s.shared.Waits ts
  broken : ∀ n, IsBroken s.engine n → .brief (.fail n) ∈ s.requests
  covers : ∀ n ∈ registry s.engine, .brief (.fail n) ∉ s.requests → ∀ facts ∈ s.shared.hosted, Covers s n facts

namespace Covers

variable {s s' : State κ} {n : Nat} {facts : FactSet}

/-- A step of one job. Only what that job does matters, and what becomes of the pump's subscription. -/
theorem go (h : Covers s n facts) {i : Nat} {j : Job κ} {t : Task κ} (hj : s.jobs[i]? = some j)
    (hjobs : s'.jobs = s.jobs.set i { j with task := t })
    (hannounced : HasAnnounced s.engine n facts → HasAnnounced s'.engine n facts)
    (hwaits : ∀ ts, s.shared.Waits ts → ∀ u ∈ ts, u.link = n → Covers s' n facts)
    (hjob : j.request.IsOwn → j.task.Promises n facts → Covers s' n facts)
    (hholder : ∀ i' hold, s.holder = some (i', hold) → hold.Promises n facts → Covers s' n facts) : Covers s' n facts := by
  cases h with
  | announced h => exact .announced (hannounced h)
  | waiting ts u h ht hn => exact hwaits ts h u ht hn
  | holder i' hold h hp => exact hholder i' hold h hp
  | job k j' h hr hp =>
    by_cases hk : i = k
    · subst hk
      obtain rfl : j' = j := Option.some.inj (h.symm.trans hj)
      exact hjob hr hp
    · exact .job k j' (by rwa [hjobs, List.getElem?_set_ne hk]) hr hp

end Covers

theorem promises_step {w : Shared κ} {n : Nat} {facts : FactSet} {t : Task κ} (h : t.Promises n facts)
    (hs : w.engine.stopped = false) (ho : OpenAt w.engine.links n) (hb : ¬IsBroken w.engine n) (hf : facts ∈ w.hosted)
    (now : Nat) : (t.step w now).2.Promises n facts ∨ HasAnnounced (t.step w now).1.engine n facts := by
  cases t with
  | note f =>
    left
    simp only [Task.step]
    split <;> exact h
  | announce f =>
    have hstep : (Task.announce f).step w now = (w, .spread f) := by simp [Task.step, hs]
    rw [hstep]
    exact .inl h
  | spread f => exact .inl h
  | inform u => exact .inl ⟨h, hf⟩
  | tell u services =>
    obtain ⟨rfl, hmem⟩ := h
    cases services with
    | nil => cases hmem
    | cons f services =>
      rcases List.mem_cons.1 hmem with rfl | hmem
      · exact .inr (announced_announceTo ho hb facts)
      · exact .inl ⟨rfl, hmem⟩
  | _ => exact h.elim

theorem keeps_step (w : Shared κ) (now : Nat) {t : Task κ} (hs : ∀ limit, t ≠ .stop limit ∧ t ≠ .call (.stop limit)) :
    Keeps w.engine (t.step w now).1.engine ∨
      ∃ n, t = .brief (.fail n) ∧ (t.step w now).1.engine = w.engine.modifyLink n Link.fail := by
  rcases step_cases w now t with ⟨_, _, _, _, _, hw, -⟩ | ⟨n, links, limit, rfl⟩ | ⟨query, k, rfl⟩ | ⟨facts, rfl⟩ |
    ⟨limit, rfl | rfl⟩ | ⟨engine, u, rfl, hnext⟩ | ⟨u, facts, services, rfl⟩ | ⟨b, rfl⟩
  · rw [hw]
    exact .inl (.of_eq rfl rfl)
  · exact .inl (.closeLink _ n limit)
  · exact .inl (.of_eq rfl rfl)
  · exact .inl (.refl _)
  · exact absurd rfl (hs limit).1
  · exact absurd rfl (hs limit).2
  · obtain ⟨s, rest, -, -, rfl⟩ := Engine.takeNext?_eq hnext
    simp only [Task.step, hnext]
    exact .inl (.of_eq rfl rfl)
  · exact .inl (.announceTo _ facts u.link)
  · cases b with
    | response m =>
      obtain ⟨inFlight, -, he⟩ := w.engine.onResponse_eq m
      simp only [Task.step, Brief.perform, he]
      exact .inl (.of_eq rfl rfl)
    | announceTo facts n => exact .inl (.announceTo _ facts n)
    | subscribe | fill => exact .inl (.of_eq rfl rfl)
    | fail n => exact .inr ⟨n, rfl, rfl⟩

theorem hosted_step {w : Shared κ} {now : Nat} {t : Task κ} {facts : FactSet} (h : facts ∈ (t.step w now).1.hosted) :
    facts ∈ w.hosted ∨ t = .host facts := by
  rcases step_cases w now t with ⟨_, _, _, _, _, hw, -⟩ | ⟨n, links, limit, rfl⟩ | ⟨query, k, rfl⟩ | ⟨f, rfl⟩ |
    ⟨limit, rfl | rfl⟩ | ⟨engine, u, rfl, hnext⟩ | ⟨u, f, services, rfl⟩ | ⟨b, rfl⟩
  · rw [hw] at h
    exact .inl h
  · exact .inl h
  · exact .inl h
  · simp only [Task.step] at h
    split at h
    · exact .inl h
    · rcases List.mem_append.1 h with h | h
      · exact .inl h
      · exact .inr (List.mem_singleton.1 h ▸ rfl)
  · exact .inl h
  · exact .inl h
  · simp only [Task.step, hnext] at h
    exact .inl h
  · exact .inl h
  · exact .inl h

/-- Envelopes are sent. The registry and the subscriptions are left alone. -/
structure Sends (e e' : Engine κ) : Prop extends Keeps e e' where
  registry : registry e' = registry e
  subscribers : e'.subscribers = e.subscribers

theorem sends_deliver (e : Engine κ) (n : Nat) (m : Envelope) : Sends e (e.deliver n m).1 := by
  refine ⟨.deliver e n m, (Mild.deliver e n m).registry, ?_⟩
  rw [Engine.deliver_eq]
  rfl

theorem sends_announceTo (e : Engine κ) (facts : FactSet) (n : Nat) : Sends e (e.announceTo facts n).1 := by
  refine ⟨.announceTo e facts n, (Mild.announceTo e facts n).registry, ?_⟩
  exact (sends_deliver e.takeId.1 n _).subscribers

theorem sends_sayHello (e : Engine κ) (n : Nat) : Sends e (e.sayHello n) := by
  refine ⟨.sayHello e n, (Mild.sayHello e n).registry, ?_⟩
  unfold Engine.sayHello
  split
  · rfl
  · exact (sends_deliver e.takeId.1 n _).subscribers

/-- What a step with the lock can be. What it leaves undone of a promise is done in the steps after it. -/
theorem hold_cases (e : Engine κ) (i now : Nat) (hold : Hold) :
    (Sends e (hold.step e i now).engine ∧ ∀ n facts, hold.Promises n facts → OpenAt e.links n → ¬IsBroken e n →
      HasAnnounced (hold.step e i now).engine n facts ∨
        ∃ hold', (hold.step e i now).hold = some hold' ∧ hold'.Promises n facts) ∨
    (∃ origin peer endpoint replaced, hold = .call (.register origin peer endpoint) ∧
      (hold.step e i now).engine = openLink e peer endpoint now ∧
      (hold.step e i now).hold = some (.call (.greet origin (e.newTracker peer endpoint now) replaced))) ∨
    ∃ t replaced, hold = .call (.release t replaced) ∧ (hold.step e i now).engine = e.notify t := by
  cases hold with
  | announce f links count =>
    cases links with
    | nil => exact .inl ⟨⟨.refl e, rfl, rfl⟩, fun n facts h => nomatch h.2⟩
    | cons k links =>
      refine .inl ⟨sends_announceTo e f k, fun n facts h ho hb => ?_⟩
      obtain ⟨rfl, hmem⟩ := h
      rcases List.mem_cons.1 hmem with rfl | hmem
      · exact .inl (announced_announceTo ho hb f)
      · exact .inr ⟨_, rfl, rfl, hmem⟩
  | call sec =>
    cases sec with
    | enqueue query => exact .inl ⟨⟨.of_eq rfl rfl, rfl, rfl⟩, fun n facts h => h.elim⟩
    | dispatch query links =>
      cases links with
      | nil => exact .inl ⟨⟨.refl e, rfl, rfl⟩, fun n facts h => h.elim⟩
      | cons k links => exact .inl ⟨sends_deliver e k query, fun n facts h => h.elim⟩
    | register origin peer endpoint =>
      rcases register_cases e i now origin peer endpoint with ho | ho
      · left
        rw [ho]
        exact ⟨⟨.of_eq rfl rfl, map_touch e peer now fun _ _ => rfl, rfl⟩, fun n facts h => h.elim⟩
      · right
        left
        rw [ho]
        exact ⟨origin, peer, endpoint, _, rfl, rfl, rfl⟩
    | greet origin t replaced =>
      refine .inl ⟨?_, fun n facts h _ _ => .inr ⟨_, rfl, h⟩⟩
      change Sends e (if origin = .beacon then e.sayHello t.link else e)
      split
      · exact sends_sayHello e t.link
      · exact ⟨.refl e, rfl, rfl⟩
    | release t replaced =>
      cases hpend : e.pending with
      | nil =>
        right
        right
        simp only [Hold.step, Section.step, hpend, Outcome.ofCall]
        exact ⟨t, replaced, rfl, rfl⟩
      | cons query rest =>
        left
        simp only [Hold.step, Section.step, hpend, Outcome.ofCall]
        have hs := sends_deliver { e with pending := rest } t.link query
        have hk : Keeps e { e with pending := rest } := .of_eq rfl rfl
        exact ⟨⟨hk.trans hs.toKeeps, hs.registry, hs.subscribers⟩, fun n facts h _ _ => .inr ⟨_, rfl, h⟩⟩

theorem registry_openLink {e : Engine κ} {peer : PeerId} {endpoint : Endpoint} {now n : Nat}
    (h : n ∈ registry (openLink e peer endpoint now)) : n ∈ registry e ∨ n = e.links.length := by
  rw [openLink_eq, registry, List.map_append] at h
  rcases List.mem_append.1 h with h | h
  · exact .inl ((List.filter_sublist.map fun t : Tracker => t.link).subset h)
  · exact .inr (List.mem_singleton.1 h)

namespace Reaching

variable {s : State κ}

theorem whole (h : Reaching s) {n : Nat} (hn : n ∈ registry s.engine) (hf : .brief (.fail n) ∉ s.requests) :
    OpenAt s.engine.links n ∧ ¬IsBroken s.engine n :=
  ⟨(h.owned.owns.mem_iff n).1 (List.mem_append_left _ hn), fun hb => hf (h.broken n hb)⟩

theorem begin (h : Reaching s) {r : Request κ} (hr : ∀ limit, r ≠ .shutdown limit) : Reaching (s.go (.begin r)) := by
  have hreq : (s.go (.begin r)).requests = s.requests ++ [r] := by simp [State.requests, State.go]
  refine ⟨h.fit.go _, h.owned.go h.fit _, h.stopped, fun limit hm => ?_, h.waits, fun n hb => ?_, fun n hn hf facts hh => ?_⟩
  · rw [hreq] at hm
    rcases List.mem_append.1 hm with hm | hm
    · exact h.shutdown limit hm
    · exact hr limit (List.mem_singleton.1 hm).symm
  · rw [hreq]
    exact List.mem_append_left _ (h.broken n hb)
  · rw [hreq] at hf
    cases h.covers n hn (fun hm => hf (List.mem_append_left _ hm)) facts hh with
    | announced h => exact .announced h
    | waiting ts t h ht hn => exact .waiting ts t h ht hn
    | job i j h hr hp => exact .job i j (getElem?_append_of_some h _) hr hp
    | holder i hold h hp => exact .holder i hold h hp

section

variable (h : Reaching s) {i : Nat} {j : Job κ} (hj : s.jobs[i]? = some j)
include h hj

/-- Nobody shuts the engine down, so a step without the lock keeps what was sent, or breaks a link on demand. -/
theorem keeps_goFree (now : Nat) : Keeps s.engine (s.goFree i now j).engine ∨ ∃ n, .brief (.fail n) ∈ s.requests ∧
    (s.goFree i now j).engine = s.engine.modifyLink n Link.fail := by
  have hreach := h.fit.reaches j (List.mem_of_getElem? hj)
  have hmem : j.request ∈ s.requests := List.mem_map.2 ⟨j, List.mem_of_getElem? hj, rfl⟩
  have hstop : ∀ limit, j.task ≠ .stop limit ∧ j.task ≠ .call (.stop limit) := by
    refine fun limit => ⟨fun ht => ?_, fun ht => ?_⟩
    · rw [ht] at hreach
      exact h.shutdown limit (hreach ▸ hmem)
    · rw [ht] at hreach
      exact hreach
  rcases keeps_step s.shared now hstop with hk | ⟨n, ht, he⟩
  · exact .inl hk
  · rw [ht] at hreach
    exact .inr ⟨n, hreach ▸ hmem, he⟩

theorem announced_goFree (now : Nat) {n : Nat} {facts : FactSet} (ha : HasAnnounced s.engine n facts) :
    HasAnnounced (s.goFree i now j).engine n facts := by
  rcases h.keeps_goFree hj now with hk | ⟨k, -, he⟩
  · exact hk.announced n facts ha
  · rw [he]
    exact announced_modifyLink (fun l => (later_fail l).sent) ha

theorem broken_goFree (now : Nat) {n : Nat} (hb : IsBroken (s.goFree i now j).engine n) : .brief (.fail n) ∈ s.requests := by
  rcases h.keeps_goFree hj now with hk | ⟨k, hmem, he⟩
  · exact h.broken n (hk.broken n hb)
  · rw [he] at hb
    obtain ⟨l, hl, hc, ha⟩ := hb
    rcases getElem?_modify_cases hl with ⟨rfl, -⟩ | ⟨-, hl⟩
    · exact hmem
    · exact h.broken n ⟨l, hl, hc, ha⟩

/-- A job that goes on keeps its promise, does what it promised, or takes on a service and promises to announce it. -/
theorem covers_goFree (now : Nat) {n : Nat} (hn : n ∈ registry s.engine) (hf : .brief (.fail n) ∉ s.requests)
    {facts : FactSet} (hh : facts ∈ (s.goFree i now j).shared.hosted) : Covers (s.goFree i now j) n facts := by
  have hreach := h.fit.reaches j (List.mem_of_getElem? hj)
  have hset : ∀ t, (s.jobs.set i { j with task := t })[i]? = some { j with task := t } :=
    fun t => List.getElem?_set_self (List.getElem?_eq_some_iff.1 hj).1
  rcases hosted_step hh with hh | ht
  · obtain ⟨hopen, hwhole⟩ := h.whole hn hf
    refine (h.covers n hn hf facts hh).go hj rfl (h.announced_goFree hj now) ?_ ?_
      fun i' hold hs hp => .holder i' hold hs hp
    · intro ts hts u hu hun
      rcases waits_step hts now j.task with hw | ⟨v, rest, rfl, ht, hinform, hw⟩
      · exact .waiting ts u hw hu hun
      · rcases List.mem_cons.1 hu with rfl | hu
        · have hr : j.request = .pump := by rwa [ht] at hreach
          refine .job i _ (hset _) (by rw [hr]; trivial) ?_
          rw [hinform]
          exact hun
        · exact .waiting rest u hw hu hun
    · intro hr hp
      rcases promises_step hp h.stopped hopen hwhole hh now with hp | ha
      · exact .job i _ (hset _) hr hp
      · exact .announced ha
  · have hr : j.request = .host facts := by rwa [ht] at hreach
    refine .job i _ (hset _) (by rw [hr]; trivial) ?_
    rw [ht]
    rfl

theorem goFree (hfree : s.IsFree i j) (now : Nat) : Reaching (s.goFree i now j) := by
  have hreq : (s.goFree i now j).requests = s.requests := requests_set hj _
  refine ⟨h.fit.goFree hj hfree now, h.owned.goFree hj, ?_, hreq ▸ h.shutdown, ?_, fun n hb => ?_, fun n hn hf facts hh => ?_⟩
  · rcases h.keeps_goFree hj now with hk | ⟨n, -, he⟩
    · exact hk.stopped.trans h.stopped
    · rw [he]
      exact h.stopped
  · obtain ⟨ts, hts⟩ := h.waits
    rcases waits_step hts now j.task with hh | ⟨u, rest, -, -, -, hh⟩
    · exact ⟨ts, hh⟩
    · exact ⟨rest, hh⟩
  · exact hreq ▸ h.broken_goFree hj now hb
  · rw [hreq] at hf
    exact h.covers_goFree hj now (registry_step s.shared now j.task ▸ hn) hf hh

end

theorem enter (h : Reaching s) {i : Nat} {j : Job κ} {o : Outcome κ} (hj : s.jobs[i]? = some j) (hs : s.holder = none)
    (ho : j.task.enter? s.engine i = some o) : Reaching (s.enter i j o) := by
  have hreach := h.fit.reaches j (List.mem_of_getElem? hj)
  have hmem : j.request ∈ s.requests := List.mem_map.2 ⟨j, List.mem_of_getElem? hj, rfl⟩
  have hreq : (s.enter i j o).requests = s.requests := requests_set hj _
  have hsame : o.engine = s.engine ∧ ∀ n facts, j.task.Promises n facts → n ∈ registry s.engine →
      ∃ hold, o.hold = some hold ∧ hold.Promises n facts := by
    rcases enter_cases ho with ⟨query, ht, ⟨-, rfl⟩ | ⟨-, rfl⟩⟩ | ⟨_, _, _, ht, ⟨-, rfl⟩ | ⟨-, rfl⟩⟩ |
      ⟨limit, ht, rfl⟩ | ⟨f, ht, rfl⟩
    · exact ⟨rfl, fun n facts hp => by rw [ht] at hp; exact hp.elim⟩
    · exact ⟨rfl, fun n facts hp => by rw [ht] at hp; exact hp.elim⟩
    · exact ⟨rfl, fun n facts hp => by rw [ht] at hp; exact hp.elim⟩
    · exact ⟨rfl, fun n facts hp => by rw [ht] at hp; exact hp.elim⟩
    · rw [ht] at hreach
      exact absurd (hreach ▸ hmem) (h.shutdown limit)
    · refine ⟨rfl, fun n facts hp hn => ⟨_, rfl, ?_, hn⟩⟩
      rwa [ht] at hp
  obtain ⟨he, hpromise⟩ := hsame
  have heng : (s.enter i j o).engine = s.engine := he
  have hshared : (s.enter i j o).shared = s.shared := by
    change { s.shared with engine := o.engine } = s.shared
    rw [he]
    rfl
  refine ⟨h.fit.enter hj ho, h.owned.enter hj hs ho, ?_, hreq ▸ h.shutdown, hshared ▸ h.waits, ?_, ?_⟩
  · rw [heng]
    exact h.stopped
  · rw [heng, hreq]
    exact h.broken
  · rw [heng, hreq, hshared]
    intro n hn hf facts hh
    refine (h.covers n hn hf facts hh).go hj rfl (fun ha => by rwa [heng]) ?_ ?_ ?_
    · exact fun ts hts u hu hun => .waiting ts u (by rwa [hshared]) hu hun
    · intro _ hp
      obtain ⟨hold, hhold, hp⟩ := hpromise n facts hp hn
      refine .holder i hold ?_ hp
      change o.hold.map (fun hold => (i, hold)) = _
      rw [hhold]
      rfl
    · intro i' hold hh
      rw [hs] at hh
      cases hh

/-- A step with the lock, which makes some trackers known. What was promised is done, or is promised still. -/
theorem settle (h : Reaching s) {i : Nat} {j : Job κ} {hold : Hold} {o : Outcome κ} (hj : s.jobs[i]? = some j)
    (hs : s.holder = some (i, hold)) (hfit : Fit (s.settle i j o)) (howned : Owned (s.settle i j o))
    (hkeeps : Keeps s.engine o.engine) (more : List Tracker)
    (hwaits : ∀ ts, s.shared.Waits ts → (s.settle i j o).shared.Waits (ts ++ more))
    (hnew : ∀ n ∈ registry o.engine, n ∈ registry s.engine ∨ ∀ facts, Covers (s.settle i j o) n facts)
    (hpromise : ∀ n facts, hold.Promises n facts → OpenAt s.engine.links n → ¬IsBroken s.engine n →
      Covers (s.settle i j o) n facts) : Reaching (s.settle i j o) := by
  have hreq : (s.settle i j o).requests = s.requests := requests_set hj _
  refine ⟨hfit, howned, hkeeps.stopped.trans h.stopped, hreq ▸ h.shutdown, ?_, fun n hb => ?_, fun n hn hf facts hh => ?_⟩
  · obtain ⟨ts, hts⟩ := h.waits
    exact ⟨ts ++ more, hwaits ts hts⟩
  · rw [hreq]
    exact h.broken n (hkeeps.broken n hb)
  · rw [hreq] at hf
    rcases hnew n hn with hn | hcovers
    · obtain ⟨hopen, hwhole⟩ := h.whole hn hf
      refine (h.covers n hn hf facts hh).go hj rfl (hkeeps.announced n facts)
        (fun ts hts u hu hun => .waiting _ u (hwaits ts hts) (List.mem_append_left _ hu) hun) ?_ ?_
      · intro _ hp
        obtain ⟨j', hj', hinside, -⟩ := h.fit.holds i hold hs
        obtain rfl : j' = j := Option.some.inj (hj'.symm.trans hj)
        rw [hinside] at hp
        exact hp.elim
      · intro i' hold' hs' hp
        obtain ⟨-, rfl⟩ := Prod.mk.inj (Option.some.inj (hs.symm.trans hs'))
        exact hpromise n facts hp hopen hwhole
    · exact hcovers facts

theorem hold (h : Reaching s) {i : Nat} {j : Job κ} {hold : Hold} (hj : s.jobs[i]? = some j)
    (hs : s.holder = some (i, hold)) (now : Nat) : Reaching (s.settle i j (hold.step s.engine i now)) := by
  have hfit := h.fit.hold hj hs now
  have howned := h.owned.hold h.fit now hj hs
  have hholder : ∀ hold', (hold.step s.engine i now).hold = some hold' →
      (s.settle i j (hold.step s.engine i now)).holder = some (i, hold') :=
    fun hold' hh => congrArg (Option.map fun hold => (i, hold)) hh
  rcases hold_cases s.engine i now hold with ⟨hsends, hpromise⟩ | ⟨origin, peer, endpoint, replaced, rfl, he, ho⟩ |
    ⟨t, replaced, rfl, he⟩
  · refine h.settle hj hs hfit howned hsends.toKeeps [] (fun ts hts => ?_) (fun n hn => ?_) fun n facts hp hopen hwhole => ?_
    · change (hold.step s.engine i now).engine.subscribers[s.shared.subscriber]? = _
      rw [hsends.subscribers, List.append_nil]
      exact hts
    · exact .inl (hsends.registry ▸ hn)
    · rcases hpromise n facts hp hopen hwhole with ha | ⟨hold', hh, hp⟩
      · exact .announced ha
      · exact .holder i hold' (hholder hold' hh) hp
  · refine h.settle hj hs hfit howned (he ▸ .openLink s.engine peer endpoint now) [] (fun ts hts => ?_)
      (fun n hn => ?_) fun n facts hp _ _ => hp.elim
    · change (Hold.step s.engine i now (.call (.register origin peer endpoint))).engine.subscribers[s.shared.subscriber]? = _
      rw [he, List.append_nil]
      exact hts
    · rw [he] at hn
      rcases registry_openLink hn with hn | rfl
      · exact .inl hn
      · exact .inr fun facts => .holder i _ (hholder _ ho) rfl
  · have hw : ∀ ts, s.shared.Waits ts →
        (s.settle i j (Hold.step s.engine i now (.call (.release t replaced)))).shared.Waits (ts ++ [t]) := by
      intro ts hts
      have hh := waits_notify hts t
      rwa [← show _ = s.shared.engine.notify t from he] at hh
    refine h.settle hj hs hfit howned (he ▸ .of_eq rfl rfl) [t] hw (fun n hn => ?_) fun n facts hp _ _ => ?_
    · rw [he] at hn
      exact .inl hn
    · obtain ⟨ts, hts⟩ := h.waits
      exact .waiting _ t (hw ts hts) (by simp) hp

theorem stir (h : Reaching s) (x : Beacon.Stir) : Reaching (s.go (.stir x)) := by
  refine ⟨h.fit.go _, h.owned.go h.fit _, h.stopped, h.shutdown, h.waits, h.broken, fun n hn hf facts hh => ?_⟩
  cases h.covers n hn hf facts hh with
  | announced h => exact .announced h
  | waiting ts t h ht hn => exact .waiting ts t h ht hn
  | job i j h hr hp => exact .job i j h hr hp
  | holder i hold h hp => exact .holder i hold h hp

theorem go (h : Reaching s) {m : Move κ} (hm : ∀ limit, m ≠ .begin (.shutdown limit)) : Reaching (s.go m) := by
  cases m with
  | begin r => exact h.begin fun limit hr => hm limit (hr ▸ rfl)
  | stir x => exact h.stir x
  | job i now =>
    rw [State.go]
    rcases s.goJob_cases i now with hg | ⟨j, hj, ⟨hf, hg⟩ | ⟨o, hs, ho, hg⟩ | ⟨hold, hs, hg⟩⟩
    · rw [hg]
      exact h
    · rw [hg]
      exact h.goFree hj hf now
    · rw [hg]
      exact h.enter hj hs ho
    · rw [hg]
      exact h.hold hj hs now

theorem run (h : Reaching s) {ms : List (Move κ)} (hms : ∀ limit, .begin (.shutdown limit) ∉ ms) : Reaching (s.run ms) := by
  induction ms generalizing s with
  | nil => exact h
  | cons m ms ih =>
    refine ih (h.go fun limit hm => hms limit (hm ▸ List.mem_cons_self)) fun limit hm => ?_
    exact hms limit (List.mem_cons_of_mem _ hm)

end Reaching

/-- A node that was started and has discovered nobody. Its pump listens, and services may be on their way in. -/
structure IsFresh (s : State κ) : Prop where
  own : ∀ j ∈ s.jobs, j.request.IsOwn ∧ j.request.Reaches j.task
  holder : s.holder = none
  links : s.engine.links = []
  trackers : s.engine.trackers = []
  stopped : s.engine.stopped = false
  waits : s.shared.Waits []

theorem closing_of_isOwn {r : Request κ} {t : Task κ} (h : r.IsOwn) (hr : r.Reaches t) : t.closing = [] := by
  cases t with
  | call c =>
    cases c with
    | close links limit =>
      rcases hr with (⟨b, rfl⟩ | ⟨sender, address, port, rfl⟩) | rfl
      · exact h.elim
      · exact h.elim
      · exact h.elim
    | _ => rfl
  | _ => rfl

theorem IsFresh.reaching {s : State κ} (h : IsFresh s) : Reaching s := by
  have hreg : registry s.engine = [] := by rw [registry, h.trackers, List.map_nil]
  have hclosing : s.closing = [] := by
    rw [State.closing, h.holder]
    exact List.flatMap_eq_nil_iff.2 fun j hj => closing_of_isOwn (h.own j hj).1 (h.own j hj).2
  have hreq : ∀ r ∈ s.requests, r.IsOwn := by
    intro r hr
    obtain ⟨j, hj, rfl⟩ := List.mem_map.1 hr
    exact (h.own j hj).1
  have howned : Owned s := by
    refine ⟨⟨?_, fun n => ?_⟩, ?_, fun l hl => ?_⟩
    · rw [hreg, hclosing]
      exact List.nodup_nil
    · simp [hreg, hclosing, OpenAt, h.links]
    · simp [h.trackers]
    · simp [h.links] at hl
  refine ⟨⟨fun j hj => (h.own j hj).2, fun i hold hh => ?_⟩, howned, h.stopped, fun limit hm => hreq _ hm, ⟨[], h.waits⟩,
    fun n hb => ?_, fun n hn => ?_⟩
  · rw [h.holder] at hh
    cases hh
  · obtain ⟨l, hl, -⟩ := hb
    simp [h.links] at hl
  · simp [hreg] at hn

theorem requests_go (s : State κ) (m : Move κ) {r : Request κ} (h : r ∈ (s.go m).requests) :
    r ∈ s.requests ∨ m = .begin r := by
  cases m with
  | begin r' =>
    simp only [State.requests, State.go, List.map_append, List.mem_append, List.map_cons, List.map_nil,
      List.mem_singleton] at h
    rcases h with h | rfl
    · exact .inl h
    · exact .inr rfl
  | stir x => exact .inl h
  | job i now =>
    left
    rw [State.go] at h
    rcases s.goJob_cases i now with hg | ⟨j, hj, ⟨-, hg⟩ | ⟨o, -, -, hg⟩ | ⟨hold, -, hg⟩⟩
    · rwa [hg] at h
    · rw [hg, State.requests] at h
      exact requests_set hj _ ▸ h
    · rw [hg, State.requests] at h
      exact requests_set hj _ ▸ h
    · rw [hg, State.requests] at h
      exact requests_set hj _ ▸ h

theorem requests_run (s : State κ) (ms : List (Move κ)) {r : Request κ} (h : r ∈ (s.run ms).requests) :
    r ∈ s.requests ∨ .begin r ∈ ms := by
  induction ms generalizing s with
  | nil => exact .inl h
  | cons m ms ih =>
    rcases ih (s.go m) h with hr | hr
    · rcases requests_go s m hr with hr | rfl
      · exact .inl hr
      · exact .inr List.mem_cons_self
    · exact .inr (List.mem_cons_of_mem m hr)

/-- No tracker misses a service. Services are taken on, peers are sighted and the pump goes on, in any order and
with anything else under way but a shutdown. Once all services are taken on and the pump has looked at all
trackers that were discovered, every service of the node was announced to every tracker of the registry, unless
the link of the tracker broke. -/
theorem services_announced {s : State κ} (h : IsFresh s) {ms : List (Move κ)}
    (hms : ∀ limit, .begin (.shutdown limit) ∉ ms) (hlock : (s.run ms).holder = none)
    (hhost : ∀ j ∈ (s.run ms).jobs, ∀ facts, j.request = .host facts → ∃ count, j.task = .announced count)
    (hpump : ∀ j ∈ (s.run ms).jobs, j.request = .pump → j.task = .pump) (hwaits : (s.run ms).shared.Waits []) :
    ∀ t ∈ (s.run ms).engine.trackers, .begin (.brief (.fail t.link)) ∉ ms →
      ∀ facts ∈ (s.run ms).shared.hosted, HasAnnounced (s.run ms).engine t.link facts := by
  intro t ht hfail facts hfacts
  have hreach := h.reaching.run hms
  have hf : .brief (.fail t.link) ∉ (s.run ms).requests := by
    intro hr
    rcases requests_run s ms hr with hr | hr
    · obtain ⟨j, hj, hr⟩ := List.mem_map.1 hr
      have hown := (h.own j hj).1
      rw [hr] at hown
      exact hown
    · exact hfail hr
  cases hreach.covers t.link (List.mem_map.2 ⟨t, ht, rfl⟩) hf facts hfacts with
  | announced h => exact h
  | waiting ts u h hu =>
    obtain rfl : ts = [] := by simpa using Option.some.inj (h.symm.trans hwaits)
    cases hu
  | holder i hold h =>
    rw [hlock] at h
    cases h
  | job i j hj hr hp =>
    have hj := List.mem_of_getElem? hj
    cases hreq : j.request with
    | host f =>
      obtain ⟨count, htask⟩ := hhost j hj f hreq
      rw [htask] at hp
      exact hp.elim
    | pump =>
      rw [hpump j hj hreq] at hp
      exact hp.elim
    | _ =>
      rw [hreq] at hr
      exact hr.elim

/-- A peer is sighted while the node takes on a clock, with an echo that it has already. The clock is recorded
before the link of the peer is made and announced after it, so the peer hears of it twice. -/
theorem services_announced_twice :
    let self : PeerId := ⟨List.replicate 16 0, rfl⟩
    let peer : PeerId := ⟨List.replicate 16 1, rfl⟩
    let echo : FactSet := ⟨[("name", "echo")], List.pairwise_singleton ..⟩
    let clock : FactSet := ⟨[("name", "clock")], List.pairwise_singleton ..⟩
    let engine : Engine Unit := { self, closeLimit := 8, started := true, endpoint := some (.tcp "10.0.0.1" 1), subscribers := [{}] }
    let s : State Unit := { shared := { engine, air := { station := { interval := 1000 } }, hosted := [echo] } }
    let ms : List (Move Unit) :=
      [.begin (.host clock), .begin .pump, .begin (.beacon ⟨peer, .tcp "10.0.0.2" 2⟩), .job 2 5, .job 0 5, .job 2 5,
        .job 0 5, .job 0 5, .job 0 5, .job 2 6, .job 2 6, .job 0 6, .job 2 6, .job 1 7, .job 1 7, .job 0 7, .job 1 7, .job 0 7, .job 1 8,
        .job 1 8]
    (s.run ms).engine.links.map (fun l => l.sent.map fun m => m.message) =
      [[.hello "10.0.0.1" 1, .announce clock, .announce echo, .announce clock]] ∧
    HasAnnounced (s.run ms).engine 0 echo ∧ HasAnnounced (s.run ms).engine 0 clock := by
  intro self peer echo clock engine s ms
  have hfresh : IsFresh s := ⟨by simp [s], rfl, rfl, rfl, rfl, rfl⟩
  have hjobs : (s.run ms).jobs = [⟨.host clock, .announced 1⟩, ⟨.pump, .pump⟩,
      ⟨.beacon ⟨peer, .tcp "10.0.0.2" 2⟩, .call (.done none)⟩] := by decide +kernel
  have hlock : (s.run ms).holder = none := by decide +kernel
  have hwaits : (s.run ms).shared.subscription? = some { live := true, queue := [] } := by decide +kernel
  have htrackers : (s.run ms).engine.trackers = [⟨peer, .tcp "10.0.0.2" 2, 0, 5⟩] := by decide +kernel
  have hhosted : (s.run ms).shared.hosted = [echo, clock] := by decide +kernel
  have hms : ∀ limit, .begin (.shutdown limit) ∉ ms := by simp [ms]
  have h := services_announced hfresh hms hlock (by simp [hjobs]) (by simp [hjobs]) hwaits _
    (htrackers ▸ List.mem_cons_self) (by simp [ms])
  exact ⟨by decide +kernel, h echo (by simp [hhosted]), h clock (by simp [hhosted])⟩

end Activity
end PeerDiscovery
