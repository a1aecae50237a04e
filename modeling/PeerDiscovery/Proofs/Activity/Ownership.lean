import PeerDiscovery.Proofs.Activity.Jobs
import PeerDiscovery.Proofs.Discovery.Connections

/-! Who owns which link while jobs are under way.
Most steps are mild: they let links take envelopes or break, and leave the registry and the queries that wait
alone. Over any steps, a link that was never closed is owned by its tracker, or by the one job that is about
to close it: `Owned.run`. -/
namespace PeerDiscovery
namespace Activity

open Discovery (Engine Tracker Link Owns OpenAt openAt_append openAt_close Origin)
open Discovery.Interleaving (Call Section registry openLink)

variable {κ : Type}

/-- The link after it took envelopes, or broke. A link that takes none does not change. -/
structure Later (l l' : Link) : Prop where
  closes : l'.closes = l.closes
  sent : l.sent <+: l'.sent
  refused : l.accepting = false → l' = l

theorem Later.refl (l : Link) : Later l l := ⟨rfl, List.prefix_rfl, fun _ => rfl⟩

theorem Later.trans {l l' l'' : Link} (h : Later l l') (h' : Later l' l'') : Later l l'' := by
  refine ⟨h'.closes.trans h.closes, h.sent.trans h'.sent, fun hl => ?_⟩
  have hl' := h.refused hl
  rw [h'.refused (hl' ▸ hl), hl']

theorem later_takeAll (l : Link) (es : List Envelope) : Later l (l.takeAll es) := by
  by_cases h : l.accepting = true
  · rw [Link.takeAll_of_accepting h]
    exact ⟨rfl, List.prefix_append _ _, fun hh => absurd (h.symm.trans hh) Bool.noConfusion⟩
  · have hh : l.takeAll es = l := by simp [Link.takeAll, h]
    rw [hh]
    exact .refl l

theorem later_fail (l : Link) : Later l l.fail := by
  refine ⟨rfl, List.prefix_rfl, fun h => ?_⟩
  unfold Link.fail
  rw [← h]

/-- The registry and the queries that wait are left alone, and links only take envelopes or break. -/
structure Mild (e e' : Engine κ) : Prop where
  trackers : e'.trackers = e.trackers
  pending : e'.pending = e.pending
  stopped : e.stopped = true → e'.stopped = true
  length : e'.links.length = e.links.length
  links : ∀ (n : Nat) (l : Link), e.links[n]? = some l → ∃ l', e'.links[n]? = some l' ∧ Later l l'

namespace Mild

variable {e e' e'' : Engine κ}

theorem of_eq (ht : e'.trackers = e.trackers) (hp : e'.pending = e.pending)
    (hs : e.stopped = true → e'.stopped = true) (hl : e'.links = e.links) : Mild e e' :=
  ⟨ht, hp, hs, by rw [hl], fun n l h => ⟨l, by rw [hl, h], .refl l⟩⟩

theorem refl (e : Engine κ) : Mild e e := of_eq rfl rfl id rfl

theorem trans (h : Mild e e') (h' : Mild e' e'') : Mild e e'' := by
  refine ⟨h'.trackers.trans h.trackers, h'.pending.trans h.pending, fun hs => h'.stopped (h.stopped hs),
    h'.length.trans h.length, fun n l hl => ?_⟩
  obtain ⟨l', hl', hlater⟩ := h.links n l hl
  obtain ⟨l'', hl'', hlater'⟩ := h'.links n l' hl'
  exact ⟨l'', hl'', hlater.trans hlater'⟩

theorem takeId (e : Engine κ) : Mild e e.takeId.1 := of_eq rfl rfl id rfl

theorem modifyLink (e : Engine κ) (n : Nat) {f : Link → Link} (hf : ∀ l, Later l (f l)) :
    Mild e (e.modifyLink n f) := by
  refine ⟨rfl, rfl, id, List.length_modify .., fun m l hl => ?_⟩
  by_cases hm : n = m
  · exact ⟨f l, by simp [hm, hl], hf l⟩
  · exact ⟨l, by simp [List.getElem?_modify_ne _ _ hm, hl], .refl l⟩

theorem deliver (e : Engine κ) (n : Nat) (m : Envelope) : Mild e (e.deliver n m).1 := by
  rw [Engine.deliver_eq]
  exact modifyLink e n fun l => later_takeAll l [m]

theorem announceTo (e : Engine κ) (facts : FactSet) (n : Nat) : Mild e (e.announceTo facts n).1 :=
  (takeId e).trans (deliver e.takeId.1 n _)

theorem sayHello (e : Engine κ) (n : Nat) : Mild e (e.sayHello n) := by
  unfold Engine.sayHello
  split
  · exact refl e
  · exact (takeId e).trans (deliver e.takeId.1 n _)

theorem link_before (h : Mild e e') {n : Nat} {l' : Link} (hl : e'.links[n]? = some l') :
    ∃ l, e.links[n]? = some l ∧ Later l l' := by
  have hn : n < e.links.length := by
    rw [← h.length]
    exact (List.getElem?_eq_some_iff.1 hl).1
  obtain ⟨k, hk, hlater⟩ := h.links n _ (List.getElem?_eq_getElem hn)
  obtain rfl : k = l' := Option.some.inj (hk.symm.trans hl)
  exact ⟨_, List.getElem?_eq_getElem hn, hlater⟩

theorem openAt (h : Mild e e') (n : Nat) : OpenAt e'.links n ↔ OpenAt e.links n := by
  constructor
  · rintro ⟨l', hl', ho⟩
    obtain ⟨l, hl, hlater⟩ := h.link_before hl'
    exact ⟨l, hl, hlater.closes ▸ ho⟩
  · rintro ⟨l, hl, ho⟩
    obtain ⟨l', hl', hlater⟩ := h.links n l hl
    exact ⟨l', hl', hlater.closes.trans ho⟩

theorem registry (h : Mild e e') : registry e' = registry e := by
  simp only [Discovery.Interleaving.registry, h.trackers]

end Mild

theorem mild_perform (e : Engine κ) (b : Brief κ) : Mild e (b.perform e).1 := by
  cases b with
  | response m =>
    obtain ⟨inFlight, -, h⟩ := Engine.onResponse_eq e m
    rw [Brief.perform, h]
    exact .of_eq rfl rfl id rfl
  | announceTo facts n => exact .announceTo e facts n
  | subscribe => exact .of_eq rfl rfl id rfl
  | fill directory => exact .of_eq rfl rfl id rfl
  | fail n => exact .modifyLink e n later_fail

theorem mild_step (w : Shared κ) (now : Nat) {t : Task κ}
    (ht : ∀ n links limit, t ≠ .call (.close (n :: links) limit)) :
    Mild w.engine (t.step w now).1.engine ∧ (t.step w now).2.closing = t.closing := by
  rcases step_cases w now t with ⟨_, _, _, _, _, hw, hc⟩ | ⟨n, links, limit, rfl⟩ | ⟨query, k, rfl⟩ | ⟨facts, rfl⟩ |
    ⟨limit, rfl | rfl⟩ | ⟨engine, u, rfl, hnext⟩ | ⟨u, facts, services, rfl⟩ | ⟨b, rfl⟩
  · rw [hw]
    exact ⟨.of_eq rfl rfl id rfl, hc⟩
  · exact absurd rfl (ht n links limit)
  · exact ⟨.of_eq rfl rfl id rfl, rfl⟩
  · exact ⟨.refl _, rfl⟩
  · exact ⟨.of_eq rfl rfl (fun _ => rfl) rfl, rfl⟩
  · exact ⟨.of_eq rfl rfl (fun _ => rfl) rfl, rfl⟩
  · obtain ⟨s, rest, -, -, rfl⟩ := Engine.takeNext?_eq hnext
    simp only [Task.step, hnext]
    exact ⟨.of_eq rfl rfl id rfl, rfl⟩
  · exact ⟨.announceTo _ facts u.link, rfl⟩
  · exact ⟨mild_perform _ b, rfl⟩

/-- A step without the lock leaves the trackers and the number of links alone, and what a stop did. -/
theorem trackers_step (w : Shared κ) (now : Nat) (t : Task κ) :
    (t.step w now).1.engine.trackers = w.engine.trackers ∧
      (t.step w now).1.engine.links.length = w.engine.links.length ∧
      (w.engine.stopped = true → (t.step w now).1.engine.stopped = true) := by
  by_cases ht : ∃ n links limit, t = .call (.close (n :: links) limit)
  · obtain ⟨n, links, limit, rfl⟩ := ht
    exact ⟨rfl, List.length_modify .., id⟩
  · have hm := (mild_step w now fun n links limit h => ht ⟨n, links, limit, h⟩).1
    exact ⟨hm.trackers, hm.length, hm.stopped⟩

theorem registry_step (w : Shared κ) (now : Nat) (t : Task κ) : registry (t.step w now).1.engine = registry w.engine := by
  simp only [registry, (trackers_step w now t).1]

/-- A sighting, once it has the lock: of a peer that is known, or of a new one. -/
theorem register_cases (e : Engine κ) (i now : Nat) (origin : Origin) (peer : PeerId) (endpoint : Endpoint) :
    Hold.step e i now (.call (.register origin peer endpoint)) = ⟨e.touch peer now, .call (.done none), none⟩ ∨
    Hold.step e i now (.call (.register origin peer endpoint)) = ⟨openLink e peer endpoint now, .call .inside,
      some (.call (.greet origin (e.newTracker peer endpoint now) ((e.tracker? peer).map fun t => t.link).toList))⟩ := by
  by_cases h : (e.tracker? peer).map (fun t => t.endpoint) = some endpoint
  · left
    rw [Hold.step, Section.step, if_pos h]
    rfl
  · right
    rw [Hold.step, Section.step, if_neg h]
    rfl

theorem map_touch {β : Type} (e : Engine κ) (peer : PeerId) (now : Nat) {f : Tracker → β}
    (hf : ∀ t now, f { t with lastSeen := now } = f t) : (e.touch peer now).trackers.map f = e.trackers.map f := by
  rw [Engine.touch, List.map_map]
  refine List.map_congr_left fun t _ => ?_
  rw [Function.comp_apply]
  split
  · exact hf t now
  · rfl

/-- What is done with the lock is to take in a sighting. -/
def Hold.IsRegister : Hold → Prop
  | .call (.register ..) => True
  | _ => False

theorem Hold.IsRegister.eq {hold : Hold} (h : hold.IsRegister) :
    ∃ origin peer endpoint, hold = .call (.register origin peer endpoint) := by
  cases hold with
  | announce => exact h.elim
  | call sec =>
    cases sec with
    | register origin peer endpoint => exact ⟨origin, peer, endpoint, rfl⟩
    | _ => exact h.elim

/-- Any other step with the lock is mild but for the queries that wait. -/
theorem mild_hold (e : Engine κ) (i now : Nat) {hold : Hold} (h : ¬hold.IsRegister) :
    (∃ pending, Mild { e with pending } (hold.step e i now).engine) ∧
      ((hold.step e i now).hold.map Hold.closing).getD [] ++ (hold.step e i now).task.closing = hold.closing ∧
      ∀ hold', (hold.step e i now).hold = some hold' → ¬hold'.IsRegister := by
  cases hold with
  | announce facts links count =>
    cases links with
    | nil => exact ⟨⟨_, .refl e⟩, rfl, forall_of_none⟩
    | cons n links => exact ⟨⟨_, .announceTo e facts n⟩, rfl, fun _ hh => Option.some.inj hh ▸ id⟩
  | call sec =>
    cases sec with
    | enqueue query => exact ⟨⟨e.pending ++ [query], .refl _⟩, rfl, forall_of_none⟩
    | dispatch query links =>
      cases links with
      | nil => exact ⟨⟨_, .refl e⟩, rfl, forall_of_none⟩
      | cons n links => exact ⟨⟨_, .deliver e n query⟩, rfl, fun _ hh => Option.some.inj hh ▸ id⟩
    | register => exact absurd trivial h
    | greet origin t replaced =>
      refine ⟨⟨e.pending, ?_⟩, List.append_nil _, fun _ hh => Option.some.inj hh ▸ id⟩
      change Mild e (if origin = .beacon then e.sayHello t.link else e)
      split
      · exact .sayHello e t.link
      · exact .refl e
    | release t replaced =>
      cases hpend : e.pending with
      | nil =>
        simp only [Hold.step, Section.step, hpend, Outcome.ofCall]
        exact ⟨⟨e.pending, .of_eq rfl rfl id rfl⟩, rfl, forall_of_none⟩
      | cons query rest =>
        simp only [Hold.step, Section.step, hpend, Outcome.ofCall]
        exact ⟨⟨rest, .deliver _ t.link query⟩, List.append_nil _, fun _ hh => Option.some.inj hh ▸ id⟩

/-- A job that gets the lock leaves the engine alone and has nothing to close, unless it empties the registry. -/
theorem enter_effect {t : Task κ} {e : Engine κ} {i : Nat} {o : Outcome κ} (ho : t.enter? e i = some o) :
    t.closing = [] ∧ ((o.engine = e ∧ t.drained e = none ∧ o.task.closing = [] ∧ (o.hold.map Hold.closing).getD [] = []) ∨
      ∃ limit, t = .call (.drain limit) ∧ o = ⟨e.drain.1, .call (.close (registry e) limit), none⟩) := by
  rcases enter_cases ho with ⟨query, rfl, ⟨-, rfl⟩ | ⟨-, rfl⟩⟩ | ⟨_, _, _, rfl, ⟨-, rfl⟩ | ⟨-, rfl⟩⟩ |
    ⟨limit, rfl, rfl⟩ | ⟨facts, rfl, rfl⟩
  · exact ⟨rfl, .inl ⟨rfl, rfl, rfl, rfl⟩⟩
  · exact ⟨rfl, .inl ⟨rfl, rfl, rfl, rfl⟩⟩
  · exact ⟨rfl, .inl ⟨rfl, rfl, rfl, rfl⟩⟩
  · exact ⟨rfl, .inl ⟨rfl, rfl, rfl, rfl⟩⟩
  · exact ⟨rfl, .inr ⟨limit, rfl, rfl⟩⟩
  · exact ⟨rfl, .inl ⟨rfl, rfl, rfl, rfl⟩⟩

/-- The links that the job which holds the lock will close. -/
def closingOf (holder : Option (Nat × Hold)) : List Nat := (holder.map fun x => x.2.closing).getD []

def State.closing (s : State κ) : List Nat := closingOf s.holder ++ s.jobs.flatMap fun j => j.task.closing

/-- A link that was never closed is that of one tracker, or one job is about to close it. -/
structure Owned (s : State κ) : Prop where
  owns : Owns (registry s.engine ++ s.closing) s.engine.links
  nodup : (s.engine.trackers.map fun t => t.peer).Nodup
  shut : ∀ l ∈ s.engine.links, l.closes ≠ [] → l.accepting = false

theorem owns_of_step {s s' : State κ} (h : Owned s) {i : Nat} {j : Job κ} {t : Task κ} (hj : s.jobs[i]? = some j)
    (hjobs : s'.jobs = s.jobs.set i { j with task := t })
    (hh : ∀ rest, Owns (registry s.engine ++ (closingOf s.holder ++ j.task.closing) ++ rest) s.engine.links →
      Owns (registry s'.engine ++ (closingOf s'.holder ++ t.closing) ++ rest) s'.engine.links) :
    Owns (registry s'.engine ++ s'.closing) s'.engine.links := by
  obtain ⟨rest, hbefore, hafter⟩ := flatMap_set_perm (fun j : Job κ => j.task.closing) hj
  have hb : (registry s.engine ++ s.closing).Perm
      (registry s.engine ++ (closingOf s.holder ++ j.task.closing) ++ rest) := by
    simp only [State.closing, List.append_assoc]
    exact (hbefore.append_left _).append_left _
  have ha : (registry s'.engine ++ s'.closing).Perm
      (registry s'.engine ++ (closingOf s'.holder ++ t.closing) ++ rest) := by
    simp only [State.closing, List.append_assoc, hjobs]
    exact ((hafter { j with task := t }).append_left _).append_left _
  exact (hh rest (h.owns.perm hb)).perm ha.symm

theorem mild_shut {e e' : Engine κ} (h : Mild e e') (hs : ∀ l ∈ e.links, l.closes ≠ [] → l.accepting = false) :
    ∀ l ∈ e'.links, l.closes ≠ [] → l.accepting = false := by
  intro l' hl' hc
  obtain ⟨n, hn⟩ := List.getElem?_of_mem hl'
  obtain ⟨l, hl, hlater⟩ := h.link_before hn
  have hacc := hs l (List.mem_of_getElem? hl) (hlater.closes ▸ hc)
  rw [hlater.refused hacc]
  exact hacc

theorem Owned.goFree {s : State κ} (h : Owned s) {i now : Nat} {j : Job κ} (hj : s.jobs[i]? = some j) :
    Owned (s.goFree i now j) := by
  by_cases hclose : ∃ n links limit, j.task = .call (.close (n :: links) limit)
  · obtain ⟨n, links, limit, ht⟩ := hclose
    have he : (s.goFree i now j).engine = s.engine.closeLink n limit := by
      rw [State.engine, State.goFree, ht]
      rfl
    refine ⟨owns_of_step h hj rfl fun rest hr => ?_, ?_, ?_⟩
    · rw [he, ht]
      rw [ht] at hr
      change Owns (registry s.engine ++ (closingOf s.holder ++ links) ++ rest) _
      have hperm : (registry s.engine ++ (closingOf s.holder ++ n :: links) ++ rest).Perm
          (n :: (registry s.engine ++ (closingOf s.holder ++ links) ++ rest)) := by
        rw [List.append_assoc, List.append_assoc, List.append_assoc, List.append_assoc, ← List.append_assoc,
          ← List.append_assoc (registry s.engine)]
        exact List.perm_middle
      exact (hr.perm hperm).closed limit
    · rw [he]
      exact h.nodup
    · rw [he]
      intro l hl hc
      obtain ⟨k, hk⟩ := List.getElem?_of_mem hl
      rcases getElem?_modify_cases hk with ⟨-, l', -, rfl⟩ | ⟨-, hk⟩
      · rfl
      · exact h.shut l (List.mem_of_getElem? hk) hc
  · obtain ⟨hm, hc⟩ := mild_step s.shared now fun n links limit ht => hclose ⟨n, links, limit, ht⟩
    have hm : Mild s.engine (s.goFree i now j).engine := hm
    refine ⟨owns_of_step h hj rfl fun rest hr => ?_, ?_, mild_shut hm h.shut⟩
    · rw [hm.registry, hc]
      exact hr.same hm.openAt
    · rw [hm.trackers]
      exact h.nodup

theorem Owned.enter {s : State κ} (h : Owned s) {i : Nat} {j : Job κ} {o : Outcome κ} (hj : s.jobs[i]? = some j)
    (hs : s.holder = none) (ho : j.task.enter? s.engine i = some o) : Owned (s.enter i j o) := by
  obtain ⟨hjob, ⟨he, -, htask, hhold⟩ | ⟨limit, ht, rfl⟩⟩ := enter_effect ho
  · have he : (s.enter i j o).engine = s.engine := he
    refine ⟨owns_of_step h hj rfl fun rest hr => ?_, he ▸ h.nodup, he ▸ h.shut⟩
    change Owns (registry (s.enter i j o).engine ++ (closingOf (o.hold.map fun hold => (i, hold)) ++ o.task.closing) ++ rest) _
    rw [he, htask, closingOf, Option.map_map]
    rw [hs, hjob] at hr
    rw [show ((o.hold.map ((fun x => x.2.closing) ∘ fun hold => (i, hold))).getD []) = [] from hhold]
    exact hr
  · refine ⟨owns_of_step h hj rfl fun rest hr => ?_, List.nodup_nil, h.shut⟩
    rw [hs, ht] at hr
    change Owns ([] ++ ([] ++ registry s.engine) ++ rest) s.engine.links
    simpa [closingOf, Task.closing] using hr

theorem Owned.settle {s : State κ} (h : Owned s) (hfit : Fit s) {i : Nat} {j : Job κ} {hold : Hold} {o : Outcome κ}
    (hj : s.jobs[i]? = some j) (hs : s.holder = some (i, hold)) (hp : o.engine.trackers.map (fun t => (t.link, t.peer)) =
      s.engine.trackers.map fun t => (t.link, t.peer))
    (ho : ∀ n, OpenAt o.engine.links n ↔ OpenAt s.engine.links n)
    (hshut : ∀ l ∈ o.engine.links, l.closes ≠ [] → l.accepting = false)
    (hc : closingOf (o.hold.map fun hold => (i, hold)) ++ o.task.closing = hold.closing) :
    Owned (s.settle i j o) := by
  have hr : registry o.engine = registry s.engine := by
    simpa [registry, Function.comp_def] using congrArg (List.map Prod.fst) hp
  have hpeers : o.engine.trackers.map (fun t => t.peer) = s.engine.trackers.map fun t => t.peer := by
    simpa [Function.comp_def] using congrArg (List.map Prod.snd) hp
  obtain ⟨j', hj', ht, -⟩ := hfit.holds i hold hs
  obtain rfl : j' = j := Option.some.inj (hj'.symm.trans hj)
  refine ⟨owns_of_step h hj rfl fun rest hrest => ?_, ?_, hshut⟩
  · rw [hs, ht] at hrest
    change Owns (registry o.engine ++ (closingOf (o.hold.map fun hold => (i, hold)) ++ o.task.closing) ++ rest) o.engine.links
    rw [hr, hc]
    simpa [closingOf, Task.closing] using hrest.same ho
  · change (o.engine.trackers.map fun t => t.peer).Nodup
    rw [hpeers]
    exact h.nodup

theorem openLink_eq (e : Engine κ) (peer : PeerId) (endpoint : Endpoint) (now : Nat) :
    openLink e peer endpoint now =
      { e with
        links := e.links ++ [Link.opened peer endpoint]
        trackers := e.trackers.filter (fun t => t.peer ≠ peer) ++ [e.newTracker peer endpoint now] } := rfl

/-- A new link is its tracker's, and the one in whose place it came is the job's to close. -/
theorem Owned.openLink {s : State κ} (h : Owned s) (hfit : Fit s) {i now : Nat} {j : Job κ} {origin : Origin} {peer : PeerId}
    {endpoint : Endpoint} (hj : s.jobs[i]? = some j)
    (hs : s.holder = some (i, .call (.register origin peer endpoint))) {o : Outcome κ}
    (he : o.engine = openLink s.engine peer endpoint now) (ht : o.task = .call .inside)
    (ho : o.hold = some (.call (.greet origin (s.engine.newTracker peer endpoint now)
      ((s.engine.tracker? peer).map fun t => t.link).toList))) : Owned (s.settle i j o) := by
  obtain ⟨j', hj', htask, -⟩ := hfit.holds i _ hs
  obtain rfl : j' = j := Option.some.inj (hj'.symm.trans hj)
  have hperm := (Engine.trackers_perm h.nodup peer).map fun t => t.link
  have hlink : (s.engine.newTracker peer endpoint now).link = s.engine.links.length := rfl
  refine ⟨owns_of_step h hj rfl fun rest hrest => ?_, ?_, ?_⟩
  · rw [hs, htask] at hrest
    change Owns (registry o.engine ++ (closingOf (o.hold.map fun hold => (i, hold)) ++ o.task.closing) ++ rest) o.engine.links
    rw [he, ht, ho, openLink_eq]
    have hbefore : Owns ((s.engine.tracker? peer).toList.map (fun t => t.link) ++
        (s.engine.trackers.filter fun t => t.peer ≠ peer).map (fun t => t.link) ++ rest) s.engine.links := by
      rw [← List.map_append]
      refine hrest.perm (List.Perm.append_right rest ?_)
      simpa [closingOf, Hold.closing, Task.closing, registry] using hperm
    refine (hbefore.opened (rfl : (Link.opened peer endpoint).closes = [])).perm ?_
    rw [List.perm_iff_count]
    intro n
    cases s.engine.tracker? peer with
    | none => simp [registry, closingOf, Hold.closing, Task.closing, hlink, List.count_append, List.count_cons]
    | some t =>
      simp [registry, closingOf, Hold.closing, Task.closing, hlink, List.count_append, List.count_cons]
      omega
  · change (o.engine.trackers.map fun t => t.peer).Nodup
    rw [he, openLink_eq, List.map_append]
    refine (h.nodup.sublist (List.filter_sublist.map fun t : Tracker => t.peer)).append (List.nodup_singleton _) ?_
    simp [Engine.newTracker]
  · change ∀ l ∈ o.engine.links, l.closes ≠ [] → l.accepting = false
    rw [he, openLink_eq]
    intro l hl hc
    rcases List.mem_append.1 hl with hl | hl
    · exact h.shut l hl hc
    · rw [List.mem_singleton.1 hl] at hc
      exact absurd rfl hc

theorem Owned.hold {s : State κ} (h : Owned s) (hfit : Fit s) {i : Nat} (now : Nat) {j : Job κ} {hold : Hold}
    (hj : s.jobs[i]? = some j) (hs : s.holder = some (i, hold)) :
    Owned (s.settle i j (hold.step s.engine i now)) := by
  by_cases hr : hold.IsRegister
  · obtain ⟨origin, peer, endpoint, rfl⟩ := hr.eq
    rcases register_cases s.engine i now origin peer endpoint with ho | ho
    · rw [ho]
      exact h.settle hfit hj hs (map_touch s.engine peer now fun _ _ => rfl) (fun _ => Iff.rfl) h.shut rfl
    · rw [ho]
      exact h.openLink hfit hj hs rfl rfl rfl
  · obtain ⟨⟨pending, hm⟩, hc, -⟩ := mild_hold s.engine i now hr
    refine h.settle hfit hj hs (by rw [hm.trackers]) hm.openAt (mild_shut hm h.shut) ?_
    rw [← hc, closingOf, Option.map_map]
    rfl

theorem closing_of_request (r : Request κ) (self : PeerId) : (r.task self).closing = [] := by
  cases r with
  | beacon b =>
    simp only [Request.task, Discovery.Interleaving.Request.call]
    split <;> rfl
  | hello sender address port =>
    simp only [Request.task, Discovery.Interleaving.Request.call]
    split
    · rfl
    · split <;> rfl
  | _ => rfl

theorem Owned.begin {s : State κ} (h : Owned s) (r : Request κ) : Owned (s.go (.begin r)) := by
  refine ⟨?_, h.nodup, h.shut⟩
  have hc : (s.go (.begin r)).closing = s.closing := by
    simp [State.closing, State.go, closing_of_request]
  rw [hc]
  exact h.owns

theorem Owned.go {s : State κ} (h : Owned s) (hfit : Fit s) (m : Move κ) : Owned (s.go m) :=
  State.go_rule h m h.begin (fun _ => ⟨h.owns, h.nodup, h.shut⟩) (fun _ _ _ hj _ => h.goFree hj)
    (fun _ _ _ hj hs ho => h.enter hj hs ho) fun _ now _ _ hj hs => h.hold hfit now hj hs

end Activity
end PeerDiscovery
