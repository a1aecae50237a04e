import Mathlib.Data.List.Perm.Basic
import PeerDiscovery.Proofs.Discovery.Registry

/-! Who owns which link.
A link that was never closed has one owner: the tracker that holds its number, or whoever is about to
close it. Over a run of operations nobody is about to close anything, so the links that were never closed
are those of the trackers: `connections_owned`. -/
namespace PeerDiscovery
namespace Discovery

/-- The link with this number was never closed. -/
def OpenAt (ls : List Link) (n : Nat) : Prop := ∃ l, ls[n]? = some l ∧ l.closes = []

theorem OpenAt.lt {ls : List Link} {n : Nat} (h : OpenAt ls n) : n < ls.length := by
  obtain ⟨l, hl, -⟩ := h
  exact (List.getElem?_eq_some_iff.1 hl).1

theorem openAt_append {ls : List Link} {l : Link} (h : l.closes = []) (n : Nat) :
    OpenAt (ls ++ [l]) n ↔ OpenAt ls n ∨ n = ls.length := by
  constructor
  · rintro ⟨k, hk, ho⟩
    rcases getElem?_concat_cases hk with hk | ⟨hn, -⟩
    · exact .inl ⟨k, hk, ho⟩
    · exact .inr hn
  · rintro (⟨k, hk, ho⟩ | rfl)
    · exact ⟨k, getElem?_append_of_some hk _, ho⟩
    · exact ⟨l, List.getElem?_concat_length, h⟩

theorem openAt_modify {ls : List Link} {f : Link → Link} (h : ∀ l, (f l).closes = l.closes) (m n : Nat) :
    OpenAt (ls.modify m f) n ↔ OpenAt ls n := by
  unfold OpenAt
  rw [List.getElem?_modify]
  cases ls[n]? with
  | none => simp
  | some l =>
    by_cases hm : m = n
    · simp [hm, h]
    · simp [hm]

theorem openAt_close (ls : List Link) (m limit n : Nat) :
    OpenAt (ls.modify m fun l => l.close limit) n ↔ OpenAt ls n ∧ n ≠ m := by
  unfold OpenAt
  rw [List.getElem?_modify]
  cases ls[n]? with
  | none => simp
  | some l =>
    by_cases hm : m = n
    · simp [hm, Link.close]
    · simp [hm, Ne.symm hm]

/-- Each link that was never closed has one owner. -/
structure Owns (owners : List Nat) (ls : List Link) : Prop where
  nodup : owners.Nodup
  mem_iff : ∀ n, n ∈ owners ↔ OpenAt ls n

namespace Owns

variable {owners owners' : List Nat} {ls ls' : List Link}

theorem perm (h : Owns owners ls) (hp : owners.Perm owners') : Owns owners' ls :=
  ⟨hp.nodup_iff.1 h.nodup, fun n => hp.mem_iff.symm.trans (h.mem_iff n)⟩

theorem same (h : Owns owners ls) (hs : ∀ n, OpenAt ls' n ↔ OpenAt ls n) : Owns owners ls' :=
  ⟨h.nodup, fun n => (h.mem_iff n).trans (hs n).symm⟩

theorem opened (h : Owns owners ls) {l : Link} (hl : l.closes = []) :
    Owns (owners ++ [ls.length]) (ls ++ [l]) := by
  refine ⟨?_, fun n => ?_⟩
  · refine h.nodup.append (List.nodup_singleton _) (List.disjoint_singleton.2 fun hm => ?_)
    exact Nat.lt_irrefl _ ((h.mem_iff _).1 hm).lt
  · rw [openAt_append hl, List.mem_append, List.mem_singleton, h.mem_iff]

theorem closed {m : Nat} (h : Owns (m :: owners) ls) (limit : Nat) :
    Owns owners (ls.modify m fun l => l.close limit) := by
  obtain ⟨hm, hn⟩ := List.nodup_cons.1 h.nodup
  refine ⟨hn, fun n => ?_⟩
  rw [openAt_close, ← h.mem_iff, List.mem_cons]
  constructor
  · intro ho
    exact ⟨.inr ho, fun hh => hm (hh ▸ ho)⟩
  · rintro ⟨rfl | ho, hne⟩
    · exact absurd rfl hne
    · exact ho

end Owns

/-- A link that takes envelopes until it is closed, and is closed once at most. -/
structure Link.Lasting (l : Link) : Prop where
  accepting : l.accepting = true ↔ l.closes = []
  once : l.closes.length ≤ 1

/-- The links that are made, what is put on links, and the links that are closed with their limits. -/
structure Effects where
  made : List Link := []
  offered : List (Nat × Envelope) := []
  closed : List (Nat × Nat) := []

def offerEach (ls : List Link) (offers : List (Nat × Envelope)) : List Link :=
  offers.foldl (fun ls o => ls.modify o.1 fun l => (l.send o.2).1) ls

def closeEach (ls : List Link) (closings : List (Nat × Nat)) : List Link :=
  closings.foldl (fun ls c => ls.modify c.1 fun l => l.close c.2) ls

def Effects.apply (x : Effects) (ls : List Link) : List Link := closeEach (offerEach (ls ++ x.made) x.offered) x.closed

@[simp] theorem offerEach_nil (ls : List Link) : offerEach ls [] = ls := rfl

theorem offerEach_cons (ls : List Link) (o : Nat × Envelope) (offers : List (Nat × Envelope)) :
    offerEach ls (o :: offers) = offerEach (ls.modify o.1 fun l => (l.send o.2).1) offers := rfl

@[simp] theorem closeEach_nil (ls : List Link) : closeEach ls [] = ls := rfl

@[simp] theorem Effects.apply_none (ls : List Link) : Effects.apply {} ls = ls := List.append_nil ls

theorem offerEach_one (ls : List Link) (n : Nat) (envelopes : List Envelope) :
    offerEach ls (envelopes.map fun m => (n, m)) = ls.modify n fun l => l.takeAll envelopes := by
  induction envelopes generalizing ls with
  | nil =>
    simp only [List.map_nil, offerEach_nil, Link.takeAll_nil]
    exact (List.modify_id n ls).symm
  | cons m rest ih =>
    rw [List.map_cons, offerEach_cons, ih, List.modify_modify_eq]
    congr 1
    funext l
    simp [Link.send_eq_takeAll, Link.takeAll_takeAll]

theorem map_offerEach {β : Type} (f : Link → β) (hf : ∀ l m, f (l.send m).1 = f l) (ls : List Link)
    (offers : List (Nat × Envelope)) : (offerEach ls offers).map f = ls.map f := by
  induction offers generalizing ls with
  | nil => rfl
  | cons o offers ih => rw [offerEach_cons, ih, map_modify_of_same f _ (fun l => hf l o.2)]

theorem closes_send (l : Link) (m : Envelope) : (l.send m).1.closes = l.closes := by
  unfold Link.send
  split <;> rfl

theorem openAt_offerEach (ls : List Link) (offers : List (Nat × Envelope)) (n : Nat) :
    OpenAt (offerEach ls offers) n ↔ OpenAt ls n := by
  induction offers generalizing ls with
  | nil => rfl
  | cons o offers ih => rw [offerEach_cons, ih, openAt_modify fun l => closes_send l o.2]

theorem lasting_offerEach {ls : List Link} (h : ∀ l ∈ ls, l.Lasting) (offers : List (Nat × Envelope)) :
    ∀ l ∈ offerEach ls offers, l.Lasting := by
  intro l hl
  have hm : (l.accepting, l.closes) ∈ ls.map fun l => (l.accepting, l.closes) := by
    rw [← map_offerEach (fun l => (l.accepting, l.closes)) (fun l m => by simp [closes_send]) ls offers]
    exact List.mem_map_of_mem hl
  obtain ⟨k, hk, hkl⟩ := List.mem_map.1 hm
  obtain ⟨ha, hc⟩ := Prod.mk.inj hkl
  have hh := h k hk
  exact ⟨by rw [← ha, ← hc]; exact hh.accepting, by rw [← hc]; exact hh.once⟩

/-- Owners that close their links are owners no more, and each link is closed for the first time. -/
theorem Owns.closeEach {owners : List Nat} {ls : List Link} {closings : List (Nat × Nat)}
    (h : Owns (closings.map Prod.fst ++ owners) ls) (hl : ∀ l ∈ ls, l.Lasting) :
    Owns owners (Discovery.closeEach ls closings) ∧ ∀ l ∈ Discovery.closeEach ls closings, l.Lasting := by
  induction closings generalizing ls with
  | nil => exact ⟨h, hl⟩
  | cons c closings ih =>
    refine ih (h.closed c.2) fun l hm => ?_
    obtain ⟨k, hk⟩ := List.getElem?_of_mem hm
    rw [List.getElem?_modify] at hk
    obtain ⟨l', hl', hll⟩ := Option.map_eq_some_iff.1 hk
    have hlast := hl l' (List.mem_of_getElem? hl')
    by_cases hck : c.1 = k
    · obtain ⟨l'', hl'', ho⟩ := (h.mem_iff c.1).1 List.mem_cons_self
      obtain rfl : l'' = l' := Option.some.inj (hl''.symm.trans (hck ▸ hl'))
      rw [if_pos hck] at hll
      subst hll
      exact ⟨by simp [Link.close], by simp [Link.close, ho]⟩
    · rw [if_neg hck] at hll
      exact hll ▸ hlast

namespace Engine

variable {κ : Type}

def sightingEffects (e : Engine κ) (origin : Origin) : Option Sighting → Effects
  | none => {}
  | some s =>
    if e.stopped ∨ (e.tracker? s.peer).map (fun t => t.endpoint) = some s.endpoint then {}
    else
      { made := [Link.opened s.peer s.endpoint]
        offered := (e.greeting origin ++ e.pending).map fun m => (e.links.length, m)
        closed := ((e.tracker? s.peer).map fun t => (t.link, e.closeLimit)).toList }

/-- The announcements of a service on links, each under an id of its own. -/
def announcements (e : Engine κ) (facts : FactSet) : List Nat → List (Nat × Envelope)
  | [] => []
  | n :: rest => (n, { id := e.nextId, message := .announce facts }) :: e.takeId.1.announcements facts rest

/-- What an operation does with links. -/
def effects (e : Engine κ) : Operation κ → Effects
  | .beacon b now => e.sightingEffects .beacon ((Operation.beacon b now : Operation κ).sighting? e.self)
  | .hello sender address port now =>
    e.sightingEffects .hello ((Operation.hello sender address port now : Operation κ).sighting? e.self)
  | .find facts _ =>
    if e.stopped = false ∧ e.directory.query facts = [] then
      { offered := e.trackers.map fun t => (t.link, e.nextQuery facts) }
    else {}
  | .announce facts => if e.stopped then {} else { offered := e.announcements facts (e.trackers.map fun t => t.link) }
  | .announceTo facts n => { offered := e.announcements facts [n] }
  | .shutdown limit => { closed := e.trackers.map fun t => (t.link, limit) }
  | _ => {}

theorem announcements_modifyLink (e : Engine κ) (n : Nat) (f : Link → Link) (facts : FactSet) (links : List Nat) :
    (e.modifyLink n f).announcements facts links = e.announcements facts links := by
  induction links generalizing e with
  | nil => rfl
  | cons m links ih => exact congrArg (_ :: ·) (ih e.takeId.1)

theorem links_announceTo (e : Engine κ) (facts : FactSet) (n : Nat) :
    (e.announceTo facts n).1.links = offerEach e.links (e.announcements facts [n]) := by
  rw [announceTo_eq]
  simp only [announcements, offerEach_cons, offerEach_nil, Link.send_eq_takeAll]
  rfl

theorem links_announceAll (e : Engine κ) (facts : FactSet) (ts : List Tracker) :
    (e.announceAll facts ts).1.links = offerEach e.links (e.announcements facts (ts.map fun t => t.link)) := by
  induction ts generalizing e with
  | nil => rfl
  | cons t ts ih =>
    rw [announceAll_cons, ih, links_announceTo]
    have hh : (e.announceTo facts t.link).1.announcements facts (ts.map fun t => t.link) =
        e.takeId.1.announcements facts (ts.map fun t => t.link) := by
      rw [announceTo_eq, announcements_modifyLink]
      rfl
    rw [hh]
    rfl

theorem links_submit (e : Engine κ) (query : Envelope) :
    (e.submit query).1.links = offerEach e.links (e.trackers.map fun t => (t.link, query)) := by
  by_cases h : e.trackers = []
  · rw [submit_of_nil h, h]
    rfl
  · rw [submit_of_ne_nil h, spread_eq, offerEach, List.foldl_map, List.foldl_map]
    simp only [Link.send_eq_takeAll]

theorem links_discover (e : Engine κ) (origin : Origin) (peer : PeerId) (endpoint : Endpoint) (now : Nat) :
    (e.discover origin peer endpoint now).links =
      offerEach (e.links ++ [Link.opened peer endpoint])
        ((e.greeting origin ++ e.pending).map fun m => (e.links.length, m)) := by
  rw [discover_eq, offerEach_one, modify_length_append, Link.takeAll_of_accepting rfl]
  rfl

theorem links_sight (e : Engine κ) (origin : Origin) (s : Sighting) :
    (e.sight origin s.peer s.endpoint s.time).links = (e.sightingEffects origin (some s)).apply e.links := by
  rw [sight_eq, sightingEffects]
  rcases register_cases e origin s.peer s.endpoint s.time with ⟨hs, h⟩ | ⟨-, he, h⟩ | ⟨hs, he, h⟩
  · rw [h, if_pos (.inl hs), Effects.apply_none]
  · rw [h, if_pos (.inr he), Effects.apply_none]
    rfl
  · have hn : ¬(e.stopped = true ∨ (e.tracker? s.peer).map (fun t => t.endpoint) = some s.endpoint) :=
      fun hh => hh.elim (fun hh => absurd (hs.symm.trans hh) Bool.noConfusion) he
    have hlimit : (e.discover origin s.peer s.endpoint s.time).closeLimit = e.closeLimit := by rw [discover_eq]
    rw [h, if_neg hn]
    cases e.tracker? s.peer with
    | none => exact links_discover e origin s.peer s.endpoint s.time
    | some t =>
      simp only [Option.map_some, closeLink, modifyLink_links, links_discover, hlimit]
      rfl

/-- Links are changed as the effects say, whatever they take. Only a link that breaks does so by itself. -/
theorem links_perform (e : Engine κ) {op : Operation κ} (hop : ∀ n, op ≠ .fail n) :
    (e.perform op).links = (e.effects op).apply e.links := by
  cases op with
  | beacon b now =>
    rw [perform, onBeacon_eq, effects]
    cases (Operation.beacon b now : Operation κ).sighting? e.self with
    | none => exact (Effects.apply_none _).symm
    | some s => exact links_sight e .beacon s
  | hello sender address port now =>
    rw [perform, onHello_eq, effects]
    cases (Operation.hello sender address port now : Operation κ).sighting? e.self with
    | none => exact (Effects.apply_none _).symm
    | some s => exact links_sight e .hello s
  | find facts k =>
    rw [perform, effects]
    rcases find_cases e facts k with ⟨hs, h⟩ | ⟨-, hq, h⟩ | ⟨hs, hq, h⟩
    · rw [h, if_neg (by simp [hs]), Effects.apply_none]
    · rw [h, if_neg (by simp [hq]), Effects.apply_none]
    · rw [h, if_pos ⟨hs, hq⟩, links_submit]
      simp only [Effects.apply, List.append_nil, closeEach_nil]
      rfl
  | announce facts =>
    rw [perform, effects, announce]
    split
    · exact (Effects.apply_none _).symm
    · simp only [Effects.apply, List.append_nil, closeEach_nil, links_announceAll]
  | announceTo facts n =>
    rw [perform, effects, links_announceTo]
    simp only [Effects.apply, List.append_nil, closeEach_nil]
  | shutdown limit =>
    rw [perform, shutdown_eq, effects]
    simp only [Effects.apply, List.append_nil, offerEach_nil, closeEach, List.foldl_map]
  | response envelope =>
    change (e.onResponse envelope).1.links = Effects.apply {} e.links
    rw [Effects.apply_none]
    unfold onResponse
    split
    · split
      · split <;> rfl
      · rfl
    · rfl
  | start bound found beacons =>
    change (e.start bound found beacons).1.links = Effects.apply {} e.links
    rw [start_eq, Effects.apply_none]
  | subscribe | unsubscribe | takeDiscovered | fill => exact (Effects.apply_none _).symm
  | fail n => exact absurd rfl (hop n)

theorem effects_of_quiet (e : Engine κ) {op : Operation κ} (hd : ∀ limit, op ≠ .shutdown limit)
    (hs : op.sighting? e.self = none) : (e.effects op).made = [] ∧ (e.effects op).closed = [] := by
  cases op with
  | beacon | hello =>
    rw [effects, hs]
    exact ⟨rfl, rfl⟩
  | find | announce =>
    rw [effects]
    split <;> exact ⟨rfl, rfl⟩
  | shutdown limit => exact absurd rfl (hd limit)
  | _ => exact ⟨rfl, rfl⟩

theorem effects_of_sighting {e : Engine κ} {op : Operation κ} {s : Sighting} (hs : op.sighting? e.self = some s) :
    ∃ origin, e.effects op = e.sightingEffects origin (some s) := by
  cases op with
  | beacon b now => exact ⟨.beacon, by rw [effects, hs]⟩
  | hello sender address port now => exact ⟨.hello, by rw [effects, hs]⟩
  | _ => exact absurd hs (by simp [Operation.sighting?])

/-- The links that were never closed are those of the trackers, and lead to their peers. -/
structure Connected (e : Engine κ) : Prop where
  owns : Owns (e.trackers.map fun t => t.link) e.links
  nodup : (e.trackers.map fun t => t.peer).Nodup
  leads : ∀ t ∈ e.trackers, e.connections[t.link]? = some (t.peer, t.endpoint)
  lasting : ∀ l ∈ e.links, l.Lasting
  idle : e.stopped = true → e.trackers = []

theorem connected_new (self : PeerId) (closeLimit : Nat) (directory : Directory) :
    Connected (new self closeLimit directory : Engine κ) where
  owns := ⟨List.nodup_nil, fun n => ⟨fun h => absurd h List.not_mem_nil, fun h => absurd h.lt (Nat.not_lt_zero n)⟩⟩
  nodup := List.nodup_nil
  leads _ h := absurd h List.not_mem_nil
  lasting _ h := absurd h List.not_mem_nil
  idle _ := rfl

/-- The trackers are those of other peers and the one of this peer, if it has one. -/
theorem trackers_perm {e : Engine κ} (h : (e.trackers.map fun t => t.peer).Nodup) (peer : PeerId) :
    e.trackers.Perm ((e.tracker? peer).toList ++ e.trackers.filter fun t => t.peer ≠ peer) := by
  have hh : ∀ ts : List Tracker, (ts.map fun t => t.peer).Nodup →
      ts.filter (fun t => decide (t.peer = peer)) = (ts.find? fun t => decide (t.peer = peer)).toList := by
    intro ts
    induction ts with
    | nil => simp
    | cons t ts ih =>
      intro hts
      obtain ⟨ht, hts⟩ := List.nodup_cons.1 hts
      by_cases hp : t.peer = peer
      · have hn : ts.filter (fun t => decide (t.peer = peer)) = [] := by
          refine List.filter_eq_nil_iff.2 fun u hu hup => ht ?_
          exact List.mem_map.2 ⟨u, hu, (of_decide_eq_true hup).trans hp.symm⟩
        simp [hp, hn]
      · simp [hp, ih hts]
  rw [tracker?, ← hh e.trackers h]
  simpa using (List.filter_append_perm (fun t : Tracker => decide (t.peer = peer)) e.trackers).symm

/-- Envelopes on links, and a registry that says the same of links and peers. -/
theorem Connected.offered {e e' : Engine κ} (h : Connected e) (offers : List (Nat × Envelope))
    (ht : e'.trackers.map (fun t => (t.link, t.peer, t.endpoint)) =
      e.trackers.map fun t => (t.link, t.peer, t.endpoint))
    (hl : e'.links = offerEach e.links offers) (hs : e'.stopped = e.stopped) : Connected e' where
  owns := by
    have hh : e'.trackers.map (fun t => t.link) = e.trackers.map fun t => t.link := by
      simpa [Function.comp_def] using congrArg (List.map Prod.fst) ht
    rw [hh, hl]
    exact h.owns.same (openAt_offerEach e.links offers)
  nodup := by
    have hh : e'.trackers.map (fun t => t.peer) = e.trackers.map fun t => t.peer := by
      simpa [Function.comp_def] using congrArg (List.map fun x : Nat × PeerId × Endpoint => x.2.1) ht
    rw [hh]
    exact h.nodup
  leads t hm := by
    have hc : e'.connections = e.connections := by
      rw [connections, hl]
      exact map_offerEach _ (fun l m => by simp) e.links offers
    have hh : (t.link, t.peer, t.endpoint) ∈ e.trackers.map fun t => (t.link, t.peer, t.endpoint) := by
      rw [← ht]
      exact List.mem_map.2 ⟨t, hm, rfl⟩
    obtain ⟨u, hu, hut⟩ := List.mem_map.1 hh
    obtain ⟨h₁, h₂, h₃⟩ : u.link = t.link ∧ u.peer = t.peer ∧ u.endpoint = t.endpoint := by simpa using hut
    rw [hc, ← h₁, ← h₂, ← h₃]
    exact h.leads u hu
  lasting := by
    rw [hl]
    exact lasting_offerEach h.lasting offers
  idle hst := by
    have hh := h.idle (hs ▸ hst)
    rw [hh] at ht
    exact List.map_eq_nil_iff.1 ht

theorem trackers_sight_of_new {e : Engine κ} (hr : e.stopped = false) {s : Sighting}
    (hn : (e.tracker? s.peer).map (fun t => t.endpoint) ≠ some s.endpoint) (origin : Origin) :
    (e.sight origin s.peer s.endpoint s.time).trackers =
      e.trackers.filter (fun t => t.peer ≠ s.peer) ++ [e.newTracker s.peer s.endpoint s.time] := by
  rw [sight_eq]
  rcases register_cases e origin s.peer s.endpoint s.time with ⟨hs, -⟩ | ⟨-, he, -⟩ | ⟨-, -, h⟩
  · exact absurd (hr.symm.trans hs) Bool.noConfusion
  · exact absurd he hn
  · rw [h, discover_eq]
    cases e.tracker? s.peer <;> rfl

/-- A new link is owned by the new tracker, and the one in whose place it came is closed. -/
theorem Connected.moved {e : Engine κ} (h : Connected e) (hr : e.stopped = false) {s : Sighting}
    (hn : (e.tracker? s.peer).map (fun t => t.endpoint) ≠ some s.endpoint) (origin : Origin) :
    Connected (e.sight origin s.peer s.endpoint s.time) := by
  obtain ⟨-, hc, hp⟩ := sight_registry hr origin s
  rw [newConnection, if_neg hn] at hc
  have ht := trackers_sight_of_new hr hn origin
  have hl := links_sight e origin s
  have hs : ¬(e.stopped = true ∨ (e.tracker? s.peer).map (fun t => t.endpoint) = some s.endpoint) := by
    simp [hr, hn]
  rw [sightingEffects, if_neg hs] at hl
  set closing := ((e.tracker? s.peer).map fun t => (t.link, e.closeLimit)).toList with hclosing
  set offers := (e.greeting origin ++ e.pending).map fun m => (e.links.length, m)
  have hown : Owns (closing.map Prod.fst ++ (e.sight origin s.peer s.endpoint s.time).trackers.map fun t => t.link)
      (offerEach (e.links ++ [Link.opened s.peer s.endpoint]) offers) := by
    have hperm := (trackers_perm h.nodup s.peer).map fun t => t.link
    have hfst : closing.map Prod.fst = (e.tracker? s.peer).toList.map fun t => t.link := by
      rw [hclosing]
      cases e.tracker? s.peer <;> rfl
    rw [hfst, ht, ← List.map_append, ← List.append_assoc, List.map_append]
    exact ((h.owns.perm hperm).opened rfl).same (openAt_offerEach _ offers)
  have hlast : ∀ l ∈ offerEach (e.links ++ [Link.opened s.peer s.endpoint]) offers, l.Lasting := by
    refine lasting_offerEach (fun l hm => ?_) offers
    rcases List.mem_append.1 hm with hm | hm
    · exact h.lasting l hm
    · rw [List.mem_singleton.1 hm]
      exact ⟨by simp [Link.opened], Nat.zero_le 1⟩
  obtain ⟨howns, hlasting⟩ := hown.closeEach hlast
  refine ⟨?_, ?_, fun t hm => ?_, ?_, fun hst => ?_⟩
  · rw [hl]
    exact howns
  · rcases hp with hp | hp
    · rw [hp]
      exact h.nodup
    · rw [hp]
      exact List.Nodup.append (h.nodup.filter _) (List.nodup_singleton _) (by simp)
  · rw [hc]
    rw [ht] at hm
    rcases List.mem_append.1 hm with hm | hm
    · exact getElem?_append_of_some (h.leads t (List.mem_filter.1 hm).1) _
    · rw [List.mem_singleton.1 hm]
      have hlen : (e.newTracker s.peer s.endpoint s.time).link = e.connections.length := (List.length_map _).symm
      rw [hlen]
      exact List.getElem?_concat_length
  · rw [hl]
    exact hlasting
  · rw [(sameQueries_sight e origin s.peer s.endpoint s.time).stopped, hr] at hst
    cases hst

theorem Connected.sight {e : Engine κ} (h : Connected e) (origin : Origin) (s : Sighting) :
    Connected (e.sight origin s.peer s.endpoint s.time) := by
  by_cases hn : e.stopped = false ∧ (e.tracker? s.peer).map (fun t => t.endpoint) ≠ some s.endpoint
  · exact h.moved hn.1 hn.2 origin
  have hl := links_sight e origin s
  rw [sightingEffects, if_pos (by simpa [or_iff_not_imp_left] using hn), Effects.apply_none] at hl
  refine h.offered [] ?_ hl (sameQueries_sight e origin s.peer s.endpoint s.time).stopped
  rw [sight_eq]
  rcases register_cases e origin s.peer s.endpoint s.time with ⟨-, hh⟩ | ⟨-, -, hh⟩ | ⟨hr, he, -⟩
  · rw [hh]
  · rw [hh, touch, List.map_map]
    refine List.map_congr_left fun t _ => ?_
    rw [Function.comp_apply]
    split <;> rfl
  · exact absurd ⟨hr, he⟩ hn

theorem Connected.shutdown {e : Engine κ} (h : Connected e) (limit : Nat) : Connected (e.shutdown limit) := by
  have hop : ∀ n, (.shutdown limit : Operation κ) ≠ .fail n := fun _ hh => nomatch hh
  have hl : (e.shutdown limit).links = (e.effects (.shutdown limit)).apply e.links := links_perform e hop
  have ht : (e.shutdown limit).trackers = [] := by rw [shutdown_eq]
  simp only [effects, Effects.apply, List.append_nil, offerEach_nil] at hl
  have hown : Owns ((e.trackers.map fun t => (t.link, limit)).map Prod.fst ++ []) e.links := by
    rw [List.append_nil, List.map_map]
    exact h.owns
  obtain ⟨howns, hlasting⟩ := hown.closeEach h.lasting
  refine ⟨?_, ?_, fun t hm => ?_, ?_, fun _ => ht⟩
  · rw [ht, hl]
    exact howns
  · rw [ht]
    exact List.nodup_nil
  · rw [ht] at hm
    exact absurd hm List.not_mem_nil
  · rw [hl]
    exact hlasting

theorem Connected.perform {e : Engine κ} (h : Connected e) {op : Operation κ} (hop : ∀ n, op ≠ .fail n) :
    Connected (e.perform op) := by
  cases hs : op.sighting? e.self with
  | some s =>
    obtain ⟨origin, ho⟩ := perform_of_sighting hs
    rw [ho]
    exact h.sight origin s
  | none =>
    by_cases hd : ∃ limit, op = .shutdown limit
    · obtain ⟨limit, rfl⟩ := hd
      exact h.shutdown limit
    · have hd : ∀ limit, op ≠ .shutdown limit := fun limit hh => hd ⟨limit, hh⟩
      obtain ⟨hm, hc⟩ := effects_of_quiet e hd hs
      have hl := links_perform e hop
      rw [Effects.apply, hm, hc, List.append_nil, closeEach_nil] at hl
      refine h.offered _ ?_ hl (stopped_of_ne_shutdown e hd)
      rw [(sameRegistry_perform hd hs).trackers]

theorem connected_after (self : PeerId) (closeLimit : Nat) (directory : Directory) (ops : List (Operation κ))
    (hops : ∀ op ∈ ops, ∀ n, op ≠ .fail n) : Connected ((new self closeLimit directory : Engine κ).after ops) := by
  induction ops using List.reverseRecOn with
  | nil => exact connected_new self closeLimit directory
  | append_singleton ops op ih =>
    rw [after_append, after_singleton]
    apply (ih fun op' hm => hops op' (List.mem_append_left _ hm)).perform
    exact hops op (List.mem_append_right _ List.mem_cons_self)

theorem stopped_after {e : Engine κ} {ops : List (Operation κ)}
    (h : e.stopped = true ∨ ∃ limit, .shutdown limit ∈ ops) : (e.after ops).stopped = true := by
  induction ops generalizing e with
  | nil => exact h.resolve_right fun ⟨_, hh⟩ => absurd hh List.not_mem_nil
  | cons op ops ih =>
    apply ih
    rcases h with h | ⟨limit, h⟩
    · exact .inl (stopped_perform h op)
    · rcases List.mem_cons.1 h with rfl | h
      · exact .inl (by rw [perform, shutdown_eq])
      · exact .inr ⟨limit, h⟩

theorem closing_of_tracker {e : Engine κ} {op : Operation κ} {c : Nat × Nat} (hc : c ∈ (e.effects op).closed) :
    ∃ t ∈ e.trackers, t.link = c.1 ∧
      (op = .shutdown c.2 ∨ ∃ s, op.sighting? e.self = some s ∧ s.peer = t.peer ∧ s.endpoint ≠ t.endpoint ∧
        ((e.perform op).tracker? t.peer).map Tracker.sighting = some s) := by
  by_cases hd : ∃ limit, op = .shutdown limit
  · obtain ⟨limit, rfl⟩ := hd
    obtain ⟨t, ht, rfl⟩ := List.mem_map.1 hc
    exact ⟨t, ht, rfl, .inl rfl⟩
  cases hs : op.sighting? e.self with
  | none =>
    rw [(effects_of_quiet e (fun limit hh => hd ⟨limit, hh⟩) hs).2] at hc
    exact absurd hc List.not_mem_nil
  | some s =>
    obtain ⟨origin, ho⟩ := effects_of_sighting hs
    obtain ⟨origin', hp⟩ := perform_of_sighting hs
    rw [ho, sightingEffects] at hc
    split at hc
    · exact absurd hc List.not_mem_nil
    next hn =>
    obtain ⟨hr, he⟩ : e.stopped = false ∧ (e.tracker? s.peer).map (fun t => t.endpoint) ≠ some s.endpoint := by
      simpa using hn
    obtain ⟨t, ht, rfl⟩ := Option.map_eq_some_iff.1 (Option.mem_toList.1 hc)
    have htp := peer_of_tracker? ht
    refine ⟨t, List.mem_of_find?_eq_some ht, rfl, .inr ⟨s, rfl, htp.symm, fun hh => he ?_, ?_⟩⟩
    · rw [ht, Option.map_some, hh]
    · rw [hp, htp, (sight_registry hr origin' s).1, if_pos rfl]

theorem Connected.open_link {e : Engine κ} (h : Connected e) {t : Tracker} (ht : t ∈ e.trackers) :
    ∃ l, e.links[t.link]? = some l ∧ l.accepting = true ∧ l.closes = [] ∧ l.peer = t.peer ∧
      l.endpoint = t.endpoint := by
  obtain ⟨l, hl, ho⟩ := (h.owns.mem_iff t.link).1 (List.mem_map_of_mem ht)
  have hp : (l.peer, l.endpoint) = (t.peer, t.endpoint) := by
    have hh := h.leads t ht
    rw [connections, List.getElem?_map, hl] at hh
    exact Option.some.inj hh
  obtain ⟨hp, he⟩ := Prod.mk.inj hp
  exact ⟨l, hl, (h.lasting l (List.mem_of_getElem? hl)).accepting.2 ho, ho, hp, he⟩

theorem mem_of_mem_announcements {e : Engine κ} {facts : FactSet} {ns : List Nat} {o : Nat × Envelope}
    (h : o ∈ e.announcements facts ns) : o.1 ∈ ns := by
  induction ns generalizing e with
  | nil => exact absurd h List.not_mem_nil
  | cons n ns ih =>
    rcases List.mem_cons.1 h with rfl | h
    · exact List.mem_cons_self
    · exact List.mem_cons_of_mem n (ih h)

/-- Envelopes go to the trackers, or to a link that is made for them. Only an announcement to one link
names the link itself. -/
theorem offered_cases {e : Engine κ} {op : Operation κ} (hop : ∀ facts n, op ≠ .announceTo facts n)
    {o : Nat × Envelope} (ho : o ∈ (e.effects op).offered) :
    (∃ t ∈ e.trackers, t.link = o.1) ∨
      o.1 = e.links.length ∧ ∃ s : Sighting, (e.effects op).made = [Link.opened s.peer s.endpoint] := by
  cases hs : op.sighting? e.self with
  | some s =>
    obtain ⟨origin, hx⟩ := effects_of_sighting hs
    rw [hx] at ho ⊢
    rw [sightingEffects] at ho ⊢
    split at ho
    · exact absurd ho List.not_mem_nil
    next hn =>
    obtain ⟨m, -, rfl⟩ := List.mem_map.1 ho
    rw [if_neg hn]
    exact .inr ⟨rfl, s, rfl⟩
  | none =>
    left
    cases op with
    | beacon | hello =>
      rw [effects, hs] at ho
      exact absurd ho List.not_mem_nil
    | find facts k =>
      rw [effects] at ho
      split at ho
      · obtain ⟨t, ht, rfl⟩ := List.mem_map.1 ho
        exact ⟨t, ht, rfl⟩
      · exact absurd ho List.not_mem_nil
    | announce facts =>
      rw [effects] at ho
      split at ho
      · exact absurd ho List.not_mem_nil
      · exact List.mem_map.1 (mem_of_mem_announcements ho)
    | announceTo facts n => exact absurd rfl (hop facts n)
    | _ => exact absurd ho List.not_mem_nil

/-- Operations make, use and close links as `effects` says, whatever state the links are in. Over a run in
which no link breaks by itself, the links that were never closed are one for each tracker and lead to its
peer at its endpoint; a link is closed once at most, for a tracker that another one at a different endpoint
replaces or in a shutdown; after a shutdown every link is closed; and nothing but an announcement to one
link alone is ever put on a link that is closed. -/
theorem connections_owned (self : PeerId) (closeLimit : Nat) (directory : Directory) (ops : List (Operation κ))
    (hops : ∀ op ∈ ops, ∀ n, op ≠ .fail n) :
    (∀ (e : Engine κ) (op : Operation κ), (∀ n, op ≠ .fail n) →
      (e.perform op).links = (e.effects op).apply e.links) ∧
    let e := (new self closeLimit directory : Engine κ).after ops
    (∀ t ∈ e.trackers, ∃ l, e.links[t.link]? = some l ∧ l.closes = [] ∧ l.peer = t.peer ∧
      l.endpoint = t.endpoint) ∧
    (∀ n, OpenAt e.links n → ∃! t, t ∈ e.trackers ∧ t.link = n) ∧
    (e.trackers.map fun t => t.peer).Nodup ∧
    (∀ l ∈ e.links, l.closes.length ≤ 1) ∧
    ((∃ limit, .shutdown limit ∈ ops) → ∀ l ∈ e.links, l.closes ≠ []) ∧
    ∀ op : Operation κ,
      (∀ c ∈ (e.effects op).closed, ∃ t ∈ e.trackers, t.link = c.1 ∧
        (op = .shutdown c.2 ∨ ∃ s, op.sighting? e.self = some s ∧ s.peer = t.peer ∧ s.endpoint ≠ t.endpoint ∧
          ((e.perform op).tracker? t.peer).map Tracker.sighting = some s)) ∧
      ((∀ facts n, op ≠ .announceTo facts n) → ∀ o ∈ (e.effects op).offered,
        ∃ l, (e.links ++ (e.effects op).made)[o.1]? = some l ∧ l.accepting = true ∧ l.closes = []) := by
  refine ⟨fun e op hop => links_perform e hop, ?_⟩
  intro e
  have h : Connected e := connected_after self closeLimit directory ops hops
  refine ⟨fun t ht => ?_, fun n hn => ?_, h.nodup, fun l hl => (h.lasting l hl).once, fun hd l hl hc => ?_,
    fun op => ⟨fun c hc => closing_of_tracker hc, fun hop o ho => ?_⟩⟩
  · obtain ⟨l, hl, -, ho, hp, he⟩ := h.open_link ht
    exact ⟨l, hl, ho, hp, he⟩
  · obtain ⟨t, ht, htn⟩ := List.mem_map.1 ((h.owns.mem_iff n).2 hn)
    refine ⟨t, ⟨ht, htn⟩, fun u hu => ?_⟩
    exact List.inj_on_of_nodup_map h.owns.nodup hu.1 ht (hu.2.trans htn.symm)
  · have hidle : e.trackers = [] := h.idle (stopped_after (.inr hd))
    obtain ⟨n, hn⟩ := List.getElem?_of_mem hl
    have hm := (h.owns.mem_iff n).2 ⟨l, hn, hc⟩
    rw [hidle] at hm
    exact absurd hm List.not_mem_nil
  · rcases offered_cases hop ho with ⟨t, ht, hto⟩ | ⟨hn, s, hs⟩
    · obtain ⟨l, hl, ha, hc, -⟩ := h.open_link ht
      exact ⟨l, getElem?_append_of_some (hto ▸ hl) _, ha, hc⟩
    · rw [hn, hs]
      exact ⟨Link.opened s.peer s.endpoint, List.getElem?_concat_length, rfl, rfl⟩

/-- A query waits for a peer, the peer moves, and the engine is shut down: two links, both closed. -/
theorem connections_owned_shutdown :
    let self : PeerId := ⟨List.replicate 16 0, rfl⟩
    let peer : PeerId := ⟨List.replicate 16 1, rfl⟩
    let ops : List (Operation Unit) :=
      [.find FactSet.empty (), .beacon ⟨peer, .tcp "10.0.0.1" 1⟩ 5, .hello peer.bytes "10.0.0.2" 7 6,
        .shutdown 3]
    let e := (new self 8 ∅ : Engine Unit).after ops
    e.links.map (fun l => (l.sent.length, l.closes)) = [(1, [8]), (0, [3])] ∧ ∀ l ∈ e.links, l.closes ≠ [] := by
  intro self peer ops e
  have hops : ∀ op ∈ ops, ∀ n, op ≠ .fail n := by simp [ops]
  obtain ⟨-, -, -, -, -, hclosed, -⟩ := connections_owned self 8 ∅ ops hops
  refine ⟨by decide +kernel, hclosed ⟨3, by simp [ops]⟩⟩

end Engine
end Discovery
end PeerDiscovery
