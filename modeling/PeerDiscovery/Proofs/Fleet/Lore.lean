import PeerDiscovery.Discovery.Dispatch
import PeerDiscovery.Proofs.Discovery.Run
import PeerDiscovery.Proofs.Endpoint

/-! What is true of the nodes of a fleet, and engines that know nothing else.
Lore only grows, and an engine that is `Informed` stays so as the lore grows. Each operation of an engine
keeps it informed when what it is told is lore. -/
namespace PeerDiscovery
namespace Fleet

open Discovery (Engine Link Tracker Origin)

structure Lore where
  /-- A peer has made an endpoint known as its own. -/
  advertises : PeerId → Endpoint → Prop
  /-- A peer has taken on a service. -/
  hosts : PeerId → FactSet → Prop
  /-- A peer has asked for services under an id. -/
  asked : PeerId → CorrelationId → FactSet → Prop

namespace Lore

structure Le (l l' : Lore) : Prop where
  advertises : ∀ p e, l.advertises p e → l'.advertises p e
  hosts : ∀ p facts, l.hosts p facts → l'.hosts p facts
  asked : ∀ p id facts, l.asked p id facts → l'.asked p id facts

instance : LE Lore := ⟨Le⟩

theorem le_refl (l : Lore) : l ≤ l := ⟨fun _ _ h => h, fun _ _ h => h, fun _ _ _ h => h⟩

/-- A peer is at an endpoint whose text reads back. -/
structure Knows (l : Lore) (p : PeerId) (e : Endpoint) : Prop where
  advertises : l.advertises p e
  tcp : e.transport = .tcp
  plain : Endpoint.Plain e.address

def Offers (l : Lore) (e : Endpoint) (facts : FactSet) : Prop := ∃ p, l.Knows p e ∧ l.hosts p facts

def Says (l : Lore) (p : PeerId) (m : Envelope) : Prop :=
  match m.message with
  | .hello address port => l.Knows p (.tcp address port)
  | .announce facts => l.hosts p facts
  | .query facts => l.asked p m.id facts
  | .response _ => False

def Fits (l : Lore) (query : FactSet) (text : String) : Prop :=
  ∃ e facts, text = e.text ∧ l.Offers e facts ∧ facts.ContainsAll query

/-- What a peer may be answered. -/
def Answers (l : Lore) (p : PeerId) (m : Envelope) : Prop :=
  match m.message with
  | .response texts => ∃ query, l.asked p m.id query ∧ ∀ text ∈ texts, l.Fits query text
  | _ => False

variable {l l' : Lore}

theorem Knows.mono {p : PeerId} {e : Endpoint} (h : l.Knows p e) (hl : l ≤ l') : l'.Knows p e :=
  ⟨hl.advertises p e h.advertises, h.tcp, h.plain⟩

theorem Offers.mono {e : Endpoint} {facts : FactSet} (h : l.Offers e facts) (hl : l ≤ l') : l'.Offers e facts := by
  obtain ⟨p, hk, hf⟩ := h
  exact ⟨p, hk.mono hl, hl.hosts p facts hf⟩

theorem Says.mono {p : PeerId} {m : Envelope} (h : l.Says p m) (hl : l ≤ l') : l'.Says p m := by
  obtain ⟨id, token, sender, message⟩ := m
  cases message with
  | hello address port => exact Knows.mono h hl
  | announce facts => exact hl.hosts p facts h
  | query facts => exact hl.asked p id facts h
  | response texts => exact h

theorem Fits.mono {query : FactSet} {text : String} (h : l.Fits query text) (hl : l ≤ l') : l'.Fits query text := by
  obtain ⟨e, facts, ht, ho, hf⟩ := h
  exact ⟨e, facts, ht, ho.mono hl, hf⟩

theorem Answers.mono {p : PeerId} {m : Envelope} (h : l.Answers p m) (hl : l ≤ l') : l'.Answers p m := by
  obtain ⟨id, token, sender, message⟩ := m
  cases message with
  | response texts =>
    obtain ⟨query, ha, hf⟩ := h
    exact ⟨query, hl.asked p id query ha, fun text ht => (hf text ht).mono hl⟩
  | hello address port => exact h
  | announce facts => exact h
  | query facts => exact h

end Lore

structure Informed {κ : Type} (l : Lore) (e : Engine κ) : Prop where
  endpoint : ∀ own, e.endpoint = some own → l.Knows e.self own
  trackers : ∀ t ∈ e.trackers, l.Knows t.peer t.endpoint
  directory : ∀ entry ∈ e.directory.entries, l.Offers entry.1 entry.2
  links : ∀ k ∈ e.links, ∀ m ∈ k.sent, l.Says e.self m
  pending : ∀ m ∈ e.pending, l.Says e.self m

namespace Informed

variable {κ : Type} {l l' : Lore} {e : Engine κ}

theorem mono (h : Informed l e) (hl : l ≤ l') : Informed l' e where
  endpoint own ho := (h.endpoint own ho).mono hl
  trackers t ht := (h.trackers t ht).mono hl
  directory entry he := (h.directory entry he).mono hl
  links k hk m hm := (h.links k hk m hm).mono hl
  pending m hm := (h.pending m hm).mono hl

theorem modifyLink (h : Informed l e) (n : Nat) {f : Link → Link}
    (hf : ∀ k, (∀ m ∈ k.sent, l.Says e.self m) → ∀ m ∈ (f k).sent, l.Says e.self m) :
    Informed l (e.modifyLink n f) where
  endpoint := h.endpoint
  trackers := h.trackers
  directory := h.directory
  links k hk := by
    rw [Engine.modifyLink_links] at hk
    obtain ⟨i, hi, rfl⟩ := List.mem_iff_getElem.1 hk
    rw [List.getElem_modify]
    have hmem := h.links _ (List.getElem_mem (by simpa using hi))
    split
    · exact hf _ hmem
    · exact hmem
  pending := h.pending

theorem says_takeAll {p : PeerId} {ms : List Envelope} (hs : ∀ m ∈ ms, l.Says p m) (k : Link)
    (hk : ∀ m ∈ k.sent, l.Says p m) : ∀ m ∈ (k.takeAll ms).sent, l.Says p m := by
  intro m hm
  unfold Link.takeAll at hm
  split at hm
  · rcases List.mem_append.1 hm with hm | hm
    · exact hk m hm
    · exact hs m hm
  · exact hk m hm

theorem deliver (h : Informed l e) (n : Nat) {m : Envelope} (hm : l.Says e.self m) :
    Informed l (e.deliver n m).1 := by
  rw [Engine.deliver_eq]
  refine h.modifyLink n (says_takeAll fun m' hm' => ?_)
  rw [List.mem_singleton.1 hm']
  exact hm

theorem closeLink (h : Informed l e) (n limit : Nat) : Informed l (e.closeLink n limit) :=
  h.modifyLink n fun _ hk => hk

theorem fail (h : Informed l e) (n : Nat) : Informed l (e.modifyLink n Link.fail) :=
  h.modifyLink n fun _ hk => hk

/-- Ids, queries in flight and subscribers are not what an engine knows. -/
theorem of_same {e' : Engine κ} (h : Informed l e) (hs : e'.self = e.self) (he : e'.endpoint = e.endpoint)
    (ht : e'.trackers = e.trackers) (hd : e'.directory = e.directory) (hk : e'.links = e.links)
    (hp : e'.pending = e.pending) : Informed l e' where
  endpoint := by rw [he, hs]; exact h.endpoint
  trackers := by rw [ht]; exact h.trackers
  directory := by rw [hd]; exact h.directory
  links := by rw [hk, hs]; exact h.links
  pending := by rw [hp, hs]; exact h.pending

theorem says_greeting (h : Informed l e) (origin : Origin) : ∀ m ∈ e.greeting origin, l.Says e.self m := by
  intro m hm
  unfold Engine.greeting at hm
  split at hm
  · split at hm
    · exact absurd hm List.not_mem_nil
    · next own ho =>
      have hk := h.endpoint own ho
      rw [List.mem_singleton.1 hm]
      have hown : Endpoint.tcp own.address own.port = own := by
        rw [Endpoint.tcp, ← hk.tcp]
      change l.Knows e.self (.tcp own.address own.port)
      rwa [hown]
  · exact absurd hm List.not_mem_nil

theorem discover (h : Informed l e) (origin : Origin) {p : PeerId} {endpoint : Endpoint} (hk : l.Knows p endpoint)
    (now : Nat) : Informed l (e.discover origin p endpoint now) := by
  rw [Engine.discover_eq]
  refine ⟨h.endpoint, forall_mem_concat (fun t ht => h.trackers t (List.mem_filter.1 ht).1) hk, h.directory,
    forall_mem_concat h.links fun m hm => ?_, fun m hm => absurd hm List.not_mem_nil⟩
  rcases List.mem_append.1 hm with hm | hm
  · exact says_greeting h origin m hm
  · exact h.pending m hm

theorem touch (h : Informed l e) (p : PeerId) (now : Nat) : Informed l (e.touch p now) where
  endpoint := h.endpoint
  trackers t ht := by
    obtain ⟨u, hu, rfl⟩ := List.mem_map.1 ht
    have hh := h.trackers u hu
    split <;> exact hh
  directory := h.directory
  links := h.links
  pending := h.pending

theorem sight (h : Informed l e) (origin : Origin) {p : PeerId} {endpoint : Endpoint} (hk : l.Knows p endpoint)
    (now : Nat) : Informed l (e.sight origin p endpoint now) := by
  rw [Engine.sight_eq]
  rcases Engine.register_cases e origin p endpoint now with ⟨-, hr⟩ | ⟨-, -, hr⟩ | ⟨-, -, hr⟩
  · rw [hr]
    exact h
  · rw [hr]
    exact h.touch p now
  · rw [hr]
    have hd := h.discover origin hk now
    cases (e.tracker? p).map fun t => t.link with
    | none => exact hd
    | some n => exact hd.closeLink n _

theorem onBeacon (h : Informed l e) {b : Beacon} (hk : l.Knows b.peer b.endpoint) (now : Nat) :
    Informed l (e.onBeacon b now) := by
  unfold Engine.onBeacon
  split
  · exact h
  · exact h.sight .beacon hk now

theorem onHello (h : Informed l e) {p : PeerId} {address : String} {port : UInt16}
    (hk : l.Knows p (.tcp address port)) (now : Nat) : Informed l (e.onHello p.bytes address port now) := by
  unfold Engine.onHello
  rw [PeerId.ofBytes?_bytes]
  simp only
  split
  · exact h
  · exact h.sight .hello hk now

theorem submit (h : Informed l e) {m : Envelope} (hm : l.Says e.self m) : Informed l (e.submit m).1 := by
  by_cases ht : e.trackers = []
  · rw [Engine.submit_of_nil ht]
    exact ⟨h.endpoint, h.trackers, h.directory, h.links, forall_mem_concat h.pending hm⟩
  · rw [Engine.submit_of_ne_nil ht]
    have hh : ∀ (ns : List Nat) (e' : Engine κ), e'.self = e.self → Informed l e' → Informed l (e'.spread ns m) := by
      intro ns
      induction ns with
      | nil => exact fun _ _ h' => h'
      | cons n ns ih =>
        intro e' hs h'
        refine ih _ hs (h'.modifyLink n (says_takeAll fun m' hm' => ?_))
        rw [List.mem_singleton.1 hm', hs]
        exact hm
    exact hh _ e rfl h

theorem find (h : Informed l e) {facts : FactSet} (k : κ)
    (ha : e.stopped = false → e.directory.query facts = [] → l.asked e.self e.nextId facts) :
    Informed l (e.find facts k).1 := by
  rcases Engine.find_cases e facts k with ⟨-, hf⟩ | ⟨-, -, hf⟩ | ⟨hs, hq, hf⟩
  · rw [hf]
    exact h
  · rw [hf]
    exact h
  · rw [hf]
    have hh : Informed l (e.takeId.1.await e.nextId k) := h.of_same rfl rfl rfl rfl rfl rfl
    exact hh.submit (ha hs hq)

theorem onResponse (h : Informed l e) (m : Envelope) : Informed l (e.onResponse m).1 := by
  unfold Engine.onResponse
  split
  · split
    · split
      · exact h
      · exact h.of_same rfl rfl rfl rfl rfl rfl
    · exact h
  · exact h

theorem addEntry (h : Informed l e) {endpoint : Endpoint} {facts : FactSet} (ho : l.Offers endpoint facts) :
    Informed l { e with directory := e.directory.add endpoint facts } where
  endpoint := h.endpoint
  trackers := h.trackers
  directory := forall_mem_concat (fun entry he => h.directory entry (List.mem_filter.1 he).1) ho
  links := h.links
  pending := h.pending

theorem onAnnounce (h : Informed l e) {p : PeerId} {facts : FactSet} (hf : l.hosts p facts) :
    Informed l (e.onAnnounce (some p.bytes) facts) := by
  simp only [Engine.onAnnounce, Option.bind_some, PeerId.ofBytes?_bytes]
  cases ht : e.tracker? p with
  | none => exact h
  | some t =>
    have hm : t ∈ e.trackers := List.mem_of_find?_eq_some ht
    have hp : t.peer = p := by simpa using List.find?_some ht
    exact h.addEntry ⟨p, hp ▸ h.trackers t hm, hf⟩

/-- What the directory answers is offered, with all the facts that were asked for. -/
theorem mem_query (h : Informed l e) {query : FactSet} {endpoint : Endpoint}
    (hm : endpoint ∈ e.directory.query query) : ∃ facts, l.Offers endpoint facts ∧ facts.ContainsAll query := by
  rw [Directory.query, List.mem_mergeSort] at hm
  obtain ⟨entry, he, rfl⟩ := List.mem_map.1 hm
  obtain ⟨he, hf⟩ := List.mem_filter.1 he
  exact ⟨entry.2, h.directory entry he, by simpa using hf⟩

theorem answers_replyTo (h : Informed l e) {m reply : Envelope} {p : PeerId} {query : FactSet}
    (hs : m.sender = some p.bytes) (ha : l.asked p m.id query) (hr : e.replyTo m query = some reply) :
    reply.sender = some p.bytes ∧ l.Answers p reply := by
  simp only [Engine.replyTo, hs] at hr
  split at hr
  · cases hr
  · next found hf =>
    cases hr
    refine ⟨rfl, query, ha, fun text ht => ?_⟩
    obtain ⟨endpoint, hm, rfl⟩ := List.mem_map.1 ht
    obtain ⟨facts, ho, hc⟩ := h.mem_query hm
    exact ⟨endpoint, facts, rfl, ho, hc⟩

theorem announceTo (h : Informed l e) {facts : FactSet} (hf : l.hosts e.self facts) (n : Nat) :
    Informed l (e.announceTo facts n).1 := by
  have hh : Informed l e.takeId.1 := h.of_same rfl rfl rfl rfl rfl rfl
  exact hh.deliver n hf

theorem self_announceTo (e : Engine κ) (facts : FactSet) (n : Nat) : (e.announceTo facts n).1.self = e.self := by
  rw [Engine.announceTo_eq]
  rfl

theorem announce (h : Informed l e) {facts : FactSet} (hf : l.hosts e.self facts) :
    Informed l (e.announce facts).1 := by
  have hh : ∀ (ts : List Tracker) (e' : Engine κ), e'.self = e.self → Informed l e' →
      Informed l (e'.announceAll facts ts).1 := by
    intro ts
    induction ts with
    | nil => exact fun _ _ h' => h'
    | cons t ts ih =>
      intro e' hs h'
      rw [Engine.announceAll_cons]
      exact ih _ ((self_announceTo e' facts t.link).trans hs) (h'.announceTo (by rw [hs]; exact hf) t.link)
  unfold Engine.announce
  split
  · exact h
  · exact hh e.trackers e rfl h

theorem shutdown (h : Informed l e) (limit : Nat) : Informed l (e.shutdown limit) := by
  have hh : ∀ (ts : List Tracker) (e' : Engine κ), Informed l e' → Informed l (e'.closeAll limit ts) := by
    intro ts
    induction ts with
    | nil => exact fun _ h' => h'
    | cons t ts ih => exact fun e' h' => ih _ (h'.closeLink t.link limit)
  exact hh e.trackers _ ⟨h.endpoint, fun _ ht => absurd ht List.not_mem_nil, h.directory, h.links, h.pending⟩

end Informed
end Fleet
end PeerDiscovery
