import Mathlib.Data.List.Nodup
import PeerDiscovery.Proofs.Discovery.Ledger

/-! No query is lost or sent twice, however calls come between each other.
`Traffic` is the invariant: the queries that wait are those of the ledger, and what a link has taken,
with what the call that holds the lock still owes it, is what the ledger has given it. `Sound.run` says
that every run keeps it. -/
namespace PeerDiscovery
namespace Discovery
namespace Interleaving

variable {κ : Type}

def isQuery (envelope : Envelope) : Bool :=
  match envelope.message with
  | .query _ => true
  | _ => false

/-- The queries that a link has taken, in order. -/
def queriesOn (e : Engine κ) (n : Nat) : List Envelope :=
  (((e.links[n]?).map fun l => l.sent).getD []).filter isQuery

def IsOpen (e : Engine κ) (n : Nat) : Prop := ∃ l, e.links[n]? = some l ∧ l.accepting = true

theorem IsOpen.lt {e : Engine κ} {n : Nat} (h : IsOpen e n) : n < e.links.length := by
  obtain ⟨l, hl, -⟩ := h
  exact (List.getElem?_eq_some_iff.1 hl).1

theorem queriesOn_of_le {e : Engine κ} {n : Nat} (h : e.links.length ≤ n) : queriesOn e n = [] := by
  simp [queriesOn, List.getElem?_eq_none h]

@[simp] theorem registry_modifyLink (e : Engine κ) (n : Nat) (f : Link → Link) :
    registry (e.modifyLink n f) = registry e := rfl

theorem isOpen_modifyLink {e : Engine κ} {n m : Nat} {f : Link → Link} (h : IsOpen e n)
    (hf : n = m → ∀ l, (f l).accepting = l.accepting) : IsOpen (e.modifyLink m f) n := by
  obtain ⟨l, hl, ha⟩ := h
  by_cases hm : m = n
  · exact ⟨f l, by simp [hm, hl], (hf hm.symm l).trans ha⟩
  · exact ⟨l, by simp [List.getElem?_modify_ne _ _ hm, hl], ha⟩

theorem queriesOn_modifyLink_same {e : Engine κ} {m : Nat} {f : Link → Link}
    (hf : ∀ l, (f l).sent.filter isQuery = l.sent.filter isQuery) (n : Nat) :
    queriesOn (e.modifyLink m f) n = queriesOn e n := by
  by_cases hm : m = n
  · subst hm
    simp only [queriesOn, Engine.modifyLink_links, List.getElem?_modify_eq]
    cases e.links[m]? with
    | none => rfl
    | some l => exact hf l
  · simp [queriesOn, List.getElem?_modify_ne _ _ hm]

theorem queriesOn_deliver {e : Engine κ} {m : Nat} (h : IsOpen e m) {query : Envelope}
    (hq : isQuery query = true) (n : Nat) :
    queriesOn (e.deliver m query).1 n = queriesOn e n ++ if n = m then [query] else [] := by
  rw [Engine.deliver_eq]
  obtain ⟨l, hl, ha⟩ := h
  by_cases hm : n = m
  · subst hm
    simp [queriesOn, hl, Link.takeAll_of_accepting ha, hq]
  · simp [queriesOn, List.getElem?_modify_ne _ _ (Ne.symm hm), hm]

theorem isOpen_deliver {e : Engine κ} {n : Nat} (h : IsOpen e n) (m : Nat) (query : Envelope) :
    IsOpen (e.deliver m query).1 n := by
  rw [Engine.deliver_eq]
  exact isOpen_modifyLink h fun _ l => by simp

theorem registry_deliver (e : Engine κ) (m : Nat) (query : Envelope) :
    registry (e.deliver m query).1 = registry e := by
  rw [Engine.deliver_eq, registry_modifyLink]

theorem length_deliver (e : Engine κ) (m : Nat) (query : Envelope) :
    (e.deliver m query).1.links.length = e.links.length := by
  rw [Engine.deliver_eq, Engine.modifyLink_links, List.length_modify]

theorem registry_touch (e : Engine κ) (peer : PeerId) (now : Nat) :
    registry (e.touch peer now) = registry e := by
  simp only [registry, Engine.touch, List.map_map]
  congr 1
  funext t
  simp only [Function.comp_apply]
  split <;> rfl

/-- The link to which the queries that wait are being handed over. -/
def Section.target? : Section → Option Nat
  | .greet _ t _ => some t.link
  | .release t _ => some t.link
  | _ => none

/-- The queries that the call which holds the lock has still to send on a link. -/
def Section.owes (pending : List Envelope) (n : Nat) : Section → List Envelope
  | .dispatch query links => if n ∈ links then [query] else []
  | .greet _ t _ => if n = t.link then pending else []
  | .release t _ => if n = t.link then pending else []
  | _ => []

def Retired (e : Engine κ) (links : List Nat) : Prop := ∀ n ∈ links, n < e.links.length ∧ n ∉ registry e

def Section.Fits (e : Engine κ) : Section → Prop
  | .enqueue query => isQuery query = true ∧ registry e = []
  | .dispatch query links => isQuery query = true ∧ links.Nodup ∧ ∀ n ∈ links, n ∈ registry e
  | .register .. => True
  | .greet _ t replaced => t.link ∈ registry e ∧ Retired e replaced
  | .release t replaced => t.link ∈ registry e ∧ Retired e replaced

def Call.Fits (e : Engine κ) : Call κ → Prop
  | .remember query _ => isQuery query = true
  | .submit query => isQuery query = true
  | .close links _ => Retired e links
  | _ => True

structure Traffic (e : Engine κ) (hold : Option Section) (l : Ledger) : Prop where
  nodup : (registry e).Nodup
  isOpen : ∀ n ∈ registry e, IsOpen e n
  queries : ∀ query ∈ e.pending, isQuery query = true
  fits : ∀ sec, hold = some sec → sec.Fits e
  /-- Nothing waits while there is a tracker, unless it is being handed over. -/
  idle : hold.bind Section.target? = none → registry e ≠ [] → e.pending = []
  waiting : l.waiting.map Prod.snd = if hold.bind Section.target? = none then e.pending else []
  received : ∀ n, queriesOn e n ++ (hold.map (Section.owes e.pending n)).getD [] = (l.received n).map Prod.snd

/-- A change that leaves the trackers' links and the queries alone. -/
structure Quiet (e e' : Engine κ) : Prop where
  registry : registry e' = registry e
  links : e'.links = e.links
  pending : e'.pending = e.pending

theorem Section.Fits.mono {e e' : Engine κ} {sec : Section} (h : sec.Fits e) (hr : registry e' = registry e)
    (hl : e'.links.length = e.links.length) : sec.Fits e' := by
  cases sec with
  | register => trivial
  | _ => simpa only [Section.Fits, Retired, hr, hl] using h

theorem Traffic.quiet {e e' : Engine κ} {hold : Option Section} {l : Ledger} (h : Traffic e hold l)
    (hh : Quiet e e') : Traffic e' hold l where
  nodup := by rw [hh.registry]; exact h.nodup
  isOpen := by simpa only [hh.registry, IsOpen, hh.links] using h.isOpen
  queries := by rw [hh.pending]; exact h.queries
  fits sec hs := (h.fits sec hs).mono hh.registry (by rw [hh.links])
  idle := by rw [hh.registry, hh.pending]; exact h.idle
  waiting := by rw [hh.pending]; exact h.waiting
  received n := by simpa only [queriesOn, hh.links, hh.pending] using h.received n

theorem Traffic.leave {e : Engine κ} {sec : Section} {l : Ledger} (h : Traffic e (some sec) l)
    (hp : sec.target? = none ∨ e.pending = []) (ho : ∀ n, sec.owes e.pending n = []) : Traffic e none l where
  nodup := h.nodup
  isOpen := h.isOpen
  queries := h.queries
  fits _ hs := absurd hs (by simp)
  idle _ hr := hp.elim (fun hp => h.idle hp hr) id
  waiting := by
    have hw := h.waiting
    rcases hp with hp | hp
    · simpa [hp] using hw
    · simpa [hp] using hw
  received n := by simpa [ho] using h.received n

theorem Traffic.enter {e : Engine κ} {sec : Section} {l : Ledger} (h : Traffic e none l) (hf : sec.Fits e)
    (hp : sec.target? = none) (ho : ∀ n, sec.owes e.pending n = []) : Traffic e (some sec) l where
  nodup := h.nodup
  isOpen := h.isOpen
  queries := h.queries
  fits _ hs := Option.some.inj hs ▸ hf
  idle _ := h.idle rfl
  waiting := by simpa [hp] using h.waiting
  received n := by simpa [ho] using h.received n

theorem Traffic.closeLink {e : Engine κ} {hold : Option Section} {l : Ledger} (h : Traffic e hold l) {n : Nat}
    (hn : n ∉ registry e) (limit : Nat) : Traffic (e.closeLink n limit) hold l where
  nodup := h.nodup
  isOpen m hm := isOpen_modifyLink (h.isOpen m hm) fun hh => absurd (hh ▸ hm) hn
  queries := h.queries
  fits sec hs := (h.fits sec hs).mono rfl (by simp [Engine.closeLink])
  idle := h.idle
  waiting := h.waiting
  received m := by
    have hh : queriesOn (e.closeLink n limit) m = queriesOn e m := 
      queriesOn_modifyLink_same (f := fun l => l.close limit) (fun _ => rfl) m
    rw [hh]
    exact h.received m

theorem Traffic.drain {e : Engine κ} {l : Ledger} (h : Traffic e none l) : Traffic e.drain.1 none l where
  nodup := List.nodup_nil
  isOpen _ hn := absurd hn List.not_mem_nil
  queries := h.queries
  fits _ hs := absurd hs (by simp)
  idle _ hr := absurd rfl hr
  waiting := h.waiting
  received := h.received

theorem Traffic.dispatch {e : Engine κ} {l : Ledger} (h : Traffic e none l) {query : Envelope}
    (hq : isQuery query = true) (i : Nat) :
    Traffic e (some (.dispatch query (registry e))) (l.note (.dispatched i query (registry e))) where
  nodup := h.nodup
  isOpen := h.isOpen
  queries := h.queries
  fits _ hs := Option.some.inj hs ▸ ⟨hq, h.nodup, fun _ hn => hn⟩
  idle _ := h.idle rfl
  waiting := h.waiting
  received n := by
    have hh := h.received n
    simp only [Option.map_none, Option.getD_none, List.append_nil] at hh
    simp only [Option.map_some, Option.getD_some, Section.owes, Ledger.note, hh]
    split <;> simp

theorem Traffic.dispatchNext {e : Engine κ} {l : Ledger} {query : Envelope} {n : Nat} {links : List Nat}
    (h : Traffic e (some (.dispatch query (n :: links))) l) :
    Traffic (e.deliver n query).1 (some (.dispatch query links)) l := by
  obtain ⟨hq, hnodup, hmem⟩ := h.fits _ rfl
  obtain ⟨hn, hnodup⟩ := List.nodup_cons.1 hnodup
  have hpending : (e.deliver n query).1.pending = e.pending := by rw [Engine.deliver_eq]; rfl
  refine ⟨?_, ?_, ?_, ?_, ?_, ?_, ?_⟩
  · rw [registry_deliver]
    exact h.nodup
  · intro m hm
    rw [registry_deliver] at hm
    exact isOpen_deliver (h.isOpen m hm) n query
  · rw [hpending]
    exact h.queries
  · intro sec hs
    cases hs
    refine ⟨hq, hnodup, fun m hm => ?_⟩
    rw [registry_deliver]
    exact hmem m (List.mem_cons_of_mem n hm)
  · rw [hpending, registry_deliver]
    exact h.idle
  · rw [hpending]
    exact h.waiting
  · intro m
    have hh := h.received m
    rw [queriesOn_deliver (h.isOpen n (hmem n List.mem_cons_self)) hq]
    by_cases hm : m = n
    · subst hm
      simpa [Section.owes, hn] using hh
    · simpa [Section.owes, hm] using hh

theorem Traffic.enqueue {e : Engine κ} {l : Ledger} {query : Envelope} (h : Traffic e (some (.enqueue query)) l)
    (i : Nat) :
    Traffic { e with pending := e.pending ++ [query] } none (l.note (.queued i query)) := by
  obtain ⟨hq, hr⟩ := h.fits _ rfl
  refine ⟨h.nodup, h.isOpen, ?_, fun _ hs => absurd hs (by simp), fun _ hh => absurd hr hh, ?_, ?_⟩
  · intro q hm
    rcases List.mem_append.1 hm with hm | hm
    · exact h.queries q hm
    · rw [List.mem_singleton.1 hm]
      exact hq
  · have hw := h.waiting
    simp only [Option.bind_some, Section.target?, if_true] at hw
    simp [Ledger.note, hw]
  · exact h.received

theorem registry_openLink (e : Engine κ) (peer : PeerId) (endpoint : Endpoint) (now : Nat) :
    registry (openLink e peer endpoint now) =
      (e.trackers.filter fun u => u.peer ≠ peer).map (fun t => t.link) ++ [e.links.length] := by
  simp only [registry, openLink, Engine.putTracker, Engine.newTracker, List.map_append]
  rfl

theorem mem_registry_openLink {e : Engine κ} {peer : PeerId} {endpoint : Endpoint} {now n : Nat}
    (h : n ∈ registry (openLink e peer endpoint now)) : n ∈ registry e ∨ n = e.links.length := by
  rw [registry_openLink, List.mem_append, List.mem_singleton] at h
  exact h.imp_left fun h => List.map_subset _ (List.filter_subset_self e.trackers) h

theorem retired_openLink {e : Engine κ} (hnodup : (registry e).Nodup) (hlt : ∀ n ∈ registry e, n < e.links.length)
    (peer : PeerId) (endpoint : Endpoint) (now : Nat) :
    Retired (openLink e peer endpoint now) ((e.tracker? peer).map fun t => t.link).toList := by
  intro n hn
  rw [Option.mem_toList, Option.map_eq_some_iff] at hn
  obtain ⟨t, ht, rfl⟩ := hn
  have htm : t ∈ e.trackers := List.mem_of_find?_eq_some ht
  have htp : t.peer = peer := by simpa using List.find?_some ht
  have htl : t.link < e.links.length := hlt _ (List.mem_map_of_mem htm)
  refine ⟨?_, ?_⟩
  · simp only [openLink, Engine.putTracker, List.length_append, List.length_singleton]
    exact Nat.lt_succ_of_lt htl
  · rw [registry_openLink, List.mem_append, List.mem_singleton, not_or]
    refine ⟨fun hm => ?_, Nat.ne_of_lt htl⟩
    obtain ⟨u, hu, hul⟩ := List.mem_map.1 hm
    obtain ⟨hum, hup⟩ := List.mem_filter.1 hu
    have hut : u = t := List.inj_on_of_nodup_map hnodup hum htm hul
    exact absurd (hut ▸ htp) (by simpa using hup)

theorem Traffic.register {e : Engine κ} {l : Ledger} {origin : Origin} {peer : PeerId} {endpoint : Endpoint}
    (h : Traffic e (some (.register origin peer endpoint)) l) (now : Nat) :
    Traffic (openLink e peer endpoint now)
      (some (.greet origin (e.newTracker peer endpoint now) ((e.tracker? peer).map fun t => t.link).toList))
      (l.note (.registered e.links.length)) := by
  have hlt : ∀ n ∈ registry e, n < e.links.length := fun n hn => (h.isOpen n hn).lt
  have hlinks : (openLink e peer endpoint now).links = e.links ++ [Link.opened peer endpoint] := rfl
  have hwaiting : l.waiting.map Prod.snd = e.pending := by simpa [Section.target?] using h.waiting
  have hreceived : ∀ n, queriesOn e n = (l.received n).map Prod.snd := by
    intro n
    simpa [Section.owes] using h.received n
  refine ⟨?_, ?_, h.queries, ?_, fun hh => absurd hh (by simp [Section.target?]), ?_, ?_⟩
  · rw [registry_openLink]
    refine List.Nodup.append ?_ (List.nodup_singleton _) ?_
    · exact h.nodup.sublist (List.Sublist.map _ List.filter_sublist)
    · rw [List.disjoint_singleton]
      intro hm
      exact absurd (hlt _ (List.map_subset _ (List.filter_subset_self _) hm)) (Nat.lt_irrefl _)
  · intro n hn
    rcases mem_registry_openLink hn with hn | rfl
    · obtain ⟨k, hk, ha⟩ := h.isOpen n hn
      refine ⟨k, ?_, ha⟩
      rw [hlinks, List.getElem?_append_left (hlt n hn)]
      exact hk
    · exact ⟨Link.opened peer endpoint, by rw [hlinks, List.getElem?_concat_length], rfl⟩
  · intro sec hs
    cases hs
    refine ⟨?_, retired_openLink h.nodup hlt peer endpoint now⟩
    rw [registry_openLink]
    exact List.mem_append_right _ (List.mem_singleton_self _)
  · simp [Ledger.note, Section.target?]
  · intro n
    by_cases hn : n = e.links.length
    · subst hn
      have hnone : queriesOn e e.links.length = [] := queriesOn_of_le (Nat.le_refl _)
      have hnew : queriesOn (openLink e peer endpoint now) e.links.length = [] := by
        simp [queriesOn, hlinks, Link.opened]
      have hl : (l.received e.links.length).map Prod.snd = [] := by rw [← hreceived, hnone]
      rw [hnew]
      simp only [Ledger.note, if_true, List.map_append, hl, hwaiting]
      simp [Section.owes, Engine.newTracker, openLink, Engine.putTracker]
    · have hold : queriesOn (openLink e peer endpoint now) n = queriesOn e n := by
        simp only [queriesOn, hlinks]
        by_cases hh : n < e.links.length
        · rw [List.getElem?_append_left hh]
        · have hgt : e.links.length + 1 ≤ n := by omega
          rw [List.getElem?_eq_none (by simpa using hgt), List.getElem?_eq_none (by omega)]
      rw [hold, hreceived]
      simp [Section.owes, Engine.newTracker, Ledger.note, hn]

theorem isQuery_greeting (e : Engine κ) (origin : Origin) : (e.greeting origin).filter isQuery = [] := by
  unfold Engine.greeting
  split
  · split <;> rfl
  · rfl

theorem Traffic.greet {e : Engine κ} {l : Ledger} {origin : Origin} {t : Tracker} {replaced : List Nat}
    (h : Traffic e (some (.greet origin t replaced)) l) :
    Traffic (if origin = .beacon then e.sayHello t.link else e) (some (.release t replaced)) l := by
  have hh : Traffic e (some (.release t replaced)) l := by
    obtain ⟨h₁, h₂, h₃, h₄, h₅, h₆, h₇⟩ := h
    refine ⟨h₁, h₂, h₃, fun sec hs => ?_, h₅, h₆, h₇⟩
    cases hs
    exact h₄ (.greet origin t replaced) rfl
  split
  · rw [Engine.sayHello_eq]
    have hq : Traffic { e with issued := e.issued + (e.greeting .beacon).length }
        (some (.release t replaced)) l := hh.quiet ⟨rfl, rfl, rfl⟩
    have hg : ∀ k : Link, (k.takeAll (e.greeting .beacon)).sent.filter isQuery = k.sent.filter isQuery := by
      intro k
      unfold Link.takeAll
      split
      · simp [isQuery_greeting]
      · rfl
    refine ⟨hq.nodup, ?_, hq.queries, ?_, hq.idle, hq.waiting, ?_⟩
    · intro n hn
      exact isOpen_modifyLink (hq.isOpen n hn) fun _ k => by simp
    · intro sec hs
      exact (hq.fits sec hs).mono rfl (by simp)
    · intro n
      rw [queriesOn_modifyLink_same hg]
      exact hq.received n
  · exact hh

theorem Traffic.releaseNext {e : Engine κ} {l : Ledger} {t : Tracker} {replaced : List Nat} {query : Envelope}
    {rest : List Envelope} (h : Traffic e (some (.release t replaced)) l) (hp : e.pending = query :: rest) :
    Traffic ({ e with pending := rest }.deliver t.link query).1 (some (.release t replaced)) l := by
  obtain ⟨ht, hr⟩ := h.fits _ rfl
  have hq : isQuery query = true := h.queries query (by rw [hp]; exact List.mem_cons_self)
  have hpending : ({ e with pending := rest }.deliver t.link query).1.pending = rest := by
    rw [Engine.deliver_eq]
    rfl
  have hregistry : registry ({ e with pending := rest }.deliver t.link query).1 = registry e :=
    registry_deliver _ _ _
  have hlength : ({ e with pending := rest }.deliver t.link query).1.links.length = e.links.length :=
    length_deliver _ _ _
  refine ⟨?_, ?_, ?_, ?_, fun hh => absurd hh (by simp [Section.target?]), h.waiting, ?_⟩
  · rw [hregistry]
    exact h.nodup
  · intro n hn
    rw [hregistry] at hn
    exact isOpen_deliver (e := { e with pending := rest }) (h.isOpen n hn) _ _
  · rw [hpending]
    intro q hm
    exact h.queries q (by rw [hp]; exact List.mem_cons_of_mem _ hm)
  · intro sec hs
    exact (h.fits sec hs).mono hregistry hlength
  · intro n
    have hh := h.received n
    have hopen : IsOpen { e with pending := rest } t.link := h.isOpen t.link ht
    have hsame : queriesOn { e with pending := rest } n = queriesOn e n := rfl
    rw [queriesOn_deliver hopen hq, hpending, hsame]
    by_cases hn : n = t.link
    · subst hn
      simpa [Section.owes, hp] using hh
    · simpa [Section.owes, hn] using hh

/-- New links have new numbers, and a link that is no tracker's never becomes one's. -/
structure Grows (e e' : Engine κ) : Prop where
  length : e.links.length ≤ e'.links.length
  registry : ∀ n ∈ registry e', n ∈ registry e ∨ e.links.length ≤ n

theorem Grows.of_same {e e' : Engine κ} (hr : Interleaving.registry e' = Interleaving.registry e)
    (hl : e'.links.length = e.links.length) : Grows e e' :=
  ⟨Nat.le_of_eq hl.symm, fun _ hn => .inl (hr ▸ hn)⟩

theorem Retired.mono {e e' : Engine κ} {links : List Nat} (h : Retired e links) (hg : Grows e e') :
    Retired e' links := by
  intro n hn
  obtain ⟨hl, hr⟩ := h n hn
  refine ⟨Nat.lt_of_lt_of_le hl hg.length, fun hm => ?_⟩
  rcases hg.registry n hm with hm | hm
  · exact hr hm
  · exact absurd hl (Nat.not_lt_of_le hm)

theorem Call.Fits.mono {e e' : Engine κ} {c : Call κ} (h : c.Fits e) (hg : Grows e e') : c.Fits e' := by
  cases c with
  | remember | submit => exact h
  | close links limit => exact Retired.mono h hg
  | _ => trivial

theorem traffic_step {e : Engine κ} {hold : Option Section} {l : Ledger} (h : Traffic e hold l) {c : Call κ}
    (hc : c.Fits e) :
    Traffic (c.step e).1 hold l ∧ Grows e (c.step e).1 ∧ (c.step e).2.Fits (c.step e).1 := by
  have hquiet : ∀ e' : Engine κ, Quiet e e' → Traffic e' hold l ∧ Grows e e' :=
    fun e' hh => ⟨h.quiet hh, .of_same hh.registry (by rw [hh.links])⟩
  have hrefl : Traffic e hold l ∧ Grows e e := hquiet e ⟨rfl, rfl, rfl⟩
  cases c with
  | find facts k =>
    refine ⟨hrefl.1, hrefl.2, ?_⟩
    simp only [Call.step]
    split <;> trivial
  | lookUp facts k =>
    simp only [Call.step]
    split
    · exact ⟨hrefl.1, hrefl.2, trivial⟩
    · exact ⟨hrefl.1, hrefl.2, trivial⟩
  | number facts k =>
    obtain ⟨h₁, h₂⟩ := hquiet e.takeId.1 ⟨rfl, rfl, rfl⟩
    exact ⟨h₁, h₂, rfl⟩
  | remember query k =>
    obtain ⟨h₁, h₂⟩ := hquiet (e.await query.id k) ⟨rfl, rfl, rfl⟩
    exact ⟨h₁, h₂, hc⟩
  | stop limit =>
    obtain ⟨h₁, h₂⟩ := hquiet e.stop ⟨rfl, rfl, rfl⟩
    exact ⟨h₁, h₂, trivial⟩
  | close links limit =>
    cases links with
    | nil => exact ⟨hrefl.1, hrefl.2, trivial⟩
    | cons n links =>
      have hn := hc n List.mem_cons_self
      have hg : Grows e (e.closeLink n limit) := .of_same rfl (by simp [Engine.closeLink])
      exact ⟨h.closeLink hn.2 limit, hg, Retired.mono (fun m hm => hc m (List.mem_cons_of_mem n hm)) hg⟩
  | submit | sight | drain | inside | done => exact ⟨hrefl.1, hrefl.2, hc⟩

theorem traffic_enter {e : Engine κ} {l : Ledger} (h : Traffic e none l) {c : Call κ} (hc : c.Fits e) {i : Nat}
    {o : Outcome κ} (ho : c.enter? e i = some o) :
    Traffic o.engine o.hold (l.noteAll o.events) ∧ Grows e o.engine ∧ o.call.Fits o.engine := by
  have hg : Grows e e := .of_same rfl rfl
  cases c with
  | submit query =>
    simp only [Call.enter?] at ho
    split at ho
    · next ht =>
      cases ho
      have hr : registry e = [] := by rw [registry, ht, List.map_nil]
      exact ⟨h.enter ⟨hc, hr⟩ rfl fun _ => rfl, hg, trivial⟩
    · cases ho
      exact ⟨h.dispatch hc i, hg, trivial⟩
  | sight origin peer endpoint =>
    simp only [Call.enter?] at ho
    split at ho
    · cases ho
      exact ⟨h, hg, trivial⟩
    · cases ho
      exact ⟨h.enter trivial rfl fun _ => rfl, hg, trivial⟩
  | drain limit =>
    cases ho
    refine ⟨h.drain, ⟨Nat.le_refl _, fun _ hn => absurd hn List.not_mem_nil⟩, ?_⟩
    exact fun n hn => ⟨(h.isOpen n hn).lt, List.not_mem_nil⟩
  | _ => cases ho

theorem traffic_section {e : Engine κ} {sec : Section} {l : Ledger} (h : Traffic e (some sec) l) (i now : Nat) :
    let o := sec.step e i now
    Traffic o.engine o.hold (l.noteAll o.events) ∧ Grows e o.engine ∧ o.call.Fits o.engine := by
  have hg : Grows e e := .of_same rfl rfl
  cases sec with
  | enqueue query => exact ⟨h.enqueue i, .of_same rfl rfl, trivial⟩
  | dispatch query links =>
    cases links with
    | nil => exact ⟨h.leave (.inl rfl) fun _ => rfl, hg, trivial⟩
    | cons n links =>
      exact ⟨h.dispatchNext, .of_same (registry_deliver e n query) (length_deliver e n query), trivial⟩
  | register origin peer endpoint =>
    simp only [Section.step]
    split
    · have hq : Quiet e (e.touch peer now) := ⟨registry_touch e peer now, rfl, rfl⟩
      exact ⟨(h.quiet hq).leave (.inl rfl) fun _ => rfl, .of_same hq.registry rfl, trivial⟩
    · refine ⟨h.register now, ⟨?_, ?_⟩, trivial⟩
      · simp [openLink, Engine.putTracker]
      · intro n hn
        exact (mem_registry_openLink hn).imp_right fun hn => Nat.le_of_eq hn.symm
  | greet origin t replaced =>
    refine ⟨h.greet, .of_same ?_ ?_, trivial⟩
    · simp only [Section.step]
      split
      · rw [Engine.sayHello_eq]
        rfl
      · rfl
    · simp only [Section.step]
      split
      · rw [Engine.sayHello_eq]
        simp
      · rfl
  | release t replaced =>
    cases hp : e.pending with
    | nil =>
      have hq : Quiet e (e.notify t) := ⟨rfl, rfl, rfl⟩
      have hf : Retired e replaced := (h.fits _ rfl).2
      have ho : ∀ n, (Section.release t replaced).owes (e.notify t).pending n = [] := by
        intro n
        simp [Section.owes, Engine.notify, hp]
      simp only [Section.step, hp]
      exact ⟨(h.quiet hq).leave (.inr hp) ho, .of_same rfl rfl, hf⟩
    | cons query rest =>
      simp only [Section.step, hp]
      exact ⟨h.releaseNext hp, .of_same (registry_deliver _ _ _) (length_deliver _ _ _), trivial⟩

structure Sound (s : State κ) : Prop where
  traffic : Traffic s.engine (s.holder.map Prod.snd) (ledger s.log)
  calls : ∀ c ∈ s.calls, c.Fits s.engine

theorem Sound.settle {s : State κ} (h : Sound s) (i : Nat) {o : Outcome κ}
    (ho : Traffic o.engine o.hold ((ledger s.log).noteAll o.events) ∧ Grows s.engine o.engine ∧
      o.call.Fits o.engine) : Sound (s.settle i o) := by
  obtain ⟨ht, hg, hc⟩ := ho
  refine ⟨?_, ?_⟩
  · simp only [State.settle, ledger_append, Option.map_map, Function.comp_def, Option.map_id']
    exact ht
  · exact forall_mem_set (fun c hm => (h.calls c hm).mono hg) i hc

theorem Sound.goFree {s : State κ} (h : Sound s) {i : Nat} {c : Call κ} (hc : s.calls[i]? = some c) :
    Sound (s.goFree i c) := by
  obtain ⟨ht, hg, hf⟩ := traffic_step h.traffic (h.calls c (List.mem_of_getElem? hc))
  exact ⟨ht, forall_mem_set (fun d hm => (h.calls d hm).mono hg) i hf⟩

/-- What a move is: nothing, a step without the lock, a call that gets the lock, or a step with it. -/
theorem go_cases (s : State κ) (m : Move) :
    (s.calls[m.call]? = none ∧ s.go m = s) ∨
    (∃ c, s.calls[m.call]? = some c ∧ (∀ sec, s.holder ≠ some (m.call, sec)) ∧ s.go m = s.goFree m.call c) ∨
    (∃ c o, s.calls[m.call]? = some c ∧ s.holder = none ∧ c.enter? s.engine m.call = some o ∧
      s.go m = s.settle m.call o) ∨
    ∃ sec, s.holder = some (m.call, sec) ∧ s.go m = s.settle m.call (sec.step s.engine m.call m.now) := by
  unfold State.go
  cases hc : s.calls[m.call]? with
  | none => exact .inl ⟨rfl, rfl⟩
  | some c =>
    right
    cases hh : s.holder with
    | some p =>
      obtain ⟨i, sec⟩ := p
      by_cases hi : m.call = i
      · subst hi
        exact .inr (.inr ⟨sec, rfl, by simp⟩)
      · refine .inl ⟨c, rfl, fun sec' hh' => ?_, by simp [hi]⟩
        cases hh'
        exact hi rfl
    | none =>
      cases ho : c.enter? s.engine m.call with
      | some o => exact .inr (.inl ⟨c, o, rfl, rfl, ho, by simp [ho]⟩)
      | none => exact .inl ⟨c, rfl, by simp, by simp [ho]⟩

theorem Sound.go {s : State κ} (h : Sound s) (m : Move) : Sound (s.go m) := by
  rcases go_cases s m with ⟨-, hg⟩ | ⟨c, hc, -, hg⟩ | ⟨c, o, hc, hn, ho, hg⟩ | ⟨sec, hs, hg⟩
  · rwa [hg]
  · rw [hg]
    exact h.goFree hc
  · rw [hg]
    have ht := h.traffic
    rw [hn] at ht
    exact h.settle m.call (traffic_enter ht (h.calls c (List.mem_of_getElem? hc)) ho)
  · rw [hg]
    have ht := h.traffic
    rw [hs] at ht
    exact h.settle m.call (traffic_section ht m.call m.now)

theorem Sound.run {s : State κ} (h : Sound s) (ms : List Move) : Sound (s.run ms) := by
  induction ms generalizing s with
  | nil => exact h
  | cons m ms ih => exact ih (h.go m)

end Interleaving
end Discovery
end PeerDiscovery
