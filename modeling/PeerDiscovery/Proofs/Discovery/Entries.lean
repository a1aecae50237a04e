import Mathlib.Data.List.Induction
import PeerDiscovery.Host
import PeerDiscovery.Proofs.Discovery.Registry

/-! Where the entries of the directory are from.
A host notes a service when a peer that it knows announces one, at the endpoint under which it knows the peer at that
moment. While nothing else writes the directory, it has for each endpoint what was announced last by a peer known
there (`entries_announced`). -/
namespace PeerDiscovery

open Discovery (Engine Operation)

theorem Directory.mem_entries_add {d : Directory} {endpoint own : Endpoint} {facts service : FactSet} :
    (endpoint, facts) ∈ (d.add own service).entries ↔
      endpoint = own ∧ facts = service ∨ endpoint ≠ own ∧ (endpoint, facts) ∈ d.entries := by
  simp only [add, erase, List.mem_append, List.mem_filter, decide_eq_true_eq, List.mem_singleton, Prod.mk.injEq]
  tauto

namespace Discovery
namespace Engine

variable {κ : Type} {e : Engine κ} {m : Envelope} {endpoint : Endpoint} {facts : FactSet}

/-- An announcement of a service by a peer that is known at an endpoint. -/
def Announces (e : Engine κ) (m : Envelope) (endpoint : Endpoint) (facts : FactSet) : Prop :=
  m.message = .announce facts ∧
    ∃ peer t, m.sender = some (PeerId.bytes peer) ∧ e.tracker? peer = some t ∧ t.endpoint = endpoint

theorem Announces.unique {endpoint' : Endpoint} {facts' : FactSet} (h : e.Announces m endpoint facts)
    (h' : e.Announces m endpoint' facts') : endpoint' = endpoint ∧ facts' = facts := by
  obtain ⟨hm, peer, t, hs, ht, rfl⟩ := h
  obtain ⟨hm', peer', t', hs', ht', rfl⟩ := h'
  obtain rfl : peer' = peer := PeerId.ext (Option.some.inj (hs'.symm.trans hs))
  rw [ht] at ht'
  rw [hm] at hm'
  cases ht'
  cases hm'
  exact ⟨rfl, rfl⟩

theorem onAnnounce_of_announces (h : e.Announces m endpoint facts) :
    e.onAnnounce m.sender facts = { e with directory := e.directory.add endpoint facts } := by
  obtain ⟨-, peer, t, hs, ht, rfl⟩ := h
  simp only [onAnnounce, hs, Option.bind_some, PeerId.ofBytes?_bytes, ht]

theorem onAnnounce_of_not_announces (hm : m.message = .announce facts)
    (h : ∀ endpoint facts, ¬e.Announces m endpoint facts) : e.onAnnounce m.sender facts = e := by
  unfold onAnnounce
  split
  · rfl
  · next t ht =>
    obtain ⟨peer, hp, ht⟩ := Option.bind_eq_some_iff.1 ht
    obtain ⟨sender, hs, hp⟩ := Option.bind_eq_some_iff.1 hp
    exact absurd ⟨hm, peer, t, hs.trans (congrArg some (PeerId.ofBytes?_eq_some hp).symm), ht, rfl⟩ (h t.endpoint facts)

theorem directory_dispatch_of_announces (h : e.Announces m endpoint facts) (now : Nat) :
    (e.dispatch m now).1.directory = e.directory.add endpoint facts := by
  simp only [dispatch, h.1, onAnnounce_of_announces h]

theorem directory_dispatch_of_not_announces (h : ∀ endpoint facts, ¬e.Announces m endpoint facts) (now : Nat) :
    (e.dispatch m now).1.directory = e.directory := by
  unfold dispatch
  split
  · split
    · rfl
    · exact (sameQueries_onHello e _ _ _ now).directory
  · next hm => rw [onAnnounce_of_not_announces hm h]
  · rfl
  · obtain ⟨inFlight, -, heq⟩ := onResponse_eq e m
    simpa only using congrArg Engine.directory heq

theorem dispatch_announce (hm : m.message = .announce facts) (now : Nat) :
    e.dispatch m now = ({ e with directory := (e.dispatch m now).1.directory }, {}) := by
  simp only [dispatch, hm, onAnnounce]
  split <;> rfl

theorem dispatch_query (hm : m.message = .query facts) (now : Nat) : (e.dispatch m now).1 = e := by
  simp only [dispatch, hm]

theorem directory_perform (e : Engine κ) {op : Operation κ} (h : ∀ directory, op ≠ .fill directory) :
    (e.perform op).directory = e.directory := by
  cases op with
  | beacon beacon now => exact (sameQueries_onBeacon e beacon now).directory
  | hello sender address port now => exact (sameQueries_onHello e sender address port now).directory
  | find facts k =>
    rw [perform]
    rcases find_cases e facts k with ⟨-, hf⟩ | ⟨-, -, hf⟩ | ⟨-, -, hf⟩
    · rw [hf]
    · rw [hf]
    · rw [hf, submit_eq]
      rfl
  | response m =>
    obtain ⟨inFlight, -, heq⟩ := onResponse_eq e m
    rw [perform, heq]
  | announce facts =>
    obtain ⟨n, hn⟩ := announce_eq e facts
    rw [perform, hn]
  | announceTo facts link =>
    rw [perform, announceTo_eq]
    rfl
  | start bound found beacons => rw [perform, start_eq]
  | subscribe | unsubscribe | takeDiscovered | fail => rfl
  | fill directory => exact absurd rfl (h directory)
  | shutdown limit => rw [perform, shutdown_eq]

end Engine
end Discovery

/-- What happens to a host whose directory nobody writes by hand. -/
inductive Host.Intake (κ : Type) where
  /-- A control message comes in from a peer. -/
  | message (envelope : Envelope) (now : Nat)
  /-- Something is done to the engine: a beacon is heard, a query asked, and so on. -/
  | operation (op : Operation κ) (h : ∀ directory, op ≠ .fill directory)

namespace Host

variable {κ : Type} {h : Host κ} {x : Intake κ} {run : List (Intake κ)} {endpoint : Endpoint} {facts : FactSet}

def take (h : Host κ) : Intake κ → Host κ
  | .message envelope now => (h.dispatch envelope now).1
  | .operation op _ => { h with engine := h.engine.perform op }

def after (h : Host κ) (run : List (Intake κ)) : Host κ := run.foldl take h

theorem after_concat (h : Host κ) (run : List (Intake κ)) (x : Intake κ) :
    h.after (run ++ [x]) = (h.after run).take x := by simp [after]

/-- A service is noted at an endpoint: a peer that is known there announces it. -/
def Notes (h : Host κ) (x : Intake κ) (endpoint : Endpoint) (facts : FactSet) : Prop :=
  match x with
  | .message m _ => h.engine.Announces m endpoint facts
  | .operation .. => False

/-- The last service that was noted at an endpoint in a run. -/
def NotedLast (h : Host κ) (run : List (Intake κ)) (endpoint : Endpoint) (facts : FactSet) : Prop :=
  ∃ before x later, run = before ++ x :: later ∧ (h.after before).Notes x endpoint facts ∧
    ∀ between y rest, later = between ++ y :: rest →
      ∀ facts', ¬(h.after (before ++ x :: between)).Notes y endpoint facts'

theorem not_notedLast_nil : ¬h.NotedLast [] endpoint facts := by
  rintro ⟨before, x, later, hrun, -⟩
  cases before <;> cases hrun

theorem notedLast_concat :
    h.NotedLast (run ++ [x]) endpoint facts ↔ (h.after run).Notes x endpoint facts ∨
      (∀ facts', ¬(h.after run).Notes x endpoint facts') ∧ h.NotedLast run endpoint facts := by
  constructor
  · rintro ⟨before, y, later, hrun, hnotes, hlast⟩
    rcases concat_eq_append_cons hrun with ⟨rfl, rfl, rfl⟩ | ⟨later, rfl, rfl⟩
    · exact .inl hnotes
    · refine .inr ⟨hlast later x [] rfl, before, y, later, rfl, hnotes, fun between z rest hl => ?_⟩
      exact hlast between z (rest ++ [x]) (by simp [hl])
  · rintro (hnotes | ⟨hx, before, y, later, rfl, hnotes, hlast⟩)
    · exact ⟨run, x, [], rfl, hnotes, fun between y rest hl => absurd hl (by simp)⟩
    · refine ⟨before, y, later ++ [x], by simp, hnotes, fun between z rest hl => ?_⟩
      rcases concat_eq_append_cons hl with ⟨rfl, rfl, -⟩ | ⟨rest, -, rfl⟩
      · exact hx
      · exact hlast between z rest rfl

theorem engine_dispatch (h : Host κ) (m : Envelope) (now : Nat) :
    (h.dispatch m now).1.engine = (h.engine.dispatch m now).1 := by
  simp only [dispatch]
  cases (h.engine.dispatch m now).2.reply <;> rfl

theorem mem_entries_take : (endpoint, facts) ∈ (h.take x).engine.directory.entries ↔
    h.Notes x endpoint facts ∨
      (∀ facts', ¬h.Notes x endpoint facts') ∧ (endpoint, facts) ∈ h.engine.directory.entries := by
  cases x with
  | operation op hop =>
    have hd : (h.take (.operation op hop)).engine.directory = h.engine.directory :=
      h.engine.directory_perform hop
    simp [hd, Notes]
  | message m now =>
    simp only [take, engine_dispatch, Notes]
    by_cases hm : ∃ own service, h.engine.Announces m own service
    · obtain ⟨own, service, hm⟩ := hm
      have hiff : ∀ endpoint facts, h.engine.Announces m endpoint facts ↔ endpoint = own ∧ facts = service := by
        refine fun endpoint facts => ⟨hm.unique, ?_⟩
        rintro ⟨rfl, rfl⟩
        exact hm
      rw [Engine.directory_dispatch_of_announces hm, Directory.mem_entries_add]
      simp only [hiff]
      refine or_congr_right (and_congr_left' ⟨fun hne _ h' => hne h'.1, fun hall he => hall service ⟨he, rfl⟩⟩)
    · have hnone : ∀ endpoint facts, ¬h.engine.Announces m endpoint facts := by simpa using hm
      rw [Engine.directory_dispatch_of_not_announces hnone]
      simp [hnone]

/-- A host whose directory was empty has noted a service at an endpoint if and only if some peer announced it while it
was known there, and no such announcement for the endpoint came after it. No other message writes the directory, an
announcement changes nothing else, and a query leaves the engine as it is. -/
theorem entries_announced (h : Host κ) (hd : h.engine.directory = ∅) (run : List (Intake κ)) :
    let s := h.after run
    (∀ endpoint facts, (endpoint, facts) ∈ s.engine.directory.entries ↔ h.NotedLast run endpoint facts) ∧
    ∀ m now,
      ((∀ endpoint facts, ¬s.engine.Announces m endpoint facts) →
        (s.dispatch m now).1.engine.directory = s.engine.directory) ∧
      (∀ facts, m.message = .announce facts →
        (s.dispatch m now).1 = { s with engine.directory := (s.dispatch m now).1.engine.directory }) ∧
      ∀ facts, m.message = .query facts → (s.dispatch m now).1.engine = s.engine := by
  intro s
  refine ⟨fun endpoint facts => ?_, fun m now => ⟨fun hm => ?_, fun facts hm => ?_, fun facts hm => ?_⟩⟩
  · induction run using List.reverseRecOn with
    | nil =>
      have hempty : s.engine.directory.entries = [] := congrArg Directory.entries hd
      simp [hempty, not_notedLast_nil]
    | append_singleton run x ih =>
      simp only [s, after_concat, notedLast_concat, mem_entries_take]
      exact or_congr_right (and_congr_right' ih)
  · rw [engine_dispatch, Engine.directory_dispatch_of_not_announces hm]
  · rw [dispatch, Engine.dispatch_announce hm]
  · rw [engine_dispatch, Engine.dispatch_query hm]

/-- A peer that moves between two announcements. -/
theorem entries_announced_moved :
    let peer : PeerId := ⟨List.replicate 16 1, rfl⟩
    let host : Host Unit := ⟨.new ⟨List.replicate 16 0, rfl⟩ 0 ∅, { requested := .tcp "*" 0 }⟩
    let echo : FactSet := .ofPairs [("name", "echo")]
    let clock : FactSet := .ofPairs [("name", "clock")]
    let run : List (Intake Unit) :=
      [.message ⟨1, "", some peer.bytes, .announce clock⟩ 3,
        .operation (.beacon ⟨peer, .tcp "10.0.0.1" 1⟩ 5) (fun _ h => nomatch h),
        .message ⟨2, "", some peer.bytes, .announce echo⟩ 6, .message ⟨3, "", none, .announce clock⟩ 7,
        .message ⟨4, "", some peer.bytes, .hello "10.0.0.2" 7⟩ 8,
        .message ⟨5, "", some peer.bytes, .announce clock⟩ 9]
    host.engine.directory = ∅ ∧ host.NotedLast run (.tcp "10.0.0.1" 1) echo ∧
      host.NotedLast run (.tcp "10.0.0.2" 7) clock ∧ ¬host.NotedLast run (.tcp "10.0.0.1" 1) clock := by
  intro peer host echo clock run
  obtain ⟨hentries, -⟩ := entries_announced host rfl run
  refine ⟨rfl, (hentries _ _).1 ?_, (hentries _ _).1 ?_, fun h => absurd ((hentries _ _).2 h) ?_⟩ <;> decide +kernel

end Host
end PeerDiscovery
