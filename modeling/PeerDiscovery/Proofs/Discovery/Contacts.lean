import PeerDiscovery.Proofs.Discovery.Connections
import PeerDiscovery.Proofs.Discovery.Introduction
import PeerDiscovery.Proofs.Forum

/-! Whom an engine greets, and whom it tells of a new tracker.
A contact is a sighting for which a link and a tracker are made. The links of an engine are those of its contacts, one for
each, and what a link says of hellos is settled when it is made: no other operation sends one (`links_account_perform`). An
engine is a forum: what it makes known are the trackers of its contacts. -/
namespace PeerDiscovery

/-- The address and the port that a hello gives. -/
def Envelope.hello? (m : Envelope) : Option (String × UInt16) :=
  match m.message with
  | .hello address port => some (address, port)
  | _ => none

namespace Discovery

/-- A link and a tracker are made for a sighting. -/
structure Contact where
  origin : Origin
  tracker : Tracker
  /-- The endpoint of the node at that time. -/
  own : Option Endpoint

/-- What the peer is told in a hello: nothing, unless it sent a beacon and the node has an endpoint. -/
def Contact.greeting (c : Contact) : Option (String × UInt16) :=
  if c.origin = .beacon then c.own.map fun own => (own.address, own.port) else none

/-- Whom a link leads to, and the hellos on it: in the first envelope, and in the later ones. -/
structure Account where
  peer : PeerId
  endpoint : Endpoint
  first : Option (String × UInt16)
  later : List (String × UInt16)

def Contact.account (c : Contact) : Account := ⟨c.tracker.peer, c.tracker.endpoint, c.greeting, []⟩

namespace Contact

theorem greeting_eq_some_iff (c : Contact) (address : String) (port : UInt16) :
    c.greeting = some (address, port) ↔
      c.origin = .beacon ∧ ∃ own, c.own = some own ∧ own.address = address ∧ own.port = port := by
  unfold greeting
  split
  · next h => simp [h, Option.map_eq_some_iff]
  · next h => simp [h]

theorem length_filterMap_greeting_le (cs : List Contact) :
    (cs.filterMap greeting).length ≤ (cs.filter fun c => c.origin = .beacon).length := by
  induction cs with
  | nil => exact Nat.le_refl _
  | cons c cs ih =>
    by_cases h : c.origin = .beacon
    · rw [List.filter_cons_of_pos (by simpa using h), List.length_cons, List.filterMap_cons]
      split
      · exact Nat.le_succ_of_le ih
      · exact Nat.succ_le_succ ih
    · have hnone : c.greeting = none := if_neg h
      rw [List.filter_cons_of_neg (by simpa using h), List.filterMap_cons_none hnone]
      exact ih

end Contact

/-- All hellos on some links. -/
def hellos (ls : List Link) : List (String × UInt16) := ls.flatMap fun l => l.sent.filterMap Envelope.hello?

namespace Link

def account (l : Link) : Account :=
  ⟨l.peer, l.endpoint, l.sent.head?.bind Envelope.hello?, l.sent.tail.filterMap Envelope.hello?⟩

theorem hellos_eq (l : Link) : l.sent.filterMap Envelope.hello? = l.account.first.toList ++ l.account.later := by
  unfold account
  cases l.sent with
  | nil => rfl
  | cons m rest =>
    rw [List.filterMap_cons]
    cases h : m.hello? <;> simp [h]

theorem account_send {m : Envelope} (h : m.hello? = none) (l : Link) : (l.send m).1.account = l.account := by
  unfold send
  split
  · obtain ⟨peer, endpoint, accepting, sent, closes⟩ := l
    cases sent <;> simp [account, h]
  · rfl

end Link

theorem hellos_eq_flatMap (ls : List Link) :
    hellos ls = (ls.map Link.account).flatMap fun a => a.first.toList ++ a.later := by
  rw [List.flatMap_map]
  exact congrArg (List.flatMap · ls) (funext Link.hellos_eq)

theorem hellos_eq_of_account {ls : List Link} {cs : List Contact} (h : ls.map Link.account = cs.map Contact.account) :
    hellos ls = cs.filterMap Contact.greeting := by
  rw [hellos_eq_flatMap, h, List.flatMap_map]
  simp only [Contact.account, List.append_nil]
  exact (List.filterMap_eq_flatMap_toList _ _).symm

/-- Nothing that is put on links or closes them makes a difference, if there is no hello among it. -/
theorem Effects.map_account_apply {x : Effects} (hmade : x.made = []) (hoffered : ∀ o ∈ x.offered, o.2.hello? = none)
    (ls : List Link) : (x.apply ls).map Link.account = ls.map Link.account := by
  have hoffers : ∀ (offers : List (Nat × Envelope)) (ls : List Link), (∀ o ∈ offers, o.2.hello? = none) →
      (offerEach ls offers).map Link.account = ls.map Link.account := by
    intro offers
    induction offers with
    | nil => exact fun _ _ => rfl
    | cons o offers ih =>
      intro ls ho
      rw [offerEach_cons, ih _ fun o' h' => ho o' (List.mem_cons_of_mem o h')]
      exact map_modify_of_same _ _ (Link.account_send (ho o List.mem_cons_self)) ls o.1
  have hcloses : ∀ (closings : List (Nat × Nat)) (ls : List Link),
      (closeEach ls closings).map Link.account = ls.map Link.account := by
    intro closings
    induction closings with
    | nil => exact fun _ => rfl
    | cons c closings ih => exact fun ls => (ih _).trans (map_modify_of_same Link.account (·.close c.2) (fun _ => rfl) ls c.1)
  rw [Effects.apply, hcloses, hoffers _ _ hoffered, hmade, List.append_nil]

/-- The kind of sighting that an operation is, if it is one. -/
def Operation.origin {κ : Type} : Operation κ → Origin
  | .hello .. => .hello
  | _ => .beacon

namespace Engine

variable {κ : Type} {e : Engine κ} {op : Operation κ} {c : Contact}

def contact? (e : Engine κ) (op : Operation κ) : Option Contact :=
  match op.sighting? e.self with
  | none => none
  | some s =>
    if e.stopped = true ∨ (e.tracker? s.peer).map (fun t => t.endpoint) = some s.endpoint then none
    else some ⟨op.origin, e.newTracker s.peer s.endpoint s.time, e.endpoint⟩

theorem perform_eq_sight {s : Sighting} (h : op.sighting? e.self = some s) :
    e.perform op = e.sight op.origin s.peer s.endpoint s.time := by
  cases op with
  | beacon beacon now =>
    rw [perform, onBeacon_eq, h]
    rfl
  | hello sender address port now =>
    rw [perform, onHello_eq, h]
    rfl
  | _ => exact absurd h (by simp [Operation.sighting?])

theorem exists_discover_of_contact (h : e.contact? op = some c) :
    ∃ s, op.sighting? e.self = some s ∧ c = ⟨op.origin, e.newTracker s.peer s.endpoint s.time, e.endpoint⟩ ∧
      (e.perform op = e.discover op.origin s.peer s.endpoint s.time ∨
        ∃ n limit, e.perform op = (e.discover op.origin s.peer s.endpoint s.time).closeLink n limit) := by
  unfold contact? at h
  split at h
  · cases h
  · next s hs =>
    split at h
    · cases h
    · next hnew =>
      refine ⟨s, hs, (Option.some.inj h).symm, ?_⟩
      rw [perform_eq_sight hs, sight_eq]
      rcases register_cases e op.origin s.peer s.endpoint s.time with ⟨hstopped, -⟩ | ⟨-, hsame, -⟩ | ⟨-, -, hr⟩
      · exact absurd (.inl hstopped) hnew
      · exact absurd (.inr hsame) hnew
      · rw [hr]
        cases e.tracker? s.peer with
        | none => exact .inl rfl
        | some t => exact .inr ⟨_, _, rfl⟩

theorem perform_of_no_contact {s : Sighting} (h : e.contact? op = none) (hs : op.sighting? e.self = some s) :
    e.perform op = e ∨ e.perform op = e.touch s.peer s.time := by
  simp only [contact?, hs] at h
  rw [perform_eq_sight hs, sight_eq]
  rcases register_cases e op.origin s.peer s.endpoint s.time with ⟨-, hr⟩ | ⟨-, -, hr⟩ | ⟨hrunning, hnew, -⟩
  · exact .inl (by rw [hr])
  · exact .inr (by rw [hr])
  · rw [if_neg (by simp [hrunning, hnew])] at h
    cases h

theorem hello?_of_mem_announcements {facts : FactSet} {ns : List Nat} {o : Nat × Envelope}
    (h : o ∈ e.announcements facts ns) : o.2.hello? = none := by
  induction ns generalizing e with
  | nil => exact absurd h List.not_mem_nil
  | cons n ns ih =>
    rcases List.mem_cons.1 h with rfl | h
    · rfl
    · exact ih h

theorem hello?_of_mem_pending (h : e.QueriesWait) {m : Envelope} (hm : m ∈ e.pending) : m.hello? = none := by
  have htype := h m hm
  unfold Envelope.hello?
  unfold Envelope.type at htype
  cases hmessage : m.message <;> simp_all [Message.type]

theorem account_greeting (h : e.QueriesWait) (origin : Origin) (t : Tracker) :
    Link.account { Link.opened t.peer t.endpoint with sent := e.greeting origin ++ e.pending } =
      Contact.account ⟨origin, t, e.endpoint⟩ := by
  have hnone : ∀ m ∈ e.pending, m.hello? = none := fun m hm => hello?_of_mem_pending h hm
  have hwait : e.greeting origin = [] → Contact.greeting ⟨origin, t, e.endpoint⟩ = none →
      Link.account { Link.opened t.peer t.endpoint with sent := e.greeting origin ++ e.pending } =
        Contact.account ⟨origin, t, e.endpoint⟩ := by
    intro hg hc
    rw [hg, List.nil_append, Contact.account, hc]
    cases hp : e.pending with
    | nil => rfl
    | cons m rest =>
      rw [hp] at hnone
      have hrest : rest.filterMap Envelope.hello? = [] :=
        List.filterMap_eq_nil_iff.2 fun m' hm' => hnone m' (List.mem_cons_of_mem m hm')
      simp [Link.account, Link.opened, hnone m List.mem_cons_self, hrest]
  cases origin with
  | hello => exact hwait rfl rfl
  | beacon =>
    cases he : e.endpoint with
    | none => exact he ▸ hwait (greeting_of_none he .beacon) (by simp [Contact.greeting, he])
    | some own =>
      have hrest : e.pending.filterMap Envelope.hello? = [] := List.filterMap_eq_nil_iff.2 hnone
      rw [greeting_of_some he]
      simp [Link.account, Link.opened, Contact.account, Contact.greeting, Envelope.hello?, hrest]

theorem account_of_contact (h : e.QueriesWait) (hc : e.contact? op = some c) :
    (e.perform op).links.map Link.account = e.links.map Link.account ++ [c.account] := by
  obtain ⟨s, -, rfl, hp⟩ := exists_discover_of_contact hc
  have hnew : (e.discover op.origin s.peer s.endpoint s.time).links.map Link.account = e.links.map Link.account ++
      [Contact.account ⟨op.origin, e.newTracker s.peer s.endpoint s.time, e.endpoint⟩] := by
    rw [discover_eq, List.map_append, List.map_singleton]
    exact congrArg (e.links.map Link.account ++ [·]) (account_greeting h op.origin (e.newTracker s.peer s.endpoint s.time))
  rcases hp with hp | ⟨n, limit, hp⟩
  · rw [hp, hnew]
  · rw [hp, ← hnew]
    exact map_modify_of_same Link.account (·.close limit) (fun _ => rfl) _ n

theorem effects_of_no_contact (h : e.contact? op = none) :
    (e.effects op).made = [] ∧ ∀ o ∈ (e.effects op).offered, o.2.hello? = none := by
  cases hs : op.sighting? e.self with
  | some s =>
    obtain ⟨origin, hx⟩ := effects_of_sighting hs
    have hsame : e.stopped = true ∨ (e.tracker? s.peer).map (fun t => t.endpoint) = some s.endpoint := by
      by_contra hn
      simp only [contact?, hs] at h
      rw [if_neg hn] at h
      cases h
    rw [hx, sightingEffects, if_pos hsame]
    exact ⟨rfl, List.forall_mem_nil _⟩
  | none =>
    cases op with
    | beacon | hello =>
      rw [effects, hs]
      exact ⟨rfl, List.forall_mem_nil _⟩
    | find facts k =>
      rw [effects]
      split
      · refine ⟨rfl, fun o ho => ?_⟩
        obtain ⟨t, -, rfl⟩ := List.mem_map.1 ho
        rfl
      · exact ⟨rfl, List.forall_mem_nil _⟩
    | announce facts =>
      rw [effects]
      split
      · exact ⟨rfl, List.forall_mem_nil _⟩
      · exact ⟨rfl, fun o ho => hello?_of_mem_announcements ho⟩
    | announceTo facts n => exact ⟨rfl, fun o ho => hello?_of_mem_announcements ho⟩
    | _ => exact ⟨rfl, List.forall_mem_nil _⟩

/-- What the links say of hellos changes by the contact that an operation makes, and by nothing else. -/
theorem links_account_perform (h : e.QueriesWait) (op : Operation κ) :
    (e.perform op).links.map Link.account =
      e.links.map Link.account ++ (e.contact? op).toList.map Contact.account := by
  cases hc : e.contact? op with
  | some c => exact account_of_contact h hc
  | none =>
    rw [Option.toList_none, List.map_nil, List.append_nil]
    by_cases hop : ∃ n, op = .fail n
    · obtain ⟨n, rfl⟩ := hop
      exact map_modify_of_same Link.account Link.fail (fun _ => rfl) e.links n
    · obtain ⟨hmade, hoffered⟩ := effects_of_no_contact hc
      rw [links_perform e fun n hn => hop ⟨n, hn⟩]
      exact Effects.map_account_apply hmade hoffered e.links

theorem greeting_of_contact (hop : ∀ b now, op ≠ .beacon b now) (hc : e.contact? op = some c) : c.greeting = none := by
  obtain ⟨s, hs, rfl, -⟩ := exists_discover_of_contact hc
  cases op with
  | beacon b now => exact absurd rfl (hop b now)
  | hello => rfl
  | _ => exact absurd hs (by simp [Operation.sighting?])

theorem hellos_perform (h : e.QueriesWait) (op : Operation κ) (hop : ∀ b now, op ≠ .beacon b now) :
    hellos (e.perform op).links = hellos e.links := by
  rw [hellos_eq_flatMap, links_account_perform h, List.flatMap_append, ← hellos_eq_flatMap]
  cases hc : e.contact? op with
  | none => exact List.append_nil _
  | some c => simp [Contact.account, greeting_of_contact hop hc]

/-- No envelope from a peer is answered with a hello, on its link or another or through the mailbox. -/
theorem hellos_dispatch (h : e.QueriesWait) (m : Envelope) (now : Nat) :
    hellos (e.dispatch m now).1.links = hellos e.links ∧ (e.dispatch m now).2.reply.bind Envelope.hello? = none := by
  unfold dispatch
  cases m.message with
  | hello address port =>
    cases m.sender with
    | none => exact ⟨rfl, rfl⟩
    | some sender => exact ⟨hellos_perform h (.hello sender address port now) (by simp), rfl⟩
  | announce facts =>
    refine ⟨?_, rfl⟩
    simp only [onAnnounce]
    split <;> rfl
  | query facts =>
    refine ⟨rfl, ?_⟩
    simp only [replyTo]
    split
    · rfl
    · split <;> rfl
  | response texts => exact ⟨hellos_perform h (.response m) (by simp), rfl⟩

end Engine
end Discovery
end PeerDiscovery
