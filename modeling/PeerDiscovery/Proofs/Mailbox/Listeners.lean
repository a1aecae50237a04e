import PeerDiscovery.Proofs.Forum
import PeerDiscovery.Proofs.Mailbox.Acts
import PeerDiscovery.Proofs.Mailbox.Arrivals

/-! What the listeners of a mailbox hear.
A mailbox is a forum: what it makes known are its events, and an event is raised when its owner issues a request or when it
takes in an envelope that arrived. That it is closed and opened again makes no difference to its listeners. -/
namespace PeerDiscovery
namespace Mailbox

instance : Hearer Listener Event where
  live l := l.live
  queue l := l.queue
  hear l event := { l with queue := l.queue ++ [event] }
  live_hear _ _ := rfl
  queue_hear _ _ := rfl

@[simp] theorem queue_listener (l : Listener) : Hearer.queue l = l.queue := rfl

def raises? (m : Mailbox) : Act → Option Event
  | .move (.send e) => if e.sender = none then some (.sent e) else none
  | .move .notice => (m.hub.notices.head?.bind Notice.envelope?).map .received
  | _ => none

def taking (m : Mailbox) (a : Act) (k : Nat) : List Event :=
  match a with
  | .move mv => (({ mailbox := m } : Office).go mv).got k
  | _ => []

def Act.listens : Act → Bool
  | .move .listen => true
  | _ => false

def Act.unlistens : Act → Nat → Bool
  | .move (.unlisten j), k => j == k
  | _, _ => false

variable {m : Mailbox} {a : Act} {event : Event} {k : Nat}

theorem listeners_act_of_raises (h : m.raises? a = some event) :
    (m.act a).listeners = (m.emit event).listeners ∧ m.taking a k = [] := by
  cases a with
  | «open» | close => cases h
  | move mv =>
    cases mv with
    | send e =>
      simp only [raises?] at h
      split at h
      · next hs =>
        obtain rfl := Option.some.inj h
        simp only [act, taking, Office.go, send, hs, and_self]
      · cases h
    | notice =>
      simp only [raises?] at h
      cases hn : m.hub.notices with
      | nil => simp [hn] at h
      | cons notice rest =>
        obtain ⟨e, he, rfl⟩ := Option.map_eq_some_iff.1 h
        have henvelope : notice.envelope? = some e := by simpa only [hn, List.head?_cons, Option.bind_some] using he
        simp only [act, taking, Office.go, takeNotice?_of_cons hn, henvelope, and_true]
        rfl
    | _ => cases h

def Hushed (m : Mailbox) (a : Act) : Prop :=
  (m.act a).listeners = m.listeners ∧ ∀ k, m.taking a k = [] ∧ a.unlistens k = false

theorem hushed_open (m : Mailbox) (free : Net.SocketAddr → Bool) : m.Hushed (.open free) := by
  refine ⟨?_, fun _ => ⟨rfl, rfl⟩⟩
  rcases m.tryOpen_cases free with ⟨-, h⟩ | ⟨-, e, -, h⟩ | ⟨-, addr, -, h⟩ <;>
    exact congrArg (fun r => r.1.listeners) h

theorem hushed_close (m : Mailbox) : m.Hushed .close := by
  refine ⟨?_, fun _ => ⟨rfl, rfl⟩⟩
  simp only [act, close]
  split <;> rfl

theorem listeners_act_move (m : Mailbox) (mv : Office.Move) :
    (m.act (.move mv)).listeners = (({ mailbox := m } : Office).go mv).mailbox.listeners := by
  cases mv with
  | accept stream =>
    rw [act]
    split <;> rfl
  | _ => rfl

/-- The listeners are as they were, and have taken nothing. -/
def Unheard (m : Mailbox) (s : Office) : Prop := s.mailbox.listeners = m.listeners ∧ s.got = fun _ => []

theorem Unheard.hushed {mv : Office.Move} (h : m.Unheard (({ mailbox := m } : Office).go mv))
    (hmv : ∀ k, (Act.move mv).unlistens k = false) : m.Hushed (.move mv) :=
  ⟨(listeners_act_move m mv).trans h.1, fun k => ⟨congrFun h.2 k, hmv k⟩⟩

theorem act_cases_of_quiet (hraises : m.raises? a = none) (hlistens : a.listens = false) :
    (∃ j, a = .move (.unlisten j)) ∨ (∃ j, a = .move (.next j)) ∨ (∃ j, a = .move (.take j)) ∨ m.Hushed a := by
  have hsame : m.Unheard { mailbox := m } := ⟨rfl, rfl⟩
  cases a with
  | «open» free => exact .inr (.inr (.inr (m.hushed_open free)))
  | close => exact .inr (.inr (.inr m.hushed_close))
  | move mv =>
    cases mv with
    | listen => cases hlistens
    | unlisten j => exact .inl ⟨j, rfl⟩
    | next j => exact .inr (.inl ⟨j, rfl⟩)
    | take j => exact .inr (.inr (.inl ⟨j, rfl⟩))
    | accept stream => exact .inr (.inr (.inr (Unheard.hushed ⟨rfl, rfl⟩ fun _ => rfl)))
    | read n bytes lingers =>
      refine .inr (.inr (.inr (Unheard.hushed (Office.withConnection_of hsame fun c _ => ?_) fun _ => rfl)))
      split
      · exact ⟨rfl, rfl⟩
      · exact hsame
    | finish n lingers =>
      refine .inr (.inr (.inr (Unheard.hushed (Office.withConnection_of hsame fun c _ => ?_) fun _ => rfl)))
      split
      · exact ⟨rfl, rfl⟩
      · exact hsame
    | abort n =>
      refine .inr (.inr (.inr (Unheard.hushed (Office.withConnection_of hsame fun c _ => ?_) fun _ => rfl)))
      split
      · exact hsame
      · exact ⟨rfl, rfl⟩
    | write n whole =>
      exact .inr (.inr (.inr (Unheard.hushed (Office.withConnection_of hsame fun c _ => ⟨rfl, rfl⟩) fun _ => rfl)))
    | send e =>
      refine .inr (.inr (.inr (Unheard.hushed ?_ fun _ => rfl)))
      simp only [Office.go, send]
      cases hs : e.sender with
      | none => simp [raises?, hs] at hraises
      | some identity =>
        dsimp only
        split <;> exact ⟨rfl, rfl⟩
    | notice =>
      refine .inr (.inr (.inr (Unheard.hushed ?_ fun _ => rfl)))
      cases hn : m.hub.notices with
      | nil => simpa only [Office.go, takeNotice?, Hub.takeNotice?, hn] using hsame
      | cons notice rest =>
        have hnone : notice.envelope? = none := by simpa [raises?, hn] using hraises
        simp only [Office.go, takeNotice?_of_cons hn, hnone]
        exact ⟨rfl, rfl⟩

theorem quiet_act (hraises : m.raises? a = none) (hlistens : a.listens = false) :
    Forum.Quiet m.listeners a.unlistens (m.taking a) (m.act a).listeners := by
  rcases act_cases_of_quiet hraises hlistens with ⟨j, rfl⟩ | ⟨j, rfl⟩ | ⟨j, rfl⟩ | ⟨hsame, hh⟩
  · exact .leave j _ (fun _ => rfl) (fun _ => rfl) fun _ => rfl
  · cases hm : m.takeEvent? j with
    | none =>
      simp only [act, Office.go, hm]
      exact .hush (fun _ => rfl) fun k => by simp only [taking, Office.go, hm]
    | some next =>
      obtain ⟨m', event⟩ := next
      obtain ⟨l, rest, hj, hq, rfl⟩ := exists_of_takeEvent? hm
      simp only [act, Office.go, hm]
      refine .take j l { l with queue := rest } hj rfl ?_ (fun _ => rfl) fun k hk => ?_
      · simp [taking, Office.go, Office.give, hm, hq]
      · simp [taking, Office.go, Office.give, hm, Ne.symm hk]
  · refine .modify j (fun l : Listener => { l with queue := [] }) (fun _ => rfl) (fun l hj => ?_) (fun _ => rfl) fun k hk => ?_
    · simp [taking, Office.go, Office.give, takeEvents, hj]
    · by_cases hkj : k = j
      · subst hkj
        simp [taking, Office.go, Office.give, takeEvents, hk.resolve_left (not_not.2 rfl)]
      · simp [taking, Office.go, Office.give, hkj]
  · rw [hsame]
    exact .hush (fun k => (hh k).2) fun k => (hh k).1

theorem listens_iff (a : Act) : a.listens = true ↔ a = .move .listen := by
  unfold Act.listens
  split
  · exact iff_of_true rfl rfl
  · next hne => exact iff_of_false Bool.false_ne_true hne

theorem unlistens_iff (a : Act) (k : Nat) : a.unlistens k = true ↔ a = .move (.unlisten k) := by
  unfold Act.unlistens
  split
  · next j => simp
  · next hne => exact iff_of_false Bool.false_ne_true (hne k)

/-- A mailbox and its listeners. -/
def forum : Forum Mailbox Act Listener where
  hearers m := m.listeners
  withHearers m listeners := { m with listeners }
  act := act
  news? := raises?
  waits m a := (m.raises? a).isSome || a.listens
  joins := Act.listens
  leaves := Act.unlistens
  join := .move .listen
  leave k := .move (.unlisten k)
  hands := taking
  newcomer := {}
  hearers_withHearers _ _ := rfl
  withHearers_hearers _ := rfl
  withHearers_withHearers _ _ _ := rfl
  waits_of_news h := by rw [h]; rfl
  hands_of_news h k := (listeners_act_of_raises (k := k) h).2
  hearers_of_news h := (listeners_act_of_raises (k := 0) h).1
  live_newcomer := rfl
  queue_newcomer := rfl
  waits_of_joins h m := by rw [h, Bool.or_true]
  news_of_joins h m := by rw [(listens_iff _).1 h]; rfl
  hands_of_joins h m k := by rw [(listens_iff _).1 h]; rfl
  hearers_of_joins h m := by rw [(listens_iff _).1 h]; rfl
  waits_of_leaves h m := by rw [(unlistens_iff _ _).1 h]; rfl
  joins_iff := listens_iff
  leaves_iff := unlistens_iff
  quiet := quiet_act

/-- Of a mailbox whose listeners come and go at any time, that is opened and closed, sends, receives and tells its listeners
of one event after another, with anything else in between. A listener that is there began to listen at some time and has not
left. With what it took it has in its queue, or is owed, exactly the events that were raised since, each once and in order.
Who began to listen is there until it leaves. From any time on all who stay hear the same, whoever else leaves. An event that
goes round comes to its end; with nothing in between the mailbox does what its acts do. A closing and an opening leave the
listeners as they are. -/
theorem listeners_hear_all (requested : Endpoint) (steps : List (Forum.Step Act)) :
    let start : Forum.State Mailbox Event := ⟨new requested, {}⟩
    let s := forum.after start steps
    (∀ k l, s.system.listeners[k]? = some l → l.live = true →
      ∃ before later, steps = before ++ .act (.move .listen) :: later ∧ (forum.after start before).roster.IsFree ∧
        k = (forum.after start before).system.listeners.length ∧ .act (.move (.unlisten k)) ∉ later ∧
        let joined := forum.after start (before ++ [.act (.move .listen)])
        forum.handed k joined later ++ l.queue ++ s.roster.owed k = forum.told joined later) ∧
    (∀ before later, steps = before ++ .act (.move .listen) :: later → (forum.after start before).roster.IsFree →
      let k := (forum.after start before).system.listeners.length
      .act (.move (.unlisten k)) ∉ later → ∃ l, s.system.listeners[k]? = some l ∧ l.live = true) ∧
    (∀ before later, steps = before ++ later → ∀ k l, (forum.after start before).system.listeners[k]? = some l →
      l.live = true → .act (.move (.unlisten k)) ∉ later →
      ∃ l', s.system.listeners[k]? = some l' ∧ l'.live = true ∧
        forum.handed k (forum.after start before) later ++ l'.queue ++ s.roster.owed k =
          l.queue ++ (forum.after start before).roster.owed k ++ forum.told (forum.after start before) later) ∧
    (forum.after s (List.replicate s.roster.left .turn)).roster.IsFree ∧
    (∀ acts, ∃ steps, steps.filterMap Forum.Step.act? = acts ∧
      (forum.after start steps).system = (new requested).after acts ∧ (forum.after start steps).roster.IsFree) ∧
    ∀ free, (forum.after s [.act .close, .act (.open free)]).system.listeners = s.system.listeners ∧
      (forum.after s [.act .close, .act (.open free)]).roster = s.roster := by
  intro start s
  have hstart : forum.Complete start := (Roster.complete_nil : ({} : Roster Event).Complete ([] : List Listener))
  obtain ⟨hears, hthere⟩ := forum.hearers_hear hstart rfl steps
  refine ⟨hears, hthere, ?_, Forum.isFree_after_turns s, Forum.exists_steps hstart rfl, fun free => ?_⟩
  · rintro before later rfl k l hk hl hlater
    exact Forum.stayers_hear hstart hk hl hlater
  · have hclose : forum.go s (.act .close) = ⟨s.system.act .close, s.roster⟩ := if_pos (.inr rfl)
    have hopen : forum.go ⟨s.system.act .close, s.roster⟩ (.act (.open free)) =
        ⟨(s.system.act .close).act (.open free), s.roster⟩ := if_pos (.inr rfl)
    have hboth : forum.after s [.act .close, .act (.open free)] =
        ⟨(s.system.act .close).act (.open free), s.roster⟩ := by
      rw [Forum.after, List.foldl_cons, hclose, List.foldl_cons, hopen, List.foldl_nil]
    rw [hboth]
    exact ⟨(hushed_open _ free).1.trans (hushed_close _).1, rfl⟩

end Mailbox
end PeerDiscovery
