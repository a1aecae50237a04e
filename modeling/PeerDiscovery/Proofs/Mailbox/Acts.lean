import Mathlib.Data.List.Induction
import PeerDiscovery.Proofs.Mailbox.Opening
import PeerDiscovery.Proofs.Mailbox.Speakers

/-! The life of a mailbox: it is opened, used and closed, as often as its owner likes, and some of the openings fail.
While it is open it is an office. -/
namespace PeerDiscovery
namespace Mailbox

/-- What the owner of a mailbox does with it, and what happens to it. -/
inductive Act where
  /-- It is opened, where `free` tells the sockets that can be bound. -/
  | open (free : Net.SocketAddr → Bool)
  | close
  /-- Something is sent, a listener comes or goes, or a connection does something. -/
  | move (m : Office.Move)

def act (m : Mailbox) : Act → Mailbox
  | .open free => (m.tryOpen free).1
  | .close => m.close
  | .move (.accept stream) => if m.IsOpen then { m with hub := m.hub.accept stream } else m
  | .move mv => (({ mailbox := m } : Office).go mv).mailbox

def after (m : Mailbox) (acts : List Act) : Mailbox := acts.foldl act m

theorem after_append (m : Mailbox) (acts acts' : List Act) : m.after (acts ++ acts') = (m.after acts).after acts' :=
  List.foldl_append

theorem after_concat (m : Mailbox) (acts : List Act) (a : Act) : m.after (acts ++ [a]) = (m.after acts).act a :=
  m.after_append acts [a]

namespace Office

variable {s s' : Office}

theorem mailbox_withConnection (h : s.mailbox = s'.mailbox) {n : Nat} {act act' : Connection → Office}
    (hact : ∀ c, (act c).mailbox = (act' c).mailbox) :
    (s.withConnection n act).mailbox = (s'.withConnection n act').mailbox := by
  unfold withConnection
  rw [h]
  split
  · exact h
  · exact hact _

theorem mailbox_go (h : s.mailbox = s'.mailbox) (mv : Move) : (s.go mv).mailbox = (s'.go mv).mailbox := by
  have hheard : ∀ n c r lingers, (s.heard n c r lingers).mailbox = (s'.heard n c r lingers).mailbox := by
    intro n c r lingers
    simp only [heard, h]
  have hmodify : ∀ n f, (s.modify n f).mailbox = (s'.modify n f).mailbox := by
    intro n f
    simp only [modify, h]
  cases mv with
  | read n bytes lingers =>
    refine mailbox_withConnection h fun c => ?_
    split
    · exact hheard ..
    · exact h
  | finish n lingers =>
    refine mailbox_withConnection h fun c => ?_
    split
    · exact hheard ..
    · exact h
  | abort n =>
    refine mailbox_withConnection h fun c => ?_
    split
    · exact h
    · exact hmodify ..
  | write n whole => exact mailbox_withConnection h fun c => hmodify ..
  | notice =>
    simp only [go, h]
    split
    · exact h
    · rfl
  | next k =>
    simp only [go, h]
    split
    · exact h
    · rfl
  | _ => simp only [go, give, h]

/-- A move changes nothing of a mailbox but its connections and its listeners. -/
theorem go_kept (s : Office) (mv : Move) :
    (s.go mv).mailbox =
      { s.mailbox with hub := (s.go mv).mailbox.hub, listeners := (s.go mv).mailbox.listeners } := by
  let Kept (s' : Office) : Prop :=
    s'.mailbox = { s.mailbox with hub := s'.mailbox.hub, listeners := s'.mailbox.listeners }
  have hsame : Kept s := rfl
  cases mv with
  | read n bytes lingers =>
    refine withConnection_of (P := Kept) hsame fun c _ => ?_
    split
    · rfl
    · exact hsame
  | finish n lingers =>
    refine withConnection_of (P := Kept) hsame fun c _ => ?_
    split
    · rfl
    · exact hsame
  | abort n =>
    refine withConnection_of (P := Kept) hsame fun c _ => ?_
    split
    · exact hsame
    · rfl
  | write n whole => exact withConnection_of (P := Kept) hsame fun c _ => rfl
  | notice =>
    cases hn : s.mailbox.hub.notices with
    | nil => simp only [go, takeNotice?, Hub.takeNotice?, hn]
    | cons notice rest =>
      simp only [go, takeNotice?_of_cons hn]
      cases notice.envelope? <;> rfl
  | send e =>
    simp only [go, Mailbox.send]
    split
    · rfl
    · split <;> rfl
  | next k =>
    simp only [go]
    split
    · rfl
    · next hm =>
      obtain ⟨l, rest, -, -, rfl⟩ := exists_of_takeEvent? hm
      rfl
  | _ => rfl

theorem state_go (s : Office) (mv : Move) : (s.go mv).mailbox.state = s.mailbox.state :=
  (congrArg state (s.go_kept mv)).trans rfl

theorem mailbox_after (h : s.mailbox = s'.mailbox) (mvs : List Move) : (s.after mvs).mailbox = (s'.after mvs).mailbox := by
  induction mvs generalizing s s' with
  | nil => exact h
  | cons mv mvs ih => exact ih (mailbox_go h mv)

end Office

variable {m : Mailbox}

theorem act_move_of_isOpen (h : m.IsOpen) (mv : Office.Move) :
    m.act (.move mv) = (({ mailbox := m } : Office).go mv).mailbox := by
  cases mv with
  | accept stream => exact if_pos h
  | _ => rfl

theorem state_act_move (m : Mailbox) (mv : Office.Move) : (m.act (.move mv)).state = m.state := by
  cases mv with
  | accept stream =>
    simp only [act]
    split <;> rfl
  | _ => exact Office.state_go { mailbox := m } _

theorem after_map_move (h : m.IsOpen) (mvs : List Office.Move) :
    (m.after (mvs.map .move)).IsOpen ∧
      m.after (mvs.map .move) = (({ mailbox := m } : Office).after mvs).mailbox := by
  induction mvs using List.reverseRecOn with
  | nil => exact ⟨h, rfl⟩
  | append_singleton mvs mv ih =>
    rw [List.map_append, List.map_singleton, after_concat, Office.after_concat]
    refine ⟨(state_act_move _ mv).trans ih.1, ?_⟩
    rw [act_move_of_isOpen ih.1]
    exact Office.mailbox_go ih.2 mv

open Net (Network)

theorem mailbox_openOn (n : Network) (m : Mailbox) :
    (openOn n m).2.1 = m.act (.open fun addr => n.CanBind (m.site addr)) := by
  simp only [openOn, act]
  split <;> next h => rw [h]

theorem mailbox_closeOn (n : Network) (m : Mailbox) : (closeOn n m).2 = m.act .close := by
  unfold closeOn
  split <;> rfl

theorem exists_acts_of_work? {n n' : Network} {m' : Mailbox} (hm : m.IsOpen) (h : work? n m = some (n', m')) :
    ∃ acts, m.after acts = m' := by
  obtain ⟨mvs, hmvs⟩ := Office.exists_moves_of_work? (s := { mailbox := m }) h
  exact ⟨mvs.map .move, (after_map_move hm mvs).2.trans hmvs⟩

/-- A mailbox that has just been made. -/
def new (requested : Endpoint) : Mailbox := { requested }

end Mailbox
end PeerDiscovery
