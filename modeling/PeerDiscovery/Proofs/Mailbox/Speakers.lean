import Mathlib.Data.List.Induction
import PeerDiscovery.Proofs.Mailbox.Logs

/-! Who speaks for an identity: the connection that greeted with it last, unless it has disconnected (`attuned_after`).
That an older connection disconnects makes no difference. -/
namespace PeerDiscovery
namespace Mailbox

namespace Hub

variable (h : Hub) (n : Nat) {i j : Bytes}

theorem registered_register : (h.register n i).registered = h.others i ++ [(i, n)] := by
  simp only [register]
  split <;> rfl

theorem speaker?_register_self : (h.register n i).speaker? i = some n := by
  rw [speaker?, registered_register, List.lookup_append, others, lookup_filter_self]
  simp

theorem speaker?_register_of_ne (hj : j ≠ i) : (h.register n i).speaker? j = h.speaker? j := by
  have hone : [(i, n)].lookup j = none := by
    rw [List.lookup_eq_none_iff]
    simpa using hj
  rw [speaker?, registered_register, List.lookup_append, others, lookup_filter_of_ne _ hj, hone, Option.or_none, speaker?]

theorem speaker?_unregister_of_ne (hj : j ≠ i) : (h.unregister n i).speaker? j = h.speaker? j := by
  unfold unregister
  split
  · exact lookup_filter_of_ne h.registered hj
  · rfl

theorem speaker?_unregister_self :
    (h.unregister n i).speaker? i = if h.speaker? i = some n then none else h.speaker? i := by
  unfold unregister
  split
  · exact lookup_filter_self h.registered i
  · rfl

theorem speaker?_take (x : Notice) (i : Bytes) (n : Nat) :
    (h.take x).1.speaker? i = some n ↔
      x = .connected n i ∨ h.speaker? i = some n ∧ (∀ k, x ≠ .connected k i) ∧ x ≠ .disconnected n i := by
  cases x with
  | connected k j =>
    by_cases hij : i = j
    · subst hij
      simp [take, speaker?_register_self]
    · simp [take, speaker?_register_of_ne h k hij, Ne.symm hij]
  | message j frames => simp [take]
  | disconnected k j =>
    by_cases hij : i = j
    · subst hij
      rw [take, speaker?_unregister_self]
      by_cases hk : h.speaker? i = some k
      · simp [hk]
      · rw [if_neg hk]
        constructor
        · intro hn
          refine .inr ⟨hn, fun _ => Notice.noConfusion, fun heq => ?_⟩
          cases heq
          exact hk hn
        · rintro (heq | ⟨hn, -⟩)
          · cases heq
          · exact hn
    · simp [take, speaker?_unregister_of_ne h k hij, Ne.symm hij]

theorem registered_reply (payload : Bytes) : (h.reply i payload).1.registered = h.registered := by
  unfold reply
  split
  · rfl
  · split <;> rfl

end Hub

theorem send_of_speaker {m : Mailbox} {e : Envelope} {identity : Bytes} {number : Nat} {c : Connection}
    (hm : m.IsOpen) (he : e.sender = some identity) (hs : m.hub.speaker? identity = some number)
    (hc : m.hub.connections[number]? = some c) (hw : c.writer = .open) :
    m.send e = ({ m with hub.connections :=
        m.hub.connections.set number { c with outbox := c.outbox ++ [payload e] } }, .ok true) := by
  simp only [send, he, if_pos (show m.state = .open from hm), Hub.reply, hs, hc, Connection.push, hw]

/-- A reply to an identity whose connection cannot be written to, or that has none. -/
theorem send_of_no_writer {m : Mailbox} {e : Envelope} {i : Bytes} (hm : m.IsOpen) (he : e.sender = some i)
    (hn : ∀ n c, m.hub.speaker? i = some n → m.hub.connections[n]? = some c → c.writer ≠ .open) :
    m.send e = (m, .ok false) := by
  have hopen : m.state = .open := hm
  cases hs : m.hub.speaker? i with
  | none => simp only [send, he, if_pos hopen, Hub.reply, hs]
  | some n =>
    cases hc : m.hub.connections[n]? with
    | none => simp only [send, he, if_pos hopen, Hub.reply, hs, hc]
    | some c =>
      have hpush : c.push (payload e) = (c, false) := by
        unfold Connection.push
        split
        · next hw => exact absurd hw (hn n c hs hc)
        · rfl
      have hset : m.hub.connections.set n c = m.hub.connections := by
        obtain ⟨hlt, rfl⟩ := List.getElem?_eq_some_iff.1 hc
        exact List.set_getElem_self hlt
      simp only [send, he, if_pos hopen, Hub.reply, hs, hc, hpush, hset]

/-- Connection `n` was the last one to greet with an identity, and it has not disconnected since. -/
def Latest (log : List Notice) (i : Bytes) (n : Nat) : Prop :=
  ∃ before after, log = before ++ .connected n i :: after ∧ (∀ k, .connected k i ∉ after) ∧ .disconnected n i ∉ after

theorem not_latest_nil (i : Bytes) (n : Nat) : ¬ Latest [] i n := by
  rintro ⟨before, after, h, -⟩
  cases before <;> cases h

theorem latest_concat {log : List Notice} {x : Notice} {i : Bytes} {n : Nat} :
    Latest (log ++ [x]) i n ↔
      x = .connected n i ∨ Latest log i n ∧ (∀ k, x ≠ .connected k i) ∧ x ≠ .disconnected n i := by
  constructor
  · rintro ⟨before, after, h, hc, hd⟩
    rcases concat_eq_append_cons h with ⟨-, hx, -⟩ | ⟨after, rfl, rfl⟩
    · exact .inl hx.symm
    · simp only [List.mem_append, List.mem_singleton, not_or] at hc hd
      exact .inr ⟨⟨before, after, rfl, fun k => (hc k).1, hd.1⟩, fun k => Ne.symm (hc k).2, Ne.symm hd.2⟩
  · rintro (rfl | ⟨⟨before, after, rfl, hc, hd⟩, hxc, hxd⟩)
    · exact ⟨log, [], rfl, fun _ => List.not_mem_nil, List.not_mem_nil⟩
    · refine ⟨before, after ++ [x], by simp, fun k => ?_, ?_⟩
      · simpa using ⟨hc k, Ne.symm (hxc k)⟩
      · simpa using ⟨hd, Ne.symm hxd⟩

namespace Office

variable {s : Office}

/-- Nothing is taken in, and nobody else speaks for an identity. -/
def Idle (s s' : Office) : Prop :=
  s'.taken = s.taken ∧ s'.mailbox.hub.registered = s.mailbox.hub.registered

theorem idle_go {m : Move} (hm : m ≠ .notice) : Idle s (s.go m) := by
  have hrefl : Idle s s := ⟨rfl, rfl⟩
  cases m with
  | notice => exact absurd rfl hm
  | accept stream => exact ⟨rfl, rfl⟩
  | read n bytes lingers =>
    rcases go_read_cases s n bytes lingers with hsame | ⟨c, hreads⟩
    · exact hsame.symm ▸ hrefl
    · exact ⟨hreads.taken, by rw [hreads.mailbox]; rfl⟩
  | finish n lingers =>
    rcases go_finish_cases s n lingers with hsame | ⟨c, hreads⟩
    · exact hsame.symm ▸ hrefl
    · exact ⟨hreads.taken, by rw [hreads.mailbox]; rfl⟩
  | abort n =>
    refine withConnection_of (P := (Idle s)) hrefl fun c _ => ?_
    split
    · exact hrefl
    · exact ⟨rfl, rfl⟩
  | write n whole => exact withConnection_of (P := (Idle s)) hrefl fun c _ => ⟨rfl, rfl⟩
  | send envelope =>
    refine ⟨rfl, ?_⟩
    simp only [go, Mailbox.send]
    split
    · rfl
    · split
      · exact Hub.registered_reply ..
      · rfl
  | listen => exact ⟨rfl, rfl⟩
  | unlisten j => exact ⟨rfl, rfl⟩
  | next j =>
    simp only [go]
    split
    · exact hrefl
    · next hm =>
      obtain ⟨l, rest, -, -, rfl⟩ := exists_of_takeEvent? hm
      exact ⟨rfl, rfl⟩
  | take j => exact ⟨rfl, rfl⟩

theorem taken_prefix_go (s : Office) (m : Move) : s.taken <+: (s.go m).taken := by
  by_cases hm : m = .notice
  · subst hm
    simp only [go]
    split
    · exact List.prefix_rfl
    · exact List.prefix_append _ _
  · exact ⟨[], (List.append_nil _).trans (idle_go hm).1.symm⟩

def Attuned (s : Office) : Prop :=
  ∀ i n, s.mailbox.hub.speaker? i = some n ↔ Latest (s.taken.map Prod.snd) i n

theorem attuned_opened (m : Mailbox) : (opened m).Attuned :=
  fun i n => ⟨nofun, fun h => absurd h (not_latest_nil i n)⟩

theorem Attuned.notice (h : s.Attuned) (hw : s.waiting.map Prod.snd = s.mailbox.hub.notices) :
    (s.go .notice).Attuned := by
  cases hs : s.waiting with
  | nil =>
    rw [go_notice_of_nil hw hs]
    exact h
  | cons p rest =>
    intro i n
    have hold : Hub.speaker? { s.mailbox.hub with notices := rest.map Prod.snd } i = some n ↔
        Latest (s.taken.map Prod.snd) i n := h i n
    rw [go_notice_of_cons hw hs, hub_hear, List.map_append, List.map_singleton, latest_concat, ← hold]
    exact Hub.speaker?_take _ p.2 i n

theorem Attuned.go (h : s.Attuned) (hw : s.waiting.map Prod.snd = s.mailbox.hub.notices) (m : Move) :
    (s.go m).Attuned := by
  by_cases hm : m = .notice
  · subst hm
    exact h.notice hw
  · intro i n
    rw [Hub.speaker?, (idle_go hm).2, (idle_go hm).1]
    exact h i n

/-- The connection that speaks for an identity is the last one that greeted with it, until it disconnects. -/
theorem attuned_after (m : Mailbox) (ms : List Move) : ((opened m).after ms).Attuned := by
  induction ms using List.reverseRecOn with
  | nil => exact attuned_opened m
  | append_singleton ms move ih =>
    rw [after_concat]
    exact ih.go ((faithful_opened m).after ms).waiting move

theorem mem_of_latest {log : List Notice} {i : Bytes} {n : Nat} (h : Latest log i n) : .connected n i ∈ log := by
  obtain ⟨before, after, rfl, -⟩ := h
  exact List.mem_append_right before List.mem_cons_self

/-- A connection that speaks for an identity has greeted with it. -/
theorem Attuned.greeted (h : s.Attuned) (hf : s.Faithful) {i : Bytes} {n : Nat}
    (hs : s.mailbox.hub.speaker? i = some n) :
    (n, .connected n i) ∈ s.taken ∧ ∃ c, s.mailbox.hub.connections[n]? = some c ∧ c.identity = some i ∧
      greeter? (messages (s.input n)) = some i := by
  obtain ⟨⟨k, _⟩, hm, rfl⟩ := List.mem_map.1 (mem_of_latest ((h i n).1 hs))
  obtain ⟨rfl, hc⟩ := hf.greeted (List.mem_append_left _ hm)
  exact ⟨hm, hc⟩

end Office
end Mailbox
end PeerDiscovery
