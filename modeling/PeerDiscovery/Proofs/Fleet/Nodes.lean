import PeerDiscovery.Proofs.Fleet.Continuing
import PeerDiscovery.Proofs.Fleet.Couriers
import PeerDiscovery.Proofs.Fleet.Mailboxes

/-! Nodes of a fleet: all that they know, have said and have been told is lore.
Each thing that happens to a node keeps it `SoundNode` and leaves the other nodes alone. -/
namespace PeerDiscovery
namespace Fleet

open Discovery (Engine Courier Tracker Link)
open Net (Network)
open Node (Asker)

variable {l l' : Lore} {ends ends' : Ends} {net net' : Network} {i : Nat} {n n' : Node}

structure SoundNode (l : Lore) (ends : Ends) (net : Network) (i : Nat) (n : Node) : Prop where
  informed : Informed l n.engine
  hosted : ∀ facts ∈ n.hosted, l.hosts n.engine.self facts
  couriers : ∀ k c, n.couriers[k]? = some c → SoundCourier l ends net i k n.engine.self c
  inbound : ∀ m ∈ n.inbound, l.Answers n.engine.self m
  mailbox : SoundMailbox l ends net i n.mailbox

namespace SoundNode

theorem mono (h : SoundNode l ends net i n) (hl : l ≤ l') : SoundNode l' ends net i n where
  informed := h.informed.mono hl
  hosted facts hf := hl.hosts _ facts (h.hosted facts hf)
  couriers k c hc := (h.couriers k c hc).mono hl
  inbound m hm := (h.inbound m hm).mono hl
  mailbox := h.mailbox.mono hl

theorem still (h : SoundNode l ends net i n)
    (hservers : ∀ s < net.streams.length, ∀ k, ends.place s = .connection i k → ServerStill l ends net ends' net' s)
    (hclients : ∀ s < net.streams.length, (ends.client s).1 = i → ClientStill l ends net ends' net' s) :
    SoundNode l ends' net' i n where
  informed := h.informed
  hosted := h.hosted
  couriers k c hc := (h.couriers k c hc).still fun s hs he => hclients s hs (by rw [he])
  inbound := h.inbound
  mailbox := h.mailbox.still hservers

theorem setMailbox (h : SoundNode l ends net i n) {mailbox : Mailbox} (hm : SoundMailbox l ends net i mailbox) :
    SoundNode l ends net i (n.setMailbox mailbox) := ⟨h.informed, h.hosted, h.couriers, h.inbound, hm⟩

theorem setEngine (h : SoundNode l ends net i n) {e : Engine Asker} (he : Informed l e)
    (hs : e.self = n.engine.self) : SoundNode l ends net i (n.setEngine e) := by
  refine ⟨he, ?_, fun k c hc => ?_, ?_, h.mailbox⟩
  · change ∀ facts ∈ n.hosted, l.hosts e.self facts
    rw [hs]
    exact h.hosted
  · change SoundCourier l ends net i k e.self c
    obtain ⟨d, link, hd, -, rfl⟩ := List.getElem?_zipWith_eq_some.1 hc
    have hh : SoundCourier l ends net i k e.self d := by
      rw [List.getElem?_append] at hd
      split at hd
      · rw [hs]
        exact h.couriers k d hd
      · rw [List.getElem?_map] at hd
        obtain ⟨link', -, rfl⟩ := Option.map_eq_some_iff.1 hd
        exact .of_not_connected rfl nofun
    split
    · exact hh
    · exact hh.close
  · change ∀ m ∈ n.inbound, l.Answers e.self m
    rw [hs]
    exact h.inbound

theorem tellAll (h : SoundNode l ends net i n) (calls : List (Asker × Endpoint)) :
    SoundNode l ends net i (n.tellAll calls).1 := by
  obtain ⟨subscriptions, ht⟩ := tellAll_eq n calls
  rw [ht]
  exact ⟨h.informed, h.hosted, h.couriers, h.inbound, h.mailbox⟩

theorem dispatch (h : SoundNode l ends net i n) {m : Envelope}
    (hm : (∃ p : PeerId, m.sender = some p.bytes ∧ l.Says p m) ∨ l.Answers n.engine.self m) (now : Nat) :
    SoundNode l ends net i (n.dispatch m now).1 := by
  have hself := (Engine.Continues.dispatch n.engine m now).self
  have hh : ∀ {e : Engine Asker} {mailbox : Mailbox} calls, e.self = n.engine.self → Informed l e →
      SoundMailbox l ends net i mailbox → SoundNode l ends net i ((n.setHost ⟨e, mailbox⟩).tellAll calls).1 :=
    fun calls hs he hmail => ((h.setMailbox hmail).setEngine he hs).tellAll calls
  obtain ⟨number, token, sender, message⟩ := m
  cases message with
  | hello address port =>
    rcases hm with ⟨p, rfl, hm⟩ | hm
    · exact hh [] hself (h.informed.onHello hm now) h.mailbox
    · exact False.elim hm
  | announce facts =>
    rcases hm with ⟨p, rfl, hm⟩ | hm
    · exact hh [] hself (h.informed.onAnnounce hm) h.mailbox
    · exact False.elim hm
  | query facts =>
    rcases hm with ⟨p, hs, hm⟩ | hm
    · unfold Node.dispatch Host.dispatch
      cases hr : n.engine.replyTo ⟨number, token, sender, .query facts⟩ facts with
      | none =>
        have he : n.host.engine.dispatch ⟨number, token, sender, .query facts⟩ now = (n.engine, { reply := none }) := by
          rw [← hr]
          rfl
        simp only [he]
        exact hh [] rfl h.informed h.mailbox
      | some reply =>
        have he : n.host.engine.dispatch ⟨number, token, sender, .query facts⟩ now =
            (n.engine, { reply := some reply }) := by
          rw [← hr]
          rfl
        simp only [he]
        obtain ⟨hsender, ha⟩ := h.informed.answers_replyTo hs hm hr
        exact hh [] rfl h.informed (h.mailbox.reply hsender ha)
    · exact False.elim hm
  | response texts => exact hh _ hself (h.informed.onResponse _) h.mailbox

theorem find (h : SoundNode l ends net i n) {facts : FactSet} {asker : Asker}
    (ha : GoesOut n facts → l.asked n.engine.self n.engine.nextId facts) :
    SoundNode l ends net i (n.find facts asker).1 :=
  (h.setEngine (h.informed.find asker fun hs hq => ha ⟨hs, hq⟩)
    (Engine.Continues.find n.engine facts asker).self).tellAll _

theorem note (h : SoundNode l ends net i n) {endpoint : Endpoint} {facts : FactSet} (ho : l.Offers endpoint facts) :
    SoundNode l ends net i (n.note endpoint facts) := h.setEngine (h.informed.addEntry ho) rfl

theorem announceLocal (h : SoundNode l ends net i n) {facts : FactSet} (hf : l.hosts n.engine.self facts) :
    SoundNode l ends net i (n.announceLocal facts).1 := by
  have ht : SoundNode l ends net i (takeOn n facts) := by
    unfold takeOn
    split
    · exact h
    · refine ⟨h.informed, fun facts' hf' => ?_, h.couriers, h.inbound, h.mailbox⟩
      rcases List.mem_append.1 hf' with hf' | hf'
      · exact h.hosted facts' hf'
      · rw [List.mem_singleton.1 hf']
        exact hf
  have hs : (takeOn n facts).engine.self = n.engine.self := (continues_takeOn n facts).engine.self
  have hn : SoundNode l ends net i (noteOwn (takeOn n facts) facts) := by
    unfold noteOwn
    split
    · exact ht
    · next own ho => exact ht.note ⟨_, ht.informed.endpoint own ho, hs ▸ hf⟩
  have hs' : (noteOwn (takeOn n facts) facts).engine.self = n.engine.self :=
    ((continues_takeOn n facts).trans (continues_noteOwn _ facts)).engine.self
  rw [announceLocal_eq]
  exact hn.setEngine (hn.informed.announce (hs' ▸ hf)) (Engine.Continues.announce _ facts).self

end SoundNode

end Fleet
end PeerDiscovery
