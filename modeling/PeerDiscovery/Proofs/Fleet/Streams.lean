import PeerDiscovery.Proofs.Envelope
import PeerDiscovery.Proofs.Fleet.Lore
import PeerDiscovery.Proofs.Framing
import PeerDiscovery.Proofs.Net

/-! What can be read from one direction of a stream.
`Tells` says of a reader and of what waits for it that all its messages are as they should be: a
greeting, if one is still to come, and then envelopes of one kind. It is kept by whatever is written,
lost or read. -/
namespace PeerDiscovery
namespace Fleet

open Framing (Reader)
open Net (Network Pipe Site)

variable {good : Envelope → Prop} {greeting : Option Bytes} {r : Reader} {pipe : Pipe}

/-- A message that holds an envelope of a kind. -/
def Carries (good : Envelope → Prop) (frames : List Bytes) : Prop :=
  ∃ m : Envelope, frames = [m.encode] ∧ m.encode.length < UInt64.size ∧ good m

theorem Carries.imp {good' : Envelope → Prop} {frames : List Bytes} (h : Carries good frames)
    (hg : ∀ m, good m → good' m) : Carries good' frames := by
  obtain ⟨m, hf, hl, hm⟩ := h
  exact ⟨m, hf, hl, hg m hm⟩

theorem carries_of_encode {m : Envelope} {bytes : Bytes} (h : Framing.encode [m.encode] = .ok bytes) (hm : good m) :
    Carries good [m.encode] := by
  have hl := (Reader.eq_encodeFrame_of_encode h).1
  exact ⟨m, rfl, Nat.lt_of_le_of_lt hl (by decide), hm⟩

/-- The messages after a greeting, if one is to come, hold envelopes of a kind. -/
def Script (good : Envelope → Prop) : Option Bytes → List (List Bytes) → Prop
  | none, ms => ∀ frames ∈ ms, Carries good frames
  | some _, [] => True
  | some identity, first :: rest => first = [identity] ∧ ∀ frames ∈ rest, Carries good frames

namespace Script

theorem nil (good : Envelope → Prop) (greeting : Option Bytes) : Script good greeting [] := by
  cases greeting with
  | none => exact fun _ h => absurd h List.not_mem_nil
  | some identity => trivial

theorem imp {good' : Envelope → Prop} {ms : List (List Bytes)} (h : Script good greeting ms)
    (hg : ∀ m, good m → good' m) : Script good' greeting ms := by
  cases greeting with
  | none => exact fun frames hf => (h frames hf).imp hg
  | some identity =>
    cases ms with
    | nil => trivial
    | cons first rest => exact ⟨h.1, fun frames hf => (h.2 frames hf).imp hg⟩

theorem of_prefix {ms ms' : List (List Bytes)} (h : Script good greeting ms) (hp : ms' <+: ms) :
    Script good greeting ms' := by
  cases greeting with
  | none => exact fun frames hf => h frames (hp.subset hf)
  | some identity =>
    cases ms' with
    | nil => trivial
    | cons first rest =>
      obtain ⟨tail, rfl⟩ := hp
      exact ⟨h.1, fun frames hf => h.2 frames (List.mem_append_left tail hf)⟩

theorem append {ms : List (List Bytes)} {frames : List Bytes} (h : Script good greeting ms)
    (hm : greeting ≠ none → ms ≠ []) (hf : Carries good frames) : Script good greeting (ms ++ [frames]) := by
  have hh : ∀ rest : List (List Bytes), (∀ x ∈ rest, Carries good x) → ∀ x ∈ rest ++ [frames], Carries good x := by
    intro rest hr x hx
    rcases List.mem_append.1 hx with hx | hx
    · exact hr x hx
    · rw [List.mem_singleton.1 hx]
      exact hf
  cases greeting with
  | none => exact hh ms h
  | some identity =>
    cases ms with
    | nil => exact absurd rfl (hm nofun)
    | cons first rest => exact ⟨h.1, hh rest h.2⟩

end Script

/-- What a reader has taken off and what waits for it. As long as the stream goes on it stands between
two messages, and the greeting has been written. -/
structure Tells (good : Envelope → Prop) (greeting : Option Bytes) (r : Reader) (pipe : Pipe) : Prop where
  script : Script good greeting (r.feed pipe.waiting).done.reverse
  greeted : pipe.ended = false → greeting ≠ none → (r.feed pipe.waiting).done ≠ []
  atBoundary : pipe.ended = false → (r.feed pipe.waiting).AtBoundary

namespace Tells

theorem imp {good' : Envelope → Prop} (h : Tells good greeting r pipe) (hg : ∀ m, good m → good' m) :
    Tells good' greeting r pipe := ⟨h.script.imp hg, h.greeted, h.atBoundary⟩

theorem new (good : Envelope → Prop) : Tells good none {} {} :=
  ⟨.nil good none, fun _ h => absurd rfl h, fun _ => Reader.atBoundary_new⟩

theorem ended (good : Envelope → Prop) (greeting : Option Bytes) : Tells good greeting {} { ended := true } :=
  ⟨.nil good greeting, nofun, nofun⟩

theorem greet (good : Envelope → Prop) {identity bytes : Bytes} (h : Framing.encode [identity] = .ok bytes) :
    Tells good (some identity) {} { waiting := bytes } := by
  have hh := Reader.feed_encode Reader.atBoundary_new h
  refine ⟨?_, fun _ _ => ?_, fun _ => ?_⟩
  · rw [hh]
    exact ⟨rfl, fun _ hf => absurd hf List.not_mem_nil⟩
  · rw [hh]
    exact List.cons_ne_nil _ _
  · rw [hh]
    exact Reader.atBoundary_new

theorem fade {pipe' : Pipe} (h : Tells good greeting r pipe) (hw : pipe'.waiting <+: pipe.waiting)
    (he : pipe'.ended = false → pipe' = pipe) : Tells good greeting r pipe' where
  script := by
    obtain ⟨rest, hr⟩ := hw
    have hs := h.script
    rw [← hr, Reader.feed_append] at hs
    exact hs.of_prefix (List.reverse_prefix.2 (Reader.done_suffix_feed _ rest))
  greeted hn := by
    obtain rfl := he hn
    exact h.greeted hn
  atBoundary hn := by
    obtain rfl := he hn
    exact h.atBoundary hn

theorem write {m : Envelope} {bytes : Bytes} (h : Tells good greeting r pipe) (hn : pipe.ended = false)
    (hb : Framing.encode [m.encode] = .ok bytes) (hm : good m) :
    Tells good greeting r { pipe with waiting := pipe.waiting ++ bytes } := by
  have hh := Reader.feed_encode (h.atBoundary hn) hb
  refine ⟨?_, fun _ _ => ?_, fun _ => ?_⟩
  · rw [Reader.feed_append, hh, List.reverse_cons]
    refine h.script.append (fun hg => ?_) (carries_of_encode hb hm)
    exact fun hnil => h.greeted hn hg (List.reverse_eq_nil_iff.1 hnil)
  · rw [Reader.feed_append, hh]
    exact List.cons_ne_nil _ _
  · rw [Reader.feed_append, hh]
    exact h.atBoundary hn

/-- All that waits is read, and the messages are taken off the reader. A greeting is still to come
only when there were none. -/
theorem read (h : Tells good greeting r pipe) {greeting' : Option Bytes}
    (hg : greeting' = none ∨ greeting' = greeting ∧ (r.feed pipe.waiting).done = []) :
    Tells good greeting' { r.feed pipe.waiting with done := [] } { pipe with waiting := [] } := by
  refine ⟨.nil good greeting', fun hn hne => ?_, h.atBoundary⟩
  rcases hg with hg | ⟨hg, hd⟩
  · exact absurd hg hne
  · exact absurd hd (h.greeted hn (hg ▸ hne))

end Tells

inductive Place where
  | backlog (site : Site)
  | connection (node number : Nat)

structure Ends where
  /-- The peer that opened it. -/
  owner : Nat → PeerId
  /-- The node and the link whose courier opened it. -/
  client : Nat → Nat × Nat
  place : Nat → Place

namespace Ends

/-- The server's end of a stream goes to another place. -/
def seat (ends : Ends) (stream : Nat) (place : Place) : Ends :=
  { ends with place := fun s => if s = stream then place else ends.place s }

/-- A stream is opened. -/
def opened (ends : Ends) (stream : Nat) (owner : PeerId) (client : Nat × Nat) (place : Place) : Ends where
  owner s := if s = stream then owner else ends.owner s
  client s := if s = stream then client else ends.client s
  place s := if s = stream then place else ends.place s

end Ends

/-- The server's end of a stream stays where it is, and reads on as before. -/
structure ServerStill (l : Lore) (ends : Ends) (net : Network) (ends' : Ends) (net' : Network) (s : Nat) : Prop where
  owner : ends'.owner s = ends.owner s
  place : ends'.place s = ends.place s
  made : s < net'.streams.length
  tells : ∀ greeting r, Tells (l.Says (ends.owner s)) greeting r (net.outgoing s .client) →
    Tells (l.Says (ends.owner s)) greeting r (net'.outgoing s .client)

/-- The client's end of a stream stays where it is, and reads on as before. -/
structure ClientStill (l : Lore) (ends : Ends) (net : Network) (ends' : Ends) (net' : Network) (s : Nat) : Prop where
  owner : ends'.owner s = ends.owner s
  client : ends'.client s = ends.client s
  made : s < net'.streams.length
  tells : ∀ r, Tells (l.Answers (ends.owner s)) none r (net.outgoing s .server) →
    Tells (l.Answers (ends.owner s)) none r (net'.outgoing s .server)

section

variable {l : Lore} {ends ends' ends'' : Ends} {net net' net'' : Network} {s stream : Nat}

theorem ServerStill.trans (h : ServerStill l ends net ends' net' s) (h' : ServerStill l ends' net' ends'' net'' s) :
    ServerStill l ends net ends'' net'' s where
  owner := h'.owner.trans h.owner
  place := h'.place.trans h.place
  made := h'.made
  tells greeting r ht := by
    have hh := h'.tells greeting r
    rw [h.owner] at hh
    exact hh (h.tells greeting r ht)

theorem ClientStill.trans (h : ClientStill l ends net ends' net' s) (h' : ClientStill l ends' net' ends'' net'' s) :
    ClientStill l ends net ends'' net'' s where
  owner := h'.owner.trans h.owner
  client := h'.client.trans h.client
  made := h'.made
  tells r ht := by
    have hh := h'.tells r
    rw [h.owner] at hh
    exact hh (h.tells r ht)

theorem serverStill_of_eq (ends : Ends) (hs : s < net'.streams.length)
    (ho : net'.outgoing s .client = net.outgoing s .client) : ServerStill l ends net ends net' s :=
  ⟨rfl, rfl, hs, fun _ _ h => by rwa [ho]⟩

theorem clientStill_of_eq (ends : Ends) (hs : s < net'.streams.length)
    (ho : net'.outgoing s .server = net.outgoing s .server) : ClientStill l ends net ends net' s :=
  ⟨rfl, rfl, hs, fun _ h => by rwa [ho]⟩

theorem serverStill_of_fades (ends : Ends) (hf : net.Fades net') (hs : s < net.streams.length) :
    ServerStill l ends net ends net' s :=
  ⟨rfl, rfl, hf.length ▸ hs, fun _ _ h => h.fade (hf.waiting s .client) (hf.ended s .client)⟩

theorem clientStill_of_fades (ends : Ends) (hf : net.Fades net') (hs : s < net.streams.length) :
    ClientStill l ends net ends net' s :=
  ⟨rfl, rfl, hf.length ▸ hs, fun _ h => h.fade (hf.waiting s .server) (hf.ended s .server)⟩

theorem still_write_client {m : Envelope} {bytes : Bytes} {ok : Bool} (ends : Ends) (hs : s < net.streams.length)
    (hb : Framing.encode [m.encode] = .ok bytes) (hm : l.Says (ends.owner stream) m)
    (hw : net.write stream .client bytes = (net', ok)) :
    ServerStill l ends net ends net' s ∧ ClientStill l ends net ends net' s := by
  rcases net.write_cases stream .client bytes with ⟨faults, h⟩ | ⟨hn, h⟩
  · obtain ⟨rfl, -⟩ := Prod.mk.inj (h.symm.trans hw)
    exact ⟨serverStill_of_eq ends hs rfl, clientStill_of_eq ends hs rfl⟩
  · obtain ⟨rfl, -⟩ := Prod.mk.inj (h.symm.trans hw)
    have hl := net.length_modifyStream stream
    refine ⟨⟨rfl, rfl, (hl _).symm ▸ hs, fun greeting r ht => ?_⟩,
      clientStill_of_eq ends ((hl _).symm ▸ hs) (net.outgoing_modify_of_ne stream .client _ (.inr nofun))⟩
    by_cases hne : s = stream
    · subst hne
      rw [Network.outgoing_modify_self hs]
      exact ht.write hn hb hm
    · rwa [net.outgoing_modify_of_ne stream .client _ (.inl hne)]

theorem still_write_server {m : Envelope} {bytes : Bytes} {ok : Bool} (ends : Ends) (hs : s < net.streams.length)
    (hb : Framing.encode [m.encode] = .ok bytes) (hm : l.Answers (ends.owner stream) m)
    (hw : net.write stream .server bytes = (net', ok)) :
    ServerStill l ends net ends net' s ∧ ClientStill l ends net ends net' s := by
  rcases net.write_cases stream .server bytes with ⟨faults, h⟩ | ⟨hn, h⟩
  · obtain ⟨rfl, -⟩ := Prod.mk.inj (h.symm.trans hw)
    exact ⟨serverStill_of_eq ends hs rfl, clientStill_of_eq ends hs rfl⟩
  · obtain ⟨rfl, -⟩ := Prod.mk.inj (h.symm.trans hw)
    have hl := net.length_modifyStream stream
    refine ⟨serverStill_of_eq ends ((hl _).symm ▸ hs) (net.outgoing_modify_of_ne stream .server _ (.inr nofun)),
      ⟨rfl, rfl, (hl _).symm ▸ hs, fun r ht => ?_⟩⟩
    by_cases hne : s = stream
    · subst hne
      rw [Network.outgoing_modify_self hs]
      exact ht.write hn hb hm
    · rwa [net.outgoing_modify_of_ne stream .server _ (.inl hne)]

/-- The server reads. Other servers and all clients do not notice. -/
theorem serverStill_read_server (ends : Ends) (hs : s < net.streams.length) (hne : s ≠ stream) :
    ServerStill l ends net ends (net.read stream .server).1 s :=
  serverStill_of_eq ends ((net.length_modifyStream stream _).symm ▸ hs)
    (net.outgoing_modify_of_ne stream .client _ (.inl hne))

theorem clientStill_read_server (ends : Ends) (hs : s < net.streams.length) (stream : Nat) :
    ClientStill l ends net ends (net.read stream .server).1 s :=
  clientStill_of_eq ends ((net.length_modifyStream stream _).symm ▸ hs)
    (net.outgoing_modify_of_ne stream .client _ (.inr nofun))

/-- The client reads. Other clients and all servers do not notice. -/
theorem clientStill_read_client (ends : Ends) (hs : s < net.streams.length) (hne : s ≠ stream) :
    ClientStill l ends net ends (net.read stream .client).1 s :=
  clientStill_of_eq ends ((net.length_modifyStream stream _).symm ▸ hs)
    (net.outgoing_modify_of_ne stream .server _ (.inl hne))

theorem serverStill_read_client (ends : Ends) (hs : s < net.streams.length) (stream : Nat) :
    ServerStill l ends net ends (net.read stream .client).1 s :=
  serverStill_of_eq ends ((net.length_modifyStream stream _).symm ▸ hs)
    (net.outgoing_modify_of_ne stream .server _ (.inr nofun))

end

/-- A stream waits at a listener; nothing of it has been read. -/
structure Waits (l : Lore) (ends : Ends) (net : Network) (site : Site) (s : Nat) : Prop where
  place : ends.place s = .backlog site
  made : s < net.streams.length
  tells : Tells (l.Says (ends.owner s)) (some (ends.owner s).bytes) {} (net.outgoing s .client)

structure SoundNetwork (l : Lore) (ends : Ends) (net : Network) : Prop where
  nodup : ∀ x ∈ net.listeners, x.backlog.Nodup
  waits : ∀ x ∈ net.listeners, ∀ s ∈ x.backlog, Waits l ends net x.site s

section

variable {l l' : Lore} {ends ends' : Ends} {net net' : Network}

theorem Waits.still {site : Site} {s : Nat} (h : Waits l ends net site s)
    (hs : ServerStill l ends net ends' net' s) : Waits l ends' net' site s :=
  ⟨hs.place.trans h.place, hs.made, by rw [hs.owner]; exact hs.tells _ _ h.tells⟩

theorem SoundNetwork.mono (h : SoundNetwork l ends net) (hl : l ≤ l') : SoundNetwork l' ends net where
  nodup := h.nodup
  waits x hx s hs :=
    have hw := h.waits x hx s hs
    ⟨hw.place, hw.made, hw.tells.imp fun _ hm => hm.mono hl⟩

/-- Listeners go, or come with nobody waiting, and the streams stay as they are. -/
theorem SoundNetwork.still (h : SoundNetwork l ends net)
    (hx : ∀ x ∈ net'.listeners, x ∈ net.listeners ∨ x.backlog = [])
    (hs : ∀ x ∈ net.listeners, ∀ s ∈ x.backlog, ServerStill l ends net ends' net' s) :
    SoundNetwork l ends' net' where
  nodup x hm := by
    rcases hx x hm with hm | hb
    · exact h.nodup x hm
    · rw [hb]
      exact List.nodup_nil
  waits x hm s hw := by
    rcases hx x hm with hm | hb
    · exact (h.waits x hm s hw).still (hs x hm s hw)
    · rw [hb] at hw
      exact absurd hw List.not_mem_nil

/-- A stream is opened, and waits where its client has connected to. -/
theorem SoundNetwork.connect {at' : Site} (h : SoundNetwork l ends net)
    (hx : ∀ x ∈ net'.listeners, ∃ y ∈ net.listeners, x.site = y.site ∧
      (x.backlog = y.backlog ∨ x.site = at' ∧ x.backlog = y.backlog ++ [net.streams.length]))
    (hs : ∀ s < net.streams.length, ServerStill l ends net ends' net' s)
    (hw : Waits l ends' net' at' net.streams.length) : SoundNetwork l ends' net' where
  nodup x hm := by
    obtain ⟨y, hy, -, hb | ⟨-, hb⟩⟩ := hx x hm
    · rw [hb]
      exact h.nodup y hy
    · have hn : net.streams.length ∉ y.backlog := fun hh => Nat.lt_irrefl _ (h.waits y hy _ hh).made
      rw [hb]
      exact List.nodup_append'.2 ⟨h.nodup y hy, List.nodup_singleton _, by simpa using hn⟩
  waits x hm s hmem := by
    have hh : ∀ y ∈ net.listeners, x.site = y.site → s ∈ y.backlog → Waits l ends' net' x.site s := by
      intro y hy ha hb
      have hwy := h.waits y hy s hb
      rw [ha]
      exact hwy.still (hs s hwy.made)
    obtain ⟨y, hy, ha, hb | ⟨ha', hb⟩⟩ := hx x hm
    · exact hh y hy ha (hb ▸ hmem)
    · rw [hb] at hmem
      rcases List.mem_append.1 hmem with hmem | hmem
      · exact hh y hy ha hmem
      · rw [List.mem_singleton.1 hmem, ha']
        exact hw

theorem SoundNetwork.accept {site : Site} {stream : Nat} {rest : List Nat} {y : Net.Listener}
    (h : SoundNetwork l ends net) (hy : y ∈ net.listeners) (ha : y.site = site) (hb : y.backlog = stream :: rest)
    (hx : ∀ x ∈ net'.listeners, x.site ≠ site ∧ x ∈ net.listeners ∨ x.site = site ∧ x.backlog = rest)
    (hs : ∀ s < net.streams.length, s ≠ stream → ServerStill l ends net ends' net' s) :
    SoundNetwork l ends' net' := by
  have hn := h.nodup y hy
  rw [hb] at hn
  obtain ⟨hnot, hrest⟩ := List.nodup_cons.1 hn
  have hp : ends.place stream = .backlog site := by
    have hw := h.waits y hy stream (hb ▸ List.mem_cons_self)
    rw [hw.place, ha]
  refine ⟨fun x hm => ?_, fun x hm s hmem => ?_⟩
  · rcases hx x hm with ⟨-, hm⟩ | ⟨-, hb'⟩
    · exact h.nodup x hm
    · rw [hb']
      exact hrest
  · rcases hx x hm with ⟨hne, hm⟩ | ⟨ha', hb'⟩
    · have hw := h.waits x hm s hmem
      refine hw.still (hs s hw.made fun he => hne ?_)
      rw [he] at hw
      exact Place.backlog.inj (hw.place.symm.trans hp)
    · rw [hb'] at hmem
      have hw := h.waits y hy s (hb ▸ List.mem_cons_of_mem stream hmem)
      rw [ha, ← ha'] at hw
      exact hw.still (hs s hw.made fun he => hnot (he ▸ hmem))

end

end Fleet
end PeerDiscovery
