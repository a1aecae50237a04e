import PeerDiscovery.Net.Network

/-! What the operations of a network do to the pipes of its streams.
Most of them only let pipes fade: nothing is added, and a pipe that loses something has ended. -/
namespace PeerDiscovery
namespace Net

theorem Stream.pipe_modify (s : Stream) (side other : Side) (f : Pipe → Pipe) :
    (s.modify side f).pipe other = if other = side then f (s.pipe side) else s.pipe other := by
  cases side <;> cases other <;> rfl

namespace Network

theorem length_modifyStream (n : Network) (stream : Nat) (f : Stream → Stream) :
    (n.modifyStream stream f).streams.length = n.streams.length := List.length_modify ..

theorem outgoing_modify (n : Network) (stream : Nat) (side : Side) (f : Pipe → Pipe) (t : Nat) (other : Side) :
    (n.modifyStream stream fun s => s.modify side f).outgoing t other =
      if t = stream ∧ other = side ∧ stream < n.streams.length then f (n.outgoing stream side)
      else n.outgoing t other := by
  have hm : (n.modifyStream stream fun s => s.modify side f).streams[t]? =
      if t = stream then n.streams[t]?.map fun s => s.modify side f else n.streams[t]? := by
    rw [modifyStream, List.getElem?_modify]
    by_cases h : t = stream
    · simp [h]
    · simp [h, Ne.symm h]
  unfold outgoing
  rw [hm]
  by_cases h : t = stream
  · subst h
    rw [if_pos rfl]
    by_cases hl : t < n.streams.length
    · rw [List.getElem?_eq_getElem hl]
      simp only [Option.map_some, Stream.pipe_modify]
      by_cases ho : other = side
      · simp [ho, hl]
      · simp [ho]
    · rw [List.getElem?_eq_none (Nat.le_of_not_lt hl)]
      simp [hl]
  · simp [h]

theorem outgoing_modify_self {n : Network} {stream : Nat} (h : stream < n.streams.length) (side : Side)
    (f : Pipe → Pipe) :
    (n.modifyStream stream fun s => s.modify side f).outgoing stream side = f (n.outgoing stream side) := by
  rw [outgoing_modify, if_pos ⟨rfl, rfl, h⟩]

theorem outgoing_modify_of_ne (n : Network) (stream : Nat) (side : Side) (f : Pipe → Pipe) {t : Nat} {other : Side}
    (h : t ≠ stream ∨ other ≠ side) :
    (n.modifyStream stream fun s => s.modify side f).outgoing t other = n.outgoing t other := by
  rw [outgoing_modify, if_neg]
  rintro ⟨ht, ho, -⟩
  exact h.elim (fun hn => hn ht) fun hn => hn ho

/-- Nothing is added to a pipe, and one that changes has ended. -/
structure Fades (n n' : Network) : Prop where
  length : n'.streams.length = n.streams.length
  waiting : ∀ s side, (n'.outgoing s side).waiting <+: (n.outgoing s side).waiting
  ended : ∀ s side, (n'.outgoing s side).ended = false → n'.outgoing s side = n.outgoing s side

theorem Fades.of_streams {n n' : Network} (h : n'.streams = n.streams) : Fades n n' := by
  have ho : ∀ s side, n'.outgoing s side = n.outgoing s side := by
    intro s side
    rw [outgoing, outgoing, h]
  refine ⟨congrArg List.length h, fun s side => ?_, fun s side _ => ho s side⟩
  have hw := congrArg Pipe.waiting (ho s side)
  exact hw ▸ List.prefix_rfl

theorem Fades.refl (n : Network) : Fades n n := .of_streams rfl

theorem Fades.trans {n n' n'' : Network} (h : Fades n n') (h' : Fades n' n'') : Fades n n'' where
  length := h'.length.trans h.length
  waiting s side := (h'.waiting s side).trans (h.waiting s side)
  ended s side he := by
    have hh := h'.ended s side he
    exact hh.trans (h.ended s side (hh ▸ he))

theorem fades_modify (n : Network) (stream : Nat) (side : Side) {f : Pipe → Pipe}
    (hw : ∀ p, (f p).waiting <+: p.waiting) (he : ∀ p, (f p).ended = true) :
    Fades n (n.modifyStream stream fun s => s.modify side f) where
  length := length_modifyStream n stream _
  waiting s other := by
    rw [outgoing_modify]
    split
    · next h => exact h.1 ▸ h.2.1 ▸ hw _
    · exact List.prefix_rfl
  ended s other := by
    rw [outgoing_modify]
    split
    · intro hh
      rw [he] at hh
      cases hh
    · exact fun _ => rfl

theorem fades_finish (n : Network) (stream : Nat) (side : Side) : Fades n (n.finish stream side) :=
  n.fades_modify stream side (fun _ => List.prefix_rfl) fun _ => rfl

theorem fades_finishAll {α : Type} (ls : List α) (n : Network) (stream : α → Nat) (side : Side) :
    Fades n (ls.foldl (fun n a => n.finish (stream a) side) n) := by
  induction ls generalizing n with
  | nil => exact .refl n
  | cons a ls ih => exact (n.fades_finish (stream a) side).trans (ih _)

theorem fades_unbind (n : Network) (site : Site) : Fades n (n.unbind site) := by
  have hh : Fades n { n with listeners := n.listeners.filter fun l => l.site ≠ site } := .of_streams rfl
  exact hh.trans (fades_finishAll _ _ (fun s => s) .server)

theorem listeners_finishAll {α : Type} (ls : List α) (n : Network) (stream : α → Nat) (side : Side) :
    (ls.foldl (fun n a => n.finish (stream a) side) n).listeners = n.listeners := by
  induction ls generalizing n with
  | nil => rfl
  | cons a ls ih => exact ih _

theorem listeners_unbind (n : Network) (site : Site) :
    (n.unbind site).listeners = n.listeners.filter fun l => l.site ≠ site :=
  listeners_finishAll _ _ (fun s => s) .server

theorem unbind_bind {n : Network} {site : Site} (h : n.CanBind site) : (n.bind site).unbind site = n := by
  have hne : ∀ l ∈ n.listeners, l.site ≠ site := fun l hl he => h.2 (List.mem_map.2 ⟨l, hl, he⟩)
  have hgone : (n.listeners.filter fun l => decide (l.site = site)) = [] :=
    List.filter_eq_nil_iff.2 fun l hl => by simpa using hne l hl
  have hkept : (n.listeners.filter fun l => decide (l.site ≠ site)) = n.listeners :=
    List.filter_eq_self.2 fun l hl => by simpa using hne l hl
  simp only [unbind, bind, List.filter_append, hgone, hkept]
  simp

theorem write_cases (n : Network) (stream : Nat) (side : Side) (bytes : Bytes) :
    (∃ faults, n.write stream side bytes = ({ n with faults }, false)) ∨
    (n.outgoing stream side).ended = false ∧
      n.write stream side bytes =
        (n.modifyStream stream fun s => s.modify side fun p => { p with waiting := p.waiting ++ bytes }, true) := by
  unfold write writeFault?
  by_cases he : (n.outgoing stream side).ended = true
  · rw [if_pos he]
    exact .inl ⟨n.faults, rfl⟩
  · rw [if_neg he]
    by_cases hf : n.faults.write = 0
    · rw [if_pos hf]
      exact .inr ⟨by simpa using he, rfl⟩
    · rw [if_neg hf]
      exact .inl ⟨_, rfl⟩

theorem connect_cases {n n' : Network} {machine : Nat} {addr : SocketAddr} {stream : Nat}
    (h : n.connect machine addr = some (n', stream)) :
    stream = n.streams.length ∧ n'.streams = n.streams ++ [({} : Stream)] ∧
      ∃ at', ∀ x ∈ n'.listeners, ∃ y ∈ n.listeners, x.site = y.site ∧
        (x.backlog = y.backlog ∨ x.site = at' ∧ x.backlog = y.backlog ++ [n.streams.length]) := by
  unfold connect at h
  split at h
  · cases h
  · next y _ =>
    cases h
    refine ⟨rfl, rfl, y.site, fun x hx => ?_⟩
    obtain ⟨z, hz, rfl⟩ := List.mem_map.1 hx
    refine ⟨z, hz, ?_⟩
    split
    · next ha => exact ⟨rfl, .inr ⟨ha, rfl⟩⟩
    · exact ⟨rfl, .inl rfl⟩

theorem accept_cases {n n' : Network} {site : Site} {stream : Nat} (h : n.accept site = some (n', stream)) :
    n'.streams = n.streams ∧ ∃ y ∈ n.listeners, y.site = site ∧ ∃ rest, y.backlog = stream :: rest ∧
      ∀ x ∈ n'.listeners, x.site ≠ site ∧ x ∈ n.listeners ∨ x.site = site ∧ x.backlog = rest := by
  unfold accept at h
  split at h
  · cases h
  · next y hy =>
    split at h
    · cases h
    · next first rest hb =>
      cases h
      have ha : y.site = site := by simpa using List.find?_some hy
      refine ⟨rfl, y, List.mem_of_find?_eq_some hy, ha, rest, hb, fun x hx => ?_⟩
      obtain ⟨z, hz, rfl⟩ := List.mem_map.1 hx
      split
      · next hz' => exact .inr ⟨hz', rfl⟩
      · next hz' => exact .inl ⟨hz', hz⟩

theorem outgoing_of_append {n n' : Network} {stream : Stream} (h : n'.streams = n.streams ++ [stream]) {s : Nat}
    (hs : s < n.streams.length) (side : Side) : n'.outgoing s side = n.outgoing s side := by
  unfold outgoing
  rw [h, List.getElem?_append_left hs]

theorem outgoing_new {n n' : Network} {stream : Stream} (h : n'.streams = n.streams ++ [stream]) (side : Side) :
    n'.outgoing n.streams.length side = stream.pipe side := by
  unfold outgoing
  rw [h, List.getElem?_concat_length]

end Network
end Net
end PeerDiscovery
