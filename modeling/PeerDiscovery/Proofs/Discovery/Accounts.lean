import Mathlib.Data.List.Induction
import PeerDiscovery.Proofs.Discovery.Pending

/-! What becomes of the query of a call, from what the call reports.
`Reported` is the invariant that ties reports to the log; with the ledger it gives `queries_accounted`. -/
namespace PeerDiscovery
namespace Discovery
namespace Interleaving

variable {κ : Type}

/-- The calls of the requests to an engine that knows no peer yet. -/
def State.start (e : Engine κ) (requests : List (Request κ)) : State κ where
  engine := { e with trackers := [], links := [], pending := [] }
  calls := requests.map (Request.call e.self)

/-- What the log says of a call, and what the call itself says. -/
structure Reported (s : State κ) : Prop where
  once : (callsOf s.log).Nodup
  passed : ∀ i ∈ callsOf s.log,
    (∃ query links, s.holder = some (i, .dispatch query links)) ∨ ∃ o, s.calls[i]? = some (.done o)
  inside : ∀ i sec, s.holder = some (i, sec) → s.calls[i]? = some .inside
  dispatching : ∀ i query links, s.holder = some (i, .dispatch query links) →
    ∃ links, .dispatched i query links ∈ s.log
  queued : ∀ i id, s.calls[i]? = some (.done (some (.queued id))) →
    ∃ query, .queued i query ∈ s.log ∧ query.id = id
  dispatched : ∀ i id, s.calls[i]? = some (.done (some (.dispatched id))) →
    ∃ query links, .dispatched i query links ∈ s.log ∧ query.id = id

/-- A call has reported that its query waits, or that it went out. -/
def Call.HasSubmitted : Call κ → Prop
  | .done (some (.queued _)) => True
  | .done (some (.dispatched _)) => True
  | _ => False

theorem hasSubmitted_step {e : Engine κ} {c : Call κ} (h : (c.step e).2.HasSubmitted) : (c.step e).2 = c := by
  cases c with
  | find facts k =>
    simp only [Call.step] at h
    split at h <;> exact h.elim
  | lookUp facts k =>
    simp only [Call.step] at h
    split at h <;> exact h.elim
  | close links limit => cases links <;> exact h.elim
  | number | remember | stop => exact h.elim
  | submit | sight | drain | inside | done => rfl

theorem Reported.goFree {s : State κ} (h : Reported s) {i : Nat} {c : Call κ} (hc : s.calls[i]? = some c)
    (hi : ∀ sec, s.holder ≠ some (i, sec)) : Reported (s.goFree i c) := by
  have hlt : i < s.calls.length := (List.getElem?_eq_some_iff.1 hc).1
  have hself : (s.calls.set i (c.step s.engine).2)[i]? = some (c.step s.engine).2 := by
    simp [hlt]
  have hback : ∀ (j : Nat) (d : Call κ), d.HasSubmitted → (s.calls.set i (c.step s.engine).2)[j]? = some d →
      s.calls[j]? = some d := by
    intro j d hd hj
    rcases getElem?_set_cases hj with ⟨rfl, rfl⟩ | ⟨-, hj⟩
    · rw [hasSubmitted_step hd]
      exact hc
    · exact hj
  refine ⟨h.once, ?_, ?_, h.dispatching, ?_, ?_⟩
  · intro j hj
    rcases h.passed j hj with hp | ⟨o, ho⟩
    · exact .inl hp
    · right
      by_cases hij : i = j
      · subst hij
        rw [hc] at ho
        cases ho
        exact ⟨o, hself⟩
      · exact ⟨o, (List.getElem?_set_ne hij).trans ho⟩
  · intro j sec hj
    have hij : i ≠ j := fun hh => hi sec (hh ▸ hj)
    exact (List.getElem?_set_ne hij).trans (h.inside j sec hj)
  · intro j id hj
    exact h.queued j id (hback j _ trivial hj)
  · intro j id hj
    exact h.dispatched j id (hback j _ trivial hj)

/-- A call that is not in the log goes on, and at most becomes the newest one in it. -/
theorem Reported.settle {s : State κ} (h : Reported s) {i : Nat} {c : Call κ} (hc : s.calls[i]? = some c)
    (hs : ∀ j sec, s.holder = some (j, sec) → j = i) {o : Outcome κ}
    (hold : ∀ sec, o.hold = some sec → o.call = .inside)
    (hevents : callsOf o.events = [] ∨ (callsOf o.events = [i] ∧ i ∉ callsOf s.log))
    (hpassed : i ∈ callsOf (s.log ++ o.events) →
      (∃ query links, o.hold = some (.dispatch query links)) ∨ ∃ out, o.call = .done out)
    (hdispatching : ∀ query links, o.hold = some (.dispatch query links) →
      ∃ links, .dispatched i query links ∈ s.log ++ o.events)
    (hqueued : ∀ id, o.call = .done (some (.queued id)) → ∃ query, .queued i query ∈ s.log ++ o.events ∧ query.id = id)
    (hdispatched : ∀ id, o.call = .done (some (.dispatched id)) →
      ∃ query links, .dispatched i query links ∈ s.log ++ o.events ∧ query.id = id) :
    Reported (s.settle i o) := by
  have hlt : i < s.calls.length := (List.getElem?_eq_some_iff.1 hc).1
  have hself : (s.calls.set i o.call)[i]? = some o.call := by simp [hlt]
  have hholder : ∀ j sec, o.hold.map (fun sec => (i, sec)) = some (j, sec) → j = i ∧ o.hold = some sec := by
    intro j sec hj
    obtain ⟨sec', h₁, h₂⟩ := Option.map_eq_some_iff.1 hj
    cases h₂
    exact ⟨rfl, h₁⟩
  refine ⟨?_, ?_, ?_, ?_, ?_, ?_⟩
  · simp only [State.settle, callsOf_append]
    rcases hevents with he | ⟨he, hn⟩
    · rw [he, List.append_nil]
      exact h.once
    · rw [he]
      exact List.Nodup.append h.once (List.nodup_singleton i) (List.disjoint_singleton.2 hn)
  · intro j hj
    by_cases hij : i = j
    · subst hij
      rcases hpassed hj with ⟨query, links, hd⟩ | ⟨out, hd⟩
      · exact .inl ⟨query, links, by simp [State.settle, hd]⟩
      · exact .inr ⟨out, by rw [← hd]; exact hself⟩
    · have hm : j ∈ callsOf s.log := by
        simp only [State.settle, callsOf_append, List.mem_append] at hj
        rcases hj with hj | hj
        · exact hj
        · rcases hevents with he | ⟨he, -⟩
          · rw [he] at hj
            exact absurd hj List.not_mem_nil
          · rw [he, List.mem_singleton] at hj
            exact absurd hj.symm hij
      rcases h.passed j hm with ⟨query, links, hd⟩ | ⟨out, hd⟩
      · exact absurd (hs j _ hd).symm hij
      · exact .inr ⟨out, (List.getElem?_set_ne hij).trans hd⟩
  · intro j sec hj
    obtain ⟨rfl, hh⟩ := hholder j sec hj
    rw [← hold sec hh]
    exact hself
  · intro j query links hj
    obtain ⟨rfl, hh⟩ := hholder j _ hj
    exact hdispatching query links hh
  · intro j id hj
    rcases getElem?_set_cases hj with ⟨rfl, hh⟩ | ⟨-, hj⟩
    · exact hqueued id hh.symm
    · obtain ⟨query, hm, hid⟩ := h.queued j id hj
      exact ⟨query, List.mem_append_left _ hm, hid⟩
  · intro j id hj
    rcases getElem?_set_cases hj with ⟨rfl, hh⟩ | ⟨-, hj⟩
    · exact hdispatched id hh.symm
    · obtain ⟨query, links, hm, hid⟩ := h.dispatched j id hj
      exact ⟨query, links, List.mem_append_left _ hm, hid⟩

theorem Reported.settle_silent {s : State κ} (h : Reported s) {i : Nat} {c : Call κ} (hc : s.calls[i]? = some c)
    (hs : ∀ j sec, s.holder = some (j, sec) → j = i) (hi : i ∉ callsOf s.log) {o : Outcome κ}
    (he : callsOf o.events = []) (hold : ∀ sec, o.hold = some sec → o.call = .inside)
    (hd : ∀ query links, o.hold ≠ some (.dispatch query links)) (ho : ¬o.call.HasSubmitted) :
    Reported (s.settle i o) := by
  refine h.settle hc hs hold (.inl he) (fun hm => ?_) (fun query links hq => absurd hq (hd query links))
    (fun id hid => ?_) (fun id hid => ?_)
  · rw [callsOf_append, he, List.append_nil] at hm
    exact absurd hm hi
  · rw [hid] at ho
    exact absurd trivial ho
  · rw [hid] at ho
    exact absurd trivial ho

theorem Reported.enter {s : State κ} (h : Reported s) {i : Nat} {c : Call κ} (hc : s.calls[i]? = some c)
    (hn : s.holder = none) {o : Outcome κ} (ho : c.enter? s.engine i = some o) : Reported (s.settle i o) := by
  have hfree : ∀ j sec, s.holder = some (j, sec) → j = i := fun j sec hs => absurd hs (by simp [hn])
  have hnew : ∀ hne : ∀ out, c ≠ .done out, i ∉ callsOf s.log := by
    intro hne hm
    rcases h.passed i hm with ⟨query, links, hs⟩ | ⟨out, hs⟩
    · exact absurd hs (by simp [hn])
    · rw [hc] at hs
      exact hne out (Option.some.inj hs)
  cases c with
  | submit query =>
    have hi : i ∉ callsOf s.log := hnew (by simp)
    simp only [Call.enter?] at ho
    split at ho
    · cases ho
      exact h.settle_silent hc hfree hi rfl (fun _ _ => rfl) (by simp) id
    · cases ho
      refine h.settle hc hfree (fun _ _ => rfl) (.inr ⟨rfl, hi⟩) (fun _ => .inl ⟨_, _, rfl⟩) ?_ (by simp)
        (by simp)
      intro q links hq
      cases hq
      exact ⟨_, List.mem_append_right _ (List.mem_singleton_self _)⟩
  | sight origin peer endpoint =>
    have hi : i ∉ callsOf s.log := hnew (by simp)
    simp only [Call.enter?] at ho
    split at ho
    · cases ho
      exact h.settle_silent hc hfree hi rfl (by simp) (by simp) id
    · cases ho
      exact h.settle_silent hc hfree hi rfl (fun _ _ => rfl) (by simp) id
  | drain limit =>
    have hi : i ∉ callsOf s.log := hnew (by simp)
    cases ho
    exact h.settle_silent hc hfree hi rfl (by simp) (by simp) id
  | _ => cases ho

theorem Reported.section {s : State κ} (h : Reported s) {i : Nat} {sec : Section}
    (hs : s.holder = some (i, sec)) (now : Nat) : Reported (s.settle i (sec.step s.engine i now)) := by
  have hc := h.inside i sec hs
  have hfree : ∀ j sec, s.holder = some (j, sec) → j = i := by
    intro j sec hj
    rw [hs] at hj
    cases hj
    rfl
  have hnew : ∀ hne : ∀ query links, sec ≠ .dispatch query links, i ∉ callsOf s.log := by
    intro hne hm
    rcases h.passed i hm with ⟨query, links, hd⟩ | ⟨out, hd⟩
    · rw [hs] at hd
      cases hd
      exact hne query links rfl
    · rw [hc] at hd
      cases hd
  cases sec with
  | enqueue query =>
    have hi : i ∉ callsOf s.log := hnew (by simp)
    refine h.settle hc hfree (by simp [Section.step]) (.inr ⟨rfl, hi⟩) (fun _ => .inr ⟨_, rfl⟩)
      (by simp [Section.step]) ?_ (by simp [Section.step])
    intro id hid
    cases hid
    exact ⟨query, List.mem_append_right _ (List.mem_singleton_self _), rfl⟩
  | dispatch query links =>
    obtain ⟨ls, hm⟩ := h.dispatching i query links hs
    cases links with
    | nil =>
      refine h.settle hc hfree (by simp [Section.step]) (.inl rfl) (fun _ => .inr ⟨_, rfl⟩)
        (by simp [Section.step]) (by simp [Section.step]) ?_
      intro id hid
      cases hid
      exact ⟨query, ls, List.mem_append_left _ hm, rfl⟩
    | cons n links =>
      refine h.settle hc hfree (fun _ _ => rfl) (.inl rfl) (fun _ => .inl ⟨_, _, rfl⟩) ?_
        (by simp [Section.step]) (by simp [Section.step])
      intro q links' hq
      cases hq
      exact ⟨ls, List.mem_append_left _ hm⟩
  | register origin peer endpoint =>
    have hi : i ∉ callsOf s.log := hnew (by simp)
    simp only [Section.step]
    split
    · exact h.settle_silent hc hfree hi rfl (by simp) (by simp) id
    · exact h.settle_silent hc hfree hi rfl (fun _ _ => rfl) (by simp) id
  | greet origin t replaced =>
    have hi : i ∉ callsOf s.log := hnew (by simp)
    exact h.settle_silent hc hfree hi rfl (fun _ _ => rfl) (by simp [Section.step]) id
  | release t replaced =>
    have hi : i ∉ callsOf s.log := hnew (by simp)
    simp only [Section.step]
    split
    · exact h.settle_silent hc hfree hi rfl (by simp) (by simp) id
    · exact h.settle_silent hc hfree hi rfl (fun _ _ => rfl) (by simp) id

theorem Reported.go {s : State κ} (h : Reported s) (m : Move) : Reported (s.go m) := by
  rcases go_cases s m with ⟨-, hg⟩ | ⟨c, hc, hi, hg⟩ | ⟨c, o, hc, hn, ho, hg⟩ | ⟨sec, hs, hg⟩
  · rwa [hg]
  · rw [hg]
    exact h.goFree hc hi
  · rw [hg]
    exact h.enter hc hn ho
  · rw [hg]
    exact h.section hs m.now

theorem Reported.run {s : State κ} (h : Reported s) (ms : List Move) : Reported (s.run ms) := by
  induction ms generalizing s with
  | nil => exact h
  | cons m ms ih => exact ih (h.go m)

theorem call_fresh (self : PeerId) (r : Request κ) :
    (∀ e : Engine κ, (r.call self).Fits e) ∧ ¬(r.call self).HasSubmitted := by
  cases r with
  | find => exact ⟨fun _ => trivial, id⟩
  | shutdown => exact ⟨fun _ => trivial, id⟩
  | beacon b =>
    simp only [Request.call]
    split <;> exact ⟨fun _ => trivial, id⟩
  | hello sender address port =>
    simp only [Request.call]
    split
    · exact ⟨fun _ => trivial, id⟩
    · split <;> exact ⟨fun _ => trivial, id⟩

theorem traffic_start (e : Engine κ) :
    Traffic { e with trackers := [], links := [], pending := [] } none (ledger []) := by
  refine ⟨List.nodup_nil, ?_, ?_, ?_, fun _ _ => rfl, rfl, fun n => rfl⟩
  · exact fun _ hn => absurd hn List.not_mem_nil
  · exact fun _ hn => absurd hn List.not_mem_nil
  · exact fun _ hs => absurd hs (by simp)

theorem sound_start (e : Engine κ) (requests : List (Request κ)) : Sound (.start e requests) := by
  refine ⟨traffic_start e, fun c hc => ?_⟩
  obtain ⟨r, -, rfl⟩ := List.mem_map.1 hc
  exact (call_fresh e.self r).1 _

theorem reported_start (e : Engine κ) (requests : List (Request κ)) : Reported (.start e requests) := by
  have hh : ∀ (i : Nat) (c : Call κ), (State.start e requests).calls[i]? = some c → ¬c.HasSubmitted := by
    intro i c hc
    obtain ⟨r, -, rfl⟩ := List.mem_map.1 (List.mem_of_getElem? hc)
    exact (call_fresh e.self r).2
  refine ⟨List.nodup_nil, fun _ hm => absurd hm List.not_mem_nil, fun _ _ hs => absurd hs (by simp [State.start]),
    fun _ _ _ hs => absurd hs (by simp [State.start]), ?_, ?_⟩
  · exact fun i id hi => absurd trivial (hh i _ hi)
  · exact fun i id hi => absurd trivial (hh i _ hi)

/-- What an event says of the state in which it happens. -/
def Event.Holds (s : State κ) : Event → Prop
  | .queued i query => s.holder = some (i, .enqueue query)
  | .dispatched _ _ links => s.holder = none ∧ links = registry s.engine ∧ links ≠ []
  | .registered n => n = s.engine.links.length ∧
      ∃ i origin peer endpoint, s.holder = some (i, .register origin peer endpoint)

theorem log_go (s : State κ) (m : Move) :
    (s.go m).log = s.log ∨ ∃ ev, (s.go m).log = s.log ++ [ev] ∧ ev.Holds s := by
  rcases go_cases s m with ⟨-, hg⟩ | ⟨c, -, -, hg⟩ | ⟨c, o, -, hn, ho, hg⟩ | ⟨sec, hs, hg⟩
  · rw [hg]
    exact .inl rfl
  · rw [hg]
    exact .inl rfl
  · rw [hg]
    cases c with
    | submit query =>
      simp only [Call.enter?] at ho
      split at ho
      · cases ho
        exact .inl (List.append_nil _)
      · next ht =>
        cases ho
        exact .inr ⟨_, rfl, hn, rfl, by simpa [registry] using ht⟩
    | sight origin peer endpoint =>
      simp only [Call.enter?] at ho
      split at ho <;> cases ho <;> exact .inl (List.append_nil _)
    | drain limit =>
      cases ho
      exact .inl (List.append_nil _)
    | _ => cases ho
  · rw [hg]
    cases sec with
    | enqueue query => exact .inr ⟨_, rfl, hs⟩
    | dispatch query links => cases links <;> exact .inl (List.append_nil _)
    | register origin peer endpoint =>
      simp only [Section.step]
      split
      · exact .inl (List.append_nil _)
      · exact .inr ⟨_, rfl, rfl, _, _, _, _, hs⟩
    | greet origin t replaced => exact .inl (List.append_nil _)
    | release t replaced =>
      simp only [Section.step]
      split <;> exact .inl (List.append_nil _)

theorem mem_log_run {s : State κ} {ms : List Move} {ev : Event} (h : ev ∈ (s.run ms).log) (hs : ev ∉ s.log) :
    ∃ earlier m later, ms = earlier ++ m :: later ∧
      (s.run (earlier ++ [m])).log = (s.run earlier).log ++ [ev] ∧ ev.Holds (s.run earlier) := by
  induction ms using List.reverseRecOn with
  | nil => exact absurd h hs
  | append_singleton ms m ih =>
    rw [State.run_append, State.run_singleton] at h
    have hback : ev ∈ (s.run ms).log → ∃ earlier m' later, ms ++ [m] = earlier ++ m' :: later ∧
        (s.run (earlier ++ [m'])).log = (s.run earlier).log ++ [ev] ∧ ev.Holds (s.run earlier) := by
      intro hm
      obtain ⟨earlier, m', later, rfl, hh⟩ := ih hm
      exact ⟨earlier, m', later ++ [m], by simp, hh⟩
    rcases log_go (s.run ms) m with hl | ⟨ev', hl, hh⟩
    · rw [hl] at h
      exact hback h
    · rw [hl, List.mem_append, List.mem_singleton] at h
      rcases h with h | rfl
      · exact hback h
      · exact ⟨ms, m, [], rfl, by simpa using hl, hh⟩

theorem received_before_registered {s : State κ} (h : Sound s) (hs : s.log = []) (ms : List Move)
    {before later : List Event} {n : Nat} (hl : (s.run ms).log = before ++ .registered n :: later) :
    (ledger before).received n = [] := by
  induction ms using List.reverseRecOn generalizing later with
  | nil =>
    rw [State.run_nil, hs] at hl
    exact absurd hl (by simp)
  | append_singleton ms m ih =>
    rw [State.run_append, State.run_singleton] at hl
    rcases log_go (s.run ms) m with hg | ⟨ev, hg, hh⟩
    · exact ih (hg.symm.trans hl)
    · rw [hg] at hl
      rcases concat_eq_append_cons hl with ⟨rfl, hev, -⟩ | ⟨later', -, hlog⟩
      · obtain rfl := hev
        obtain ⟨rfl, i, origin, peer, endpoint, hr⟩ := hh
        have ht := (h.run ms).traffic.received (s.run ms).engine.links.length
        rw [hr, queriesOn_of_le (Nat.le_refl _)] at ht
        simpa [Section.owes] using ht.symm
      · exact ih hlog

/-- The engine has stopped, and no call has looked at the stop flag before that and is about to register
a peer. -/
structure Halted (s : State κ) : Prop where
  stopped : s.engine.stopped = true
  idle : ∀ i origin peer endpoint, s.holder ≠ some (i, .register origin peer endpoint)

theorem stopped_step {e : Engine κ} (h : e.stopped = true) (c : Call κ) : (c.step e).1.stopped = true := by
  cases c with
  | lookUp facts k =>
    simp only [Call.step]
    split <;> exact h
  | close links limit => cases links <;> exact h
  | stop limit => rfl
  | _ => exact h

theorem Halted.go {s : State κ} (h : Halted s) (m : Move) : Halted (s.go m) := by
  obtain ⟨hs, hi⟩ := h
  rcases go_cases s m with ⟨-, hg⟩ | ⟨c, -, -, hg⟩ | ⟨c, o, -, -, ho, hg⟩ | ⟨sec, -, hg⟩
  · rw [hg]
    exact ⟨hs, hi⟩
  · rw [hg]
    exact ⟨stopped_step hs c, hi⟩
  · rw [hg]
    cases c with
    | submit query =>
      simp only [Call.enter?] at ho
      split at ho <;> cases ho <;> exact ⟨hs, by simp [State.settle]⟩
    | sight origin peer endpoint =>
      simp only [Call.enter?, hs, if_true] at ho
      cases ho
      exact ⟨hs, by simp [State.settle]⟩
    | drain limit =>
      cases ho
      exact ⟨hs, by simp [State.settle]⟩
    | _ => cases ho
  · rw [hg]
    refine ⟨(stopped_section s.engine sec m.call m.now).trans hs, ?_⟩
    cases sec with
    | dispatch query links => cases links <;> simp [State.settle, Section.step]
    | register origin peer endpoint =>
      simp only [Section.step]
      split <;> simp [State.settle]
    | release t replaced =>
      simp only [Section.step]
      split <;> simp [State.settle]
    | _ => simp [State.settle, Section.step]

theorem Halted.run {s : State κ} (h : Halted s) (ms : List Move) :
    ∃ log, (s.run ms).log = s.log ++ log ∧ ∀ n, .registered n ∉ log := by
  induction ms generalizing s with
  | nil => exact ⟨[], (List.append_nil _).symm, fun _ => List.not_mem_nil⟩
  | cons m ms ih =>
    obtain ⟨log, hl, hn⟩ := ih (h.go m)
    rw [State.run_cons, hl]
    rcases log_go s m with hg | ⟨ev, hg, hh⟩
    · exact ⟨log, by rw [hg], hn⟩
    · refine ⟨ev :: log, by rw [hg, List.append_assoc, List.singleton_append], fun n hm => ?_⟩
      rcases List.mem_cons.1 hm with rfl | hm
      · obtain ⟨-, i, origin, peer, endpoint, hr⟩ := hh
        exact h.idle i origin peer endpoint hr
      · exact hn n hm

theorem exists_split_of_mem {log : List Event} (h : (callsOf log).Nodup) {ev : Event} {i : Nat}
    (hm : ev ∈ log) (he : ev.call? = some i) :
    ∃ before later, log = before ++ ev :: later ∧ i ∉ callsOf before ∧ i ∉ callsOf later := by
  obtain ⟨before, later, rfl⟩ := List.append_of_mem hm
  have hc : callsOf (before ++ ev :: later) = callsOf before ++ i :: callsOf later := by
    simp [callsOf, he]
  rw [hc] at h
  refine ⟨before, later, rfl, fun hb => ?_, fun hl => ?_⟩
  · exact (List.disjoint_of_nodup_append h hb) List.mem_cons_self
  · exact (List.nodup_cons.1 (List.Nodup.of_append_right h)).1 hl

theorem mem_callsOf {log : List Event} {ev : Event} {i : Nat} (hm : ev ∈ log) (he : ev.call? = some i) :
    i ∈ callsOf log :=
  List.mem_filterMap.2 ⟨ev, hm, he⟩

theorem Reported.queued_account {s : State κ} (h : Reported s)
    (hfresh : ∀ before n later, s.log = before ++ .registered n :: later → (ledger before).received n = [])
    {i : Nat} {id : CorrelationId} (hi : s.calls[i]? = some (.done (some (.queued id)))) :
    ∃ before query later, s.log = before ++ .queued i query :: later ∧ query.id = id ∧
      ((∀ n, .registered n ∉ later) → (ledger s.log).only i = ⟨[(i, query)], fun _ => []⟩) ∧
      ∀ between n after, later = between ++ .registered n :: after → (∀ m, .registered m ∉ between) →
        (ledger s.log).only i = ⟨[], fun m => if m = n then [(i, query)] else []⟩ ∧
        (ledger (before ++ .queued i query :: between)).waiting <+: (ledger s.log).received n := by
  obtain ⟨query, hm, hid⟩ := h.queued i id hi
  obtain ⟨before, later, hl, hb, ha⟩ := exists_split_of_mem h.once hm rfl
  refine ⟨before, query, later, hl, hid, fun hn => ?_, fun between n after hlater hn => ?_⟩
  · rw [hl]
    exact only_of_waiting hb ha hn
  · subst hlater
    rw [callsOf_append, callsOf_registered, List.mem_append, not_or] at ha
    rw [← List.cons_append, ← List.append_assoc] at hl
    rw [hl]
    exact ⟨only_of_handed_over hb ha.1 ha.2 hn, waiting_prefix_received (hfresh _ _ _ hl) after⟩

/-- A query that is reported dispatched was given to the links of one step, and did not wait. -/
theorem Reported.dispatched_account {s : State κ} (h : Reported s) {i : Nat} {id : CorrelationId}
    (hi : s.calls[i]? = some (.done (some (.dispatched id)))) :
    (∀ query, .queued i query ∉ s.log) ∧
      ∃ query links, .dispatched i query links ∈ s.log ∧ query.id = id ∧
        (ledger s.log).only i = ⟨[], fun n => if n ∈ links then [(i, query)] else []⟩ := by
  obtain ⟨query, links, hm, hid⟩ := h.dispatched i id hi
  obtain ⟨before, later, hl, hb, ha⟩ := exists_split_of_mem h.once hm rfl
  refine ⟨fun q hq => ?_, query, links, hm, hid, ?_⟩
  · rw [hl, List.mem_append, List.mem_cons] at hq
    rcases hq with hq | hq | hq
    · exact hb (mem_callsOf hq rfl)
    · cases hq
    · exact ha (mem_callsOf hq rfl)
  · rw [hl]
    exact only_of_dispatched hb ha

/-- Every query is accounted for in every run of any calls, whatever comes between what.

While the lock is free there is no query that waits next to a tracker, and the queries that wait and
those that a link has taken are those of the ledger; what a link has taken is at no time anything else.
A query that is reported queued waits until the first registration after it, and is then given to the
new link, behind those that were queued before it, and to no other link. A query that is reported
dispatched never waits, and is given to every link that a tracker has at that step, and to no other.
After a stop nothing is registered. -/
theorem queries_accounted (e : Engine κ) (requests : List (Request κ)) (ms : List Move) :
    let start := State.start e requests
    let s := start.run ms
    let l := ledger s.log
    (s.holder = none →
      (s.engine.trackers ≠ [] → s.engine.pending = []) ∧
      s.engine.pending = l.waiting.map Prod.snd ∧
      ∀ n, queriesOn s.engine n = (l.received n).map Prod.snd) ∧
    (∀ n, queriesOn s.engine n <+: (l.received n).map Prod.snd) ∧
    (∀ i id, s.calls[i]? = some (.done (some (.queued id))) →
      ∃ before query later, s.log = before ++ .queued i query :: later ∧ query.id = id ∧
        ((∀ n, .registered n ∉ later) → l.only i = ⟨[(i, query)], fun _ => []⟩) ∧
        ∀ between n after, later = between ++ .registered n :: after → (∀ m, .registered m ∉ between) →
          l.only i = ⟨[], fun m => if m = n then [(i, query)] else []⟩ ∧
          (ledger (before ++ .queued i query :: between)).waiting <+: l.received n) ∧
    (∀ i id, s.calls[i]? = some (.done (some (.dispatched id))) →
      (∀ query, .queued i query ∉ s.log) ∧
      ∃ query links earlier m later, ms = earlier ++ m :: later ∧ query.id = id ∧
        (start.run (earlier ++ [m])).log = (start.run earlier).log ++ [.dispatched i query links] ∧
        links = registry (start.run earlier).engine ∧ links ≠ [] ∧ links.Nodup ∧
        l.only i = ⟨[], fun n => if n ∈ links then [(i, query)] else []⟩) ∧
    (∀ earlier later, ms = earlier ++ later → (start.run earlier).engine.stopped = true →
      (start.run earlier).holder = none →
      ∃ log, s.log = (start.run earlier).log ++ log ∧ ∀ n, .registered n ∉ log) := by
  intro start s l
  have hsound : ∀ ms, Sound (start.run ms) := (sound_start e requests).run
  have ht := (hsound ms).traffic
  have hr : Reported s := (reported_start e requests).run ms
  refine ⟨fun hn => ?_, fun n => ?_, fun i id hi => ?_, fun i id hi => ?_, fun earlier later hms hs hh => ?_⟩
  · have hn' : (start.run ms).holder.map Prod.snd = none := by
      change s.holder.map Prod.snd = none
      rw [hn]
      rfl
    rw [hn'] at ht
    refine ⟨fun hne => ht.idle rfl (by simpa [registry] using hne), ht.waiting.symm, fun n => ?_⟩
    simpa using ht.received n
  · rw [← ht.received n]
    exact List.prefix_append _ _
  · exact hr.queued_account
      (fun _ _ _ hl => received_before_registered (sound_start e requests) rfl ms hl) hi
  · obtain ⟨hq, query, links, hm, hid, honly⟩ := hr.dispatched_account hi
    obtain ⟨earlier, m, later, hms, hlog, -, hlinks, hne⟩ := mem_log_run hm List.not_mem_nil
    have hnodup : links.Nodup := by
      rw [hlinks]
      exact (hsound earlier).traffic.nodup
    exact ⟨hq, query, links, earlier, m, later, hms, hid, hlog, hlinks, hne, hnodup, honly⟩
  · have hhalted : Halted (start.run earlier) := ⟨hs, fun i origin peer endpoint => by simp [hh]⟩
    obtain ⟨log, hlog, hn⟩ := hhalted.run later
    refine ⟨log, ?_, hn⟩
    rw [← hlog, ← State.run_append, ← hms]

end Interleaving
end Discovery
end PeerDiscovery
