import PeerDiscovery.Proofs.Activity.Numbering

/-! Ids over a whole run.
A desk is a node at work where an announcement to one peer can have its id long before it goes out. `Numbered` is kept by
every move: it says of each id what it was drawn for, and of each envelope and each query for whom its id was drawn. -/
namespace PeerDiscovery
namespace Activity

open Discovery (Engine Link)
open Discovery.Interleaving (Call)

variable {κ : Type}

structure Desk (κ : Type) where
  state : State κ
  /-- Announcements that have an id and have not gone out, each with its link. -/
  drafts : List (Nat × Envelope) := []

namespace Desk

inductive Move (κ : Type) where
  | go (m : Activity.Move κ)
  /-- Somebody takes an id, to announce a service on a link. -/
  | draft (facts : FactSet) (link : Nat)
  /-- An announcement goes out. -/
  | post (i : Nat)

def engine (s : Desk κ) : Engine κ := s.state.engine

def withEngine (s : Desk κ) (engine : Engine κ) (drafts : List (Nat × Envelope)) : Desk κ :=
  { state := { s.state with shared := { s.state.shared with engine } }, drafts }

def go (s : Desk κ) : Move κ → Desk κ
  | .go m => { s with state := s.state.go m }
  | .draft facts n =>
    s.withEngine s.engine.takeId.1 (s.drafts ++ [(n, (Use.announce n facts).envelope s.engine.nextId)])
  | .post i =>
    match s.drafts[i]? with
    | none => s
    | some (n, m) => s.withEngine (s.engine.deliver n m).1 (s.drafts.eraseIdx i)

def after (s : Desk κ) (ms : List (Move κ)) : Desk κ := ms.foldl go s

theorem after_append (s : Desk κ) (ms ms' : List (Move κ)) : s.after (ms ++ ms') = (s.after ms).after ms' :=
  List.foldl_append

def draws (s : Desk κ) : Move κ → Option Use
  | .go m => s.state.draws m
  | .draft facts n => some (.announce n facts)
  | .post _ => none

/-- The ids of a run, and what each of them is drawn for. -/
def drawn (s : Desk κ) : List (Move κ) → Draws
  | [] => []
  | m :: ms => draw s.engine (s.draws m) ++ (s.go m).drawn ms

/-- A desk at which nothing has been done. -/
def new (self : PeerId) (closeLimit : Nat) (directory : Directory) (air : Beacon.Air) : Desk κ :=
  { state := { shared := { engine := Engine.new self closeLimit directory, air } } }

end Desk

/-- Job `i` takes one step, from `s` to `s'`, and holds the lock afterwards for something that is accounted for. -/
def Deals (drawn : Draws) (s : State κ) (i now : Nat) (j : Job κ) (s' : State κ) : Prop :=
  ∃ t, Deal drawn i s.engine j.task (s.draws (.job i now)) s'.engine t ∧ s'.jobs = s.jobs.set i { j with task := t } ∧
    ∀ k hold, s'.holder = some (k, hold) → hold.Accounted drawn k

theorem deals_goJob {s : State κ} {drawn : Draws} {i : Nat} {j : Job κ} (hj : s.jobs[i]? = some j)
    (hjob : j.task.Accounted drawn i) (hholder : ∀ k hold, s.holder = some (k, hold) → hold.Accounted drawn k)
    (hpending : ∀ m ∈ s.engine.pending, ∃ k, Asked drawn k m) (now : Nat) : Deals drawn s i now j (s.goJob i now) := by
  have hfree : s.goJob i now = s.goFree i now j → s.draws (.job i now) = j.task.draws i →
      Deals drawn s i now j (s.goJob i now) := by
    intro hg hd
    rw [Deals, hg, hd]
    exact ⟨_, deal_step s.shared now hjob, rfl, hholder⟩
  cases hs : s.holder with
  | none =>
    have hd : s.draws (.job i now) = j.task.draws i := by simp [State.draws, hj, hs]
    cases ho : j.task.enter? s.engine i with
    | none => exact hfree (State.go_free hs hj ho now) hd
    | some o =>
      have hg : s.goJob i now = s.enter i j o := State.go_enter hs hj ho now
      obtain ⟨hdeal, hhold⟩ := deal_enter hjob ho
      rw [Deals, hg, hd]
      refine ⟨_, hdeal, rfl, fun k hold hk => ?_⟩
      obtain ⟨hold', ho', heq⟩ := Option.map_eq_some_iff.1 hk
      cases heq
      exact hhold _ ho'
  | some x =>
    obtain ⟨h, hold⟩ := x
    by_cases hi : i = h
    · subst hi
      have hd : s.draws (.job i now) = hold.draws s.engine := by simp [State.draws, hj, hs]
      have hg : s.goJob i now = s.settle i j (hold.step s.engine i now) := State.go_hold hs hj now
      obtain ⟨hdeal, hhold⟩ := deal_hold (t := j.task) now (hholder i hold hs) hpending
      rw [Deals, hg, hd]
      refine ⟨_, hdeal, rfl, fun k hold' hk => ?_⟩
      obtain ⟨hold'', ho', heq⟩ := Option.map_eq_some_iff.1 hk
      cases heq
      exact hhold _ ho'
    · have hd : s.draws (.job i now) = j.task.draws i := by simp [State.draws, hj, hs, hi]
      exact hfree (by simp [State.goJob, hj, hs, hi]) hd

theorem Request.accounted_task {drawn : Draws} {i : Nat} (r : Request κ) (self : PeerId)
    (h : ∀ id facts, (id, Use.query i facts) ∉ drawn) : (r.task self).Accounted drawn i := by
  cases r with
  | find facts k => exact h
  | beacon b =>
    simp only [Request.task, Discovery.Interleaving.Request.call]
    split <;> trivial
  | hello sender address port =>
    simp only [Request.task, Discovery.Interleaving.Request.call]
    split
    · trivial
    · split <;> trivial
  | _ => trivial

/-- Every id was drawn for one thing, and every envelope has an id that was drawn for it. -/
structure Numbered (drawn : Draws) (s : Desk κ) : Prop where
  ids : drawn.map Prod.fst = (List.range s.engine.issued).map fun n => UInt64.ofNat (n + 1)
  sent : ∀ (n : Nat) (l : Link) (m : Envelope), s.engine.links[n]? = some l → m ∈ l.sent →
    ∃ u, (m.id, u) ∈ drawn ∧ m = u.envelope m.id ∧ u.GoesTo n
  pending : ∀ m ∈ s.engine.pending, ∃ i, Asked drawn i m
  inFlight : ∀ p ∈ s.engine.inFlight, ∃ i facts j, (p.1, Use.query i facts) ∈ drawn ∧ s.state.jobs[i]? = some j ∧
    j.task.Stored
  jobs : ∀ (i : Nat) (j : Job κ), s.state.jobs[i]? = some j → j.task.Accounted drawn i
  begun : ∀ id i facts, (id, Use.query i facts) ∈ drawn → i < s.state.jobs.length
  holder : ∀ i hold, s.state.holder = some (i, hold) → hold.Accounted drawn i
  drafts : ∀ d ∈ s.drafts, ∃ facts, (d.2.id, Use.announce d.1 facts) ∈ drawn ∧
    d.2 = (Use.announce d.1 facts).envelope d.2.id

theorem numbered_new (self : PeerId) (closeLimit : Nat) (directory : Directory) (air : Beacon.Air) :
    Numbered [] (Desk.new self closeLimit directory air : Desk κ) := by
  constructor <;> simp [Desk.new, Desk.engine, State.engine, Engine.new]

theorem map_fst_append_draw {drawn : Draws} {e e' : Engine κ} {use : Option Use}
    (h : drawn.map Prod.fst = (List.range e.issued).map fun n => UInt64.ofNat (n + 1))
    (hissued : e'.issued = e.issued + use.toList.length) :
    (drawn ++ draw e use).map Prod.fst = (List.range e'.issued).map fun n => UInt64.ofNat (n + 1) := by
  cases use with
  | none => simpa [draw, hissued] using h
  | some u => simp [draw, hissued, List.range_succ, h, Engine.nextId]

theorem nextId_notMem {drawn : Draws} {e : Engine κ} {u : Use}
    (hnodup : ((drawn ++ draw e (some u)).map Prod.fst).Nodup) : e.nextId ∉ drawn.map Prod.fst := by
  rw [List.map_append] at hnodup
  exact fun hm => (List.nodup_append.1 hnodup).2.2 _ hm _ (List.mem_singleton_self _) rfl

namespace Numbered

variable {drawn : Draws} {s : Desk κ}

theorem length_eq (h : Numbered drawn s) : drawn.length = s.engine.issued := by
  simpa using congrArg List.length h.ids

theorem sent_of_grows {drawn' : Draws} {P : Nat → Envelope → Prop} {ls' : List Link} (h : Numbered drawn s)
    (hsub : drawn ⊆ drawn') (hgrows : Grows P s.engine.links ls')
    (hP : ∀ n m, P n m → ∃ u, (m.id, u) ∈ drawn' ∧ m = u.envelope m.id ∧ u.GoesTo n) :
    ∀ (n : Nat) (l : Link) (m : Envelope), ls'[n]? = some l → m ∈ l.sent →
      ∃ u, (m.id, u) ∈ drawn' ∧ m = u.envelope m.id ∧ u.GoesTo n := by
  intro n l' m hl' hm
  have hold : ∀ l, s.engine.links[n]? = some l → m ∈ l.sent →
      ∃ u, (m.id, u) ∈ drawn' ∧ m = u.envelope m.id ∧ u.GoesTo n := by
    intro l hl hm
    obtain ⟨u, hu, hrest⟩ := h.sent n l m hl hm
    exact ⟨u, hsub hu, hrest⟩
  rcases hgrows n l' hl' with hnil | ⟨l, hl, hsame | ⟨m', hm', hput⟩⟩
  · rw [hnil] at hm
    cases hm
  · exact hold l hl (hsame ▸ hm)
  · rw [hput] at hm
    rcases List.mem_append.1 hm with hm | hm
    · exact hold l hl hm
    · rw [List.mem_singleton.1 hm]
      exact hP n m' hm'

theorem begin (h : Numbered drawn s) (r : Request κ) :
    Numbered (drawn ++ draw s.engine (s.draws (.go (.begin r)))) (s.go (.go (.begin r))) := by
  have hdraw : drawn ++ draw s.engine (s.draws (.go (.begin r))) = drawn := List.append_nil drawn
  rw [hdraw]
  refine ⟨h.ids, h.sent, h.pending, fun p hp => ?_, fun i j hj => ?_, fun id i facts hm => ?_, h.holder, h.drafts⟩
  · obtain ⟨i, facts, j, hm, hj, hstored⟩ := h.inFlight p hp
    exact ⟨i, facts, j, hm, getElem?_append_of_some hj _, hstored⟩
  · rcases getElem?_concat_cases hj with hj | ⟨rfl, rfl⟩
    · exact h.jobs i j hj
    · exact r.accounted_task _ fun id facts hm => Nat.lt_irrefl _ (h.begun id _ facts hm)
  · have hlen : (s.go (.go (.begin r))).state.jobs.length = s.state.jobs.length + 1 := List.length_append
    rw [hlen]
    exact Nat.lt_succ_of_lt (h.begun id i facts hm)

theorem job (h : Numbered drawn s) (i now : Nat) :
    Numbered (drawn ++ draw s.engine (s.draws (.go (.job i now)))) (s.go (.go (.job i now))) := by
  cases hj : s.state.jobs[i]? with
  | none =>
    have hgo : s.go (.go (.job i now)) = s := by simp [Desk.go, State.go, State.goJob, hj]
    have hdraw : s.draws (.go (.job i now)) = none := by simp [Desk.draws, State.draws, hj]
    rw [hgo, hdraw]
    simpa [draw] using h
  | some j =>
    obtain ⟨t, hdeal, hjobs, hholder⟩ := deals_goJob hj (h.jobs i j hj) h.holder h.pending now
    have hsub : drawn ⊆ drawn ++ draw s.engine (s.draws (.go (.job i now))) := List.subset_append_left _ _
    have hi : i < s.state.jobs.length := (List.getElem?_eq_some_iff.1 hj).1
    refine ⟨map_fst_append_draw h.ids hdeal.issued, ?_, fun m hm => ?_, fun p hp => ?_, fun k j' hj' => ?_,
      fun id k facts hm => ?_, fun k hold hk => (hholder k hold hk).mono hsub, fun d hd => ?_⟩
    · exact h.sent_of_grows hsub hdeal.links fun n m hP => hP.exists_use
    · rcases hdeal.pending m hm with hm | hm
      · obtain ⟨k, hk⟩ := h.pending m hm
        exact ⟨k, hk.mono hsub⟩
      · exact ⟨i, hm.mono hsub⟩
    · change ∃ k facts j', _ ∧ (s.state.goJob i now).jobs[k]? = some j' ∧ _
      rw [hjobs]
      rcases hdeal.inFlight p hp with hp | ⟨hstored, facts, hm⟩
      · obtain ⟨k, facts, j', hm, hj', hstored⟩ := h.inFlight p hp
        by_cases hk : i = k
        · subst hk
          obtain rfl : j' = j := Option.some.inj (hj'.symm.trans hj)
          exact ⟨i, facts, _, hsub hm, List.getElem?_set_self hi, hdeal.stored hstored⟩
        · exact ⟨k, facts, j', hsub hm, (List.getElem?_set_ne hk).trans hj', hstored⟩
      · exact ⟨i, facts, _, hsub hm, List.getElem?_set_self hi, hstored⟩
    · have hj' : (s.state.goJob i now).jobs[k]? = some j' := hj'
      rw [hjobs] at hj'
      rcases getElem?_set_cases hj' with ⟨rfl, rfl⟩ | ⟨hk, hj'⟩
      · exact hdeal.task
      · exact (h.jobs k j' hj').append fun id facts hm => hk (hdeal.job_eq hm)
    · change k < (s.state.goJob i now).jobs.length
      rw [hjobs, List.length_set]
      rcases List.mem_append.1 hm with hm | hm
      · exact h.begun id k facts hm
      · rwa [hdeal.job_eq hm]
    · obtain ⟨facts, hm, hd⟩ := h.drafts d hd
      exact ⟨facts, hsub hm, hd⟩

theorem draft (h : Numbered drawn s) (facts : FactSet) (n : Nat) :
    Numbered (drawn ++ draw s.engine (s.draws (.draft facts n))) (s.go (.draft facts n)) := by
  have hsub : drawn ⊆ drawn ++ draw s.engine (s.draws (.draft facts n)) := List.subset_append_left _ _
  have hquery : ∀ id i facts', (id, Use.query i facts') ∈ drawn ++ draw s.engine (s.draws (.draft facts n)) →
      (id, Use.query i facts') ∈ drawn := by
    intro id i facts' hm
    rcases List.mem_append.1 hm with hm | hm
    · exact hm
    · cases List.mem_singleton.1 hm
  refine ⟨map_fst_append_draw h.ids rfl, ?_, fun m hm => ?_, fun p hp => ?_, fun i j hj => ?_, fun id i facts' hm => ?_,
    fun i hold hh => (h.holder i hold hh).mono hsub, fun d hd => ?_⟩
  · exact h.sent_of_grows (P := fun _ _ => False) hsub (.refl _) fun _ _ => False.elim
  · obtain ⟨i, hi⟩ := h.pending m hm
    exact ⟨i, hi.mono hsub⟩
  · obtain ⟨i, facts', j, hm, hrest⟩ := h.inFlight p hp
    exact ⟨i, facts', j, hsub hm, hrest⟩
  · refine (h.jobs i j hj).append fun id facts' hm => ?_
    cases List.mem_singleton.1 hm
  · exact h.begun id i facts' (hquery id i facts' hm)
  · rcases List.mem_append.1 hd with hd | hd
    · obtain ⟨facts', hm, hd⟩ := h.drafts d hd
      exact ⟨facts', hsub hm, hd⟩
    · rw [List.mem_singleton.1 hd]
      exact ⟨facts, List.mem_append_right _ (List.mem_singleton_self _), rfl⟩

theorem post (h : Numbered drawn s) (i : Nat) : Numbered drawn (s.go (.post i)) := by
  rw [Desk.go]
  split
  · exact h
  · next n m hd =>
    obtain ⟨facts, hm, hq⟩ := h.drafts _ (List.mem_of_getElem? hd)
    have hlinks := h.sent_of_grows (P := fun n' m' => n' = n ∧ m' = m) (List.Subset.refl drawn)
      (grows_deliver s.engine ⟨rfl, rfl⟩) fun n' m' hP => hP.1 ▸ hP.2 ▸ ⟨.announce n facts, hm, hq, rfl⟩
    refine ⟨?_, hlinks, ?_, ?_, h.jobs, h.begun, h.holder, fun d hd => h.drafts d (List.mem_of_mem_eraseIdx hd)⟩
    · rw [Desk.withEngine, Engine.deliver_eq]
      exact h.ids
    · rw [Desk.withEngine, Engine.deliver_eq]
      exact h.pending
    · rw [Desk.withEngine, Engine.deliver_eq]
      exact h.inFlight

theorem go (h : Numbered drawn s) (m : Desk.Move κ) : Numbered (drawn ++ draw s.engine (s.draws m)) (s.go m) := by
  cases m with
  | draft facts n => exact h.draft facts n
  | post i =>
    have hdraw : drawn ++ draw s.engine (s.draws (.post i)) = drawn := List.append_nil drawn
    rw [hdraw]
    exact h.post i
  | go m =>
    cases m with
    | begin r => exact h.begin r
    | job i now => exact h.job i now
    | stir x =>
      have hdraw : drawn ++ draw s.engine (s.draws (.go (.stir x))) = drawn := List.append_nil drawn
      rw [hdraw]
      exact ⟨h.ids, h.sent, h.pending, h.inFlight, h.jobs, h.begun, h.holder, h.drafts⟩

theorem after (h : Numbered drawn s) (ms : List (Desk.Move κ)) : Numbered (drawn ++ s.drawn ms) (s.after ms) := by
  induction ms generalizing drawn s with
  | nil => simpa [Desk.drawn, Desk.after] using h
  | cons m ms ih => simpa [Desk.drawn, Desk.after] using ih (h.go m)

/-- As long as the counter has not come round, no id is drawn twice. -/
theorem nodup (h : Numbered drawn s) (hb : s.engine.issued < UInt64.size) : (drawn.map Prod.fst).Nodup := by
  rw [h.ids]
  refine List.Nodup.map_on (fun a ha b hb' hab => ?_) List.nodup_range
  have ha := List.mem_range.1 ha
  have hb' := List.mem_range.1 hb'
  have := Engine.ofNat_inj_of_lt (by omega) (by omega) hab
  omega

theorem issued_le_after (h : Numbered drawn s) (ms : List (Desk.Move κ)) :
    s.engine.issued ≤ (s.after ms).engine.issued := by
  rw [← h.length_eq, ← (h.after ms).length_eq, List.length_append]
  exact Nat.le_add_right _ _

theorem grows_go (h : Numbered drawn s) (m : Activity.Move κ) :
    Grows (Sendable drawn s.engine (s.state.draws m)) s.engine.links (s.go (.go m)).engine.links := by
  cases m with
  | begin r => exact .refl _
  | stir x => exact .refl _
  | job i now =>
    cases hj : s.state.jobs[i]? with
    | none =>
      have hgo : s.go (.go (.job i now)) = s := by simp [Desk.go, State.go, State.goJob, hj]
      rw [hgo]
      exact .refl _
    | some j =>
      obtain ⟨t, hdeal, -⟩ := deals_goJob hj (h.jobs i j hj) h.holder h.pending now
      exact hdeal.links

end Numbered

end Activity
end PeerDiscovery
