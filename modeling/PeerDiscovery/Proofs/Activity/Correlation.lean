import PeerDiscovery.Proofs.Activity.Desks

/-! Correlation ids never collide.
As long as the counter has not come round, an id says what it was drawn for. So no envelope but a query is on two links or
twice on one (`Single`), and no query waits for an answer under the id of another. A query that is answered at home, or
refused, was all the time at tasks that leave the engine alone (`Task.Unasked`). -/
namespace PeerDiscovery
namespace Activity

open Beacon (Air)
open Discovery (Engine Link FindOutcome)
open Discovery.Interleaving (Call Section)

variable {κ : Type}

/-- The ids of what a link has taken, queries left out. -/
def onceIds (l : Link) : List CorrelationId := (l.sent.filter fun m => m.type ≠ .query).map Envelope.id

theorem onceIds_of_sent_eq {l l' : Link} (h : l'.sent = l.sent) : onceIds l' = onceIds l := by
  rw [onceIds, onceIds, h]

theorem onceIds_of_query {l l' : Link} {m : Envelope} (h : l'.sent = l.sent ++ [m]) (hm : m.type = .query) :
    onceIds l' = onceIds l := by
  simp [onceIds, h, hm]

theorem onceIds_of_not_query {l l' : Link} {m : Envelope} (h : l'.sent = l.sent ++ [m]) (hm : m.type ≠ .query) :
    onceIds l' = onceIds l ++ [m.id] := by
  simp [onceIds, h, hm]

/-- What is on a link, or will be, is there once, queries left out. -/
structure Single (s : Desk κ) : Prop where
  links : ∀ (n : Nat) (l : Link), s.engine.links[n]? = some l → (onceIds l).Nodup
  drafts : (s.drafts.map fun d => d.2.id).Nodup
  apart : ∀ d ∈ s.drafts, ∀ (n : Nat) (l : Link), s.engine.links[n]? = some l → d.2.id ∉ onceIds l

theorem single_new (self : PeerId) (closeLimit : Nat) (directory : Directory) (air : Air) :
    Single (Desk.new self closeLimit directory air : Desk κ) := by
  constructor <;> simp [Desk.new, Desk.engine, State.engine, Engine.new]

namespace Single

variable {drawn : Draws} {s s' : Desk κ}

/-- What goes to a link is a query, or has an id that is neither there nor on a draft. -/
theorem of_grows (h : Single s) {P : Nat → Envelope → Prop} (hgrows : Grows P s.engine.links s'.engine.links)
    (hdrafts : (s'.drafts.map fun d => d.2.id).Nodup)
    (hapart : ∀ d ∈ s'.drafts, ∀ (n : Nat) (l : Link), s.engine.links[n]? = some l → d.2.id ∉ onceIds l)
    (hP : ∀ n m, P n m → m.type ≠ .query →
      (∀ l, s.engine.links[n]? = some l → m.id ∉ onceIds l) ∧ ∀ d ∈ s'.drafts, d.2.id ≠ m.id) : Single s' := by
  have hcases : ∀ (n : Nat) (l' : Link), s'.engine.links[n]? = some l' → onceIds l' = [] ∨
      ∃ l, s.engine.links[n]? = some l ∧
        (onceIds l' = onceIds l ∨ ∃ m, P n m ∧ m.type ≠ .query ∧ onceIds l' = onceIds l ++ [m.id]) := by
    intro n l' hl'
    rcases hgrows n l' hl' with hnil | ⟨l, hl, hsame | ⟨m, hm, hput⟩⟩
    · exact .inl (by rw [onceIds, hnil]; rfl)
    · exact .inr ⟨l, hl, .inl (onceIds_of_sent_eq hsame)⟩
    · by_cases hq : m.type = .query
      · exact .inr ⟨l, hl, .inl (onceIds_of_query hput hq)⟩
      · exact .inr ⟨l, hl, .inr ⟨m, hm, hq, onceIds_of_not_query hput hq⟩⟩
  refine ⟨fun n l' hl' => ?_, hdrafts, fun d hd n l' hl' => ?_⟩
  · rcases hcases n l' hl' with hnil | ⟨l, hl, hsame | ⟨m, hm, hq, hput⟩⟩
    · rw [hnil]
      exact List.nodup_nil
    · rw [hsame]
      exact h.links n l hl
    · rw [hput, ← List.concat_eq_append]
      exact (h.links n l hl).concat ((hP n m hm hq).1 l hl)
  · rcases hcases n l' hl' with hnil | ⟨l, hl, hsame | ⟨m, hm, hq, hput⟩⟩
    · rw [hnil]
      exact List.not_mem_nil
    · rw [hsame]
      exact hapart d hd n l hl
    · rw [hput, List.mem_append, List.mem_singleton]
      exact not_or.2 ⟨hapart d hd n l hl, (hP n m hm hq).2 d hd⟩

theorem post (h : Single s) (i : Nat) : Single (s.go (.post i)) := by
  rw [Desk.go]
  split
  · exact h
  · next n m hd =>
    have hmem : (n, m) ∈ s.drafts := List.mem_of_getElem? hd
    refine h.of_grows (P := fun n' m' => n' = n ∧ m' = m) (grows_deliver s.engine ⟨rfl, rfl⟩) ?_
      (fun d hd => h.apart d (List.mem_of_mem_eraseIdx hd)) ?_
    · exact h.drafts.sublist ((List.eraseIdx_sublist s.drafts i).map _)
    · rintro n' m' ⟨rfl, rfl⟩ -
      refine ⟨fun l hl => h.apart _ hmem n' l hl, fun d hd' heq => ?_⟩
      obtain ⟨k, hk, hdk⟩ := List.mem_eraseIdx_iff_getElem?.1 hd'
      have hi : (s.drafts.map fun d => d.2.id)[i]? = some m'.id := by rw [List.getElem?_map, hd]; rfl
      have hk' : (s.drafts.map fun d => d.2.id)[k]? = some m'.id := by rw [List.getElem?_map, hdk, ← heq]; rfl
      have hlt : i < (s.drafts.map fun d => d.2.id).length := (List.getElem?_eq_some_iff.1 hi).1
      exact hk ((List.getElem?_inj hlt h.drafts).1 (hi.trans hk'.symm)).symm

/-- As long as the counter has not come round, the id drawn next is nowhere. -/
theorem go (h : Single s) (hn : Numbered drawn s) {m : Desk.Move κ} (hb : (s.go m).engine.issued < UInt64.size) :
    Single (s.go m) := by
  have hfresh : ∀ u, s.draws m = some u → s.engine.nextId ∉ drawn.map Prod.fst := by
    intro u hu
    have hnodup := (hn.go m).nodup hb
    rw [hu] at hnodup
    exact nextId_notMem hnodup
  have hlinks : ∀ u, s.draws m = some u → ∀ (n : Nat) (l : Link), s.engine.links[n]? = some l →
      s.engine.nextId ∉ onceIds l := by
    intro u hu n l hl hm
    obtain ⟨m', hm', heq⟩ := List.mem_map.1 hm
    obtain ⟨u', hu', -⟩ := hn.sent n l m' hl (List.mem_of_mem_filter hm')
    exact hfresh u hu (heq ▸ List.mem_map_of_mem hu')
  have hdrafts : ∀ u, s.draws m = some u → ∀ d ∈ s.drafts, d.2.id ≠ s.engine.nextId := by
    intro u hu d hd heq
    obtain ⟨facts, hm, -⟩ := hn.drafts d hd
    exact hfresh u hu (heq ▸ List.mem_map_of_mem hm)
  cases m with
  | post i => exact h.post i
  | draft facts n =>
    refine h.of_grows (P := fun _ _ => False) (.refl _) ?_ (forall_mem_concat h.apart (hlinks _ rfl)) fun _ _ => False.elim
    · have hmap : ((s.go (.draft facts n)).drafts.map fun d => d.2.id) =
          (s.drafts.map fun d => d.2.id) ++ [s.engine.nextId] := List.map_append
      rw [hmap, ← List.concat_eq_append]
      refine h.drafts.concat fun hm => ?_
      obtain ⟨d, hd, heq⟩ := List.mem_map.1 hm
      exact hdrafts _ rfl d hd heq
  | go m =>
    refine h.of_grows (hn.grows_go m) h.drafts h.apart fun n m' hP hq => ?_
    rcases hP with ⟨k, hk⟩ | ⟨u, hu, -, rfl⟩
    · exact absurd hk.type hq
    · rw [Use.id_envelope]
      exact ⟨hlinks u hu n, hdrafts u hu⟩

theorem after (h : Single s) (hn : Numbered drawn s) {ms : List (Desk.Move κ)}
    (hb : (s.after ms).engine.issued < UInt64.size) : Single (s.after ms) := by
  induction ms generalizing drawn s with
  | nil => exact h
  | cons m ms ih => exact ih (h.go hn (Nat.lt_of_le_of_lt ((hn.go m).issued_le_after ms) hb)) (hn.go m) hb

end Single

/-- A query that has not got as far as to need an id, and may never get there. -/
def Task.Unasked : Task κ → Prop
  | .call (.find ..) | .call (.lookUp ..) | .call (.done (some (.local _))) | .call (.done (some .stopped)) => True
  | _ => False

theorem unasked_of_step {w : Shared κ} {now : Nat} {t : Task κ} (h : (t.step w now).2.Unasked) : t.Unasked := by
  cases t with
  | call c =>
    cases c with
    | find | lookUp => trivial
    | close links limit => cases links <;> exact h.elim
    | done => exact h
    | _ => exact h.elim
  | note facts =>
    simp only [Task.step] at h
    split at h <;> exact h.elim
  | announce facts =>
    simp only [Task.step] at h
    split at h <;> exact h.elim
  | start o =>
    simp only [Task.step] at h
    split at h <;> exact h.elim
  | listen o =>
    simp only [Task.step] at h
    split at h
    · exact h.elim
    · split at h <;> exact h.elim
  | broadcast o =>
    simp only [Task.step] at h
    split at h <;> exact h.elim
  | await loops limit => cases loops <;> exact h.elim
  | pump =>
    simp only [Task.step] at h
    split at h <;> exact h.elim
  | tell t services => cases services <;> exact h.elim
  | _ => exact h.elim

theorem engine_of_unasked {t : Task κ} (h : t.Unasked) (w : Shared κ) (now : Nat) : (t.step w now).1.engine = w.engine := by
  cases t with
  | call c =>
    cases c with
    | find => rfl
    | lookUp facts k =>
      simp only [Task.step, Call.step]
      split <;> rfl
    | done => rfl
    | _ => exact h.elim
  | _ => exact h.elim

theorem not_unasked_of_enter {e : Engine κ} {i : Nat} {t : Task κ} {o : Outcome κ} (ho : t.enter? e i = some o) :
    ¬o.task.Unasked := by
  rcases enter_cases ho with ⟨query, rfl, ⟨-, rfl⟩ | ⟨-, rfl⟩⟩ | ⟨origin, peer, endpoint, rfl, ⟨-, rfl⟩ | ⟨-, rfl⟩⟩ |
    ⟨limit, rfl, rfl⟩ | ⟨facts, rfl, rfl⟩ <;> exact id

theorem not_unasked_of_hold (e : Engine κ) (i now : Nat) (hold : Hold) : ¬(hold.step e i now).task.Unasked := by
  cases hold with
  | announce facts links count => cases links <;> exact id
  | call sec =>
    cases sec with
    | dispatch query links => cases links <;> exact id
    | register origin peer endpoint =>
      simp only [Hold.step, Section.step]
      split <;> exact id
    | release t replaced =>
      simp only [Hold.step, Section.step]
      split <;> exact id
    | enqueue | greet => exact id

def Desk.Unasked (s : Desk κ) (i : Nat) : Prop := ∀ j, s.state.jobs[i]? = some j → j.task.Unasked

namespace Desk

variable {s : Desk κ} {i : Nat}

/-- A job that needs no id after its step needed none before, and has left the engine as it was. -/
theorem unasked_of_job {k now : Nat} (h : (s.go (.go (.job k now))).Unasked i) :
    s.Unasked i ∧ (k = i → (s.go (.go (.job k now))).engine = s.engine) := by
  have hgo : s.go (.go (.job k now)) = { s with state := s.state.goJob k now } := rfl
  rw [hgo] at h ⊢
  rcases s.state.goJob_cases k now with hg | ⟨j, hj, hcases⟩
  · rw [hg] at h ⊢
    exact ⟨h, fun _ => rfl⟩
  · have hk : k < s.state.jobs.length := (List.getElem?_eq_some_iff.1 hj).1
    by_cases hi : k = i
    · subst hi
      rcases hcases with ⟨-, hg⟩ | ⟨o, -, ho, hg⟩ | ⟨hold, -, hg⟩
      · rw [hg] at h ⊢
        have ht : j.task.Unasked := unasked_of_step (h _ (List.getElem?_set_self hk))
        refine ⟨fun j' hj' => ?_, fun _ => engine_of_unasked ht s.state.shared now⟩
        obtain rfl : j' = j := Option.some.inj (hj'.symm.trans hj)
        exact ht
      · rw [hg] at h
        exact absurd (h _ (List.getElem?_set_self hk)) (not_unasked_of_enter ho)
      · rw [hg] at h
        exact absurd (h _ (List.getElem?_set_self hk)) (not_unasked_of_hold _ k now hold)
    · refine ⟨fun j' hj' => h j' ?_, (absurd · hi)⟩
      rcases hcases with ⟨-, hg⟩ | ⟨o, -, -, hg⟩ | ⟨hold, -, hg⟩
      all_goals
        rw [hg]
        exact (List.getElem?_set_ne hi).trans hj'

theorem unasked_of_go {m : Move κ} (h : (s.go m).Unasked i) : s.Unasked i := by
  cases m with
  | draft facts n => exact h
  | post k =>
    rw [go] at h
    split at h <;> exact h
  | go m =>
    cases m with
    | begin r => exact fun j hj => h j (getElem?_append_of_some hj _)
    | stir x => exact h
    | job k now => exact (unasked_of_job h).1

theorem unasked_of_after {ms : List (Move κ)} (h : (s.after ms).Unasked i) : s.Unasked i := by
  induction ms generalizing s with
  | nil => exact h
  | cons m ms ih => exact unasked_of_go (ih h)

theorem fit_after (h : Fit s.state) (ms : List (Move κ)) : Fit (s.after ms).state := by
  induction ms generalizing s with
  | nil => exact h
  | cons m ms ih =>
    refine ih ?_
    cases m with
    | go m => exact h.go m
    | draft => exact ⟨h.reaches, h.holds⟩
    | post k =>
      rw [go]
      split
      · exact h
      · exact ⟨h.reaches, h.holds⟩

end Desk

theorem Fit.goJob_eq_goFree {s : State κ} (h : Fit s) {i : Nat} {j : Job κ} (hj : s.jobs[i]? = some j)
    (hinside : j.task ≠ .call .inside) (henter : j.task.enter? s.engine i = none) (now : Nat) :
    s.goJob i now = s.goFree i now j := by
  cases hs : s.holder with
  | none => exact State.go_free hs hj henter now
  | some x =>
    obtain ⟨k, hold⟩ := x
    have hne : i ≠ k := by
      rintro rfl
      obtain ⟨j', hj', ht, -⟩ := h.holds i hold hs
      obtain rfl : j' = j := Option.some.inj (hj'.symm.trans hj)
      exact hinside ht
    simp [State.goJob, hj, hs, hne]

namespace Numbered

variable {drawn : Draws} {s : Desk κ}

theorem use_eq (h : Numbered drawn s) (hb : s.engine.issued < UInt64.size) {id : CorrelationId} {u u' : Use}
    (hu : (id, u) ∈ drawn) (hu' : (id, u') ∈ drawn) : u = u' :=
  congrArg Prod.snd (List.inj_on_of_nodup_map (h.nodup hb) hu hu' rfl)

theorem inFlight_go_remember (h : Numbered drawn s) (hfit : Fit s.state) (hb : s.engine.issued < UInt64.size) {i : Nat}
    {j : Job κ} {q : Envelope} {k : κ} (hj : s.state.jobs[i]? = some j) (ht : j.task = .call (.remember q k)) (now : Nat) :
    Asked drawn i q ∧ (s.go (.go (.job i now))).engine.inFlight = s.engine.inFlight ++ [(q.id, k)] := by
  have hasked : Asked drawn i q := by
    have hjob := h.jobs i j hj
    rwa [ht] at hjob
  have hne : ∀ p ∈ s.engine.inFlight, p.1 ≠ q.id := by
    intro p hp heq
    obtain ⟨facts, hm, -⟩ := hasked
    obtain ⟨i', facts', j', hm', hj', hstored⟩ := h.inFlight p hp
    rw [heq] at hm'
    obtain ⟨rfl, rfl⟩ := Use.query.inj (h.use_eq hb hm hm')
    obtain rfl : j' = j := Option.some.inj (hj'.symm.trans hj)
    rw [ht] at hstored
    exact hstored
  have hgo : s.state.goJob i now = s.state.goFree i now j :=
    hfit.goJob_eq_goFree hj (by simp [ht]) (by rw [ht]; rfl) now
  have hlist : (s.go (.go (.job i now))).engine.inFlight = s.engine.settled q.id ++ [(q.id, k)] := by
    change (s.state.goJob i now).engine.inFlight = _
    rw [hgo, State.goFree, ht]
    rfl
  refine ⟨hasked, hlist.trans ?_⟩
  rw [Engine.settled, List.filter_eq_self.2 fun p hp => decide_eq_true (hne p hp)]

end Numbered

/-- One id, one use. Whatever jobs are under way at once, and however long an announcement waits to go out, as long as less
than `2 ^ 64 - 1` ids were given out: no id was given out twice; all that is on a link, waits for a tracker or is in flight
has an id that was given out for it; what is on two links, or twice on one, is a query; a query is remembered beside all
that is in flight. A query that is answered at home, or refused, has no id, and none of its steps changes the engine. -/
theorem ids_never_collide (self : PeerId) (closeLimit : Nat) (directory : Directory) (air : Air) (moves : List (Desk.Move κ))
    (hbound : ((Desk.new self closeLimit directory air : Desk κ).after moves).engine.issued < UInt64.size - 1) :
    let start : Desk κ := Desk.new self closeLimit directory air
    let s := start.after moves
    let drawn := start.drawn moves
    (drawn.map Prod.fst = (List.range s.engine.issued).map (fun n => UInt64.ofNat (n + 1)) ∧ (drawn.map Prod.fst).Nodup) ∧
    (∀ (n : Nat) (l : Link) (m : Envelope), s.engine.links[n]? = some l → m ∈ l.sent →
      ∃ u, (m.id, u) ∈ drawn ∧ m = u.envelope m.id ∧ u.GoesTo n) ∧
    (∀ (n n' : Nat) (l l' : Link) (m m' : Envelope), s.engine.links[n]? = some l → s.engine.links[n']? = some l' →
      m ∈ l.sent → m' ∈ l'.sent → m.id = m'.id → m = m' ∧ (m.type ≠ .query → n = n')) ∧
    (∀ (n : Nat) (l : Link), s.engine.links[n]? = some l → (onceIds l).Nodup) ∧
    (∀ m ∈ s.engine.pending, ∃ i, Asked drawn i m) ∧
    (∀ p ∈ s.engine.inFlight, ∃ i facts, (p.1, Use.query i facts) ∈ drawn) ∧
    (∀ (i : Nat) (j : Job κ) (q : Envelope) (k : κ) (now : Nat), s.state.jobs[i]? = some j →
      j.task = .call (.remember q k) →
      Asked drawn i q ∧ (s.go (.go (.job i now))).engine.inFlight = s.engine.inFlight ++ [(q.id, k)]) ∧
    (∀ (i : Nat) (j : Job κ) (id : CorrelationId), s.state.jobs[i]? = some j →
      j.task = .call (.done (some (.queued id))) ∨ j.task = .call (.done (some (.dispatched id))) →
      ∃ facts, (id, Use.query i facts) ∈ drawn) ∧
    ∀ (i : Nat) (j : Job κ), s.state.jobs[i]? = some j →
      (∃ count, j.task = .call (.done (some (.local count)))) ∨ j.task = .call (.done (some .stopped)) →
      (∀ id facts, (id, Use.query i facts) ∉ drawn) ∧
      ∀ before later now, moves = before ++ .go (.job i now) :: later →
        ((start.after before).go (.go (.job i now))).engine = (start.after before).engine := by
  intro start s drawn
  have hnew : Numbered [] start := numbered_new self closeLimit directory air
  have h : Numbered drawn s := hnew.after moves
  have hb : s.engine.issued < UInt64.size := Nat.lt_of_lt_of_le hbound (Nat.sub_le _ _)
  have hempty : Fit start.state := by constructor <;> simp [start, Desk.new]
  have hfit : Fit s.state := Desk.fit_after hempty moves
  refine ⟨⟨h.ids, h.nodup hb⟩, h.sent, ?_, ((single_new self closeLimit directory air).after hnew hb).links, h.pending,
    fun p hp => ?_, fun i j q k now hj ht => h.inFlight_go_remember hfit hb hj ht now, fun i j id hj ht => ?_,
    fun i j hj ht => ?_⟩
  · intro n n' l l' m m' hl hl' hm hm' heq
    obtain ⟨u, hu, henv, hto⟩ := h.sent n l m hl hm
    obtain ⟨u', hu', henv', hto'⟩ := h.sent n' l' m' hl' hm'
    rw [← heq] at hu' henv'
    obtain rfl := h.use_eq hb hu hu'
    refine ⟨henv.trans henv'.symm, fun hq => ?_⟩
    rw [henv] at hq
    exact Use.goesTo_of_type hq hto hto'
  · obtain ⟨i, facts, -, hm, -⟩ := h.inFlight p hp
    exact ⟨i, facts, hm⟩
  · have hjob := h.jobs i j hj
    rcases ht with ht | ht <;> rwa [ht] at hjob
  · have hjob := h.jobs i j hj
    have htask : j.task.Unasked := by
      rcases ht with ⟨count, ht⟩ | ht <;> rw [ht] <;> trivial
    refine ⟨?_, fun before later now hmoves => ?_⟩
    · rcases ht with ⟨count, ht⟩ | ht <;> rwa [ht] at hjob
    · have hunasked : s.Unasked i := by
        intro j' hj'
        obtain rfl : j' = j := Option.some.inj (hj'.symm.trans hj)
        exact htask
      have hs : s = ((start.after before).go (.go (.job i now))).after later := by
        simp only [s, hmoves, Desk.after_append]
        rfl
      rw [hs] at hunasked
      exact (Desk.unasked_of_job (Desk.unasked_of_after hunasked)).2 rfl

/-- A query takes an id, then an announcement, then a hello, and they go out the other way round. -/
theorem ids_distinct_out_of_order :
    let self : PeerId := ⟨List.replicate 16 0, rfl⟩
    let peer : PeerId := ⟨List.replicate 16 1, rfl⟩
    let opening : Opening := { bound := .tcp "10.0.0.1" 1, found := none, capacity := 4, active := false }
    let start : Desk Unit := Desk.new self 8 ∅ { station := { interval := 1000 } }
    let step (i : Nat) : Desk.Move Unit := .go (.job i 5)
    let moves : List (Desk.Move Unit) :=
      [.go (.begin (.start opening)), step 0, step 0, step 0, .go (.begin (.find FactSet.empty ())), step 1, step 1, step 1,
        .go (.begin (.beacon ⟨peer, .tcp "10.0.0.2" 2⟩)), .draft FactSet.empty 0, step 2, step 2, step 2, step 2, step 1,
        .post 0, step 1, step 1, step 1]
    let s := start.after moves
    s.engine.issued < UInt64.size - 1 ∧ (start.drawn moves).map Prod.fst = [1, 2, 3] ∧
    s.engine.links.map (fun l => l.sent.map fun m => (m.type, m.id)) = [[(.hello, 3), (.announce, 2), (.query, 1)]] ∧
    ((start.drawn moves).map Prod.fst).Nodup ∧
    ∀ (n : Nat) (l : Link), s.engine.links[n]? = some l → (onceIds l).Nodup := by
  intro self peer opening start step moves s
  have hissued : s.engine.issued = 3 := by decide +kernel
  have hbound : s.engine.issued < UInt64.size - 1 := by rw [hissued]; decide
  obtain ⟨⟨-, hnodup⟩, -, -, honce, -⟩ := ids_never_collide self 8 ∅ { station := { interval := 1000 } } moves hbound
  exact ⟨hbound, by decide +kernel, by decide +kernel, hnodup, honce⟩

end Activity
end PeerDiscovery
